import Typist.Dispatcher

/-!
# Decisions of the dispatcher

What the dispatcher can decide on when it takes a notice or a command, case by case: itself
afterwards, and the effects. Whatever holds of every decision is shown by cases on these.
-/

namespace Typist.Dispatcher

variable {σ : Type}

/-- What can come of a wish to start a sequence. -/
inductive Starts (d : Dispatcher σ) (entry : Entry) (template : Option String)
    (ticket : Option Ticket) : Dispatcher σ → List Effect → Prop
  | busy : d.state = .typing →
      Starts d entry template ticket d
        (.emit (.triggerRejected EngineError.busy.message) ::
          Effect.toOwner ticket (.refused (.engine .busy)))
  | rejected {e : CompileError} : d.state = .idle →
      (d.engine.compile template entry).result = .error e →
      Starts d entry template ticket d
        (.emit (.sequenceFailed e.message) ::
          Effect.toOwner ticket (.refused (.engine (.compile e))))
  | started {s : Sequence} : d.state = .idle →
      (d.engine.compile template entry).result = .ok s →
      Starts d entry template ticket
        { d with
          engine := d.engine.freshToken.1
          state := .typing
          running := some d.engine.freshToken.2 }
        [.emit (.sequenceStarted (UInt64.ofNat s.size)), .start ⟨s, d.engine.freshToken.2, ticket⟩]

/-- Starting a sequence does one of these. -/
theorem starts (d : Dispatcher σ) (entry : Entry) (template : Option String)
    (ticket : Option Ticket) :
    d.Starts entry template ticket (d.startSequence entry template ticket).1
      (d.startSequence entry template ticket).2 := by
  unfold startSequence
  split
  · next hs => exact .busy hs
  · next hs =>
    split
    · next e he => exact .rejected hs he
    · next s he => exact .started hs he

/-- What a notice can bring about. -/
inductive Notices (d : Dispatcher σ) : Notice → Dispatcher σ → List Effect → Prop
  | restarted : Notices d .restarted d [.emit .listenerRestarted]
  | unarmed : d.armed = none →
      Notices d .triggered d
        [.emit .hotkeyTriggered, .emit (.triggerRejected CommandError.notArmed.message)]
  | armed {a : Armed} {d' : Dispatcher σ} {es : List Effect} : d.armed = some a →
      d.Starts a.entry a.template none d' es →
      Notices d .triggered d' (.emit .hotkeyTriggered :: es)

/-- Taking a notice does one of these. -/
theorem notices (d : Dispatcher σ) (n : Notice) :
    d.Notices n (d.onNotice n).1 (d.onNotice n).2 := by
  cases n with
  | restarted => exact .restarted
  | triggered =>
    cases ha : d.armed with
    | none =>
      simp only [onNotice, ha]
      exact .unarmed ha
    | some a =>
      simp only [onNotice, ha]
      exact .armed ha (d.starts ..)

/-- What a command can bring about. -/
inductive Commands (w : Surroundings σ) (d : Dispatcher σ) (t : Ticket) :
    Command → Dispatcher σ → List Effect → Prop
  | status : Commands w d t .status d [.probe t]
  | typed {entry : Option Entry} {template : Option String} {a : Armed} {d' : Dispatcher σ}
      {es : List Effect} : d.entryFor entry template = some a →
      d.Starts a.entry a.template (some t) d' es → Commands w d t (.autoType entry template) d' es
  | unarmed {entry : Option Entry} {template : Option String} :
      d.entryFor entry template = none →
      Commands w d t (.autoType entry template) d [.answer t (.refused .notArmed)]
  | armed (entry : Entry) (template : Option String) :
      Commands w d t (.arm entry template) { d with armed := some ⟨entry, template⟩ }
        [.answer t .armed]
  | disarmed : Commands w d t .disarm { d with armed := none } [.answer t (.disarmed d.armed.isSome)]
  | registered {chord : Option Chord} {monitor : Monitor σ} :
      d.monitor.register w.platform chord = (monitor, .ok ()) →
      Commands w d t (.register chord) { d with monitor }
        [.emit (.hotkeyRegistered ((hotkey? { d with monitor }).getD "")),
          .answer t (.registered ((hotkey? { d with monitor }).getD ""))]
  | unregistrable {chord : Option Chord} {monitor : Monitor σ} {e : RegistrationError} :
      d.monitor.register w.platform chord = (monitor, .error e) →
      Commands w d t (.register chord) { d with monitor }
        ((if d.monitor.isRegistered then [.emit .hotkeyUnregistered] else []) ++
          [.answer t (.refused (.registration e))])
  | unregistered : d.monitor.isRegistered = true →
      Commands w d t .unregister { d with monitor := d.monitor.unregister w.platform }
        [.emit .hotkeyUnregistered, .answer t .unregistered]
  | unheard : d.monitor.isRegistered = false →
      Commands w d t .unregister d [.answer t .unregistered]
  | cancelled {token : Token} : d.running = some token →
      Commands w d t .cancel { d with engine := d.engine.cancelToken token }
        [.answer t (.cancelled true)]
  | quiet : d.running = none → Commands w d t .cancel d [.answer t (.cancelled false)]
  | shutdown : Commands w d t .shutdown d []

/-- Taking a command does one of these. -/
theorem commands (w : Surroundings σ) (d : Dispatcher σ) (t : Ticket) (c : Command) :
    d.Commands w t c (d.onCommand w t c).1 (d.onCommand w t c).2 := by
  cases c with
  | status => exact .status
  | autoType entry template =>
    cases ha : d.entryFor entry template with
    | none =>
      simp only [onCommand, ha]
      exact .unarmed ha
    | some a =>
      simp only [onCommand, ha]
      exact .typed ha (d.starts ..)
  | arm entry template => exact .armed entry template
  | disarm => exact .disarmed
  | register chord =>
    cases hm : (d.monitor.register w.platform chord).2 with
    | ok _ =>
      simp only [onCommand, register, hm]
      exact .registered (Prod.ext rfl hm)
    | error e =>
      simp only [onCommand, register, hm]
      exact .unregistrable (Prod.ext rfl hm)
  | unregister =>
    cases hm : d.monitor.isRegistered with
    | true =>
      simp only [onCommand, hm, if_true]
      exact .unregistered hm
    | false =>
      simp only [onCommand, hm]
      exact .unheard hm
  | cancel =>
    cases hr : d.running with
    | none =>
      simp only [onCommand, hr]
      exact .quiet hr
    | some token =>
      simp only [onCommand, hr]
      rw [← hr]
      exact .cancelled hr
  | shutdown => exact .shutdown

end Typist.Dispatcher
