import Mathlib
import Typist.Layout.MacAnsi
import Typist.Proofs.Daemon.Events
import Typist.Proofs.Daemon.Passage
import Typist.Proofs.Daemon.Replies

/-!
# Where sequences come from

Every sequence goes back to a wish: the chord was pressed, or a client asked. Which entry and which
template a wish means is told by the commands that were handled before, and of those only the last
one that armed or disarmed counts. So what was disarmed or replaced is out of reach for good.
-/

namespace Typist

/-! ## Wishes -/

namespace Command

/-- Whether a command arms an entry or disarms. -/
def isOfArming : Command → Bool
  | arm .. | disarm => true
  | _ => false

/-- Whether commands leave this armed: they armed it, and none armed or disarmed after that. -/
def Leaves (cs : List Command) (a : Armed) : Prop :=
  Latest (· = .arm a.entry a.template) (·.isOfArming = true) cs

/-- Commands before one that arms or disarms do not matter. -/
theorem leaves_append {cs rest : List Command} (h : ∃ c ∈ rest, c.isOfArming = true) {a : Armed} :
    Leaves (cs ++ rest) a ↔ Leaves rest a := by
  rw [Leaves, Leaves, latest_append]
  constructor
  · rintro (hrest | ⟨-, hnone⟩)
    · exact hrest
    · obtain ⟨c, hc, harming⟩ := h
      exact absurd harming (hnone c hc)
  · exact .inl

/-- Commands that neither arm nor disarm do not matter. -/
theorem leaves_append_of_not {cs rest : List Command} (h : ∀ c ∈ rest, c.isOfArming = false)
    {a : Armed} : Leaves (cs ++ rest) a ↔ Leaves cs a := by
  apply latest_append_of_not
  intro c hc
  refine ⟨?_, Bool.eq_false_iff.mp (h c hc)⟩
  rintro rfl
  cases h _ hc

end Command

/-- A wish to have something typed: the chord was pressed, or a client asks for an entry of its own
or for the armed one, and may bring a template. -/
inductive Wish
  | trigger
  | command (entry : Option Entry) (template : Option String)

/-- The entry and the template that a wish means, after such commands. An entry that the client
brings is typed under the client's template, and an armed one, if the client brings no template,
under its own; where there is none the fallback is typed. -/
inductive Wish.Means (cs : List Command) (fallback : String) : Wish → Entry → String → Prop
  | trigger {a : Armed} : Command.Leaves cs a →
      Means cs fallback .trigger a.entry (a.template.getD fallback)
  | own (entry : Entry) (template : Option String) :
      Means cs fallback (.command (some entry) template) entry (template.getD fallback)
  | armed {a : Armed} (template : Option String) : Command.Leaves cs a →
      Means cs fallback (.command none template) a.entry ((template.or a.template).getD fallback)

/-- A wish means the same after commands that leave the same armed. -/
theorem Wish.Means.congr {cs cs' : List Command} {fallback : String} {wish : Wish} {e : Entry}
    {template : String} (h : wish.Means cs fallback e template)
    (hleaves : ∀ a, Command.Leaves cs a → Command.Leaves cs' a) :
    wish.Means cs' fallback e template := by
  cases h with
  | trigger ha => exact .trigger (hleaves _ ha)
  | own => exact .own ..
  | armed template ha => exact .armed template (hleaves _ ha)

namespace Dispatcher

variable {σ : Type}

/-- What a dispatcher would type for a wish. -/
def pick (d : Dispatcher σ) : Wish → Option Armed
  | .trigger => d.armed
  | .command entry template => d.entryFor entry template

/-- Whether exactly that is armed which commands leave armed. -/
def IsArmedWith (d : Dispatcher σ) (cs : List Command) : Prop :=
  ∀ a, d.armed = some a ↔ Command.Leaves cs a

/-- What a dispatcher would type for a wish is what the wish means. -/
theorem IsArmedWith.means_iff {d : Dispatcher σ} {cs : List Command} (h : d.IsArmedWith cs)
    {wish : Wish} {e : Entry} {template : String} :
    wish.Means cs d.engine.options.defaultTemplate e template ↔
      ∃ t, d.pick wish = some ⟨e, t⟩ ∧ t.getD d.engine.options.defaultTemplate = template := by
  constructor
  · intro hmeans
    cases hmeans with
    | @trigger a ha => exact ⟨a.template, (h a).mpr ha, rfl⟩
    | own entry template => exact ⟨template, rfl, rfl⟩
    | @armed a template ha =>
      refine ⟨template.or a.template, ?_, rfl⟩
      rw [pick, entryFor, (h a).mpr ha]
      rfl
  · rintro ⟨t, hpick, rfl⟩
    cases wish with
    | trigger => exact .trigger ((h ⟨e, t⟩).mp hpick)
    | command entry template =>
      cases entry with
      | some entry =>
        cases hpick
        exact .own ..
      | none =>
        obtain ⟨a, ha, hsame⟩ := Option.map_eq_some_iff.mp hpick
        cases hsame
        exact .armed template ((h a).mp ha)

/-- Any other command leaves alone what is armed. -/
theorem Commands.armed_eq {w : Surroundings σ} {d d' : Dispatcher σ} {t : Ticket} {c : Command}
    {es : List Effect} (h : d.Commands w t c d' es) (hc : c.isOfArming = false) :
    d'.armed = d.armed := by
  cases h with
  | armed => cases hc
  | disarmed => cases hc
  | typed _ hstarts => exact hstarts.armed
  | _ => rfl

/-- A command that arms or disarms settles what is armed. -/
theorem Commands.armedWith {w : Surroundings σ} {d d' : Dispatcher σ} {t : Ticket} {c : Command}
    {es : List Effect} (h : d.Commands w t c d' es) (hc : c.isOfArming = true)
    (cs : List Command) : d'.IsArmedWith (cs ++ [c]) := by
  intro a
  rw [Command.leaves_append ⟨c, List.mem_singleton_self c, hc⟩, Command.Leaves, latest_singleton]
  cases h with
  | armed entry template =>
    cases a
    simp
  | disarmed => simp
  | _ => cases hc

/-- A sequence is started for whom it is wanted, or none is. -/
theorem Starts.assignments {d d' : Dispatcher σ} {entry : Entry} {template : Option String}
    {ticket : Option Ticket} {es : List Effect} (h : d.Starts entry template ticket d' es) :
    Effect.assignments es = [] ∨ ∃ s token, Effect.assignments es = [⟨s, token, ticket⟩] := by
  cases h with
  | busy => exact .inl (Effect.assignments_toOwner ..)
  | rejected => exact .inl (Effect.assignments_toOwner ..)
  | started => exact .inr ⟨_, _, rfl⟩

/-- A sequence is started if none is in flight and the template compiles to it. -/
theorem Starts.assignments_iff {d d' : Dispatcher σ} {entry : Entry} {template : Option String}
    {ticket : Option Ticket} {es : List Effect} (h : d.Starts entry template ticket d' es)
    {s : Sequence} :
    (∃ token, Effect.assignments es = [⟨s, token, ticket⟩]) ↔
      d.state = .idle ∧ (d.engine.compile template entry).result = .ok s := by
  cases h with
  | busy hs =>
    rw [Effect.assignments_emit, Effect.assignments_toOwner, hs]
    simp
  | rejected hs he =>
    rw [Effect.assignments_emit, Effect.assignments_toOwner, he]
    simp
  | @started s' hs he =>
    have hone : Effect.assignments
        [.emit (.sequenceStarted (UInt64.ofNat s'.size)), .start ⟨s', d.engine.freshToken.2, ticket⟩] =
        [⟨s', d.engine.freshToken.2, ticket⟩] := rfl
    rw [hone, hs, he]
    simp

end Dispatcher

namespace Daemon

variable {σ : Type} {w : Surroundings σ} {crashReason : String}

/-! ## Steps -/

/-- The wish that the dispatcher takes in a step, and whom it answers. -/
def wish (d : Daemon σ) : Choice → Option (Wish × Option Ticket)
  | .takeNotice =>
    match d.isTaking, d.notices.waiting with
    | true, .triggered :: _ => some (.trigger, none)
    | _, _ => none
  | .takeCommand =>
    match d.isTaking, d.commands with
    | true, (t, .autoType entry template) :: _ => some (.command entry template, some t)
    | _, _ => none
  | _ => none

/-- A dispatcher that takes a wish runs. -/
theorem running_of_wish {d : Daemon σ} {c : Choice} {wish : Wish} {t : Option Ticket}
    (h : d.wish c = some (wish, t)) : d.running = true := by
  apply running_of_isTaking
  unfold Daemon.wish at h
  split at h
  · split at h
    · assumption
    · cases h
  · split at h
    · assumption
    · cases h
  · cases h

/-- Whether a step starts nothing, as it takes no wish or there is nothing to pick for it, or starts
what comes of a wish. -/
inductive Grants (w : Surroundings σ) (d : Daemon σ) (c : Choice) : Prop
  | nothing : d.starts w c = [] →
      (∀ wish t, d.wish c = some (wish, t) → d.dispatcher.pick wish = none) → Grants w d c
  | picked {wish : Wish} {t : Option Ticket} {a : Armed} {d' : Dispatcher σ} {es : List Effect} :
      d.wish c = some (wish, t) → d.dispatcher.pick wish = some a →
      d.dispatcher.Starts a.entry a.template t d' es → d.starts w c = Effect.assignments es →
      Grants w d c

/-- A step without a wish starts nothing. -/
theorem Grants.of_not_wish {d : Daemon σ} {c : Choice} (hc : d.wish c = none)
    (hstarts : d.starts w c = []) : d.Grants w c := by
  refine .nothing hstarts ?_
  rw [hc]
  exact nofun

/-- Every step is one of these. -/
theorem grants (w : Surroundings σ) (d : Daemon σ) (c : Choice) : d.Grants w c := by
  cases c with
  | takeNotice =>
    cases ht : d.isTaking with
    | false => exact .of_not_wish (by simp [wish, ht]) (by simp [starts, effects, ht]; rfl)
    | true =>
      cases hn : d.notices.waiting with
      | nil => exact .of_not_wish (by simp [wish, hn]) (by simp [starts, effects, hn]; rfl)
      | cons n ns =>
        have heffects : d.effects w .takeNotice = (d.dispatcher.onNotice n).2 := by
          simp only [effects, ht, hn]
        have hnotices := d.dispatcher.notices n
        generalize (d.dispatcher.onNotice n).1 = d', (d.dispatcher.onNotice n).2 = es at *
        cases hnotices with
        | restarted => exact .of_not_wish (by simp [wish, ht, hn]) (by rw [starts, heffects]; rfl)
        | unarmed ha =>
          have hwish : d.wish .takeNotice = some (.trigger, none) := by simp [wish, ht, hn]
          refine .nothing (by rw [starts, heffects]; rfl) ?_
          rintro wish t h
          rw [hwish] at h
          cases h
          exact ha
        | armed ha hstarts =>
          have hwish : d.wish .takeNotice = some (.trigger, none) := by simp [wish, ht, hn]
          exact .picked hwish ha hstarts (by rw [starts, heffects]; rfl)
  | takeCommand =>
    cases ht : d.isTaking with
    | false => exact .of_not_wish (by simp [wish, ht]) (by simp [starts, effects, ht]; rfl)
    | true =>
      cases hcs : d.commands with
      | nil => exact .of_not_wish (by simp [wish, hcs]) (by simp [starts, effects, hcs]; rfl)
      | cons tc cs =>
        obtain ⟨t, c⟩ := tc
        have heffects : d.effects w .takeCommand = (d.dispatcher.onCommand w t c).2 := by
          simp only [effects, ht, hcs]
        have hcommands := d.dispatcher.commands w t c
        generalize (d.dispatcher.onCommand w t c).1 = d', (d.dispatcher.onCommand w t c).2 = es at *
        cases hcommands with
        | @typed entry template _ _ _ ha hstarts =>
          have hwish : d.wish .takeCommand = some (.command entry template, some t) := by
            simp [wish, ht, hcs]
          exact .picked hwish ha hstarts (by rw [starts, heffects])
        | @unarmed entry template ha =>
          have hwish : d.wish .takeCommand = some (.command entry template, some t) := by
            simp [wish, ht, hcs]
          refine .nothing (by rw [starts, heffects]; rfl) ?_
          rintro wish t h
          rw [hwish] at h
          cases h
          exact ha
        | unregistrable =>
          refine .of_not_wish (by simp [wish, ht, hcs]) ?_
          rw [starts, heffects]
          split <;> rfl
        | _ => exact .of_not_wish (by simp [wish, ht, hcs]) (by rw [starts, heffects]; rfl)
  | takeReport elapsedMs =>
    refine .of_not_wish rfl ?_
    rw [starts, effects]
    split
    · exact Dispatcher.assignments_onReport ..
    · rfl
  | _ => exact .of_not_wish rfl rfl

/-- A step starts one sequence at most. -/
theorem Grants.eq_singleton {d : Daemon σ} {c : Choice} (h : d.Grants w c) {a : Assignment}
    (ha : a ∈ d.starts w c) : d.starts w c = [a] := by
  cases h with
  | nothing hnone =>
    rw [hnone] at ha
    cases ha
  | picked _ _ hstarts hsame =>
    rw [hsame] at ha ⊢
    obtain hnone | ⟨s, token, hone⟩ := hstarts.assignments
    · rw [hnone] at ha
      cases ha
    · rw [hone] at ha ⊢
      rw [List.mem_singleton.mp ha]

/-- A sequence is started for a wish if none is in flight, and what is picked for the wish compiles
to it. -/
theorem Grants.starts_iff {d : Daemon σ} {c : Choice} (h : d.Grants w c) {s : Sequence}
    {t : Option Ticket} :
    (∃ token, d.starts w c = [⟨s, token, t⟩]) ↔
      ∃ wish a, d.wish c = some (wish, t) ∧ d.dispatcher.pick wish = some a ∧
        d.dispatcher.state = .idle ∧
        (d.dispatcher.engine.compile a.template a.entry).result = .ok s := by
  cases h with
  | nothing hnone hpick =>
    rw [hnone]
    constructor
    · rintro ⟨token, h⟩
      cases h
    · rintro ⟨wish, a, hwish, ha, -⟩
      rw [hpick wish t hwish] at ha
      cases ha
  | @picked wish u a _ es hwish ha hstarts hsame =>
    rw [hsame]
    constructor
    · rintro ⟨token, hone⟩
      obtain rfl : u = t := by
        obtain hnone | ⟨s', token', hone'⟩ := hstarts.assignments
        · rw [hnone] at hone
          cases hone
        · rw [hone'] at hone
          cases hone
          rfl
      exact ⟨wish, a, hwish, ha, hstarts.assignments_iff.mp ⟨token, hone⟩⟩
    · rintro ⟨wish', a', hwish', ha', hs⟩
      rw [hwish] at hwish'
      cases hwish'
      rw [ha] at ha'
      cases ha'
      exact hstarts.assignments_iff.mpr hs

/-! ## Runs -/

/-- Where no command is taken that arms or disarms, what is armed stays. -/
theorem armed_step (d : Daemon σ) (c : Choice) (hc : ∀ b ∈ d.handles c, b.isOfArming = false) :
    (d.step w crashReason c).1.dispatcher.armed = d.dispatcher.armed := by
  by_cases htake : c = .takeCommand
  · subst htake
    rw [step]
    obtain ⟨hsame, -⟩ | ⟨t, b, rest, ht, hcs, -, hdecides⟩ | ⟨t, rest, -, -, hstops⟩ :=
      d.takeCommand_cases w
    · rw [hsame]
    · rw [handles, ht, hcs] at hc
      rw [hdecides, dispatcher_apply]
      exact (d.dispatcher.commands w t b).armed_eq (hc b (List.mem_singleton_self b))
    · rw [hstops]
      rfl
  · exact (d.moves w crashReason c).armed_eq htake

/-- What is armed is what the commands that are handled leave armed. -/
theorem isArmedWith_step {d : Daemon σ} {cs : List Command} (h : d.dispatcher.IsArmedWith cs)
    (c : Choice) : (d.step w crashReason c).1.dispatcher.IsArmedWith (cs ++ d.handles c) := by
  by_cases hc : ∀ b ∈ d.handles c, b.isOfArming = false
  · intro a
    rw [armed_step d c hc, h a, Command.leaves_append_of_not hc]
  · obtain ⟨b, hb, harming⟩ : ∃ b ∈ d.handles c, b.isOfArming = true := by simpa using hc
    cases c with
    | takeCommand =>
      rw [step]
      obtain ⟨-, hnone⟩ | ⟨t, b', rest, ht, hcs, -, hdecides⟩ | ⟨t, rest, ht, hcs, -⟩ :=
        d.takeCommand_cases w
      · rw [hnone] at hb
        cases hb
      · have hone : d.handles .takeCommand = [b'] := by
          rw [handles, ht, hcs]
          rfl
        rw [hone] at hb ⊢
        obtain rfl := List.mem_singleton.mp hb
        rw [hdecides, dispatcher_apply]
        exact (d.dispatcher.commands w t b).armedWith harming cs
      · rw [handles, ht, hcs] at hb
        obtain rfl := List.mem_singleton.mp hb
        cases harming
    | _ => cases hb

variable (w crashReason) in
theorem Unused.isArmedWith_run {d : Daemon σ} (hd : d.Unused) (cs : List Choice) :
    (d.run w crashReason cs).1.dispatcher.IsArmedWith (d.handled w crashReason cs) := by
  induction cs using List.reverseRecOn with
  | nil =>
    intro a
    rw [run, hd.armed]
    constructor
    · intro harmed
      cases harmed
    · intro hleaves
      exact absurd hleaves not_latest_nil
  | append_singleton cs c ih =>
    rw [run_concat, handled, history_concat]
    exact isArmedWith_step ih c

variable (w crashReason) in
/-- Where the sequences come from that are started in the step after a run, and what is typed for the
one that is in flight then. -/
structure Sources (d : Daemon σ) (cs : List Choice) : Prop where
  /-- A step starts one sequence at most, -/
  at_most_one : ∀ c, ∀ a ∈ (d.run w crashReason cs).1.starts w c,
    (d.run w crashReason cs).1.starts w c = [a]
  /-- and does so for a wish: the sequence is what the wish means after the commands handled so far,
  compiled. -/
  started_iff : ∀ c s t, (∃ token, (d.run w crashReason cs).1.starts w c = [⟨s, token, t⟩]) ↔
    ∃ wish e template, (d.run w crashReason cs).1.wish c = some (wish, t) ∧
      (d.run w crashReason cs).1.dispatcher.state = .idle ∧
      wish.Means (d.handled w crashReason cs) d.dispatcher.engine.options.defaultTemplate e
        template ∧
      (Template.compile template (some e)).result = .ok s
  /-- An entry that was armed, and then disarmed or replaced, is not what any wish means: what is
  started can be told from the later commands alone. -/
  forgotten : ∀ pre entry template later,
    d.handled w crashReason cs = pre ++ .arm entry template :: later →
    (∃ b ∈ later, b.isOfArming = true) →
    ∀ c, ∀ a ∈ (d.run w crashReason cs).1.starts w c, ∃ wish e picked,
      (d.run w crashReason cs).1.wish c = some (wish, a.ticket) ∧
      wish.Means later d.dispatcher.engine.options.defaultTemplate e picked ∧
      (Template.compile picked (some e)).result = .ok a.sequence
  /-- Whatever else is taken or happens, the armed entry and its template stay. -/
  kept : ∀ c, (∀ b ∈ (d.run w crashReason cs).1.handles c, b.isOfArming = false) →
    ((d.run w crashReason cs).1.step w crashReason c).1.dispatcher.armed =
      (d.run w crashReason cs).1.dispatcher.armed
  /-- What was typed since the last sequence was started was typed for this sequence. -/
  typed : (d.run w crashReason cs).1.running = true → ∃ o, (d.run w crashReason cs).1.Flight o ∧
    ∀ a, o = some a → ∃ xs, d.Began w crashReason cs a xs ∧
      (d.run w crashReason cs).1.Carries crashReason
        (d.dispatcher.engine.script w.trusted a.sequence) xs

variable (w crashReason) in
/-- The hotkey types the entry that was armed last, if it was not disarmed; a command that brings an
entry types this one and leaves the armed one alone, and a command that brings none types the armed
one. -/
theorem typed_from_wishes {d : Daemon σ} (hd : d.Unused) (cs : List Choice) :
    d.Sources w crashReason cs := by
  have harmed := hd.isArmedWith_run w crashReason cs
  -- a dispatcher that takes a wish runs, so its default template is still the first one
  have hoptions {c : Choice} {wish : Wish} {t : Option Ticket}
      (hwish : (d.run w crashReason cs).1.wish c = some (wish, t)) :
      (d.run w crashReason cs).1.dispatcher.engine.options = d.dispatcher.engine.options :=
    (typesAs_run w crashReason d cs (running_of_wish hwish)).2
  have hstarted (c : Choice) (s : Sequence) (t : Option Ticket) :
      (∃ token, (d.run w crashReason cs).1.starts w c = [⟨s, token, t⟩]) ↔
        ∃ wish e template, (d.run w crashReason cs).1.wish c = some (wish, t) ∧
          (d.run w crashReason cs).1.dispatcher.state = .idle ∧
          wish.Means (d.handled w crashReason cs) d.dispatcher.engine.options.defaultTemplate e
            template ∧
          (Template.compile template (some e)).result = .ok s := by
    rw [((d.run w crashReason cs).1.grants w c).starts_iff]
    constructor
    · rintro ⟨wish, a, hwish, ha, hidle, hs⟩
      refine ⟨wish, a.entry, _, hwish, hidle, ?_, hs⟩
      rw [← hoptions hwish]
      exact harmed.means_iff.mpr ⟨a.template, ha, rfl⟩
    · rintro ⟨wish, e, template, hwish, hidle, hmeans, hs⟩
      rw [← hoptions hwish] at hmeans
      obtain ⟨t, ha, rfl⟩ := harmed.means_iff.mp hmeans
      exact ⟨wish, ⟨e, t⟩, hwish, ha, hidle, hs⟩
  constructor
  case at_most_one => exact fun c a ha ↦ ((d.run w crashReason cs).1.grants w c).eq_singleton ha
  case started_iff => exact hstarted
  case forgotten =>
    intro pre entry template later hsplit hlater c a ha
    have hone : (d.run w crashReason cs).1.starts w c = [⟨a.sequence, a.token, a.ticket⟩] :=
      ((d.run w crashReason cs).1.grants w c).eq_singleton ha
    obtain ⟨wish, e, picked, hwish, -, hmeans, hs⟩ := (hstarted c _ _).mp ⟨a.token, hone⟩
    refine ⟨wish, e, picked, hwish, hmeans.congr ?_, hs⟩
    intro left hleaves
    rw [hsplit, List.append_cons, Command.leaves_append hlater] at hleaves
    exact hleaves
  case kept => exact fun c hc ↦ armed_step _ c hc
  case typed => exact hd.toIdle.underway w crashReason cs

/-- An entry is armed and then replaced, and the chord is pressed. -/
def replacing : List Choice :=
  [.send ⟨0⟩ (.register (some (.make (.named .f2) { control := true }))), .takeCommand,
    .send ⟨1⟩ (.arm { username := "al" } none), .takeCommand,
    .send ⟨2⟩ (.arm { username := "bo" } (some "\x7bUSER\x7d!")), .takeCommand, .notice .triggered]

/-- The entry that replaced the other is typed, under its own template. -/
theorem typed_from_wishes_of_replaced :
    (fresh .macAnsi).Unused ∧
      ((fresh .macAnsi).handled (permissive .macAnsi) "" replacing).length = 3 ∧
      (((fresh .macAnsi).run (permissive .macAnsi) "" replacing).1.starts (permissive .macAnsi)
        .takeNotice).map (·.sequence.actions) = [[.text "bo", .text "!"]] ∧
      (fresh .macAnsi).Sources (permissive .macAnsi) "" replacing := by
  refine ⟨unused_fresh _, by cbv, by cbv, ?_⟩
  exact typed_from_wishes (permissive .macAnsi) "" (unused_fresh _) replacing

end Daemon

end Typist
