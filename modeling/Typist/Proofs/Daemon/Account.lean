import Mathlib
import Typist.Proofs.Daemon.History

/-!
# The account of answers

Every command that is to be answered is answered once or still owed an answer: it waits, the
dispatcher is busy with it, or its sequence is in flight. The account balances in every step, also
in the one in which the dispatcher stops and in those after it.
-/

namespace Typist

/-! ## Effects -/

namespace Effect

/-- Whom an effect is for: who is answered by it, or will be. -/
def owner? : Effect → Option Ticket
  | emit _ => none
  | answer t _ => some t
  | start a => a.ticket
  | probe t => some t

/-- Whom effects are for. -/
def owners (es : List Effect) : List Ticket := es.filterMap owner?

/-- Whoever is answered by effects is one whom they are for. -/
theorem mem_owners {t : Ticket} {a : Answer} {es : List Effect}
    (h : .answered t a ∈ outputs es) : t ∈ owners es := by
  obtain ⟨e, he, hout⟩ := List.mem_filterMap.mp h
  refine List.mem_filterMap.mpr ⟨e, he, ?_⟩
  cases e with
  | answer u b =>
    cases hout
    rfl
  | _ => cases hout

@[simp] theorem owners_toOwner (t : Option Ticket) (a : Answer) :
    owners (toOwner t a) = t.toList := by
  cases t <;> rfl

@[simp] theorem probes_toOwner (t : Option Ticket) (a : Answer) : probes (toOwner t a) = [] := by
  cases t <;> rfl

end Effect

namespace Dispatcher

variable {σ : Type}

/-- A wish to start a sequence is for its owner alone. -/
theorem Starts.owners {d d' : Dispatcher σ} {entry : Entry} {template : Option String}
    {ticket : Option Ticket} {es : List Effect} (h : d.Starts entry template ticket d' es) :
    Effect.owners es = ticket.toList ∧ Effect.probes es = [] := by
  cases h with
  | started => cases ticket <;> exact ⟨rfl, rfl⟩
  | _ => exact ⟨Effect.owners_toOwner .., Effect.probes_toOwner ..⟩

/-- A notice is for nobody. -/
theorem Notices.owners {d d' : Dispatcher σ} {n : Notice} {es : List Effect}
    (h : d.Notices n d' es) : Effect.owners es = [] ∧ Effect.probes es = [] := by
  cases h with
  | armed _ hstarts =>
    have hstarts := hstarts.owners
    exact hstarts
  | _ => exact ⟨rfl, rfl⟩

/-- A command is for who sent it, and looks once at most. -/
theorem Commands.owners {w : Surroundings σ} {d d' : Dispatcher σ} {t : Ticket} {c : Command}
    {es : List Effect} (h : d.Commands w t c d' es) (hc : c ≠ .shutdown) :
    Effect.owners es = [t] ∧ (Effect.probes es).length ≤ 1 := by
  cases h with
  | status => exact ⟨rfl, Nat.le_refl 1⟩
  | typed _ hstarts =>
    obtain ⟨howners, hprobes⟩ := hstarts.owners
    exact ⟨howners, by rw [hprobes]; exact Nat.zero_le 1⟩
  | unregistrable => split <;> exact ⟨rfl, Nat.zero_le 1⟩
  | shutdown => exact absurd rfl hc
  | _ => exact ⟨rfl, Nat.zero_le 1⟩

/-- A report is for the owner of its sequence. -/
theorem owners_onReport (d : Dispatcher σ) (r : Report) (elapsedMs : UInt64) :
    Effect.owners (d.onReport r elapsedMs).2 = r.ticket.toList ∧
      Effect.probes (d.onReport r elapsedMs).2 = [] :=
  ⟨Effect.owners_toOwner .., Effect.probes_toOwner ..⟩

end Dispatcher

namespace Daemon

variable {σ : Type}

/-! ## Who is answered, and who is owed an answer -/

/-- Who is answered, in order. -/
def answered (out : List Output) : List Ticket :=
  out.filterMap fun
    | .emitted _ => none
    | .answered t _ => some t

/-- The commands that are sent, in order. -/
def sends (cs : List Choice) : List (Ticket × Command) :=
  cs.filterMap fun
    | .send t c => some (t, c)
    | _ => none

/-- Who is to be answered: whoever sent a command, except to shut down. -/
def awaiting (commands : List (Ticket × Command)) : List Ticket :=
  commands.filterMap fun (t, c) ↦ match c with | .shutdown => none | _ => some t

/-- Who is owed an answer: whoever sent a command that waits, the one whose status command the
dispatcher is busy with, and the owners of the sequences in flight. -/
def outstanding (d : Daemon σ) : List Ticket :=
  awaiting d.commands ++ (d.probe.map Prod.fst).toList ++ d.workers.filterMap (·.ticket) ++
    d.reports.filterMap (·.ticket)

theorem answered_append (out rest : List Output) :
    answered (out ++ rest) = answered out ++ answered rest :=
  List.filterMap_append

@[simp] theorem answered_refuse (ts : List Ticket) : answered (refuse ts) = ts := by
  induction ts with
  | nil => rfl
  | cons t ts ih => exact congrArg (t :: ·) ih

theorem awaiting_append (commands rest : List (Ticket × Command)) :
    awaiting (commands ++ rest) = awaiting commands ++ awaiting rest :=
  List.filterMap_append

theorem sends_append (cs rest : List Choice) : sends (cs ++ rest) = sends cs ++ sends rest :=
  List.filterMap_append

theorem awaiting_cons {c : Command} (hc : c ≠ .shutdown) (t : Ticket)
    (commands : List (Ticket × Command)) : awaiting ((t, c) :: commands) = t :: awaiting commands := by
  cases c with
  | shutdown => exact absurd rfl hc
  | _ => rfl

theorem mem_awaiting {t : Ticket} {c : Command} {commands : List (Ticket × Command)}
    (h : (t, c) ∈ commands) (hc : c ≠ .shutdown) : t ∈ awaiting commands := by
  obtain ⟨pre, post, rfl⟩ := List.append_of_mem h
  rw [awaiting_append, awaiting_cons hc]
  simp

/-- Where nobody sent two commands under one ticket, the ticket tells the command. -/
theorem eq_of_awaiting_nodup {t : Ticket} {c c' : Command} {commands : List (Ticket × Command)}
    (hn : (awaiting commands).Nodup) (h : (t, c) ∈ commands) (h' : (t, c') ∈ commands)
    (hc : c ≠ .shutdown) (hc' : c' ≠ .shutdown) : c = c' := by
  induction commands with
  | nil => cases h
  | cons x commands ih =>
    obtain ⟨u, b⟩ := x
    by_cases hb : b = .shutdown
    · subst hb
      have hmem {a : Command} (ha : a ≠ .shutdown) (hx : (t, a) ∈ (u, .shutdown) :: commands) :
          (t, a) ∈ commands := by
        rcases List.mem_cons.mp hx with hx | hx
        · cases hx
          exact absurd rfl ha
        · exact hx
      exact ih hn (hmem hc h) (hmem hc' h')
    · rw [awaiting_cons hb, List.nodup_cons] at hn
      rcases List.mem_cons.mp h with he | hm <;> rcases List.mem_cons.mp h' with he' | hm'
      · cases he
        cases he'
        rfl
      · cases he
        exact absurd (mem_awaiting hm' hc') hn.1
      · cases he'
        exact absurd (mem_awaiting hm hc) hn.1
      · exact ih hn.2 hm hm'

theorem count_outstanding (d : Daemon σ) (t : Ticket) :
    d.outstanding.count t = (awaiting d.commands).count t + (d.probe.map Prod.fst).toList.count t +
      (d.workers.filterMap (·.ticket)).count t + (d.reports.filterMap (·.ticket)).count t := by
  rw [outstanding, List.count_append, List.count_append, List.count_append]

/-! ## The account of a step -/

private theorem count_apply_of_length {d : Daemon σ} {es : List Effect}
    (h : d.probe.toList.length + (Effect.probes es).length ≤ 1) (t : Ticket) :
    (answered (d.apply es).2).count t + (d.apply es).1.outstanding.count t =
      d.outstanding.count t + (Effect.owners es).count t := by
  induction es generalizing d with
  | nil => simp [apply, answered, Effect.owners]
  | cons e es ih =>
    cases e with
    | emit e => exact ih h
    | answer u a =>
      have hrest := ih h
      have hanswered : answered (d.apply (.answer u a :: es)).2 = u :: answered (d.apply es).2 := rfl
      have howners : Effect.owners (.answer u a :: es) = u :: Effect.owners es := rfl
      have hstate : (d.apply (.answer u a :: es)).1 = (d.apply es).1 := rfl
      rw [hanswered, howners, hstate, List.count_cons, List.count_cons]
      omega
    | start a =>
      have hrest := ih (d := { d with workers := d.workers ++ [Worker.ofAssignment a] }) h
      have howners : Effect.owners (.start a :: es) = a.ticket.toList ++ Effect.owners es := by
        cases ht : a.ticket <;> simp [Effect.owners, Effect.owner?, ht]
      have hworker : [Worker.ofAssignment a].filterMap (·.ticket) = a.ticket.toList := by
        cases ht : a.ticket <;> simp [Worker.ofAssignment, ht]
      have hstarted :
          ({ d with workers := d.workers ++ [Worker.ofAssignment a] }).outstanding.count t =
            d.outstanding.count t + a.ticket.toList.count t := by
        simp only [count_outstanding, List.filterMap_append, hworker, List.count_append]
        omega
      rw [apply, howners, List.count_append]
      omega
    | probe u =>
      have hlen : (Effect.probes (.probe u :: es)).length = (Effect.probes es).length + 1 := rfl
      rw [hlen] at h
      have hprobe : d.probe = none := by
        rw [← Option.toList_eq_nil_iff, ← List.length_eq_zero_iff]
        omega
      have hone : (some (u, Probe.wanting)).toList.length + (Effect.probes es).length ≤ 1 := by
        rw [Option.toList_some, List.length_singleton]
        omega
      have hrest := ih (d := { d with probe := some (u, .wanting) }) hone
      have howners : Effect.owners (.probe u :: es) = u :: Effect.owners es := rfl
      have hbegun : ({ d with probe := some (u, .wanting) }).outstanding.count t =
          d.outstanding.count t + [u].count t := by
        simp only [count_outstanding, hprobe, Option.map_some, Option.map_none, Option.toList_some,
          Option.toList_none, List.count_nil]
        omega
      rw [apply, howners, ← List.singleton_append, List.count_append]
      omega

/-- Effects answer those they are for, or leave them owed an answer. -/
theorem count_apply {d : Daemon σ} {es : List Effect} (hd : d.probe = none)
    (hes : (Effect.probes es).length ≤ 1) (t : Ticket) :
    (answered (d.apply es).2).count t + (d.apply es).1.outstanding.count t =
      d.outstanding.count t + (Effect.owners es).count t := by
  apply count_apply_of_length
  rw [hd, Option.toList_none, List.length_nil, Nat.zero_add]
  exact hes

/-- A worker's report is for the owner of what it types. -/
theorem ticket_of_report? {v : Worker} {crashReason : String} {r : Report}
    (h : v.report? crashReason = some r) : r.ticket = v.ticket := by
  obtain ⟨o, -, rfl⟩ := Option.map_eq_some_iff.mp h
  rfl

/-- A worker that moves stays owed an answer. -/
theorem outstanding_putJob {d : Daemon σ} {i : Nat} {v : Worker} (hv : d.workers[i]? = some v)
    (engine : Engine) (job : Job) : (d.putJob i v engine job).outstanding = d.outstanding := by
  have hworkers : (d.workers.set i { v with job }).filterMap (·.ticket) =
      d.workers.filterMap (·.ticket) := by
    have hmap : (d.workers.set i { v with job }).map (·.ticket) = d.workers.map (·.ticket) := by
      apply List.ext_getElem?
      intro j
      obtain ⟨hi, -⟩ := List.getElem?_eq_some_iff.mp hv
      rw [List.getElem?_map, List.getElem?_map, List.getElem?_set]
      by_cases hij : i = j
      · subst hij
        rw [if_pos rfl, if_pos hi, hv]
        rfl
      · rw [if_neg hij]
    have hsame := congrArg (List.filterMap id) hmap
    rw [List.filterMap_map, List.filterMap_map] at hsame
    exact hsame
  rw [outstanding, putJob, hworkers, outstanding]

/-- Who is owed an answer by a worker is one of those. -/
theorem count_eraseIdx {ws : List Worker} {i : Nat} {v : Worker} (hv : ws[i]? = some v)
    (t : Ticket) :
    (ws.filterMap (·.ticket)).count t =
      ((ws.eraseIdx i).filterMap (·.ticket)).count t + v.ticket.toList.count t := by
  obtain ⟨hi, rfl⟩ := List.getElem?_eq_some_iff.mp hv
  have hperm := ((List.getElem_cons_eraseIdx_perm hi).filterMap (·.ticket)).count_eq t
  rw [← hperm, List.filterMap_cons]
  cases ws[i].ticket with
  | none => rfl
  | some u =>
    rw [Option.toList_some, List.count_cons, List.count_singleton]

variable {w : Surroundings σ} {crashReason : String}

/-- A dispatcher that stops answers whoever waits; those it cannot reach are with the workers. -/
theorem count_halt {d : Daemon σ} (hp : d.probe = none) (t : Ticket) :
    (answered (d.halt w).2).count t + (d.halt w).1.outstanding.count t =
      d.outstanding.count t := by
  have hanswered : answered (d.halt w).2 =
      awaiting d.commands ++ d.reports.filterMap (·.ticket) := by
    rw [halt, answered_append, answered_refuse, answered_refuse]
    rfl
  have hleft : (d.halt w).1.outstanding = d.workers.filterMap (·.ticket) := by
    simp [outstanding, halt, hp, awaiting]
  rw [hanswered, hleft, count_outstanding, hp, List.count_append, Option.map_none,
    Option.toList_none, List.count_nil]
  omega

/-- The account of a move that neither sends nor takes a command. -/
theorem Moves.account {d : Daemon σ} {c : Choice} {s : Daemon σ × List Output}
    {es : List Effect} {rs : List Report} (hm : d.Moves w crashReason c s es rs)
    (hsend : ∀ t a, c ≠ .send t a) (htake : c ≠ .takeCommand) (hleave : c ≠ .abandon) (t : Ticket) :
    (answered s.2).count t + s.1.outstanding.count t = d.outstanding.count t := by
  cases hm with
  | still => exact Nat.zero_add _
  | posted => exact Nat.zero_add _
  | sent => exact absurd rfl (hsend _ _)
  | unheard => exact absurd rfl (hsend _ _)
  | noticed ht _ hn =>
    obtain ⟨howners, hprobes⟩ := hn.owners
    refine (count_apply ?_ ?_ t).trans ?_
    · exact probe_of_isTaking ht
    · rw [hprobes]
      exact Nat.zero_le 1
    · rw [howners]
      exact Nat.add_zero _
  | commanded => exact absurd rfl htake
  | @reported r rs ms ht hr =>
    obtain ⟨howners, hprobes⟩ := d.dispatcher.owners_onReport r ms
    have hreport : (d.reports.filterMap (·.ticket)).count t =
        r.ticket.toList.count t + (rs.filterMap (·.ticket)).count t := by
      rw [hr, List.filterMap_cons, ← List.count_append]
      cases r.ticket <;> rfl
    refine (count_apply ?_ ?_ t).trans ?_
    · exact probe_of_isTaking ht
    · rw [hprobes]
      exact Nat.zero_le 1
    · simp only [count_outstanding, hreport, howners]
      omega
  | stopped _ _ _ hc => exact absurd hc (by simp [htake, hleave])
  | looked hp =>
    rw [outstanding, outstanding, hp]
    exact Nat.zero_add _
  | @knew u p available hp =>
    have hanswered (a : Answer) : answered [.answered u a] = [u] := rfl
    simp only [count_outstanding, hp, hanswered, Option.map_some, Option.map_none,
      Option.toList_some, Option.toList_none, List.count_nil]
    omega
  | worked hv =>
    rw [outstanding_putJob hv]
    exact Nat.zero_add _
  | replied r hv =>
    rw [outstanding_putJob hv]
    exact Nat.zero_add _
  | crashed hv =>
    rw [outstanding_putJob hv]
    exact Nat.zero_add _
  | @handedIn i v r hv hr =>
    have hreport : (((d.reports ++ [r]).filterMap (·.ticket)).count t) =
        (d.reports.filterMap (·.ticket)).count t + v.ticket.toList.count t := by
      rw [List.filterMap_append, List.count_append, ← ticket_of_report? hr, List.filterMap_cons]
      cases r.ticket <;> rfl
    simp only [count_outstanding, count_eraseIdx hv t, hreport, answered, List.filterMap_nil,
      List.count_nil]
    omega
  | @late i v r hv hr =>
    rw [answered_refuse, ticket_of_report? hr]
    simp only [count_outstanding, count_eraseIdx hv t]
    omega
  | cancelled => exact Nat.zero_add _

/-- A command that is sent to a dispatcher that has stopped is answered at once. -/
theorem send_of_stopped {d : Daemon σ} (h : d.running = false) (t : Ticket) (c : Command) :
    (d.send t c).1 = d ∧ answered (d.send t c).2 = awaiting [(t, c)] := by
  unfold send
  rw [if_neg (Bool.eq_false_iff.mp h)]
  cases c <;> exact ⟨rfl, rfl⟩

variable (w crashReason) in
/-- In a step, whoever was owed an answer or sends a command is answered, or is owed an answer
after it. -/
theorem account_step (d : Daemon σ) (c : Choice) (t : Ticket) :
    (answered (d.step w crashReason c).2).count t +
        (d.step w crashReason c).1.outstanding.count t =
      d.outstanding.count t + (awaiting (sends [c])).count t := by
  cases c with
  | send u a =>
    have hsends : sends [.send u a] = [(u, a)] := rfl
    rw [hsends, step]
    cases hr : d.running with
    | true =>
      unfold send
      rw [if_pos hr]
      simp only [count_outstanding, awaiting_append, List.count_append, answered,
        List.filterMap_nil, List.count_nil]
      omega
    | false =>
      obtain ⟨hsame, hanswered⟩ := send_of_stopped hr u a
      rw [hsame, hanswered, Nat.add_comm]
  | takeCommand =>
    have hsends : awaiting (sends [.takeCommand]) = [] := rfl
    rw [hsends, step, List.count_nil, Nat.add_zero]
    obtain ⟨hsame, -⟩ | ⟨u, a, rest, ht, hcs, hc, htake⟩ | ⟨u, rest, ht, hcs, htake⟩ :=
      d.takeCommand_cases w
    · rw [hsame]
      exact Nat.zero_add _
    · obtain ⟨howners, hprobes⟩ := (d.dispatcher.commands w u a).owners hc
      rw [htake]
      refine (count_apply ?_ hprobes t).trans ?_
      · exact probe_of_isTaking ht
      · simp only [count_outstanding, howners, hcs, awaiting_cons hc, List.count_cons,
          List.count_nil]
        omega
    · rw [htake]
      refine (count_halt ?_ t).trans ?_
      · exact probe_of_isTaking ht
      · simp only [count_outstanding, hcs]
        rfl
  | abandon =>
    have hsends : awaiting (sends [.abandon]) = [] := rfl
    rw [hsends, step, abandon, List.count_nil, Nat.add_zero]
    split
    · next h =>
      rw [Bool.and_eq_true] at h
      exact count_halt (probe_of_isTaking h.1) t
    · exact Nat.zero_add _
  | _ =>
    refine (d.moves w crashReason _).account ?_ ?_ ?_ t
    · rintro _ _ ⟨⟩
    · rintro ⟨⟩
    · rintro ⟨⟩

variable (w crashReason) in
/-- The account of a run. -/
theorem account_run (d : Daemon σ) (cs : List Choice) (t : Ticket) :
    (answered (d.run w crashReason cs).2).count t +
        (d.run w crashReason cs).1.outstanding.count t =
      d.outstanding.count t + (awaiting (sends cs)).count t := by
  induction cs using List.reverseRecOn with
  | nil => exact Nat.zero_add _
  | append_singleton cs c ih =>
    have hstep := account_step w crashReason (d.run w crashReason cs).1 c t
    rw [run_concat, answered_append, sends_append, awaiting_append, List.count_append,
      List.count_append]
    dsimp only
    omega

/-! ## What waits -/

/-- Whether the commands that wait, and the status command that the dispatcher is busy with, are
among those that were sent. -/
structure Sent (d : Daemon σ) (sends : List (Ticket × Command)) : Prop where
  commands : ∀ x ∈ d.commands, x ∈ sends
  probe : ∀ t p, d.probe = some (t, p) → (t, .status) ∈ sends

/-- A daemon that nothing has happened to owes nobody an answer. -/
theorem Unused.outstanding {d : Daemon σ} (h : d.Unused) : d.outstanding = [] := by
  simp [Daemon.outstanding, awaiting, h.commands, h.probe, h.workers, h.reports]

variable (w crashReason) in
/-- Nobody who sent one command is answered twice. -/
theorem Unused.answered_nodup {d : Daemon σ} (hd : d.Unused) {cs : List Choice}
    (hn : (awaiting (sends cs)).Nodup) : (answered (d.run w crashReason cs).2).Nodup := by
  rw [List.nodup_iff_count_le_one] at hn ⊢
  intro t
  have haccount := account_run w crashReason d cs t
  rw [hd.outstanding, List.count_nil, Nat.zero_add] at haccount
  have hone := hn t
  omega

theorem Unused.sent {d : Daemon σ} (h : d.Unused) : d.Sent [] where
  commands := by simp [h.commands]
  probe := by simp [h.probe]

/-- Carrying out effects begins to look for those whom they say, or for nobody else than before. -/
theorem probe_apply_cases (d : Daemon σ) (es : List Effect) :
    (d.apply es).1.probe = d.probe ∨
      ∃ t ∈ Effect.probes es, (d.apply es).1.probe = some (t, .wanting) := by
  induction es generalizing d with
  | nil => exact .inl rfl
  | cons e es ih =>
    cases e with
    | emit e => exact ih d
    | answer t a => exact ih d
    | start a => exact ih _
    | probe t =>
      obtain h | ⟨u, hu, h⟩ := ih { d with probe := some (t, .wanting) }
      · exact .inr ⟨t, List.mem_cons_self, h⟩
      · exact .inr ⟨u, List.mem_cons_of_mem t hu, h⟩

/-- Only a status command has the dispatcher look. -/
theorem eq_status_of_mem_probes {d d' : Dispatcher σ} {t u : Ticket} {c : Command}
    {es : List Effect} (h : d.Commands w t c d' es) (hu : u ∈ Effect.probes es) :
    u = t ∧ c = .status := by
  cases h with
  | status => exact ⟨List.mem_singleton.mp hu, rfl⟩
  | typed _ hstarts =>
    rw [hstarts.owners.2] at hu
    cases hu
  | unregistrable =>
    split at hu
    · cases hu
    · cases hu
  | _ => cases hu

/-- What waits after a step waited before it, or is sent in it. -/
theorem Moves.sent_of {d : Daemon σ} {c : Choice} {s : Daemon σ × List Output}
    {es : List Effect} {rs : List Report} (hm : d.Moves w crashReason c s es rs)
    {l : List (Ticket × Command)} (h : d.Sent l) : s.1.Sent (l ++ sends [c]) := by
  have hl {x : Ticket × Command} (hx : x ∈ l) : x ∈ l ++ sends [c] :=
    List.mem_append_left _ hx
  have hcommands : ∀ x ∈ d.commands, x ∈ l ++ sends [c] := fun x hx ↦ hl (h.commands x hx)
  have hprobe : ∀ t p, d.probe = some (t, p) → (t, .status) ∈ l ++ sends [c] :=
    fun t p hp ↦ hl (h.probe t p hp)
  cases hm with
  | sent t c =>
    refine ⟨?_, hprobe⟩
    intro x hx
    rcases List.mem_append.mp hx with hx | hx
    · exact hcommands x hx
    · exact List.mem_append_right _ hx
  | noticed _ _ hn =>
    refine ⟨?_, ?_⟩
    · rw [commands_apply]
      exact hcommands
    · rw [probe_apply _ _ hn.owners.2]
      exact hprobe
  | @commanded u a rest dispatcher _ ht hcs _ hc =>
    have hrest : ∀ x ∈ rest, x ∈ d.commands := fun x hx ↦ hcs ▸ List.mem_cons_of_mem _ hx
    have hhead : (u, a) ∈ d.commands := hcs ▸ List.mem_cons_self
    refine ⟨?_, ?_⟩
    · rw [commands_apply]
      exact fun x hx ↦ hcommands x (hrest x hx)
    · intro t p hp
      obtain hsame | ⟨v, hv, hnew⟩ := probe_apply_cases { d with commands := rest, dispatcher } es
      · rw [hsame] at hp
        exact hprobe t p hp
      · rw [hnew] at hp
        cases hp
        obtain ⟨rfl, rfl⟩ := eq_status_of_mem_probes hc hv
        exact hcommands _ hhead
  | @reported r _ ms =>
    refine ⟨?_, ?_⟩
    · rw [commands_apply]
      exact hcommands
    · rw [probe_apply _ _ (Dispatcher.owners_onReport _ r ms).2]
      exact hprobe
  | stopped => exact ⟨List.forall_mem_nil _, hprobe⟩
  | looked hp =>
    refine ⟨hcommands, ?_⟩
    intro t p ht
    cases ht
    exact hprobe _ _ hp
  | knew => exact ⟨hcommands, nofun⟩
  | _ => exact ⟨hcommands, hprobe⟩

variable (w crashReason) in
/-- What waits waited before the run, or was sent in it. -/
theorem Sent.run {d : Daemon σ} {l : List (Ticket × Command)} (h : d.Sent l) (cs : List Choice) :
    (d.run w crashReason cs).1.Sent (l ++ sends cs) := by
  induction cs using List.reverseRecOn with
  | nil => exact (List.append_nil l).symm ▸ h
  | append_singleton cs c ih =>
    rw [run_concat, sends_append, ← List.append_assoc]
    exact (moves w crashReason _ c).sent_of ih

variable (w crashReason) in
/-- What waits was sent. -/
theorem Unused.sent_run {d : Daemon σ} (hd : d.Unused) (cs : List Choice) :
    (d.run w crashReason cs).1.Sent (sends cs) :=
  hd.sent.run w crashReason cs

end Daemon

end Typist
