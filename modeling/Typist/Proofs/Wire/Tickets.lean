import Mathlib.Data.List.Nodup
import Typist.Proofs.Wire.Clients

/-!
# Tickets

Every command that the daemon is sent has a ticket of its own. A frame that asks for a command is
taken with the ticket that the command is sent under, and a connection awaits an answer only while
the daemon owes it.
-/

namespace Typist

namespace Connection

variable {capacity : Nat} {c : Connection} {t : Ticket}

/-- The response to a frame that asks for a command is the daemon's. -/
theorem receive_of_ask {m : List UInt8} {command : Command}
    (h : Reception.ofFrame m = .ask command) : (c.receive t m).2.2 = some command := by
  simp [receive, h]

/-- A request never asks the daemon to shut down. -/
theorem ne_shutdown_of_ask {m : List UInt8} {command : Command}
    (h : Reception.ofFrame m = .ask command) : command ≠ .shutdown := by
  unfold Reception.ofFrame at h
  split at h
  · next q _ =>
    cases q with
    | registerHotkey hotkey =>
      unfold Request.reception at h
      dsimp only at h
      split at h <;> cases h
      nofun
    | _ => cases h <;> nofun
  · cases h

/-- Whether a connection awaits the answer of a ticket. -/
def Awaits (c : Connection) (t : Ticket) : Prop := c.isOpen = true ∧ c.awaiting = some t

/-- Sending something leaves a connection awaiting what it did, or closes it. -/
theorem Awaits.of_send {s : Sent} (h : (c.send s).1.Awaits t) : c.Awaits t := by
  unfold send at h
  split at h
  · exact h
  · cases h.1

/-- What the daemon does never makes a connection await something. -/
theorem Awaits.of_pass {uptimeSecs : UInt64} {o : Daemon.Output}
    (h : (c.act capacity (.pass uptimeSecs o)).1.Awaits t) :
    c.Awaits t ∧ ∀ a, o ≠ .answered t a := by
  cases o with
  | emitted e =>
    refine ⟨?_, nofun⟩
    simp only [act, hear] at h
    split at h
    · exact h
    · exact h
  | answered u a =>
    simp only [act, answer] at h
    split at h
    · cases h.of_send.2
    · next hawaits =>
      refine ⟨h, fun b hb ↦ hawaits ?_⟩
      cases hb
      rw [h.1, h.2, Bool.true_and, beq_self_eq_true]

theorem Awaits.of_passes {uptimeSecs : UInt64} {os : List Daemon.Output}
    (h : (c.acts capacity (os.map (.pass uptimeSecs))).1.Awaits t) :
    c.Awaits t ∧ t ∉ Daemon.answered os := by
  induction os generalizing c with
  | nil => exact ⟨h, List.not_mem_nil⟩
  | cons o os ih =>
    obtain ⟨hawaits, hrest⟩ := ih h
    obtain ⟨hfirst, ho⟩ := hawaits.of_pass
    refine ⟨hfirst, ?_⟩
    cases o with
    | emitted e => exact hrest
    | answered u a =>
      show t ∉ u :: Daemon.answered os
      rw [List.mem_cons, not_or]
      refine ⟨?_, hrest⟩
      rintro rfl
      exact ho a rfl

/-- Only a frame that asks for a command makes a connection await an answer, under the ticket that
it is taken with. -/
theorem Awaits.of_act {a : Act} (h : (c.act capacity a).1.Awaits t) :
    c.Awaits t ∨
      a = .take t ∧ ∃ m command, (m, t) ∈ c.takes a ∧ Reception.ofFrame m = .ask command := by
  cases a with
  | arrive bytes =>
    simp only [act, arrive] at h
    split at h <;> exact .inl h
  | finish => exact .inl h
  | leave => exact .inl h
  | close => cases h.1
  | pass uptimeSecs o => exact .inl h.of_pass.1
  | notify =>
    simp only [act, notify] at h
    split at h
    · split at h
      · exact .inl h.of_send
      · exact .inl h
    · exact .inl h
  | take u =>
    simp only [act] at h
    obtain ⟨htake, -⟩ | ⟨-, -, htake, -⟩ | ⟨m, rest, -, -, htake, htakes⟩ := c.takeFrame_cases u
    · rw [htake] at h
      exact .inl h
    · rw [htake] at h
      cases h.1
    · rw [htake] at h
      unfold receive at h
      split at h
      · exact .inl h.of_send
      · exact .inl h.of_send
      · next command hm =>
        cases h.2
        exact .inr ⟨rfl, m, command, htakes ▸ List.mem_singleton_self _, hm⟩

end Connection

namespace Server

open Connection (Act)
open Daemon (sends awaiting answered outstanding)

variable {σ : Type} {w : Surroundings σ} {crashReason : String}

/-! ## Fresh tickets -/

theorem sends_daemonMoves (s : Server σ) (c : Choice) :
    sends (s.daemonMoves c) = (s.asks c).toList.map (Prod.mk ⟨s.issued⟩) := by
  cases c with
  | daemon d => cases d <;> rfl
  | stopDaemon => rfl
  | takeFrame i uptimeSecs =>
    show sends ((s.asks (.takeFrame i uptimeSecs)).toList.map (.send ⟨s.issued⟩)) = _
    cases s.asks (.takeFrame i uptimeSecs) <;> rfl
  | _ => rfl

theorem issued_step (s : Server σ) (c : Choice) :
    (s.step w crashReason c).1.issued = s.issued + (s.asks c).toList.length := by
  by_cases hc : c = .connect
  · subst hc
    rfl
  · rw [(s.turns_step w crashReason hc).rest]
    rfl

variable (w crashReason) in
/-- No two commands are sent under one ticket, and the next ticket is new. -/
theorem tickets_run (s : Server σ) (cs : List Choice) :
    ((sends (s.daemonRun w crashReason cs)).map Prod.fst).Nodup ∧
      ∀ x ∈ sends (s.daemonRun w crashReason cs), x.1.index < (s.run w crashReason cs).1.issued := by
  induction cs using List.reverseRecOn with
  | nil => exact ⟨List.nodup_nil, List.forall_mem_nil _⟩
  | append_singleton cs c ih =>
    obtain ⟨hnodup, hlt⟩ := ih
    rw [daemonRun, history_concat, Daemon.sends_append, run_concat, issued_step, sends_daemonMoves]
    rw [daemonRun] at hnodup hlt
    cases (s.run w crashReason cs).1.asks c with
    | none =>
      simp only [Option.toList_none, List.map_nil, List.append_nil, List.length_nil, Nat.add_zero]
      exact ⟨hnodup, hlt⟩
    | some command =>
      simp only [Option.toList_some, List.map_cons, List.map_nil, List.map_append,
        List.length_singleton]
      refine ⟨?_, ?_⟩
      · rw [List.nodup_append]
        refine ⟨hnodup, List.nodup_singleton _, ?_⟩
        rintro t ht _ hu rfl
        obtain ⟨x, hx, rfl⟩ := List.mem_map.mp ht
        rw [List.mem_singleton] at hu
        have := hlt x hx
        rw [hu] at this
        exact Nat.lt_irrefl _ this
      · intro x hx
        rcases List.mem_append.mp hx with hx | hx
        · exact Nat.lt_succ_of_lt (hlt x hx)
        · rw [List.mem_singleton.mp hx]
          exact Nat.lt_succ_self _

/-- Those who are to be answered are some of those who sent a command. -/
theorem awaiting_sublist (commands : List (Ticket × Command)) :
    (awaiting commands).Sublist (commands.map Prod.fst) := by
  induction commands with
  | nil => exact .slnil
  | cons x commands ih =>
    obtain ⟨t, c⟩ := x
    cases c with
    | shutdown => exact ih.cons _
    | _ => exact ih.cons_cons _

variable (w crashReason) in
theorem awaiting_nodup (s : Server σ) (cs : List Choice) :
    (awaiting (sends (s.daemonRun w crashReason cs))).Nodup :=
  (tickets_run w crashReason s cs).1.sublist (awaiting_sublist _)

/-! ## Frames that ask -/

theorem taken_map_pass (c : Connection) (capacity : Nat) (uptimeSecs : UInt64)
    (os : List Daemon.Output) : c.taken capacity (os.map (.pass uptimeSecs)) = [] := by
  induction os generalizing c with
  | nil => rfl
  | cons o os ih => exact ih _

/-- The frame that a connection takes in a step, with the ticket at hand. -/
def takes (s : Server σ) (i : Nat) : Choice → List (List UInt8 × Ticket)
  | .takeFrame j _ =>
    if j = i then (s.connections[i]?.map fun c ↦ c.takes (.take ⟨s.issued⟩)).getD [] else []
  | _ => []

variable (w crashReason) in
/-- The frames that a connection takes in a run, in order. -/
def taken (s : Server σ) (i : Nat) (cs : List Choice) : List (List UInt8 × Ticket) :=
  s.history w crashReason (fun s ↦ s.takes i) cs

theorem taken_actsIn {s : Server σ} {i : Nat} {c : Connection} (hc : s.connections[i]? = some c)
    (choice : Choice) :
    c.taken s.capacity (s.actsIn w crashReason i choice) = s.takes i choice := by
  rw [actsIn, Connection.taken_append, taken_map_pass, List.append_nil]
  cases choice with
  | takeFrame j uptimeSecs =>
    simp only [ownActs, takes, hc, Option.map_some, Option.getD_some]
    split
    · exact List.append_nil _
    · rfl
  | arrive | finish | leave | notify =>
    rw [ownActs]
    split <;> rfl
  | _ => rfl

variable (w crashReason) in
/-- The frames that a connection takes are those of its conversation. -/
theorem Unused.taken {s : Server σ} (hs : s.Unused) {cs : List Choice} (hcs : .shutDown ∉ cs)
    (i : Nat) :
    ({} : Connection).taken s.capacity (s.conversation w crashReason i cs) =
      s.taken w crashReason i cs := by
  induction cs using List.reverseRecOn with
  | nil => rfl
  | append_singleton cs c ih =>
    rw [List.mem_append, not_or] at hcs
    obtain ⟨-, hcapacity, htalks⟩ := hs.talks w crashReason hcs.1
    have hi := htalks i
    rw [conversation, Server.taken, history_concat, history_concat, Connection.taken_append,
      ← conversation, ← Server.taken, ih hcs.1]
    congr 1
    cases hc : (s.run w crashReason cs).1.connections[i]? with
    | none =>
      cases c with
      | takeFrame j uptimeSecs => simp [takes, hc, Connection.taken]
      | _ => rfl
    | some c' =>
      rw [hc] at hi
      rw [← hi.eq.1, ← hcapacity, if_pos Option.isSome_some]
      exact taken_actsIn hc c

/-- A frame that is taken in a step, and asks for a command, has it sent under its ticket. -/
theorem sent_of_takes {s : Server σ} {i : Nat} {choice : Choice} {m : List UInt8} {t : Ticket}
    {command : Command} (h : (m, t) ∈ s.takes i choice) (hm : Reception.ofFrame m = .ask command) :
    (t, command) ∈ sends (s.daemonMoves choice) := by
  cases choice with
  | takeFrame j uptimeSecs =>
    rw [takes] at h
    split at h
    · next hj =>
      subst hj
      cases hc : s.connections[j]? with
      | none =>
        rw [hc] at h
        cases h
      | some c =>
        rw [hc, Option.map_some, Option.getD_some] at h
        obtain ⟨-, hnone⟩ | ⟨-, -, -, hnone⟩ | ⟨n, rest, -, -, htake, htakes⟩ :=
          c.takeFrame_cases ⟨s.issued⟩
        · rw [hnone] at h
          cases h
        · rw [hnone] at h
          cases h
        · rw [htakes, List.mem_singleton] at h
          cases h
          rw [sends_daemonMoves, asks, hc, Option.bind_some, htake, Connection.receive_of_ask hm]
          exact List.mem_singleton_self _
    · cases h
  | _ => cases h

theorem sent_of_taken {s : Server σ} {cs : List Choice} {i : Nat} {m : List UInt8} {t : Ticket}
    {command : Command} (h : (m, t) ∈ s.taken w crashReason i cs)
    (hm : Reception.ofFrame m = .ask command) :
    (t, command) ∈ sends (s.daemonRun w crashReason cs) := by
  induction cs using List.reverseRecOn with
  | nil => cases h
  | append_singleton cs choice ih =>
    rw [daemonRun, history_concat, Daemon.sends_append]
    rw [taken, history_concat] at h
    rcases List.mem_append.mp h with h | h
    · exact List.mem_append_left _ (ih h)
    · exact List.mem_append_right _ (sent_of_takes h hm)

/-! ## Answers that are owed -/

/-- The acts of a connection in a step that could make it await an answer: it takes a frame that
asks for a command, under the next ticket. -/
theorem awaits_of_actsIn {s : Server σ} {i : Nat} {c : Connection}
    (hc : s.connections[i]? = some c) {choice : Choice} {t : Ticket}
    (h : (c.acts s.capacity (s.actsIn w crashReason i choice)).1.Awaits t) :
    (c.Awaits t ∨ t = ⟨s.issued⟩ ∧
      ∃ m command, (m, t) ∈ s.takes i choice ∧ Reception.ofFrame m = .ask command) ∧
      t ∉ answered (s.daemonOutputs w crashReason choice) := by
  rw [actsIn, Connection.acts_append] at h
  obtain ⟨hown, hnew⟩ := h.of_passes
  refine ⟨?_, hnew⟩
  have hone {a : Act} (ha : (c.acts s.capacity [a]).1.Awaits t) := Connection.Awaits.of_act ha
  cases choice with
  | takeFrame j uptimeSecs =>
    rw [ownActs] at hown
    split at hown
    · next hj =>
      obtain h | ⟨hact, m, command, htakes, hm⟩ := hone hown
      · exact .inl h
      · cases hact
        refine .inr ⟨rfl, m, command, ?_, hm⟩
        rwa [takes, if_pos hj, hc, Option.map_some, Option.getD_some]
    · exact .inl hown
  | shutDown => cases hown.1
  | arrive | finish | leave | notify =>
    rw [ownActs] at hown
    split at hown
    · obtain h | ⟨hact, -⟩ := hone hown
      · exact .inl h
      · cases hact
    · exact .inl hown
  | _ => exact .inl hown

/-- A ticket that nobody has yet was not answered. -/
theorem Unused.not_mem_answered {s : Server σ} (hs : s.Unused) (cs : List Choice) :
    (⟨(s.run w crashReason cs).1.issued⟩ : Ticket) ∉
      answered (ofDaemon (s.run w crashReason cs).2) := by
  intro h
  rw [(s.daemon_run w crashReason cs).2] at h
  have haccount := Daemon.account_run w crashReason s.daemon (s.daemonRun w crashReason cs)
    ⟨(s.run w crashReason cs).1.issued⟩
  have hnothing : s.daemon.outstanding = [] := hs.daemon.outstanding
  have hpos := List.count_pos_iff.mpr h
  rw [hnothing, List.count_nil] at haccount
  have hmem : (⟨(s.run w crashReason cs).1.issued⟩ : Ticket) ∈
      awaiting (sends (s.daemonRun w crashReason cs)) := by
    rw [← List.count_pos_iff]
    omega
  obtain ⟨x, hx, hix⟩ := List.mem_map.mp ((awaiting_sublist _).subset hmem)
  have hlt := (tickets_run w crashReason s cs).2 x hx
  rw [hix] at hlt
  exact Nat.lt_irrefl _ hlt

/-- The daemon has not answered the ticket that a connection awaits. -/
theorem Unused.unanswered {s : Server σ} (hs : s.Unused) {cs : List Choice} {i : Nat}
    {c : Connection} (hc : (s.run w crashReason cs).1.connections[i]? = some c) {t : Ticket}
    (ht : c.Awaits t) : t ∉ answered (ofDaemon (s.run w crashReason cs).2) := by
  induction cs using List.reverseRecOn generalizing c with
  | nil =>
    rw [run, hs.connections] at hc
    cases hc
  | append_singleton cs choice ih =>
    rw [run_concat] at hc ⊢
    by_cases hchoice : choice = .connect
    · subst hchoice
      show t ∉ answered (ofDaemon (_ ++ []))
      rw [List.append_nil]
      obtain hold | rfl := getElem?_connect hc
      · exact ih hold ht
      · cases ht.2
    · have hturns := (s.run w crashReason cs).1.turns_step w crashReason hchoice
      rw [hturns.connection] at hc
      obtain ⟨before, hbefore, rfl⟩ := Option.map_eq_some_iff.mp hc
      obtain ⟨hold, hnew⟩ := awaits_of_actsIn (s := (s.run w crashReason cs).1) hbefore ht
      rw [ofDaemon_append, Daemon.answered_append, hturns.daemon, List.mem_append, not_or]
      refine ⟨?_, hnew⟩
      obtain hold | ⟨rfl, -⟩ := hold
      · exact ih hbefore hold
      · exact hs.not_mem_answered cs

/-- The daemon owes an answer to the ticket that a connection awaits. -/
theorem Unused.owed {s : Server σ} (hs : s.Unused) {cs : List Choice} {i : Nat} {c : Connection}
    (hc : (s.run w crashReason cs).1.connections[i]? = some c) {t : Ticket} (ht : c.Awaits t)
    (hsent : t ∈ awaiting (sends (s.daemonRun w crashReason cs))) :
    t ∈ (s.run w crashReason cs).1.daemon.outstanding := by
  have hnone := hs.unanswered hc ht
  obtain ⟨hdaemon, houtputs⟩ := s.daemon_run w crashReason cs
  have haccount := Daemon.account_run w crashReason s.daemon (s.daemonRun w crashReason cs) t
  rw [← hdaemon, ← houtputs, List.count_eq_zero.mpr hnone, hs.daemon.outstanding, List.count_nil]
    at haccount
  rw [← List.count_pos_iff] at hsent ⊢
  omega

end Server

end Typist
