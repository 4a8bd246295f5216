import Mathlib.Data.List.Basic
import Typist.Proofs.Daemon.Answers
import Typist.Proofs.Wire.Tickets

/-!
# Where messages come from

A client is sent what its frames are answered with at once, what the daemon answers, and the events
that the daemon emits, and nothing else. So what holds of those holds of every message, whoever the
clients are and whatever they do.
-/

namespace Typist

/-- Where a message comes from, in view of what the daemon does. -/
inductive Sent.Origin (out : List Daemon.Output) : Sent → Prop
  | told {frame : List UInt8} {r : Response} : Reception.ofFrame frame = .respond r →
      Origin out (.response r)
  | subscribed : Origin out (.response .subscribed)
  | answered {t : Ticket} {a : Answer} (uptimeSecs : UInt64) : .answered t a ∈ out →
      Origin out (.response (.ofAnswer uptimeSecs a))
  | emitted {e : Event} : .emitted e ∈ out → Origin out (.notification ⟨e⟩)

/-! ## Connections -/

namespace Connection

variable {out : List Daemon.Output} {c : Connection}

/-- Whether the events that a connection has yet to send were emitted. -/
def Hears (c : Connection) (out : List Daemon.Output) : Prop :=
  ∀ events, c.backlog = some events → ∀ e ∈ events, .emitted e ∈ out

/-- Sending something neither adds to the backlog nor sends anything else. -/
theorem Hears.send (h : c.Hears out) (s : Sent) :
    (c.send s).1.Hears out ∧ ∀ m ∈ (c.send s).2, m = s := by
  unfold Connection.send
  split
  · exact ⟨h, fun _ ↦ List.mem_singleton.mp⟩
  · exact ⟨h, nofun⟩

theorem Hears.receive (h : c.Hears out) (t : Ticket) (frame : List UInt8) :
    (c.receive t frame).1.Hears out ∧ ∀ m ∈ (c.receive t frame).2.1, m.Origin out := by
  unfold Connection.receive
  split
  · next r hr =>
    obtain ⟨hbacklog, hsent⟩ := h.send (.response r)
    exact ⟨hbacklog, fun m hm ↦ hsent m hm ▸ .told hr⟩
  · have hsubscribed : ({ c with backlog := c.backlog.or (some []) } : Connection).Hears out := by
      intro events hevents e he
      cases hb : c.backlog with
      | none =>
        simp only [hb, Option.none_or, Option.some.injEq] at hevents
        rw [← hevents] at he
        cases he
      | some events' =>
        simp only [hb, Option.some_or, Option.some.injEq] at hevents
        exact h events' hb e (hevents ▸ he)
    obtain ⟨hbacklog, hsent⟩ := hsubscribed.send (.response .subscribed)
    exact ⟨hbacklog, fun m hm ↦ hsent m hm ▸ .subscribed⟩
  · exact ⟨h, nofun⟩

/-- Whatever an act sends has its origin, and events are kept only if they were emitted. -/
theorem Hears.act (h : c.Hears out) (capacity : Nat) {a : Act}
    (ha : ∀ uptimeSecs o, a = .pass uptimeSecs o → o ∈ out) :
    (c.act capacity a).1.Hears out ∧ ∀ m ∈ (c.act capacity a).2, m.Origin out := by
  cases a with
  | arrive bytes =>
    refine ⟨?_, List.forall_mem_nil _⟩
    simp only [Connection.act, arrive]
    split <;> exact h
  | finish => exact ⟨h, List.forall_mem_nil _⟩
  | leave => exact ⟨h, List.forall_mem_nil _⟩
  | close => exact ⟨h, List.forall_mem_nil _⟩
  | take t =>
    simp only [Connection.act]
    obtain ⟨htake, -⟩ | ⟨-, -, htake, -⟩ | ⟨m, rest, -, -, htake, -⟩ := c.takeFrame_cases t
    · rw [htake]
      exact ⟨h, List.forall_mem_nil _⟩
    · rw [htake]
      exact ⟨h, List.forall_mem_nil _⟩
    · rw [htake]
      exact Hears.receive (c := { c with unread := rest }) h t m
  | notify =>
    simp only [Connection.act, notify]
    split
    · split
      · next e events hb =>
        have hrest : ({ c with backlog := some events } : Connection).Hears out := by
          intro events' hevents e' he'
          cases hevents
          exact h _ hb e' (List.mem_cons_of_mem _ he')
        obtain ⟨hbacklog, hsent⟩ := hrest.send (.notification ⟨e⟩)
        exact ⟨hbacklog, fun m hm ↦ hsent m hm ▸ .emitted (h _ hb e List.mem_cons_self)⟩
      · exact ⟨h, List.forall_mem_nil _⟩
    · exact ⟨h, List.forall_mem_nil _⟩
  | pass uptimeSecs o =>
    have ho := ha uptimeSecs o rfl
    cases o with
    | emitted e =>
      refine ⟨?_, List.forall_mem_nil _⟩
      simp only [Connection.act, hear]
      split
      · intro events hevents e' he'
        obtain ⟨before, hb, rfl⟩ := Option.map_eq_some_iff.mp hevents
        rcases List.mem_append.mp (List.mem_of_mem_drop he') with he' | he'
        · exact h before hb e' he'
        · rw [List.mem_singleton.mp he']
          exact ho
      · exact h
    | answered t b =>
      simp only [Connection.act, answer]
      split
      · have hsettled : ({ c with awaiting := none } : Connection).Hears out := h
        obtain ⟨hbacklog, hsent⟩ := hsettled.send (.response (.ofAnswer uptimeSecs b))
        exact ⟨hbacklog, fun m hm ↦ hsent m hm ▸ .answered uptimeSecs ho⟩
      · exact ⟨h, List.forall_mem_nil _⟩

theorem Hears.acts (h : c.Hears out) (capacity : Nat) {as : List Act}
    (has : ∀ uptimeSecs o, .pass uptimeSecs o ∈ as → o ∈ out) :
    (c.acts capacity as).1.Hears out ∧ ∀ m ∈ (c.acts capacity as).2, m.Origin out := by
  induction as generalizing c with
  | nil => exact ⟨h, nofun⟩
  | cons a as ih =>
    have ha : ∀ uptimeSecs o, a = .pass uptimeSecs o → o ∈ out :=
      fun uptimeSecs o ho ↦ has uptimeSecs o (ho ▸ List.mem_cons_self)
    obtain ⟨hnext, hsent⟩ := h.act capacity ha
    obtain ⟨hend, hlater⟩ := ih hnext fun uptimeSecs o ho ↦
      has uptimeSecs o (List.mem_cons_of_mem _ ho)
    exact ⟨hend, fun m hm ↦ (List.mem_append.mp hm).elim (hsent m) (hlater m)⟩

end Connection

/-! ## The server -/

namespace Server

variable {σ : Type} (w : Surroundings σ) (crashReason : String) {out : List Daemon.Output}

/-- Whether the events that connections have yet to send were emitted. -/
def Hears (s : Server σ) (out : List Daemon.Output) : Prop := ∀ c ∈ s.connections, c.Hears out

theorem Hears.step {s : Server σ} (h : s.Hears out) (choice : Choice)
    (hout : ∀ o ∈ ofDaemon (s.step w crashReason choice).2, o ∈ out) :
    (s.step w crashReason choice).1.Hears out ∧
      ∀ i, ∀ m ∈ sentTo i (s.step w crashReason choice).2, m.Origin out := by
  by_cases hchoice : choice = .connect
  · subst hchoice
    refine ⟨fun c hc ↦ ?_, fun _ ↦ nofun⟩
    rcases List.mem_append.mp hc with hc | hc
    · exact h c hc
    · rw [List.mem_singleton.mp hc]
      exact nofun
  · have hturns := s.turns_step w crashReason hchoice
    have hpassed (i : Nat) :
        ∀ uptimeSecs o, .pass uptimeSecs o ∈ s.actsIn w crashReason i choice → o ∈ out := by
      intro uptimeSecs o ho
      apply hout
      rw [hturns.daemon]
      exact causes_of_mem_actsIn w crashReason ho
    have hacts {i : Nat} {c : Connection} (hc : s.connections[i]? = some c) :=
      (h c (List.mem_of_getElem? hc)).acts s.capacity (hpassed i)
    refine ⟨fun c hc ↦ ?_, fun i m hm ↦ ?_⟩
    · obtain ⟨i, hi⟩ := List.mem_iff_getElem?.mp hc
      rw [hturns.connection] at hi
      obtain ⟨before, hbefore, rfl⟩ := Option.map_eq_some_iff.mp hi
      exact (hacts hbefore).1
    · rw [hturns.sent] at hm
      cases hi : (s.moved w crashReason choice).connections[i]? with
      | none =>
        rw [hi] at hm
        cases hm
      | some before =>
        rw [hi] at hm
        exact (hacts hi).2 m hm

theorem Hears.run {s : Server σ} (h : s.Hears out) (cs : List Choice)
    (hout : ∀ o ∈ ofDaemon (s.run w crashReason cs).2, o ∈ out) (i : Nat) :
    ∀ m ∈ sentTo i (s.run w crashReason cs).2, m.Origin out := by
  induction cs generalizing s with
  | nil => exact nofun
  | cons c cs ih =>
    simp only [Server.run, ofDaemon_append, sentTo_append] at hout ⊢
    obtain ⟨hnext, hsent⟩ := h.step w crashReason c
      fun o ho ↦ hout o (List.mem_append_left _ ho)
    intro m hm
    rcases List.mem_append.mp hm with hm | hm
    · exact hsent i m hm
    · exact ih hnext (fun o ho ↦ hout o (List.mem_append_right _ ho)) m hm

end Server

end Typist
