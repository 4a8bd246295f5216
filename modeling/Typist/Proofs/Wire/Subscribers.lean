import Mathlib.Data.List.Basic
import Typist.Proofs.Wire.Answering

/-!
# Subscribers

A subscriber is notified of the events that are broadcast from its first subscription on, in order
and each at most once, however often it subscribes, whatever else it asks for and however long its
connection is busy. Nothing is left out while its unread events fit the capacity. Where they do not,
the oldest unread ones are lost, and the others come in order.
-/

namespace Typist

open Connection (Act)

/-- The events that messages notify of, in order. -/
def notifications (sent : List Sent) : List Event :=
  sent.filterMap fun
    | .response _ => none
    | .notification n => some n.event

@[simp] theorem notifications_append (sent later : List Sent) :
    notifications (sent ++ later) = notifications sent ++ notifications later :=
  List.filterMap_append

/-- Whether one of some frames asks for events. -/
def Subscribes (taken : List (List UInt8 × Ticket)) : Prop :=
  ∃ x ∈ taken, Reception.ofFrame x.1 = .subscribe

instance (r : Reception) : Decidable (r = .subscribe) :=
  match r with
  | .subscribe => isTrue rfl
  | .respond _ | .ask _ => isFalse nofun

instance (taken : List (List UInt8 × Ticket)) : Decidable (Subscribes taken) :=
  inferInstanceAs (Decidable (∃ x ∈ taken, _))

theorem subscribes_append {taken later : List (List UInt8 × Ticket)} :
    Subscribes (taken ++ later) ↔ Subscribes taken ∨ Subscribes later := by
  simp only [Subscribes, List.mem_append, or_and_right, exists_or]

/-! ## What is seen of a subscriber -/

namespace Server

/-- The events that are broadcast, in order. -/
def broadcast (out : List Output) : List Event := Daemon.events (ofDaemon out)

/-- The events that a client is notified of, in order. -/
def notified (i : Nat) (out : List Output) : List Event := notifications (sentTo i out)

@[simp] theorem broadcast_append (out later : List Output) :
    broadcast (out ++ later) = broadcast out ++ broadcast later := by
  rw [broadcast, ofDaemon_append, Daemon.events_append]
  rfl

@[simp] theorem notified_append (i : Nat) (out later : List Output) :
    notified i (out ++ later) = notified i out ++ notified i later := by
  rw [notified, sentTo_append, notifications_append]
  rfl

theorem broadcast_sent (i : Nat) (message : Sent) : broadcast [.sent i message] = [] := rfl

theorem notified_daemon (i : Nat) (o : Daemon.Output) : notified i [.daemon o] = [] := rfl

theorem notified_notification (i : Nat) (e : Event) :
    notified i [.sent i (.notification ⟨e⟩)] = [e] := by
  simp [notified, sentTo, notifications]

/-- How a subscriber reads behind what is broadcast, and which events it has yet to read. If these
are too many, the next one that it is notified of is the oldest of the newest ones; those before it
are lost. -/
inductive Hearing (capacity : Nat) (i : Nat) : List Output → List Event → Prop
  | nil : Hearing capacity i [] []
  | broadcast {out : List Output} {unread : List Event} (e : Event) :
      Hearing capacity i out unread →
      Hearing capacity i (out ++ [.daemon (.emitted e)]) (unread ++ [e])
  | notified {out : List Output} {unread rest : List Event} {e : Event} :
      Hearing capacity i out unread → unread.drop (unread.length - capacity) = e :: rest →
      Hearing capacity i (out ++ [.sent i (.notification ⟨e⟩)]) rest
  | elsewhere {out : List Output} {unread : List Event} {o : Output} :
      Server.broadcast [o] = [] → Server.notified i [o] = [] →
      Hearing capacity i out unread → Hearing capacity i (out ++ [o]) unread

namespace Hearing

variable {capacity i : Nat} {out : List Output} {unread : List Event}

/-- A subscriber that is not notified of anything has more to read. -/
theorem append (h : Hearing capacity i out unread) {more : List Output}
    (hmore : Server.notified i more = []) :
    Hearing capacity i (out ++ more) (unread ++ Server.broadcast more) := by
  induction more generalizing out unread with
  | nil => simpa [Server.broadcast, ofDaemon, Daemon.events] using h
  | cons o more ih =>
    rw [← List.singleton_append, notified_append, List.append_eq_nil_iff] at hmore
    rw [← List.singleton_append, ← List.append_assoc, broadcast_append, ← List.append_assoc]
    refine ih ?_ hmore.2
    have helsewhere : Hearing capacity i out (unread ++ []) := (List.append_nil unread).symm ▸ h
    cases o with
    | daemon o =>
      cases o with
      | emitted e => exact h.broadcast e
      | answered t a => exact .elsewhere rfl hmore.1 helsewhere
    | sent j s => exact .elsewhere rfl hmore.1 helsewhere

/-- What a subscriber was notified of is a part, in order, of what it does not have to read. -/
theorem exists_past (h : Hearing capacity i out unread) :
    ∃ past, Server.broadcast out = past ++ unread ∧ (Server.notified i out).Sublist past := by
  induction h with
  | nil => exact ⟨[], rfl, .slnil⟩
  | @broadcast out unread e _ ih =>
    obtain ⟨past, hpast, hnotified⟩ := ih
    refine ⟨past, ?_, ?_⟩
    · rw [broadcast_append, hpast, List.append_assoc]
      rfl
    · rw [notified_append, notified_daemon, List.append_nil]
      exact hnotified
  | @notified out unread rest e _ hdrop ih =>
    obtain ⟨past, hpast, hnotified⟩ := ih
    refine ⟨past ++ (unread.take (unread.length - capacity) ++ [e]), ?_, ?_⟩
    · have hunread : unread = unread.take (unread.length - capacity) ++ e :: rest := by
        rw [← hdrop, List.take_append_drop]
      rw [broadcast_append, broadcast_sent, List.append_nil, hpast]
      conv_lhs => rw [hunread]
      simp
    · rw [notified_append, notified_notification]
      exact hnotified.append (List.sublist_append_right _ [e])
  | elsewhere hnone hsilent _ ih =>
    obtain ⟨past, hpast, hnotified⟩ := ih
    refine ⟨past, ?_, ?_⟩
    · rw [broadcast_append, hnone, List.append_nil, hpast]
    · rw [notified_append, hsilent, List.append_nil]
      exact hnotified

/-- Nothing is lost of what never was too much. -/
theorem notified_append_unread (h : Hearing capacity i out unread)
    (hfits : ∀ seen, seen <+: out →
      (Server.broadcast seen).length ≤ (Server.notified i seen).length + capacity) :
    Server.notified i out ++ unread = Server.broadcast out := by
  induction h with
  | nil => rfl
  | @broadcast out unread e _ ih =>
    have hbefore := ih fun seen hseen ↦ hfits seen (hseen.trans (List.prefix_append _ _))
    rw [notified_append, broadcast_append, notified_daemon, List.append_nil, ← List.append_assoc,
      hbefore]
    rfl
  | @notified out unread rest e _ hdrop ih =>
    have hbefore := ih fun seen hseen ↦ hfits seen (hseen.trans (List.prefix_append _ _))
    have hlength := hfits out (List.prefix_append _ _)
    rw [← hbefore, List.length_append] at hlength
    have hunread : unread = e :: rest := by
      rwa [show unread.length - capacity = 0 by omega, List.drop_zero] at hdrop
    rw [notified_append, broadcast_append, notified_notification, broadcast_sent, List.append_nil,
      ← hbefore, hunread, List.append_assoc]
    rfl
  | elsewhere hnone hsilent _ ih =>
    have hbefore := ih fun seen hseen ↦ hfits seen (hseen.trans (List.prefix_append _ _))
    rw [notified_append, broadcast_append, hnone, hsilent, List.append_nil, List.append_nil,
      hbefore]

end Hearing

end Server

/-! ## Backlogs -/

namespace Connection

variable {capacity : Nat} {c : Connection} {unread : List Event}

/-- Whether a connection, as long as it is open, keeps the newest of some unread events. -/
def Follows (capacity : Nat) (c : Connection) (unread : List Event) : Prop :=
  c.isOpen = true → c.backlog = some (unread.drop (unread.length - capacity))

theorem Follows.hear (h : c.Follows capacity unread) (e : Event) :
    (c.hear capacity e).Follows capacity (unread ++ [e]) := by
  unfold Connection.hear
  split
  · next hopen =>
    intro _
    simp only [h hopen, Option.map_some, Option.some.injEq, List.length_drop, List.length_append,
      List.length_singleton]
    rcases Nat.le_total unread.length capacity with hle | hle
    · rw [show unread.length - capacity = 0 by omega]
      simp
    · rw [← List.drop_append_of_le_length (by omega), List.drop_drop]
      congr 1
      omega
  · next hclosed => exact fun hopen ↦ absurd hopen hclosed

/-- A subscriber is notified of the oldest event that it keeps, or of nothing. -/
theorem Follows.notify (h : c.Follows capacity unread) :
    (c.notify.1.Follows capacity unread ∧ c.notify.2 = []) ∨
    ∃ e rest, unread.drop (unread.length - capacity) = e :: rest ∧
      c.notify.1.Follows capacity rest ∧ c.notify.2 = [.notification ⟨e⟩] := by
  unfold Connection.notify
  split
  · next hidle =>
    rw [isIdle, Bool.and_eq_true] at hidle
    split
    · next e rest hbacklog =>
      have hdrop : unread.drop (unread.length - capacity) = e :: rest :=
        Option.some.inj ((h hidle.1).symm.trans hbacklog)
      have hrest : rest.drop (rest.length - capacity) = rest := by
        have hlength := congrArg List.length hdrop
        rw [List.length_drop, List.length_cons] at hlength
        rw [show rest.length - capacity = 0 by omega, List.drop_zero]
      unfold send
      split
      · exact .inr ⟨e, rest, hdrop, fun _ ↦ congrArg some hrest.symm, rfl⟩
      · exact .inl ⟨fun hopen ↦ absurd hopen Bool.false_ne_true, rfl⟩
    · exact .inl ⟨h, rfl⟩
  · exact .inl ⟨h, rfl⟩

/-- An act neither notifies nor tells the connection of an event. -/
def Act.IsStill : Act → Prop
  | .notify | .pass _ (.emitted _) => False
  | _ => True

theorem Act.isStill_or (a : Act) :
    a.IsStill ∨ a = .notify ∨ ∃ uptimeSecs e, a = .pass uptimeSecs (.emitted e) := by
  cases a with
  | notify => exact .inr (.inl rfl)
  | pass uptimeSecs o =>
    cases o with
    | emitted e => exact .inr (.inr ⟨uptimeSecs, e, rfl⟩)
    | answered t b => exact .inl trivial
  | _ => exact .inl trivial

/-- Such an act leaves the backlog, except that a subscription begins one. -/
theorem act_of_isStill (capacity : Nat) (c : Connection) {a : Act} (ha : a.IsStill) :
    notifications (c.act capacity a).2 = [] ∧
      ((c.act capacity a).1.isOpen = true → c.isOpen = true) ∧
      (Subscribes (c.takes a) → (c.act capacity a).1.backlog = c.backlog.or (some [])) ∧
      (¬ Subscribes (c.takes a) → (c.act capacity a).1.backlog = c.backlog) := by
  have hshut {p : Prop} (hopen : false = true) : p := absurd hopen Bool.false_ne_true
  have hsend (c : Connection) (r : Response) : notifications (c.send (.response r)).2 = [] ∧
      ((c.send (.response r)).1.isOpen = true → c.isOpen = true) ∧
      (c.send (.response r)).1.backlog = c.backlog := by
    unfold send
    split
    · exact ⟨rfl, id, rfl⟩
    · exact ⟨rfl, hshut, rfl⟩
  cases a with
  | arrive bytes =>
    simp only [act, arrive]
    split <;> exact ⟨rfl, id, by simp [takes, Subscribes], fun _ ↦ rfl⟩
  | finish | leave => exact ⟨rfl, id, by simp [takes, Subscribes], fun _ ↦ rfl⟩
  | close => exact ⟨rfl, hshut, by simp [takes, Subscribes], fun _ ↦ rfl⟩
  | notify => exact ha.elim
  | pass uptimeSecs o =>
    cases o with
    | emitted e => exact ha.elim
    | answered t b =>
      simp only [act, answer]
      split
      · obtain ⟨hnone, hopen, hbacklog⟩ := hsend { c with awaiting := none } (.ofAnswer uptimeSecs b)
        exact ⟨hnone, hopen, by simp [takes, Subscribes], fun _ ↦ hbacklog⟩
      · exact ⟨rfl, id, by simp [takes, Subscribes], fun _ ↦ rfl⟩
  | take t =>
    simp only [act]
    obtain ⟨htake, htakes⟩ | ⟨-, -, htake, htakes⟩ | ⟨m, rest, -, -, htake, htakes⟩ :=
      c.takeFrame_cases t
    · rw [htake, htakes]
      exact ⟨rfl, id, by simp [Subscribes], fun _ ↦ rfl⟩
    · rw [htake, htakes]
      exact ⟨rfl, hshut, by simp [Subscribes], fun _ ↦ rfl⟩
    · have hiff : Subscribes [(m, t)] ↔ Reception.ofFrame m = .subscribe := by simp [Subscribes]
      rw [htake, htakes, hiff]
      unfold receive
      split
      · next r hr =>
        obtain ⟨hnone, hopen, hbacklog⟩ := hsend { c with unread := rest } r
        exact ⟨hnone, hopen, by simp [hr], fun _ ↦ hbacklog⟩
      · next hr =>
        obtain ⟨hnone, hopen, hbacklog⟩ :=
          hsend { c with unread := rest, backlog := c.backlog.or (some []) } .subscribed
        exact ⟨hnone, hopen, fun _ ↦ hbacklog, by simp [hr]⟩
      · next hr => exact ⟨rfl, id, by simp [hr], fun _ ↦ rfl⟩

/-- The events that acts tell of, in order. -/
def Act.heard (as : List Act) : List Event :=
  as.filterMap fun
    | .pass _ (.emitted e) => some e
    | _ => none

/-- Nobody is notified who has not subscribed. -/
theorem acts_of_unsubscribed (capacity : Nat) {c : Connection} (hc : c.backlog = none)
    {as : List Act} (has : ¬ Subscribes (c.taken capacity as)) :
    (c.acts capacity as).1.backlog = none ∧ notifications (c.acts capacity as).2 = [] := by
  induction as generalizing c with
  | nil => exact ⟨hc, rfl⟩
  | cons a as ih =>
    rw [taken, subscribes_append, not_or] at has
    have hact : (c.act capacity a).1.backlog = none ∧
        notifications (c.act capacity a).2 = [] := by
      obtain ha | rfl | ⟨uptimeSecs, e, rfl⟩ := a.isStill_or
      · obtain ⟨hnone, -, -, hbacklog⟩ := c.act_of_isStill capacity ha
        exact ⟨(hbacklog has.1).trans hc, hnone⟩
      · rw [act, Connection.notify, hc]
        split <;> exact ⟨hc, rfl⟩
      · rw [act, Connection.hear]
        split
        · exact ⟨by rw [hc]; rfl, rfl⟩
        · exact ⟨hc, rfl⟩
    obtain ⟨hbacklog, hnone⟩ := ih hact.1 has.2
    exact ⟨hbacklog, by rw [acts, notifications_append, hact.2, hnone]; rfl⟩

theorem Act.heard_of_isStill {a : Act} (ha : a.IsStill) : Act.heard [a] = [] := by
  cases a with
  | pass uptimeSecs o =>
    cases o with
    | emitted e => exact ha.elim
    | answered t b => rfl
  | _ => rfl

/-- Between two notifications a subscriber has more and more to read. -/
theorem Follows.acts (h : c.Follows capacity unread) {as : List Act} (has : .notify ∉ as) :
    (c.acts capacity as).1.Follows capacity (unread ++ Act.heard as) ∧
      notifications (c.acts capacity as).2 = [] := by
  induction as generalizing c unread with
  | nil => exact ⟨(List.append_nil unread).symm ▸ h, rfl⟩
  | cons a as ih =>
    rw [List.mem_cons, not_or] at has
    have hact : (c.act capacity a).1.Follows capacity (unread ++ Act.heard [a]) ∧
        notifications (c.act capacity a).2 = [] := by
      obtain ha | rfl | ⟨uptimeSecs, e, rfl⟩ := a.isStill_or
      · obtain ⟨hnone, hopen, hsubscribed, hbacklog⟩ := c.act_of_isStill capacity ha
        rw [Act.heard_of_isStill ha, List.append_nil]
        refine ⟨fun hafter ↦ ?_, hnone⟩
        have hbefore := h (hopen hafter)
        by_cases hsub : Subscribes (c.takes a)
        · rw [hsubscribed hsub, hbefore]
          rfl
        · rw [hbacklog hsub, hbefore]
      · exact absurd rfl has.1
      · exact ⟨h.hear e, rfl⟩
    obtain ⟨hfollows, hnone⟩ := ih hact.1 has.2
    have hheard : Act.heard (a :: as) = Act.heard [a] ++ Act.heard as := by
      rw [← List.singleton_append, Act.heard, List.filterMap_append]
      rfl
    rw [hheard, ← List.append_assoc, Connection.acts]
    exact ⟨hfollows, by rw [notifications_append, hact.2, hnone]; rfl⟩

end Connection

/-! ## Runs of a server -/

namespace Server

variable {σ : Type} (w : Surroundings σ) (crashReason : String)

theorem capacity_step (s : Server σ) (c : Choice) :
    (s.step w crashReason c).1.capacity = s.capacity := by
  by_cases hc : c = .connect
  · subst hc
    rfl
  · exact (s.turns_step w crashReason hc).capacity

/-- Whether a client has not subscribed yet, if there is one. -/
def Unsubscribed (s : Server σ) (i : Nat) : Prop :=
  ∀ c, s.connections[i]? = some c → c.backlog = none

/-- Whether a client is a subscriber, with what was seen since its subscription. -/
def IsTold (s : Server σ) (i : Nat) (out : List Output) : Prop :=
  ∃ c unread, s.connections[i]? = some c ∧ c.Follows s.capacity unread ∧
    Hearing s.capacity i out unread

variable {s : Server σ} {i : Nat} {out : List Output}

theorem Unsubscribed.step (h : s.Unsubscribed i) {choice : Choice}
    (hchoice : ¬ Subscribes (s.takes i choice)) :
    (s.step w crashReason choice).1.Unsubscribed i ∧
      notified i (s.step w crashReason choice).2 = [] := by
  by_cases hc : choice = .connect
  · subst hc
    refine ⟨fun c hi ↦ ?_, rfl⟩
    obtain hold | rfl := getElem?_connect hi
    · exact h c hold
    · rfl
  · have hturns := s.turns_step w crashReason hc
    cases hi : s.connections[i]? with
    | none =>
      have hafter : (s.step w crashReason choice).1.connections[i]? = none := by
        rw [hturns.connection]
        exact congrArg (Option.map _) hi
      refine ⟨fun c hsome ↦ (by cases hafter.symm.trans hsome), ?_⟩
      rw [notified, hturns.sent]
      simp [moved, hi, notifications]
    | some c =>
      have htaken : c.taken s.capacity (s.actsIn w crashReason i choice) = s.takes i choice :=
        taken_actsIn hi choice
      rw [← htaken] at hchoice
      obtain ⟨hbacklog, hnone⟩ := Connection.acts_of_unsubscribed s.capacity (h c hi) hchoice
      refine ⟨fun c' hi' ↦ ?_, ?_⟩
      · rw [hturns.connection] at hi'
        simp only [moved, hi, Option.map_some, Option.some.injEq] at hi'
        rw [← hi', hbacklog]
      · rw [notified, hturns.sent]
        simpa [moved, hi] using hnone

theorem Unsubscribed.run (h : s.Unsubscribed i) {cs : List Choice}
    (hcs : ¬ Subscribes (s.taken w crashReason i cs)) :
    (s.run w crashReason cs).1.Unsubscribed i ∧ notified i (s.run w crashReason cs).2 = [] := by
  induction cs generalizing s with
  | nil => exact ⟨h, rfl⟩
  | cons c cs ih =>
    rw [taken, history, ← taken, subscribes_append, not_or] at hcs
    obtain ⟨hstep, hnone⟩ := h.step w crashReason hcs.1
    obtain ⟨hrun, hlater⟩ := ih hstep hcs.2
    exact ⟨hrun, by rw [Server.run, notified_append, hnone, hlater]; rfl⟩

/-- With its first subscription a client has nothing to read yet. -/
theorem Unsubscribed.isTold (h : s.Unsubscribed i) {choice : Choice}
    (hchoice : Subscribes (s.takes i choice)) :
    (s.step w crashReason choice).1.IsTold i [] ∧
      notified i (s.step w crashReason choice).2 = [] := by
  cases choice with
  | takeFrame j uptimeSecs =>
    by_cases hj : j = i
    · subst hj
      cases hi : s.connections[j]? with
      | none => simp [takes, hi, Subscribes] at hchoice
      | some c =>
        simp only [takes, hi, if_true, Option.map_some, Option.getD_some] at hchoice
        have hasks : s.asks (.takeFrame j uptimeSecs) = none := by
          simp only [asks, hi, Option.bind_some]
          obtain ⟨-, htakes⟩ | ⟨-, -, -, htakes⟩ | ⟨m, rest, -, -, htake, htakes⟩ :=
            c.takeFrame_cases ⟨s.issued⟩
          · simp [htakes, Subscribes] at hchoice
          · simp [htakes, Subscribes] at hchoice
          · rw [htakes] at hchoice
            have hm : Reception.ofFrame m = .subscribe := by simpa [Subscribes] using hchoice
            simp [htake, Connection.receive, hm]
        obtain ⟨hnone, hopen, hsubscribed, -⟩ :=
          c.act_of_isStill s.capacity (a := .take ⟨s.issued⟩) trivial
        have hstep : s.step w crashReason (.takeFrame j uptimeSecs) =
            ({ s with connections :=
                s.connections.set j (c.act s.capacity (.take ⟨s.issued⟩)).1 },
              toClient j (c.act s.capacity (.take ⟨s.issued⟩)).2) := by
          show s.takeFrame uptimeSecs j = _
          rw [s.takeFrame_of_none hasks, onConnection, hi]
        rw [hstep]
        have hset : (s.connections.set j (c.act s.capacity (.take ⟨s.issued⟩)).1)[j]? =
            some (c.act s.capacity (.take ⟨s.issued⟩)).1 :=
          List.getElem?_set_self (List.getElem?_eq_some_iff.mp hi).1
        refine ⟨⟨_, [], hset, fun _ ↦ ?_, .nil⟩, ?_⟩
        · rw [hsubscribed hchoice, h c hi, List.drop_nil]
          rfl
        · rw [notified, sentTo_toClient, if_pos rfl]
          exact hnone
    · simp [takes, hj, Subscribes] at hchoice
  | _ => simp [takes, Subscribes] at hchoice

/-- What a connection hears is what the daemon broadcasts in the step. -/
theorem heard_actsIn {choice : Choice} (hchoice : choice ≠ .connect) :
    Act.heard (s.actsIn w crashReason i choice) =
      broadcast (s.step w crashReason choice).2 := by
  have hpassed (os : List Daemon.Output) :
      Act.heard (os.map (.pass choice.uptimeSecs)) = Daemon.events os := by
    rw [Act.heard, List.filterMap_map, Daemon.events]
    congr 1
    funext o
    cases o <;> rfl
  have hown : Act.heard (s.ownActs i choice) = [] := by
    cases choice with
    | arrive | finish | leave | takeFrame | notify =>
      simp only [ownActs]
      split <;> rfl
    | _ => rfl
  rw [broadcast, (s.turns_step w crashReason hchoice).daemon, ← hpassed, actsIn, Act.heard,
    List.filterMap_append]
  exact congrArg (· ++ _) hown

theorem IsTold.step (h : s.IsTold i out) (choice : Choice) :
    (s.step w crashReason choice).1.IsTold i (out ++ (s.step w crashReason choice).2) := by
  obtain ⟨c, unread, hi, hfollows, hhearing⟩ := h
  have hcapacity := s.capacity_step w crashReason choice
  by_cases hnotify : choice = .notify i
  · subst hnotify
    have hstep : s.step w crashReason (.notify i) =
        ({ s with connections := s.connections.set i c.notify.1 }, toClient i c.notify.2) := by
      simp [Server.step, onConnection, hi]
    rw [hstep]
    have hset : (s.connections.set i c.notify.1)[i]? = some c.notify.1 :=
      List.getElem?_set_self (List.getElem?_eq_some_iff.mp hi).1
    obtain ⟨hsame, hnone⟩ | ⟨e, rest, hdrop, hrest, hone⟩ := hfollows.notify
    · rw [hnone]
      exact ⟨_, unread, hset, hsame, (List.append_nil out).symm ▸ hhearing⟩
    · rw [hone]
      exact ⟨_, rest, hset, hrest, hhearing.notified hdrop⟩
  · by_cases hconnect : choice = .connect
    · subst hconnect
      obtain ⟨hlt, -⟩ := List.getElem?_eq_some_iff.mp hi
      refine ⟨c, unread, ?_, hfollows, (List.append_nil out).symm ▸ hhearing⟩
      exact (List.getElem?_append_left hlt).trans hi
    · have hturns := s.turns_step w crashReason hconnect
      have hquiet : .notify ∉ s.actsIn w crashReason i choice := fun hmem ↦
        hnotify (causes_of_mem_actsIn w crashReason hmem)
      obtain ⟨hafter, hnone⟩ := hfollows.acts hquiet
      have hsilent : notified i (s.step w crashReason choice).2 = [] := by
        rw [notified, hturns.sent]
        simpa [moved, hi] using hnone
      refine ⟨(c.acts s.capacity (s.actsIn w crashReason i choice)).1,
        unread ++ broadcast (s.step w crashReason choice).2, ?_, ?_, ?_⟩
      · rw [hturns.connection]
        exact congrArg (Option.map _) hi
      · rw [hcapacity, ← heard_actsIn w crashReason hconnect]
        exact hafter
      · rw [hcapacity]
        exact hhearing.append hsilent

theorem IsTold.run (h : s.IsTold i out) (cs : List Choice) :
    (s.run w crashReason cs).1.IsTold i (out ++ (s.run w crashReason cs).2) := by
  induction cs generalizing s out with
  | nil => exact (List.append_nil out).symm ▸ h
  | cons c cs ih =>
    have hrun := ih (h.step w crashReason c)
    rwa [List.append_assoc] at hrun

theorem capacity_run (s : Server σ) (cs : List Choice) :
    (s.run w crashReason cs).1.capacity = s.capacity := by
  induction cs generalizing s with
  | nil => rfl
  | cons c cs ih => exact (ih _).trans (s.capacity_step w crashReason c)

end Server

/-! ## Runs in which frames are read ahead -/

namespace ReadingServer

open Server (Output broadcast notified Hearing)

variable {σ : Type} {w : Surroundings σ} {crashReason : String}

/-- What a subscriber is notified of, behind what was seen since its first subscription: a part of
what was broadcast, in order. It is the front of it if the unread events never were too many, and
of what is unread an open connection keeps the newest events. -/
structure Notifies (capacity : Nat) (i : Nat) (out : List Output) (r : ReadingServer σ) : Prop where
  inOrder : (notified i out).Sublist (broadcast out)
  complete : (∀ seen, seen <+: out →
      (broadcast seen).length ≤ (notified i seen).length + capacity) →
    notified i out <+: broadcast out
  hearing : ∃ unread, Hearing capacity i out unread ∧
    ∀ c, r.connections[i]? = some c → c.isOpen = true →
      c.backlog = some (unread.drop (unread.length - capacity))

/-- A subscriber that has read ahead is one. -/
theorem notifies_of_isTold {r : ReadingServer σ} {i : Nat} {out : List Output}
    (h : r.plain.IsTold i out) : r.Notifies r.capacity i out := by
  obtain ⟨c, unread, hc, hfollows, hhearing⟩ := h
  obtain ⟨past, hpast, hsublist⟩ := hhearing.exists_past
  refine ⟨?_, fun hfits ↦ ?_, unread, hhearing, fun c' hc' hopen ↦ ?_⟩
  · rw [hpast]
    exact hsublist.trans (List.sublist_append_left past unread)
  · exact ⟨unread, hhearing.notified_append_unread hfits⟩
  · obtain rfl := Option.some.inj ((plain_connection hc').symm.trans hc)
    exact hfollows hopen

section

variable (w crashReason) {r : ReadingServer σ} {i : Nat}

theorem Sound.capacity_run (h : r.Sound) (cs : List Choice) :
    (r.run w crashReason cs).1.capacity = r.capacity := by
  obtain ⟨-, hrun, -⟩ := h.run w crashReason cs
  have hplain : (r.run w crashReason cs).1.plain.capacity = _ :=
    congrArg (fun s ↦ s.1.capacity) hrun
  exact hplain.trans (r.plain.capacity_run w crashReason _)

/-- The step in which a client subscribes is one of the server that has not read ahead. -/
theorem Sound.isTold_step (h : r.Sound) (hr : r.plain.Unsubscribed i) {c : Choice}
    (hc : Subscribes (r.takes i c)) :
    (r.step w crashReason c).1.plain.IsTold i [] ∧
      notified i (r.step w crashReason c).2 = [] := by
  obtain ⟨-, hstep, htakes⟩ := h.step w crashReason c
  rw [htakes] at hc
  obtain ⟨choice, hplainly⟩ : ∃ choice, r.plainly c = [choice] := by
    cases c with
    | serve j uptimeSecs =>
      simp only [plainly] at hc ⊢
      split at hc
      · next hready => exact ⟨_, if_pos hready⟩
      · simp [Server.taken, Server.history, Subscribes] at hc
    | _ => simp [takes, ← htakes, Subscribes] at hc
  rw [hplainly, Server.taken, Server.history, Server.history, List.append_nil] at hc
  rw [hplainly] at hstep
  simp only [Server.run, List.append_nil] at hstep
  have htold := hr.isTold w crashReason hc
  rwa [← congrArg Prod.fst hstep, ← congrArg Prod.snd hstep] at htold

theorem Sound.isTold_run (h : r.Sound) (hr : r.plain.IsTold i []) (cs : List Choice) :
    (r.run w crashReason cs).1.plain.IsTold i (r.run w crashReason cs).2 := by
  obtain ⟨-, hrun, -⟩ := h.run w crashReason cs
  have htold := hr.run w crashReason (r.plainRun w crashReason cs)
  rwa [← congrArg Prod.fst hrun, ← congrArg Prod.snd hrun, List.nil_append] at htold

end

/-- Nobody is notified who has not subscribed. From its first subscription on a client is notified
of what is broadcast, in order and each event at most once. -/
theorem events_without_gaps {s : Server σ} (hs : s.Unused) (i : Nat) (cs : List Choice) :
    (¬ Subscribes (s.reading.taken w crashReason i cs) →
      notified i (s.reading.run w crashReason cs).2 = []) ∧
    ∀ before c after, cs = before ++ c :: after →
      ¬ Subscribes (s.reading.taken w crashReason i before) →
      Subscribes ((s.reading.run w crashReason before).1.takes i c) →
      let start := (s.reading.run w crashReason (before ++ [c])).1
      notified i (s.reading.run w crashReason (before ++ [c])).2 = [] ∧
        (start.run w crashReason after).1.Notifies s.capacity i
          (start.run w crashReason after).2 := by
  have hnew : s.Unsubscribed i := by simp [Server.Unsubscribed, hs.connections]
  have hunsubscribed (cs : List Choice) (hcs : ¬ Subscribes (s.reading.taken w crashReason i cs)) :
      (s.reading.run w crashReason cs).1.plain.Unsubscribed i ∧
        notified i (s.reading.run w crashReason cs).2 = [] := by
    obtain ⟨hplain, hout, htaken⟩ := run_reading w crashReason s cs
    rw [htaken] at hcs
    rw [hplain, hout]
    exact hnew.run w crashReason hcs
  refine ⟨fun hcs ↦ (hunsubscribed cs hcs).2, ?_⟩
  rintro before c after - hbefore hc start
  obtain ⟨hnone, hsilent⟩ := hunsubscribed before hbefore
  have hsound := ((sound_reading s).run w crashReason before).1
  obtain ⟨htold, hquiet⟩ := hsound.isTold_step w crashReason hnone hc
  have hconcat : s.reading.run w crashReason (before ++ [c]) =
      (((s.reading.run w crashReason before).1.step w crashReason c).1,
        (s.reading.run w crashReason before).2 ++
          ((s.reading.run w crashReason before).1.step w crashReason c).2) := by
    rw [run_append]
    simp [ReadingServer.run]
  have hstart : start = ((s.reading.run w crashReason before).1.step w crashReason c).1 := by
    simp only [start, hconcat]
  have hsoundStart : start.Sound := hstart ▸ (hsound.step w crashReason c).1
  have hcapacity : (start.run w crashReason after).1.capacity = s.capacity :=
    (hsoundStart.capacity_run w crashReason after).trans
      ((sound_reading s).capacity_run w crashReason (before ++ [c]))
  refine ⟨by rw [hconcat, Server.notified_append, hsilent, hquiet]; rfl, ?_⟩
  rw [← hcapacity]
  exact notifies_of_isTold (hsoundStart.isTold_run w crashReason (hstart ▸ htold) after)

/-- The first client subscribes. -/
def subscription : List Choice :=
  [.server .connect,
    .server (.arrive 0 (Frame.encode "\x7b\"type\":\"subscribe\"\x7d".toUTF8.toList)),
    .read 0, .post 0]

/-- A second client registers a chord and releases it, the first one subscribes once more, and only
then is there time to notify it. -/
def lag : List Choice :=
  List.flatten
    [[.server .connect,
      .server (.arrive 1 (Frame.encode
        "\x7b\"type\":\"register_hotkey\",\"hotkey\":\"Ctrl+Alt+A\"\x7d".toUTF8.toList)),
      .read 1, .post 1, .serve 1 0, .server (.daemon .takeCommand 0)],
      [.server (.arrive 1 (Frame.encode
        "\x7b\"type\":\"unregister_hotkey\"\x7d".toUTF8.toList)),
      .read 1, .post 1, .serve 1 0, .server (.daemon .takeCommand 0)],
      [.server (.arrive 0 (Frame.encode "\x7b\"type\":\"subscribe\"\x7d".toUTF8.toList)),
      .read 0, .post 0, .serve 0 0, .server (.notify 0), .server (.notify 0)]]

/-- If one event is kept, the older of two is lost, and the other is sent once. -/
theorem events_without_gaps_of_lag :
    let s := Server.fresh .macAnsi 1
    let w := Daemon.permissive .macAnsi
    let start := (s.reading.run w "" (subscription ++ [.serve 0 0])).1
    s.Unused ∧
      broadcast (start.run w "" lag).2 = [.hotkeyRegistered "Ctrl+Alt+A", .hotkeyUnregistered] ∧
      notified 0 (start.run w "" lag).2 = [.hotkeyUnregistered] ∧
      (start.run w "" lag).1.Notifies 1 0 (start.run w "" lag).2 := by
  intro s w start
  have hs : s.Unused := Server.unused_fresh .macAnsi 1
  have hgaps := (@events_without_gaps _ w "" s hs 0
    (subscription ++ .serve 0 0 :: lag)).2 subscription (.serve 0 0) lag rfl
    (by decide +kernel) (by decide +kernel)
  exact ⟨hs, by decide +kernel, by decide +kernel, hgaps.2⟩

end ReadingServer

end Typist
