import Mathlib.Data.List.Basic
import Mathlib.Data.List.Range
import Typist.Proofs.Daemon.Account
import Typist.Proofs.Wire.Conversation
import Typist.Server

/-!
# The server and its clients

A step of the server lets a connection do something, the daemon, or both; what the daemon does is
passed on to every connection. So a run of the server is a run of its daemon, and a conversation on
every connection.
-/

namespace Typist.Server

open Connection (Act)

variable {σ : Type}

/-- What a client is sent, in order. -/
def sentTo (i : Nat) (out : List Output) : List Sent :=
  out.filterMap fun
    | .sent j s => if j = i then some s else none
    | .daemon _ => none

/-- What the daemon does, in order. -/
def ofDaemon (out : List Output) : List Daemon.Output :=
  out.filterMap fun
    | .sent .. => none
    | .daemon o => some o

@[simp] theorem sentTo_append (i : Nat) (out later : List Output) :
    sentTo i (out ++ later) = sentTo i out ++ sentTo i later :=
  List.filterMap_append

@[simp] theorem ofDaemon_append (out later : List Output) :
    ofDaemon (out ++ later) = ofDaemon out ++ ofDaemon later :=
  List.filterMap_append

theorem sentTo_toClient (i j : Nat) (sent : List Sent) :
    sentTo i (toClient j sent) = if j = i then sent else [] := by
  unfold sentTo toClient
  rw [List.filterMap_map]
  by_cases h : j = i <;> simp [h]

@[simp] theorem ofDaemon_toClient (j : Nat) (sent : List Sent) :
    ofDaemon (toClient j sent) = [] := by
  simp [ofDaemon, toClient, List.filterMap_map]

/-! ## Turns -/

/-- Whether every connection has gone through some acts, and the daemon has done something, and
nothing else has changed. -/
structure Turns (s s' : Server σ) (out : List Output) (os : List Daemon.Output)
    (as : Nat → List Act) : Prop where
  rest : s' = { s with connections := s'.connections }
  daemon : ofDaemon out = os
  connection : ∀ i, s'.connections[i]? =
    s.connections[i]?.map fun (c : Connection) ↦ (c.acts s.capacity (as i)).1
  sent : ∀ i, sentTo i out =
    (s.connections[i]?.map fun (c : Connection) ↦ (c.acts s.capacity (as i)).2).getD []

namespace Turns

variable {s s' s'' : Server σ} {out later : List Output} {os os' : List Daemon.Output}
  {as as' : Nat → List Act}

theorem refl (s : Server σ) : s.Turns s [] [] fun _ ↦ [] where
  rest := rfl
  daemon := rfl
  connection i := by simp [Connection.acts]
  sent i := by cases s.connections[i]? <;> rfl

theorem capacity (h : s.Turns s' out os as) : s'.capacity = s.capacity := by
  rw [h.rest]

theorem length (h : s.Turns s' out os as) : s'.connections.length = s.connections.length := by
  have hnone (i : Nat) : s'.connections[i]? = none ↔ s.connections[i]? = none := by
    rw [h.connection, Option.map_eq_none_iff]
  simp only [List.getElem?_eq_none_iff] at hnone
  have h1 := (hnone s.connections.length).mpr (Nat.le_refl _)
  have h2 := (hnone s'.connections.length).mp (Nat.le_refl _)
  omega

theorem trans (h : s.Turns s' out os as) (h' : s'.Turns s'' later os' as') :
    s.Turns s'' (out ++ later) (os ++ os') fun i ↦ as i ++ as' i where
  rest := by
    rw [h'.rest, h.rest]
  daemon := by rw [ofDaemon_append, h.daemon, h'.daemon]
  connection i := by
    rw [h'.connection, h.connection, h.capacity, Option.map_map]
    congr 1
    funext c
    simp only [Function.comp_apply, Connection.acts_append]
  sent i := by
    rw [sentTo_append, h.sent, h'.sent, h.connection, h.capacity]
    cases s.connections[i]? with
    | none => rfl
    | some c =>
      simp only [Option.map_some, Option.getD_some, Connection.acts_append]

theorem congr (h : s.Turns s' out os as)
    (has : ∀ i < s.connections.length, as i = as' i) : s.Turns s' out os as' := by
  refine { h with connection := fun i ↦ ?_, sent := fun i ↦ ?_ }
  · rw [h.connection]
    cases hi : s.connections[i]? with
    | none => rfl
    | some c => rw [has i (List.getElem?_eq_some_iff.mp hi).1]
  · rw [h.sent]
    cases hi : s.connections[i]? with
    | none => rfl
    | some c => rw [has i (List.getElem?_eq_some_iff.mp hi).1]

end Turns

/-- What the daemon has become does not matter to connections. -/
theorem Turns.put {s s' : Server σ} {out : List Output} {os : List Daemon.Output}
    {as : Nat → List Act} (h : s.Turns s' out os as) (daemon : Daemon σ) (issued : Nat)
    (accepting : Bool) :
    { s with daemon, issued, accepting }.Turns { s' with daemon, issued, accepting } out os as where
  rest := by rw [h.rest]
  daemon := h.daemon
  connection := h.connection
  sent := h.sent

/-- One connection goes through an act. -/
theorem turns_onConnection (s : Server σ) (i : Nat) (a : Act) :
    s.Turns (s.onConnection i (·.act s.capacity a)).1 (s.onConnection i (·.act s.capacity a)).2 []
      fun j ↦ if i = j then [a] else [] := by
  unfold onConnection
  cases hi : s.connections[i]? with
  | none =>
    refine (Turns.refl s).congr ?_
    intro j hj
    rw [if_neg]
    rintro rfl
    rw [List.getElem?_eq_none_iff] at hi
    omega
  | some c =>
    obtain ⟨hlt, -⟩ := List.getElem?_eq_some_iff.mp hi
    refine ⟨rfl, ofDaemon_toClient .., ?_, ?_⟩
    · intro j
      dsimp only
      rw [List.getElem?_set]
      by_cases hij : i = j
      · subst hij
        rw [if_pos rfl, if_pos hlt, hi, if_pos rfl]
        rfl
      · simp [hij, Connection.acts]
    · intro j
      dsimp only
      rw [sentTo_toClient]
      by_cases hij : i = j
      · subst hij
        simp [hi, Connection.acts]
      · rw [if_neg hij]
        cases s.connections[j]? <;> simp [hij, Connection.acts]

/-- Connections go through an act, one after the other. -/
theorem turns_onEach (s : Server σ) (a : Act) (is : List Nat) :
    s.Turns (s.onEach (·.act s.capacity a) is).1 (s.onEach (·.act s.capacity a) is).2 []
      fun j ↦ List.replicate (is.count j) a := by
  induction is generalizing s with
  | nil => exact Turns.refl s
  | cons i is ih =>
    have hfirst := s.turns_onConnection i a
    have hrest := ih (s.onConnection i (·.act s.capacity a)).1
    rw [hfirst.capacity] at hrest
    refine (hfirst.trans hrest).congr fun j _ ↦ ?_
    rw [List.count_cons]
    by_cases hij : i = j
    · simp [hij, List.replicate_succ]
    · simp [hij]

/-- Every connection goes through an act. -/
theorem turns_onAll (s : Server σ) (a : Act) :
    s.Turns (s.onAll (·.act s.capacity a)).1 (s.onAll (·.act s.capacity a)).2 [] fun _ ↦ [a] := by
  refine (s.turns_onEach a (List.range s.connections.length)).congr fun j hj ↦ ?_
  rw [List.count_eq_one_of_mem List.nodup_range (List.mem_range.mpr hj)]
  rfl

/-- What the daemon does is passed on to every connection. -/
theorem passOn_eq (s : Server σ) (uptimeSecs : UInt64) (o : Daemon.Output) :
    s.passOn uptimeSecs o =
      ((s.onAll (·.act s.capacity (.pass uptimeSecs o))).1,
        .daemon o :: (s.onAll (·.act s.capacity (.pass uptimeSecs o))).2) := by
  cases o <;> rfl

theorem turns_passOn (s : Server σ) (uptimeSecs : UInt64) (o : Daemon.Output) :
    s.Turns (s.passOn uptimeSecs o).1 (s.passOn uptimeSecs o).2 [o]
      fun _ ↦ [.pass uptimeSecs o] := by
  have hall := s.turns_onAll (.pass uptimeSecs o)
  rw [passOn_eq]
  refine { hall with daemon := ?_ }
  exact congrArg (o :: ·) hall.daemon

theorem turns_passOnAll (s : Server σ) (uptimeSecs : UInt64) (os : List Daemon.Output) :
    s.Turns (s.passOnAll uptimeSecs os).1 (s.passOnAll uptimeSecs os).2 os
      fun _ ↦ os.map (.pass uptimeSecs) := by
  induction os generalizing s with
  | nil => exact Turns.refl s
  | cons o os ih => exact (s.turns_passOn uptimeSecs o).trans (ih _)

/-! ## Steps -/

/-- Who has a connection after a client connected had it before, or has the new one. -/
theorem getElem?_connect {s : Server σ} {i : Nat} {c : Connection}
    (h : s.connect.connections[i]? = some c) :
    s.connections[i]? = some c ∨ c = { isOpen := s.accepting } := by
  rw [connect, List.getElem?_append] at h
  split at h
  · exact .inl h
  · rw [List.getElem?_singleton] at h
    split at h
    · exact .inr (Option.some.inj h).symm
    · cases h

/-- The command that the daemon is sent in a step. -/
def asks (s : Server σ) : Choice → Option Command
  | .takeFrame i _ => s.connections[i]?.bind fun c ↦ (c.takeFrame ⟨s.issued⟩).2.2
  | .stopDaemon _ => some .shutdown
  | _ => none

/-- What moves in the daemon in a step. -/
def daemonMoves (s : Server σ) : Choice → List Daemon.Choice
  | .daemon (.send ..) _ => []
  | .daemon c _ => [c]
  | c => (s.asks c).toList.map (.send ⟨s.issued⟩)

/-- The time that a step goes by. -/
def Choice.uptimeSecs : Choice → UInt64
  | .takeFrame _ uptimeSecs | .daemon _ uptimeSecs | .stopDaemon uptimeSecs => uptimeSecs
  | _ => 0

/-- What a step lets a connection do. -/
def ownActs (s : Server σ) (i : Nat) : Choice → List Act
  | .arrive j bytes => if j = i then [.arrive bytes] else []
  | .finish j => if j = i then [.finish] else []
  | .leave j => if j = i then [.leave] else []
  | .takeFrame j _ => if j = i then [.take ⟨s.issued⟩] else []
  | .notify j => if j = i then [.notify] else []
  | .shutDown => [.close]
  | _ => []

variable (w : Surroundings σ) (crashReason : String)

/-- What the daemon does in a step. -/
def daemonOutputs (s : Server σ) (c : Choice) : List Daemon.Output :=
  (s.daemon.run w crashReason (s.daemonMoves c)).2

/-- What a connection goes through in a step. -/
def actsIn (s : Server σ) (i : Nat) (c : Choice) : List Act :=
  s.ownActs i c ++ (s.daemonOutputs w crashReason c).map (.pass c.uptimeSecs)

/-- What makes a connection go through an act in a step. -/
def Causes (s : Server σ) (i : Nat) (c : Choice) : Act → Prop
  | .arrive bytes => c = .arrive i bytes
  | .finish => c = .finish i
  | .leave => c = .leave i
  | .take _ => ∃ uptimeSecs, c = .takeFrame i uptimeSecs
  | .notify => c = .notify i
  | .close => c = .shutDown
  | .pass _ o => o ∈ s.daemonOutputs w crashReason c

theorem causes_of_mem_actsIn {s : Server σ} {i : Nat} {c : Choice} {a : Act}
    (h : a ∈ s.actsIn w crashReason i c) : s.Causes w crashReason i c a := by
  rcases List.mem_append.mp h with h | h
  · cases c with
    | arrive j | finish j | leave j | takeFrame j | notify j =>
      rw [ownActs] at h
      split at h
      · next hj =>
        rw [List.mem_singleton.mp h, hj]
        simp [Causes]
      · cases h
    | shutDown =>
      rw [List.mem_singleton.mp h]
      rfl
    | _ => cases h
  · obtain ⟨o, ho, rfl⟩ := List.mem_map.mp h
    exact ho

/-- The server after what a step has the daemon do, and before connections do anything. -/
def moved (s : Server σ) (c : Choice) : Server σ :=
  { s with
    daemon := (s.daemon.run w crashReason (s.daemonMoves c)).1
    issued := s.issued + (s.asks c).toList.length
    accepting := match c with | .shutDown => false | _ => s.accepting }

/-- A step in which one connection goes through an act, and nothing else happens. -/
theorem turns_own (s : Server σ) {c : Choice} {i : Nat} {a : Act}
    (hstep : s.step w crashReason c = s.onConnection i (·.act s.capacity a))
    (hmoves : s.daemonMoves c = []) (hmoved : s.moved w crashReason c = s)
    (hown : ∀ j, s.ownActs j c = if i = j then [a] else []) :
    (s.moved w crashReason c).Turns (s.step w crashReason c).1 (s.step w crashReason c).2
      (s.daemonOutputs w crashReason c) fun i ↦ s.actsIn w crashReason i c := by
  have hnothing : s.daemonOutputs w crashReason c = [] := by
    rw [daemonOutputs, hmoves]
    rfl
  rw [hmoved, hstep, hnothing]
  refine (s.turns_onConnection i a).congr fun j _ ↦ ?_
  rw [actsIn, hnothing, hown, List.map_nil, List.append_nil]

/-- Where the daemon is sent a command, what it does is passed on. -/
theorem turns_ask (s : Server σ) (uptimeSecs : UInt64) (c : Command) :
    { s with
      daemon := (s.daemon.run w crashReason [.send ⟨s.issued⟩ c]).1
      issued := s.issued + 1 }.Turns (s.ask uptimeSecs c).1 (s.ask uptimeSecs c).2
      (s.daemon.run w crashReason [.send ⟨s.issued⟩ c]).2
      fun _ ↦ (s.daemon.run w crashReason [.send ⟨s.issued⟩ c]).2.map (.pass uptimeSecs) := by
  simp only [Daemon.run, List.append_nil]
  exact turns_passOnAll _ uptimeSecs _

/-- A frame is taken by the connection alone, or the daemon is sent a command, too. -/
theorem takeFrame_of_none {s : Server σ} {i : Nat} {uptimeSecs : UInt64}
    (h : s.asks (.takeFrame i uptimeSecs) = none) :
    s.takeFrame uptimeSecs i = s.onConnection i (·.act s.capacity (.take ⟨s.issued⟩)) := by
  unfold takeFrame onConnection
  cases hi : s.connections[i]? with
  | none => rfl
  | some c =>
    rw [asks, hi, Option.bind_some] at h
    simp only [h]
    rfl

theorem takeFrame_of_some {s : Server σ} {i : Nat} {uptimeSecs : UInt64} {command : Command}
    (h : s.asks (.takeFrame i uptimeSecs) = some command) :
    s.takeFrame uptimeSecs i =
      (((s.onConnection i (·.act s.capacity (.take ⟨s.issued⟩))).1.ask uptimeSecs command).1,
        (s.onConnection i (·.act s.capacity (.take ⟨s.issued⟩))).2 ++
          ((s.onConnection i (·.act s.capacity (.take ⟨s.issued⟩))).1.ask uptimeSecs command).2) := by
  unfold takeFrame onConnection
  cases hi : s.connections[i]? with
  | none =>
    rw [asks, hi] at h
    cases h
  | some c =>
    rw [asks, hi, Option.bind_some] at h
    simp only [h]
    rfl

/-- Every step but that of a new client. -/
theorem turns_step (s : Server σ) {c : Choice} (hc : c ≠ .connect) :
    (s.moved w crashReason c).Turns (s.step w crashReason c).1 (s.step w crashReason c).2
      (s.daemonOutputs w crashReason c) fun i ↦ s.actsIn w crashReason i c := by
  cases c with
  | connect => exact absurd rfl hc
  | arrive i bytes => exact s.turns_own w crashReason rfl rfl rfl fun _ ↦ rfl
  | finish i => exact s.turns_own w crashReason rfl rfl rfl fun _ ↦ rfl
  | leave i => exact s.turns_own w crashReason rfl rfl rfl fun _ ↦ rfl
  | notify i => exact s.turns_own w crashReason rfl rfl rfl fun _ ↦ rfl
  | stopDaemon uptimeSecs => exact s.turns_ask w crashReason uptimeSecs .shutdown
  | shutDown =>
    refine ⟨rfl, rfl, fun i ↦ ?_, fun i ↦ ?_⟩
    · exact List.getElem?_map ..
    · simp only [moved]
      cases s.connections[i]? <;> rfl
  | daemon d uptimeSecs =>
    cases d with
    | send => exact Turns.refl s
    | _ =>
      simp only [moved, daemonOutputs, actsIn, daemonMoves, Daemon.run, List.append_nil]
      exact turns_passOnAll _ uptimeSecs _
  | takeFrame i uptimeSecs =>
    cases hasks : s.asks (.takeFrame i uptimeSecs) with
    | none =>
      have hmoves : s.daemonMoves (.takeFrame i uptimeSecs) = [] := by
        simp [daemonMoves, hasks]
      refine s.turns_own w crashReason (s.takeFrame_of_none hasks) hmoves ?_ fun _ ↦ rfl
      simp only [moved, hmoves, hasks]
      rfl
    | some command =>
      have hmoves : s.daemonMoves (.takeFrame i uptimeSecs) = [.send ⟨s.issued⟩ command] := by
        simp [daemonMoves, hasks]
      have htake := s.turns_onConnection i (.take ⟨s.issued⟩)
      obtain ⟨cs, hcs⟩ : ∃ cs, (s.onConnection i (·.act s.capacity (.take ⟨s.issued⟩))).1 =
          { s with connections := cs } := ⟨_, htake.rest⟩
      simp only [step, takeFrame_of_some hasks, moved, daemonOutputs, actsIn, hmoves, hasks]
      rw [hcs] at htake ⊢
      exact (htake.put _ (s.issued + 1) s.accepting).trans
        (turns_ask w crashReason { s with connections := cs } uptimeSecs command)

/-! ## Runs -/

/-- The last step of a run. -/
theorem run_concat (s : Server σ) (cs : List Choice) (c : Choice) :
    s.run w crashReason (cs ++ [c]) =
      (((s.run w crashReason cs).1.step w crashReason c).1,
        (s.run w crashReason cs).2 ++ ((s.run w crashReason cs).1.step w crashReason c).2) := by
  rw [run_append]
  simp only [run, List.append_nil]

section History

variable {α : Type} (f : Server σ → Choice → List α)

/-- What is done in the steps of a run, in order. -/
def history (s : Server σ) : List Choice → List α
  | [] => []
  | c :: cs => f s c ++ (s.step w crashReason c).1.history cs

theorem history_append (s : Server σ) (cs rest : List Choice) :
    s.history w crashReason f (cs ++ rest) =
      s.history w crashReason f cs ++ (s.run w crashReason cs).1.history w crashReason f rest := by
  induction cs generalizing s with
  | nil => rfl
  | cons c cs ih => simp only [List.cons_append, history, run, ih, List.append_assoc]

theorem history_concat (s : Server σ) (cs : List Choice) (c : Choice) :
    s.history w crashReason f (cs ++ [c]) =
      s.history w crashReason f cs ++ f (s.run w crashReason cs).1 c := by
  rw [history_append]
  simp only [history, List.append_nil]

end History

/-- What moves in the daemon in a run. -/
def daemonRun (s : Server σ) (cs : List Choice) : List Daemon.Choice :=
  s.history w crashReason daemonMoves cs

/-- What a connection goes through in a run, once there is one. -/
def conversation (s : Server σ) (i : Nat) (cs : List Choice) : List Act :=
  s.history w crashReason
    (fun s c ↦ if s.connections[i]?.isSome then s.actsIn w crashReason i c else []) cs

/-- A step of the server is what moves in its daemon. -/
theorem daemon_step (s : Server σ) (c : Choice) :
    (s.step w crashReason c).1.daemon = (s.daemon.run w crashReason (s.daemonMoves c)).1 ∧
      ofDaemon (s.step w crashReason c).2 = s.daemonOutputs w crashReason c := by
  by_cases hc : c = .connect
  · subst hc
    exact ⟨rfl, rfl⟩
  · have hturns := s.turns_step w crashReason hc
    exact ⟨by rw [hturns.rest]; rfl, hturns.daemon⟩

/-- A run of the server is a run of its daemon. -/
theorem daemon_run (s : Server σ) (cs : List Choice) :
    (s.run w crashReason cs).1.daemon = (s.daemon.run w crashReason (s.daemonRun w crashReason cs)).1 ∧
      ofDaemon (s.run w crashReason cs).2 =
        (s.daemon.run w crashReason (s.daemonRun w crashReason cs)).2 := by
  induction cs using List.reverseRecOn with
  | nil => exact ⟨rfl, rfl⟩
  | append_singleton cs c ih =>
    have hstep := (s.run w crashReason cs).1.daemon_step w crashReason c
    rw [daemonOutputs] at hstep
    rw [daemonRun, history_concat, run_concat, Daemon.run_append, ofDaemon_append]
    rw [daemonRun] at ih
    rw [hstep.1, hstep.2, ih.1, ih.2]
    exact ⟨rfl, rfl⟩

/-- A server that nothing has happened to yet. -/
structure Unused (s : Server σ) : Prop where
  daemon : s.daemon.Unused
  connections : s.connections = []
  accepting : s.accepting = true

/-- A server that starts. -/
def fresh (l : Layout) (capacity : Nat) : Server Unit := { daemon := .fresh l, capacity }

theorem unused_fresh (l : Layout) (capacity : Nat) : (fresh l capacity).Unused where
  daemon := Daemon.unused_fresh l
  connections := rfl
  accepting := rfl

/-- Whether a client, if there is one, has a connection that has gone through some acts. -/
inductive Talks (capacity : Nat) : Option Connection → List Sent → List Act → Prop
  | absent : Talks capacity none [] []
  | present (as : List Act) : Talks capacity (some (({} : Connection).acts capacity as).1)
      (({} : Connection).acts capacity as).2 as

theorem Talks.eq {capacity : Nat} {c : Connection} {sent : List Sent} {as : List Act}
    (h : Talks capacity (some c) sent as) :
    c = (({} : Connection).acts capacity as).1 ∧ sent = (({} : Connection).acts capacity as).2 := by
  cases h
  exact ⟨rfl, rfl⟩

/-- A client that goes through more acts has gone through all of them. -/
theorem Talks.append {capacity : Nat} {c : Option Connection} {sent : List Sent} {as : List Act}
    (h : Talks capacity c sent as) (more : List Act) :
    Talks capacity (c.map fun c ↦ (c.acts capacity more).1)
      (sent ++ (c.map fun c ↦ (c.acts capacity more).2).getD [])
      (as ++ if c.isSome then more else []) := by
  cases h with
  | absent => exact .absent
  | present as =>
    have hall : Talks capacity _ _ _ := .present (as ++ more)
    rw [Connection.acts_append] at hall
    exact hall

/-- A step goes on with every conversation. -/
theorem talks_step {s : Server σ} {i : Nat} {sent : List Sent} {as : List Act}
    (h : Talks s.capacity s.connections[i]? sent as) (haccepting : s.accepting = true) (c : Choice) :
    Talks s.capacity (s.step w crashReason c).1.connections[i]?
      (sent ++ sentTo i (s.step w crashReason c).2)
      (as ++ if s.connections[i]?.isSome then s.actsIn w crashReason i c else []) := by
  by_cases hc : c = .connect
  · subst hc
    have hnothing : (if s.connections[i]?.isSome then s.actsIn w crashReason i .connect else []) =
        [] := ite_self _
    rw [hnothing, List.append_nil]
    show Talks _ (s.connections ++ [_])[i]? (sent ++ []) as
    rw [List.append_nil]
    obtain hlt | rfl | hgt := Nat.lt_trichotomy i s.connections.length
    · rw [List.getElem?_append_left hlt]
      exact h
    · rw [List.getElem?_eq_none (Nat.le_refl _)] at h
      rw [List.getElem?_concat_length, haccepting]
      cases h
      exact .present []
    · rw [List.getElem?_eq_none (Nat.le_of_lt hgt)] at h
      rw [List.getElem?_eq_none (by rw [List.length_append]; exact hgt)]
      exact h
  · have hturns := s.turns_step w crashReason hc
    rw [hturns.connection, hturns.sent]
    exact h.append _

/-- Every connection of a server that is not shut down has gone through its conversation. -/
theorem Unused.talks {s : Server σ} (hs : s.Unused) {cs : List Choice} (hcs : .shutDown ∉ cs) :
    (s.run w crashReason cs).1.accepting = true ∧
      (s.run w crashReason cs).1.capacity = s.capacity ∧
      ∀ i, Talks s.capacity (s.run w crashReason cs).1.connections[i]?
        (sentTo i (s.run w crashReason cs).2) (s.conversation w crashReason i cs) := by
  induction cs using List.reverseRecOn with
  | nil =>
    refine ⟨hs.accepting, rfl, fun i ↦ ?_⟩
    rw [run, hs.connections]
    exact .absent
  | append_singleton cs c ih =>
    rw [List.mem_append, not_or, List.mem_singleton] at hcs
    obtain ⟨haccepting, hcapacity, ih⟩ := ih hcs.1
    rw [run_concat]
    refine ⟨?_, ?_, fun i ↦ ?_⟩
    · by_cases hc : c = .connect
      · rw [hc]
        exact haccepting
      · rw [((s.run w crashReason cs).1.turns_step w crashReason hc).rest]
        cases c with
        | shutDown => exact absurd rfl hcs.2
        | _ => exact haccepting
    · by_cases hc : c = .connect
      · rw [hc]
        exact hcapacity
      · rw [((s.run w crashReason cs).1.turns_step w crashReason hc).capacity]
        exact hcapacity
    · have hi := ih i
      rw [← hcapacity] at hi
      have hstep := talks_step w crashReason hi haccepting c
      rw [hcapacity] at hstep
      rw [conversation, history_concat, sentTo_append]
      exact hstep

end Typist.Server
