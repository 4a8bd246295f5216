import Mathlib
import Typist.Proofs.Engine.Marks

/-!
# The lock of the published token

A request writes down which token is published, and strikes it out again, under a lock. Whoever
cancels keeps the same lock from before it reads the token until after it has raised the flag. Here
the lock is taken and given back in steps of their own, between which others may come; whoever is not
let in waits. Nothing new comes of it: what a crowd does with the lock it also does without.
-/

namespace Typist

/-- How far someone is who cancels whatever is being typed. -/
inductive Canceller
  /-- Wants the lock. -/
  | wanting
  /-- Has the lock. -/
  | entered
  /-- Has read which token is published, if one is. -/
  | reading (t : Option Token)
  /-- Has raised the flag of the token. -/
  | acted
  /-- Has given the lock back. -/
  | returned
  deriving DecidableEq

/-- Whether a canceller has the lock. -/
def Canceller.isInside : Canceller → Bool
  | .wanting | .returned => false
  | _ => true

/-- Who has the lock. -/
inductive Keeper
  | caller (i : Nat)
  | canceller (n : Nat)
  deriving DecidableEq

/-- Whether the next step of a request writes which token is published. -/
def Job.isWriting (j : Job) : Bool :=
  match j.stage with
  | .announced | .typed _ => true
  | _ => false

/-- A crowd, with the lock and those who cancel, in the order in which they came. -/
structure GuardedCrowd extends Crowd where
  keeper : Option Keeper := none
  cancellers : List Canceller := []

namespace GuardedCrowd

/-- What moves next. -/
inductive Choice
  /-- What moves in a crowd; a cancellation only begins. -/
  | move (choice : Crowd.Choice)
  /-- One who cancels takes a step. -/
  | canceller (n : Nat)

/-- Whether the next step of a caller needs the lock. -/
def needs (g : GuardedCrowd) (i : Nat) : Bool := (g.job? i).any Job.isWriting

/-- Whether a caller has the lock. -/
def keeps (g : GuardedCrowd) (i : Nat) : Bool := g.keeper = some (.caller i)

/-- A step of the crowd, which leaves the lock as it is. -/
def moving (g : GuardedCrowd) (choice : Crowd.Choice) : GuardedCrowd × List Crowd.Deed :=
  ({ g with toCrowd := (g.toCrowd.step choice).1 }, (g.toCrowd.step choice).2)

/-- A step of a caller: one that needs the lock takes it first, or waits for it, and then the next
one gives it back. -/
def advance (g : GuardedCrowd) (i : Nat) (trusted : Bool) : GuardedCrowd × List Crowd.Deed :=
  if g.needs i = g.keeps i then g.moving (.advance i trusted)
  else if g.keeps i then ({ g with keeper := none }, [])
  else if g.keeper = none then ({ g with keeper := some (.caller i) }, [])
  else (g, [])

/-- A step of one who cancels. -/
def advanceCanceller (g : GuardedCrowd) (n : Nat) : GuardedCrowd :=
  match g.cancellers[n]? with
  | some .wanting =>
    if g.keeper = none then
      { g with keeper := some (.canceller n), cancellers := g.cancellers.set n .entered }
    else g
  | some .entered => { g with cancellers := g.cancellers.set n (.reading g.engine.current) }
  | some (.reading t) =>
    { g with
      engine := t.elim g.engine g.engine.cancelToken, cancellers := g.cancellers.set n .acted }
  | some .acted => { g with keeper := none, cancellers := g.cancellers.set n .returned }
  | some .returned | none => g

/-- One step, and the native call that it completes. A caller that has the lock makes no call. -/
def step (g : GuardedCrowd) : Choice → GuardedCrowd × List Crowd.Deed
  | .move (.advance i trusted) => g.advance i trusted
  | .move (.answer i r) => if g.keeps i then (g, []) else g.moving (.answer i r)
  | .move (.crash i) => if g.keeps i then (g, []) else g.moving (.crash i)
  | .move .cancel => ({ g with cancellers := g.cancellers ++ [.wanting] }, [])
  | .move (.call call) => g.moving (.call call)
  | .move (.raise t) => g.moving (.raise t)
  | .canceller n => (g.advanceCanceller n, [])

/-- A run: every native call that was made, in order. -/
def run (g : GuardedCrowd) : List Choice → GuardedCrowd × List Crowd.Deed
  | [] => (g, [])
  | choice :: rest =>
    let (g, deeds) := g.step choice
    let (g, later) := g.run rest
    (g, deeds ++ later)

theorem run_append (g : GuardedCrowd) (cs rest : List Choice) :
    g.run (cs ++ rest) =
      (((g.run cs).1.run rest).1, (g.run cs).2 ++ ((g.run cs).1.run rest).2) := by
  induction cs generalizing g with
  | nil => simp [run]
  | cons choice cs ih => simp [run, ih]

/-- An engine that nobody has called yet. -/
def start (e : Engine) : GuardedCrowd := { toCrowd := ⟨e, []⟩ }

/-! ## Without the lock -/

/-- What a step does to the crowd, if it does anything. -/
inductive Does (g : GuardedCrowd) : Choice → List Crowd.Choice → Prop
  | nothing (choice : Choice) : Does g choice []
  | move {choice : Crowd.Choice} : choice ≠ .cancel →
      (∀ i trusted, choice = .advance i trusted → g.needs i = g.keeps i) →
      Does g (.move choice) [choice]
  | raise {n : Nat} {t : Token} : g.cancellers[n]? = some (.reading (some t)) →
      Does g (.canceller n) [.raise t]

/-- A step of a crowd with the lock is one without it, or none. -/
theorem exists_does (g : GuardedCrowd) (choice : Choice) :
    ∃ ms, g.Does choice ms ∧
      ((g.step choice).1.toCrowd, (g.step choice).2) = g.toCrowd.run ms := by
  have hmoving (m : Crowd.Choice) :
      ((g.moving m).1.toCrowd, (g.moving m).2) = g.toCrowd.run [m] := by
    simp [moving, Crowd.run]
  cases choice with
  | move m =>
    cases m with
    | call call => exact ⟨_, .move (by simp) (by simp), hmoving _⟩
    | advance i trusted =>
      simp only [step, advance]
      split
      · next heq =>
        refine ⟨_, .move (by simp) ?_, hmoving _⟩
        rintro _ _ ⟨⟩
        exact heq
      · split
        · exact ⟨[], .nothing _, rfl⟩
        · split <;> exact ⟨[], .nothing _, rfl⟩
    | answer i r =>
      simp only [step]
      split
      · exact ⟨[], .nothing _, rfl⟩
      · exact ⟨_, .move (by simp) (by simp), hmoving _⟩
    | crash i =>
      simp only [step]
      split
      · exact ⟨[], .nothing _, rfl⟩
      · exact ⟨_, .move (by simp) (by simp), hmoving _⟩
    | cancel => exact ⟨[], .nothing _, rfl⟩
    | raise t => exact ⟨_, .move (by simp) (by simp), hmoving _⟩
  | canceller n =>
    simp only [step, advanceCanceller]
    split
    · split <;> exact ⟨[], .nothing _, rfl⟩
    · exact ⟨[], .nothing _, rfl⟩
    · next t ht =>
      cases t with
      | none => exact ⟨[], .nothing _, rfl⟩
      | some t => exact ⟨_, .raise ht, hmoving (.raise t)⟩
    all_goals exact ⟨[], .nothing _, rfl⟩

/-- A run with the lock is a run of the crowd without it, in which nothing is brought down if
nothing was. -/
theorem exists_run (g : GuardedCrowd) {cs : List Choice} (hcrash : ∀ i, .move (.crash i) ∉ cs) :
    ∃ ms, (∀ i, .crash i ∉ ms) ∧ ((g.run cs).1.toCrowd, (g.run cs).2) = g.toCrowd.run ms := by
  induction cs generalizing g with
  | nil => exact ⟨[], nofun, rfl⟩
  | cons choice cs ih =>
    obtain ⟨ms, hdoes, hstep⟩ := g.exists_does choice
    obtain ⟨ms', hms', hrest⟩ := ih (g.step choice).1 fun i hi ↦ hcrash i (List.mem_cons_of_mem _ hi)
    refine ⟨ms ++ ms', fun i hi ↦ ?_, ?_⟩
    · rcases List.mem_append.mp hi with hi | hi
      · cases hdoes with
        | nothing => cases hi
        | move =>
          rw [← List.mem_singleton.mp hi] at hcrash
          exact hcrash i List.mem_cons_self
        | raise => simp at hi
      · exact hms' i hi
    · rw [Crowd.run_append, ← hstep, ← hrest]
      rfl

end GuardedCrowd

end Typist
