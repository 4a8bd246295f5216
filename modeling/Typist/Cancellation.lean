/-!
# Cancellation flags

A token names a flag that asks a run to stop. Copies of a token name the same flag, so cancelling
one cancels all of them; a fresh token names a flag of its own.
-/

namespace Typist

/-- The name of a cancellation flag. -/
structure Token where
  index : Nat
  deriving DecidableEq, Repr

/-- All flags that have been made, each raised or not. -/
structure Cancellation where
  flags : List Bool
  deriving DecidableEq, Repr

namespace Cancellation

/-- No flag. -/
def empty : Cancellation := ⟨[]⟩

/-- A new flag that is not raised, and its token. -/
def fresh (c : Cancellation) : Cancellation × Token := (⟨c.flags ++ [false]⟩, ⟨c.flags.length⟩)

/-- Raise a flag. -/
def cancel (c : Cancellation) (t : Token) : Cancellation := ⟨c.flags.set t.index true⟩

/-- Lower a flag. -/
def reset (c : Cancellation) (t : Token) : Cancellation := ⟨c.flags.set t.index false⟩

/-- Whether a flag is raised. -/
def isCancelled (c : Cancellation) (t : Token) : Bool := c.flags.getD t.index false

/-- Whether a token has been given out. -/
def Issued (c : Cancellation) (t : Token) : Prop := t.index < c.flags.length

instance (c : Cancellation) (t : Token) : Decidable (c.Issued t) :=
  inferInstanceAs (Decidable (t.index < c.flags.length))

/-- A fresh token was not given out before. -/
theorem not_issued_fresh (c : Cancellation) : ¬ c.Issued c.fresh.2 := by
  simp [Issued, fresh]

/-- A fresh flag is not raised, and the others keep their state. -/
theorem isCancelled_fresh (c : Cancellation) (t : Token) :
    c.fresh.1.isCancelled t = c.isCancelled t := by
  simp only [fresh, isCancelled, List.getD_eq_getElem?_getD, List.getElem?_append]
  split
  · rfl
  · rename_i h
    rw [List.getElem?_eq_none (Nat.le_of_not_lt h)]
    cases t.index - c.flags.length <;> simp

/-- Cancelling raises the flag of an issued token and no other. -/
theorem isCancelled_cancel {c : Cancellation} {t : Token} (h : c.Issued t) (u : Token) :
    (c.cancel t).isCancelled u = (decide (u = t) || c.isCancelled u) := by
  simp only [cancel, isCancelled, List.getD_eq_getElem?_getD, List.getElem?_set]
  by_cases hu : u = t
  · subst hu
    have : u.index < c.flags.length := h
    simp [this]
  · have : t.index ≠ u.index := fun he ↦ hu (by cases t; cases u; simp_all)
    simp [hu, this]

/-- Cancelling keeps what is raised. -/
theorem isCancelled_cancel_of (c : Cancellation) (t u : Token) (h : c.isCancelled u = true) :
    (c.cancel t).isCancelled u = true := by
  simp only [cancel, isCancelled, List.getD_eq_getElem?_getD, List.getElem?_set] at h ⊢
  split
  · split
    · rfl
    · rename_i h₁ h₂
      rw [List.getElem?_eq_none (by omega)] at h
      simp at h
  · exact h

end Cancellation

end Typist
