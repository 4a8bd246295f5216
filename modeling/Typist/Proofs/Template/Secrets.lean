import Typist.Proofs.Template.Scan

/-!
# Windows on the password

When a password is unlocked while a template is compiled. An unlocking and the locking right behind
it are a window; windows hold nothing else, and there is one for each placeholder of the password in
front of the first fault, whatever the credential answers and however compiling ends.
-/

namespace Typist.Template

/-! ## Windows -/

/-- Whether a password is locked at once where it is unlocked, and is locked nowhere else. -/
structure Windowed (moments : List Moment) : Prop where
  locks : ∀ before after, moments = before ++ .access .unlock :: after →
    after.head? = some (.access .lock)
  unlocks : ∀ before after, moments = before ++ .access .lock :: after →
    before.getLast? = some (.access .unlock)

theorem windowed_nil : Windowed [] := ⟨by simp, by simp⟩

theorem windowed_window : Windowed [.access .unlock, .access .lock] where
  locks before after h := by
    match before with
    | [] =>
      cases h
      rfl
    | [_] => simp at h
    | _ :: _ :: _ => simp at h
  unlocks before after h := by
    match before with
    | [] => cases h
    | [_] =>
      cases h
      rfl
    | _ :: _ :: _ => simp at h

theorem windowed_singleton {m : Moment} (hunlock : m ≠ .access .unlock)
    (hlock : m ≠ .access .lock) : Windowed [m] where
  locks before after h := by
    cases before with
    | nil => exact absurd (List.cons.inj h).1 hunlock
    | cons d before => simp at h
  unlocks before after h := by
    cases before with
    | nil => exact absurd (List.cons.inj h).1 hlock
    | cons d before => simp at h

/-- Windows stay whole when moments are put behind one another. -/
theorem Windowed.append {ms ms' : List Moment} (h : Windowed ms) (h' : Windowed ms') :
    Windowed (ms ++ ms') where
  locks before after heq := by
    obtain ⟨mid, rfl, hmid⟩ | ⟨mid, hms, hmid⟩ := List.append_eq_append_iff.mp heq
    · exact h'.locks mid after hmid
    · cases mid with
      | nil => exact h'.locks [] after hmid.symm
      | cons m mid =>
        obtain ⟨rfl, hafter⟩ := List.cons.inj hmid
        have hafter : after = mid ++ ms' := hafter
        rw [hafter, List.head?_append, h.locks before mid hms]
        rfl
  unlocks before after heq := by
    obtain ⟨mid, rfl, hmid⟩ | ⟨mid, hms, hmid⟩ := List.append_eq_append_iff.mp heq
    · rw [List.getLast?_append, h'.unlocks mid after hmid]
      rfl
    · cases mid with
      | nil => cases h'.unlocks [] after hmid.symm
      | cons m mid =>
        obtain ⟨rfl, rfl⟩ := List.cons.inj hmid
        exact h.unlocks before mid hms

theorem Windowed.flatMap {α : Type} {f : α → List Moment} (h : ∀ x, Windowed (f x)) (xs : List α) :
    Windowed (xs.flatMap f) := by
  induction xs with
  | nil => exact windowed_nil
  | cons x xs ih => exact (h x).append ih

/-! ## One token -/

/-- What is seen of one token. -/
def tokenMoments (raw : List Char) : List Moment :=
  .expand raw :: match Part.ofToken raw with
    | .ok p => p.accesses.map .access
    | .error _ => []

/-- The tokens that moments expand. -/
def expansionsOf (moments : List Moment) : List (List Char) :=
  moments.filterMap fun
    | .expand raw => some raw
    | .access _ => none

theorem windowed_accesses (p : Part) : Windowed (p.accesses.map .access) := by
  cases p with
  | field f =>
    cases f with
    | password => exact windowed_window
    | _ => exact windowed_singleton nofun nofun
  | _ => exact windowed_nil

theorem windowed_tokenMoments (raw : List Char) : Windowed (tokenMoments raw) := by
  refine (windowed_singleton nofun nofun : Windowed [.expand raw]).append ?_
  cases Part.ofToken raw with
  | ok p => exact windowed_accesses p
  | error e => exact windowed_nil

theorem expansionsOf_append (ms ms' : List Moment) :
    expansionsOf (ms ++ ms') = expansionsOf ms ++ expansionsOf ms' :=
  List.filterMap_append

theorem expansionsOf_map_access (as : List Access) : expansionsOf (as.map .access) = [] := by
  rw [expansionsOf, List.filterMap_map, List.filterMap_eq_nil_iff]
  exact fun _ _ ↦ rfl

theorem expansionsOf_tokenMoments (raw : List Char) : expansionsOf (tokenMoments raw) = [raw] := by
  have hcons (ms : List Moment) : expansionsOf (.expand raw :: ms) = raw :: expansionsOf ms := rfl
  rw [tokenMoments, hcons]
  cases Part.ofToken raw with
  | ok p => rw [expansionsOf_map_access]
  | error e => rfl

/-- Whether a token stands for the password. -/
def IsPassword (raw : List Char) : Prop := word raw ∈ ["PASSWORD", "PASS", "PWD"]

instance (raw : List Char) : Decidable (IsPassword raw) := by
  unfold IsPassword
  infer_instance

/-- A token opens and closes a window if it stands for the password, and only then. -/
theorem count_tokenMoments (raw : List Char) {a : Access} (ha : a = .unlock ∨ a = .lock) :
    (accessesOf (tokenMoments raw)).count a = if IsPassword raw then 1 else 0 := by
  have hcons (ms : List Moment) : accessesOf (.expand raw :: ms) = accessesOf ms := rfl
  have hpassword : IsPassword raw ↔ Part.ofToken raw = .ok (.field .password) :=
    (ofToken_field_iff (f := .password)).symm
  rw [tokenMoments, hcons]
  simp only [hpassword]
  cases Part.ofToken raw with
  | ok p =>
    rw [accessesOf_map_access]
    cases p with
    | field f => cases f <;> obtain rfl | rfl := ha <;> rfl
    | _ => simp [Part.accesses]
  | error e => simp [accessesOf]

/-- A token that is not known does not stand for the password. -/
theorem not_isPassword {raw : List Char} (h : ¬ IsKnown raw) : ¬ IsPassword raw :=
  fun hpassword ↦ h (.field .password hpassword)

/-! ## A template -/

/-- What is seen of known tokens goes before what is seen behind them. -/
theorem momentsOf_append {front : List (List Char × List Char)} (h : ∀ x ∈ front, IsKnown x.2)
    (ps : List Piece) :
    momentsOf ((front.flatMap fun x ↦ [.literal x.1, .token x.2]) ++ ps) =
      (front.flatMap fun x ↦ tokenMoments x.2) ++ momentsOf ps := by
  induction front with
  | nil => rfl
  | cons x front ih =>
    obtain ⟨hx, hfront⟩ := List.forall_mem_cons.mp h
    obtain ⟨p, hp⟩ := isKnown_iff.mp hx
    have htoken : tokenMoments x.2 = .expand x.2 :: p.accesses.map .access := by
      simp only [tokenMoments, hp]
    simp only [List.flatMap_cons, List.cons_append, List.nil_append, momentsOf, hp, htoken,
      List.append_assoc, ih hfront]

/-- Nothing is seen of a tail. -/
theorem momentsOf_tail {cs tail : List Char} {closed : List (List Char × List Char)}
    (h : Splits cs closed tail) (n : Nat) : momentsOf (pieces n tail) = [] := by
  obtain hopen | ⟨text, inner, rfl, htext, hinner⟩ := tail_cases h.open_tail
  · rw [pieces_literal hopen]
    rfl
  · rw [pieces_dangling htext hinner]
    rfl

/-- Every token in front of the first that is not known is expanded, and that one is begun. -/
theorem momentsOf_pieces {cs tail : List Char} {closed front rest : List (List Char × List Char)}
    (h : Splits cs closed tail) (hfront : KnownFront closed front rest) (n : Nat) :
    momentsOf (pieces n cs) = (front ++ rest.take 1).flatMap fun x ↦ tokenMoments x.2 := by
  rw [h.pieces, hfront.append, List.flatMap_append, List.append_assoc,
    momentsOf_append hfront.known, List.flatMap_append]
  congr 1
  cases rest with
  | nil => exact momentsOf_tail h _
  | cons x rest =>
    cases hp : Part.ofToken x.2 with
    | ok p => exact absurd (isKnown_iff.mpr ⟨p, hp⟩) (hfront.next x rfl)
    | error e =>
      simp only [List.flatMap_cons, List.cons_append, momentsOf, hp, List.take_succ_cons,
        List.take_zero, tokenMoments, List.flatMap_nil, List.append_nil]

/-- Tokens open and close a window for each among them that stands for the password. -/
theorem count_flatMap_tokenMoments {a : Access} (ha : a = .unlock ∨ a = .lock)
    (xs : List (List Char × List Char)) :
    (accessesOf (xs.flatMap fun x ↦ tokenMoments x.2)).count a =
      xs.countP fun x ↦ IsPassword x.2 := by
  induction xs with
  | nil => rfl
  | cons x xs ih =>
    rw [List.flatMap_cons, accessesOf_append, List.count_append, count_tokenMoments x.2 ha, ih,
      List.countP_cons, Nat.add_comm]
    simp only [decide_eq_true_eq]

/-- The password is unlocked in windows alone, whatever the credential answers and the outcome: each
unlocking is followed by its locking before another access, before the next placeholder and before
the end. There are as many as placeholders of the password in front of the first placeholder at
fault, or in the template if none is, and all of those are expanded. Compiling for an entry makes
the same accesses. -/
theorem compile_windowed (template : String) (c : Credential) :
    ∃ result moments, (∀ result' moments', Compiles c template result' moments' ↔
        result' = result ∧ moments' = moments) ∧
      Windowed moments ∧
      ∃ closed tail front rest, Splits template.toList closed tail ∧
        KnownFront closed front rest ∧
        expansionsOf moments = (front ++ rest.take 1).map Prod.snd ∧
        (accessesOf moments).count .unlock = front.countP (fun x ↦ IsPassword x.2) ∧
        (accessesOf moments).count .lock = front.countP (fun x ↦ IsPassword x.2) ∧
        ∀ e, (compile template (some e)).accesses = accessesOf moments := by
  obtain ⟨closed, tail, h⟩ := exists_splits template.toList
  obtain ⟨front, rest, hfront⟩ := exists_knownFront closed
  have hmoments := momentsOf_pieces h hfront 0
  have hcount {a : Access} (ha : a = .unlock ∨ a = .lock) :
      (accessesOf (momentsOf (pieces 0 template.toList))).count a =
        front.countP fun x ↦ IsPassword x.2 := by
    rw [hmoments, count_flatMap_tokenMoments ha, List.countP_append]
    cases rest with
    | nil => rfl
    | cons x rest => simp [not_isPassword (hfront.next x rfl)]
  refine ⟨_, _, fun result' moments' ↦ compiles_iff, ?_, closed, tail, front, rest, h, hfront, ?_,
    hcount (.inl rfl), hcount (.inr rfl), accesses_compile template⟩
  · rw [hmoments]
    exact Windowed.flatMap (fun x : List Char × List Char ↦ windowed_tokenMoments x.2) _
  · rw [hmoments]
    induction front ++ rest.take 1 with
    | nil => rfl
    | cons x xs ih =>
      rw [List.flatMap_cons, expansionsOf_append, expansionsOf_tokenMoments, ih]
      rfl

end Typist.Template
