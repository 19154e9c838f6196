-- A search that goes through a list, one step at a time, up to the first step
-- that finds something. A step can fail, and so does the search then.
import Mathlib

namespace first_found

universe u v w
variable {α : Type u} {β : Type v} {ε : Type w} [DecidableEq β]

/-- What the first step finds that finds something else than `nothing`. -/
def firstFound (nothing : β) (f : α → Except ε β) : List α → Except ε β
  | [] => .ok nothing
  | a :: l =>
    match f a with
    | .error e => .error e
    | .ok b => if b ≠ nothing then .ok b else firstFound nothing f l

variable {nothing b : β} {f g : α → Except ε β} {a : α} {l l' : List α}

theorem firstFound_cons :
    firstFound nothing f (a :: l) =
      match f a with
      | .error e => .error e
      | .ok b => if b ≠ nothing then .ok b else firstFound nothing f l := rfl

theorem firstFound_cons_found (h : f a = .ok b) (hb : b ≠ nothing) :
    firstFound nothing f (a :: l) = .ok b := by
  rw [firstFound_cons, h]
  exact if_pos hb

theorem firstFound_cons_nothing (h : f a = .ok nothing) :
    firstFound nothing f (a :: l) = firstFound nothing f l := by
  rw [firstFound_cons, h]
  exact if_neg (not_not.mpr rfl)

/-- A search that does not fail is done with its first step, or goes on behind it. -/
theorem firstFound_cons_ok (h : firstFound nothing f (a :: l) = .ok b) :
    ∃ b', f a = .ok b' ∧
      (b' ≠ nothing ∧ b' = b ∨ b' = nothing ∧ firstFound nothing f l = .ok b) := by
  rw [firstFound_cons] at h
  cases hstep : f a with
  | error e =>
    rw [hstep] at h
    cases h
  | ok b' =>
    rw [hstep] at h
    refine ⟨b', rfl, ?_⟩
    by_cases hb : b' = nothing
    · exact Or.inr ⟨hb, (if_neg (not_not.mpr hb)).symm.trans h⟩
    · exact Or.inl ⟨hb, Except.ok.inj ((if_pos hb).symm.trans h)⟩

/-- Two parts are searched one after the other. -/
theorem firstFound_append :
    firstFound nothing f (l ++ l') =
      match firstFound nothing f l with
      | .error e => .error e
      | .ok b => if b ≠ nothing then .ok b else firstFound nothing f l' := by
  induction l with
  | nil => exact (if_neg (not_not.mpr rfl)).symm
  | cons a l ih =>
    rw [List.cons_append, firstFound_cons, firstFound_cons]
    cases f a with
    | error e => rfl
    | ok b =>
      by_cases hb : b ≠ nothing
      · simp only [if_pos hb]
      · simp only [if_neg hb, ih]

theorem firstFound_eq_nothing :
    firstFound nothing f l = .ok nothing ↔ ∀ a ∈ l, f a = .ok nothing := by
  induction l with
  | nil => simp [firstFound]
  | cons a l ih =>
    rw [List.forall_mem_cons, ← ih]
    constructor
    · intro h
      obtain ⟨b, hstep, ⟨hb, rfl⟩ | ⟨rfl, hrest⟩⟩ := firstFound_cons_ok h
      · exact absurd rfl hb
      · exact ⟨hstep, hrest⟩
    · rintro ⟨hstep, hrest⟩
      rw [firstFound_cons_nothing hstep, hrest]

/-- The search goes on behind what it has gone through in vain. -/
theorem firstFound_passed (h : ∀ a ∈ l, f a = .ok nothing) (l' : List α) :
    firstFound nothing f (l ++ l') = firstFound nothing f l' := by
  rw [firstFound_append, firstFound_eq_nothing.mpr h]
  exact if_neg (not_not.mpr rfl)

/-- A search through groups, each of which is searched in its turn. -/
theorem firstFound_flatMap {γ : Type u} (part : γ → List α) (groups : List γ) :
    firstFound nothing f (groups.flatMap part) =
      firstFound nothing (fun c => firstFound nothing f (part c)) groups := by
  induction groups with
  | nil => rfl
  | cons c groups ih =>
    rw [List.flatMap_cons, firstFound_append, ih]
    rfl

end first_found
