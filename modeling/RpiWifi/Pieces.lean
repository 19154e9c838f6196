-- Lists that are cut at some of their elements, seen from a reader that goes through the
-- list once: the pieces that are closed so far and the one that is still open.
import Mathlib

namespace pieces

variable {α : Type*} (p : α → Bool)

/-! ## Closed pieces and the open one -/

theorem splitOnP_concat (xs : List α) (x : α) :
    (xs ++ [x]).splitOnP p =
      if p x then xs.splitOnP p ++ [[]]
      else (xs.splitOnP p).dropLast ++
        [(xs.splitOnP p).getLast (List.splitOnP_ne_nil p xs) ++ [x]] := by
  induction xs with
  | nil =>
    rw [List.nil_append, List.splitOnP_cons_eq_if_modifyHead]
    simp
  | cons y xs ih =>
    obtain ⟨l, ls, hls⟩ := List.exists_cons_of_ne_nil (List.splitOnP_ne_nil p xs)
    rw [List.cons_append, List.splitOnP_cons_eq_if_modifyHead, ih]
    simp only [List.splitOnP_cons_eq_if_modifyHead, hls]
    by_cases hy : p y
    · by_cases hx : p x <;> simp [hx, hy]
    · cases ls with
      | nil => by_cases hx : p x <;> simp [hx, hy]
      | cons l' ls => by_cases hx : p x <;> simp [hx, hy]

/-- The pieces in front of the last cut. -/
def closed (xs : List α) : List (List α) := (xs.splitOnP p).dropLast

/-- The piece behind the last cut. -/
def opened (xs : List α) : List α := (xs.splitOnP p).getLast (List.splitOnP_ne_nil p xs)

theorem splitOnP_eq (xs : List α) : xs.splitOnP p = closed p xs ++ [opened p xs] :=
  (List.dropLast_append_getLast _).symm

@[simp] theorem closed_nil : closed p [] = [] := rfl

@[simp] theorem opened_nil : opened p [] = [] := rfl

variable {p} {xs : List α} {x : α}

theorem closed_cut (h : p x = true) : closed p (xs ++ [x]) = closed p xs ++ [opened p xs] := by
  have hcut := splitOnP_concat p xs x
  rw [if_pos h] at hcut
  unfold closed
  rw [hcut, List.dropLast_concat]
  exact splitOnP_eq p xs

theorem opened_cut (h : p x = true) : opened p (xs ++ [x]) = [] := by
  have hcut := splitOnP_concat p xs x
  rw [if_pos h] at hcut
  unfold opened
  simp only [hcut, List.getLast_append_singleton]

theorem closed_more (h : p x = false) : closed p (xs ++ [x]) = closed p xs := by
  have hmore := splitOnP_concat p xs x
  rw [if_neg (ne_true_of_eq_false h)] at hmore
  unfold closed
  rw [hmore, List.dropLast_concat]

theorem opened_more (h : p x = false) : opened p (xs ++ [x]) = opened p xs ++ [x] := by
  have hmore := splitOnP_concat p xs x
  rw [if_neg (ne_true_of_eq_false h)] at hmore
  unfold opened
  simp only [hmore, List.getLast_append_singleton]

/-! ## Runs -/

/-- The pieces that are not empty: the runs of elements between the cuts. -/
def runs (p : α → Bool) (xs : List α) : List (List α) := (xs.splitOnP p).filter (!·.isEmpty)

/-- A cut in front of the first run is left out. -/
theorem runs_cut (ys : List α) (h : p x = true) : runs p (x :: ys) = runs p ys := by
  unfold runs
  rw [List.splitOnP_cons_eq_if_modifyHead, if_pos h]
  rfl

theorem runs_dropWhile (xs : List α) : runs p xs = runs p (xs.dropWhile p) := by
  induction xs with
  | nil => rfl
  | cons x xs ih =>
    by_cases h : p x = true
    · rw [List.dropWhile_cons_of_pos h, runs_cut xs h, ih]
    · rw [List.dropWhile_cons_of_neg h]

/-- A word in front of a cut is a run. -/
theorem runs_word {w : List α} (hw : ∀ c ∈ w, p c = false) (hne : w ≠ []) (h : p x = true)
    (ys : List α) : runs p (w ++ x :: ys) = w :: runs p ys := by
  unfold runs
  rw [List.splitOnP_append_cons_of_forall_mem hw x h ys]
  simp [hne]

/-- A list with no cut in it is one run. -/
theorem runs_whole {w : List α} (hw : ∀ c ∈ w, p c = false) (hne : w ≠ []) : runs p w = [w] := by
  unfold runs
  rw [List.splitOnP_eq_singleton hw]
  simp [hne]

/-- The first run goes up to the first cut. -/
theorem runs_cons (ys : List α) (h : p x = false) :
    runs p (x :: ys) =
      (x :: ys.takeWhile (!p ·)) :: runs p ((ys.dropWhile (!p ·)).drop 1) := by
  have hrun : ∀ c ∈ x :: ys.takeWhile (!p ·), p c = false := by
    intro c hc
    rcases List.mem_cons.mp hc with rfl | hc
    · exact h
    · simpa using List.mem_takeWhile_imp hc
  have hjoin : x :: ys = (x :: ys.takeWhile (!p ·)) ++ ys.dropWhile (!p ·) := by
    rw [List.cons_append, List.takeWhile_append_dropWhile]
  unfold runs
  rcases hrest : ys.dropWhile (!p ·) with _ | ⟨c, rest⟩
  · rw [hrest, List.append_nil] at hjoin
    rw [hjoin, List.splitOnP_eq_singleton hrun]
    simp
  · have hcut : p c = true := by
      have hne : ys.dropWhile (!p ·) ≠ [] := by simp [hrest]
      have hhead := List.head_dropWhile_not (!p ·) hne
      simpa [hrest] using hhead
    rw [hrest] at hjoin
    rw [hjoin, List.splitOnP_append_cons_of_forall_mem hrun c hcut rest]
    simp

end pieces
