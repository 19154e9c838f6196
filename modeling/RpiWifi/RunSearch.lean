-- The search for the first run of `n` free items in a list, in one pass that
-- keeps the start of the run it is in and its length. It finds what the plain
-- search finds that looks at every item anew.
import Mathlib

namespace run_search

universe u
variable {α : Type u} (free ok : α → Bool)

/-- A run of `n` free items starts at `x`, and `x` may start one. -/
def StartsRun (n : Nat) (L : List α) (x : α) : Prop :=
  ∃ pre suf, L = pre ++ x :: suf ∧ ok x = true ∧ n ≤ ((x :: suf).takeWhile free).length

/-- The plain search: the first item from which on there is a run. -/
def first (n : Nat) : List α → Option α
  | [] => none
  | x :: xs =>
    if ok x = true ∧ n ≤ ((x :: xs).takeWhile free).length then some x else first n xs

/-- The search in one pass. The start is `none` outside a run. -/
def scan (n : Nat) : List α → Option α → Nat → Option α
  | [], _, _ => none
  | x :: xs, start, count =>
    if free x then
      match start with
      | some y => if count + 1 = n then some y else scan n xs (some y) (count + 1)
      | none =>
        if ok x then if count + 1 = n then some x else scan n xs (some x) (count + 1)
        else scan n xs none count
    else scan n xs none 0

variable {free ok} {n : Nat}

/-- Inside a run of `count` items the pass ends well when the run goes on long
enough, and starts again behind the item that breaks it when not. -/
theorem scan_in_run (L : List α) (y : α) (count : Nat) (hn : count < n) :
    scan free ok n L (some y) count =
      if n ≤ count + (L.takeWhile free).length then some y
      else scan free ok n ((L.dropWhile free).drop 1) none 0 := by
  induction L generalizing count with
  | nil => simp [scan, hn]
  | cons x xs ih =>
    by_cases hx : free x = true
    · simp only [scan, hx, if_true, List.takeWhile_cons_of_pos, List.dropWhile_cons_of_pos,
        List.length_cons]
      by_cases hc : count + 1 = n
      · rw [if_pos hc, if_pos (by omega)]
      · rw [if_neg hc, ih (count + 1) (by omega)]
        simp only [Nat.add_comm, Nat.add_left_comm]
    · have hlt : ¬ n ≤ count := by omega
      simp [scan, hx, hlt]

/-- No run starts inside a stretch of free items that is too short. -/
theorem first_of_short (L : List α) (hn : (L.takeWhile free).length < n) :
    first free ok n L = first free ok n ((L.dropWhile free).drop 1) := by
  induction L with
  | nil => rfl
  | cons x xs ih =>
    have hnot : ¬ (ok x = true ∧ n ≤ ((x :: xs).takeWhile free).length) := by omega
    rw [first, if_neg hnot]
    by_cases hx : free x = true
    · rw [List.dropWhile_cons_of_pos hx]
      apply ih
      rw [List.takeWhile_cons_of_pos hx, List.length_cons] at hn
      omega
    · rw [List.dropWhile_cons_of_neg hx]
      rfl

/-- The pass and the plain search find the same run. -/
theorem scan_eq_first (hn : 0 < n) (L : List α) :
    scan free ok n L none 0 = first free ok n L := by
  -- The pass skips several items at once, so the induction is on the length.
  induction hlen : L.length using Nat.strong_induction_on generalizing L with
  | _ len ih =>
    rcases L with _ | ⟨x, xs⟩
    · rfl
    · have hxs : scan free ok n xs none 0 = first free ok n xs := by
        refine ih xs.length ?_ xs rfl
        rw [← hlen]
        simp
      rw [first]
      by_cases hx : free x = true
      · by_cases hok : ok x = true
        · simp only [scan, hx, hok, if_true, true_and, List.takeWhile_cons_of_pos,
            List.length_cons]
          by_cases h1 : 0 + 1 = n
          · rw [if_pos h1, if_pos (by omega)]
          · rw [if_neg h1, scan_in_run _ _ _ (by omega)]
            by_cases hrun : n ≤ (xs.takeWhile free).length + 1
            · rw [if_pos (by omega), if_pos hrun]
            · rw [if_neg (by omega), if_neg hrun, first_of_short xs (by omega)]
              refine ih _ ?_ _ rfl
              rw [← hlen, List.length_drop, List.length_cons]
              have := (List.dropWhile_sublist (p := free) (l := xs)).length_le
              omega
        · simp [scan, hx, hok, hxs]
      · rw [if_neg]
        · simpa [scan, hx] using hxs
        · rw [List.takeWhile_cons_of_neg hx]
          simp only [List.length_nil]
          omega

/-! ## What the plain search finds -/

theorem first_some {L : List α} {x : α} (h : first free ok n L = some x) :
    StartsRun free ok n L x := by
  induction L with
  | nil => cases h
  | cons y ys ih =>
    rw [first] at h
    split at h
    · cases h
      rename_i hrun
      exact ⟨[], ys, rfl, hrun.1, hrun.2⟩
    · obtain ⟨pre, suf, rfl, hx⟩ := ih h
      exact ⟨y :: pre, suf, rfl, hx⟩

/-- A run of one item that may start anywhere is the first free item. -/
theorem first_one (L : List α) : first free (fun _ => true) 1 L = L.find? free := by
  induction L with
  | nil => rfl
  | cons x xs ih =>
    by_cases hx : free x = true
    · simp [first, hx]
    · simp [first, hx, ih]

/-- In a list in order, what is found stands at or before every start of a run. -/
theorem first_le [LinearOrder α] {L : List α} (hL : L.Pairwise (· < ·)) {y : α}
    (hy : StartsRun free ok n L y) : ∃ x, first free ok n L = some x ∧ x ≤ y := by
  obtain ⟨pre, suf, hy, hok, hrun⟩ := hy
  induction pre generalizing L with
  | nil =>
    subst hy
    exact ⟨y, by rw [List.nil_append, first, if_pos ⟨hok, hrun⟩], le_refl _⟩
  | cons z pre ih =>
    subst hy
    rw [List.cons_append, first]
    split
    · refine ⟨z, rfl, ?_⟩
      exact (List.rel_of_pairwise_cons hL (by simp)).le
    · exact ih (List.Pairwise.of_cons hL) rfl

end run_search
