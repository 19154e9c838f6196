-- The numbers below `n` in the cyclic order behind a number `c`, and a search
-- that goes through them. Searches that start behind the number found last
-- come to every number that fits within `n` searches.
import Mathlib

namespace cyclic

/-! ## The order -/

/-- The number behind `c`, in the circle of `n`. -/
def next (n c : Nat) : Nat := if n ≤ c + 1 then 0 else c + 1

/-- The `m` numbers behind `c`, one after the other. -/
def visits (n : Nat) : Nat → Nat → List Nat
  | 0, _ => []
  | m + 1, c => next n c :: visits n m (next n c)

/-- The numbers below `n`, from the one behind `c` on and round to `c`. -/
def order (n c : Nat) : List Nat := (List.range n).drop (c + 1) ++ (List.range n).take (c + 1)

/-- How many numbers stand between `c` and `k`. -/
def between (n c k : Nat) : Nat :=
  if c < k then k - c - 1 else if c < n then n - c - 1 + k else k

variable {n m c k j : Nat}

theorem next_lt (hn : 0 < n) : next n c < n := by
  unfold next
  split <;> omega

theorem visits_append (n m m' c : Nat) :
    visits n (m + m') c = visits n m c ++ visits n m' ((next n)^[m] c) := by
  induction m generalizing c with
  | zero => simp [visits]
  | succ m ih =>
    rw [Nat.succ_add]
    simp [visits, ih]

/-- As long as the circle does not close, the visits count up. -/
theorem visits_up (h : c + m < n) : visits n m c = List.range' (c + 1) m := by
  induction m generalizing c with
  | zero => rfl
  | succ m ih =>
    have hnext : next n c = c + 1 := if_neg (by omega)
    rw [visits, hnext, ih (by omega), List.range'_succ]

theorem iterate_up (h : c + m < n) : (next n)^[m] c = c + m := by
  induction m generalizing c with
  | zero => rfl
  | succ m ih =>
    have hnext : next n c = c + 1 := if_neg (by omega)
    rw [Function.iterate_succ_apply, hnext, ih (by omega)]
    omega

/-- Behind the last number come the ones from 0 on. -/
theorem visits_wrap (hc : n ≤ c + 1) (hm : m ≤ n) : visits n m c = List.range m := by
  cases m with
  | zero => rfl
  | succ m =>
    have hnext : next n c = 0 := if_pos hc
    rw [visits, hnext, visits_up (by omega), List.range_eq_range', List.range'_succ]

/-- One round goes through the cyclic order. -/
theorem visits_eq (n c : Nat) : visits n n c = order n c := by
  unfold order
  rw [List.take_range, List.range_eq_range', List.drop_range']
  rcases le_or_gt n (c + 1) with hc | hc
  · have h0 : n - (c + 1) = 0 := by omega
    rw [visits_wrap hc le_rfl, h0, Nat.min_eq_right hc]
    rfl
  · have hsplit : n = (n - (c + 1)) + (c + 1) := by omega
    have hlast : (next n)^[n - (c + 1)] c = n - 1 := by
      rw [iterate_up (by omega)]
      omega
    have hround : visits n ((n - (c + 1)) + (c + 1)) c =
        List.range' (c + 1) (n - (c + 1)) ++ List.range (c + 1) := by
      rw [visits_append, hlast, visits_up (by omega), visits_wrap (by omega) hc.le]
    rw [← hsplit] at hround
    rw [hround, Nat.min_eq_left hc.le]
    simp

theorem mem_order : k ∈ order n c ↔ k < n := by
  unfold order
  rw [List.mem_append, or_comm, ← List.mem_append, List.take_append_drop, List.mem_range]

/-- The order is the one of the distances. -/
theorem order_sorted (n c : Nat) :
    (order n c).Pairwise fun j k => between n c j < between n c k := by
  unfold order
  rw [List.take_range, List.range_eq_range', List.drop_range', List.pairwise_append, Nat.mul_one,
    Nat.zero_add]
  refine ⟨?_, ?_, ?_⟩
  · have hup : (List.range' (c + 1) (n - (c + 1))).Pairwise (· < ·) := List.pairwise_lt_range'
    refine hup.imp_of_mem ?_
    intro j k hj hk hjk
    simp only [List.mem_range'_1] at hj hk
    unfold between
    split_ifs <;> omega
  · refine List.pairwise_lt_range.imp_of_mem ?_
    intro j k hj hk hjk
    simp only [List.mem_range] at hj hk
    unfold between
    split_ifs <;> omega
  · intro j hj k hk
    simp only [List.mem_range'_1, List.mem_range] at hj hk
    unfold between
    split_ifs <;> omega

/-! ## Searches -/

/-- The number that a search finds stands in front of every other one that fits. -/
theorem found_first {fits : Nat → Bool} (hj : (order n c).find? fits = some j) (hk : k < n)
    (hfits : fits k = true) : j = k ∨ between n c j < between n c k := by
  obtain ⟨-, before, behind, hsplit, hnone⟩ := List.find?_eq_some_iff_append.mp hj
  have hsorted := order_sorted n c
  have hmem : k ∈ order n c := mem_order.mpr hk
  rw [hsplit] at hsorted hmem
  rcases List.mem_append.mp hmem with hin | hin
  · have hno := hnone k hin
    rw [hfits] at hno
    cases hno
  · rcases List.mem_cons.mp hin with rfl | hin
    · exact .inl rfl
    · have hright := (List.pairwise_append.mp hsorted).2.1
      exact .inr (List.rel_of_pairwise_cons hright hin)

/-- A number that fits is found, or it is nearer to the search that comes next. -/
theorem found_or_nearer {fits : Nat → Bool} (hj : (order n c).find? fits = some j) (hk : k < n)
    (hfits : fits k = true) : j = k ∨ between n j k < between n c k := by
  have hjn : j < n := mem_order.mp (List.mem_of_find?_eq_some hj)
  rcases found_first hj hk hfits with h | h
  · exact .inl h
  · right
    unfold between at h ⊢
    split_ifs at h ⊢ <;> omega

theorem between_lt (hk : k < n) : between n c k < n := by
  unfold between
  split_ifs <;> omega

end cyclic
