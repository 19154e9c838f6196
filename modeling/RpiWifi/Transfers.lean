-- A device that is accessed one cell after the other. To move a list through
-- it is to access the cells in order; a move in pieces is the same move, and a
-- move that only writes is a sequence of stores.
import Mathlib

namespace transfers

universe u v w
variable {σ : Type u} {α : Type v} {β : Type w}

/-- The list is moved through the cells `addr 0`, `addr 1` and so on. Each access
takes a value to write and gives back the value that stands in the buffer after it. -/
def move (step : σ → α → β → σ × β) (s : σ) (addr : Nat → α) : List β → σ × List β
  | [] => (s, [])
  | b :: bs =>
    let r := step s (addr 0) b
    let q := move step r.1 (fun i => addr (i + 1)) bs
    (q.1, r.2 :: q.2)

/-- One move, and then another one that starts where the first ended. -/
def andThen (r : σ × List β) (next : σ → σ × List β) : σ × List β :=
  ((next r.1).1, r.2 ++ (next r.1).2)

variable {step step' : σ → α → β → σ × β}

theorem move_cons (s : σ) (addr : Nat → α) (b : β) (bs : List β) :
    move step s addr (b :: bs) =
      andThen ((step s (addr 0) b).1, [(step s (addr 0) b).2])
        fun t => move step t (fun i => addr (1 + i)) bs := by
  simp only [move, andThen, List.singleton_append, Nat.add_comm 1]

/-- A list in two pieces is moved piece by piece. -/
theorem move_append (s : σ) (addr : Nat → α) (xs ys : List β) :
    move step s addr (xs ++ ys) =
      andThen (move step s addr xs) fun t => move step t (fun i => addr (xs.length + i)) ys := by
  induction xs generalizing s addr with
  | nil => simp [move, andThen]
  | cons x xs ih =>
    simp only [List.cons_append, move, ih, andThen, List.length_cons]
    have haddr : (fun i => addr (xs.length + i + 1)) = fun i => addr (xs.length + 1 + i) := by
      funext i
      congr 1
      omega
    rw [haddr]

/-- Two devices move alike when their accesses agree in every state on the way. -/
theorem move_congr (Inv : σ → Prop) {s : σ} {f g : Nat → α} {bs : List β} (h0 : Inv s)
    (hstep : ∀ s b, ∀ i < bs.length, Inv s →
      step s (f i) b = step' s (g i) b ∧ Inv (step s (f i) b).1) :
    move step s f bs = move step' s g bs ∧ Inv (move step s f bs).1 := by
  induction bs generalizing s f g with
  | nil => exact ⟨rfl, h0⟩
  | cons b bs ih =>
    obtain ⟨heq, hinv⟩ := hstep s b 0 (by simp) h0
    obtain ⟨hrest, hend⟩ := ih (f := fun i => f (i + 1)) (g := fun i => g (i + 1)) hinv
      (fun s b i hi hs => hstep s b (i + 1) (by simpa using hi) hs)
    simp only [move]
    rw [hrest] at hend ⊢
    rw [heq] at hend ⊢
    exact ⟨rfl, hend⟩

/-! ## Stores -/

variable [DecidableEq α]

/-- The memory after the values are stored at `addr 0`, `addr 1` and so on. -/
def store (m : α → β) (addr : Nat → α) : List β → α → β
  | [] => m
  | b :: bs => store (Function.update m (addr 0) b) (fun i => addr (i + 1)) bs

theorem store_append (m : α → β) (addr : Nat → α) (xs ys : List β) :
    store m addr (xs ++ ys) = store (store m addr xs) (fun i => addr (xs.length + i)) ys := by
  induction xs generalizing m addr with
  | nil => simp [store]
  | cons x xs ih =>
    simp only [List.cons_append, store, ih, List.length_cons]
    have haddr : (fun i => addr (xs.length + i + 1)) = fun i => addr (xs.length + 1 + i) := by
      funext i
      congr 1
      omega
    rw [haddr]

theorem store_other (m : α → β) (addr : Nat → α) (bs : List β) {a : α}
    (ha : ∀ i < bs.length, addr i ≠ a) : store m addr bs a = m a := by
  induction bs generalizing m addr with
  | nil => rfl
  | cons b bs ih =>
    simp only [store]
    rw [ih _ _ fun i hi => ha (i + 1) (by simpa using hi)]
    exact Function.update_of_ne (ha 0 (by simp)).symm _ _

/-- Where the cells are different ones, each of them holds its value. -/
theorem store_at (m : α → β) (addr : Nat → α) (bs : List β)
    (hinj : ∀ i j, i < bs.length → j < bs.length → addr i = addr j → i = j) (i : Nat)
    (hi : i < bs.length) : store m addr bs (addr i) = bs[i] := by
  induction bs generalizing m addr i with
  | nil => cases hi
  | cons b bs ih =>
    simp only [store]
    cases i with
    | zero =>
      rw [store_other]
      · simp
      · intro j hj heq
        have := hinj (j + 1) 0 (by simpa using hj) (by simp) heq
        omega
    | succ i =>
      refine ih _ (fun i => addr (i + 1)) ?_ i (by simpa using hi)
      intro j k hj hk heq
      have := hinj (j + 1) (k + 1) (by simpa using hj) (by simpa using hk) heq
      omega

/-- What was stored is read back. -/
theorem store_read_back (m : α → β) (addr : Nat → α) (bs : List β)
    (hinj : ∀ i j, i < bs.length → j < bs.length → addr i = addr j → i = j) :
    (List.range bs.length).map (fun i => store m addr bs (addr i)) = bs := by
  apply List.ext_getElem
  · simp
  · intro i _ hi
    rw [List.getElem_map, List.getElem_range]
    exact store_at m addr bs hinj i hi

end transfers
