-- Allocators, as their callers see them: which blocks are allocated, and what a
-- call changes about that.
import Mathlib

namespace allocators

universe u v
variable {H : Type u} {α : Type v} {null : α}

/-- A heap with its two calls. A block that is handed out was not allocated before,
and nothing else changes. -/
structure Allocator (H : Type u) (α : Type v) (null : α) where
  allocated : H → Set α
  allocate : H → Nat → H × α
  deallocate : H → α → H
  fresh : ∀ h n, (allocate h n).2 ≠ null → (allocate h n).2 ∉ allocated h
  allocated_allocate : ∀ h n, (allocate h n).2 ≠ null →
    allocated (allocate h n).1 = insert (allocate h n).2 (allocated h)
  allocated_of_null : ∀ h n, (allocate h n).2 = null → allocated (allocate h n).1 = allocated h
  allocated_deallocate : ∀ h p, p ∈ allocated h → allocated (deallocate h p) = allocated h \ {p}

/-! ## Stocks -/

/-- The allocated blocks are those of `rest` and the nodes of `l`, each of them once. -/
structure Stock (A : Allocator H α null) (h : H) (rest : Set α) (l : List α) : Prop where
  allocated : A.allocated h = rest ∪ {p | p ∈ l}
  nodup : l.Nodup
  apart : ∀ p ∈ l, p ∉ rest

variable {A : Allocator H α null} {h : H} {rest : Set α} {l l' : List α} {p : α} {n : Nat}

theorem Stock.perm (hs : Stock A h rest l) (hp : l.Perm l') : Stock A h rest l' where
  allocated := by
    rw [hs.allocated]
    ext q
    simp [hp.mem_iff]
  nodup := hp.nodup_iff.mp hs.nodup
  apart := fun q hq => hs.apart q (hp.mem_iff.mpr hq)

theorem Stock.not_mem (hs : Stock A h rest l) (hp : p ∉ A.allocated h) : p ∉ rest ∧ p ∉ l := by
  rw [hs.allocated] at hp
  exact not_or.mp hp

/-- A new block becomes a node. -/
theorem Stock.add (hs : Stock A h rest l) (hn : (A.allocate h n).2 ≠ null) :
    Stock A (A.allocate h n).1 rest ((A.allocate h n).2 :: l) := by
  obtain ⟨hrest, hl⟩ := hs.not_mem (A.fresh h n hn)
  refine ⟨?_, List.nodup_cons.mpr ⟨hl, hs.nodup⟩, ?_⟩
  · rw [A.allocated_allocate h n hn, hs.allocated]
    ext q
    simp only [Set.mem_insert_iff, Set.mem_union, Set.mem_ofPred_eq, List.mem_cons]
    tauto
  · intro q hq
    rcases List.mem_cons.mp hq with rfl | hq
    · exact hrest
    · exact hs.apart q hq

/-- A new block goes to the rest. -/
theorem Stock.keep (hs : Stock A h rest l) (hn : (A.allocate h n).2 ≠ null) :
    Stock A (A.allocate h n).1 (insert (A.allocate h n).2 rest) l := by
  obtain ⟨-, hl⟩ := hs.not_mem (A.fresh h n hn)
  refine ⟨?_, hs.nodup, ?_⟩
  · rw [A.allocated_allocate h n hn, hs.allocated, Set.insert_union]
  · rintro q hq (rfl | hrest)
    · exact hl hq
    · exact hs.apart q hq hrest

theorem Stock.fail (hs : Stock A h rest l) (hn : (A.allocate h n).2 = null) :
    Stock A (A.allocate h n).1 rest l :=
  ⟨(A.allocated_of_null h n hn).trans hs.allocated, hs.nodup, hs.apart⟩

/-- A node is given back. -/
theorem Stock.free (hs : Stock A h rest (p :: l)) : Stock A (A.deallocate h p) rest l := by
  obtain ⟨hp, hl⟩ := List.nodup_cons.mp hs.nodup
  have hmem : p ∈ A.allocated h := by
    rw [hs.allocated]
    exact .inr List.mem_cons_self
  refine ⟨?_, hl, fun q hq => hs.apart q (List.mem_cons_of_mem _ hq)⟩
  rw [A.allocated_deallocate h p hmem, hs.allocated]
  ext q
  simp only [Set.mem_sdiff, Set.mem_union, Set.mem_ofPred_eq, List.mem_cons, Set.mem_singleton_iff]
  constructor
  · rintro ⟨hrest | rfl | hq, hne⟩
    · exact .inl hrest
    · exact absurd rfl hne
    · exact .inr hq
  · rintro (hrest | hq)
    · refine ⟨.inl hrest, ?_⟩
      rintro rfl
      exact hs.apart q List.mem_cons_self hrest
    · refine ⟨.inr (.inr hq), ?_⟩
      rintro rfl
      exact hp hq

/-! ## Heaps that run out -/

/-- A heap, and whether a call has returned null so far. -/
structure Tracked (H : Type u) where
  heap : H
  failed : Bool

/-- The same allocator, with a record of its failures. -/
def Allocator.tracked [DecidableEq α] (A : Allocator H α null) : Allocator (Tracked H) α null where
  allocated h := A.allocated h.heap
  allocate h n :=
    let r := A.allocate h.heap n
    (⟨r.1, h.failed || decide (r.2 = null)⟩, r.2)
  deallocate h p := ⟨A.deallocate h.heap p, h.failed⟩
  fresh h := A.fresh h.heap
  allocated_allocate h := A.allocated_allocate h.heap
  allocated_of_null h := A.allocated_of_null h.heap
  allocated_deallocate h := A.allocated_deallocate h.heap

variable [DecidableEq α] {t : Tracked H}

theorem tracked_allocate_failed :
    (A.tracked.allocate t n).1.failed = true ↔
      t.failed = true ∨ (A.tracked.allocate t n).2 = null := by
  simp [Allocator.tracked]

/-! ## Heaps of numbers -/

/-- The blocks that are allocated are numbers, and a new one is larger than they are. -/
def counting : Allocator (List Nat) Nat 0 where
  allocated h := {p | p ∈ h}
  allocate h _ := ((h.foldr max 0 + 1) :: h, h.foldr max 0 + 1)
  deallocate h p := h.filter (· ≠ p)
  fresh h _ _ := by
    have hle : ∀ p ∈ h, p ≤ h.foldr max 0 := by
      intro p hp
      exact List.le_max_of_le' 0 hp le_rfl
    intro hp
    have hlt := hle _ hp
    omega
  allocated_allocate h _ _ := by
    ext p
    simp
  allocated_of_null h _ hn := absurd hn (Nat.succ_ne_zero _)
  allocated_deallocate h p _ := by
    ext q
    simp

end allocators
