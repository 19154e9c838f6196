-- The law of the heap's region: every block that the allocator returns lies in
-- the memory that it was given. The limit is computed with a fixed reserve
-- taken off, and for a small heap at a low address the difference wraps.
import RpiWifi.KernelAlloc

namespace rpi_wifi.kernel_alloc

open runs memory

variable {base limit : Nat} {s t : Heap}

/-! ## The invariant -/

/-- A header, or the end of a list. -/
def Linked (blocks : List Nat) (m : Mem) (h size : Nat) : Prop :=
  h = 0 ∨ h ∈ blocks ∧ sizeAt m h = size

/-- The blocks of the heap stand between `base` and `s_pNextBlock`, apart from
each other, and a free list leads only to blocks of its size. -/
structure HeapOk (base limit : Nat) (s : Heap) : Prop where
  lo : base ≤ s.s_pNextBlock
  hi : s.s_pNextBlock ≤ limit
  word : s.s_pNextBlock < 2 ^ 32
  room : s.roomEnd ≤ limit
  roomAll : s.s_pBlockLimit ≤ limit
  roomWord : s.s_pBlockLimit < 2 ^ 32
  inside : ∀ h ∈ s.blocks, base ≤ h ∧ h + sizeofHeader + sizeAt s.mem h ≤ s.s_pNextBlock
  apart : ∀ h ∈ s.blocks, ∀ k ∈ s.blocks, k = h ∨ Apart h k
  linked : ∀ h ∈ s.blocks, Linked s.blocks s.mem (nextAt s.mem h) (sizeAt s.mem h)
  listed : ∀ i, Linked s.blocks s.mem (s.free_list i) (bucketSize i)

theorem Linked.lt (hs : HeapOk base limit s) {h size : Nat} (hl : Linked s.blocks s.mem h size) :
    h < 2 ^ 32 := by
  have hw := hs.word
  rcases hl with rfl | ⟨hm, -⟩
  · omega
  · have := hs.inside h hm
    unfold sizeofHeader at this
    omega

/-- A link stands as long as the sizes of the blocks do. -/
theorem linked_congr {blocks : List Nat} {m m' : Mem}
    (hsize : ∀ h ∈ blocks, sizeAt m' h = sizeAt m h) {h size : Nat}
    (hl : Linked blocks m h size) : Linked blocks m' h size := by
  rcases hl with h0 | ⟨hm, hz⟩
  · exact .inl h0
  · exact .inr ⟨hm, (hsize h hm).trans hz⟩

/-! ## Giving a block out -/

/-- The header of a block is given out or back: one `next` field changes. -/
theorem heapOk_setNext (hs : HeapOk base limit s) {h v : Nat} (hh : h ∈ s.blocks)
    (hv : Linked s.blocks s.mem v (sizeAt s.mem h)) {i : Fin 7} {w : Nat}
    (hw : Linked s.blocks s.mem w (bucketSize i)) :
    HeapOk base limit { s with
      mem := setNext s.mem h v
      free_list := Function.update s.free_list i w } := by
  have hsize : ∀ k ∈ s.blocks, sizeAt (setNext s.mem h v) k = sizeAt s.mem k :=
    fun k hk => sizeAt_setNext (hs.apart h hh k hk)
  refine ⟨hs.lo, hs.hi, hs.word, hs.room, hs.roomAll, hs.roomWord, ?_, hs.apart, ?_, ?_⟩
  · intro k hk
    dsimp only
    rw [hsize k hk]
    exact hs.inside k hk
  · intro k hk
    dsimp only
    rw [hsize k hk]
    apply linked_congr hsize
    rcases hs.apart h hh k hk with rfl | hap
    · rw [nextAt_setNext_self (hv.lt hs)]
      exact hv
    · rw [nextAt_setNext_apart hap]
      exact hs.linked k hk
  · intro j
    apply linked_congr hsize
    dsimp only
    by_cases hj : j = i
    · subst hj
      rw [Function.update_self]
      exact hw
    · rw [Function.update_of_ne hj]
      exact hs.listed j

/-! ## Carving a block -/

/-- The largest request whose block does not wrap to a shorter one. -/
def maxRequest : Nat := 2 ^ 32 - 16

theorem stride_spec {h size : Nat} (hh : h < 2 ^ 32) (hsize : size ≤ maxRequest)
    (hlt : h < (h + stride size) % 2 ^ 32) :
    (h + stride size) % 2 ^ 32 = h + stride size ∧ size + sizeofHeader ≤ stride size := by
  unfold maxRequest at hsize
  unfold stride sizeofHeader at *
  by_cases hw : size + 31 < 2 ^ 32
  · omega
  · -- The sum wraps to less than 16, and the stride is 0.
    omega

theorem linked_carve (hs : HeapOk base limit s) {size : Nat} {k z : Nat}
    (hl : Linked s.blocks s.mem k z) :
    Linked (s.blocks ++ [s.s_pNextBlock])
      (setNext (setHeader s.mem s.s_pNextBlock size) s.s_pNextBlock 0) k z := by
  rcases hl with h0 | ⟨hm, hz⟩
  · exact .inl h0
  · have hap : Apart s.s_pNextBlock k := by
      have := hs.inside k hm
      right
      omega
    refine .inr ⟨List.mem_append_left _ hm, ?_⟩
    rw [sizeAt_setNext (.inr hap), sizeAt_setHeader_apart hap]
    exact hz

theorem heapOk_carve (hs : HeapOk base limit s) {size : Nat} (hsize : size ≤ maxRequest)
    (hlt : s.s_pNextBlock < (s.s_pNextBlock + stride size) % 2 ^ 32)
    (hroom : (s.s_pNextBlock + stride size) % 2 ^ 32 ≤ s.roomEnd) :
    HeapOk base limit { s with
      s_pNextBlock := (s.s_pNextBlock + stride size) % 2 ^ 32
      mem := setNext (setHeader s.mem s.s_pNextBlock size) s.s_pNextBlock 0
      blocks := s.blocks ++ [s.s_pNextBlock] } := by
  obtain ⟨hn, hstride⟩ := stride_spec hs.word hsize hlt
  have hlo := hs.lo
  have hroom' := hs.room
  have hnew : sizeAt (setNext (setHeader s.mem s.s_pNextBlock size) s.s_pNextBlock 0)
      s.s_pNextBlock = size := by
    rw [sizeAt_setNext (.inl rfl), sizeAt_setHeader_self (by unfold maxRequest at hsize; omega)]
  have hold : ∀ k ∈ s.blocks, Apart s.s_pNextBlock k := by
    intro k hk
    have := hs.inside k hk
    right
    omega
  have hsizes : ∀ k ∈ s.blocks,
      sizeAt (setNext (setHeader s.mem s.s_pNextBlock size) s.s_pNextBlock 0) k =
        sizeAt s.mem k := by
    intro k hk
    rw [sizeAt_setNext (.inr (hold k hk)), sizeAt_setHeader_apart (hold k hk)]
  refine ⟨by dsimp only; omega, by dsimp only; omega, Nat.mod_lt _ (by decide), hroom', hs.roomAll,
    hs.roomWord, ?_, ?_, ?_, ?_⟩
  · intro k hk
    dsimp only at hk ⊢
    rcases List.mem_append.mp hk with hk | hk
    · have := hs.inside k hk
      rw [hsizes k hk]
      omega
    · cases List.mem_singleton.mp hk
      rw [hnew]
      omega
  · intro k hk l hl
    dsimp only at hk hl
    rcases List.mem_append.mp hk with hk | hk <;> rcases List.mem_append.mp hl with hl | hl
    · exact hs.apart k hk l hl
    · cases List.mem_singleton.mp hl
      exact .inr (hold k hk).symm
    · cases List.mem_singleton.mp hk
      exact .inr (hold l hl)
    · cases List.mem_singleton.mp hk
      exact .inl (List.mem_singleton.mp hl)
  · intro k hk
    dsimp only at hk ⊢
    rcases List.mem_append.mp hk with hk | hk
    · rw [hsizes k hk, nextAt_setNext_apart (hold k hk), nextAt_setHeader_apart (hold k hk)]
      exact linked_carve hs (hs.linked k hk)
    · cases List.mem_singleton.mp hk
      rw [nextAt_setNext_self (by decide)]
      exact .inl rfl
  · intro i
    exact linked_carve hs (hs.listed i)

/-! ## The calls -/

/-- The pointer is null, or it points behind the header of a block with room for
the request. -/
def Returned (t : Heap) (p size : Nat) : Prop :=
  p = 0 ∨ ∃ h ∈ t.blocks, p = h + sizeofHeader ∧ size ≤ sizeAt t.mem h

theorem carve_spec (hs : HeapOk base limit s) {size : Nat} (hsize : size ≤ maxRequest) :
    HeapOk base limit (s.carve size).1 ∧ Returned (s.carve size).1 (s.carve size).2 size := by
  rcases carve_cases s size with hno | ⟨hlt, hroom, hcarve⟩
  · rw [hno]
    refine ⟨⟨hs.lo, hs.hi, hs.word, ?_, hs.roomAll, hs.roomWord, hs.inside, hs.apart, hs.linked,
      hs.listed⟩, .inl rfl⟩
    have := hs.roomAll
    have := hs.roomWord
    unfold Heap.roomEnd
    dsimp only
    omega
  · rw [hcarve]
    obtain ⟨hn, hstride⟩ := stride_spec hs.word hsize hlt
    have hok := heapOk_carve hs hsize hlt hroom
    refine ⟨hok, .inr ⟨s.s_pNextBlock, by simp [Heap.give], ?_, ?_⟩⟩
    · have := hok.word
      dsimp only at this
      unfold Heap.give
      dsimp only
      apply Nat.mod_eq_of_lt
      omega
    · unfold Heap.give
      dsimp only
      rw [sizeAt_setNext (.inl rfl), sizeAt_setHeader_self (by unfold maxRequest at hsize; omega)]

theorem kernel_allocate_spec (hs : HeapOk base limit s) {size : BitVec 32}
    (hsize : size.toNat ≤ maxRequest) :
    HeapOk base limit (kernel_allocate s size).1 ∧
      Returned (kernel_allocate s size).1 (kernel_allocate s size).2 size.toNat := by
  rcases kernel_allocate_cases s size with ⟨i, hle, hne, hgive⟩ | ⟨z, hle, hz, hcarve⟩
  · rw [hgive]
    obtain ⟨hmem, hz⟩ := (hs.listed i).resolve_left hne
    have hnext : Linked s.blocks s.mem (nextAt s.mem (s.free_list i)) (bucketSize i) :=
      hz ▸ hs.linked _ hmem
    have hin := hs.inside _ hmem
    have hword := hs.word
    refine ⟨heapOk_setNext hs hmem (.inl rfl) hnext, .inr ⟨s.free_list i, hmem, ?_, ?_⟩⟩
    · apply Nat.mod_eq_of_lt
      omega
    · unfold Heap.give
      dsimp only
      rw [sizeAt_setNext (.inl rfl), hz]
      exact hle
  · have hmax : z ≤ maxRequest := by
      rcases hz with rfl | ⟨i, rfl⟩
      · exact hsize
      · have hb := bucketSize_le i
        unfold maxRequest
        omega
    rw [hcarve]
    obtain ⟨hok, hret⟩ := carve_spec hs hmax
    refine ⟨hok, ?_⟩
    rcases hret with h0 | ⟨h, hm, hp, hz⟩
    · exact .inl h0
    · exact .inr ⟨h, hm, hp, hle.trans hz⟩

theorem kernel_deallocate_spec (hs : HeapOk base limit s) {p : Nat}
    (hp : p = 0 ∨ ∃ h ∈ s.blocks, p = h + sizeofHeader) :
    HeapOk base limit (kernel_deallocate s p) := by
  rcases hp with rfl | ⟨h, hm, rfl⟩
  · exact hs
  · have hin := hs.inside h hm
    have hword := hs.word
    rcases kernel_deallocate_cases (s := s) (h := h) (by omega) with hno | ⟨i, hz, heq⟩
    · rw [hno]
      exact hs
    · rw [heq]
      exact heapOk_setNext hs hm (hz ▸ hs.listed i) (.inr ⟨hm, hz⟩)

/-- A stored byte outside the headers changes no field of them. -/
theorem heapOk_store (hs : HeapOk base limit s) {a : Nat} {v : BitVec 8}
    (ha : ∀ h ∈ s.blocks, a < h ∨ h + sizeofHeader ≤ a) :
    HeapOk base limit { s with mem := Function.update s.mem a v } := by
  have hsize : ∀ h ∈ s.blocks, sizeAt (Function.update s.mem a v) h = sizeAt s.mem h := by
    intro h hm
    have := ha h hm
    unfold sizeofHeader at this
    exact read32_update (by omega)
  have hnext : ∀ h ∈ s.blocks, nextAt (Function.update s.mem a v) h = nextAt s.mem h := by
    intro h hm
    have := ha h hm
    unfold sizeofHeader at this
    exact read32_update (by omega)
  refine ⟨hs.lo, hs.hi, hs.word, hs.room, hs.roomAll, hs.roomWord, ?_, hs.apart, ?_, ?_⟩
  · intro h hm
    dsimp only
    rw [hsize h hm]
    exact hs.inside h hm
  · intro h hm
    dsimp only
    rw [hsize h hm, hnext h hm]
    exact linked_congr hsize (hs.linked h hm)
  · intro i
    exact linked_congr hsize (hs.listed i)

/-! ## The law of the region -/

/-- The call asks for no more than a block can hold. -/
def RequestFits (_ : Heap) : Op → Prop
  | .allocate size => size.toNat ≤ maxRequest
  | _ => True

instance (s : Heap) (a : Op) : Decidable (RequestFits s a) :=
  match a with
  | .allocate size => inferInstanceAs (Decidable (size.toNat ≤ maxRequest))
  | .deallocate _ => isTrue trivial
  | .store _ _ => isTrue trivial

theorem heapOk_step {a : Op} (hs : HeapOk base limit s) (ha : RequestFits s a)
    (h : step s a = some t) : HeapOk base limit t := by
  cases a with
  | allocate size =>
    cases h
    exact (kernel_allocate_spec hs ha).1
  | deallocate p =>
    simp only [step] at h
    split at h <;> cases h
    exact kernel_deallocate_spec hs ‹_›
  | store b v =>
    simp only [step] at h
    split at h <;> cases h
    exact heapOk_store hs ‹_›

/-- The block behind the pointer lies in the region, its header included. -/
def Inside (base limit : Nat) (t : Heap) (p : Nat) : Prop :=
  base + sizeofHeader ≤ p ∧ p + sizeAt t.mem (p - sizeofHeader) ≤ limit

theorem inside_of_returned {p size : Nat} (ht : HeapOk base limit t) (hr : Returned t p size)
    (hp : p ≠ 0) : Inside base limit t p := by
  obtain ⟨h, hm, rfl, -⟩ := hr.resolve_left hp
  have hin := ht.inside h hm
  have hhi := ht.hi
  unfold Inside
  rw [Nat.add_sub_cancel]
  omega

theorem init_eq {mem : Mem} {ulBase ulSize : BitVec 32}
    (h : kernel_alloc_init mem ulBase ulSize = some s) :
    ulBase ≠ 0 ∧ s =
      { mem
        s_pNextBlock := ulBase.toNat
        s_pBlockLimit := (ulBase.toNat + ulSize.toNat + (2 ^ 32 - PAGE_RESERVE)) % 2 ^ 32
        s_nBlockReserve := 0x40000
        free_list := fun _ => 0
        blocks := [] } := by
  unfold kernel_alloc_init at h
  split at h
  · cases h
  · rename_i h0
    refine ⟨h0, ?_⟩
    rw [← Option.some.inj h]
    have hb := ulBase.isLt
    have hu := ulSize.isLt
    have hlimit : (ulBase + (ulBase + ulSize - ulBase - BitVec.ofNat 32 PAGE_RESERVE)).toNat =
        (ulBase.toNat + ulSize.toNat + (2 ^ 32 - PAGE_RESERVE)) % 2 ^ 32 := by
      simp only [BitVec.toNat_add, BitVec.toNat_sub, BitVec.toNat_ofNat, PAGE_RESERVE]
      omega
    simp only [hlimit]

theorem heapOk_init {mem : Mem} {ulBase ulSize : BitVec 32}
    (h : kernel_alloc_init mem ulBase ulSize = some s)
    (hroom : 0x440000 ≤ ulBase.toNat + ulSize.toNat) :
    HeapOk ulBase.toNat (ulBase.toNat + ulSize.toNat) s := by
  obtain ⟨-, rfl⟩ := init_eq h
  have hb := ulBase.isLt
  have hu := ulSize.isLt
  refine ⟨le_refl _, Nat.le_add_right _ _, hb, ?_, ?_, Nat.mod_lt _ (by decide), ?_, ?_, ?_, ?_⟩
  · simp only [Heap.roomEnd, PAGE_RESERVE]
    omega
  · simp only [PAGE_RESERVE]
    omega
  · intro k hk
    cases hk
  · intro k hk
    cases hk
  · intro k hk
    cases hk
  · intro i
    exact .inl rfl

/-- The first block of a heap whose limit has wrapped is as long as it is asked
for, whatever the heap holds. -/
theorem first_block_of_wrapped {mem : Mem} {ulBase ulSize : BitVec 32}
    (h : kernel_alloc_init mem ulBase ulSize = some s)
    (hwrap : ulBase.toNat + ulSize.toNat < 0x440000) {z : Nat} (hz : z ≤ 0x440000) :
    (s.carve z).2 = ulBase.toNat + sizeofHeader ∧ sizeAt (s.carve z).1.mem ulBase.toNat = z := by
  obtain ⟨-, rfl⟩ := init_eq h
  have hroom : ((ulBase.toNat + ulSize.toNat + (2 ^ 32 - PAGE_RESERVE)) % 2 ^ 32 + 2 ^ 32 -
      0x40000) % 2 ^ 32 = ulBase.toNat + ulSize.toNat + (2 ^ 32 - 0x440000) := by
    unfold PAGE_RESERVE
    omega
  have hstride : stride z = (z + 31) / 16 * 16 := by
    unfold stride sizeofHeader
    omega
  unfold Heap.carve Heap.roomEnd
  dsimp only
  rw [if_neg]
  · constructor
    · simp only [Heap.give, sizeofHeader]
      omega
    · simp only [Heap.give]
      rw [sizeAt_setNext (.inl rfl), sizeAt_setHeader_self (by omega)]
  · rw [hroom, hstride]
    omega

/-- A request past the largest one wraps: its block is a header with no room behind. -/
theorem block_of_too_large {size : BitVec 32} (hsize : maxRequest < size.toNat)
    (hp : (kernel_allocate s size).2 ≠ 0) :
    (kernel_allocate s size).2 = s.s_pNextBlock + sizeofHeader ∧
      sizeAt (kernel_allocate s size).1.mem s.s_pNextBlock = size.toNat := by
  have hlt := size.isLt
  have hnone : bucketFor size.toNat = none := by
    apply List.find?_eq_none.mpr
    intro i _
    have := bucketSize_le i
    unfold maxRequest at hsize
    simp only [decide_eq_true_eq]
    omega
  have hcarve : kernel_allocate s size = s.carve size.toNat := by
    unfold kernel_allocate
    rw [hnone]
  rw [hcarve] at hp ⊢
  have hstride : stride size.toNat = 16 := by
    unfold stride sizeofHeader
    unfold maxRequest at hsize
    omega
  unfold Heap.carve at hp ⊢
  dsimp only at hp ⊢
  split at hp
  · exact absurd rfl hp
  · rename_i hc
    rw [if_neg hc]
    rw [hstride] at hc
    constructor
    · simp only [Heap.give, sizeofHeader]
      omega
    · simp only [Heap.give]
      rw [sizeAt_setNext (.inl rfl), sizeAt_setHeader_self hlt]

/-- Where the limit wraps, one block of the size of the region, with its header,
is given out and is longer than the region. -/
theorem a_wrapped_region_is_left {ulBase ulSize : BitVec 32} (h0 : ulBase ≠ 0)
    (hwrap : ulBase.toNat + ulSize.toNat < 0x440000) :
    ∃ s, kernel_alloc_init (fun _ => 0) ulBase ulSize = some s ∧
      (kernel_allocate s ulSize).2 ≠ 0 ∧
      ¬ Inside ulBase.toNat (ulBase.toNat + ulSize.toNat) (kernel_allocate s ulSize).1
        (kernel_allocate s ulSize).2 := by
  obtain ⟨s, hs⟩ : ∃ s, kernel_alloc_init (fun _ => 0) ulBase ulSize = some s := by
    unfold kernel_alloc_init
    rw [if_neg h0]
    exact ⟨_, rfl⟩
  obtain ⟨z, hz, hle, hcarve⟩ : ∃ z, ulSize.toNat ≤ z ∧ z ≤ 0x440000 ∧
      kernel_allocate s ulSize = s.carve z := by
    unfold kernel_allocate
    rcases hb : bucketFor ulSize.toNat with _ | i
    · exact ⟨ulSize.toNat, le_refl _, by omega, rfl⟩
    · refine ⟨bucketSize i, bucketFor_some hb, by have := bucketSize_le i; omega, ?_⟩
      obtain ⟨-, rfl⟩ := init_eq hs
      simp
  obtain ⟨hp, hsz⟩ := first_block_of_wrapped hs hwrap hle
  refine ⟨s, hs, ?_, ?_⟩
  · rw [hcarve, hp]
    unfold sizeofHeader
    omega
  · intro hin
    rw [hcarve, hp] at hin
    unfold Inside at hin
    rw [Nat.add_sub_cancel, hsz] at hin
    unfold sizeofHeader at hin
    omega

/-- A block for a request that wraps in the stride has no room in any region. -/
theorem too_large_is_outside {s : Heap} {size : BitVec 32} (hsize : maxRequest < size.toNat)
    (hp : (kernel_allocate s size).2 ≠ 0) (ulBase ulSize : BitVec 32) :
    ¬ Inside ulBase.toNat (ulBase.toNat + ulSize.toNat) (kernel_allocate s size).1
      (kernel_allocate s size).2 := by
  intro hin
  obtain ⟨hp', hz⟩ := block_of_too_large hsize hp
  have hu := ulSize.isLt
  unfold Inside at hin
  rw [hp', Nat.add_sub_cancel, hz] at hin
  unfold maxRequest at hsize
  unfold sizeofHeader at hin
  omega

/-- Every block that is returned lies in the region, in every run whose requests
fit, exactly when the region ends at 0x440000 or above. A request that does not
fit is never answered with a block in the region. -/
theorem the_heap_is_contained_iff (ulBase ulSize : BitVec 32) :
    ((∀ mem s₀ ops s, kernel_alloc_init mem ulBase ulSize = some s₀ →
        Allowed step RequestFits s₀ ops → exec step s₀ ops = some s →
        ∀ size : BitVec 32, size.toNat ≤ maxRequest → (kernel_allocate s size).2 ≠ 0 →
          Inside ulBase.toNat (ulBase.toNat + ulSize.toNat) (kernel_allocate s size).1
            (kernel_allocate s size).2) ↔
      ulBase = 0 ∨ 0x440000 ≤ ulBase.toNat + ulSize.toNat) ∧
    ∀ s size, maxRequest < BitVec.toNat size → (kernel_allocate s size).2 ≠ 0 →
      ¬ Inside ulBase.toNat (ulBase.toNat + ulSize.toNat) (kernel_allocate s size).1
        (kernel_allocate s size).2 := by
  refine ⟨⟨?_, ?_⟩, ?_⟩
  · intro hall
    by_contra hc
    obtain ⟨h0, hwrap⟩ := not_or.mp hc
    rw [Nat.not_le] at hwrap
    obtain ⟨s, hs, hp, hout⟩ := a_wrapped_region_is_left h0 hwrap
    have hsize : ulSize.toNat ≤ maxRequest := by
      unfold maxRequest
      omega
    exact hout (hall _ s [] s hs trivial rfl ulSize hsize hp)
  · rintro h mem s₀ ops s hinit hok hexec size hsize hp
    have hroom : 0x440000 ≤ ulBase.toNat + ulSize.toNat := h.resolve_left (init_eq hinit).1
    have hheap := exec_inv (HeapOk ulBase.toNat (ulBase.toNat + ulSize.toNat))
      (fun _ _ _ hi ha hs => heapOk_step hi ha hs) (heapOk_init hinit hroom) hok hexec
    obtain ⟨ht, hr⟩ := kernel_allocate_spec hheap hsize
    exact inside_of_returned ht hr hp
  · intro s size hsize hp
    exact too_large_is_outside hsize hp ulBase ulSize

/-- `kernel_main` asks for 200 frames. From the address 0x120000 on, two blocks of
0x80000 bytes are given out, and the second one ends past the region. -/
theorem kernel_main_heap_is_not_contained :
    ∃ s₀ s, kernel_alloc_init (fun _ => 0) 0x120000 (4096 * 200) = some s₀ ∧
      exec step s₀ [.allocate 0x80000] = some s ∧
      (kernel_allocate s 0x80000).2 = 0x1A0020 ∧
      ¬ Inside 0x120000 (0x120000 + 4096 * 200) (kernel_allocate s 0x80000).1 0x1A0020 := by
  refine ⟨_, _, rfl, rfl, by decide +kernel, ?_⟩
  unfold Inside
  decide +kernel

end rpi_wifi.kernel_alloc
