-- The law of the heap's sizes: what a request of 32 bits is answered with. The
-- blocks stand one behind the other by their strides, and a request near 2^32
-- wraps to a stride of one header.
import RpiWifi.HeapRegion

namespace rpi_wifi.kernel_alloc

open runs memory

variable {base : Nat} {s t : Heap}

/-! ## The zeroed blocks -/

/-- The bytes that `calloc` asks for. -/
def callocSize (nBlocks nSize : BitVec 32) : BitVec 32 :=
  let nSize := nSize * nBlocks
  if nSize = 0 then 1 else nSize

def calloc (s : Heap) (nBlocks nSize : BitVec 32) : Heap × Nat :=
  let nSize := callocSize nBlocks nSize
  let (s, pNewBlock) := kernel_allocate s nSize
  if pNewBlock ≠ 0 then ({ s with mem := memset s.mem pNewBlock 0 nSize.toNat }, pNewBlock)
  else (s, pNewBlock)

/-! ## The invariant -/

/-- Two blocks do not meet, from their headers to the end of their strides. -/
def Beside (m : Mem) (h k : Nat) : Prop :=
  h + stride (sizeAt m h) ≤ k ∨ k + stride (sizeAt m k) ≤ h

/-- The blocks stand between `base` and `s_pNextBlock` by their strides, whatever was asked
for. Each header has the magic word, and a free list leads only to blocks of its size. -/
structure BlocksOk (base : Nat) (s : Heap) : Prop where
  lo : base ≤ s.s_pNextBlock
  word : s.s_pNextBlock < 2 ^ 32
  inside : ∀ h ∈ s.blocks, base ≤ h ∧ sizeofHeader ≤ stride (sizeAt s.mem h) ∧
    h + stride (sizeAt s.mem h) ≤ s.s_pNextBlock
  beside : ∀ h ∈ s.blocks, ∀ k ∈ s.blocks, k = h ∨ Beside s.mem h k
  magic : ∀ h ∈ s.blocks, magicAt s.mem h = BLOCK_MAGIC
  linked : ∀ h ∈ s.blocks, Linked s.blocks s.mem (nextAt s.mem h) (sizeAt s.mem h)
  listed : ∀ i, Linked s.blocks s.mem (s.free_list i) (bucketSize i)

theorem BlocksOk.apart (hs : BlocksOk base s) {h k : Nat} (hh : h ∈ s.blocks)
    (hk : k ∈ s.blocks) : k = h ∨ Apart h k := by
  apply (hs.beside h hh k hk).imp_right
  intro hb
  obtain ⟨-, hh16, -⟩ := hs.inside h hh
  obtain ⟨-, hk16, -⟩ := hs.inside k hk
  unfold Beside at hb
  unfold Apart
  omega

theorem BlocksOk.lt (hs : BlocksOk base s) {h : Nat} (hh : h ∈ s.blocks) :
    h + sizeofHeader < 2 ^ 32 := by
  obtain ⟨-, h16, hend⟩ := hs.inside h hh
  have := hs.word
  omega

theorem BlocksOk.linked_lt (hs : BlocksOk base s) {h size : Nat}
    (hl : Linked s.blocks s.mem h size) : h < 2 ^ 32 := by
  rcases hl with rfl | ⟨hm, -⟩
  · decide
  · have := hs.lt hm
    omega

/-- What keeps the headers, but for the links, keeps the invariant. -/
theorem BlocksOk.rewritten (hs : BlocksOk base s) (hnext : t.s_pNextBlock = s.s_pNextBlock)
    (hblocks : t.blocks = s.blocks)
    (hsize : ∀ h ∈ s.blocks, sizeAt t.mem h = sizeAt s.mem h)
    (hmagic : ∀ h ∈ s.blocks, magicAt t.mem h = magicAt s.mem h)
    (hlinked : ∀ h ∈ s.blocks, Linked s.blocks s.mem (nextAt t.mem h) (sizeAt s.mem h))
    (hlisted : ∀ i, Linked s.blocks s.mem (t.free_list i) (bucketSize i)) : BlocksOk base t := by
  refine ⟨hnext ▸ hs.lo, hnext ▸ hs.word, ?_, ?_, ?_, ?_, ?_⟩
  · intro h hh
    rw [hblocks] at hh
    rw [hnext, hsize h hh]
    exact hs.inside h hh
  · intro h hh k hk
    rw [hblocks] at hh hk
    unfold Beside
    rw [hsize h hh, hsize k hk]
    exact hs.beside h hh k hk
  · intro h hh
    rw [hblocks] at hh
    rw [hmagic h hh]
    exact hs.magic h hh
  · intro h hh
    rw [hblocks] at hh ⊢
    rw [hsize h hh]
    exact linked_congr hsize (hlinked h hh)
  · intro i
    rw [hblocks]
    exact linked_congr hsize (hlisted i)

/-! ## The calls -/

/-- A new block does not wrap past the end of the addresses. -/
theorem next_eq {h z : Nat} (hh : h < 2 ^ 32) (hlt : h < (h + stride z) % 2 ^ 32) :
    (h + stride z) % 2 ^ 32 = h + stride z ∧ sizeofHeader ≤ stride z := by
  unfold stride sizeofHeader at *
  omega

/-- The header of a block is given out or back: one `next` field changes. -/
theorem blocksOk_setNext (hs : BlocksOk base s) {h v : Nat} (hh : h ∈ s.blocks)
    (hv : Linked s.blocks s.mem v (sizeAt s.mem h)) {i : Fin 7} {w : Nat}
    (hw : Linked s.blocks s.mem w (bucketSize i)) :
    BlocksOk base { s with
      mem := setNext s.mem h v
      free_list := Function.update s.free_list i w } := by
  refine hs.rewritten rfl rfl (fun k hk => sizeAt_setNext (hs.apart hh hk))
    (fun k hk => magicAt_setNext (hs.apart hh hk)) ?_ ?_
  · intro k hk
    dsimp only
    rcases hs.apart hh hk with rfl | hap
    · rw [nextAt_setNext_self (hs.linked_lt hv)]
      exact hv
    · rw [nextAt_setNext_apart hap]
      exact hs.linked k hk
  · intro j
    dsimp only
    by_cases hj : j = i
    · subst hj
      rw [Function.update_self]
      exact hw
    · rw [Function.update_of_ne hj]
      exact hs.listed j

/-- With a new header behind the last block, the headers that are there read as before. -/
theorem BlocksOk.header (hs : BlocksOk base s) {z : Nat} (hz : z < 2 ^ 32) :
    let m := setNext (setHeader s.mem s.s_pNextBlock z) s.s_pNextBlock 0
    (sizeAt m s.s_pNextBlock = z ∧ magicAt m s.s_pNextBlock = BLOCK_MAGIC ∧
        nextAt m s.s_pNextBlock = 0) ∧
      ∀ k ∈ s.blocks, sizeAt m k = sizeAt s.mem k ∧ magicAt m k = magicAt s.mem k ∧
        nextAt m k = nextAt s.mem k := by
  have hold : ∀ k ∈ s.blocks, Apart s.s_pNextBlock k := by
    intro k hk
    obtain ⟨-, h16, hend⟩ := hs.inside k hk
    right
    omega
  refine ⟨⟨?_, ?_, nextAt_setNext_self (by decide)⟩, ?_⟩
  · rw [sizeAt_setNext (.inl rfl), sizeAt_setHeader_self hz]
  · rw [magicAt_setNext (.inl rfl), magicAt_setHeader_self]
  · intro k hk
    refine ⟨?_, ?_, ?_⟩
    · rw [sizeAt_setNext (.inr (hold k hk)), sizeAt_setHeader_apart (hold k hk)]
    · rw [magicAt_setNext (.inr (hold k hk)), magicAt_setHeader_apart (hold k hk)]
    · rw [nextAt_setNext_apart (hold k hk), nextAt_setHeader_apart (hold k hk)]

/-- The heap behind a new block of the recorded size `z`. -/
def Heap.carved (s : Heap) (z : Nat) : Heap :=
  { s with
    s_pNextBlock := s.s_pNextBlock + stride z
    mem := setNext (setHeader s.mem s.s_pNextBlock z) s.s_pNextBlock 0
    blocks := s.blocks ++ [s.s_pNextBlock] }

theorem blocksOk_carved (hs : BlocksOk base s) {z : Nat} (hz : z < 2 ^ 32)
    (hlt : s.s_pNextBlock < (s.s_pNextBlock + stride z) % 2 ^ 32) :
    BlocksOk base (s.carved z) := by
  obtain ⟨hn, h16⟩ := next_eq hs.word hlt
  obtain ⟨⟨hsize, hmagic, hnext⟩, hold⟩ := hs.header hz
  have hlo := hs.lo
  have hword : s.s_pNextBlock + stride z < 2 ^ 32 := by
    rw [← hn]
    exact Nat.mod_lt _ (by decide)
  -- A link to an old block still leads there.
  have hlink : ∀ {h n}, Linked s.blocks s.mem h n →
      Linked (s.carved z).blocks (s.carved z).mem h n := by
    rintro h n (h0 | ⟨hm, hn⟩)
    · exact .inl h0
    · exact .inr ⟨List.mem_append_left _ hm, (hold h hm).1.trans hn⟩
  refine ⟨by dsimp only [Heap.carved]; omega, hword, ?_, ?_, ?_, ?_, fun i => hlink (hs.listed i)⟩
  · intro h hh
    rcases List.mem_append.mp hh with hh | hh
    · obtain ⟨h1, h2, h3⟩ := hs.inside h hh
      dsimp only [Heap.carved]
      rw [(hold h hh).1]
      exact ⟨h1, h2, by omega⟩
    · rw [List.mem_singleton.mp hh]
      dsimp only [Heap.carved]
      rw [hsize]
      exact ⟨hlo, h16, le_refl _⟩
  · have hnew : ∀ k ∈ s.blocks, Beside (s.carved z).mem k s.s_pNextBlock := by
      intro k hk
      left
      dsimp only [Heap.carved]
      rw [(hold k hk).1]
      exact (hs.inside k hk).2.2
    intro h hh k hk
    rcases List.mem_append.mp hh with hh | hh <;> rcases List.mem_append.mp hk with hk | hk
    · apply (hs.beside h hh k hk).imp_right
      intro hb
      unfold Beside at hb ⊢
      dsimp only [Heap.carved]
      rw [(hold h hh).1, (hold k hk).1]
      exact hb
    · rw [List.mem_singleton.mp hk]
      exact .inr (hnew h hh)
    · rw [List.mem_singleton.mp hh]
      exact .inr (Or.symm (hnew k hk))
    · rw [List.mem_singleton.mp hh, List.mem_singleton.mp hk]
      exact .inl rfl
  · intro h hh
    rcases List.mem_append.mp hh with hh | hh
    · exact (hold h hh).2.1.trans (hs.magic h hh)
    · rw [List.mem_singleton.mp hh]
      exact hmagic
  · intro h hh
    rcases List.mem_append.mp hh with hh | hh
    · have hl := hlink (hs.linked h hh)
      rw [← (hold h hh).2.2, ← (hold h hh).1] at hl
      exact hl
    · rw [List.mem_singleton.mp hh]
      exact .inl hnext

/-- There is no room for a new block of this size. -/
def Heap.full (s : Heap) (z : Nat) : Prop :=
  (s.s_pNextBlock + stride z) % 2 ^ 32 ≤ s.s_pNextBlock ∨
    s.roomEnd < (s.s_pNextBlock + stride z) % 2 ^ 32

instance (s : Heap) (z : Nat) : Decidable (s.full z) := inferInstanceAs (Decidable (_ ∨ _))

/-- There is no free block of the bucket, and no room for a new one. -/
def Heap.refuses (s : Heap) (size : BitVec 32) : Prop :=
  match bucketFor size.toNat with
  | none => s.full size.toNat
  | some i => s.free_list i = 0 ∧ s.full (bucketSize i)

instance (s : Heap) (size : BitVec 32) : Decidable (s.refuses size) := by
  unfold Heap.refuses
  split <;> infer_instance

/-- The size that is recorded in a new block for a request. -/
def recorded (size : Nat) : Nat := (bucketFor size).elim size bucketSize

theorem recorded_ge (size : Nat) : size ≤ recorded size := by
  unfold recorded
  rcases h : bucketFor size with _ | i
  · exact le_refl _
  · exact bucketFor_some h

theorem recorded_lt (size : BitVec 32) : recorded size.toNat < 2 ^ 32 := by
  unfold recorded
  rcases h : bucketFor size.toNat with _ | i
  · exact size.isLt
  · have := bucketSize_le i
    dsimp only [Option.elim]
    omega

theorem carve_eq (hs : BlocksOk base s) (z : Nat) :
    s.carve z = if s.full z then ({ s with s_nBlockReserve := 0 }, 0)
      else (s.carved z, s.s_pNextBlock + sizeofHeader) := by
  by_cases hf : s.full z
  · rw [if_pos hf]
    exact if_pos hf
  · obtain ⟨hn, h16⟩ := next_eq hs.word (Nat.lt_of_not_le (not_or.mp hf).1)
    have hword : s.s_pNextBlock + stride z < 2 ^ 32 := by
      rw [← hn]
      exact Nat.mod_lt _ (by decide)
    have hptr : (s.s_pNextBlock + sizeofHeader) % 2 ^ 32 = s.s_pNextBlock + sizeofHeader :=
      Nat.mod_eq_of_lt (by omega)
    rw [if_neg hf]
    apply (if_neg hf).trans
    simp only [Heap.give, Heap.carved, hn, hptr]

/-- A request is refused, takes the first free block of its bucket, or gets a new block. -/
theorem BlocksOk.allocate_cases (hs : BlocksOk base s) (size : BitVec 32) :
    (s.refuses size ∧ kernel_allocate s size = ({ s with s_nBlockReserve := 0 }, 0)) ∨
    (¬ s.refuses size ∧ ∃ i, bucketFor size.toNat = some i ∧ s.free_list i ∈ s.blocks ∧
      s.free_list i ≠ 0 ∧ sizeAt s.mem (s.free_list i) = bucketSize i ∧
      kernel_allocate s size = ({ s with
        mem := setNext s.mem (s.free_list i) 0
        free_list := Function.update s.free_list i (nextAt s.mem (s.free_list i)) },
        s.free_list i + sizeofHeader)) ∨
    (¬ s.refuses size ∧ ¬ s.full (recorded size.toNat) ∧
      (∀ i, bucketFor size.toNat = some i → s.free_list i = 0) ∧
      kernel_allocate s size =
        (s.carved (recorded size.toNat), s.s_pNextBlock + sizeofHeader)) := by
  unfold kernel_allocate Heap.refuses recorded
  rcases hb : bucketFor size.toNat with _ | i
  · dsimp only [Option.elim]
    rw [carve_eq hs]
    by_cases hf : s.full size.toNat
    · exact .inl ⟨hf, if_pos hf⟩
    · refine .inr (.inr ⟨hf, hf, ?_, if_neg hf⟩)
      intro i hi
      cases hi
  · dsimp only [Option.elim]
    by_cases h0 : s.free_list i = 0
    · rw [if_neg (fun hc => hc.1 h0), carve_eq hs]
      by_cases hf : s.full (bucketSize i)
      · exact .inl ⟨⟨h0, hf⟩, if_pos hf⟩
      · refine .inr (.inr ⟨fun hc => hf hc.2, hf, ?_, if_neg hf⟩)
        intro j hj
        cases hj
        exact h0
    · obtain ⟨hm, hz⟩ := (hs.listed i).resolve_left h0
      rw [if_pos ⟨h0, hs.magic _ hm⟩]
      refine .inr (.inl ⟨fun hc => h0 hc.1, i, rfl, hm, h0, hz, ?_⟩)
      unfold Heap.give
      rw [Nat.mod_eq_of_lt (hs.lt hm)]

/-- Null is the answer to the requests that are refused, and to no other. -/
theorem BlocksOk.null_iff (hs : BlocksOk base s) (size : BitVec 32) :
    (kernel_allocate s size).2 = 0 ↔ s.refuses size := by
  rcases hs.allocate_cases size with ⟨hr, heq⟩ | ⟨hr, i, -, -, -, -, heq⟩ | ⟨hr, -, -, heq⟩
  · rw [heq]
    exact iff_of_true rfl hr
  · rw [heq]
    exact iff_of_false (Nat.ne_of_gt (Nat.succ_pos _)) hr
  · rw [heq]
    exact iff_of_false (Nat.ne_of_gt (Nat.succ_pos _)) hr

/-- The pointer that is returned points behind the header of a block, with the size of
the request or of its bucket. -/
theorem BlocksOk.allocate (hs : BlocksOk base s) (size : BitVec 32) :
    BlocksOk base (kernel_allocate s size).1 ∧
      ((kernel_allocate s size).2 = 0 ∨ ∃ h ∈ (kernel_allocate s size).1.blocks,
        (kernel_allocate s size).2 = h + sizeofHeader ∧
          sizeAt (kernel_allocate s size).1.mem h = recorded size.toNat) := by
  rcases hs.allocate_cases size with ⟨-, heq⟩ | ⟨-, i, hi, hm, h0, hz, heq⟩ | ⟨-, hf, -, heq⟩
  · rw [heq]
    exact ⟨hs.rewritten rfl rfl (fun _ _ => rfl) (fun _ _ => rfl) hs.linked hs.listed, .inl rfl⟩
  · rw [heq]
    refine ⟨blocksOk_setNext hs hm (.inl rfl) (hz ▸ hs.linked _ hm), .inr ⟨_, hm, rfl, ?_⟩⟩
    have hrec : recorded size.toNat = bucketSize i := by simp [recorded, hi]
    rw [hrec, ← hz]
    exact sizeAt_setNext (.inl rfl)
  · rw [heq]
    have hlt := Nat.lt_of_not_le (not_or.mp hf).1
    refine ⟨blocksOk_carved hs (recorded_lt size) hlt,
      .inr ⟨s.s_pNextBlock, by simp [Heap.carved], rfl, ?_⟩⟩
    exact (hs.header (recorded_lt size)).1.1

theorem BlocksOk.deallocate (hs : BlocksOk base s) {p : Nat}
    (hp : p = 0 ∨ ∃ h ∈ s.blocks, p = h + sizeofHeader) :
    BlocksOk base (kernel_deallocate s p) := by
  rcases hp with rfl | ⟨h, hm, rfl⟩
  · exact hs
  · have hword := hs.lt hm
    rcases kernel_deallocate_cases (s := s) (h := h) (by omega) with hno | ⟨i, hz, heq⟩
    · rw [hno]
      exact hs
    · rw [heq]
      exact blocksOk_setNext hs hm (hz ▸ hs.listed i) (.inr ⟨hm, hz⟩)

/-- A stored byte outside the headers changes no field of them. -/
theorem BlocksOk.store (hs : BlocksOk base s) {a : Nat} {v : BitVec 8}
    (ha : ∀ h ∈ s.blocks, a < h ∨ h + sizeofHeader ≤ a) :
    BlocksOk base { s with mem := Function.update s.mem a v } := by
  have hfield : ∀ h ∈ s.blocks, ∀ d ≤ 12,
      read32 (Function.update s.mem a v) (h + d) = read32 s.mem (h + d) := by
    intro h hm d hd
    have := ha h hm
    unfold sizeofHeader at this
    exact read32_update (by omega)
  refine hs.rewritten rfl rfl (fun h hm => hfield h hm 4 (by decide))
    (fun h hm => hfield h hm 0 (by decide)) ?_ hs.listed
  intro h hm
  have hnext : nextAt (Function.update s.mem a v) h = nextAt s.mem h := hfield h hm 8 (by decide)
  dsimp only
  rw [hnext]
  exact hs.linked h hm

theorem blocksOk_step {a : Op} (hs : BlocksOk base s) (h : step s a = some t) :
    BlocksOk base t := by
  cases a with
  | allocate size =>
    cases h
    exact (hs.allocate size).1
  | deallocate p =>
    simp only [step] at h
    split at h <;> cases h
    exact hs.deallocate ‹_›
  | store b v =>
    simp only [step] at h
    split at h <;> cases h
    exact hs.store ‹_›

theorem blocksOk_init {mem : Mem} {ulBase ulSize : BitVec 32}
    (h : kernel_alloc_init mem ulBase ulSize = some s) : BlocksOk ulBase.toNat s := by
  obtain ⟨-, rfl⟩ := init_eq h
  refine ⟨le_refl _, ulBase.isLt, ?_, ?_, ?_, ?_, fun _ => .inl rfl⟩
  all_goals simp

/-! ## The room behind a pointer -/

/-- So many bytes follow the pointer, before the next header and before `s_pNextBlock`. -/
def Room (s : Heap) (p n : Nat) : Prop :=
  p + n ≤ s.s_pNextBlock ∧ ∀ h ∈ s.blocks, h < p ∨ p + n ≤ h

theorem room_of_block (hs : BlocksOk base s) {h n : Nat} (hm : h ∈ s.blocks)
    (hn : n ≤ sizeAt s.mem h) (hmax : sizeAt s.mem h ≤ maxRequest) :
    Room s (h + sizeofHeader) n := by
  have hstride : sizeofHeader + sizeAt s.mem h ≤ stride (sizeAt s.mem h) := by
    obtain ⟨-, h16, -⟩ := hs.inside h hm
    unfold maxRequest at hmax
    unfold stride sizeofHeader at *
    omega
  have hend := (hs.inside h hm).2.2
  refine ⟨by omega, ?_⟩
  intro k hk
  have hk16 := (hs.inside k hk).2.1
  unfold sizeofHeader at *
  rcases hs.beside h hm k hk with rfl | hb | hb
  · left
    omega
  · right
    omega
  · left
    omega

/-- A request that fits is answered with so much room. -/
theorem BlocksOk.room (hs : BlocksOk base s) {size : BitVec 32} (hsize : size.toNat ≤ maxRequest)
    (hp : (kernel_allocate s size).2 ≠ 0) :
    Room (kernel_allocate s size).1 (kernel_allocate s size).2 size.toNat := by
  obtain ⟨hok, hret⟩ := hs.allocate size
  obtain ⟨h, hm, hptr, hz⟩ := hret.resolve_left hp
  rw [hptr]
  apply room_of_block hok hm
  · rw [hz]
    exact recorded_ge _
  · rw [hz]
    unfold recorded
    rcases bucketFor size.toNat with _ | i
    · exact hsize
    · have := bucketSize_le i
      unfold maxRequest
      dsimp only [Option.elim]
      omega

/-- A request that wraps is answered with no room at all. -/
theorem BlocksOk.no_room (hs : BlocksOk base s) {size : BitVec 32}
    (hsize : maxRequest < size.toNat) (hp : (kernel_allocate s size).2 ≠ 0) {n : Nat}
    (hn : 0 < n) : ¬ Room (kernel_allocate s size).1 (kernel_allocate s size).2 n := by
  intro hroom
  have hend := hroom.1
  have hptr := (block_of_too_large hsize hp).1
  have hlt := size.isLt
  rcases hs.allocate_cases size with ⟨-, heq⟩ | ⟨-, i, hi, -⟩ | ⟨-, -, -, heq⟩
  · rw [heq] at hp
    exact hp rfl
  · have h1 := bucketFor_some hi
    have h2 := bucketSize_le i
    unfold maxRequest at hsize
    omega
  · have hrec : recorded size.toNat = size.toNat := by
      unfold recorded
      rcases hb : bucketFor size.toNat with _ | i
      · rfl
      · have h1 := bucketFor_some hb
        have h2 := bucketSize_le i
        unfold maxRequest at hsize
        omega
    have hstride : stride size.toNat = 16 := by
      unfold maxRequest at hsize
      unfold stride sizeofHeader
      omega
    rw [heq, hrec] at hend
    dsimp only [Heap.carved] at hend
    rw [hstride] at hend
    unfold sizeofHeader at hend
    omega

/-! ## The law of the sizes -/

/-- A pointer that `kernel_allocate` returns has the room that was asked for. -/
def AllocateRoom (s : Heap) (size : BitVec 32) : Prop :=
  let r := kernel_allocate s size
  r.2 ≠ 0 → Room r.1 r.2 size.toNat

/-- A pointer that `calloc` returns has the room of all its blocks, and it is zero. -/
def CallocRoom (s : Heap) (nBlocks nSize : BitVec 32) : Prop :=
  let r := calloc s nBlocks nSize
  let n := nBlocks.toNat * nSize.toNat
  r.2 ≠ 0 → Room r.1 r.2 n ∧ ∀ i < n, r.1.mem (r.2 + i) = 0

theorem BlocksOk.allocateRoom_iff (hs : BlocksOk base s) (size : BitVec 32) :
    AllocateRoom s size ↔ size.toNat ≤ maxRequest ∨ s.refuses size := by
  constructor
  · intro h
    by_contra hc
    obtain ⟨hsize, hr⟩ := not_or.mp hc
    have hp := mt (hs.null_iff size).mp hr
    exact hs.no_room (Nat.lt_of_not_le hsize) hp (by omega) (h hp)
  · rintro (hsize | hr) hp
    · exact hs.room hsize hp
    · exact absurd ((hs.null_iff size).mpr hr) hp

/-- Where the product has 32 bits, `calloc` asks for it, or for one byte. -/
theorem callocSize_eq {nBlocks nSize : BitVec 32} (h : nBlocks.toNat * nSize.toNat < 2 ^ 32) :
    (callocSize nBlocks nSize).toNat = max 1 (nBlocks.toNat * nSize.toNat) := by
  have hmul : (nSize * nBlocks).toNat = nBlocks.toNat * nSize.toNat := by
    rw [BitVec.toNat_mul, Nat.mul_comm, Nat.mod_eq_of_lt h]
  unfold callocSize
  dsimp only
  split
  · next h0 =>
    rw [h0] at hmul
    rw [← hmul]
    rfl
  · next h0 =>
    have hne : (nSize * nBlocks).toNat ≠ 0 := fun he => h0 (BitVec.eq_of_toNat_eq he)
    omega

theorem calloc_null_iff (hs : BlocksOk base s) (nBlocks nSize : BitVec 32) :
    (calloc s nBlocks nSize).2 = 0 ↔ s.refuses (callocSize nBlocks nSize) := by
  rw [← hs.null_iff]
  unfold calloc
  dsimp only
  split <;> rfl

/-- The blocks are those of `kernel_allocate`. -/
theorem calloc_room {nBlocks nSize : BitVec 32} {p n : Nat} :
    Room (calloc s nBlocks nSize).1 p n ↔
      Room (kernel_allocate s (callocSize nBlocks nSize)).1 p n := by
  unfold calloc
  dsimp only
  split <;> rfl

theorem calloc_ptr (nBlocks nSize : BitVec 32) :
    (calloc s nBlocks nSize).2 = (kernel_allocate s (callocSize nBlocks nSize)).2 := by
  unfold calloc
  dsimp only
  split <;> rfl

theorem BlocksOk.callocRoom_iff (hs : BlocksOk base s) (nBlocks nSize : BitVec 32) :
    CallocRoom s nBlocks nSize ↔
      nBlocks.toNat * nSize.toNat ≤ maxRequest ∨ s.refuses (callocSize nBlocks nSize) := by
  have hok := (hs.allocate (callocSize nBlocks nSize)).1
  have hword := hok.word
  constructor
  · intro h
    by_contra hc
    obtain ⟨hsize, hr⟩ := not_or.mp hc
    have hp := mt (calloc_null_iff hs nBlocks nSize).mp hr
    have hroom := calloc_room.mp (h hp).1
    have hend := hroom.1
    rw [calloc_ptr] at hp hroom
    rcases Nat.lt_or_ge (nBlocks.toNat * nSize.toNat) (2 ^ 32) with hlt | hge
    · -- The product fits 32 bits, and its block wraps.
      have heq := callocSize_eq hlt
      exact hs.no_room (by omega) hp (by omega) hroom
    · omega
  · rintro (hsize | hr) hp
    · have heq : (callocSize nBlocks nSize).toNat = max 1 (nBlocks.toNat * nSize.toNat) :=
        callocSize_eq (by unfold maxRequest at hsize; omega)
      have hp' := hp
      rw [calloc_ptr] at hp'
      have hroom := hs.room (by unfold maxRequest at *; omega) hp'
      have hend := hroom.1
      constructor
      · rw [calloc_room, calloc_ptr]
        refine ⟨by omega, ?_⟩
        intro k hk
        apply (hroom.2 k hk).imp_right
        omega
      · intro i hi
        have hmem : (calloc s nBlocks nSize).1.mem =
            memset (kernel_allocate s (callocSize nBlocks nSize)).1.mem
              (kernel_allocate s (callocSize nBlocks nSize)).2 0
              (callocSize nBlocks nSize).toNat := by
          unfold calloc
          dsimp only
          rw [if_pos hp']
        rw [hmem, calloc_ptr]
        exact memset_at (by omega) (by omega)
    · exact absurd ((calloc_null_iff hs nBlocks nSize).mpr hr) hp

/-- In every state that the calls lead to, a block has the room that was asked for exactly
when the request, or the product of `calloc`, is at most `maxRequest`, or it is refused. -/
theorem the_room_is_given_iff (mem : Mem) (ulBase ulSize : BitVec 32) (s₀ s : Heap)
    (ops : List Op) (hinit : kernel_alloc_init mem ulBase ulSize = some s₀)
    (h : exec step s₀ ops = some s) :
    (∀ size, AllocateRoom s size ↔ size.toNat ≤ maxRequest ∨ s.refuses size) ∧
      ∀ nBlocks nSize, CallocRoom s nBlocks nSize ↔
        nBlocks.toNat * nSize.toNat ≤ maxRequest ∨ s.refuses (callocSize nBlocks nSize) := by
  have hs := exec_keeps (BlocksOk ulBase.toNat) (fun _ _ _ hi ht => blocksOk_step hi ht)
    (blocksOk_init hinit) h
  exact ⟨hs.allocateRoom_iff, hs.callocRoom_iff⟩

/-- A heap at 0x200000, after one call. -/
theorem a_small_request_has_room :
    ∃ s₀ s, kernel_alloc_init (fun _ => 0) 0x200000 0x1000000 = some s₀ ∧
      exec step s₀ [.allocate 100] = some s ∧ AllocateRoom s 200 ∧ CallocRoom s 3 100 := by
  refine ⟨_, _, rfl, rfl, ?_⟩
  obtain ⟨hallocate, hcalloc⟩ := the_room_is_given_iff (fun _ => 0) 0x200000 0x1000000 _ _
    [.allocate 100] rfl rfl
  exact ⟨(hallocate 200).mpr (.inl (by decide)), (hcalloc 3 100).mpr (.inl (by decide))⟩

/-- A request for 0xFFFFFFF1 bytes gets a header and no byte behind it; so does a
`calloc` of 0x10001 times 0xFFFF bytes. -/
theorem a_wrapped_request_has_no_room :
    ∃ s₀, kernel_alloc_init (fun _ => 0) 0x200000 0x1000000 = some s₀ ∧
      (kernel_allocate s₀ 0xFFFFFFF1).2 = 0x200010 ∧
      (kernel_allocate s₀ 0xFFFFFFF1).1.s_pNextBlock = 0x200010 ∧
      ¬ AllocateRoom s₀ 0xFFFFFFF1 ∧ ¬ CallocRoom s₀ 0x10001 0xFFFF ∧
      ¬ CallocRoom s₀ 0x10000 0x10000 := by
  refine ⟨_, rfl, by decide +kernel, by decide +kernel, ?_, ?_, ?_⟩
  · intro h
    have hroom := (h (by decide +kernel)).1
    revert hroom
    decide +kernel
  · intro h
    have hroom := (h (by decide +kernel)).1.1
    revert hroom
    decide +kernel
  · intro h
    have hroom := (h (by decide +kernel)).1.1
    revert hroom
    decide +kernel

end rpi_wifi.kernel_alloc
