-- `realloc`. It looks for the header of the block 64 bytes in front of it, since
-- the pointer it counts back from is one to words. What stands there decides
-- whether the data survive.
import RpiWifi.HeapLedger

namespace rpi_wifi.kernel_alloc

open runs memory frame_alloc

/-! ## The function -/

/-- `kernel_allocate`, with the blocks in use beside the heap. -/
def Arena.allocate (s : Arena) (size : BitVec 32) : Arena × Nat :=
  let r := kernel_allocate s.heap size
  (s.returned r size.toNat, r.2)

/-- `kernel_deallocate`: the block is in use no more. -/
def Arena.deallocate (s : Arena) (pBlock : Nat) : Arena :=
  { heap := kernel_deallocate s.heap pBlock
    live := s.live.filter fun b => b.ptr ≠ pBlock }

/-- `(unsigned int *) pBlock - sizeof (struct alloc_header)`, in words of four bytes. -/
def reallocHeader (pBlock : Nat) : Nat := (pBlock + 2 ^ 32 - 4 * sizeofHeader) % 2 ^ 32

def realloc (s : Arena) (pBlock : Nat) (nSize : BitVec 32) : Arena × Nat :=
  if pBlock = 0 then s.allocate nSize
  else if nSize = 0 then (s.deallocate pBlock, 0)
  else
    let pBlockHeader := reallocHeader pBlock
    if magicAt s.heap.mem pBlockHeader ≠ BLOCK_MAGIC then (s, 0)
    else if nSize.toNat ≤ sizeAt s.heap.mem pBlockHeader then (s, pBlock)
    else
      let (s, pNewBlock) := s.allocate nSize
      if pNewBlock = 0 then (s, 0)
      else
        let mem := memcpy s.heap.mem pNewBlock pBlock (sizeAt s.heap.mem pBlockHeader)
        let s := { s with heap := { s.heap with mem } }
        (s.deallocate pBlock, pNewBlock)

/-! ## What it is for -/

instance (s : Heap) (p n : Nat) : Decidable (Room s p n) := inferInstanceAs (Decidable (_ ∧ _))

/-- The bytes of a block: those of its header, as far as there is room for them. -/
def capacity (s : Heap) (p : Nat) : Nat :=
  Nat.findGreatest (Room s p) (sizeAt s.mem (p - sizeofHeader))

/-- Null is returned only when the heap has no memory for the request, and the block is
there as before. Otherwise a block in use with room for the request comes back, with the
bytes of the old one, which is in use no more unless it is the same one. -/
structure ReallocKeeps (s : Arena) (p : Nat) (n : BitVec 32) : Prop where
  null : (realloc s p n).2 = 0 → s.heap.refuses n ∧ p ∈ (realloc s p n).1.live.map Live.ptr ∧
    ∀ i < capacity s.heap p, (realloc s p n).1.heap.mem (p + i) = s.heap.mem (p + i)
  block : (realloc s p n).2 ≠ 0 →
    (realloc s p n).2 ∈ (realloc s p n).1.live.map Live.ptr ∧
      n.toNat ≤ capacity (realloc s p n).1.heap (realloc s p n).2 ∧
      (∀ i < min (capacity s.heap p) n.toNat,
        (realloc s p n).1.heap.mem ((realloc s p n).2 + i) = s.heap.mem (p + i)) ∧
      (p ∈ (realloc s p n).1.live.map Live.ptr ↔ (realloc s p n).2 = p)

/-- The pointer that the next block of this size gets. -/
def Heap.offer (s : Heap) (size : BitVec 32) : Nat :=
  match bucketFor size.toNat with
  | none => s.s_pNextBlock + sizeofHeader
  | some i => (if s.free_list i = 0 then s.s_pNextBlock else s.free_list i) + sizeofHeader

/-- What the 16 bytes, 64 bytes in front of the block, have to be. -/
def ReallocFits (s : Heap) (p : Nat) (n : BitVec 32) : Prop :=
  let size := sizeAt s.mem (reallocHeader p)
  if magicAt s.mem (reallocHeader p) ≠ BLOCK_MAGIC then s.refuses n
  else if n.toNat ≤ size then n.toNat ≤ capacity s p
  else s.refuses n ∨ n.toNat ≤ maxRequest ∧
    ∀ i, size ≤ i → i < min (capacity s p) n.toNat → s.mem (s.offer n + i) = s.mem (p + i)

variable {base : Nat} {s t : Arena} {heap : Heap} {lists : Fin 7 → List Nat}

/-! ## Room -/

theorem Room.mono {p n m : Nat} (h : Room heap p n) (hm : m ≤ n) : Room heap p m := by
  refine ⟨by have := h.1; omega, ?_⟩
  intro k hk
  apply (h.2 k hk).imp_right
  omega

/-- The bytes of a block have room, and so many of them as have room count. -/
theorem le_capacity_iff {p n : Nat} (hn : 0 < n) :
    n ≤ capacity heap p ↔ n ≤ sizeAt heap.mem (p - sizeofHeader) ∧ Room heap p n := by
  unfold capacity
  constructor
  · intro h
    have hroom := Nat.findGreatest_of_ne_zero (P := Room heap p) rfl (Nat.ne_of_gt (hn.trans_le h))
    exact ⟨h.trans (Nat.findGreatest_le _), hroom.mono h⟩
  · rintro ⟨hsize, hroom⟩
    exact Nat.le_findGreatest hsize hroom

/-- A byte of a block lies in front of the next block and in no header. -/
theorem BlocksOk.byte_outside (hs : BlocksOk base heap) {h n a : Nat} (hm : h ∈ heap.blocks)
    (hroom : Room heap (h + sizeofHeader) n) (ha : h + sizeofHeader ≤ a)
    (hn : a < h + sizeofHeader + n) :
    a < heap.s_pNextBlock ∧ ∀ k ∈ heap.blocks, a < k ∨ k + sizeofHeader ≤ a := by
  have hend := hroom.1
  refine ⟨by omega, ?_⟩
  intro k hk
  rcases hroom.2 k hk with hlow | hhigh
  · right
    rcases hs.apart hm hk with rfl | hap
    · exact ha
    · unfold Apart at hap
      omega
  · left
    omega

/-! ## What a call changes in the memory -/

theorem setNext_of_out {m : Mem} {h v a : Nat} (ha : a < h ∨ h + sizeofHeader ≤ a) :
    setNext m h v a = m a := by
  unfold sizeofHeader at ha
  exact write32_of_out (by omega)

theorem setHeader_of_out {m : Mem} {h v a : Nat} (ha : a < h ∨ h + sizeofHeader ≤ a) :
    setHeader m h v a = m a := by
  unfold sizeofHeader at ha
  unfold setHeader
  rw [write32_of_out (by omega), write32_of_out (by omega)]

/-- A block is given out where it was offered, and only headers are written for it. -/
theorem BlocksOk.allocate_frame (hs : BlocksOk base heap) {size : BitVec 32}
    (hr : ¬ heap.refuses size) :
    (kernel_allocate heap size).2 = heap.offer size ∧
      ∀ a, (a < heap.s_pNextBlock ∨ heap.s_pNextBlock + sizeofHeader ≤ a) →
        (∀ h ∈ heap.blocks, a < h ∨ h + sizeofHeader ≤ a) →
        (kernel_allocate heap size).1.mem a = heap.mem a := by
  rcases hs.allocate_cases size with ⟨hno, -⟩ | ⟨-, i, hi, hm, h0, -, heq⟩ | ⟨-, -, hempty, heq⟩
  · exact absurd hno hr
  · rw [heq]
    refine ⟨by simp [Heap.offer, hi, h0], ?_⟩
    intro a _ ha
    exact setNext_of_out (ha _ hm)
  · rw [heq]
    constructor
    · unfold Heap.offer
      rcases hb : bucketFor size.toNat with _ | i
      · rfl
      · dsimp only
        rw [if_pos (hempty i hb)]
    · intro a ha _
      dsimp only [Heap.carved]
      rw [setNext_of_out ha, setHeader_of_out ha]

/-- The block that is given out was there before, or it is the one behind the last. -/
theorem BlocksOk.allocate_place (hs : BlocksOk base heap) {size : BitVec 32}
    (hr : ¬ heap.refuses size) :
    ∃ g ∈ (kernel_allocate heap size).1.blocks,
      (kernel_allocate heap size).2 = g + sizeofHeader ∧
      (∀ k ∈ heap.blocks, k ∈ (kernel_allocate heap size).1.blocks) ∧
      (g ∈ heap.blocks ∧ (kernel_allocate heap size).1.s_pNextBlock = heap.s_pNextBlock ∨
        g = heap.s_pNextBlock) := by
  rcases hs.allocate_cases size with ⟨hno, -⟩ | ⟨-, j, -, hk, -, -, heq⟩ | ⟨-, -, -, heq⟩
  · exact absurd hno hr
  · rw [heq]
    exact ⟨_, hk, rfl, fun _ h => h, .inl ⟨hk, rfl⟩⟩
  · rw [heq]
    exact ⟨heap.s_pNextBlock, by simp [Heap.carved], rfl,
      fun _ h => List.mem_append_left _ h, .inr rfl⟩

theorem deallocate_frame {h a : Nat} (hh : h < 2 ^ 32) (ha : a < h ∨ h + sizeofHeader ≤ a) :
    (kernel_deallocate heap (h + sizeofHeader)).mem a = heap.mem a := by
  rcases kernel_deallocate_cases (s := heap) hh with hno | ⟨i, -, heq⟩
  · rw [hno]
  · rw [heq]
    exact setNext_of_out ha

theorem deallocate_region (heap : Heap) {h : Nat} (hh : h < 2 ^ 32) :
    (kernel_deallocate heap (h + sizeofHeader)).s_pNextBlock = heap.s_pNextBlock ∧
      (kernel_deallocate heap (h + sizeofHeader)).blocks = heap.blocks := by
  rcases kernel_deallocate_cases (s := heap) hh with hno | ⟨i, -, heq⟩
  · rw [hno]
    exact ⟨rfl, rfl⟩
  · rw [heq]
    exact ⟨rfl, rfl⟩

theorem deallocate_size {h k : Nat} (hh : h < 2 ^ 32) (hk : Apart h k) :
    sizeAt (kernel_deallocate heap (h + sizeofHeader)).mem k = sizeAt heap.mem k := by
  rcases kernel_deallocate_cases (s := heap) hh with hno | ⟨i, -, heq⟩
  · rw [hno]
  · rw [heq]
    exact sizeAt_setNext (.inr hk)

theorem long_bucket (j : Fin 7) : 80 ≤ stride (bucketSize j) := by
  revert j
  decide

/-- The size that `realloc` reads is not written by the call of the allocator. -/
theorem BlocksOk.size_kept (hs : BlocksOk base heap) (hbase : 64 ≤ base) {h : Nat}
    (hm : h ∈ heap.blocks) {size : BitVec 32} (hr : ¬ heap.refuses size) :
    sizeAt (kernel_allocate heap size).1.mem (reallocHeader (h + sizeofHeader)) =
      sizeAt heap.mem (reallocHeader (h + sizeofHeader)) := by
  have hin := hs.inside h hm
  have hword := hs.word
  have hat : reallocHeader (h + sizeofHeader) = h - 48 := by
    unfold reallocHeader sizeofHeader at *
    omega
  rw [hat]
  apply read32_congr
  intro i hi
  rcases hs.allocate_cases size with ⟨hno, -⟩ | ⟨-, j, -, hk, -, hz, heq⟩ | ⟨-, -, -, heq⟩
  · exact absurd hno hr
  · rw [heq]
    apply setNext_of_out
    -- A block of a bucket is longer than the distance.
    have hlong := long_bucket j
    rw [← hz] at hlong
    unfold sizeofHeader at *
    rcases hs.beside h hm (heap.free_list j) hk with hsame | hb | hb <;> omega
  · rw [heq]
    dsimp only [Heap.carved]
    unfold sizeofHeader at hin
    rw [setNext_of_out (by omega), setHeader_of_out (by omega)]

/-! ## The three ways out -/

theorem realloc_lost {p : Nat} {n : BitVec 32} (hp : p ≠ 0) (hn : n ≠ 0)
    (hmagic : magicAt s.heap.mem (reallocHeader p) ≠ BLOCK_MAGIC) : realloc s p n = (s, 0) := by
  unfold realloc
  rw [if_neg hp, if_neg hn]
  exact if_pos hmagic

theorem realloc_same {p : Nat} {n : BitVec 32} (hp : p ≠ 0) (hn : n ≠ 0)
    (hmagic : magicAt s.heap.mem (reallocHeader p) = BLOCK_MAGIC)
    (hsize : n.toNat ≤ sizeAt s.heap.mem (reallocHeader p)) : realloc s p n = (s, p) := by
  unfold realloc
  rw [if_neg hp, if_neg hn]
  dsimp only
  rw [if_neg (not_not.mpr hmagic), if_pos hsize]

theorem realloc_refused (hs : BlocksOk base s.heap) {p : Nat} {n : BitVec 32} (hp : p ≠ 0)
    (hn : n ≠ 0) (hmagic : magicAt s.heap.mem (reallocHeader p) = BLOCK_MAGIC)
    (hsize : ¬ n.toNat ≤ sizeAt s.heap.mem (reallocHeader p)) (hr : s.heap.refuses n) :
    realloc s p n = ({ s with heap := { s.heap with s_nBlockReserve := 0 } }, 0) := by
  have hnull : kernel_allocate s.heap n = ({ s.heap with s_nBlockReserve := 0 }, 0) := by
    rcases hs.allocate_cases n with ⟨-, heq⟩ | ⟨hno, -⟩ | ⟨hno, -⟩
    · exact heq
    · exact absurd hr hno
    · exact absurd hr hno
  unfold realloc
  rw [if_neg hp, if_neg hn]
  dsimp only
  rw [if_neg (not_not.mpr hmagic), if_neg hsize]
  unfold Arena.allocate
  rw [hnull]
  rfl

/-- The heap with the bytes of the block in the new one, and the block given back. -/
def movedHeap (s : Arena) (p : Nat) (n : BitVec 32) : Heap :=
  let r := kernel_allocate s.heap n
  kernel_deallocate
    { r.1 with mem := memcpy r.1.mem r.2 p (sizeAt r.1.mem (reallocHeader p)) } p

theorem realloc_moved (hs : BlocksOk base s.heap) {p : Nat} {n : BitVec 32} (hp : p ≠ 0)
    (hn : n ≠ 0) (hmagic : magicAt s.heap.mem (reallocHeader p) = BLOCK_MAGIC)
    (hsize : ¬ n.toNat ≤ sizeAt s.heap.mem (reallocHeader p)) (hr : ¬ s.heap.refuses n) :
    realloc s p n =
      ({ heap := movedHeap s p n
         live := (⟨(kernel_allocate s.heap n).2, n.toNat⟩ :: s.live).filter fun b => b.ptr ≠ p },
        (kernel_allocate s.heap n).2) := by
  have hq := mt (hs.null_iff n).mp hr
  unfold realloc
  rw [if_neg hp, if_neg hn]
  dsimp only
  rw [if_neg (not_not.mpr hmagic), if_neg hsize]
  unfold Arena.allocate Arena.returned Arena.deallocate movedHeap
  dsimp only
  rw [if_neg hq, if_neg hq]

/-! ## The moved block -/

/-- The block at `h` is copied to the one at `g`, `z` bytes of it, and given back. -/
def Heap.moved (heap : Heap) (h g z : Nat) : Heap :=
  kernel_deallocate
    { heap with mem := memcpy heap.mem (g + sizeofHeader) (h + sizeofHeader) z }
    (h + sizeofHeader)

theorem BlocksOk.moved_room (hs : BlocksOk base heap) {h g z n : Nat} (hh : h ∈ heap.blocks)
    (hap : Apart h g) (hz : z ≤ n) (hn : 0 < n)
    (hsize : n ≤ sizeAt heap.mem g) :
    n ≤ capacity (heap.moved h g z) (g + sizeofHeader) ↔ Room heap (g + sizeofHeader) n := by
  have hword := hs.lt hh
  obtain ⟨hnext, hblocks⟩ := deallocate_region
    { heap with mem := memcpy heap.mem (g + sizeofHeader) (h + sizeofHeader) z } (h := h) (by omega)
  have hroom : Room (heap.moved h g z) (g + sizeofHeader) n ↔ Room heap (g + sizeofHeader) n := by
    unfold Room Heap.moved
    rw [hnext, hblocks]
  rw [le_capacity_iff hn, hroom, Nat.add_sub_cancel]
  refine ⟨And.right, fun hr => ⟨?_, hr⟩⟩
  have hend := hr.1
  have hlast := hs.word
  unfold Heap.moved
  rw [deallocate_size (by omega) hap]
  apply hsize.trans_eq
  symm
  apply read32_congr
  intro i hi
  unfold sizeofHeader
  exact memcpy_of_out (by unfold sizeofHeader at hend; omega) (by omega)

/-- The new block has the copied bytes, and behind them what was there before. -/
theorem BlocksOk.moved_bytes (hs : BlocksOk base heap) {h g z n i : Nat} (hh : h ∈ heap.blocks)
    (hg : g ∈ heap.blocks) (hroom : Room heap (g + sizeofHeader) n) (hz : z ≤ n) (hi : i < n)
    (hword : h + sizeofHeader + i < 2 ^ 32)
    (hsrc : h + sizeofHeader + i < g + sizeofHeader ∨
      g + sizeofHeader + n ≤ h + sizeofHeader + i) :
    (heap.moved h g z).mem (g + sizeofHeader + i) =
      if i < z then heap.mem (h + sizeofHeader + i) else heap.mem (g + sizeofHeader + i) := by
  have hend := hroom.1
  have hlast := hs.word
  obtain ⟨-, hout⟩ := hs.byte_outside hg hroom (a := g + sizeofHeader + i) (by omega) (by omega)
  unfold Heap.moved
  rw [deallocate_frame (by omega) (hout h hh)]
  dsimp only
  split
  · next hlt => exact memcpy_at hlt (by omega) (by omega) (by omega)
  · next hge => exact memcpy_of_out (by omega) (by omega)

/-- The bytes of the old block lie clear of the new one, and neither call has written
there. -/
theorem BlocksOk.old_bytes (hs : BlocksOk base heap) {h g c i : Nat} {n : BitVec 32}
    (hm : h ∈ heap.blocks) (hc : Room heap (h + sizeofHeader) c) (hi : i < c)
    (hr : ¬ heap.refuses n) (hq : (kernel_allocate heap n).2 = g + sizeofHeader)
    (hne : g ≠ h) (hroom : Room (kernel_allocate heap n).1 (g + sizeofHeader) n.toNat) :
    h + sizeofHeader + i < 2 ^ 32 ∧
      (kernel_allocate heap n).1.mem (h + sizeofHeader + i) = heap.mem (h + sizeofHeader + i) ∧
      (h + sizeofHeader + i < g + sizeofHeader ∨
        g + sizeofHeader + n.toNat ≤ h + sizeofHeader + i) := by
  obtain ⟨g', hg, hq', hsub, hplace⟩ := hs.allocate_place hr
  obtain rfl : g' = g := by omega
  obtain ⟨hlow, hout⟩ := hs.byte_outside hm hc (a := h + sizeofHeader + i) (by omega) (by omega)
  have hlast := hs.word
  have hok := (hs.allocate n).1
  refine ⟨by omega, (hs.allocate_frame hr).2 _ (.inl hlow) hout, ?_⟩
  rcases hroom.2 h (hsub h hm) with hbelow | habove
  · left
    have hap := (hok.apart (hsub h hm) hg).resolve_left hne
    unfold Apart at hap
    rcases hplace with ⟨hg', -⟩ | rfl
    · have := hc.2 g' hg'
      omega
    · omega
  · right
    omega

theorem BlocksOk.new_bytes (hs : BlocksOk base heap) {g i : Nat} {n : BitVec 32}
    (hr : ¬ heap.refuses n) (hq : (kernel_allocate heap n).2 = g + sizeofHeader)
    (hroom : Room (kernel_allocate heap n).1 (g + sizeofHeader) n.toNat) (hi : i < n.toNat) :
    (kernel_allocate heap n).1.mem (g + sizeofHeader + i) =
      heap.mem (g + sizeofHeader + i) := by
  obtain ⟨g', hg, hq', hsub, hplace⟩ := hs.allocate_place hr
  obtain rfl : g' = g := by omega
  have hok := (hs.allocate n).1
  obtain ⟨hlow, hout⟩ := hok.byte_outside hg hroom (a := g' + sizeofHeader + i) (by omega)
    (by omega)
  refine (hs.allocate_frame hr).2 _ ?_ fun k hk => hout k (hsub k hk)
  rcases hplace with ⟨-, hnext⟩ | rfl
  · left
    omega
  · right
    omega

/-- What is known of the new block. -/
theorem LedgerOk.new_block (hs : LedgerOk base s lists) {b : Live} (hb : b ∈ s.live)
    {n : BitVec 32} (hr : ¬ s.heap.refuses n) :
    (kernel_allocate s.heap n).2 ≠ b.ptr ∧
      ∃ g ∈ (kernel_allocate s.heap n).1.blocks, (kernel_allocate s.heap n).2 = g + sizeofHeader ∧
        n.toNat ≤ sizeAt (kernel_allocate s.heap n).1.mem g := by
  have hq0 := mt (hs.blocks.null_iff n).mp hr
  obtain ⟨g, hg, hq, hz⟩ := (hs.blocks.allocate n).2.resolve_left hq0
  refine ⟨?_, g, hg, hq, hz ▸ recorded_ge _⟩
  obtain ⟨lists', hledger, -⟩ := hs.allocate n
  have honce := hledger.settled.once
  simp only [Arena.returned, if_neg hq0] at honce
  intro he
  rw [he] at honce
  exact (List.nodup_cons.mp honce).1 (List.mem_map.mpr ⟨b, hb, rfl⟩)

/-! ## The law of `realloc` -/

/-- The bytes of the new block after the move, as far as both blocks reach. -/
theorem BlocksOk.copied_bytes (hs : BlocksOk base heap) {h g z : Nat} {n : BitVec 32}
    (hm : h ∈ heap.blocks) (hr : ¬ heap.refuses n) (hg : g ∈ (kernel_allocate heap n).1.blocks)
    (hq : (kernel_allocate heap n).2 = g + sizeofHeader) (hgh : g ≠ h) (hle : z ≤ n.toNat)
    (hmax : n.toNat ≤ maxRequest) {i : Nat}
    (hi : i < min (capacity heap (h + sizeofHeader)) n.toNat) :
    ((kernel_allocate heap n).1.moved h g z).mem (g + sizeofHeader + i) =
      if i < z then heap.mem (h + sizeofHeader + i) else heap.mem (heap.offer n + i) := by
  obtain ⟨-, -, -, hsub, -⟩ := hs.allocate_place hr
  obtain ⟨hic, hin⟩ := lt_min_iff.mp hi
  have hnew := hs.room hmax (mt (hs.null_iff n).mp hr)
  rw [hq] at hnew
  have hc := ((le_capacity_iff (by omega)).mp (le_refl (capacity heap (h + sizeofHeader)))).2
  obtain ⟨hword, hold, hsrc⟩ := hs.old_bytes hm hc hic hr hq hgh hnew
  have hsrc' : h + sizeofHeader + i < g + sizeofHeader ∨
      g + sizeofHeader + n.toNat ≤ h + sizeofHeader + i := hsrc
  rw [(hs.allocate n).1.moved_bytes (hsub h hm) hg hnew hle hin hword hsrc', hold,
    hs.new_bytes hr hq hnew hin, ← (hs.allocate_frame hr).1, hq]

/-- Where the header that is read is short, the move keeps the data exactly when there is a
new block for them, and the bytes behind the short size are there already. -/
theorem LedgerOk.moved_iff (hs : LedgerOk base s lists) (hbase : 64 ≤ base) {b : Live}
    (hb : b ∈ s.live) {n : BitVec 32} (hn : n ≠ 0)
    (hmagic : magicAt s.heap.mem (reallocHeader b.ptr) = BLOCK_MAGIC)
    (hsize : ¬ n.toNat ≤ sizeAt s.heap.mem (reallocHeader b.ptr)) (hr : ¬ s.heap.refuses n) :
    ReallocKeeps s b.ptr n ↔ n.toNat ≤ maxRequest ∧
      ∀ i, sizeAt s.heap.mem (reallocHeader b.ptr) ≤ i →
        i < min (capacity s.heap b.ptr) n.toNat →
        s.heap.mem (s.heap.offer n + i) = s.heap.mem (b.ptr + i) := by
  obtain ⟨h, hm, hp, -⟩ := hs.settled.held b hb
  obtain ⟨hne, g, hg, hq, hgsize⟩ := hs.new_block hb hr
  obtain ⟨-, -, hq', hsub, -⟩ := hs.blocks.allocate_place hr
  have hok := (hs.blocks.allocate n).1
  have hq0 := mt (hs.blocks.null_iff n).mp hr
  have hkept := hs.blocks.size_kept hbase hm hr
  have hpos : 0 < n.toNat := Nat.pos_of_ne_zero fun h0 => hn (BitVec.eq_of_toNat_eq h0)
  have hgh : g ≠ h := by
    rintro rfl
    exact hne (hq.trans hp.symm)
  have hap := (hok.apart (hsub h hm) hg).resolve_left hgh
  have hp0 : b.ptr ≠ 0 := hp ▸ ptr_ne_zero h
  have hmoved := realloc_moved hs.blocks hp0 hn hmagic hsize hr
  have hle : sizeAt s.heap.mem (reallocHeader b.ptr) ≤ n.toNat := Nat.le_of_not_le hsize
  have hheap : movedHeap s b.ptr n =
      (kernel_allocate s.heap n).1.moved h g (sizeAt s.heap.mem (reallocHeader b.ptr)) := by
    unfold movedHeap Heap.moved
    dsimp only
    rw [hp, hq, hkept]
  have hroom := hok.moved_room (hsub h hm) hap hle hpos hgsize
  have hbytes : n.toNat ≤ maxRequest → ∀ i < min (capacity s.heap b.ptr) n.toNat,
      ((kernel_allocate s.heap n).1.moved h g (sizeAt s.heap.mem (reallocHeader b.ptr))).mem
          (g + sizeofHeader + i) =
        if i < sizeAt s.heap.mem (reallocHeader b.ptr) then s.heap.mem (b.ptr + i)
        else s.heap.mem (s.heap.offer n + i) := by
    intro hmax i hi
    have hcopied := hs.blocks.copied_bytes hm hr hg hq hgh hle hmax (hp ▸ hi)
    rw [hcopied, hp]
  constructor
  · intro hk
    obtain ⟨-, hcap, hdata, -⟩ := hk.block (by rw [hmoved]; exact hq0)
    rw [hmoved] at hcap hdata
    dsimp only at hcap hdata
    rw [hheap, hq] at hcap hdata
    have hmax : n.toNat ≤ maxRequest := by
      by_contra hlarge
      have hnone := hs.blocks.no_room (Nat.lt_of_not_le hlarge) hq0 hpos
      rw [hq] at hnone
      exact hnone (hroom.mp hcap)
    refine ⟨hmax, ?_⟩
    intro i hz hi
    have hbyte := hdata i hi
    rw [hbytes hmax i hi, if_neg (Nat.not_lt_of_le hz)] at hbyte
    exact hbyte
  · rintro ⟨hmax, hrest⟩
    have hnew := hs.blocks.room hmax hq0
    rw [hq] at hnew
    refine ⟨?_, fun _ => ?_⟩
    · intro h0
      rw [hmoved] at h0
      exact absurd h0 hq0
    · rw [hmoved]
      dsimp only
      rw [hheap]
      refine ⟨?_, hq ▸ hroom.mpr hnew, ?_, ?_⟩
      · simp [hne]
      · intro i hi
        rw [hq, hbytes hmax i hi]
        split
        · rfl
        · next hge => exact hrest i (Nat.le_of_not_lt hge) hi
      · refine iff_of_false ?_ hne
        simp

/-- Where null is returned, and the block is there as before, the heap has to refuse. -/
theorem keeps_iff_of_null {p : Nat} {n : BitVec 32} (hnull : realloc s p n = (t, 0))
    (hlive : p ∈ t.live.map Live.ptr) (hmem : t.heap.mem = s.heap.mem) :
    ReallocKeeps s p n ↔ s.heap.refuses n := by
  constructor
  · intro hk
    exact (hk.null (by rw [hnull])).1
  · intro hr
    refine ⟨fun _ => ⟨hr, ?_⟩, fun hne => absurd (by rw [hnull]) hne⟩
    rw [hnull]
    exact ⟨hlive, fun i _ => congrFun hmem (p + i)⟩

/-- Where the block itself is returned, it has to have room. -/
theorem keeps_iff_of_same {p : Nat} {n : BitVec 32} (hsame : realloc s p n = (s, p)) (hp : p ≠ 0)
    (hlive : p ∈ s.live.map Live.ptr) :
    ReallocKeeps s p n ↔ n.toNat ≤ capacity s.heap p := by
  constructor
  · intro hk
    have hcap := (hk.block (by rw [hsame]; exact hp)).2.1
    rwa [hsame] at hcap
  · intro hcap
    refine ⟨fun h0 => absurd (by rw [hsame] at h0; exact h0) hp, fun _ => ?_⟩
    rw [hsame]
    exact ⟨hlive, hcap, fun _ _ => rfl, iff_of_true hlive rfl⟩

/-- The heap starts behind the first page. -/
theorem base_of_init {fm : FrameManager} {mem : Mem} {ulSize : BitVec 32}
    (hinit : kernel_alloc_init mem
      (BitVec.ofNat 32 (alloc_contiguous_frames fm (ulSize.toNat / PAGE_SIZE)).2) ulSize =
        some heap) :
    64 ≤ (BitVec.ofNat 32 (alloc_contiguous_frames fm (ulSize.toNat / PAGE_SIZE)).2).toNat := by
  obtain ⟨h0, -⟩ := init_eq hinit
  have haligned := alloc_contiguous_frames_aligned fm (ulSize.toNat / PAGE_SIZE)
  have hne : (BitVec.ofNat 32
      (alloc_contiguous_frames fm (ulSize.toNat / PAGE_SIZE)).2).toNat ≠ 0 :=
    fun hz => h0 (BitVec.eq_of_toNat_eq hz)
  rw [BitVec.toNat_ofNat] at hne ⊢
  unfold PAGE_SIZE at haligned hne ⊢
  omega

/-- `realloc` keeps the data of a block in use exactly when what stands 64 bytes in front of
the block allows it. -/
theorem realloc_keeps_iff (fm : FrameManager) (mem : Mem) (ulSize : BitVec 32) (heap : Heap)
    (ops : List ClientOp) (s : Arena) (b : Live) (n : BitVec 32)
    (hinit : kernel_alloc_init mem
      (BitVec.ofNat 32 (alloc_contiguous_frames fm (ulSize.toNat / PAGE_SIZE)).2) ulSize =
        some heap)
    (hrun : exec ledgerStep ⟨heap, []⟩ ops = some s) (hb : b ∈ s.live) (hn : n ≠ 0) :
    ReallocKeeps s b.ptr n ↔ ReallocFits s.heap b.ptr n := by
  obtain ⟨lists, hs⟩ := ledger_of_run hinit hrun
  obtain ⟨h, hm, hp, -⟩ := hs.settled.held b hb
  have hp0 : b.ptr ≠ 0 := hp ▸ ptr_ne_zero h
  have hlive : b.ptr ∈ s.live.map Live.ptr := List.mem_map_of_mem hb
  unfold ReallocFits
  dsimp only
  split
  · next hmagic => exact keeps_iff_of_null (realloc_lost hp0 hn hmagic) hlive rfl
  · next hmagic =>
    rw [not_not] at hmagic
    split
    · next hsize => exact keeps_iff_of_same (realloc_same hp0 hn hmagic hsize) hp0 hlive
    · next hsize =>
      by_cases hr : s.heap.refuses n
      · have hrefused := realloc_refused hs.blocks hp0 hn hmagic hsize hr
        exact iff_of_true ((keeps_iff_of_null hrefused hlive rfl).mpr hr) (Or.inl hr)
      · rw [hs.moved_iff (base_of_init hinit) hb hn hmagic hsize hr]
        exact (or_iff_right hr).symm

/-- The heap of the runs below, from the address 0x20000 on. -/
def reallocHeap : Option Heap :=
  kernel_alloc_init (fun _ => 0)
    (BitVec.ofNat 32
      (alloc_contiguous_frames clearMachine ((0x4000 : BitVec 32).toNat / PAGE_SIZE)).2) 0x4000

/-- 64 bytes in front of the second block, the first client has stored the magic word and a
size of 64. -/
def forgedRun : List ClientOp :=
  [.allocate 64, .allocate 64, .store 0x20020 0xEF, .store 0x20021 0xBE, .store 0x20022 0xAD,
    .store 0x20023 0xDE, .store 0x20024 0x40]

/-- The second block is found to be long enough, as it is. -/
theorem a_forged_header_fits :
    ∃ heap s, reallocHeap = some heap ∧ exec ledgerStep ⟨heap, []⟩ forgedRun = some s ∧
      (realloc s 0x20060 50).2 = 0x20060 ∧ ReallocKeeps s 0x20060 50 := by
  have hrun : ∃ heap s, reallocHeap = some heap ∧ exec ledgerStep ⟨heap, []⟩ forgedRun = some s ∧
      (realloc s 0x20060 50).2 = 0x20060 ∧ ⟨0x20060, 64⟩ ∈ s.live ∧
      magicAt s.heap.mem (reallocHeader 0x20060) = BLOCK_MAGIC ∧
      50 ≤ sizeAt s.heap.mem (reallocHeader 0x20060) ∧ 50 ≤ capacity s.heap 0x20060 := by
    refine ⟨_, _, rfl, rfl, ?_⟩
    decide +kernel
  obtain ⟨heap, s, hheap, hs, hret, hb, hmagic, hsize, hcap⟩ := hrun
  refine ⟨heap, s, hheap, hs, hret, ?_⟩
  apply (realloc_keeps_iff clearMachine _ 0x4000 heap forgedRun s ⟨0x20060, 64⟩ 50 hheap hs hb
    (by decide)).mpr
  unfold ReallocFits
  dsimp only
  rw [if_neg (not_not.mpr hmagic)]
  exact (if_pos hsize).symm ▸ hcap

/-- A block of 100 bytes, alone in the heap, is not found, and null comes back though the
heap has room for the request. -/
theorem realloc_of_the_first_block_fails :
    ∃ heap s, reallocHeap = some heap ∧ exec ledgerStep ⟨heap, []⟩ [.allocate 100] = some s ∧
      ⟨0x20010, 100⟩ ∈ s.live ∧ (realloc s 0x20010 2000).2 = 0 ∧
      ¬ ReallocKeeps s 0x20010 2000 := by
  have hrun : ∃ heap s, reallocHeap = some heap ∧
      exec ledgerStep ⟨heap, []⟩ [.allocate 100] = some s ∧
      ⟨0x20010, 100⟩ ∈ s.live ∧ (realloc s 0x20010 2000).2 = 0 ∧
      (kernel_allocate s.heap 2000).2 ≠ 0 := by
    refine ⟨_, _, rfl, rfl, ?_⟩
    decide +kernel
  obtain ⟨heap, s, hheap, hs, hb, hnull, hroom⟩ := hrun
  refine ⟨heap, s, hheap, hs, hb, hnull, ?_⟩
  intro hk
  obtain ⟨lists, hledger⟩ := ledger_of_run hheap hs
  exact hroom ((hledger.blocks.null_iff 2000).mpr (hk.null hnull).1)

end rpi_wifi.kernel_alloc
