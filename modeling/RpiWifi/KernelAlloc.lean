-- The heap of the kernel: blocks with a header of 16 bytes, carved one behind
-- the other from the memory that the frame allocator gave, and kept in one
-- free list for each bucket of sizes once they are freed. Addresses and sizes
-- are of 32 bits, and what the code adds to them wraps.
import RpiWifi.Runs
import RpiWifi.Memory

namespace rpi_wifi.kernel_alloc

open memory

def BLOCK_MAGIC : Nat := 0xDEADBEEF

def PAGE_RESERVE : Nat := 0x400000

/-- `sizeof(struct alloc_header)`. -/
def sizeofHeader : Nat := 16

/-- The sizes of `s_BlockBucket`, without the entry 0 that ends it. -/
def bucketSize : Fin 7 → Nat := ![0x40, 0x400, 0x1000, 0x4000, 0x10000, 0x40000, 0x80000]

/-- The static variables of the allocator and the memory. `blocks` are the
headers of the blocks that were carved so far, which the code does not keep. -/
structure Heap where
  mem : Mem
  s_pNextBlock : Nat
  s_pBlockLimit : Nat
  s_nBlockReserve : Nat
  free_list : Fin 7 → Nat
  blocks : List Nat

/-! ## The fields of a header -/

def magicAt (m : Mem) (h : Nat) : Nat := read32 m h

def sizeAt (m : Mem) (h : Nat) : Nat := read32 m (h + 4)

def nextAt (m : Mem) (h : Nat) : Nat := read32 m (h + 8)

def setNext (m : Mem) (h next : Nat) : Mem := write32 m (h + 8) next

def setHeader (m : Mem) (h size : Nat) : Mem := write32 (write32 m h BLOCK_MAGIC) (h + 4) size

/-! ## The functions -/

/-- `kernel_alloc_init`, with the address that `alloc_contiguous_frames` gave.
There is no heap when it gave none. -/
def kernel_alloc_init (mem : Mem) (ulBase ulSize : BitVec 32) : Option Heap :=
  if ulBase = 0 then none
  else
    let ulLimit := ulBase + ulSize
    let ulSize := ulLimit - ulBase
    let ulBlockReserve := ulSize - BitVec.ofNat 32 PAGE_RESERVE
    some
      { mem
        s_pNextBlock := ulBase.toNat
        s_pBlockLimit := (ulBase + ulBlockReserve).toNat
        s_nBlockReserve := 0x40000
        free_list := fun _ => 0
        blocks := [] }

/-- The first bucket that holds `size` bytes. -/
def bucketFor (size : Nat) : Option (Fin 7) := (List.finRange 7).find? fun i => size ≤ bucketSize i

/-- The bytes from one header to the next, in 32 bits. -/
def stride (size : Nat) : Nat := (sizeofHeader + size + 15) % 2 ^ 32 / 16 * 16

/-- The end of the room for blocks, in 32 bits. -/
def Heap.roomEnd (s : Heap) : Nat := (s.s_pBlockLimit + 2 ^ 32 - s.s_nBlockReserve) % 2 ^ 32

/-- A block that is given to the caller: its header has no next one. -/
def Heap.give (s : Heap) (h : Nat) : Heap × Nat :=
  ({ s with mem := setNext s.mem h 0 }, (h + sizeofHeader) % 2 ^ 32)

/-- A new block behind the last one, or none when there is no room. -/
def Heap.carve (s : Heap) (size : Nat) : Heap × Nat :=
  let h := s.s_pNextBlock
  let pNextBlock := (h + stride size) % 2 ^ 32
  if pNextBlock ≤ h ∨ s.roomEnd < pNextBlock then ({ s with s_nBlockReserve := 0 }, 0)
  else
    Heap.give { s with
      s_pNextBlock := pNextBlock
      mem := setHeader s.mem h size
      blocks := s.blocks ++ [h] } h

/-- `kernel_allocate`, with the heap and the pointer that it returns. -/
def kernel_allocate (s : Heap) (size : BitVec 32) : Heap × Nat :=
  match bucketFor size.toNat with
  | none => s.carve size.toNat
  | some i =>
    let h := s.free_list i
    if h ≠ 0 ∧ magicAt s.mem h = BLOCK_MAGIC then
      Heap.give { s with free_list := Function.update s.free_list i (nextAt s.mem h) } h
    else s.carve (bucketSize i)

def kernel_deallocate (s : Heap) (pBlock : Nat) : Heap :=
  if pBlock = 0 then s
  else
    let h := (pBlock + 2 ^ 32 - sizeofHeader) % 2 ^ 32
    if magicAt s.mem h ≠ BLOCK_MAGIC then s
    else
      match (List.finRange 7).find? fun i => sizeAt s.mem h = bucketSize i with
      | none => s
      | some i =>
        { s with
          mem := setNext s.mem h (s.free_list i)
          free_list := Function.update s.free_list i h }

/-! ## The machine -/

/-- What happens to the heap: a call of the allocator, or a byte is stored. -/
inductive Op where
  | allocate (size : BitVec 32)
  | deallocate (pBlock : Nat)
  | store (a : Nat) (v : BitVec 8)

/-- A pointer is given back that the allocator returned before, once or more than
once. A byte is stored anywhere but in the header of a block. -/
def step (s : Heap) : Op → Option Heap
  | .allocate size => some (kernel_allocate s size).1
  | .deallocate p =>
    if p = 0 ∨ ∃ h ∈ s.blocks, p = h + sizeofHeader then some (kernel_deallocate s p) else none
  | .store a v =>
    if ∀ h ∈ s.blocks, a < h ∨ h + sizeofHeader ≤ a then
      some { s with mem := Function.update s.mem a v }
    else none

/-! ## The fields after a write -/

variable {m : Mem} {h k v : Nat}

/-- Two headers do not meet. -/
def Apart (h k : Nat) : Prop := h + sizeofHeader ≤ k ∨ k + sizeofHeader ≤ h

theorem Apart.symm (ha : Apart h k) : Apart k h := Or.symm ha

theorem sizeAt_setNext (hk : k = h ∨ Apart h k) : sizeAt (setNext m h v) k = sizeAt m k := by
  apply read32_write32_of_apart
  unfold Apart sizeofHeader at hk
  omega

theorem nextAt_setNext_self (hv : v < 2 ^ 32) : nextAt (setNext m h v) h = v := read32_write32 hv

theorem nextAt_setNext_apart (hk : Apart h k) : nextAt (setNext m h v) k = nextAt m k := by
  apply read32_write32_of_apart
  unfold Apart sizeofHeader at hk
  omega

theorem sizeAt_setHeader_self (hv : v < 2 ^ 32) : sizeAt (setHeader m h v) h = v :=
  read32_write32 hv

theorem sizeAt_setHeader_apart (hk : Apart h k) : sizeAt (setHeader m h v) k = sizeAt m k := by
  unfold Apart sizeofHeader at hk
  unfold sizeAt setHeader
  rw [read32_write32_of_apart (by omega), read32_write32_of_apart (by omega)]

theorem magicAt_setNext (hk : k = h ∨ Apart h k) : magicAt (setNext m h v) k = magicAt m k := by
  apply read32_write32_of_apart
  unfold Apart sizeofHeader at hk
  omega

theorem magicAt_setHeader_self : magicAt (setHeader m h v) h = BLOCK_MAGIC := by
  unfold magicAt setHeader
  rw [read32_write32_of_apart (by omega)]
  exact read32_write32 (by decide)

theorem magicAt_setHeader_apart (hk : Apart h k) :
    magicAt (setHeader m h v) k = magicAt m k := by
  unfold Apart sizeofHeader at hk
  unfold magicAt setHeader
  rw [read32_write32_of_apart (by omega), read32_write32_of_apart (by omega)]

theorem nextAt_setHeader_apart (hk : Apart h k) : nextAt (setHeader m h v) k = nextAt m k := by
  unfold Apart sizeofHeader at hk
  unfold nextAt setHeader
  rw [read32_write32_of_apart (by omega), read32_write32_of_apart (by omega)]

/-! ## What a call can do -/

theorem bucketFor_some {size : Nat} {i : Fin 7} (h : bucketFor size = some i) :
    size ≤ bucketSize i := by
  have := List.find?_some h
  simpa using this

theorem bucketSize_le (i : Fin 7) : bucketSize i ≤ 0x80000 := by
  revert i
  decide

variable {s : Heap}

/-- A new block is refused, or it is carved where the last one ends. -/
theorem carve_cases (s : Heap) (size : Nat) :
    s.carve size = ({ s with s_nBlockReserve := 0 }, 0) ∨
      s.s_pNextBlock < (s.s_pNextBlock + stride size) % 2 ^ 32 ∧
      (s.s_pNextBlock + stride size) % 2 ^ 32 ≤ s.roomEnd ∧
      s.carve size =
        Heap.give { s with
          s_pNextBlock := (s.s_pNextBlock + stride size) % 2 ^ 32
          mem := setHeader s.mem s.s_pNextBlock size
          blocks := s.blocks ++ [s.s_pNextBlock] } s.s_pNextBlock := by
  unfold Heap.carve
  dsimp only
  split
  · exact .inl rfl
  · rename_i hc
    obtain ⟨hlt, hroom⟩ := not_or.mp hc
    exact .inr ⟨Nat.lt_of_not_le hlt, Nat.le_of_not_lt hroom, rfl⟩

/-- A request takes the first block of a free list, or a new one is carved for it. -/
theorem kernel_allocate_cases (s : Heap) (size : BitVec 32) :
    (∃ i, size.toNat ≤ bucketSize i ∧ s.free_list i ≠ 0 ∧
      kernel_allocate s size =
        Heap.give { s with
          free_list := Function.update s.free_list i (nextAt s.mem (s.free_list i)) }
          (s.free_list i)) ∨
    ∃ z, size.toNat ≤ z ∧ (z = size.toNat ∨ ∃ i, z = bucketSize i) ∧
      kernel_allocate s size = s.carve z := by
  unfold kernel_allocate
  rcases hb : bucketFor size.toNat with _ | i
  · exact .inr ⟨size.toNat, le_refl _, .inl rfl, rfl⟩
  · have hle := bucketFor_some hb
    dsimp only
    split
    · rename_i hc
      exact .inl ⟨i, hle, hc.1, rfl⟩
    · exact .inr ⟨bucketSize i, hle, .inr ⟨i, rfl⟩, rfl⟩

/-- A block that is given back is left alone, or it goes in front of the free list
of its size. -/
theorem kernel_deallocate_cases {h : Nat} (hh : h < 2 ^ 32) :
    kernel_deallocate s (h + sizeofHeader) = s ∨
      ∃ i, sizeAt s.mem h = bucketSize i ∧
        kernel_deallocate s (h + sizeofHeader) =
          { s with
            mem := setNext s.mem h (s.free_list i)
            free_list := Function.update s.free_list i h } := by
  have hback : (h + sizeofHeader + 2 ^ 32 - sizeofHeader) % 2 ^ 32 = h := by omega
  unfold kernel_deallocate
  dsimp only
  rw [hback]
  split
  · exact .inl rfl
  · split
    · exact .inl rfl
    · split
      · exact .inl rfl
      · rename_i i hi
        have hz : sizeAt s.mem h = bucketSize i := by simpa using List.find?_some hi
        exact .inr ⟨i, hz, rfl⟩

end rpi_wifi.kernel_alloc
