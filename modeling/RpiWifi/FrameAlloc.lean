-- The frame allocator: a bitmap behind the kernel image with one bit for each
-- frame of 4096 bytes, and searches through it word by word that start at the
-- word of the last change. The bitmap is part of the memory, and what the
-- searches read past its end is part of the memory too.
import RpiWifi.Runs
import RpiWifi.Memory
import RpiWifi.RunSearch

namespace rpi_wifi.frame_alloc

open memory

def PAGE_SIZE : Nat := 4096

/-- Frames that were handed out and not given back: the address that was returned,
the number of frames and the alignment they were asked for with. -/
structure Range where
  ptr : Nat
  count : Nat
  align : Nat
  deriving DecidableEq

/-- The first frame of the range. -/
def Range.frame (r : Range) : Nat := r.ptr / PAGE_SIZE

/-- `frame_manager_state_t` and the memory. `live` are the ranges in use, which
the code does not keep. -/
structure FrameManager where
  mem : Mem
  total_memory : Nat
  total_frames : Nat
  kernel_usage : Nat
  frame_manager_usage : Nat
  available_frames : Nat
  frame_bits_array : Nat
  next_idx : Nat
  live : List Range

/-! ## The bitmap -/

def FRAME_BYTE_IDX (frame_idx : Nat) : Nat := frame_idx / 32

def FRAME_BIT_OFFSET (frame_idx : Nat) : Nat := frame_idx % 32

/-- The address of `frame_bits_array[i]`. -/
def FrameManager.wordAddr (s : FrameManager) (i : Nat) : Nat :=
  (s.frame_bits_array + 4 * i) % 2 ^ 32

def FrameManager.word (s : FrameManager) (i : Nat) : BitVec 32 :=
  BitVec.ofNat 32 (read32 s.mem (s.wordAddr i))

def FrameManager.setWord (s : FrameManager) (i : Nat) (v : BitVec 32) : FrameManager :=
  { s with mem := write32 s.mem (s.wordAddr i) v.toNat }

/-- The bit of the frame is clear. -/
def FrameManager.isFree (s : FrameManager) (frame : Nat) : Bool :=
  !(s.word (FRAME_BYTE_IDX frame)).getLsbD (FRAME_BIT_OFFSET frame)

def mark_as_used (s : FrameManager) (frame_idx : Nat) : FrameManager :=
  let i := FRAME_BYTE_IDX frame_idx
  { s.setWord i (s.word i ||| 1#32 <<< FRAME_BIT_OFFSET frame_idx) with
    available_frames := (s.available_frames + 2 ^ 32 - 1) % 2 ^ 32 }

def mark_as_free (s : FrameManager) (frame_idx : Nat) : FrameManager :=
  let i := FRAME_BYTE_IDX frame_idx
  { s.setWord i (s.word i &&& ~~~ (1#32 <<< FRAME_BIT_OFFSET frame_idx)) with
    available_frames := (s.available_frames + 1) % 2 ^ 32 }

def bzero (s : FrameManager) (a n : Nat) : FrameManager := { s with mem := zero s.mem a n }

/-- The frames of the kernel and of the bitmap, as the code counts them. -/
def FrameManager.reserved (s : FrameManager) : Nat := s.kernel_usage + s.frame_manager_usage

/-- `init_frame_manager`, with the memory size that the mailbox gave and the
address of `__kernel_end`. It clears one byte for each word of the bitmap. -/
def init_frame_manager (mem : Mem) (total_memory kernel_end : BitVec 32) : FrameManager :=
  let total_frames := total_memory.toNat / PAGE_SIZE
  let page_array_len := total_frames / 32
  let s : FrameManager :=
    { mem
      total_memory := total_memory.toNat
      total_frames
      kernel_usage := kernel_end.toNat / PAGE_SIZE
      frame_manager_usage :=
        page_array_len / PAGE_SIZE + if page_array_len % PAGE_SIZE ≠ 0 then 1 else 0
      available_frames := total_frames
      frame_bits_array := kernel_end.toNat
      next_idx := 0
      live := [] }
  let s := bzero s s.frame_bits_array page_array_len
  let kernel_pages := s.reserved
  { (List.range kernel_pages).foldl mark_as_used s with
    next_idx := FRAME_BYTE_IDX kernel_pages + 1 }

/-! ## The searches -/

/-- The frames whose bits the loops look at, in order: those of the words from
`start` up to `stop`, and of these only the words with a bit that is clear. -/
def FrameManager.searched (s : FrameManager) (start stop : Nat) : List Nat :=
  (List.range' (32 * start) (32 * (stop - start))).filter fun frame =>
    s.word (FRAME_BYTE_IDX frame) != 0xFFFFFFFF#32

/-- `((byte_idx * 32) + offset) * PAGE_SIZE`, in 32 bits. -/
def addressOf (frame : Nat) : Nat := frame * PAGE_SIZE % 2 ^ 32

def find_free_frame_in_rage (s : FrameManager) (start stop : Nat) : Nat :=
  (((s.searched start stop).find? s.isFree).map addressOf).getD 0

/-- The end of the second search, `next_idx - 1` in 32 bits. -/
def FrameManager.beforeNext (s : FrameManager) : Nat := (s.next_idx + 2 ^ 32 - 1) % 2 ^ 32

def find_free_frame (s : FrameManager) : Nat :=
  let free_frame_address := find_free_frame_in_rage s s.next_idx s.total_frames
  if free_frame_address = 0 ∧ s.available_frames ≠ 0 then
    find_free_frame_in_rage s s.reserved s.beforeNext
  else free_frame_address

def is_aligned (mult_of_page_size alignment : Nat) : Bool :=
  if alignment = PAGE_SIZE ∨ mult_of_page_size = 0 then true
  else mult_of_page_size % (alignment / PAGE_SIZE) == 0

/-- The loops of `find_contiguous_frames_in_ranges` over the frames they look at,
with `start_address` and `count` as they stand. -/
def scanFrames (s : FrameManager) (num_of_frames alignment : Nat) : List Nat → Nat → Nat → Nat
  | [], _, _ => 0
  | frame :: frames, start_address, count =>
    if s.isFree frame then
      let start_address :=
        if start_address = 0 ∧ is_aligned (frame % 2 ^ 32) alignment then addressOf frame
        else start_address
      let count := if start_address ≠ 0 then count + 1 else count
      if count = num_of_frames then start_address
      else scanFrames s num_of_frames alignment frames start_address count
    else
      let count := if start_address ≠ 0 then 0 else count
      let start_address := 0
      if count = num_of_frames then start_address
      else scanFrames s num_of_frames alignment frames start_address count

def find_contiguous_frames_in_ranges (s : FrameManager) (start stop num_of_frames alignment : Nat) :
    Nat :=
  scanFrames s num_of_frames alignment (s.searched start stop) 0 0

def find_contiguous_frames (s : FrameManager) (num_of_frames alignment : Nat) : Nat :=
  let frame_address :=
    find_contiguous_frames_in_ranges s s.next_idx s.total_frames num_of_frames alignment
  if frame_address = 0 ∧ num_of_frames ≤ s.available_frames then
    find_contiguous_frames_in_ranges s s.reserved s.beforeNext num_of_frames alignment
  else frame_address

/-! ## Allocation -/

/-- A frame is cleared and marked. -/
def claimFrame (s : FrameManager) (base_address : Nat) : FrameManager :=
  mark_as_used (bzero s base_address PAGE_SIZE) (base_address / PAGE_SIZE)

/-- The loop of `alloc_cont_aligned_frames` over the first `n` frames. -/
def claimFrames (s : FrameManager) (frame_addr : Nat) : Nat → FrameManager
  | 0 => s
  | n + 1 => claimFrame (claimFrames s frame_addr n) ((frame_addr + n * PAGE_SIZE) % 2 ^ 32)

/-- The hint goes to the word of the last frame, and the range into the history. -/
def FrameManager.handOut (s : FrameManager) (frame_addr num_of_frames align : Nat) :
    FrameManager :=
  { s with
    next_idx := FRAME_BYTE_IDX ((frame_addr + (num_of_frames - 1) * PAGE_SIZE) % 2 ^ 32 / PAGE_SIZE)
    live := ⟨frame_addr, num_of_frames, align⟩ :: s.live }

/-- `alloc_frame`, with the state and the address that it returns. -/
def alloc_frame (s : FrameManager) : FrameManager × Nat :=
  if s.available_frames = 0 then (s, 0)
  else
    let free_frame := find_free_frame s
    if free_frame = 0 then (s, 0)
    else ((claimFrame s free_frame).handOut free_frame 1 PAGE_SIZE, free_frame)

def alloc_cont_aligned_frames (s : FrameManager) (num_of_frames align : Nat) :
    FrameManager × Nat :=
  if s.available_frames < num_of_frames then (s, 0)
  else
    let frame_addr := find_contiguous_frames s num_of_frames align
    if frame_addr = 0 then (s, 0)
    else
      ((claimFrames s frame_addr num_of_frames).handOut frame_addr num_of_frames align, frame_addr)

def alloc_contiguous_frames (s : FrameManager) (num_of_frames : Nat) : FrameManager × Nat :=
  alloc_cont_aligned_frames s num_of_frames PAGE_SIZE

def dealloc_frame (s : FrameManager) (ptr : Nat) : FrameManager :=
  let frame_idx := ptr / PAGE_SIZE
  if frame_idx ≤ s.reserved then s
  else mark_as_free { s with next_idx := FRAME_BYTE_IDX frame_idx } frame_idx

/-- `dealloc_cont_frames`: the last frame first. -/
def dealloc_cont_frames (s : FrameManager) (ptr : Nat) : Nat → FrameManager
  | 0 => s
  | n + 1 => dealloc_cont_frames (dealloc_frame s ((ptr + n * PAGE_SIZE) % 2 ^ 32)) ptr n

/-! ## The machine -/

/-- What happens to the frames: a call of the allocator, a range that was
returned is given back, or a byte outside the bitmap takes any other value. -/
inductive Op where
  | alloc_frame
  | alloc_cont_aligned_frames (num_of_frames align : Nat)
  | dealloc (r : Range)
  | store (a : Nat) (v : BitVec 8)

/-- The words of the bitmap. -/
def FrameManager.words (s : FrameManager) : Nat := s.total_frames / 32

def step (s : FrameManager) : Op → Option FrameManager
  | .alloc_frame => some (alloc_frame s).1
  | .alloc_cont_aligned_frames n align =>
    -- The arguments are of 32 bits, and the alignment is a multiple of the page size.
    if n < 2 ^ 32 ∧ align < 2 ^ 32 ∧ 0 < align ∧ align % PAGE_SIZE = 0 then
      some (alloc_cont_aligned_frames s n align).1
    else none
  | .dealloc r =>
    if r ∈ s.live then
      some { dealloc_cont_frames s r.ptr r.count with live := s.live.erase r }
    else none
  | .store a v =>
    if s.frame_bits_array ≤ a ∧ a < s.frame_bits_array + 4 * s.words then none
    else some { s with mem := Function.update s.mem a v }

end rpi_wifi.frame_alloc
