-- The functions that ask for memory, when it is refused: what they hold, what they follow
-- and how they are left. `allocb` keeps its record when the buffer is refused, and most
-- callers follow the pointer without a test.
import RpiWifi.Holdings
import RpiWifi.BlockPointers
import RpiWifi.DriverLocks
import RpiWifi.HeapLedger
import RpiWifi.SettingsUpload

namespace rpi_wifi.out_of_memory

open holdings kernel_alloc ether4330 ether4330.settings block_pointers driver_locks plibc

variable {H P : Type} [DecidableEq P] (M : Supply H (BitVec 32) P)

/-! ## Blocks -/

/-- A Block, by the addresses of its record and of its buffer. -/
structure Block (P : Type) where
  record : P
  buf : P

/-- `b->wp` points into the buffer. -/
def Block.wp (b : Block P) : Option P := some b.buf

def allocb (size : BitVec 32) : Work H P Lock (Option (Block P)) := do
  match ← ask M sizeofBlock with
  | none => return none
  | some b =>
    let size := size + maxhdrsize
    match ← ask M size with
    | none => return none
    | some buf => return some ⟨b, buf⟩

def freeb (b : Option (Block P)) : Work H P Lock Unit := do
  let b ← follow b
  handBack M (some b.buf)
  handBack M (some b.record)

/-! ## The driver -/

/-- The loop of `wlreadpkt` over the packets that the chip offers: a packet of no length ends
it without a Block. It has no result as long as nothing but bad headers was offered. -/
def readPackets (b : Block P) : List Packet → Work H P Lock (Option (Option (Block P)))
  | [] => return none
  | p :: ps => do
    if lenOf p = 0 then
      freeb M (some b)
      return some none
    else if headerOk p then return some (some b)
    else readPackets b ps

def wlreadpkt (offered : List Packet) : Work H P Lock Ending := do
  let b ← allocb M 2048
  let b ← follow b
  acquireLock .pktlock
  match ← readPackets M b offered with
  | none => return .waiting
  | some _ =>
    releaseLock .pktlock
    return .finished

/-- The size of the packet of a command. -/
def commandSize (write : Bool) (dlen rlen : Int) : BitVec 32 :=
  let tlen := if write then dlen + rlen else max dlen rlen
  BitVec.ofInt 32 (sizeofSdpcm + sizeofCmd + tlen)

/-- `wlcmd`, with the Block of the answer once there is one. The `sleep` ends with it. -/
def wlcmd (write : Bool) (dlen rlen : Int) (rsp : Option (Block P)) : Work H P Lock Ending := do
  match ← allocb M (commandSize write dlen rlen) with
  | none =>
    freeb M none
    return .gaveUp
  | some b =>
    acquireLock .cmdlock
    acquireLock .pktlock
    releaseLock .pktlock
    freeb M (some b)
    match rsp with
    | none => return .waiting
    | some b =>
      freeb M (some b)
      releaseLock .cmdlock
      return .finished

/-- `send_frame`. The Block is the queue's when it was passed on. -/
def send_frame (frame_buffer oq : Option P) (length : BitVec 32) : Work H P Lock Ending := do
  match ← allocb M length with
  | none => return .gaveUp
  | some block =>
    if block.wp = none ∨ frame_buffer = none then return .gaveUp
    else if oq = none then return .gaveUp
    else return .finished

/-- `sizeof(Cmdbuf)`. -/
def sizeofCmdbuf : BitVec 32 := 244

/-- `parsecmd`, up to the text that it stores in the new buffer. -/
def parsecmd : Work H P Lock Ending := do
  let pCmdbuf ← ask M sizeofCmdbuf
  let _ ← follow pCmdbuf
  return .finished

/-! ## The list -/

/-- `sizeof(l_node)`. -/
def sizeofNode : BitVec 32 := 12

/-- `memcpy` follows its destination for each byte. -/
def memcpy (dst : Option P) (size : BitVec 32) : Work H P Lock Unit := do
  if size ≠ 0 then
    let _ ← follow dst

def list_push_back (data_size : BitVec 32) : Work H P Lock Ending := do
  let node ← ask M sizeofNode
  let data ← ask M data_size
  let _ ← follow node
  memcpy data data_size
  return .finished

/-! ## The upload -/

/-- What is read back from the chip, from `off` on. -/
def fetch (readback : BitVec 32 → Byte) (off : BitVec 32) (n : Nat) : List Byte :=
  (List.range n).map fun i => readback (upFrom off i)

/-- The second loop of `upload`. What is read back is stored in `cbuf`. -/
def compareLoop (readback : BitVec 32 → Byte) (f : FileInfo) (ctl : Loader) (cbuf : Option P)
    (s : Upload) : Work H P Lock Bool :=
  let r := read_file_in_buffer f s.buf Uploadsz s.off
  if _h : r.1 = 0 then return true
  else do
    let p := zeroPad r.2 r.1
    let _ ← follow cbuf
    if memcmp (p.1.first p.2) (fetch readback (ctl.rambase + s.off) p.2) ≠ 0 then return false
    else
      compareLoop readback f ctl cbuf
        { s with buf := p.1, n := p.2, off := s.off + BitVec.ofNat 32 p.2 }
termination_by f.size - s.off.toNat
decreasing_by
  have hsize := (read_eq_zero_iff f s.buf Uploadsz s.off).not.mp _h
  have hlt := off_lt _h (read_file_in_buffer f s.buf Uploadsz s.off).2
  omega

/-- The settings are in one piece. -/
def compareConfig (readback : BitVec 32 → Byte) (ctl : Loader) (cbuf : Option P) (s : Upload) :
    Work H P Lock Bool := do
  if s.n ≠ 0 then
    let _ ← follow cbuf
  return memcmp (s.buf.first s.n) (fetch readback (ctl.rambase + s.off) s.n) = 0

/-- The comparison of `upload`. -/
def compare (readback : BitVec 32 → Byte) (f : FileInfo) (ctl : Loader) (isconfig : Bool)
    (cbuf : Option P) (t : Upload) : Work H P Lock Bool :=
  if isconfig then compareConfig readback ctl cbuf t
  else compareLoop readback f ctl cbuf { t with off := 0 }

/-- `upload` behind its requests. A file that differs from what is read back leaves the
function with both buffers. -/
def uploadInto (answer : Answer) (readback : BitVec 32 → Byte) (f : FileInfo) (ctl : Loader)
    (isconfig : Bool) (garbage : Buf) (buf : P) (cbuf : Option P) : Work H P Lock Ending := do
  let t := transferLoop answer f ctl isconfig ⟨ctl.chip, garbage, ctl.resetvec, 0, 0⟩
  if ← compare readback f ctl isconfig cbuf t then
    handBack M (some buf)
    handBack M cbuf
    return .finished
  else return .gaveUp

/-- `upload`, with what the first buffer holds when it is given. -/
def upload (answer : Answer) (readback : BitVec 32 → Byte) (files : Files) (ctl : Loader)
    (file : CString) (isconfig : Bool) (garbage : Buf) : Work H P Lock Ending := do
  match findfirmware files file with
  | none => return .gaveUp
  | some f =>
    match ← ask M (BitVec.ofNat 32 Uploadsz) with
    | none => return .gaveUp
    | some buf =>
      -- The test behind the second request is of `buf` again.
      let cbuf ← ask M (BitVec.ofNat 32 Uploadsz)
      uploadInto M answer readback f ctl isconfig garbage buf cbuf

/-! ## The calls -/

/-- A call of a function that asks for memory. -/
inductive Call (P : Type) where
  | wlreadpkt (offered : List Packet)
  | wlcmd (write : Bool) (dlen rlen : Int) (rsp : Option (Block P))
  | send_frame (frame_buffer oq : Option P) (length : BitVec 32)
  | parsecmd
  | list_push_back (data_size : BitVec 32)
  | upload (answer : Answer) (readback : BitVec 32 → Byte) (files : Files) (ctl : Loader)
      (file : CString) (isconfig : Bool) (garbage : Buf)

def Call.task : Call P → Work H P Lock Ending
  | .wlreadpkt offered => out_of_memory.wlreadpkt M offered
  | .wlcmd write dlen rlen rsp => out_of_memory.wlcmd M write dlen rlen rsp
  | .send_frame frame_buffer oq length => out_of_memory.send_frame M frame_buffer oq length
  | .parsecmd => out_of_memory.parsecmd M
  | .list_push_back data_size => out_of_memory.list_push_back M data_size
  | .upload answer readback files ctl file isconfig garbage =>
    out_of_memory.upload M answer readback files ctl file isconfig garbage

/-! ## The heap of the kernel -/

/-- `kernel_allocate` and `kernel_deallocate`. -/
def kernelSupply : Supply Arena (BitVec 32) Nat where
  request s size :=
    let r := kernel_allocate s.heap size
    (s.returned r size.toNat, if r.2 = 0 then none else some r.2)
  takeBack s p :=
    { heap := kernel_deallocate s.heap p, live := s.live.eraseP fun b => b.ptr = p }

/-- The free lists of the two heaps are the same. -/
def SameLists (s t : Heap) : Prop :=
  ∀ i l, chains.Chain (nextAt s.mem) 0 (s.free_list i) l ↔
    chains.Chain (nextAt t.mem) 0 (t.free_list i) l

/-- When `allocb` gives no Block, the blocks in use and the free lists are what they were. -/
def AllOrNothing (s : Arena) (size : BitVec 32) : Prop :=
  ∀ w, (allocb kernelSupply size).run ⟨s, [], []⟩ = some (none, w) →
    w.heap.live = s.live ∧ SameLists s.heap w.heap.heap

/-! ## The conditions -/

/-- A record is given, and behind it there is no buffer. -/
def Stranded (h : H) (size : BitVec 32) : Prop :=
  M.Grants h sizeofBlock ∧ ¬ M.Grants (M.after h sizeofBlock) (size + maxhdrsize)

/-- The record and the buffer are given. -/
def BlockGiven (h : H) (size : BitVec 32) : Prop :=
  M.Grants h sizeofBlock ∧ M.Grants (M.after h sizeofBlock) (size + maxhdrsize)

/-- The chip gives back these bytes. -/
def ReadsBack (readback : BitVec 32 → Byte) (off : BitVec 32) (bytes : List Byte) : Prop :=
  fetch readback off bytes.length = bytes

instance (readback : BitVec 32 → Byte) (off : BitVec 32) (bytes : List Byte) :
    Decidable (ReadsBack readback off bytes) := inferInstanceAs (Decidable (_ = _))

/-- Where a file that is not empty goes in the memory of the chip, and its bytes there. -/
def uploaded (f : FileInfo) (ctl : Loader) (isconfig : Bool) : BitVec 32 × List Byte :=
  if isconfig then
    let c := condenseText (f.data.take Uploadsz)
    (settingsBase ctl c.length, c)
  else (ctl.rambase, pad4 f.data)

/-- What the call needs of the memory and of its arguments. -/
def Call.Survives (h : H) : Call P → Prop
  | .wlreadpkt _ => BlockGiven M h 2048
  | .wlcmd write dlen rlen _ => BlockGiven M h (commandSize write dlen rlen)
  | .send_frame frame_buffer oq length =>
    ¬ Stranded M h length ∧ (BlockGiven M h length → frame_buffer ≠ none ∧ oq ≠ none)
  | .parsecmd => M.Grants h sizeofCmdbuf
  | .list_push_back data_size =>
    M.Grants h sizeofNode ∧ (data_size = 0 ∨ M.Grants (M.after h sizeofNode) data_size)
  | .upload _ readback files ctl file isconfig _ =>
    ∀ f, findfirmware files file = some f → M.Grants h (BitVec.ofNat 32 Uploadsz) →
      f.data = [] ∨ M.Grants (M.after h (BitVec.ofNat 32 Uploadsz)) (BitVec.ofNat 32 Uploadsz) ∧
        ReadsBack readback (uploaded f ctl isconfig).1 (uploaded f ctl isconfig).2

/-- The heap has a free record or room for one, and behind it no buffer of the size. -/
def StrandsBlock (s : Heap) (size : BitVec 32) : Prop :=
  let request := (size + maxhdrsize).toNat
  let next := s.s_pNextBlock + if s.free_list 0 = 0 then stride (bucketSize 0) else 0
  let full := fun z => (next + stride z) % 2 ^ 32 ≤ next ∨ s.roomEnd < (next + stride z) % 2 ^ 32
  ¬ s.refuses sizeofBlock ∧ full (recorded request) ∧ ∀ i, bucketFor request = some i →
    if i = 0 then s.free_list 0 = 0 ∨ nextAt s.mem (s.free_list 0) = 0 else s.free_list i = 0

instance (s : Heap) (size : BitVec 32) : Decidable (StrandsBlock s size) := by
  unfold StrandsBlock
  infer_instance

end rpi_wifi.out_of_memory
