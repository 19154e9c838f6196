-- A packet queue between tasks. Any number of producers call `enqueue_nqueue`, and
-- one consumer calls `dequeue_nqueue` and `flush_nqueue`. Between `lock` and `unlock`
-- no other task runs; everywhere else a task can be switched out, in the middle of a
-- `memcpy` too, so each access is a step of its own.
import RpiWifi.NetQueue
import RpiWifi.Runs

namespace rpi_wifi.net_queue

open runs

/-! ## The tasks -/

/-- The arguments of `enqueue_nqueue`. -/
structure Call where
  pBuffer : Option Bytes
  nLength : Nat
  pParam : Addr

/-- The next thing that `enqueue_nqueue` does. -/
inductive Place where
  | check
  | prev
  | next
  | length
  | buffer
  | copy (src : Bytes) (i : Nat)
  | param
  | link

structure Producer where
  call : Call
  pEntry : Addr
  place : Place

/-- What `dequeue_nqueue` gives its caller: the bytes in the buffer, the length, and the
parameter where `ppParam` is no null pointer. -/
structure Result where
  bytes : List Byte
  nResult : Nat
  param : Option Addr
  deriving DecidableEq

/-- Where the consumer stands: the next thing it does. -/
inductive Consumer where
  | idle
  -- dequeue_nqueue
  | test (pBuffer : Bytes) (ppParam : Bool)
  | head (pBuffer : Bytes) (ppParam : Bool)
  | length (pBuffer : Bytes) (ppParam : Bool) (pEntry : Addr)
  | copy (pBuffer : Bytes) (ppParam : Bool) (pEntry : Addr) (nResult i : Nat)
  | param (pBuffer : Bytes) (ppParam : Bool) (pEntry : Addr) (nResult : Nat)
  | remove (pEntry : Addr) (r : Result)
  | returning (r : Result)
  -- flush_nqueue
  | flushTest
  | flushLock
  | flushFree (pEntry : Addr)

/-- Who has an entry: the heap, the queue, a task, or nobody, since a rejected call does
not free its entry. -/
inductive Owner (W : Type) where
  | heap
  | queue
  | producer (w : W)
  | consumer
  | lost
  deriving DecidableEq

/-- The fields from `owner` on are a history that the code does not keep: who has each
entry, the packets of the calls in the order in which they were linked, and what left
the queue. -/
structure State (W : Type) where
  mem : Entries
  nqueue : Queue
  producers : W → Option Producer
  consumer : Consumer
  owner : Addr → Owner W
  accepted : List Packet
  taken : List Result

/-- One step of the machine: a task calls one of the functions, or runs on to its next
place, or somebody else writes what nobody has here. `enqueue_nqueue` begins with its
allocation: `pEntry` is what `kernel_allocate` returns, with any content. -/
inductive Act (W : Type) where
  | enqueue_nqueue (w : W) (call : Call) (pEntry : Addr) (content : Entry)
  | dequeue_nqueue (pBuffer : Bytes) (ppParam : Bool)
  | flush_nqueue
  | producer (w : W)
  | consumer
  | others (p : Addr) (content : Entry)

/-- The packet that a call puts into the queue. -/
def Call.packet (call : Call) : Packet where
  bytes := call.pBuffer.elim [] fun src => firstBytes src call.nLength
  length := call.nLength
  param := call.pParam

/-- What a flushed packet is recorded as. -/
def Packet.flushed (k : Packet) : Result := ⟨k.bytes, k.length, some k.param⟩

section

variable {W : Type} [DecidableEq W]

def State.goto (s : State W) (w : W) (e : Option Producer) : State W :=
  { s with producers := Function.update s.producers w e }

def State.give (s : State W) (p : Addr) (o : Owner W) : State W :=
  { s with owner := Function.update s.owner p o }

def State.write (s : State W) (p : Addr) (e : Entry) : State W :=
  { s with mem := Function.update s.mem p e }

/-- `enqueue_nqueue` of the task `w`, from `lock` to its return. -/
def State.link (s : State W) (w : W) (call : Call) (pEntry : Addr) : State W :=
  let r := net_queue.link s.mem s.nqueue pEntry
  ({ s with mem := r.1, nqueue := r.2, accepted := s.accepted ++ [call.packet] }.give
    pEntry .queue).goto w none

/-- One step of `enqueue_nqueue`, behind its allocation. A rejected call returns without
its entry. -/
def runProducer (s : State W) (w : W) : Producer → State W
  | ⟨call, p, .check⟩ =>
    if call.nLength = 0 ∨ call.nLength > FRAME_BUFFER_SIZE then (s.give p .lost).goto w none
    else s.goto w (some ⟨call, p, .prev⟩)
  | ⟨call, p, .prev⟩ =>
    (s.write p { s.mem p with prev := NULL }).goto w (some ⟨call, p, .next⟩)
  | ⟨call, p, .next⟩ =>
    (s.write p { s.mem p with next := NULL }).goto w (some ⟨call, p, .length⟩)
  | ⟨call, p, .length⟩ =>
    (s.write p { s.mem p with nLength := call.nLength }).goto w (some ⟨call, p, .buffer⟩)
  | ⟨call, p, .buffer⟩ =>
    match call.pBuffer with
    | none => (s.give p .lost).goto w none
    | some src => s.goto w (some ⟨call, p, .copy src 0⟩)
  | ⟨call, p, .copy src i⟩ =>
    if i < call.nLength then
      (s.write p { s.mem p with Buffer := Function.update (s.mem p).Buffer i (src i) }).goto w
        (some ⟨call, p, .copy src (i + 1)⟩)
    else s.goto w (some ⟨call, p, .param⟩)
  | ⟨call, p, .param⟩ =>
    (s.write p { s.mem p with pParam := call.pParam }).goto w (some ⟨call, p, .link⟩)
  | ⟨call, p, .link⟩ => s.link w call p

/-- `dequeue_nqueue`, from `lock` to `unlock`, with the values that it returns. -/
def State.remove (s : State W) (pEntry : Addr) (r : Result) : State W :=
  let t := net_queue.unlink s.mem s.nqueue pEntry
  { s with mem := t.1, nqueue := t.2, taken := s.taken ++ [r], consumer := .returning r }.give
    s.nqueue.head .heap

/-- `flush_nqueue`, from `lock` to `unlock`. -/
def State.flush (s : State W) : State W :=
  let p := s.nqueue.head
  let t := net_queue.unlinkHead s.mem s.nqueue
  { s with mem := t.1, nqueue := t.2, taken := s.taken ++ [(packetAt s.mem p).flushed],
           consumer := .flushFree p }.give p .consumer

/-- One step of the consumer. -/
def runConsumer (s : State W) : Option (State W) :=
  match s.consumer with
  | .idle => none
  | .test pBuffer ppParam =>
    some { s with consumer := if s.nqueue.head = NULL then .idle else .head pBuffer ppParam }
  | .head pBuffer ppParam => some { s with consumer := .length pBuffer ppParam s.nqueue.head }
  | .length pBuffer ppParam p =>
    some { s with consumer := .copy pBuffer ppParam p (s.mem p).nLength 0 }
  | .copy pBuffer ppParam p nResult i =>
    if i < nResult then
      let pBuffer := Function.update pBuffer i ((s.mem p).Buffer i)
      some { s with consumer := .copy pBuffer ppParam p nResult (i + 1) }
    else some { s with consumer := .param pBuffer ppParam p nResult }
  | .param pBuffer ppParam p nResult =>
    let param := if ppParam then some (s.mem p).pParam else none
    some { s with consumer := .remove p ⟨firstBytes pBuffer nResult, nResult, param⟩ }
  | .remove p r => some (s.remove p r)
  | .returning _ => some { s with consumer := .idle }
  | .flushTest => some { s with consumer := if s.nqueue.head = NULL then .idle else .flushLock }
  | .flushLock => some s.flush
  | .flushFree p => some ({ s with consumer := .flushTest }.give p .heap)

def step (s : State W) : Act W → Option (State W)
  | .enqueue_nqueue w call p content =>
    if (s.producers w).isNone ∧ p ≠ NULL ∧ s.owner p = .heap then
      some (((s.write p content).give p (.producer w)).goto w (some ⟨call, p, .check⟩))
    else none
  | .dequeue_nqueue pBuffer ppParam =>
    match s.consumer with
    | .idle => some { s with consumer := .test pBuffer ppParam }
    | _ => none
  | .flush_nqueue =>
    match s.consumer with
    | .idle => some { s with consumer := .flushTest }
    | _ => none
  | .producer w => (s.producers w).map (runProducer s w)
  | .consumer => runConsumer s
  | .others p content => if s.owner p = .heap then some (s.write p content) else none

/-- `get_new_net_queue` has returned, and no task has called anything yet. -/
def start (W : Type) (mem : Entries) : State W where
  mem := mem
  nqueue := ⟨NULL, NULL⟩
  producers := fun _ => none
  consumer := .idle
  owner := fun _ => .heap
  accepted := []
  taken := []

/-- `r` is what a caller gets for the packet `k`. -/
structure Returns (k : Packet) (r : Result) : Prop where
  bytes : r.bytes = k.bytes
  nResult : r.nResult = k.length
  param : ∀ a, r.param = some a → a = k.param

end

end rpi_wifi.net_queue
