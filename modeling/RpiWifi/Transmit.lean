-- The transmit path. Any number of tasks call `send_frame`, which puts a frame
-- on `edev->oq` and runs `txstart`; `rproc` runs `txstart` too. Between `qget`
-- and `packetrw` a frame is in the hands of a `txstart`. `tlock` is the mutex of
-- `lock.c`, with its test and its store as two steps, so a task can be switched
-- out between them; `qpass` and `qget` run without a switch.
import RpiWifi.Runs
import RpiWifi.Mutex
import RpiWifi.BlockQueue
import RpiWifi.FrameCodec

namespace rpi_wifi.transmit

open runs exclusion etherif
open mutex (Mutex mutex_init)
open ether4330 (Byte Packet dataPacket dataOffset doffsetOf)

/-! ## The machine -/

/-- The part of the `Ctlr` that `txstart` works on. -/
structure Ctlr where
  txseq : Byte
  txwindow : Byte
  fcmask : Byte
  tlock : Mutex
  pktlock : Mutex

/-- Where a task stands: the next thing it does. -/
inductive Pc where
  | outside
  -- send_frame, with the Block that holds the frame
  | passing (b : Addr)
  -- txstart
  | tlockSchedule
  | tlockTest
  | tlockStore
  | window
  | get
  | build (b : Addr)
  | nullBlock
  | pktSchedule (b : Addr)
  | pktTest (b : Addr)
  | pktStore (b : Addr)
  | write (b : Addr)
  | count (b : Addr)
  | pktRelease (b : Addr)
  | pktReleased (b : Addr)
  | free (b : Addr)
  | tlockRelease
  | tlockReleased
  deriving DecidableEq

/-- Who has a Block: the allocator, the queue, or a task. -/
inductive Owner (T : Type) where
  | allocator
  | queue
  | task (w : T)
  deriving DecidableEq

/-- The fields from `owner` on are a history that the code does not keep: who has each
Block, the frames given to `qpass`, the packets given to `packetrw`, and how often `qget`
ended in an error branch. -/
structure State (T : Type) where
  ctl : Ctlr
  oq : Queue
  block : Blocks
  pc : T → Pc
  owner : Addr → Owner T
  passed : List Packet
  wire : List Packet
  errors : Nat

/-- One step of the machine: a task calls `send_frame`, `rproc` calls `txstart`, a task
runs on to its next place, or `wlcmd`, `wlreadpkt` and `rproc` change what they share with
the transmit path. -/
inductive Act (T : Type) where
  | send_frame (w : T) (b : Addr) (rp : Nat) (front frame : Packet)
  | txstart (w : T)
  | run (w : T)
  | others (txseq txwindow fcmask : Byte) (pktlock : Mutex)

/-- The window is used up, or the chip asked to wait: `fcmask & 1 << 2`. -/
def Ctlr.closed (ctl : Ctlr) : Bool := ctl.txseq == ctl.txwindow || ctl.fcmask &&& 4 != 0

/-- What `txstart` writes over the first `off + 4` bytes of the Block, after `padblock`. `rp`
is the address from before `padblock`. -/
def putHeaders (mem : Blocks) (b : Addr) (rp : Nat) (txseq : Byte) : Blocks :=
  Function.update mem b { mem b with
    bytes := dataPacket rp ((mem b).bytes.drop (dataOffset rp + 4)) txseq }

section

variable {T : Type} [DecidableEq T]

def State.goto (s : State T) (w : T) (pc : Pc) : State T :=
  { s with pc := Function.update s.pc w pc }

def State.give (s : State T) (b : Addr) (o : Owner T) : State T :=
  { s with owner := Function.update s.owner b o }

def State.setTlock (s : State T) (v : Int) : State T :=
  { s with ctl := { s.ctl with tlock := { s.ctl.tlock with lock := v } } }

def State.setPktlock (s : State T) (v : Int) : State T :=
  { s with ctl := { s.ctl with pktlock := { s.ctl.pktlock with lock := v } } }

/-- `send_frame` has passed the frame of `b` on, and calls `transmit`. -/
def pass (s : State T) (w : T) (b : Addr) : State T :=
  let r := qpass s.block s.oq b
  ({ s with block := r.1, oq := r.2, passed := s.passed ++ [(s.block b).bytes] }.give b .queue).goto
    w .tlockSchedule

/-- `b = qget(edev->oq); if (b == 0) break;` -/
def get (s : State T) (w : T) : State T :=
  let r := qget s.block s.oq
  let s := { s with oq := r.1, errors := s.errors + r.2.isError.toNat }
  if r.2.result = NULL then s.goto w .tlockRelease
  else (s.give r.2.result (.task w)).goto w (.build r.2.result)

/-- `padblock` and the headers. -/
def build (s : State T) (w : T) (b : Addr) : State T :=
  match padblock s.block b (dataOffset (s.block b).rp + 4) with
  | none => s.goto w .nullBlock
  | some mem =>
    { s with block := putHeaders mem b (s.block b).rp s.ctl.txseq }.goto w (.pktSchedule b)

/-- The task runs on to its next access. Behind a NULL of `padblock` there is no step. -/
def runTask (s : State T) (w : T) : Option (State T) :=
  match s.pc w with
  | .outside => none
  | .passing b => some (pass s w b)
  | .tlockSchedule => some (s.goto w .tlockTest)
  | .tlockTest => some (s.goto w (if s.ctl.tlock.lock = 1 then .tlockSchedule else .tlockStore))
  | .tlockStore => some ((s.setTlock 1).goto w .window)
  | .window => some (s.goto w (if s.ctl.closed then .tlockRelease else .get))
  | .get => some (get s w)
  | .build b => some (build s w b)
  | .nullBlock => none
  | .pktSchedule b => some (s.goto w (.pktTest b))
  | .pktTest b => some (s.goto w (if s.ctl.pktlock.lock = 1 then .pktSchedule b else .pktStore b))
  | .pktStore b => some ((s.setPktlock 1).goto w (.write b))
  | .write b => some ({ s with wire := s.wire ++ [(s.block b).bytes] }.goto w (.count b))
  | .count b =>
    some ({ s with ctl := { s.ctl with txseq := s.ctl.txseq + 1 } }.goto w (.pktRelease b))
  | .pktRelease b => some ((s.setPktlock 0).goto w (.pktReleased b))
  | .pktReleased b => some (s.goto w (.free b))
  | .free b => some ((s.give b .allocator).goto w .window)
  | .tlockRelease => some ((s.setTlock 0).goto w .tlockReleased)
  | .tlockReleased => some (s.goto w .outside)

/-- `allocb` and `memcpy` of `send_frame`: the allocator hands out a Block, with
`maxhdrsize` bytes in front of the frame. -/
def fill (s : State T) (w : T) (b : Addr) (block : Block) : State T :=
  ({ s with block := Function.update s.block b block }.give b (.task w)).goto w (.passing b)

def step (s : State T) : Act T → Option (State T)
  | .send_frame w b rp front frame =>
    if s.pc w = .outside ∧ b ≠ NULL ∧ s.owner b = .allocator ∧ front.length = maxhdrsize then
      some (fill s w b ⟨NULL, rp, front, frame⟩)
    else none
  | .txstart w => if s.pc w = .outside then some (s.goto w .tlockSchedule) else none
  | .run w => runTask s w
  | .others txseq txwindow fcmask pktlock =>
    some { s with ctl := { s.ctl with txseq, txwindow, fcmask, pktlock } }

/-- The queue is cleared by `initialize` and the mutexes are initialised; no task has
called anything yet. -/
def start (T : Type) (txseq txwindow fcmask : Byte) (block : Blocks) : State T where
  ctl := ⟨txseq, txwindow, fcmask, mutex_init, mutex_init⟩
  oq := ⟨NULL, NULL, 0⟩
  block := block
  pc := fun _ => .outside
  owner := fun _ => .allocator
  passed := []
  wire := []
  errors := 0

/-! ## Order -/

/-- The frame of a packet, as the chip finds it behind the BDC header. -/
def payload (p : Packet) : Packet := p.drop (doffsetOf p + 4)

/-- The frame that a `txstart` has taken from the queue and not written yet. -/
def inHand (mem : Blocks) : Pc → Option Packet
  | .build b => some (mem b).bytes
  | .pktSchedule b | .pktTest b | .pktStore b | .write b => some (payload (mem b).bytes)
  | _ => none

/-- The frames written, the frame in hand and the frames of the queue are the frames
that were passed, in their order. -/
structure InOrder (s : State T) : Prop where
  order : ∃ held l, Holds (fun w => inHand s.block (s.pc w)) held ∧ s.oq.Lists s.block l ∧
    s.wire.map payload ++ held ++ l.map (fun b => (s.block b).bytes) = s.passed
  no_error : s.errors = 0
  no_null : ∀ w, s.pc w ≠ .nullBlock

/-- A task that sets `tlock` finds it clear, as it was at its test. -/
def StoresFree (s : State T) : Act T → Prop
  | .run w => s.pc w = .tlockStore → s.ctl.tlock.lock ≠ 1
  | _ => True

instance (s : State T) (a : Act T) : Decidable (StoresFree s a) :=
  match a with
  | .run _ => inferInstanceAs (Decidable (_ → _))
  | .send_frame _ _ _ _ _ | .txstart _ | .others _ _ _ _ => isTrue trivial

end

end rpi_wifi.transmit
