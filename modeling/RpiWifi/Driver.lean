-- The wifi driver as a machine of tasks: any number of tasks that call
-- `send_frame` and `wlcmd`, and the task `rproc` that reads what the chip
-- sends. One step of a task runs from one place where the code touches the
-- shared `Ctlr` to the next, and a switch of tasks can fall between any two:
-- also between the test of a mutex and the store that sets it.
import RpiWifi.Runs
import RpiWifi.Packets

namespace rpi_wifi.ether4330

/-! ## Blocks and queues -/

/-- A Block of `etherif`: `ptr` is the address of the record, `rp` the address
of its first unread byte, `headroom` the bytes from `buf` to `rp`, and
`bytes` what stands from `rp` to `wp`. -/
structure Block where
  ptr : Nat
  rp : Nat
  headroom : Nat
  bytes : Packet
  deriving DecidableEq

/-- `padblock`: the block starts `size` bytes earlier. There is no result when
the buffer has no room in front of `rp`. -/
def padblock (b : Block) (size : Nat) : Option Block :=
  if size = 0 ∨ b.headroom < size then none
  else some { b with rp := b.rp - size, headroom := b.headroom - size }

/-- `FRAME_BUFFER_SIZE` of a queue entry. -/
def FRAME_BUFFER_SIZE : Nat := 1600

/-- `enqueue_nqueue`: a length of 0, or one past the buffer of an entry, is refused. -/
def enqueue_nqueue (q : List Packet) (buffer : Packet) (nLength : BitVec 32) : List Packet :=
  if nLength = 0 ∨ FRAME_BUFFER_SIZE < nLength.toNat then q
  else q ++ [buffer.take nLength.toNat]

/-! ## Events -/

inductive Status where
  | Disconnected
  | Connecting
  | Connected
  deriving DecidableEq

/-- What the registered event handler is called with. -/
inductive EtherEvent where
  | deauth
  | mic_error (group : Bool) (addr : Packet)
  deriving DecidableEq

/-- The part of the `Ctlr` that events change, with the calls of the event
handler and the queue of scan results. `edev` says that the attach is over. -/
structure Link where
  edev : Bool
  joinstatus : BitVec 32
  status : Status
  bssid : Packet
  evhndlr : Bool
  calls : List EtherEvent
  scan_results_queue : List Packet
  deriving DecidableEq

def linkdown (ctl : Link) : Link :=
  if ctl.edev = false ∨ ctl.status ≠ .Connected then ctl else { ctl with status := .Disconnected }

def callevhndlr (ctl : Link) (e : EtherEvent) : Link :=
  if ctl.evhndlr then { ctl with calls := ctl.calls ++ [e] } else ctl

/-- `case 0` of `bcmevent`, E_SET_SSID. -/
def setSsidEvent (ctl : Link) (p : Packet) : Link :=
  { ctl with bssid := (p.drop 24).take Eaddrlen, joinstatus := 1 + nhgetl (p.drop 8) }

/-- `bcmevent`, on the bytes behind the BDC header. -/
def bcmevent (ctl : Link) (whole : Packet) : Link :=
  if whole.length < ETHERHDRSIZE + 10 + 46 then ctl
  else
    let p := whole.drop (ETHERHDRSIZE + 10)
    let flags := nhgets (p.drop 2)
    match (nhgets (p.drop 6)).toNat with
    | 19 => if nhgetl (p.drop 8) = 0 then ctl else setSsidEvent ctl p
    | 0 => setSsidEvent ctl p
    | 5 => callevhndlr (linkdown ctl) .deauth
    | 6 => callevhndlr (linkdown ctl) .deauth
    | 16 => if flags &&& 1 ≠ 0 then ctl else callevhndlr (linkdown ctl) .deauth
    | 12 => callevhndlr (linkdown ctl) .deauth
    | 17 => callevhndlr ctl (.mic_error (flags &&& 4 != 0) ((p.drop 24).take Eaddrlen))
    | 69 => { ctl with
        scan_results_queue := enqueue_nqueue ctl.scan_results_queue (p.drop 48)
          (BitVec.ofNat 32 p.length - 48) }
    | _ => ctl

/-! ## The tasks -/

/-- A task of the driver: the reader, or one of the tasks that send. -/
inductive Who (T : Type) where
  | rproc
  | task (t : T)
  deriving DecidableEq, Fintype

/-- Where a task stands: the next thing it does. -/
inductive Pc where
  | idle
  -- txstart
  | txTlock
  | txTset
  | txTest
  | txGet
  | txBuild (b : Block)
  | txPktlock (b : Block) (p : Packet)
  | txPset (b : Block) (p : Packet)
  | txWrite (b : Block) (p : Packet)
  | txSeq (b : Block)
  | txUnpkt (b : Block)
  | txUntlock
  -- wlcmd, with the packet it built
  | cmdLock (c : Request)
  | cmdSet (c : Request)
  | cmdPktlock (c : Request)
  | cmdPset (c : Request)
  | cmdEncode (c : Request)
  | cmdWrite (p : Packet)
  | cmdSeq (p : Packet)
  | cmdUnpkt (p : Packet)
  | cmdSleep (p : Packet)
  | cmdTake (p : Packet)
  | cmdClear (p : Packet) (b : Block)
  | cmdFree (p : Packet) (b : Block)
  | cmdUnlock
  -- rproc and wlreadpkt
  | rTop
  | rAlloc
  | rPktlock (b : Block)
  | rPset (b : Block)
  | rHeader (b : Block)
  | rBody (b : Block) (header : Packet)
  | rUnpkt (b : Option Block)
  | rIntwait
  | rWindow (b : Block)
  | rSwitch (b : Block)
  | rStore (b : Block)
  | rFree (b : Block)
  deriving DecidableEq

/-- The shared state of the driver. A mutex that is set has the task that set
it last; `mutex_acquire` tests it and sets it in two steps. The fields from `wire` on are a history
that the code does not keep: the packets handed to `packetrw(1, ...)`, the
Blocks of `wlreadpkt` that nobody has freed, and the packets sent since the
last window update with the credit that the update granted. -/
structure State (T : Type) where
  reqid : BitVec 16
  fcmask : Byte
  txwindow : Byte
  txseq : Byte
  rsp : Option Block
  link : Link
  cmdlock : Option (Who T)
  pktlock : Option (Who T)
  tlock : Option (Who T)
  oq : List Block
  frame_receive_queue : List Packet
  flowstart : Bool
  pc : Who T → Pc
  wire : List Packet
  blocks : List Nat
  credit : Nat
  sent : Nat

/-- One step of the machine. A sender starts a call, the chip answers the
reader, or a task runs on to its next place. -/
inductive Act (T : Type) where
  | send_frame (t : T) (b : Block)
  | wlcmd (t : T) (c : Request)
  | alloc (ptr rp : Nat)
  | header (h : Packet)
  | body (d : Packet)
  | run (w : Who T)

/-- `fcmask & 1 << 2`. -/
def fcBlocked (fcmask : Byte) : Bool := fcmask &&& 4 != 0

/-- The tests of `txstart`: the window is used up, or the chip asked to wait. -/
def blocked (txseq txwindow fcmask : Byte) : Bool := txseq == txwindow || fcBlocked fcmask

/-- The credit that a window gives to a sender at `txseq`. -/
def creditOf (txwindow txseq : Byte) : Nat := (txwindow - txseq).toNat

/-- The bytes that `packetrw(0, ...)` asks the chip for. -/
def ROUND (s sz : Nat) : Nat := (s + (sz - 1)) / sz * sz

section

variable {T : Type} [DecidableEq T]

def State.goto (s : State T) (w : Who T) (pc : Pc) : State T :=
  { s with pc := Function.update s.pc w pc }

/-- The window update of `rproc`. -/
def updateWindow (s : State T) (p : Packet) : State T :=
  let start := (windowOf p != s.txwindow && s.txseq == s.txwindow) ||
    (fcmaskOf p != s.fcmask && !fcBlocked (fcmaskOf p))
  { s with
    flowstart := s.flowstart || start
    txwindow := windowOf p
    fcmask := fcmaskOf p
    credit := if windowOf p = s.txwindow then s.credit else creditOf (windowOf p) s.txseq
    sent := if windowOf p = s.txwindow then s.sent else 0 }

/-- A packet goes to the chip. -/
def packetrw (s : State T) (p : Packet) : State T :=
  { s with wire := s.wire ++ [p], sent := s.sent + 1 }

/-- `freeb` of a Block that `wlreadpkt` allocated. -/
def freeb (s : State T) (b : Block) : State T := { s with blocks := s.blocks.erase b.ptr }

/-- A task runs on from the place it stands at. A mutex that is held, a queue
that `padblock` cannot use and an empty `rsp` behind `sleep` give no step: the
task waits, or the code goes on with a null pointer. A mutex that is clear is
set with the next step of the task, whoever has set it in between. -/
def runTask (s : State T) (w : Who T) : Option (State T) :=
  match s.pc w with
  | .idle => none
  | .txTlock => if s.tlock = none then some (s.goto w .txTset) else none
  | .txTset => some ({ s with tlock := some w }.goto w .txTest)
  | .txTest =>
    some (s.goto w (if blocked s.txseq s.txwindow s.fcmask then .txUntlock else .txGet))
  | .txGet =>
    match s.oq with
    | [] => some (s.goto w .txUntlock)
    | b :: rest => some ({ s with oq := rest }.goto w (.txBuild b))
  | .txBuild b =>
    (padblock b (b.rp % 4 + sizeofSdpcm + 4)).map fun b' =>
      s.goto w (.txPktlock b' (dataPacket b.rp b.bytes s.txseq))
  | .txPktlock b p => if s.pktlock = none then some (s.goto w (.txPset b p)) else none
  | .txPset b p => some ({ s with pktlock := some w }.goto w (.txWrite b p))
  | .txWrite b p => some ((packetrw s p).goto w (.txSeq b))
  | .txSeq b => some ({ s with txseq := s.txseq + 1 }.goto w (.txUnpkt b))
  | .txUnpkt _ => some ({ s with pktlock := none }.goto w .txTest)
  | .txUntlock =>
    some ({ s with tlock := none }.goto w (if w = Who.rproc then .rAlloc else .idle))
  | .cmdLock c => if s.cmdlock = none then some (s.goto w (.cmdSet c)) else none
  | .cmdSet c => some ({ s with cmdlock := some w }.goto w (.cmdPktlock c))
  | .cmdPktlock c => if s.pktlock = none then some (s.goto w (.cmdPset c)) else none
  | .cmdPset c => some ({ s with pktlock := some w }.goto w (.cmdEncode c))
  | .cmdEncode c =>
    some ({ s with reqid := s.reqid + 1 }.goto w
      (.cmdWrite (commandPacket c s.txseq (s.reqid + 1))))
  | .cmdWrite p => some ((packetrw s p).goto w (.cmdSeq p))
  | .cmdSeq p => some ({ s with txseq := s.txseq + 1 }.goto w (.cmdUnpkt p))
  | .cmdUnpkt p => some ({ s with pktlock := none }.goto w (.cmdSleep p))
  | .cmdSleep p => some (s.goto w (if s.rsp.isSome then .cmdTake p else .cmdSleep p))
  | .cmdTake p => s.rsp.map fun b => s.goto w (.cmdClear p b)
  | .cmdClear p b => some ({ s with rsp := none }.goto w (.cmdFree p b))
  | .cmdFree _ b => some ((freeb s b).goto w .cmdUnlock)
  | .cmdUnlock => some ({ s with cmdlock := none }.goto w .idle)
  | .rTop =>
    if s.flowstart then some ({ s with flowstart := false }.goto w .txTlock)
    else some (s.goto w .rAlloc)
  | .rAlloc => none
  | .rPktlock b => if s.pktlock = none then some (s.goto w (.rPset b)) else none
  | .rPset b => some ({ s with pktlock := some w }.goto w (.rHeader b))
  | .rHeader _ => none
  | .rBody _ _ => none
  | .rUnpkt b =>
    some ({ s with pktlock := none }.goto w (match b with | some b => .rWindow b | none => .rIntwait))
  | .rIntwait => some (s.goto w .rTop)
  | .rWindow b => some ((updateWindow s b.bytes).goto w (.rSwitch b))
  | .rSwitch b =>
    match deliver b.bytes s.reqid with
    | .reply => some (s.goto w (.rStore b))
    | .event p => some ({ s with link := bcmevent s.link p }.goto w (.rFree b))
    | .frame p =>
      -- `etheriq` copies the frame, and `continue` skips the `freeb` below the switch.
      some ({ s with
        frame_receive_queue :=
          enqueue_nqueue s.frame_receive_queue p (BitVec.ofNat 32 p.length) }.goto w .rTop)
    | .drop => some (s.goto w (.rFree b))
  | .rStore b => some ({ s with rsp := some b }.goto w .rTop)
  | .rFree b => some ((freeb s b).goto w .rTop)

/-- The chip hands `wlreadpkt` a header of 12 bytes. An empty header ends the
read, and a bad one is read again. -/
def readHeader (s : State T) (b : Block) (h : Packet) : Option (State T) :=
  if h.length ≠ sizeofSdpcm then none
  else if lenOf h = 0 then some ((freeb s b).goto .rproc (.rUnpkt none))
  else if headerOk h then some (s.goto .rproc (.rBody b h))
  else some (s.goto .rproc (.rHeader b))

/-- The chip hands over the bytes behind the header, in words. The bytes past
`len` stay behind `wp`. -/
def readBody (s : State T) (b : Block) (h d : Packet) : Option (State T) :=
  if d.length ≠ ROUND (lenOf h - sizeofSdpcm) 4 then none
  else
    let bytes := h ++ d.take (lenOf h - sizeofSdpcm)
    some (s.goto .rproc (.rUnpkt (some { b with bytes })))

def step (s : State T) : Act T → Option (State T)
  | .send_frame t b =>
    -- `qpass`, and then `transmit` calls `txstart`.
    if s.pc (.task t) = .idle then some ({ s with oq := s.oq ++ [b] }.goto (.task t) .txTlock)
    else none
  | .wlcmd t c =>
    if s.pc (.task t) = .idle then some (s.goto (.task t) (.cmdLock c)) else none
  | .alloc ptr rp =>
    -- `allocb` gives a Block that is not in use, with 64 bytes in front of `rp`.
    if s.pc .rproc = .rAlloc ∧ ptr ∉ s.blocks then
      some ({ s with blocks := ptr :: s.blocks }.goto .rproc
        (.rPktlock { ptr, rp, headroom := 64, bytes := [] }))
    else none
  | .header h =>
    match s.pc .rproc with
    | .rHeader b => readHeader s b h
    | _ => none
  | .body d =>
    match s.pc .rproc with
    | .rBody b h => readBody s b h d
    | _ => none
  | .run w => runTask s w

/-- The driver when `etherbcmpnp` has cleared the `Ctlr` and the tasks stand
at their start. The flow control bytes are free. -/
def start (T : Type) (txseq txwindow fcmask : Byte) (link : Link) : State T where
  reqid := 0
  fcmask := fcmask
  txwindow := txwindow
  txseq := txseq
  rsp := none
  link := link
  cmdlock := none
  pktlock := none
  tlock := none
  oq := []
  frame_receive_queue := []
  flowstart := false
  pc := fun w => match w with | .rproc => .rTop | .task _ => .idle
  wire := []
  blocks := []
  credit := creditOf txwindow txseq
  sent := 0

end

end rpi_wifi.ether4330
