-- A channel of the DMA controller: `dma_start` and `dma_wait` in the order in which `emmcio`
-- calls them, access by access, with the engine and the interrupt of the channel between
-- the accesses. The engine reads its control block from the memory, by bus addresses.
import RpiWifi.Memory
import RpiWifi.Runs

namespace rpi_wifi.dma

open runs memory

abbrev Word := BitVec 32

/-! ## Control blocks -/

/-- The bits of the control and status register that are used. -/
def BCM2835_DMA_ACTIVE : Word := 1 <<< 0

def BCM2835_DMA_END : Word := 1 <<< 1

def BCM2835_DMA_INT : Word := 1 <<< 2

def BCM2835_DMA_RESET : Word := 1 <<< 31

/-- The bits of the transfer information. -/
def BCM2835_DMA_INT_EN : Word := 1 <<< 0

def BCM2835_DMA_D_INC : Word := 1 <<< 4

def BCM2835_DMA_D_DREQ : Word := 1 <<< 6

def BCM2835_DMA_S_INC : Word := 1 <<< 8

def BCM2835_DMA_S_DREQ : Word := 1 <<< 10

def PERMAP_SHIFT : Nat := 16

def PMEM_TO_DMA (x : Word) : Word := x ||| 0xC0000000

def PIO_TO_DMA (x : Word) : Word := x - 0x3F000000 + 0x7E000000

inductive DMA_DIR where
  | DEV_TO_MEM
  | MEM_TO_DEV
  | MEM_TO_MEM
  deriving DecidableEq

/-- What `dma_start` is called with, behind the channel. -/
structure Request where
  dev : Word
  dir : DMA_DIR
  src : Word
  dst : Word
  len : Word
  deriving DecidableEq

/-- The words of `bcm2835_dma_cb` that are written. -/
structure bcm2835_dma_cb where
  info : Word
  src : Word
  dst : Word
  length : Word
  stride : Word
  next : Word
  deriving DecidableEq

/-- The control block of a request. -/
def controlBlock (r : Request) : bcm2835_dma_cb :=
  let (transfer_info, src_addr, dest_addr) := match r.dir with
    | .DEV_TO_MEM =>
      (BCM2835_DMA_S_DREQ ||| BCM2835_DMA_D_INC, PIO_TO_DMA r.src, PMEM_TO_DMA r.dst)
    | .MEM_TO_DEV =>
      (BCM2835_DMA_D_DREQ ||| BCM2835_DMA_S_INC, PMEM_TO_DMA r.src, PIO_TO_DMA r.dst)
    | .MEM_TO_MEM =>
      (BCM2835_DMA_S_INC ||| BCM2835_DMA_D_INC, PMEM_TO_DMA r.src, PMEM_TO_DMA r.dst)
  { info := transfer_info ||| r.dev <<< PERMAP_SHIFT ||| BCM2835_DMA_INT_EN
    src := src_addr
    dst := dest_addr
    length := r.len
    stride := 0
    next := 0 }

def bcm2835_dma_cb.words (b : bcm2835_dma_cb) : List Word :=
  [b.info, b.src, b.dst, b.length, b.stride, b.next]

def CB_ALIGN : Nat := 32

/-- Where `init_channel` puts the control block in its allocation. -/
def blockAddress (p : Word) : Word :=
  (p + BitVec.ofNat 32 CB_ALIGN) &&& ~~~(BitVec.ofNat 32 CB_ALIGN - 1)

/-! ## What the engine makes of a control block -/

/-- One side of a transfer: where it begins, whether the address goes on with each unit, and
whether the device paces it. -/
structure Side where
  address : Nat
  increments : Bool
  paced : Bool
  deriving DecidableEq

structure Move where
  source : Side
  destination : Side
  device : Nat
  length : Nat
  deriving DecidableEq

/-- The physical address behind a bus address: the registers of the peripherals, or the
memory past the caches. -/
def physical (bus : Word) : Option Nat :=
  if 0x7E000000 ≤ bus.toNat ∧ bus.toNat < 0x7F000000 then
    some (bus.toNat - 0x7E000000 + 0x3F000000)
  else if 0xC0000000 ≤ bus.toNat then some (bus.toNat - 0xC0000000)
  else none

/-- The transfer that a control block describes. -/
def bcm2835_dma_cb.move (b : bcm2835_dma_cb) : Option Move := do
  let src ← physical b.src
  let dst ← physical b.dst
  return {
    source := ⟨src, b.info.getLsbD 8, b.info.getLsbD 10⟩
    destination := ⟨dst, b.info.getLsbD 4, b.info.getLsbD 6⟩
    device := (b.info >>> 16 &&& 0x1F).toNat
    length := b.length.toNat }

/-- The transfer that is asked for: addresses in the memory go on, a device has one address
and paces its side. -/
def Request.move (r : Request) : Move where
  source := ⟨r.src.toNat, r.dir ≠ .DEV_TO_MEM, r.dir = .DEV_TO_MEM⟩
  destination := ⟨r.dst.toNat, r.dir ≠ .MEM_TO_DEV, r.dir = .MEM_TO_DEV⟩
  device := r.dev.toNat
  length := r.len.toNat

def inMemory (a : Word) : Prop := a.toNat < 0x3F000000

def inPeripherals (a : Word) : Prop := 0x3F000000 ≤ a.toNat ∧ a.toNat < 0x40000000

instance (a : Word) : Decidable (inMemory a) := inferInstanceAs (Decidable (_ < _))

instance (a : Word) : Decidable (inPeripherals a) := inferInstanceAs (Decidable (_ ∧ _))

/-- The pointers are what the direction says, and the number of the device is one. -/
structure Request.Valid (r : Request) : Prop where
  dev : r.dev.toNat < 32
  src : if r.dir = .DEV_TO_MEM then inPeripherals r.src else inMemory r.src
  dst : if r.dir = .MEM_TO_DEV then inPeripherals r.dst else inMemory r.dst

/-! ## The channel -/

inductive dma_channel_status where
  | DMA_NEED_INIT
  | DMA_READY
  | DMA_IN_PROGRESS
  | DMA_END
  deriving DecidableEq

/-- The engine loads its control block when it is started. -/
inductive Engine where
  | idle
  | loading
  | running (b : bcm2835_dma_cb)
  deriving DecidableEq

/-- The next access of the driver, with the request of the call. -/
inductive Place where
  | outside
  /-- `dma_start`: the test of the status -/
  | test (r : Request)
  /-- `init_channel` behind its first write: the channel is enabled and reset -/
  | reset (r : Request)
  /-- the handler is registered, and the control block gets its memory -/
  | allocate (r : Request)
  /-- word `i` of the control block is written -/
  | fill (r : Request) (i : Nat)
  /-- the channel is stopped -/
  | stop (r : Request)
  /-- the error flags are cleared, and the channel gets the address of the control block -/
  | address (r : Request)
  /-- the interrupt is cleared -/
  | acknowledge (r : Request)
  | go (r : Request)
  /-- `dma_wait`: the status is written -/
  | ended (r : Request) (start : Int)
  /-- the register is read -/
  | read (r : Request) (start : Int)
  /-- it is cleared, or the channel is reset -/
  | finish (r : Request) (start : Int) (CS : Word)
  deriving DecidableEq

/-- The channel with its record in `dma`, its registers and engine, the memory with the
control block, where the driver is, the calls so far with the results of `dma_start` and
`dma_wait`, and the transfers that the engine has done. -/
structure Channel where
  channel_status : dma_channel_status
  cb : Option Word
  registered : Bool
  active : Bool
  ended : Bool
  int : Bool
  CONBLK_AD : Word
  engine : Engine
  mem : Mem
  place : Place
  calls : List (Request × Int × Int)
  done : List (Option Move)

/-- `channel_header->CS`. The other bits are masked out by the one test of it. -/
def Channel.CS (c : Channel) : Word :=
  (if c.active then BCM2835_DMA_ACTIVE else 0) ||| (if c.ended then BCM2835_DMA_END else 0) |||
    (if c.int then BCM2835_DMA_INT else 0)

/-- A write to `channel_header->CS`: flags are cleared by a 1, an engine that is stopped keeps
its transfer, and an idle one that is started loads the next. -/
def Channel.writeCS (c : Channel) (v : Word) : Channel :=
  if v.getLsbD 31 then { c with active := false, ended := false, int := false, engine := .idle }
  else { c with
    active := v.getLsbD 0
    ended := c.ended && !v.getLsbD 1
    int := c.int && !v.getLsbD 2
    engine := if v.getLsbD 0 = true ∧ c.engine = .idle then .loading else c.engine }

/-- The words of a control block in the memory. -/
def loadBlock (m : Mem) (a : Nat) : bcm2835_dma_cb where
  info := BitVec.ofNat 32 (read32 m a)
  src := BitVec.ofNat 32 (read32 m (a + 4))
  dst := BitVec.ofNat 32 (read32 m (a + 8))
  length := BitVec.ofNat 32 (read32 m (a + 12))
  stride := BitVec.ofNat 32 (read32 m (a + 16))
  next := BitVec.ofNat 32 (read32 m (a + 20))

inductive Step where
  /-- `emmcio` calls `dma_start`, and `dma_wait` behind it. -/
  | call (r : Request)
  | driver
  /-- The engine loads its control block, and ends its transfer. -/
  | load
  | complete
  /-- The interrupt is handled. -/
  | dma_irq_clearer
  /-- Other code writes to the memory. -/
  | store (a : Nat) (v : BitVec 8)

/-- The next access of the driver, where `kernel_allocate` gives `p`. -/
def Channel.driver (p : Word) (c : Channel) : Option Channel :=
  match c.place with
  | .outside => none
  | .test r =>
    match c.channel_status with
    | .DMA_READY | .DMA_IN_PROGRESS => some { c with place := .ended r (-1) }
    | .DMA_NEED_INIT => some { c with channel_status := .DMA_READY, place := .reset r }
    | .DMA_END => some { c with place := .fill r 0 }
  | .reset r => some { c.writeCS BCM2835_DMA_RESET with place := .allocate r }
  | .allocate r =>
    some { c with registered := true, cb := some (blockAddress p), place := .fill r 0 }
  | .fill r i =>
    c.cb.map fun cb =>
      match (controlBlock r).words[i]? with
      | some w => { c with
          mem := write32 c.mem (cb.toNat + 4 * i) w.toNat
          place := .fill r (i + 1) }
      | none => { c with place := .stop r }
  | .stop r => some { c.writeCS 0 with place := .address r }
  | .address r =>
    c.cb.map fun cb => { c with CONBLK_AD := PMEM_TO_DMA cb, place := .acknowledge r }
  | .acknowledge r => some { c.writeCS BCM2835_DMA_INT with place := .go r }
  | .go r => some { c.writeCS BCM2835_DMA_ACTIVE with place := .ended r 0 }
  | .ended r start => some { c with channel_status := .DMA_END, place := .read r start }
  | .read r start => some { c with place := .finish r start c.CS }
  | .finish r start CS =>
    if CS &&& (BCM2835_DMA_ACTIVE ||| BCM2835_DMA_END ||| BCM2835_DMA_INT) ≠ BCM2835_DMA_END then
      some { c.writeCS BCM2835_DMA_RESET with
        place := .outside, calls := c.calls ++ [(r, start, -1)] }
    else
      some { c.writeCS (BCM2835_DMA_END ||| BCM2835_DMA_INT) with
        place := .outside, calls := c.calls ++ [(r, start, 0)] }

def Channel.step (p : Word) (c : Channel) : Step → Option Channel
  | .call r => if c.place = .outside then some { c with place := .test r } else none
  | .driver => c.driver p
  | .load =>
    if c.active = true ∧ c.engine = .loading then
      (physical c.CONBLK_AD).map fun a => { c with engine := .running (loadBlock c.mem a) }
    else none
  | .complete =>
    match c.active, c.engine with
    | true, .running b => some { c with
        active := false
        ended := true
        int := c.int || b.info.getLsbD 0
        engine := .idle
        done := c.done ++ [b.move] }
    | _, _ => none
  | .dma_irq_clearer =>
    if c.int = true ∧ c.registered = true then
      some { c.writeCS BCM2835_DMA_INT with channel_status := .DMA_END }
    else none
  | .store a v =>
    -- The allocation belongs to the channel.
    if c.registered = true ∧ p.toNat ≤ a ∧ a < p.toNat + 2 * CB_ALIGN then none
    else some { c with mem := Function.update c.mem a v }

/-- The channel before its first use: it is not active and has no transfer, whatever its flags,
its address register and the memory hold. -/
def Channel.initial (ended int : Bool) (conblk : Word) (mem : Mem) : Channel where
  channel_status := .DMA_NEED_INIT
  cb := none
  registered := false
  active := false
  ended := ended
  int := int
  CONBLK_AD := conblk
  engine := .idle
  mem := mem
  place := .outside
  calls := []
  done := []

end rpi_wifi.dma
