-- The driver of the SD host. `mmc_read_blocks` sends a command and copies the blocks out
-- of the FIFO, and each function on the way gives its error to the one that called it. The
-- values of the registers come from outside, in the order in which the driver reads them.
import RpiWifi.Conversations

namespace rpi_wifi.sdhost

open conversations

abbrev Word := BitVec 32

/-! ## The registers -/

inductive Reg where
  | SDCMD
  | SDARG
  | SDRSP0
  | SDRSP1
  | SDRSP2
  | SDRSP3
  | SDHSTS
  | SDEDM
  | SDHBCT
  | SDHBLC
  | SDDATA
  deriving DecidableEq

def HC_CMD_ENABLE : Word := 0x8000

def SDCMD_FAIL_FLAG : Word := 0x4000

def SDCMD_BUSYWAIT : Word := 0x800

def SDCMD_NO_RESPONSE : Word := 0x400

def SDCMD_LONG_RESPONSE : Word := 0x200

def SDCMD_READ_CMD : Word := 0x40

def SDCMD_CMD_MASK : Word := 0x3f

def SDHSTS_BUSY_IRPT : Word := 0x400

def SDHSTS_REW_TIME_OUT : Word := 0x80

def SDHSTS_CMD_TIME_OUT : Word := 0x40

def SDHSTS_CRC16_ERROR : Word := 0x20

def SDHSTS_CRC7_ERROR : Word := 0x10

def SDHSTS_FIFO_ERROR : Word := 0x08

def SDHSTS_TRANSFER_ERROR_MASK : Word :=
  SDHSTS_CRC7_ERROR ||| SDHSTS_CRC16_ERROR ||| SDHSTS_REW_TIME_OUT ||| SDHSTS_FIFO_ERROR

def SDHSTS_ERROR_MASK : Word := SDHSTS_CMD_TIME_OUT ||| SDHSTS_TRANSFER_ERROR_MASK

def SDEDM_FORCE_DATA_MODE : Word := 1 <<< 19

def SDEDM_FIFO_FILL_SHIFT : Nat := 4

def SDEDM_FIFO_FILL_MASK : Word := 0x1f

def edm_fifo_fill (edm : Word) : Word := edm >>> SDEDM_FIFO_FILL_SHIFT &&& SDEDM_FIFO_FILL_MASK

def SDEDM_FSM_MASK : Word := 0xf

def SDEDM_FSM_IDENTMODE : Word := 0x0

def SDEDM_FSM_DATAMODE : Word := 0x1

def SDEDM_FSM_READDATA : Word := 0x2

def SDEDM_FSM_READWAIT : Word := 0x4

def SDEDM_FSM_READCRC : Word := 0x5

def SDEDM_FSM_WRITESTART1 : Word := 0xa

def SDDATA_FIFO_PIO_BURST : Nat := 8

/-! ## The host and the events -/

def MMC_RSP_PRESENT : Word := 1 <<< 0

def MMC_RSP_136 : Word := 1 <<< 1

def MMC_RSP_CRC : Word := 1 <<< 2

def MMC_RSP_BUSY : Word := 1 <<< 3

def MMC_RSP_OPCODE : Word := 1 <<< 4

def MMC_RSP_R1 : Word := MMC_RSP_PRESENT ||| MMC_RSP_CRC ||| MMC_RSP_OPCODE

def MMC_RSP_R1b : Word := MMC_RSP_PRESENT ||| MMC_RSP_CRC ||| MMC_RSP_OPCODE ||| MMC_RSP_BUSY

def MMC_CMD_STOP_TRANSMISSION : Word := 12

def MMC_CMD_READ_SINGLE_BLOCK : Word := 17

def MMC_CMD_READ_MULTIPLE_BLOCK : Word := 18

structure mmc_cmd where
  cmdidx : Word
  resp_type : Word
  cmdarg : Word
  deriving DecidableEq

/-- The data of a command, with the flag `MMC_DATA_READ`: every data of the driver has it. -/
structure mmc_data where
  dest : Nat
  blocks : Word
  blocksize : Word
  deriving DecidableEq

/-- The state of the host between two calls. A pointer is what it points to, so `data` after a
call that failed is what that call left behind. -/
structure sdhost_state where
  cmd : Option mmc_cmd
  use_busy : Bool
  data : Option mmc_data
  blocks : Word

/-- What the driver does, and what it sees of errors: a register is written, a word is stored
at an address, a command is sent or finished with an error code, the flags of `SDHSTS` are
checked, the copy of a block ends with words left, and the wait for the end of the transfer
ends with an error code. -/
inductive Event where
  | writel (val : Word) (reg : Reg)
  | store (a : Nat) (w : Word)
  | sent (ret : Int)
  | finished (ret : Int) (response : List Word)
  | status (hsts : Word)
  | copied (left : Nat)
  | completed (ret : Int)
  deriving DecidableEq

abbrev Sd (α : Type) := Talk Word Event α

/-- The next value, whichever register is read. The values that the driver only prints are
left out. -/
def readl (_ : Reg) : Sd Word := ask

def writel (val : Word) (reg : Reg) : Sd Unit := note (.writel val reg)

/-- A value of `SDHSTS` that is checked for errors. -/
def readStatus : Sd Word := do
  let hsts ← readl .SDHSTS
  note (.status hsts)
  return hsts

/-! ## The FIFO -/

/-- A turn of the loop of `bcm2835_wait_transfer_complete`, after `timediff` of them. -/
def completeTurn (timediff : Nat) : Sd (Nat ⊕ Int) := do
  let edm ← readl .SDEDM
  let fsm := edm &&& SDEDM_FSM_MASK
  if fsm = SDEDM_FSM_IDENTMODE ∨ fsm = SDEDM_FSM_DATAMODE then return .inr 0
  else if fsm = SDEDM_FSM_READWAIT ∨ fsm = SDEDM_FSM_WRITESTART1 ∨ fsm = SDEDM_FSM_READDATA then
    writel (edm ||| SDEDM_FORCE_DATA_MODE) .SDEDM
    return .inr 0
  else if timediff = 200000 then return .inr (-1)
  else return .inl (timediff + 1)

def bcm2835_wait_transfer_complete : Sd Int := loop completeTurn 0

/-- The words of a burst, from the FIFO to `buf`. -/
def copyBurst : Nat → Nat → Sd Unit
  | 0, _ => return ()
  | words + 1, buf => do
    let w ← readl .SDDATA
    note (.store buf w)
    copyBurst words (buf + 4)

/-- A turn of the loop of `bcm2835_transfer_block_pio`, with `copy_words` words to copy
to `buf`. The loop ends with the words that are left. -/
def copyTurn : Nat × Nat → Sd (Nat × Nat ⊕ Nat)
  | (copy_words, buf) =>
    if copy_words = 0 then return .inr 0
    else do
      let burst_words := min SDDATA_FIFO_PIO_BURST copy_words
      let edm ← readl .SDEDM
      let words := (edm_fifo_fill edm).toNat
      if words < burst_words then
        let fsm_state := edm &&& SDEDM_FSM_MASK
        if fsm_state ≠ SDEDM_FSM_READDATA ∧ fsm_state ≠ SDEDM_FSM_READWAIT ∧
            fsm_state ≠ SDEDM_FSM_READCRC then
          let hsts ← readStatus
          if hsts &&& SDHSTS_ERROR_MASK ≠ 0 then return .inr copy_words
          else return .inl (copy_words, buf)
        else return .inl (copy_words, buf)
      else
        let words := if words > copy_words then copy_words else words
        copyBurst words buf
        return .inl (copy_words - words, buf + 4 * words)

/-- The block goes to `dest`, and `dest` moves behind it. -/
def bcm2835_transfer_block_pio (data : mmc_data) : Sd (Int × mmc_data) := do
  let blksize := data.blocksize.toNat
  if blksize % 4 ≠ 0 then return (-1, data)
  else
    let left ← loop copyTurn (blksize / 4, data.dest)
    note (.copied left)
    return (0, { data with dest := data.dest + blksize })

/-- The error code that `bcm2835_transfer_pio` makes of the flags. -/
def pioCode (sdhsts : Word) : Int :=
  if sdhsts &&& (SDHSTS_CRC16_ERROR ||| SDHSTS_CRC7_ERROR ||| SDHSTS_FIFO_ERROR) ≠ 0 then -1
  else if sdhsts &&& (SDHSTS_CMD_TIME_OUT ||| SDHSTS_REW_TIME_OUT) ≠ 0 then -2
  else 0

def bcm2835_transfer_pio (data : mmc_data) : Sd (Int × mmc_data) := do
  let (ret, data) ← bcm2835_transfer_block_pio data
  if ret ≠ 0 then return (ret, data)
  else
    let sdhsts ← readStatus
    return (pioCode sdhsts, data)

/-! ## The command -/

def bcm2835_prepare_data (host : sdhost_state) (data : Option mmc_data) : Sd sdhost_state :=
  match data with
  | none => return { host with data := none }
  | some d => do
    writel d.blocksize .SDHBCT
    writel d.blocks .SDHBLC
    return { host with data := some d, blocks := d.blocks }

/-- A turn of the loop of `bcm2835_read_wait_sdcmd`, with the counter `timeout`. -/
def waitTurn (timeout : Nat) : Sd (Nat ⊕ Unit) := do
  let sdcmd ← readl .SDCMD
  if sdcmd &&& HC_CMD_ENABLE ≠ 0 ∧ timeout - 1 > 0 then return .inl (timeout - 1)
  else return .inr ()

def bcm2835_read_wait_sdcmd : Sd Word := do
  loop waitTurn 1000
  readl .SDCMD

/-- The command word of `bcm2835_send_command`. -/
def sdcmdOf (cmd : mmc_cmd) (data : Option mmc_data) : Word :=
  let sdcmd := cmd.cmdidx &&& SDCMD_CMD_MASK
  let sdcmd :=
    if cmd.resp_type &&& MMC_RSP_PRESENT = 0 then sdcmd ||| SDCMD_NO_RESPONSE
    else
      let sdcmd :=
        if cmd.resp_type &&& MMC_RSP_136 ≠ 0 then sdcmd ||| SDCMD_LONG_RESPONSE else sdcmd
      if cmd.resp_type &&& MMC_RSP_BUSY ≠ 0 then sdcmd ||| SDCMD_BUSYWAIT else sdcmd
  if data.isSome then sdcmd ||| SDCMD_READ_CMD else sdcmd

/-- The response keeps the card busy. -/
def busyAfter (cmd : mmc_cmd) : Bool :=
  decide (cmd.resp_type &&& MMC_RSP_PRESENT ≠ 0 ∧ cmd.resp_type &&& MMC_RSP_BUSY ≠ 0)

def bcm2835_send_command (host : sdhost_state) (cmd : mmc_cmd) (data : Option mmc_data) :
    Sd (Int × sdhost_state) := do
  if cmd.resp_type &&& MMC_RSP_136 ≠ 0 ∧ cmd.resp_type &&& MMC_RSP_BUSY ≠ 0 then
    return (-1, host)
  else
    let sdcmd ← bcm2835_read_wait_sdcmd
    if sdcmd &&& HC_CMD_ENABLE ≠ 0 then return (-2, host)
    else
      let host := { host with cmd := some cmd }
      -- The flags of an earlier command are cleared, and not checked.
      let sdhsts ← readl .SDHSTS
      if sdhsts &&& SDHSTS_ERROR_MASK ≠ 0 then writel sdhsts .SDHSTS
      writel 0 .SDARG
      let host ← bcm2835_prepare_data host data
      writel cmd.cmdarg .SDARG
      writel (sdcmdOf cmd data ||| HC_CMD_ENABLE) .SDCMD
      return (0, { host with use_busy := busyAfter cmd })

/-- The words of the response that is there. -/
def readResponse (resp_type : Word) : Sd (List Word) := do
  if resp_type &&& MMC_RSP_PRESENT ≠ 0 then
    if resp_type &&& MMC_RSP_136 ≠ 0 then
      let r0 ← readl .SDRSP0
      let r1 ← readl .SDRSP1
      let r2 ← readl .SDRSP2
      let r3 ← readl .SDRSP3
      return [r0, r1, r2, r3]
    else
      let r0 ← readl .SDRSP0
      return [r0]
  else return []

/-- Without a command to finish it has no result. -/
def bcm2835_finish_command (host : sdhost_state) : Sd (Int × sdhost_state) :=
  match host.cmd with
  | none => fun _ => none
  | some cmd => do
    let sdcmd ← bcm2835_read_wait_sdcmd
    if sdcmd &&& HC_CMD_ENABLE ≠ 0 then
      note (.finished (-1) [])
      return (-1, host)
    else if sdcmd &&& SDCMD_FAIL_FLAG ≠ 0 then
      let _ ← readStatus
      note (.finished (-1) [])
      return (-1, host)
    else
      let response ← readResponse cmd.resp_type
      note (.finished 0 response)
      return (0, { host with cmd := none })

/-! ## The transfer -/

def bcm2835_check_cmd_error (host : sdhost_state) (intmask : Word) : Int :=
  if intmask &&& SDHSTS_ERROR_MASK = 0 then 0
  else if host.cmd = none then -1
  else if intmask &&& SDHSTS_CRC7_ERROR ≠ 0 then -2
  else if intmask &&& (SDHSTS_CRC16_ERROR ||| SDHSTS_FIFO_ERROR) ≠ 0 then -2
  else if intmask &&& (SDHSTS_REW_TIME_OUT ||| SDHSTS_CMD_TIME_OUT) ≠ 0 then -3
  else -1

def bcm2835_check_data_error (host : sdhost_state) (intmask : Word) : Int :=
  if host.data = none then 0
  else if intmask &&& SDHSTS_REW_TIME_OUT ≠ 0 then -2
  else if intmask &&& (SDHSTS_CRC16_ERROR ||| SDHSTS_FIFO_ERROR) ≠ 0 then -1
  else 0

/-- The end of the busy signal, which finishes the command. -/
def busyEnd (host : sdhost_state) (intmask : Word) : Sd sdhost_state := do
  if host.use_busy = true ∧ intmask &&& SDHSTS_BUSY_IRPT ≠ 0 then
    writel SDHSTS_BUSY_IRPT .SDHSTS
    let (_, host) ← bcm2835_finish_command { host with use_busy := false }
    return host
  else return host

/-- The wait for the end of the transfer, after its last block. -/
def endData (host : sdhost_state) : Sd (Int × sdhost_state) := do
  let ret ← bcm2835_wait_transfer_complete
  note (.completed ret)
  if ret ≠ 0 then return (ret, host) else return (0, { host with data := none })

/-- The transfer of a block. -/
def transmitData (host : sdhost_state) (data : mmc_data) : Sd (Int × sdhost_state) := do
  let (ret, data) ← bcm2835_transfer_pio data
  let host := { host with data := some data }
  if ret ≠ 0 then return (ret, host)
  else
    let host := { host with blocks := host.blocks - 1 }
    if host.blocks = 0 then endData host else return (0, host)

/-- The part of `bcm2835_transmit` after its checks. -/
def transmitChecked (host : sdhost_state) (intmask : Word) : Sd (Int × sdhost_state) := do
  let host ← busyEnd host intmask
  match host.data with
  | none => return (0, host)
  | some data => transmitData host data

def bcm2835_transmit (host : sdhost_state) : Sd (Int × sdhost_state) := do
  let intmask ← readStatus
  let ret := bcm2835_check_data_error host intmask
  if ret ≠ 0 then return (ret, host)
  else
    let ret := bcm2835_check_cmd_error host intmask
    if ret ≠ 0 then return (ret, host) else transmitChecked host intmask

/-- A turn of the loop of `bcm2835_send_cmd`, with the error code so far. -/
def sendTurn : sdhost_state × Int → Sd (sdhost_state × Int ⊕ Int × sdhost_state)
  | (host, ret) =>
    if host.use_busy = true ∨ host.data.isSome then do
      let (ret, host) ← bcm2835_transmit host
      if ret ≠ 0 then return .inr (ret, host) else return .inl (host, 0)
    else return .inr (ret, host)

def is_power_of_2 (x : Word) : Bool := x &&& (x - 1) = 0

/-- A command that was sent with `ret` is finished, unless it keeps the card busy. -/
def afterSent (ret : Int) (host : sdhost_state) : Sd (Int × sdhost_state) :=
  if ret = 0 ∧ host.use_busy = false then bcm2835_finish_command host else pure (ret, host)

/-- `bcm2835_send_cmd`; no one calls it without a command. -/
def bcm2835_send_cmd (host : sdhost_state) (cmd : mmc_cmd) (data : Option mmc_data) :
    Sd (Int × sdhost_state) := do
  if data.any fun d => !is_power_of_2 d.blocksize then return (-1, host)
  else
    let edm ← readl .SDEDM
    let fsm := edm &&& SDEDM_FSM_MASK
    if fsm ≠ SDEDM_FSM_IDENTMODE ∧ fsm ≠ SDEDM_FSM_DATAMODE ∧
        cmd.cmdidx ≠ MMC_CMD_STOP_TRANSMISSION then
      return (-1, host)
    else
      let (ret, host) ← bcm2835_send_command host cmd data
      note (.sent ret)
      let (ret, host) ← afterSent ret host
      loop sendTurn (host, ret)

/-! ## The read -/

/-- A call of `bcm2835_send_cmd`: what it returned, and what happened in it. -/
structure Call where
  ret : Int
  events : List Event

/-- What `mmc_read_blocks` returns, and its calls of `bcm2835_send_cmd`. -/
structure Reading where
  ret : Bool
  read : Call
  stop : Option Call

/-- The length that the driver of the card gives the blocks of every card. -/
def read_bl_len : Word := 512

/-- The command of `mmc_read_blocks`. -/
def readCmd (high_capacity : Bool) (startBlock numBlocks : Word) : mmc_cmd where
  cmdidx := if numBlocks > 1 then MMC_CMD_READ_MULTIPLE_BLOCK else MMC_CMD_READ_SINGLE_BLOCK
  resp_type := MMC_RSP_R1
  cmdarg := if high_capacity then startBlock else startBlock * read_bl_len

def readData (numBlocks : Word) (dest : Nat) : mmc_data where
  dest := dest
  blocks := numBlocks
  blocksize := read_bl_len

def stopCmd : mmc_cmd where
  cmdidx := MMC_CMD_STOP_TRANSMISSION
  resp_type := MMC_RSP_R1b
  cmdarg := 0

def mmc_read_blocks (host : sdhost_state) (high_capacity : Bool) (startBlock numBlocks : Word)
    (dest : Nat) : Sd (Reading × sdhost_state) := do
  let ((ret, host), events) ← heard (bcm2835_send_cmd host
    (readCmd high_capacity startBlock numBlocks) (some (readData numBlocks dest)))
  let read : Call := ⟨ret, events⟩
  if ret ≠ 0 then return (⟨true, read, none⟩, host)
  else if numBlocks > 1 then
    let ((ret, host), events) ← heard (bcm2835_send_cmd host stopCmd none)
    let stop : Call := ⟨ret, events⟩
    if ret ≠ 0 then return (⟨true, read, some stop⟩, host)
    else return (⟨false, read, some stop⟩, host)
  else return (⟨false, read, none⟩, host)

end rpi_wifi.sdhost
