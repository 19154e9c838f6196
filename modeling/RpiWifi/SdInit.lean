-- `use_sdhost` brings up the SD card: it resets the card, asks for its version, polls it until
-- it is powered up, takes its address and selects it. Its commands go through
-- `bcm2835_send_cmd`.
import RpiWifi.Dialogues
import RpiWifi.SdCard

namespace rpi_wifi.sdcard

open conversations dialogues sdhost

/-! ## The commands of `use_sdhost` -/

/-- The part of `struct mmc` that `use_sdhost` writes. -/
structure mmc where
  high_capacity : Bool
  ocr : Word
  rca : BitVec 16
  read_bl_len : Word

/-- `cmd.response`, which is left as it is by a command without a response. -/
abbrev Response := Nat → Word

/-- The first words are replaced by those that were read. -/
def respond (response : Response) (ws : List Word) : Response := fun i => ws.getD i (response i)

abbrev Sending (α : Type) := Dialogue mmc_cmd (Int × List Word) α

/-- A call of `bcm2835_send_cmd` without data: what it returns, and `cmd.response`. -/
def send (cmdidx cmdarg resp_type : Word) (response : Response) : Sending (Int × Response) := do
  let (ret, ws) ← question { cmdidx, cmdarg, resp_type }
  return (ret, respond response ws)

def timeout_count : Nat := 100

/-- The polls that are left. Without a result the card has not powered up. -/
def powerUp (t : Word) : Nat → Response → Sending (Option (Int × Response))
  | 0, _ => return none
  | count + 1, response => do
    let (_, response) ← send MMC_CMD_APP_CMD 0 MMC_RSP_NONE response
    let (is_success, response) ← send SD_CMD_APP_SEND_OP_COND t MMC_RSP_R3 response
    if response 0 &&& (1 : Word) <<< 31 ≠ 0 then return some (is_success, response)
    else powerUp t count response

/-- The loop that asks for the CID again. -/
def sendCidAgain : Nat → Response → Sending Response
  | 0, response => return response
  | retries + 1, response => do
    let (is_success, response) ← send MMC_CMD_ALL_SEND_CID 0 MMC_RSP_R2 response
    if is_success = 0 ∧ response 0 ≠ 0 then return response
    else sendCidAgain retries response

/-- With `retries = 6` the loop has seven turns. -/
def sendCid (response : Response) : Sending Response := do
  let (_, response) ← send MMC_CMD_ALL_SEND_CID 0 MMC_RSP_R2 response
  if response 0 = 0 then sendCidAgain 7 response else return response

/-- The address in the upper half of a word. -/
def rcaArg (rca : BitVec 16) : Word := rca.setWidth 32 <<< 16

/-- The card has its address: its CSD is read, it is selected, and the length of its blocks is
set. What these return is printed. -/
def selectCard (m : mmc) (response : Response) : Sending (Int × mmc) := do
  let (_, response) ← send MMC_CMD_SEND_CSD (rcaArg m.rca) MMC_RSP_R2 response
  let (_, response) ← send MMC_CMD_SELECT_CARD (rcaArg m.rca) MMC_RSP_R1 response
  let _ ← send MMC_CMD_SET_BLOCKLEN 512 MMC_RSP_R1 response
  return (0, { m with read_bl_len := sdhost.read_bl_len })

/-- The card has power. -/
def nameCard (m : mmc) (response : Response) : Sending (Int × mmc) := do
  let response ← sendCid response
  let (is_success, response) ←
    send SD_CMD_SEND_RELATIVE_ADDR ((1 : Word) <<< 16) MMC_RSP_R6 response
  if is_success = 0 then
    selectCard { m with rca := (response 0 >>> 16 &&& 0xffff).setWidth 16 } response
  else return (-1, m)

/-- The argument of `SD_CMD_SEND_IF_COND`. -/
def ifCondArg (voltages : Word) : Word :=
  (if voltages &&& 0xff8000 ≠ 0 then 1 else 0 : Word) <<< 8 ||| 0xaa

/-- What is read of `mmc` before it is set is `mmc->cfg->voltages`, here `voltages`: `mmc->cfg`
is a null pointer. `sd_ctrl` is set when 0 is returned. -/
def use_sdhost (m : mmc) (voltages : Word) : Sending (Int × mmc) := do
  let (_, response) ← send MMC_CMD_GO_IDLE_STATE 0 MMC_RSP_NONE fun _ => 0
  let (_, response) ← send SD_CMD_SEND_IF_COND (ifCondArg voltages) MMC_RSP_R7 response
  let t : Word := (1 : Word) <<< 21 ||| if response 0 = 0x1aa then (1 : Word) <<< 30 else 0
  match ← powerUp t timeout_count response with
  | none => return (-1, m)
  | some (is_success, response) =>
    let m := if is_success = 0 then { m with ocr := response 0 } else m
    let m :=
      if response 0 &&& (1 : Word) <<< 30 = (1 : Word) <<< 30 then
        { m with rca := 1, high_capacity := true }
      else m
    nameCard m response

/-! ## The driver under them -/

/-- The response of a call, which is in its events. -/
def responseOf (es : List Event) : List Word :=
  es.flatMap fun
    | .finished _ response => response
    | _ => []

/-- A command without data: what the call returns, and the words of its response. -/
def sendCmd (cmd : mmc_cmd) (host : sdhost_state) : Sd ((Int × List Word) × sdhost_state) := do
  let ((ret, host), es) ← heard (bcm2835_send_cmd host cmd none)
  return ((ret, responseOf es), host)

/-- `use_sdhost` on the registers. -/
def init_sdcard (m : mmc) (voltages : Word) (host : sdhost_state) :
    Sd ((Int × mmc) × sdhost_state) :=
  (use_sdhost m voltages).via sendCmd host

end rpi_wifi.sdcard
