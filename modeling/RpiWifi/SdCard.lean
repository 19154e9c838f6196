-- An SD card, the commands it takes in each of its states, and the host controller between the
-- card and the driver: what the driver reads from the registers while the card answers.
import RpiWifi.SdHostLaws
import RpiWifi.CardSize

namespace rpi_wifi.sdcard

open conversations sdhost

/-! ## The commands -/

def MMC_RSP_NONE : Word := 0

def MMC_RSP_R2 : Word := MMC_RSP_PRESENT ||| MMC_RSP_136 ||| MMC_RSP_CRC

def MMC_RSP_R3 : Word := MMC_RSP_PRESENT

def MMC_RSP_R6 : Word := MMC_RSP_PRESENT ||| MMC_RSP_CRC ||| MMC_RSP_OPCODE

def MMC_RSP_R7 : Word := MMC_RSP_PRESENT ||| MMC_RSP_CRC ||| MMC_RSP_OPCODE

def MMC_CMD_GO_IDLE_STATE : Word := 0

def MMC_CMD_ALL_SEND_CID : Word := 2

def SD_CMD_SEND_RELATIVE_ADDR : Word := 3

def MMC_CMD_SELECT_CARD : Word := 7

def SD_CMD_SEND_IF_COND : Word := 8

def MMC_CMD_SEND_CSD : Word := 9

def MMC_CMD_SET_BLOCKLEN : Word := 16

def SD_CMD_APP_SEND_OP_COND : Word := 41

def MMC_CMD_APP_CMD : Word := 55

/-! ## The card -/

/-- A card: the version of the specification, the way it addresses its blocks, the voltages in
its OCR (among them 3.3 V to 3.4 V), its registers and its words. The address of each of its
blocks is a word. -/
structure Card where
  version2 : Bool
  high_capacity : Bool
  window : Word
  cid : BitVec 128
  csd : BitVec 128
  blocks : Nat
  word : Nat → Word
  modern : high_capacity = true → version2 = true
  voltage : window.getLsbD 21 = true
  addresses : blocks * (if high_capacity then 1 else 512) ≤ 2 ^ 32

inductive CardState where
  | idle
  | ready
  | ident
  | stby
  | tran
  | data
  | inactive
  deriving DecidableEq

/-- The state of a card. `app` is set after `MMC_CMD_APP_CMD`, `ifCond` after a
`SD_CMD_SEND_IF_COND` that the card has answered, and `polls` counts the
`SD_CMD_APP_SEND_OP_COND` since the last reset that have found it busy. -/
structure Status where
  state : CardState
  app : Bool
  ifCond : Bool
  rca : BitVec 16
  polls : Nat
  blocklen : Word
  deriving DecidableEq

def Status.reset : Status where
  state := .idle
  app := false
  ifCond := false
  rca := 0
  polls := 0
  blocklen := 512

/-- What a card is free to do: to be still busy, the address it takes, which is not 0, and the
status bits of its answer. -/
structure Choice where
  busy : Bool
  rca : BitVec 16
  bits : Word
  rca_ne : rca ≠ 0

/-- A register of the card as the words of a long answer. -/
def longWords (x : BitVec 128) : List Word := (List.range 4).map (card_size.sdhostLayout x)

/-- The address in the upper half of an argument. -/
def rcaOf (cmdarg : Word) : BitVec 16 := cmdarg.extractLsb' 16 16

/-- The voltages of an argument or of the OCR. -/
def voltageMask : Word := 0xff8000

/-- The card has been told of a host that takes high capacity cards. -/
def Status.hostTakes (s : Status) (cmdarg : Word) : Bool := s.ifCond && cmdarg.getLsbD 30

/-- The answer of the card to a command, if it gives one, and its state then. A command that it
does not take in its state is not answered. -/
def Card.react (card : Card) (choice : Choice) (s : Status) (cmd : mmc_cmd) :
    Option (List Word) × Status :=
  let s' := { s with app := false }
  let own := rcaOf cmd.cmdarg = s.rca
  match cmd.cmdidx.toNat, s.state with
  | _, .inactive => (none, s)
  | 0, _ => (none, .reset)
  | 8, .idle =>
    if card.version2 = true ∧ cmd.cmdarg.extractLsb' 8 4 = 1 then
      (some [cmd.cmdarg &&& 0xfff], { s' with ifCond := true })
    else (none, s')
  | 55, .idle => if own then (some [choice.bits], { s with app := true }) else (none, s')
  | 41, .idle =>
    if s.app = false then (none, s')
    else if cmd.cmdarg &&& card.window &&& voltageMask = 0 then
      (none, { s' with state := .inactive })
    else if choice.busy = true ∨ card.high_capacity = true ∧ s.hostTakes cmd.cmdarg = false then
      (some [card.window &&& voltageMask], { s' with polls := s.polls + 1 })
    else
      let ccs : Word := if card.high_capacity then (1 : Word) <<< 30 else 0
      (some [card.window &&& voltageMask ||| ccs ||| (1 : Word) <<< 31],
        { s' with state := .ready })
  | 2, .ready => (some (longWords card.cid), { s' with state := .ident })
  | 3, .ident | 3, .stby =>
    (some [choice.rca.setWidth 32 <<< 16 ||| choice.bits &&& 0xffff],
      { s' with state := .stby, rca := choice.rca })
  | 9, .stby => if own then (some (longWords card.csd), s') else (none, s')
  | 7, .stby => if own then (some [choice.bits], { s' with state := .tran }) else (none, s')
  | 16, .tran => (some [choice.bits], { s' with blocklen := cmd.cmdarg })
  | 17, .tran => (some [choice.bits], s')
  | 18, .tran => (some [choice.bits], { s' with state := .data })
  | 12, .data => (some [choice.bits], { s' with state := .tran })
  | _, _ => (none, s')

/-! ## The controller -/

/-- The words that a command waits for. -/
def responseWords (resp_type : Word) : Nat :=
  if resp_type &&& MMC_RSP_PRESENT = 0 then 0
  else if resp_type &&& MMC_RSP_136 ≠ 0 then 4
  else 1

/-- What the driver gets of an answer: the error code and the words of the response. An answer
of another length, or none, is an error where the command waits for one. -/
def hears (resp_type : Word) (answer : Option (List Word)) : Int × List Word :=
  match responseWords resp_type, answer with
  | 0, _ => (0, [])
  | _, none => (-1, [])
  | n, some ws => if ws.length = n then (0, ws) else (-1, [])

/-- A command with its answer. -/
def Card.Answers (card : Card) (s : Status) (cmd : mmc_cmd) (r : Int × List Word)
    (s' : Status) : Prop :=
  ∃ choice, r = hears cmd.resp_type (card.react choice s cmd).1 ∧ s' = (card.react choice s cmd).2

/-- The values of the registers while the card answers a command that does not make it busy:
the controller is idle and becomes free, sends the command and is busy for a while, and has the
response then, or the flag of a failure. -/
inductive Card.Serves (card : Card) :
    Status → mmc_cmd → List Word → Int × List Word → Status → List Word → Prop
  | answered {s s' : Status} {cmd : mmc_cmd} {ws : List Word} {edm sdcmd hsts sdcmd' : Word}
      {ρ ρ₁ ρ' : List Word} : card.Answers s cmd (0, ws) s' →
      cmd.resp_type &&& MMC_RSP_BUSY = 0 → Idle edm →
      Waits ρ sdcmd (hsts :: ρ₁) → sdcmd &&& HC_CMD_ENABLE = 0 → Waits ρ₁ sdcmd' (ws ++ ρ') →
      sdcmd' &&& HC_CMD_ENABLE = 0 → sdcmd' &&& SDCMD_FAIL_FLAG = 0 →
      Serves card s cmd (edm :: ρ) (0, ws) s' ρ'
  | failed {s s' : Status} {cmd : mmc_cmd} {ws : List Word} {edm sdcmd hsts sdcmd' hsts' : Word}
      {ρ ρ₁ ρ' : List Word} : card.Answers s cmd (-1, ws) s' →
      cmd.resp_type &&& MMC_RSP_BUSY = 0 → Idle edm →
      Waits ρ sdcmd (hsts :: ρ₁) → sdcmd &&& HC_CMD_ENABLE = 0 → Waits ρ₁ sdcmd' (hsts' :: ρ') →
      sdcmd' &&& HC_CMD_ENABLE = 0 → sdcmd' &&& SDCMD_FAIL_FLAG ≠ 0 →
      Serves card s cmd (edm :: ρ) (-1, ws) s' ρ'

end rpi_wifi.sdcard
