-- The commands of the SD controller. `emmccmd` writes a command to the registers of
-- the controller and waits for its answer. The values it reads come from outside: a
-- command is given the values in their order, and it waits for ever when they end.
import RpiWifi.Packets

namespace rpi_wifi.emmc

abbrev Word := BitVec 32

/-! ## The registers -/

def Indexshift : Nat := 24

def Isdata : Word := 1 <<< 21

def Ixchken : Word := 1 <<< 20

def Crcchken : Word := 1 <<< 19

def Respmask : Word := 3 <<< 16

def Respnone : Word := 0

def Resp136 : Word := 1 <<< 16

def Resp48 : Word := 2 <<< 16

def Resp48busy : Word := 3 <<< 16

def Multiblock : Word := 1 <<< 5

def Host2card : Word := 0

def Card2host : Word := 1 <<< 4

def Blkcnten : Word := 1 <<< 1

def Hispeed : Word := 1 <<< 2

def Dwidth4 : Word := 1 <<< 1

def Srstdata : Word := 1 <<< 26

def Srstcmd : Word := 1 <<< 25

def Err : Word := 1 <<< 15

def Cardintr : Word := 1 <<< 8

def Readrdy : Word := 1 <<< 5

def Writerdy : Word := 1 <<< 4

def Datadone : Word := 1 <<< 1

def Cmddone : Word := 1

def Datinhibit : Word := 1 <<< 1

def Cmdinhibit : Word := 1

def GoIdle : Word := 0

def MMCSelect : Word := 7

def Setbuswidth : Word := 6

def Switchfunc : Word := 6

def IORWdirect : Word := 52

def IORWextended : Word := 53

def Appcmd : Word := 55

def Initfreq : Nat := 400000

def SDfreq : Nat := 25 * 1000 * 1000

def SDfreqhs : Nat := 50 * 1000 * 1000

def cmdinfo (cmd : Word) : Word :=
  match cmd.toNat with
  | 0 => Ixchken
  | 2 => Resp136
  | 3 => Resp48 ||| Ixchken ||| Crcchken
  | 5 => Resp48
  | 6 => Resp48 ||| Ixchken ||| Crcchken
  | 7 => Resp48busy ||| Ixchken ||| Crcchken
  | 8 => Resp48 ||| Ixchken ||| Crcchken
  | 9 => Resp136
  | 11 => Resp48 ||| Ixchken ||| Crcchken
  | 12 => Resp48busy ||| Ixchken ||| Crcchken
  | 13 => Resp48 ||| Ixchken ||| Crcchken
  | 16 => Resp48
  | 17 => Resp48 ||| Isdata ||| Card2host ||| Ixchken ||| Crcchken
  | 18 => Resp48 ||| Isdata ||| Card2host ||| Multiblock ||| Blkcnten ||| Ixchken ||| Crcchken
  | 24 => Resp48 ||| Isdata ||| Host2card ||| Ixchken ||| Crcchken
  | 25 => Resp48 ||| Isdata ||| Host2card ||| Multiblock ||| Blkcnten ||| Ixchken ||| Crcchken
  | 41 => Resp48
  | 52 => Resp48 ||| Ixchken ||| Crcchken
  | 53 => Resp48 ||| Ixchken ||| Crcchken ||| Isdata
  | 55 => Resp48 ||| Ixchken ||| Crcchken
  | _ => 0

/-! ## Readings and effects -/

/-- What one command reads: the values of the registers whose value it uses, in the
order it reads them, and the ticks of the timer. -/
structure Reading where
  regs : List Word
  ticks : List (BitVec 64)

inductive Reg where
  | Arg1
  | Cmdtm
  | Control0
  | Control1
  | Interrupt
  | Irpten
  deriving DecidableEq

/-- What a command does to the controller: a register is written, or some of its bits
are set or cleared, or `emmcclk` sets the clock. -/
inductive Effect where
  | write (reg : Reg) (val : Word)
  | set (reg : Reg) (bits : Word)
  | clear (reg : Reg) (bits : Word)
  | clock (freq : Nat)
  deriving DecidableEq

/-- The four words of a response. -/
abbrev Response := Fin 4 → Word

scoped instance words_nonempty : NeZero 4 := ⟨by decide⟩

/-- `while (r[reg] & bits) ;` -/
def waitClear (bits : Word) : List Word → Option (List Word)
  | [] => none
  | v :: vs => if v &&& bits = 0 then some vs else waitClear bits vs

/-- A circuit is reset: the bit `srst` in `Control1` until it is clear, and then the bit
`inhibit` of `Status`. -/
def resetCircuit (srst inhibit : Word) (regs : List Word) : Option (List Word) :=
  (waitClear srst regs).bind (waitClear inhibit)

/-- A circuit is reset when it is inhibited by the next value of `Status`. -/
def resetIfInhibited (srst inhibit : Word) : List Word → Option (List Word × List Effect)
  | [] => none
  | status :: regs =>
    if status &&& inhibit ≠ 0 then
      (resetCircuit srst inhibit regs).map fun regs => (regs, [.set .Control1 srst])
    else some (regs, [])

/-- The data circuit is reset when it is inhibited and the command `c` needs it. -/
def resetData (c : Word) : List Word → Option (List Word × List Effect)
  | [] => none
  | status :: regs =>
    if status &&& Datinhibit ≠ 0 ∧ (c &&& Isdata ≠ 0 ∨ c &&& Respmask = Resp48busy) then
      (resetCircuit Srstdata Datinhibit regs).map fun regs => (regs, [.set .Control1 Srstdata])
    else some (regs, [])

/-- The loop that waits for the command: it ends with `Cmddone` or `Err`, or when the
timer is more than 1000 ticks behind `now`. -/
def waitCommand (now : BitVec 64) : List Word → List (BitVec 64) → Option (Word × List Word)
  | i :: regs, ticks =>
    if i &&& (Cmddone ||| Err) ≠ 0 then some (i, regs)
    else
      match ticks with
      | [] => none
      | t :: ticks => if 1000 < (t - now).toNat then some (i, regs) else waitCommand now regs ticks
  | [], _ => none

/-! ## The command -/

/-- The command word, with what it takes from the values to come. -/
def commandWord (appcmd : Bool) (cmd arg : Word) (regs : List Word) : Option (Word × List Word) :=
  let c := cmd <<< Indexshift ||| cmdinfo cmd
  let c := if cmd = Switchfunc ∧ appcmd = false then c ||| Isdata ||| Card2host else c
  if cmd = IORWextended then
    let c := if arg.getLsbD 31 then c ||| Host2card else c ||| Card2host
    match regs with
    | [] => none
    | blksizecnt :: regs =>
      some (if blksizecnt &&& 0xFFFF0000 ≠ 0x10000 then c ||| Multiblock ||| Blkcnten else c, regs)
  else some (c, regs)

/-- A command that was sent: its word, the last value of `Interrupt`, the values still to
come, and what was done. -/
structure Sent where
  c : Word
  i : Word
  regs : List Word
  effects : List Effect

/-- The first part of `emmccmd`, to the end of the wait. -/
def send (appcmd : Bool) (cmd arg : Word) (ρ : Reading) : Option Sent := do
  let (c, regs) ← commandWord appcmd cmd arg ρ.regs
  let idle := if cmd = GoIdle then [.clear .Control0 (Dwidth4 ||| Hispeed), .clock Initfreq] else []
  let (regs, reset) ← resetIfInhibited Srstcmd Cmdinhibit regs
  let (regs, data) ← resetData c regs
  match regs, ρ.ticks with
  | before :: regs, now :: ticks =>
    let i := before &&& ~~~ Cardintr
    let pending := if i ≠ 0 then [.write .Interrupt i] else []
    let (i, regs) ← waitCommand now regs ticks
    return ⟨c, i, regs,
      idle ++ reset ++ data ++ [.write .Arg1 arg] ++ pending ++ [.write .Cmdtm c]⟩
  | _, _ => none

/-- The response as its type says, in the place of what stood in `resp`. -/
def readResponse (c : Word) (resp : Response) (regs : List Word) : Option (Response × List Word) :=
  if c &&& Respmask = Resp136 then
    match regs with
    | a :: a' :: b :: b' :: d :: d' :: e :: regs =>
      some (fun
        | 0 => a <<< 8
        | 1 => a' >>> 24 ||| b <<< 8
        | 2 => b' >>> 24 ||| d <<< 8
        | 3 => d' >>> 24 ||| e <<< 8, regs)
    | _ => none
  else if c &&& Respmask = Respnone then some (Function.update resp 0 0, regs)
  else
    match regs with
    | [] => none
    | a :: regs => some (Function.update resp 0 a, regs)

/-- A response that keeps the card busy is waited for. -/
def waitBusy (c : Word) (regs : List Word) : Option (List Effect) :=
  if c &&& Respmask = Resp48busy then
    match regs with
    | [] => none
    | i :: _ => some [.set .Irpten (Datadone ||| Err), .write .Interrupt i]
  else some []

/-- What a command does when the card has answered. -/
def afterwards (appcmd : Bool) (cmd arg : Word) : List Effect :=
  if cmd = MMCSelect then [.clock SDfreq]
  else if cmd = Setbuswidth then
    if appcmd then
      if arg = 0 then [.clear .Control0 Dwidth4]
      else if arg = 2 then [.set .Control0 Dwidth4]
      else []
    else if arg &&& 0x8000000F = 0x80000001 then [.clock SDfreqhs]
    else []
  else if cmd = IORWdirect ∧ arg &&& ~~~ 0xFF#32 = (1 <<< 31 ||| 7 <<< 9) then
    if arg &&& 3 = 0 then [.clear .Control0 Dwidth4]
    else if arg &&& 3 = 2 then [.set .Control0 Dwidth4]
    else []
  else []

/-- What a command does when there is no answer: the command circuit is reset when it is
inhibited. -/
def giveUp (i : Word) : List Word → Option (List Effect)
  | [] => none
  | status :: regs =>
    if status &&& Cmdinhibit ≠ 0 then
      (waitClear Srstcmd regs).map fun _ => [.write .Interrupt i, .set .Control1 Srstcmd]
    else some [.write .Interrupt i]

/-- How a command ends: its value, the response, what was done to the controller, and
`emmc.appcmd`. -/
structure Done where
  ret : Int
  resp : Response
  effects : List Effect
  appcmd : Bool

/-- `emmccmd`. Without an answer the response is left as it was. -/
def emmccmd (appcmd : Bool) (cmd arg : Word) (resp : Response) (ρ : Reading) : Option Done := do
  let s ← send appcmd cmd arg ρ
  if s.i &&& (Cmddone ||| Err) ≠ Cmddone then
    let reset ← giveUp s.i s.regs
    return ⟨-1, resp, s.effects ++ reset, appcmd⟩
  else
    let clear := Effect.write .Interrupt (s.i &&& ~~~ (Datadone ||| Readrdy ||| Writerdy))
    let (resp, regs) ← readResponse s.c resp s.regs
    let busy ← waitBusy s.c regs
    return ⟨0, resp, s.effects ++ [clear] ++ busy ++ afterwards appcmd cmd arg, cmd == Appcmd⟩

/-! ## Outcomes -/

/-- What comes of a command: it waits for ever, it ends without an answer, or it is
answered with a word. -/
inductive Outcome where
  | waits
  | fails
  | answers (v : Word)
  deriving DecidableEq

/-- The outcome of a command, which its readings decide. -/
def outcome (appcmd : Bool) (cmd arg : Word) (ρ : Reading) : Outcome :=
  match emmccmd appcmd cmd arg (fun _ => 0) ρ with
  | none => .waits
  | some d => if d.ret < 0 then .fails else .answers (d.resp 0)

/-- The response does not depend on what stood in the array, and its first word is
always written. -/
theorem readResponse_spec (c : Word) (resp resp' : Response) (regs : List Word) :
    (readResponse c resp regs = none ∧ readResponse c resp' regs = none) ∨
      ∃ r r' rest, readResponse c resp regs = some (r, rest) ∧
        readResponse c resp' regs = some (r', rest) ∧ r 0 = r' 0 := by
  unfold readResponse
  split
  · split
    · exact .inr ⟨_, _, _, rfl, rfl, rfl⟩
    · exact .inl ⟨rfl, rfl⟩
  · split
    · exact .inr ⟨_, _, _, rfl, rfl, by simp⟩
    · split
      · exact .inl ⟨rfl, rfl⟩
      · exact .inr ⟨_, _, _, rfl, rfl, by simp⟩

/-- The response array is written exactly when the command is answered. -/
theorem emmccmd_spec (appcmd : Bool) (cmd arg : Word) (resp : Response) (ρ : Reading) :
    match outcome appcmd cmd arg ρ with
    | .waits => emmccmd appcmd cmd arg resp ρ = none
    | .fails => ∃ d, emmccmd appcmd cmd arg resp ρ = some d ∧ d.ret = -1 ∧ d.resp = resp ∧
        d.appcmd = appcmd
    | .answers v => ∃ d, emmccmd appcmd cmd arg resp ρ = some d ∧ d.ret = 0 ∧ d.resp 0 = v ∧
        d.appcmd = (cmd == Appcmd) := by
  unfold outcome emmccmd
  rcases send appcmd cmd arg ρ with _ | s
  · rfl
  · simp only [Option.bind_eq_bind, Option.bind_some]
    split_ifs with hfail
    · rcases giveUp s.i s.regs with _ | reset
      · rfl
      · exact ⟨_, rfl, rfl, rfl, rfl⟩
    · rcases readResponse_spec s.c (fun _ => 0) resp s.regs with
        ⟨h, h'⟩ | ⟨r, r', rest, h, h', h0⟩
      · rw [h, h']
        rfl
      · rw [h, h']
        simp only [Option.bind_some]
        rcases waitBusy s.c rest with _ | busy
        · rfl
        · exact ⟨_, rfl, rfl, h0.symm, rfl⟩

/-- What a command sends, but for its effects. -/
def Sent.core (s : Sent) : Word × Word × List Word := (s.c, s.i, s.regs)

/-- The argument of a command of one byte does not change what is waited for. -/
theorem send_arg (appcmd : Bool) {cmd : Word} (h : cmd ≠ IORWextended) (arg arg' : Word)
    (ρ : Reading) :
    (send appcmd cmd arg ρ).map Sent.core = (send appcmd cmd arg' ρ).map Sent.core := by
  unfold send commandWord
  simp only [if_neg h, Option.bind_eq_bind, Option.bind_some]
  rcases resetIfInhibited Srstcmd Cmdinhibit ρ.regs with _ | ⟨regs, reset⟩
  · rfl
  · simp only [Option.bind_some]
    generalize (if cmd = Switchfunc ∧ appcmd = false then
      cmd <<< Indexshift ||| cmdinfo cmd ||| Isdata ||| Card2host
      else cmd <<< Indexshift ||| cmdinfo cmd) = c
    rcases resetData c regs with _ | ⟨_ | ⟨before, regs⟩, data⟩
    · rfl
    · rfl
    · rcases ρ.ticks with _ | ⟨now, ticks⟩
      · rfl
      · simp only [Option.bind_some]
        rcases waitCommand now regs ticks with _ | ⟨i, regs⟩ <;> rfl

/-- So the outcome of such a command is the same for every argument. -/
theorem outcome_arg (appcmd : Bool) {cmd : Word} (h : cmd ≠ IORWextended) (arg arg' : Word)
    (ρ : Reading) : outcome appcmd cmd arg ρ = outcome appcmd cmd arg' ρ := by
  have hsend := send_arg appcmd h arg arg' ρ
  unfold outcome emmccmd
  rcases hs : send appcmd cmd arg ρ with _ | s
  · rw [hs] at hsend
    rw [Option.map_eq_none_iff.mp hsend.symm]
    rfl
  · rw [hs] at hsend
    obtain ⟨s', hs', hcore⟩ := Option.map_eq_some_iff.mp hsend.symm
    obtain ⟨c, i, regs, effects⟩ := s
    obtain ⟨c', i', regs', effects'⟩ := s'
    obtain ⟨rfl, rfl, rfl⟩ : c' = c ∧ i' = i ∧ regs' = regs := by
      simpa [Sent.core] using hcore
    rw [hs']
    simp only [Option.bind_eq_bind, Option.bind_some]
    split_ifs with hfail
    · rcases giveUp i' regs' with _ | reset <;> rfl
    · rcases readResponse c' (fun _ => 0) regs' with _ | ⟨r, rest⟩
      · rfl
      · simp only [Option.bind_some]
        rcases waitBusy c' rest with _ | busy <;> rfl

end rpi_wifi.emmc
