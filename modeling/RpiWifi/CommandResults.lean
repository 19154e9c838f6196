-- What the driver makes of a command that is not answered. `sdiocmd` returns the first
-- word of an array on its stack, and the driver decides by that word alone. A run is
-- given what the controller does at each command, and what the stack holds.
import RpiWifi.Emmc
import RpiWifi.TwoRuns

namespace rpi_wifi.ether4330.results

open emmc two_runs

/-! ## The state -/

/-- What the array of `sdiocmd_locked` holds before each command. -/
abbrev Stack := Nat → Response

/-- A run of the driver: the readings of the commands to come, `emmc.appcmd`, the number
of commands so far, and whether a command waits for ever. The other fields are a
history that the code does not keep: the tests of responses, whether the last command
was not answered, and whether a test was made on the response of such a command. -/
structure Host where
  readings : List Reading
  appcmd : Bool
  calls : Nat
  waiting : Bool
  branches : List Bool
  failed : Bool
  lost : Bool

def GO_IDLE_STATE : Word := 0

def SEND_RELATIVE_ADDR : Word := 3

def IO_SEND_OP_COND : Word := 5

def SELECT_CARD : Word := 7

def IO_RW_DIRECT : Word := 52

def Rcashift : Nat := 16

def V3_3 : Word := 3 <<< 20

def Fn0 : Word := 0

def Fn1 : Word := 1

def Fbr1 : Word := 0x100

def Fbr2 : Word := 0x200

def Ioenable : Word := 0x02

def Ioready : Word := 0x03

def Intenable : Word := 0x04

def Busifc : Word := 0x07

def Blksize : Word := 0x10

def Highspeed : Word := 0x13

/-! ## The functions of the driver -/

variable (stack : Stack)

/-- `sdiocmd_locked` and `sdiocmd`, which locks around it. -/
def sdiocmd (s : Host) (cmd arg : Word) : Host × Word :=
  if s.waiting then (s, 0)
  else
    match s.readings with
    | [] => ({ s with waiting := true }, 0)
    | ρ :: rest =>
      match emmccmd s.appcmd cmd arg (stack s.calls) ρ with
      | none => ({ s with waiting := true }, 0)
      | some d =>
        ({ s with
          readings := rest
          appcmd := d.appcmd
          calls := s.calls + 1
          failed := d.ret < 0 }, d.resp 0)

def trysdiocmd (s : Host) (cmd arg : Word) : Host × Word := sdiocmd stack s cmd arg

/-- A test of a response is noted. -/
def Host.test (s : Host) (b : Bool) : Host :=
  if s.waiting then s
  else { s with branches := s.branches ++ [b], lost := s.lost || s.failed }

def sdiord (s : Host) (fn addr : Word) : Host × Word :=
  let q := sdiocmd stack s IO_RW_DIRECT ((fn &&& 7) <<< 28 ||| (addr &&& 0x1FFFF) <<< 9)
  let bad := q.2 &&& 0xCF00 ≠ 0
  (q.1.test bad, if bad then 0 else q.2 &&& 0xFF)

/-- The loop of `sdiowr`, with the number of attempts. -/
def sdiowrTry (s : Host) (arg : Word) : Nat → Host × Nat
  | 0 => (s, 0)
  | retry + 1 =>
    let q := sdiocmd stack s IO_RW_DIRECT arg
    let t := q.1.test (q.2 &&& 0xCF00 = 0)
    if q.2 &&& 0xCF00 = 0 then (t, 1)
    else
      let u := sdiowrTry t arg retry
      (u.1, u.2 + 1)

def sdiowr (s : Host) (fn addr data : Word) : Host × Nat :=
  sdiowrTry stack s
    (1 <<< 31 ||| (fn &&& 7) <<< 28 ||| (addr &&& 0x1FFFF) <<< 9 ||| (data &&& 0xFF)) 10

def sdioset (s : Host) (fn addr bits : Word) : Host :=
  let q := sdiord stack s fn addr
  (sdiowr stack q.1 fn addr (q.2 ||| bits)).1

/-- The loop of `sdioinit` that asks for the operating conditions, with the tries left.
It gives whether the card is ready. -/
def waitOcr (s : Host) (ocr : Word) : Nat → Host × Bool
  | 0 => (s.test (ocr &&& 1 <<< 31 = 0), ocr &&& 1 <<< 31 ≠ 0)
  | i + 1 =>
    let s := s.test (ocr &&& 1 <<< 31 = 0)
    if ocr &&& 1 <<< 31 = 0 then
      let q := trysdiocmd stack s IO_SEND_OP_COND V3_3
      waitOcr q.1 q.2 i
    else (s, true)

/-- A command that does not wait for ever uses up its readings. -/
theorem sdiocmd_readings {s : Host} {cmd arg : Word}
    (h : (sdiocmd stack s cmd arg).1.waiting = false) :
    (sdiocmd stack s cmd arg).1.readings.length < s.readings.length := by
  unfold sdiocmd at *
  by_cases hw : s.waiting = true
  · rw [if_pos hw, hw] at h
    cases h
  · rw [if_neg hw] at h ⊢
    obtain ⟨_ | ⟨ρ, rest⟩, appcmd, calls, waiting, branches, failed, lost⟩ := s
    · cases h
    · dsimp only at h ⊢
      rcases hd : emmccmd appcmd cmd arg (stack calls) ρ with _ | d
      · rw [hd] at h
        cases h
      · exact Nat.lt_succ_self _

@[simp] theorem test_waiting (s : Host) (b : Bool) : (s.test b).waiting = s.waiting := by
  unfold Host.test
  split <;> rfl

@[simp] theorem test_readings (s : Host) (b : Bool) : (s.test b).readings = s.readings := by
  unfold Host.test
  split <;> rfl

/-- The loop of `sdioinit` that waits for function 1. -/
def waitReady (s : Host) : Host :=
  let q := sdiord stack s Fn0 Ioready
  let t := q.1.test (q.2 &&& 1 <<< 1 = 0)
  if _h : q.2 &&& 1 <<< 1 ≠ 0 ∨ t.waiting then t else waitReady t
termination_by s.readings.length
decreasing_by
  have hw : (sdiord stack s Fn0 Ioready).1.waiting = false := by
    have h := (not_or.mp _h).2
    rw [test_waiting] at h
    exact Bool.eq_false_of_not_eq_true h
  unfold sdiord at *
  dsimp only at *
  rw [test_waiting] at hw
  rw [test_readings, test_readings]
  exact sdiocmd_readings stack hw

/-- `sdioinit` from its first command on. -/
def sdioinit (s : Host) : Host :=
  let s := (sdiocmd stack s GO_IDLE_STATE 0).1
  let q := trysdiocmd stack s IO_SEND_OP_COND 0
  let q := waitOcr stack q.1 q.2 5
  if q.2 = false then q.1
  else
    let rca := sdiocmd stack q.1 SEND_RELATIVE_ADDR 0
    let s := (sdiocmd stack rca.1 SELECT_CARD (rca.2 >>> Rcashift <<< Rcashift)).1
    let s := sdioset stack s Fn0 Highspeed 2
    let s := sdioset stack s Fn0 Busifc 2
    let s := (sdiowr stack s Fn0 (Fbr1 + Blksize) 64).1
    let s := (sdiowr stack s Fn0 (Fbr1 + Blksize + 1) (64 >>> 8)).1
    let s := (sdiowr stack s Fn0 (Fbr2 + Blksize) 512).1
    let s := (sdiowr stack s Fn0 (Fbr2 + Blksize + 1) (512 >>> 8)).1
    let s := sdioset stack s Fn0 Ioenable (1 <<< 1)
    let s := (sdiowr stack s Fn0 Intenable 0).1
    waitReady stack s

/-! ## Commands -/

variable {stack}

/-- The outcome of the next command. -/
def Host.next (s : Host) (cmd arg : Word) : emmc.Outcome :=
  if s.waiting then .waits
  else
    match s.readings with
    | [] => .waits
    | ρ :: _ => outcome s.appcmd cmd arg ρ

/-- The host after the next command, whatever the stack holds. -/
def Host.after (s : Host) (cmd arg : Word) : Host :=
  match s.next cmd arg with
  | .waits => { s with waiting := true }
  | .fails => { s with readings := s.readings.tail, calls := s.calls + 1, failed := true }
  | .answers _ =>
    { s with
      readings := s.readings.tail
      appcmd := cmd == Appcmd
      calls := s.calls + 1
      failed := false }

/-- Only a command that fails returns what the stack holds. -/
theorem sdiocmd_eq (stack : Stack) (s : Host) (cmd arg : Word) :
    sdiocmd stack s cmd arg =
      (s.after cmd arg,
        match s.next cmd arg with
        | .waits => 0
        | .fails => stack s.calls 0
        | .answers v => v) := by
  unfold sdiocmd Host.after Host.next
  obtain ⟨_ | ⟨ρ, rest⟩, appcmd, calls, _ | _, branches, failed, lost⟩ := s
  · rfl
  · rfl
  · dsimp only
    have hspec := emmccmd_spec appcmd cmd arg (stack calls) ρ
    rcases ho : outcome appcmd cmd arg ρ with _ | _ | v
    · rw [ho] at hspec
      simp [hspec]
    · rw [ho] at hspec
      obtain ⟨d, hd, hret, hresp, happ⟩ := hspec
      simp [hd, hret, hresp, happ]
    · rw [ho] at hspec
      obtain ⟨d, hd, hret, hresp, happ⟩ := hspec
      simp [hd, hret, hresp, happ]
  · rfl

/-- The argument of a command of one byte does not change its outcome. -/
theorem next_arg (s : Host) {cmd : Word} (h : cmd ≠ IORWextended) (arg arg' : Word) :
    s.next cmd arg = s.next cmd arg' := by
  unfold Host.next
  split
  · rfl
  · split
    · rfl
    · exact outcome_arg _ h _ _ _

theorem after_arg (s : Host) {cmd : Word} (h : cmd ≠ IORWextended) (arg arg' : Word) :
    s.after cmd arg = s.after cmd arg' := by
  unfold Host.after
  rw [next_arg s h arg arg']

end rpi_wifi.ether4330.results
