-- The scan for the cores of the chip: the table of the enumeration ROM is read into
-- a buffer of 512 bytes, and a loop goes through it word by word, or by two words
-- where a pair of them names a core.
import RpiWifi.Firmware

namespace rpi_wifi.ether4330.cores

/-! ## The fields -/

def Corescansz : Nat := 512

def ARMcm3 : BitVec 32 := 0x82A

def ARM7tdmi : BitVec 32 := 0x825

/-- The part of the `Ctlr` that `corescan` writes. -/
structure Cores where
  chipcommon : BitVec 32
  armcore : BitVec 32
  armctl : BitVec 32
  armregs : BitVec 32
  socramctl : BitVec 32
  socramregs : BitVec 32
  socramrev : Byte
  sdregs : BitVec 32
  sdiorev : Byte
  d11ctl : BitVec 32
  deriving DecidableEq

/-- The fields that hold the address of a core. -/
inductive Place where
  | chipcommon
  | armctl
  | armregs
  | socramctl
  | socramregs
  | sdregs
  | d11ctl

def Cores.at (ctl : Cores) : Place → BitVec 32
  | .chipcommon => ctl.chipcommon
  | .armctl => ctl.armctl
  | .armregs => ctl.armregs
  | .socramctl => ctl.socramctl
  | .socramregs => ctl.socramregs
  | .sdregs => ctl.sdregs
  | .d11ctl => ctl.d11ctl

/-- The cores whose addresses the field is for. -/
def Place.isOf (coreid : BitVec 32) : Place → Prop
  | .chipcommon => coreid = 0x800
  | .armctl => coreid = ARMcm3 ∨ coreid = ARM7tdmi ∨ coreid = ARMcr4
  | .armregs => coreid = ARMcm3 ∨ coreid = ARM7tdmi ∨ coreid = ARMcr4
  | .socramctl => coreid = 0x80E
  | .socramregs => coreid = 0x80E
  | .sdregs => coreid = 0x829
  | .d11ctl => coreid = 0x812

instance (coreid : BitVec 32) : (p : Place) → Decidable (p.isOf coreid)
  | .chipcommon => inferInstanceAs (Decidable (coreid = 0x800))
  | .armctl => inferInstanceAs (Decidable (coreid = ARMcm3 ∨ coreid = ARM7tdmi ∨ coreid = ARMcr4))
  | .armregs => inferInstanceAs (Decidable (coreid = ARMcm3 ∨ coreid = ARM7tdmi ∨ coreid = ARMcr4))
  | .socramctl => inferInstanceAs (Decidable (coreid = 0x80E))
  | .socramregs => inferInstanceAs (Decidable (coreid = 0x80E))
  | .sdregs => inferInstanceAs (Decidable (coreid = 0x829))
  | .d11ctl => inferInstanceAs (Decidable (coreid = 0x812))

/-! ## The words of the table -/

/-- The type of the word at index `i`. -/
def kind (buf : Buf) (i : Nat) : Byte := buf i &&& 0xF

/-- The number of the core that the word at index `i` names. -/
def coreidAt (buf : Buf) (i : Nat) : BitVec 32 :=
  ((buf (i + 1)).setWidth 32 ||| (buf (i + 2)).setWidth 32 <<< 8) &&& 0xFFF

/-- The address in the word at index `i`. -/
def addrAt (buf : Buf) (i : Nat) : BitVec 32 :=
  ((buf (i + 1)).setWidth 32 <<< 8 ||| (buf (i + 2)).setWidth 32 <<< 16 |||
    (buf (i + 3)).setWidth 32 <<< 24) &&& ~~~ 0xFFF#32

/-- The field that an address of core `coreid` goes to, if it goes to one. `isctl` says
that it is the address of the control registers. -/
def Cores.placeFor (ctl : Cores) (coreid : BitVec 32) (isctl : Bool) : Option Place :=
  if coreid = 0x800 then if isctl then none else some .chipcommon
  else if coreid = ARMcm3 ∨ coreid = ARM7tdmi ∨ coreid = ARMcr4 then
    if isctl then if ctl.armctl = 0 then some .armctl else none
    else if ctl.armregs = 0 then some .armregs
    else none
  else if coreid = 0x80E then
    if isctl then some .socramctl
    else if ctl.socramregs = 0 then some .socramregs
    else none
  else if coreid = 0x829 then if isctl then none else some .sdregs
  else if coreid = 0x812 then if isctl then some .d11ctl else none
  else none

def Cores.set (ctl : Cores) (p : Place) (addr : BitVec 32) : Cores :=
  match p with
  | .chipcommon => { ctl with chipcommon := addr }
  | .armctl => { ctl with armctl := addr }
  | .armregs => { ctl with armregs := addr }
  | .socramctl => { ctl with socramctl := addr }
  | .socramregs => { ctl with socramregs := addr }
  | .sdregs => { ctl with sdregs := addr }
  | .d11ctl => { ctl with d11ctl := addr }

/-- What the inner switch notes of a core besides its addresses. -/
def Cores.note (ctl : Cores) (coreid : BitVec 32) (corerev : Byte) : Cores :=
  if coreid = ARMcm3 ∨ coreid = ARM7tdmi ∨ coreid = ARMcr4 then { ctl with armcore := coreid }
  else if coreid = 0x80E then { ctl with socramrev := corerev }
  else if coreid = 0x829 then { ctl with sdiorev := corerev }
  else ctl

/-! ## The scan -/

/-- The variables of `corescan`, with the addresses that were stored, the indices of the
buffer that were read, the number of times it was given back, and whether the function
returned from its loop. -/
structure Scan where
  ctl : Cores
  coreid : BitVec 32
  corerev : Byte
  stores : List (Place × BitVec 32)
  reads : List Nat
  released : Nat
  returned : Bool

def Scan.read (s : Scan) (ks : List Nat) : Scan := { s with reads := s.reads ++ ks }

/-- The inner switch, with the address of the word at index `i`. -/
def Scan.address (s : Scan) (buf : Buf) (i : Nat) : Scan :=
  let addr := addrAt buf i
  match s.ctl.placeFor s.coreid (buf i &&& 0xC0 ≠ 0) with
  | some p =>
    { s with
      ctl := (s.ctl.set p addr).note s.coreid s.corerev
      stores := s.stores ++ [(p, addr)] }
  | none => { s with ctl := s.ctl.note s.coreid s.corerev }

def Scan.release (s : Scan) : Scan := { s with released := s.released + 1 }

/-- The loop of `corescan` from index `i` on. -/
def corescanLoop (buf : Buf) (i : Nat) (s : Scan) : Scan :=
  if i < Corescansz then
    let s := s.read [i]
    if kind buf i = 0xF then { s.release with returned := true }
    else if kind buf i = 1 then
      let s := s.read [i + 4]
      if kind buf (i + 4) ≠ 1 then corescanLoop buf (i + 4) s
      else
        corescanLoop buf (i + 8)
          { s.read [i + 1, i + 2, i + 7] with
            coreid := coreidAt buf i
            corerev := buf (i + 7) }
    else if kind buf i = 5 then
      corescanLoop buf (i + 4) ((s.read [i + 1, i + 2, i + 3]).address buf i)
    else corescanLoop buf (i + 4) s
  else s
termination_by Corescansz - i

/-- `corescan`, with the memory behind the pointer that `kernel_allocate` gives. There
is none when the heap is full. -/
def corescan (answer : Answer) (mem : Option Buf) (chip : Chip) (ctl : Cores) (r : BitVec 32) :
    Chip × Scan :=
  let s : Scan := ⟨ctl, 0, 0, [], [], 0, false⟩
  match mem with
  | none => (chip, s)
  | some mem =>
    let q := sbmem answer chip false (mem.first Corescansz) r
    let s := corescanLoop (mem.fill q.2) 0 s
    (q.1, if s.returned then s else s.release)

end rpi_wifi.ether4330.cores
