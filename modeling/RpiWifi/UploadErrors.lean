-- The upload over a bus with errors. The driver prints that a transfer has failed and
-- goes on, so a piece that was not read back leaves the buffer of the comparison as it
-- was. Which bytes of the file are read back is known from the pattern of the errors.
import RpiWifi.BusPattern
import RpiWifi.Firmware

namespace rpi_wifi.ether4330.faulty

open plibc transfers

section upload

variable (answer : Answer) (fails : Nat → Bool)

/-- The variables of the loops of `upload`, with the bus for the chip. -/
structure Upload where
  bus : Bus
  buf : Buf
  resetvec : List Byte
  n : Nat
  off : BitVec 32

def transferPiece (ctl : Loader) (s : Upload) (r : Nat × Buf) : Upload :=
  let p := zeroPad r.2 r.1
  { bus := (sbmem answer fails s.bus true (p.1.first p.2) (ctl.rambase + s.off)).1
    buf := p.1
    resetvec := if s.off = 0 then r.2.first 4 else s.resetvec
    n := p.2
    off := s.off + BitVec.ofNat 32 p.2 }

def transferLoop (f : FileInfo) (ctl : Loader) (isconfig : Bool) (s : Upload) : Upload :=
  let r := read_file_in_buffer f s.buf Uploadsz s.off
  if _h : r.1 = 0 then { s with n := 0 }
  else if isconfig then
    let c := condense r.2 r.1
    let off := ctl.socramsize - BitVec.ofNat 32 c.2 - 4
    let p := zeroPad c.1 c.2
    { s with
      bus := (sbmem answer fails s.bus true (p.1.first p.2) (ctl.rambase + off)).1
      buf := p.1
      n := p.2
      off }
  else transferLoop f ctl isconfig (transferPiece answer fails ctl s r)
termination_by f.size - s.off.toNat
decreasing_by
  have hsize := (read_eq_zero_iff f s.buf Uploadsz s.off).not.mp _h
  have hlt := off_lt _h (read_file_in_buffer f s.buf Uploadsz s.off).2
  dsimp only [transferPiece]
  omega

/-- The buffer `cbuf` keeps the bytes that `sbmem` does not bring. -/
def comparePiece (ctl : Loader) (s : Upload) (cbuf : Buf) (r : Nat × Buf) : Upload × List Byte :=
  let p := zeroPad r.2 r.1
  let q := sbmem answer fails s.bus false (cbuf.first p.2) (ctl.rambase + s.off)
  ({ s with bus := q.1, buf := p.1, n := p.2 }, q.2)

def compareLoop (f : FileInfo) (ctl : Loader) (s : Upload) (cbuf : Buf) : Upload × Bool :=
  let r := read_file_in_buffer f s.buf Uploadsz s.off
  if _h : r.1 = 0 then ({ s with n := 0 }, true)
  else
    let q := comparePiece answer fails ctl s cbuf r
    if memcmp (q.1.buf.first q.1.n) q.2 ≠ 0 then (q.1, false)
    else
      compareLoop f ctl { q.1 with off := s.off + BitVec.ofNat 32 q.1.n } (cbuf.fill q.2)
termination_by f.size - s.off.toNat
decreasing_by
  have hsize := (read_eq_zero_iff f s.buf Uploadsz s.off).not.mp _h
  have hlt := off_lt _h (read_file_in_buffer f s.buf Uploadsz s.off).2
  dsimp only [comparePiece]
  omega

def compareConfig (ctl : Loader) (s : Upload) (cbuf : Buf) : Upload × Bool :=
  let q := sbmem answer fails s.bus false (cbuf.first s.n) (ctl.rambase + s.off)
  ({ s with bus := q.1 }, memcmp (s.buf.first s.n) q.2 = 0)

/-- `upload`, when the driver has sent `done` commands before. -/
def upload (done : Nat) (files : Files) (buf : Option Buf) (cbuf : Buf) (ctl : Loader)
    (file : CString) (isconfig : Bool) : Loader × Int :=
  match findfirmware files file, buf with
  | none, _ => (ctl, -1)
  | some _, none => (ctl, -1)
  | some f, some buf =>
    let t := transferLoop answer fails f ctl isconfig
      ⟨⟨ctl.chip, done, []⟩, buf, ctl.resetvec, 0, 0⟩
    let v := if isconfig then compareConfig answer fails ctl t cbuf
      else compareLoop answer fails f ctl { t with off := 0 } cbuf
    ({ ctl with chip := v.1.bus.chip, resetvec := v.1.resetvec }, if v.2 then v.1.n else -1)

end upload

/-! ## The pattern -/

section pattern

variable (fails : Nat → Bool)

/-- Where the bytes from `off` on come from: a place in the page, or no place at all. -/
def origins (page off : BitVec 32) (hs : List Bool) : List (Option (BitVec 32)) :=
  hs.mapIdx fun i ok => if ok then some (place page (upFrom off i)) else none

/-- The way of a buffer: where each byte comes from or goes to, and the page and the number
of commands after it. -/
structure Route where
  origins : List (Option (BitVec 32))
  page : BitVec 32
  done : Nat

/-- One way behind the other one. -/
def Route.behind (r : Route) (before : List (Option (BitVec 32))) : Route :=
  { r with origins := before ++ r.origins }

end pattern

end rpi_wifi.ether4330.faulty
