-- The backplane behind a bus with errors. Any command may fail: a command of one byte
-- comes back with the error bits set, and a transfer moves no byte. The functions of
-- the driver print that and go on, those that choose the window too.
import RpiWifi.BackplaneLaws
import RpiWifi.WriteLogs

namespace rpi_wifi.ether4330.faulty

open transfers

/-! ## The bus -/

/-- The chip with the number of commands so far. `wrote` is a history: the bytes of the
backplane that were written. -/
structure Bus where
  chip : Chip
  done : Nat
  wrote : List (BitVec 32 × Byte)

/-- The part of function 1 through which the backplane is reached. -/
def inWindow (fn a : BitVec 32) : Prop := fn = Fn1 ∧ 0x8000 ≤ a.toNat ∧ a.toNat < 0x10000

instance (fn a : BitVec 32) : Decidable (inWindow fn a) :=
  inferInstanceAs (Decidable (fn = Fn1 ∧ 0x8000 ≤ a.toNat ∧ a.toNat < 0x10000))

variable (answer : Answer) (fails : Nat → Bool)

def Bus.access (fn : BitVec 32) (write : Bool) (b : Bus) (a : BitVec 32) (x : Byte) : Bus × Byte :=
  let r := b.chip.access answer fn write a x
  ({ b with
    chip := r.1
    wrote := if write ∧ inWindow fn a then b.wrote ++ [(b.chip.reach a, x)] else b.wrote }, r.2)

def Bus.next (b : Bus) : Bus := { b with done := b.done + 1 }

/-- `IO_RW_DIRECT`, which leaves the chip when it fails. -/
def Bus.IO_RW_DIRECT (b : Bus) (arg : BitVec 32) : Bus × BitVec 32 :=
  if fails b.done then (b.next, 0xCF00)
  else
    let r := b.access answer (argFn arg) (argWrite arg) (argAddr arg) (arg.setWidth 8)
    (r.1.next, 0x1000 ||| r.2.setWidth 32)

/-- `IO_RW_EXTENDED`, which moves no byte when it fails. -/
def Bus.IO_RW_EXTENDED (b : Bus) (arg : BitVec 32) (a : List Byte) : Bus × List Byte :=
  if fails b.done then (b.next, a.take (argBytes arg))
  else
    let r := move (Bus.access answer (argFn arg) (argWrite arg)) b
      (fun i => if argIncr arg then argAddr arg + BitVec.ofNat 32 i else argAddr arg)
      (a.take (argBytes arg))
    (r.1.next, r.2)

/-! ## The functions of the driver -/

def sdiord (b : Bus) (fn addr : BitVec 32) : Bus × Byte :=
  let r := b.IO_RW_DIRECT answer fails ((fn &&& 7) <<< 28 ||| (addr &&& 0x1FFFF) <<< 9)
  if r.2 &&& 0xCF00 ≠ 0 then (r.1, 0) else (r.1, r.2.setWidth 8)

def sdiowrTry (b : Bus) (arg : BitVec 32) : Nat → Bus
  | 0 => b
  | retry + 1 =>
    let r := b.IO_RW_DIRECT answer fails arg
    if r.2 &&& 0xCF00 = 0 then r.1 else sdiowrTry r.1 arg retry

def sdiowr (b : Bus) (fn addr data : BitVec 32) : Bus :=
  sdiowrTry answer fails b (1 <<< 31 ||| (fn &&& 7) <<< 28 ||| (addr &&& 0x1FFFF) <<< 9 |||
    (data &&& 0xFF)) 10

def sdiorwext (b : Bus) (fn : BitVec 32) (write : Bool) (a : List Byte) (addr : BitVec 32)
    (incr : Bool) : Bus × List Byte :=
  if _h : a = [] then (b, [])
  else
    let t := nextTransfer (blockSize fn) a.length
    andThen (b.IO_RW_EXTENDED answer fails (extendedArg fn write t.1 incr addr t.2.1)
        (a.take t.2.2))
      fun b => sdiorwext b fn write (a.drop t.2.2)
        (if incr then addr + BitVec.ofNat 32 t.2.2 else addr) incr
termination_by a.length
decreasing_by
  have hlen := List.length_pos_iff.mpr _h
  have hm := nextTransfer_pos (blockSize_pos fn) hlen
  rw [List.length_drop]
  omega

def cfgw (b : Bus) (off val : BitVec 32) : Bus := sdiowr answer fails b Fn1 off val

def sbwindow (b : Bus) (addr : BitVec 32) : Bus :=
  let addr := addr &&& ~~~ (Sbwsize - 1)
  let b := cfgw answer fails b Sbaddr (addr >>> 8)
  let b := cfgw answer fails b (Sbaddr + 1) (addr >>> 16)
  cfgw answer fails b (Sbaddr + 2) (addr >>> 24)

def sbrwBytes (write : Bool) (b : Bus) (off : BitVec 32) : List Byte → Bus × List Byte
  | [] => (b, [])
  | x :: buf =>
    let r := if write then (sdiowr answer fails b Fn1 (off ||| Sb32bit) (x.setWidth 32), x)
      else sdiord answer fails b Fn1 (off ||| Sb32bit)
    andThen (r.1, [r.2]) fun b => sbrwBytes write b (off + 1) buf

def sbrw (b : Bus) (write : Bool) (buf : List Byte) (off : BitVec 32) : Bus × List Byte :=
  if 4 ≤ buf.length then
    let n := buf.length / 4 * 4
    andThen (sdiorwext answer fails b Fn1 write (buf.take n) (off ||| Sb32bit) true)
      fun b => sbrwBytes answer fails write b (off + BitVec.ofNat 32 n) (buf.drop n)
  else sbrwBytes answer fails write b off buf

def sbmemLoop (write : Bool) (b : Bus) (buf : List Byte) (off : BitVec 32) (n : Nat)
    (_hn : 0 < n) : Bus × List Byte :=
  if _h : buf = [] then (b, [])
  else
    let m := min n buf.length
    andThen (sbrw answer fails (sbwindow answer fails b off) write (buf.take m)
        (off &&& (Sbwsize - 1)))
      fun b => sbmemLoop write b (buf.drop m) (off + BitVec.ofNat 32 m) Sbwsize.toNat Sbwsize_pos
termination_by buf.length
decreasing_by
  have hlen := List.length_pos_iff.mpr _h
  rw [List.length_drop]
  omega

def sbmem (b : Bus) (write : Bool) (buf : List Byte) (off : BitVec 32) : Bus × List Byte :=
  sbmemLoop answer fails write b buf off (windowRest off) (windowRest_pos off)

end rpi_wifi.ether4330.faulty
