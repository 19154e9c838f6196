-- The memory of the wifi chip behind the SDIO bus: commands with their fields in
-- one word of 32 bits, a window register that chooses 32 KB of the backplane,
-- and the functions of the driver that move a buffer through that window. Here every
-- command is answered and every transfer delivered; `BusErrors` has the bus on which
-- `emmcio` gives up.
import RpiWifi.Packets
import RpiWifi.Transfers

namespace rpi_wifi.ether4330

open transfers

/-! ## The chip -/

/-- The backplane with its memory, the registers of each SDIO function, and the
reads of the backplane that were answered so far. -/
structure Chip where
  mem : BitVec 32 → Byte
  regs : BitVec 32 → BitVec 32 → Byte
  reads : List (BitVec 32 × Byte)

def Fn1 : BitVec 32 := 1

def Fn2 : BitVec 32 := 2

def Sbaddr : BitVec 32 := 0x1000a

def Sbwsize : BitVec 32 := 0x8000

def Sb32bit : BitVec 32 := 0x8000

/-- The window register: three bytes, for the bits from 8 on. -/
def Chip.window (c : Chip) : BitVec 32 :=
  (c.regs Fn1 Sbaddr).setWidth 32 <<< 8 ||| (c.regs Fn1 (Sbaddr + 1)).setWidth 32 <<< 16 |||
    (c.regs Fn1 (Sbaddr + 2)).setWidth 32 <<< 24

/-- The backplane address behind an address of function 1. -/
def Chip.reach (c : Chip) (a : BitVec 32) : BitVec 32 :=
  (c.window &&& ~~~ 0x7FFF#32) ||| (a &&& 0x7FFF#32)

/-- How the chip answers a read of the backplane. -/
abbrev Answer := Chip → BitVec 32 → Byte

/-- Memory returns what stands in it. -/
def honest : Answer := fun c a => c.mem a

variable (answer : Answer)

/-- One byte of the backplane is written or read. -/
def Chip.touch (write : Bool) (c : Chip) (a : BitVec 32) (b : Byte) : Chip × Byte :=
  if write then ({ c with mem := Function.update c.mem a b }, b)
  else
    let v := answer c a
    ({ c with reads := c.reads ++ [(a, v)] }, v)

/-- One byte of an SDIO function is written or read: in the upper half of the first
64 KB of function 1 it is a byte of the backplane, elsewhere a register. -/
def Chip.access (fn : BitVec 32) (write : Bool) (c : Chip) (a : BitVec 32) (b : Byte) :
    Chip × Byte :=
  if fn = Fn1 ∧ 0x8000 ≤ a.toNat ∧ a.toNat < 0x10000 then c.touch answer write (c.reach a) b
  else if write then
    ({ c with regs := Function.update c.regs fn (Function.update (c.regs fn) a b) }, b)
  else (c, c.regs fn a)

/-! ## The commands -/

def argWrite (arg : BitVec 32) : Bool := arg.getLsbD 31

def argFn (arg : BitVec 32) : BitVec 32 := arg >>> 28 &&& 7

def argBlk (arg : BitVec 32) : Bool := arg.getLsbD 27

def argIncr (arg : BitVec 32) : Bool := arg.getLsbD 26

def argAddr (arg : BitVec 32) : BitVec 32 := arg >>> 9 &&& 0x1FFFF

/-- `IO_RW_DIRECT`: one byte, with the response of a card in the command state. -/
def Chip.IO_RW_DIRECT (c : Chip) (arg : BitVec 32) : Chip × BitVec 32 :=
  let r := c.access answer (argFn arg) (argWrite arg) (argAddr arg) (arg.setWidth 8)
  (r.1, 0x1000 ||| r.2.setWidth 32)

/-- The block size of each function, as `sdioinit` sets it and `sdiorwext` counts with it. -/
def blockSize (fn : BitVec 32) : Nat := if fn = Fn2 then 512 else 64

/-- The bytes of a transfer: blocks of the function, or up to 512 bytes. -/
def argBytes (arg : BitVec 32) : Nat :=
  let count := (arg &&& 0x1FF).toNat
  if argBlk arg then count * blockSize (argFn arg) else if count = 0 then 512 else count

/-- `IO_RW_EXTENDED`: the bytes of the buffer, at consecutive addresses or all at one. -/
def Chip.IO_RW_EXTENDED (c : Chip) (arg : BitVec 32) (a : List Byte) : Chip × List Byte :=
  move (Chip.access answer (argFn arg) (argWrite arg)) c
    (fun i => if argIncr arg then argAddr arg + BitVec.ofNat 32 i else argAddr arg)
    (a.take (argBytes arg))

/-! ## The functions of the driver -/

def sdiord (c : Chip) (fn addr : BitVec 32) : Chip × Byte :=
  let r := c.IO_RW_DIRECT answer ((fn &&& 7) <<< 28 ||| (addr &&& 0x1FFFF) <<< 9)
  if r.2 &&& 0xCF00 ≠ 0 then (r.1, 0) else (r.1, r.2.setWidth 8)

/-- The loop of `sdiowr`: the command is sent again while the response has an error. -/
def sdiowrTry (c : Chip) (arg : BitVec 32) : Nat → Chip
  | 0 => c
  | retry + 1 =>
    let r := c.IO_RW_DIRECT answer arg
    if r.2 &&& 0xCF00 = 0 then r.1 else sdiowrTry r.1 arg retry

def sdiowr (c : Chip) (fn addr data : BitVec 32) : Chip :=
  sdiowrTry answer c (1 <<< 31 ||| (fn &&& 7) <<< 28 ||| (addr &&& 0x1FFFF) <<< 9 |||
    (data &&& 0xFF)) 10

/-- The next transfer of `sdiorwext` for `len` bytes: `blk`, `bcount` and `m`. -/
def nextTransfer (bsize len : Nat) : Bool × Nat × Nat :=
  if 511 * bsize ≤ len then (true, 511, 511 * bsize)
  else if bsize < len then (true, len / bsize, len / bsize * bsize)
  else (false, len, len)

/-- The argument of `IO_RW_EXTENDED`. -/
def extendedArg (fn : BitVec 32) (write blk incr : Bool) (addr : BitVec 32) (bcount : Nat) :
    BitVec 32 :=
  (BitVec.ofBool write).setWidth 32 <<< 31 ||| (fn &&& 7) <<< 28 |||
    (BitVec.ofBool blk).setWidth 32 <<< 27 ||| (BitVec.ofBool incr).setWidth 32 <<< 26 |||
    (addr &&& 0x1FFFF) <<< 9 ||| (BitVec.ofNat 32 bcount &&& 0x1FF)

theorem blockSize_pos (fn : BitVec 32) : 0 < blockSize fn := by
  unfold blockSize
  split <;> decide

theorem nextTransfer_pos {bsize len : Nat} (hb : 0 < bsize) (hlen : 0 < len) :
    0 < (nextTransfer bsize len).2.2 := by
  unfold nextTransfer
  split
  · exact Nat.mul_pos (by decide) hb
  · split
    · have : 0 < len / bsize := Nat.div_pos (by omega) hb
      exact Nat.mul_pos this hb
    · exact hlen

/-- `sdiorwext`, with the buffer after it. -/
def sdiorwext (c : Chip) (fn : BitVec 32) (write : Bool) (a : List Byte) (addr : BitVec 32)
    (incr : Bool) : Chip × List Byte :=
  if _h : a = [] then (c, [])
  else
    let t := nextTransfer (blockSize fn) a.length
    andThen (c.IO_RW_EXTENDED answer (extendedArg fn write t.1 incr addr t.2.1) (a.take t.2.2))
      fun c => sdiorwext c fn write (a.drop t.2.2)
        (if incr then addr + BitVec.ofNat 32 t.2.2 else addr) incr
termination_by a.length
decreasing_by
  have hlen := List.length_pos_iff.mpr _h
  have hm := nextTransfer_pos (blockSize_pos fn) hlen
  rw [List.length_drop]
  omega

def cfgw (c : Chip) (off val : BitVec 32) : Chip := sdiowr answer c Fn1 off val

def cfgwritel (c : Chip) (fn off data : BitVec 32) : Chip :=
  (sdiorwext answer c fn true (put4 data) (off ||| Sb32bit) true).1

def sbwindow (c : Chip) (addr : BitVec 32) : Chip :=
  let addr := addr &&& ~~~ (Sbwsize - 1)
  let c := cfgw answer c Sbaddr (addr >>> 8)
  let c := cfgw answer c (Sbaddr + 1) (addr >>> 16)
  cfgw answer c (Sbaddr + 2) (addr >>> 24)

/-- The loop of `sbrw` over single bytes. -/
def sbrwBytes (write : Bool) (c : Chip) (off : BitVec 32) : List Byte → Chip × List Byte
  | [] => (c, [])
  | b :: buf =>
    let r := if write then (sdiowr answer c Fn1 (off ||| Sb32bit) (b.setWidth 32), b)
      else sdiord answer c Fn1 (off ||| Sb32bit)
    andThen (r.1, [r.2]) fun c => sbrwBytes write c (off + 1) buf

/-- `sbrw`: words first, and then the bytes behind the last word. -/
def sbrw (c : Chip) (write : Bool) (buf : List Byte) (off : BitVec 32) : Chip × List Byte :=
  if 4 ≤ buf.length then
    let n := buf.length / 4 * 4
    andThen (sdiorwext answer c Fn1 write (buf.take n) (off ||| Sb32bit) true)
      fun c => sbrwBytes answer write c (off + BitVec.ofNat 32 n) (buf.drop n)
  else sbrwBytes answer write c off buf

/-- `ROUNDUP(off, Sbwsize)`, in 32 bits. -/
def ROUNDUP (x y : BitVec 32) : BitVec 32 := (x + (y - 1)) / y * y

/-- The bytes up to the end of the window that `off` lies in. -/
def windowRest (off : BitVec 32) : Nat :=
  let n := ROUNDUP off Sbwsize - off
  if n = 0 then Sbwsize.toNat else n.toNat

theorem Sbwsize_pos : 0 < Sbwsize.toNat := by decide

/-- The loop of `sbmem`, with the bytes `n` that the next window takes. -/
def sbmemLoop (write : Bool) (c : Chip) (buf : List Byte) (off : BitVec 32) (n : Nat)
    (_hn : 0 < n) : Chip × List Byte :=
  if _h : buf = [] then (c, [])
  else
    let m := min n buf.length
    andThen (sbrw answer (sbwindow answer c off) write (buf.take m) (off &&& (Sbwsize - 1)))
      fun c => sbmemLoop write c (buf.drop m) (off + BitVec.ofNat 32 m) Sbwsize.toNat Sbwsize_pos
termination_by buf.length
decreasing_by
  have hlen := List.length_pos_iff.mpr _h
  rw [List.length_drop]
  omega

theorem windowRest_pos (off : BitVec 32) : 0 < windowRest off := by
  unfold windowRest
  dsimp only
  split
  · decide
  · rename_i h
    rw [Nat.pos_iff_ne_zero]
    intro h0
    exact h (BitVec.eq_of_toNat_eq h0)

/-- `sbmem`, with the buffer after it. -/
def sbmem (c : Chip) (write : Bool) (buf : List Byte) (off : BitVec 32) : Chip × List Byte :=
  sbmemLoop answer write c buf off (windowRest off) (windowRest_pos off)

end rpi_wifi.ether4330
