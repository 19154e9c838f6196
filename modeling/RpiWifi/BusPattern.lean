-- Writes over a bus with errors, from the pattern of the errors alone. The pattern says
-- which attempts go through; so it says which page each turn of `sbmem` has, which bytes
-- it moves, and where on the backplane these land.
import RpiWifi.BusErrors

namespace rpi_wifi.ether4330.faulty

open transfers write_logs

/-! ## The pattern -/

/-- The page of the backplane behind the window. -/
def page (c : Chip) : BitVec 32 := c.window &&& ~~~ 0x7FFF#32

/-- The place behind the address `off` in a page. -/
def place (page off : BitVec 32) : BitVec 32 := page ||| (off &&& 0x7FFF#32)

variable (fails : Nat → Bool)

/-- The attempts at a write, from command `k` on: one goes through or none does. With
the number of commands after them. -/
def attempts (k : Nat) : Nat → Bool × Nat
  | 0 => (false, k)
  | retry + 1 => if fails k then attempts (k + 1) retry else (true, k + 1)

/-- The page that the three writes of `sbwindow` leave. Each brings the bits of one byte of
the window, or it is lost and the bits of the page before stay. -/
def chosen (page off : BitVec 32) (k : Nat) : BitVec 32 × Nat :=
  let w0 := attempts fails k 10
  let w1 := attempts fails w0.2 10
  let w2 := attempts fails w1.2 10
  ((if w0.1 then off else page) &&& 0x8000#32 ||| (if w1.1 then off else page) &&& 0xFF0000#32 |||
    (if w2.1 then off else page) &&& 0xFF000000#32, w2.2)

/-- The bytes of a buffer that the transfers of `sdiorwext` move, from byte `pos` on. -/
def transferred (k pos len : Nat) : List Nat × Nat :=
  if _h : len = 0 then ([], k)
  else
    let m := (nextTransfer 64 len).2.2
    let rest := transferred (k + 1) (pos + m) (len - m)
    ((if fails k then [] else List.range' pos m) ++ rest.1, rest.2)
termination_by len
decreasing_by
  have hm := nextTransfer_pos (show 0 < 64 by decide) (Nat.pos_of_ne_zero _h)
  omega

/-- The bytes that are moved one by one. -/
def single (k pos : Nat) : Nat → List Nat × Nat
  | 0 => ([], k)
  | len + 1 =>
    let w := attempts fails k 10
    let rest := single w.2 (pos + 1) len
    ((if w.1 then [pos] else []) ++ rest.1, rest.2)

/-- The bytes that `sbrw` moves. -/
def moved (k len : Nat) : List Nat × Nat :=
  if 4 ≤ len then
    let n := len / 4 * 4
    let words := transferred fails k 0 n
    let rest := single fails words.2 n (len - n)
    (words.1 ++ rest.1, rest.2)
  else single fails k 0 len

/-- One turn of `sbmem`: its address, its page, and which bytes of the buffer it moves. -/
structure Turn where
  off : BitVec 32
  page : BitVec 32
  moved : List Nat

/-- The turns of `sbmem` for `len` bytes, of which the first turn takes `n`. -/
def turnsLoop (page off : BitVec 32) (k len n : Nat) (_hn : 0 < n) : List Turn :=
  if _h : len = 0 then []
  else
    let m := min n len
    let w := chosen fails page off k
    let r := moved fails w.2 m
    ⟨off, w.1, r.1⟩ :: turnsLoop w.1 (off + BitVec.ofNat 32 m) r.2 (len - m) Sbwsize.toNat
      Sbwsize_pos
termination_by len

def turns (page off : BitVec 32) (k len : Nat) : List Turn :=
  turnsLoop fails page off k len (windowRest off) (windowRest_pos off)

/-- Where the bytes of a turn land. -/
def Turn.places (t : Turn) : List (BitVec 32) :=
  t.moved.map fun i => place t.page (upFrom t.off i)

end rpi_wifi.ether4330.faulty
