-- The grammar of an address and what `parseether` takes for one. It reads each pair of
-- characters with `strtoul`, which also reads blanks, a sign, the mark 0x and the characters
-- between '9' and 'A'.
import RpiWifi.HexNumbers

namespace rpi_wifi.plibc.address

open ether4330

/-! ## `parseether` on the bytes of the string -/

/-- `*str`: a byte of the string or its NUL. -/
def load (str : CString) (p : Nat) : Option Byte := (str ++ [0])[p]?

/-- `if (i < 6 && *str == ':') str++`, with `n` groups behind this one. -/
def skipColon (str : CString) (n p : Nat) : Option Nat :=
  if 0 < n then (load str p).map fun c => if c = 58 then p + 1 else p else some p

/-- The loop of `parseether` at place `p`, with `n` groups left. Without a result something
behind the NUL was read. -/
def parseFrom (str : CString) : Nat → Nat → Option (Option (List Byte))
  | 0, p => do return if (← load str p) = 0 then some [] else none
  | n + 1, p => do
    let a ← load str p
    if a = 0 then return none
    let b ← load str (p + 1)
    if b = 0 then return none
    let p ← skipColon str n (p + 2)
    let (v, rest) := strtoul [a, b] 16
    if rest ≠ [] then return none
    return (← parseFrom str n p).map (BitVec.ofNat 8 v :: ·)

def parseether (str : CString) : Option (Option (List Byte)) := parseFrom str 6 0

/-! ## The grammar -/

/-- `n` groups of two hexadecimal digits, with a colon or nothing between them. -/
inductive Groups : Nat → CString → List Byte → Prop where
  | last {a b x y : Byte} (ha : hexDigit a = some x) (hb : hexDigit b = some y) :
      Groups 1 [a, b] [16 * x + y]
  | next {n : Nat} {a b x y : Byte} {s : CString} {addr : List Byte} (ha : hexDigit a = some x)
      (hb : hexDigit b = some y) (hs : Groups (n + 1) s addr) :
      Groups (n + 2) (a :: b :: s) ((16 * x + y) :: addr)
  | colon {n : Nat} {a b x y : Byte} {s : CString} {addr : List Byte} (ha : hexDigit a = some x)
      (hb : hexDigit b = some y) (hs : Groups (n + 1) s addr) :
      Groups (n + 2) (a :: b :: 58 :: s) ((16 * x + y) :: addr)

/-- `parseether` reads no byte behind the NUL, and it takes exactly the addresses. -/
structure Exact (str : CString) : Prop where
  inside : ∃ r, parseether str = some r
  grammar : ∀ addr, parseether str = some (some addr) ↔ Groups 6 str addr

/-! ## What is taken -/

/-- The characters that have a value below 16. -/
def isDigit16 (c : Byte) : Bool := (hexDigit c).isSome || (58 ≤ c.toNat && c.toNat ≤ 63)

/-- The pairs of which `strtoul` leaves nothing. -/
def readsWhole (a b : Byte) : Bool :=
  isSpace a && (isSpace b || isSign b || isDigit16 b) || isSign a && isDigit16 b ||
    a == 48 && (b == 120 || b == 88) || isDigit16 a && isDigit16 b

def isHexPair (a b : Byte) : Bool := (hexDigit a).isSome && (hexDigit b).isSome

/-- The pairs of a string of `n` groups, whatever they are. -/
def pairs : Nat → CString → Option (List (Byte × Byte))
  | 0, s => if s = [] then some [] else none
  | n + 1, a :: b :: s =>
    (pairs n (if 0 < n ∧ s.head? = some 58 then s.drop 1 else s)).map ((a, b) :: ·)
  | _ + 1, _ => none

end rpi_wifi.plibc.address
