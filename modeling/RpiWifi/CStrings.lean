-- The functions of `string.c` that the driver reads its commands with. A C
-- string is the list of its bytes in front of the NUL, and a pointer into it is
-- what is left of the list. A `char` is unsigned, as it is on this machine.
import RpiWifi.Packets

namespace rpi_wifi.plibc

open ether4330

abbrev CString := List Byte

/-- The bytes of a literal. -/
def cstr (s : String) : CString := s.toList.map fun c => BitVec.ofNat 8 c.toNat

/-! ## Comparing and copying -/

def toupper (c : Byte) : Byte := if 97 ≤ c.toNat ∧ c.toNat ≤ 122 then c - 32 else c

/-- `strcasecmp`: the first characters that differ decide, and the end of a string
is below every character. -/
def strcasecmp : CString → CString → Int
  | [], [] => 0
  | [], _ :: _ => -1
  | _ :: _, [] => 1
  | a :: as, b :: bs =>
    if (toupper a).toNat > (toupper b).toNat then 1
    else if (toupper a).toNat < (toupper b).toNat then -1
    else strcasecmp as bs

/-- `strncasecmp`: no more than `nMaxLen` characters are looked at. -/
def strncasecmp (a b : CString) (nMaxLen : Nat) : Int := strcasecmp (a.take nMaxLen) (b.take nMaxLen)

/-- `strncpy` into the bytes of `dest`: at most `nMaxLen` characters, and a NUL
behind them when there is room for it. The bytes behind that are left. -/
def strncpy (dest : List Byte) (src : CString) (nMaxLen : Nat) : List Byte :=
  let copied := src.take nMaxLen ++ if src.length < nMaxLen then [0] else []
  copied ++ dest.drop copied.length

/-! ## Tokens -/

/-- One of the delimiters of `parsecmd`, `" \t\n"`. -/
def isDelim (c : Byte) : Bool := c == 32 || c == 9 || c == 10

/-- `strtok_r`: the next token and what is left behind the delimiter that ends it. -/
def strtok_r (s : CString) : Option (CString × CString) :=
  match s.dropWhile isDelim with
  | [] => none
  | t => some (t.takeWhile (!isDelim ·), (t.dropWhile (!isDelim ·)).drop 1)

/-- The first `n` tokens. -/
def tokens : Nat → CString → List CString
  | 0, _ => []
  | n + 1, s =>
    match strtok_r s with
    | none => []
    | some (t, rest) => t :: tokens n rest

/-! ## Numbers -/

/-- The value of a digit as the loops of `strtoul` compute it. The characters
between '9' and 'A' have values too. -/
def digitOf (c : Byte) : Option Nat :=
  if c.toNat < 48 then none
  else
    let c := (toupper c).toNat
    some ((if 65 ≤ c then c - 7 else c) - 48)

/-- The number of a string: its value, what is left behind it, and whether a digit
was read. `stop` says that the value did not fit. -/
structure Digits where
  value : Nat
  rest : CString
  first : Bool
  stop : Bool

/-- The digits of a number of `w` bits. A value that wraps below the one before it
is replaced by `max`. -/
def readDigits (w base max : Nat) : CString → Nat → Bool → Digits
  | [], r, first => ⟨r, [], first, false⟩
  | c :: cs, r, first =>
    match digitOf c with
    | none => ⟨r, c :: cs, first, false⟩
    | some d =>
      if base ≤ d then ⟨r, c :: cs, first, false⟩
      else
        let r' := (r * base + d) % 2 ^ w
        if r' < r then ⟨max, c :: cs, first, true⟩ else readDigits w base max cs r' false

def isSpace (c : Byte) : Bool := c == 32 || (9 ≤ c.toNat && c.toNat ≤ 13)

/-- The sign of a number, and what is left behind it. -/
def readSign : CString → Bool × CString
  | 43 :: cs => (false, cs)
  | 45 :: cs => (true, cs)
  | cs => (false, cs)

/-- The base of a number and what is left behind its mark. There is none when the
mark is 0x and the base is another one. -/
def readBase (base : Nat) : CString → Option (Nat × CString)
  | 48 :: c :: cs =>
    if c == 120 || c == 88 then if base ≠ 0 ∧ base ≠ 16 then none else some (16, cs)
    else some (if base = 0 then 8 else base, c :: cs)
  | [48] => some (if base = 0 then 8 else base, [])
  | cs => some (if base = 0 then 10 else base, cs)

/-- `strtoul` and `strtoull`, with the value and the end pointer. -/
def strtou (w max : Nat) (s : CString) (base : Nat) : Nat × CString :=
  if base ≠ 0 ∧ (base < 2 ∨ 36 < base) then (0, s)
  else
    let (minus, t) := readSign (s.dropWhile isSpace)
    match readBase base t with
    | none => (0, s)
    | some (base, t) =>
      let d := readDigits w base max t 0 true
      if d.stop || d.first then (d.value, d.rest)
      else (if minus then (2 ^ w - d.value) % 2 ^ w else d.value, d.rest)

/-- `strtoul`. An `unsigned long` has 32 bits. -/
def strtoul (s : CString) (base : Nat) : Nat × CString := strtou 32 (2 ^ 32 - 1) s base

/-- `strtoull`. A value that does not fit becomes `(uint32_t) -1`. -/
def strtoull (s : CString) (base : Nat) : Nat × CString := strtou 64 (2 ^ 32 - 1) s base

def atoi (s : CString) : Int := (BitVec.ofNat 32 (strtoul s 10).1).toInt

/-! ## Hexadecimal digits -/

/-- A hexadecimal digit, as `parsehex` and `wepparsekey` read it. -/
def hexDigit (c : Byte) : Option Byte :=
  if 48 ≤ c.toNat ∧ c.toNat ≤ 57 then some (c - 48)
  else if 97 ≤ c.toNat ∧ c.toNat ≤ 102 then some (c - 97 + 10)
  else if 65 ≤ c.toNat ∧ c.toNat ≤ 70 then some (c - 65 + 10)
  else none

/-- The loop of `parsehex` at digit `i`, with the buffer as it stands. -/
def readHex (buflen : Nat) : CString → List Byte → Nat → List Byte × Nat
  | [], buf, i => (buf, i)
  | c :: cs, buf, i =>
    if i / 2 < buflen then
      match hexDigit c with
      | none => (buf, i)
      | some n =>
        let k := i / 2
        let buf := if i % 2 = 1 then buf.set k (buf.getD k 0 ||| n) else buf.set k (n <<< 4)
        readHex buflen cs buf (i + 1)
    else (buf, i)

/-- `parsehex`: the buffer and the number of bytes, or -1 after an odd digit. -/
def parsehex (buf : List Byte) (buflen : Nat) (a : CString) : List Byte × Int :=
  let (buf, i) := readHex buflen a buf 0
  (buf, if i % 2 = 1 then -1 else (i / 2 : Nat))

/-- The loop of `parseether` from group `i` on: two characters, and a colon that
may follow them. The pair has to be a number as `strtoul` reads it. -/
def readEther : Nat → CString → Option (List Byte)
  | 0, s => if s = [] then some [] else none
  | n + 1, a :: b :: s =>
    let s := if 0 < n ∧ s.head? = some 58 then s.drop 1 else s
    let (v, rest) := strtoul [a, b] 16
    if rest = [] then (readEther n s).map (BitVec.ofNat 8 v :: ·) else none
  | _ + 1, _ => none

/-- `parseether`: the address, if there is no error. -/
def parseether (str : CString) : Option (List Byte) := readEther 6 str

end rpi_wifi.plibc
