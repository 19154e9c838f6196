-- The formatted output of `doprnt.c` and `vsnprintf.c`: one text in two files, which
-- differ in where a character goes. Every argument has 32 bits here, also a `long`,
-- and the pointer of a `%s` is an argument like the others. The format and the strings are
-- read as the function goes on, in the memory as the output function has left it.
import RpiWifi.CStrings
import RpiWifi.Memory

namespace rpi_wifi.plibc.doprnt

open ether4330 memory

abbrev Word := BitVec 32

/-! ## Numbers -/

def digits_lc : CString := cstr "0123456789abcdef"

def digits_uc : CString := cstr "0123456789ABCDEF"

/-- `base_to_nbits`, which is zero for a base that is no power of two. -/
def base_to_nbits (base : Nat) : Nat :=
  if base = 2 then 1 else if base = 4 then 2 else if base = 8 then 3 else if base = 16 then 4 else 0

/-- The loop with modulo and division: what it stores into `temp`, which has room for
`room` characters more. There is no result when it runs over the end of `temp`. -/
def divisionLoop (digits : CString) (base : Word) : Nat → Word → Option CString
  | 0, _ => none
  | room + 1, num =>
    let c := digits.getD (num % base).toNat 0
    let num := num / base
    if num = 0 then some [c] else (divisionLoop digits base room num).map (c :: ·)

/-- The loop with mask and shift. -/
def shiftLoop (digits : CString) (shift : Nat) : Nat → Word → Option CString
  | 0, _ => none
  | room + 1, num =>
    let c := digits.getD (num &&& ((1 : Word) <<< shift - 1)).toNat 0
    let num := num >>> shift
    if num = 0 then some [c] else (shiftLoop digits shift room num).map (c :: ·)

def LONG_BITS : Nat := 32

/-- `ulong_to_string`: `temp` is filled from its second character on and copied in
reverse, its NUL at last. -/
def ulong_to_string (num : Word) (base : Nat) (alt_digits : Bool) : Option CString :=
  let digits := if alt_digits then digits_uc else digits_lc
  let temp :=
    if base_to_nbits base = 0 then divisionLoop digits (BitVec.ofNat 32 base) LONG_BITS num
    else shiftLoop digits (base_to_nbits base) LONG_BITS num
  temp.map List.reverse

/-! ## The parts of a specification -/

/-- `va_arg`. There is no result behind the last argument. -/
def va_arg : List Word → Option (Word × List Word)
  | [] => none
  | arg :: ap => some (arg, ap)

/-- The flags: `leftjust`, `pad_char`, and what is left of the format. -/
def flags : CString → Bool → Byte → Bool × Byte × CString
  | [], leftjust, pad_char => (leftjust, pad_char, [])
  | c :: fmt, leftjust, pad_char =>
    if c = 45 then flags fmt true pad_char
    else if c = 48 then flags fmt leftjust 48
    else (leftjust, pad_char, c :: fmt)

/-- The digits of a width or of a precision, behind the number `n`. -/
def number : CString → Nat → Nat × CString
  | [], n => (n, [])
  | c :: fmt, n =>
    if 48 ≤ c.toNat ∧ c.toNat ≤ 57 then number fmt (n * 10 + (c.toNat - 48)) else (n, c :: fmt)

/-- A number that is no `int` has no result. -/
def fits (n : Nat) : Option Nat := if n < 2 ^ 31 then some n else none

/-- The minimum field width, with `leftjust` and what is left of the format and of the
arguments. -/
def fieldWidth (fmt : CString) (leftjust : Bool) (ap : List Word) :
    Option (Nat × Bool × CString × List Word) :=
  if fmt.head? = some 42 then do
    let (fmin, ap) ← va_arg ap
    if fmin.toInt < 0 then
      let fmin ← fits fmin.toInt.natAbs
      return (fmin, true, fmt.tail, ap)
    else return (fmin.toNat, leftjust, fmt.tail, ap)
  else do
    let fmin ← fits (number fmt 0).1
    return (fmin, leftjust, (number fmt 0).2, ap)

/-- The precision, which is below zero when there is none. -/
def precision (fmt : CString) (ap : List Word) : Option (Int × CString × List Word) :=
  if fmt.head? = some 46 then
    if fmt.tail.head? = some 42 then do
      let (prec, ap) ← va_arg ap
      return (prec.toInt, fmt.tail.tail, ap)
    else do
      let prec ← fits (number fmt.tail 0).1
      return (prec, (number fmt.tail 0).2, ap)
  else some (-1, fmt, ap)

inductive IntegerSize where
  | SHORT_SHORT
  | SHORT
  | REGULAR
  | LONG
  deriving DecidableEq

/-- The length modifier. -/
def lengthModifier (fmt : CString) : IntegerSize × CString :=
  if fmt.head? = some 108 then (.LONG, fmt.tail)
  else if fmt.head? = some 104 then
    if fmt.tail.head? = some 104 then (.SHORT_SHORT, fmt.tail.tail) else (.SHORT, fmt.tail)
  else (.REGULAR, fmt)

/-- The conversions, by the character of each. -/
inductive Conversion where
  | c
  | s
  | d
  | u
  | o
  | x
  | X
  | b
  deriving DecidableEq

def conversionOf (c : Byte) : Option Conversion :=
  if c = 99 then some .c
  else if c = 115 then some .s
  else if c = 100 then some .d
  else if c = 117 then some .u
  else if c = 111 then some .o
  else if c = 120 then some .x
  else if c = 88 then some .X
  else if c = 98 then some .b
  else none

/-- The base of a conversion, which is zero when it is not numeric. -/
def Conversion.base : Conversion → Nat
  | .c | .s => 0
  | .d | .u => 10
  | .o => 8
  | .x | .X => 16
  | .b => 2

/-- Where the characters of an argument are: in `string`, or where the argument points. -/
inductive Chars where
  | string (s : CString)
  | pointer (p : Word)

/-- The sign and the characters of an argument. The modifiers for the shorter numbers
change nothing, since these are promoted, and an `int` is as long as a `long`. -/
def convert (conv : Conversion) (arg : Word) : Option (Option Byte × Chars) :=
  match conv with
  | .c => some (none, .string (if arg.setWidth 8 = (0 : Byte) then [] else [arg.setWidth 8]))
  | .s => some (none, if arg = 0 then .string (cstr "(null)") else .pointer arg)
  | .d =>
    if arg.toInt < 0 then (ulong_to_string (-arg) 10 false).map (some 45, .string ·)
    else (ulong_to_string arg 10 false).map (none, .string ·)
  | .X => (ulong_to_string arg 16 true).map (none, .string ·)
  | conv => (ulong_to_string arg conv.base false).map (none, .string ·)

/-- A specification that has been read. -/
structure Field where
  leftjust : Bool
  pad_char : Byte
  fmin : Nat
  prec : Int
  numeric : Bool
  sign : Option Byte
  str : Chars

/-- What a round of the loop over the format puts out. -/
inductive Item where
  | literal (c : Byte)
  | field (f : Field)

/-- A specification from behind its '%' on, with what is left of the format and of the
arguments. Of an unknown one only the '%' is put out. -/
def specification (fmt : CString) (ap : List Word) : Option (Item × CString × List Word) := do
  let (leftjust, pad_char, rest) := flags fmt false 32
  let (fmin, leftjust, rest, ap) ← fieldWidth rest leftjust ap
  let pad_char := if leftjust then 32 else pad_char
  let (prec, rest, ap) ← precision rest ap
  let rest := (lengthModifier rest).2
  match rest.head?.bind conversionOf with
  | none => return (.literal 37, fmt, ap)
  | some conv =>
    let (arg, ap) ← va_arg ap
    let (sign, str) ← convert conv arg
    return (.field ⟨leftjust, pad_char, fmin, prec, conv.base != 0, sign, str⟩, rest.tail, ap)

/-- What one round reads. -/
def round (fmt : CString) (ap : List Word) : Option (Item × CString × List Word) :=
  match fmt with
  | [] => none
  | c :: fmt =>
    if c = 37 then
      if fmt.head? = some 37 then some (.literal 37, fmt.tail, ap) else specification fmt ap
    else some (.literal c, fmt, ap)

/-! ## The characters of a specification -/

/-- How often each of the loops goes round. -/
structure Lengths where
  pad_char : Byte
  before : Nat
  num_zeroes : Nat
  len_str : Nat
  behind : Nat

/-- The length computations. A length that is no `int` has no result. -/
def Field.lengths (f : Field) (strlen : Nat) : Option Lengths := do
  let strlen ← fits strlen
  let len_str := if 0 ≤ f.prec ∧ !f.numeric ∧ f.prec < strlen then f.prec.toNat else strlen
  let num_zeroes := if 0 ≤ f.prec ∧ f.numeric then f.prec.toNat - strlen else 0
  let pad_char := if 0 ≤ f.prec ∧ f.numeric then 32 else f.pad_char
  let len_nonpadding ← fits (len_str + num_zeroes + f.sign.toList.length)
  let len_padding := f.fmin - len_nonpadding
  -- Zeroes that pad are put out behind the sign, like those of a precision.
  let zeroPads := !f.leftjust && pad_char == 48
  let num_zeroes := if zeroPads then len_padding else num_zeroes
  let len_padding := if zeroPads then 0 else len_padding
  return ⟨pad_char, if f.leftjust then 0 else len_padding, num_zeroes, len_str,
    if f.leftjust then len_padding else 0⟩

/-! ## The output -/

/-- A function that takes characters: whether it took this one, and its state behind it. -/
abbrev Put (σ : Type) := σ → Byte → Bool × σ

/-- How the function reads in a state: the format from a place in it on, the place that is
some characters behind another one, the `strlen` of a string, and a character of it. -/
structure Reader (σ κ : Type) where
  format : σ → κ → CString
  skip : κ → Nat → κ
  strlen : σ → Word → Nat
  char : σ → Word → Nat → Byte

/-- The function goes on, or it has returned `EOF` in a state. -/
abbrev Run (σ : Type) := ExceptT σ Option

section output

variable {σ κ : Type} (r : Reader σ κ) (putc_func : Put σ)

/-- A character is put out, in a state and behind `chars_written` others. There is no result
when their number is no `int`. -/
def putc (c : Byte) (x : σ × Nat) : Run σ (σ × Nat) :=
  match putc_func x.1 c with
  | (true, s) => do return (s, ← fits (x.2 + 1))
  | (false, s) => throw s

/-- The loop over `i`: `n` characters from the `i`th one on. -/
def putEach (char : σ → Nat → Byte) : Nat → Nat → σ × Nat → Run σ (σ × Nat)
  | 0, _, x => pure x
  | n + 1, i, x => do putEach char n (i + 1) (← putc putc_func (char x.1 i) x)

def Chars.strlen (s : σ) : Chars → Nat
  | .string t => t.length
  | .pointer p => r.strlen s p

def Chars.char (s : σ) : Chars → Nat → Byte
  | .string t, i => t.getD i 0
  | .pointer p, i => r.char s p i

def putSign : Option Byte → σ × Nat → Run σ (σ × Nat)
  | none, x => pure x
  | some sign, x => putc putc_func sign x

/-- The padding on the left, the sign, the zeroes, the characters, and the padding on the
right. -/
def Field.put (f : Field) (x : σ × Nat) : Run σ (σ × Nat) := do
  let l ← f.lengths (f.str.strlen r x.1)
  let x ← putEach putc_func (fun _ _ => l.pad_char) l.before 0 x
  let x ← putSign putc_func f.sign x
  let x ← putEach putc_func (fun _ _ => 48) l.num_zeroes 0 x
  let x ← putEach putc_func (f.str.char r) l.len_str 0 x
  putEach putc_func (fun _ _ => l.pad_char) l.behind 0 x

def Item.put : Item → σ × Nat → Run σ (σ × Nat)
  | .literal c, x => putc putc_func c x
  | .field f, x => f.put r putc_func x

/-- The loop over the format, for at most `n` rounds. -/
def formatLoop : Nat → κ → List Word → σ × Nat → Run σ (σ × Nat)
  | 0, fmt, _, x => if r.format x.1 fmt = [] then pure x else ExceptT.mk none
  | n + 1, fmt, ap, x =>
    let text := r.format x.1 fmt
    if text = [] then pure x
    else do
      let (item, rest, ap) ← round text ap
      formatLoop n (r.skip fmt (text.length - rest.length)) ap (← item.put r putc_func x)

def EOF : Int := -1

/-- What is returned, and the state behind it. -/
def returned : Except σ (σ × Nat) → Int × σ
  | .ok (s, chars_written) => (chars_written, s)
  | .error s => (EOF, s)

end output

/-! ## A format and strings that stay -/

/-- The string that an address points at. -/
abbrev Strings := Word → CString

variable {σ : Type}

/-- A place in a format is what is left of it, and nothing changes the format and the
strings. -/
def textReader (strings : Strings) : Reader σ CString where
  format := fun _ fmt => fmt
  skip := fun fmt k => fmt.drop k
  strlen := fun _ p => (strings p).length
  char := fun _ p i => (strings p).getD i 0

/-- `_doprnt` for a format and strings that the output function leaves alone. Each round
leaves less of the format, so that `n` rounds are enough for `n` characters. -/
def _doprnt (put : Put σ) (strings : Strings) (fmt : CString) (ap : List Word) (s : σ) :
    Option (Int × σ) :=
  (formatLoop (textReader strings) put fmt.length fmt ap (s, 0)).run.map returned

/-! ## The memory -/

/-- The bytes from `p` on, up to a NUL, and `n` at most. -/
def bytesFrom (m : Mem) : Nat → Nat → CString
  | 0, _ => []
  | n + 1, p => if m (p % 2 ^ 32) = 0 then [] else m (p % 2 ^ 32) :: bytesFrom m n (p + 1)

/-- The string at an address. -/
def stringAt (m : Mem) (p : Nat) : CString := bytesFrom m (2 ^ 32) p

/-- An output function, and the memory in its state. -/
structure Device (σ : Type) where
  put : Put σ
  mem : σ → Mem

def Device.reader (d : Device σ) : Reader σ Nat where
  format := fun s fmt => stringAt (d.mem s) fmt
  skip := fun fmt k => fmt + k
  strlen := fun s p => (stringAt (d.mem s) p.toNat).length
  char := fun s p i => d.mem s ((p.toNat + i) % 2 ^ 32)

/-- `_doprnt` with the format at an address, for at most `n` rounds. -/
def Device._doprnt (d : Device σ) (n fmt : Nat) (ap : List Word) (s : σ) : Option (Int × σ) :=
  (formatLoop d.reader d.put n fmt ap (s, 0)).run.map returned

/-- `*buf++ = c`, with the memory and `buf` as the state. -/
def store : Device (Mem × Nat) where
  put := fun (m, buf) c => (true, (Function.update m (buf % 2 ^ 32) c, buf + 1))
  mem := Prod.fst

/-- `vsprintf`: the number of characters, and the memory behind it. -/
def vsprintf (n buf fmt : Nat) (ap : List Word) (m : Mem) : Option (Int × Mem) :=
  (store._doprnt n fmt ap (m, buf)).map fun (i, m, _) => (i, m)

/-- `snprint`, which does not look at the size of its buffer. -/
def snprint (n str _str_size fmt : Nat) (ap : List Word) (m : Mem) : Option (Int × Mem) :=
  (vsprintf n str fmt ap m).map fun (i, m) =>
    (i, Function.update m ((str + i.toNat) % 2 ^ 32) 0)

end rpi_wifi.plibc.doprnt
