-- The language of the formats. A format is a list of pieces: characters, `%%`, and
-- specifications with their flags, width, precision, modifier and conversion. What a piece
-- means is stated here on its own, and `_doprnt` puts out what every format means.
import RpiWifi.PrintfNumbers

namespace rpi_wifi.plibc.doprnt

open ether4330 numbers

/-! ## The syntax -/

inductive Flag where
  | minus
  | zero
  deriving DecidableEq

/-- A minimum field width. Its digits do not begin with a zero, which would be a flag. -/
inductive Width where
  | none
  | star
  | fixed (n : Nat) (pos : 0 < n)

/-- A precision. A period alone is the precision 0. -/
inductive Precision where
  | none
  | star
  | period
  | fixed (n : Nat)

structure Spec where
  flags : List Flag
  width : Width
  precision : Precision
  size : IntegerSize
  conversion : Conversion

inductive Piece where
  | char (c : Byte) (ordinary : c ≠ 0 ∧ c ≠ 37)
  | percent
  | spec (d : Spec)

def Flag.print : Flag → Byte
  | .minus => 45
  | .zero => 48

def Width.print : Width → CString
  | .none => []
  | .star => [42]
  | .fixed n _ => numeral false 10 n

def Precision.print : Precision → CString
  | .none => []
  | .star => [46, 42]
  | .period => [46]
  | .fixed n => 46 :: numeral false 10 n

def IntegerSize.print : IntegerSize → CString
  | .SHORT_SHORT => [104, 104]
  | .SHORT => [104]
  | .REGULAR => []
  | .LONG => [108]

def Conversion.print : Conversion → Byte
  | .c => 99
  | .s => 115
  | .d => 100
  | .u => 117
  | .o => 111
  | .x => 120
  | .X => 88
  | .b => 98

/-- A specification behind its '%'. -/
def Spec.print (d : Spec) : CString :=
  d.flags.map Flag.print ++ (d.width.print ++ (d.precision.print ++
    (d.size.print ++ [d.conversion.print])))

def Piece.print : Piece → CString
  | .char c _ => [c]
  | .percent => [37, 37]
  | .spec d => 37 :: d.print

/-- The text of a format. -/
def formatOf (ps : List Piece) : CString := ps.flatMap Piece.print

/-! ## The meaning -/

/-- The width that a format and its arguments give. -/
def Width.value : Width → List Word → Option (Int × List Word)
  | .none, ap => some (0, ap)
  | .star, ap => (va_arg ap).map fun (arg, ap) => (arg.toInt, ap)
  | .fixed n _, ap => some (n, ap)

/-- The precision, if there is one. An argument below zero is none. -/
def Precision.value : Precision → List Word → Option (Option Nat × List Word)
  | .none, ap => some (Option.none, ap)
  | .star, ap => (va_arg ap).map fun (arg, ap) =>
    (if arg.toInt < 0 then Option.none else some arg.toNat, ap)
  | .period, ap => some (some 0, ap)
  | .fixed n, ap => (fits n).map fun n => (some n, ap)

/-- The sign of an argument and its characters. -/
def Conversion.text (strings : Strings) : Conversion → Word → Option Byte × CString
  | .c, arg => (none, if arg.setWidth 8 = (0 : Byte) then [] else [arg.setWidth 8])
  | .s, arg => (none, if arg = 0 then cstr "(null)" else strings arg)
  | .d, arg => (if arg.toInt < 0 then some 45 else none, numeral false 10 arg.toInt.natAbs)
  | conv, arg => (none, numeral (conv == .X) conv.base arg.toNat)

/-- A precision is the least number of digits of a number, and the most characters of a
string. -/
def withPrecision (numeric : Bool) (prec : Option Nat) (body : CString) : CString :=
  match prec with
  | none => body
  | some p => if numeric then body.leftpad p 48 else body.take p

/-- The field of a text: zeroes behind the sign, or blanks on one of the sides. -/
def layOut (left zeroes : Bool) (width : Nat) (sign : Option Byte) (body : CString) : CString :=
  if left then (sign.toList ++ body).rightpad width 32
  else if zeroes then sign.toList ++ body.leftpad (width - sign.toList.length) 48
  else (sign.toList ++ body).leftpad width 32

/-- What a specification puts out, and the arguments that it leaves. A negative width is a
'-' flag, and zeroes do not pad a number that has a precision. A text whose length is no `int`
has no meaning. -/
def Spec.denote (strings : Strings) (d : Spec) (ap : List Word) : Option (CString × List Word) := do
  let (w, ap) ← d.width.value ap
  let width ← fits w.natAbs
  let (prec, ap) ← d.precision.value ap
  let (arg, ap) ← va_arg ap
  let numeric := d.conversion.base != 0
  let (sign, body) := d.conversion.text strings arg
  let _ ← fits body.length
  let body := withPrecision numeric prec body
  let _ ← fits (sign.toList ++ body).length
  let left := d.flags.contains .minus || decide (w < 0)
  let zeroes := d.flags.contains .zero && !(numeric && prec.isSome)
  return (layOut left zeroes width sign body, ap)

def Piece.denote (strings : Strings) (ap : List Word) : Piece → Option (CString × List Word)
  | .char c _ => some ([c], ap)
  | .percent => some ([37], ap)
  | .spec d => d.denote strings ap

/-- What a format puts out. -/
def denote (strings : Strings) : List Piece → List Word → Option CString
  | [], _ => some []
  | p :: ps, ap => do
    let (out, ap) ← p.denote strings ap
    let rest ← denote strings ps ap
    return out ++ rest

end rpi_wifi.plibc.doprnt
