-- The lines that set a key: "txkey" and "rxkey0" to "rxkey3" with an address and a WPA key,
-- and the value of "wsec_key" that the chip has to find in them. The WEP keys are read by a
-- decoder of their own.
import RpiWifi.EtherAddress
import RpiWifi.ControlLaws

namespace rpi_wifi.ether4330.keyline

open plibc plibc.address

/-! ## The texts -/

/-- Two hexadecimal digits for each byte, upper case or lower case. -/
inductive HexText : CString → List Byte → Prop where
  | nil : HexText [] []
  | cons {a b x y : Byte} {s : CString} {bytes : List Byte} (ha : hexDigit a = some x)
      (hb : hexDigit b = some y) (h : HexText s bytes) :
      HexText (a :: b :: s) ((16 * x + y) :: bytes)

/-- Digits of a number in base 16, with any zeros in front. -/
structure HexNumber (s : CString) (v : Nat) : Prop where
  nonempty : s ≠ []
  digits : AllHex s
  value : hexValue s 0 = v

inductive Method where
  | tkip
  | ccmp

def Method.text : Method → String
  | .tkip => "tkip:"
  | .ccmp => "ccmp:"

/-- The word of the command, as `cmds` has it. -/
def slotName : KeySlot → String
  | .rxkey => "rxkey"
  | .group 0 => "rxkey0"
  | .group 1 => "rxkey1"
  | .group 2 => "rxkey2"
  | .group 3 => "rxkey3"
  | .txkey => "txkey"

/-- A line that installs a key, with what its words mean. "rxkey" installs nothing. -/
structure KeyLine where
  slot : KeySlot
  installs : slot ≠ .rxkey
  addr : CString
  ea : List Byte
  groups : Groups 6 addr ea
  method : Method
  hexKey : CString
  key : List Byte
  spells : HexText hexKey key
  nonempty : 1 ≤ key.length
  fits : key.length ≤ WKeyLen
  hexIv : CString
  iv : Nat
  number : HexNumber hexIv iv
  small : iv < 2 ^ 48

/-- The last word: `tkip:<hex key>@<hex iv>`. -/
def KeyLine.keyWord (l : KeyLine) : CString := cstr l.method.text ++ (l.hexKey ++ 64 :: l.hexIv)

def KeyLine.text (l : KeyLine) : CString :=
  cstr (slotName l.slot) ++ 32 :: (l.addr ++ 32 :: l.keyWord)

/-! ## The value of "wsec_key" -/

/-- The bytes of a field. -/
def field (value : List Byte) (off len : Nat) : List Byte := (value.drop off).take len

/-- A number with its low byte first. -/
def littleEndian (bytes : List Byte) : Nat := bytes.foldr (fun b v => b.toNat + 256 * v) 0

/-- The fields of the value are those of the line. -/
structure Carries (value : Packet) (l : KeyLine) : Prop where
  size : value.length = 164
  len : littleEndian (field value 4 4) = l.key.length
  key : field value 8 32 = l.key ++ List.replicate (32 - l.key.length) 0
  ivHigh : littleEndian (field value 140 4) = l.iv / 2 ^ 16
  ivLow : littleEndian (field value 144 2) = l.iv % 2 ^ 16
  ea : l.slot = .txkey → field value 156 6 = l.ea

/-- `etherbcmctl` goes through with the line, and sends one value, which carries the key. -/
def Installs (ctl : Ctlr) (l : KeyLine) (stack : List Byte) (joinstatus : BitVec 32) : Prop :=
  ∃ ctl' value, etherbcmctl ctl l.text stack joinstatus =
    done l.text.length ctl' [wlsetvar "wsec_key" value] ∧ Carries value l

/-- `uint8_t dat[WKeyLen]` in each key of the `Ctlr`. -/
def KeyArrays (ctl : Ctlr) : Prop := ∀ i, (ctl.keys i).dat.length = WKeyLen

/-! ## `wepparsekey` -/

/-- The loop of `wepparsekey` at digit `i`. There is no result at another character. -/
def wepDigits : CString → Nat → List Byte → Nat → Option (List Byte × Nat)
  | [], _, buf, k => some (buf, k)
  | c :: a, i, buf, k =>
    match hexDigit c with
    | none => none
    | some n =>
      if i % 2 = 1 then wepDigits a (i + 1) (buf.set k (buf.getD k 0 ||| n)) (k + 1)
      else wepDigits a (i + 1) (buf.set k (n <<< 4)) k

/-- `char buf[WMaxKeyLen]`, with what the stack holds there. -/
structure WepBuf where
  bytes : List Byte
  size : bytes.length = WMaxKeyLen

/-- `wepparsekey` on a key: the key that it leaves, and its result. -/
def wepparsekey (key : WKey) (buf : WepBuf) (a : CString) : WKey × Int :=
  let len := a.length
  if len = WMinKeyLen ∨ len = WMaxKeyLen then
    (⟨BitVec.ofNat 16 len, padded a WKeyLen⟩, 0)
  else if len = WMinKeyLen * 2 ∨ len = WMaxKeyLen * 2 then
    match wepDigits a 0 buf.bytes 0 with
    | none => (key, -1)
    | some (buf, k) => (⟨BitVec.ofNat 16 k, padded (buf.take k) WKeyLen⟩, 0)
  else (key, -1)

/-- The strings that are taken as they are. -/
def Raw (a : CString) : Prop := a.length = 5 ∨ a.length = 13

/-- The strings of digits. -/
def Digits (a : CString) : Prop := (a.length = 10 ∨ a.length = 26) ∧ AllHex a

/-- What is taken for a WEP key, and what it becomes: the characters, or the bytes that
`parsehex` decodes. Any other string leaves the key as it was. -/
structure TakesWepKeys (key : WKey) (buf : WepBuf) (a : CString) : Prop where
  accepts : (wepparsekey key buf a).2 = 0 ↔ Raw a ∨ Digits a
  raw : Raw a → (wepparsekey key buf a).1.len.toNat = a.length ∧
    (wepparsekey key buf a).1.dat = padded a WKeyLen
  digits : Digits a → ∀ dat : List Byte, dat.length = WKeyLen →
    (parsehex dat WKeyLen a).2 = (wepparsekey key buf a).1.len.toNat ∧
      (wepparsekey key buf a).1.len.toNat = a.length / 2 ∧
      (wepparsekey key buf a).1.dat = padded ((parsehex dat WKeyLen a).1.take (a.length / 2)) WKeyLen
  refuses : (wepparsekey key buf a).2 ≠ 0 → (wepparsekey key buf a).1 = key

end rpi_wifi.ether4330.keyline
