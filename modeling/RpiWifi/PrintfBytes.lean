-- Bytes that are printed with two digits each, as the driver prints an address. `parsehex`
-- and `parseether` read them back.
import RpiWifi.PrintfOutput
import RpiWifi.HexBytes
import RpiWifi.EtherAddressLaws

namespace rpi_wifi.plibc.doprnt

open ether4330

variable {strings : Strings} {alt : Bool} {b : Byte} {bs : List Byte}

/-! ## A byte -/

/-- `%02X`, or `%02x`. -/
def byteSpec (alt : Bool) : Spec :=
  ⟨[.zero], .fixed 2 (by decide), .none, .REGULAR, if alt then .X else .x⟩

/-- The digits of a byte, the high one first. -/
def hexPair (alt : Bool) (b : Byte) : CString :=
  [digitChar alt (b.toNat / 16), digitChar alt (b.toNat % 16)]

theorem numeral_byte (alt : Bool) (b : Byte) :
    (numeral alt 16 b.toNat).leftpad 2 48 = hexPair alt b := by
  have hlt := b.isLt
  by_cases h : b.toNat / 16 = 0
  · have hzero : digitChar alt 0 = 48 := by cases alt <;> rfl
    rw [numeral_small h (by decide), hexPair, h, hzero]
    rfl
  · have hhigh : b.toNat / 16 / 16 = 0 := by omega
    have hmod : b.toNat / 16 % 16 = b.toNat / 16 := Nat.mod_eq_of_lt (by omega)
    rw [numeral_more h (by decide), numeral_small hhigh (by decide), hmod]
    rfl

theorem byteSpec_denote (strings : Strings) (alt : Bool) (b : Byte) (ap : List Word) :
    (byteSpec alt).denote strings (b.setWidth 32 :: ap) = some (hexPair alt b, ap) := by
  have hlt := b.isLt
  have hword : (b.setWidth 32).toNat = b.toNat := by
    rw [BitVec.toNat_setWidth, Nat.mod_eq_of_lt (by omega)]
  have hlen : ∀ n < 256, (numeral alt 16 n).length ≤ 2 := by
    intro n hn
    by_cases h : n / 16 = 0
    · simp [numeral_small h]
    · rw [numeral_more h (by decide), numeral_small (show n / 16 / 16 = 0 by omega) (by decide)]
      simp
  have hfit : fits (numeral alt 16 b.toNat).length = some (numeral alt 16 b.toNat).length := by
    have hshort := hlen b.toNat hlt
    exact if_pos (by omega)
  have hpad := numeral_byte alt b
  have htext : (if alt then Conversion.X else .x).text strings (b.setWidth 32) =
      (none, numeral alt 16 b.toNat) := by
    rw [← hword]
    cases alt <;> rfl
  have hbase : ((if alt then Conversion.X else .x).base != 0) = true := by cases alt <;> rfl
  have hwidth : fits (2 : Int).natAbs = some 2 := rfl
  simp only [Spec.denote, byteSpec, Width.value, Precision.value, va_arg, htext, hbase,
    withPrecision, Option.bind_eq_bind, Option.bind_some, Option.toList_none, List.nil_append,
    Nat.cast_ofNat, hwidth, hfit]
  rw [← hpad]
  rfl

theorem denote_bytes (strings : Strings) (alt : Bool) (bs : List Byte) :
    denote strings (bs.map fun _ => .spec (byteSpec alt)) (bs.map (·.setWidth 32)) =
      some (bs.flatMap (hexPair alt)) := by
  induction bs with
  | nil => rfl
  | cons b bs ih =>
    rw [List.map_cons, List.map_cons, denote, Piece.denote, byteSpec_denote, Option.bind_eq_bind,
      Option.bind_some]
    dsimp only
    rw [ih]
    rfl

/-! ## The digits -/

theorem hexDigit_digitChar : ∀ alt, ∀ d < 16,
    hexDigit (digitChar alt d) = some (BitVec.ofNat 8 d) := by
  decide

theorem hexPair_high (alt : Bool) (b : Byte) :
    hexDigit (digitChar alt (b.toNat / 16)) = some (BitVec.ofNat 8 (b.toNat / 16)) :=
  hexDigit_digitChar alt _ (by have := b.isLt; omega)

theorem hexPair_low (alt : Bool) (b : Byte) :
    hexDigit (digitChar alt (b.toNat % 16)) = some (BitVec.ofNat 8 (b.toNat % 16)) :=
  hexDigit_digitChar alt _ (Nat.mod_lt _ (by decide))

theorem allHex_bytes (alt : Bool) (bs : List Byte) : AllHex (bs.flatMap (hexPair alt)) := by
  intro c hc
  obtain ⟨b, -, hc⟩ := List.mem_flatMap.mp hc
  rcases List.mem_cons.mp hc with rfl | hc
  · rw [hexPair_high]
    rfl
  · rw [List.mem_singleton.mp hc, hexPair_low]
    rfl

theorem halves_of_byte : ∀ b : Byte,
    (BitVec.ofNat 8 (b.toNat / 16) : Byte) <<< 4 ||| BitVec.ofNat 8 (b.toNat % 16) = b ∧
      16 * BitVec.ofNat 8 (b.toNat / 16) + BitVec.ofNat 8 (b.toNat % 16) = b := by
  decide +kernel

theorem packHex_bytes (alt : Bool) (bs : List Byte) : packHex (bs.flatMap (hexPair alt)) = bs := by
  induction bs with
  | nil => rfl
  | cons b bs ih =>
    rw [List.flatMap_cons, hexPair, List.cons_append, List.cons_append, List.nil_append, packHex, ih,
      nibble_some (hexPair_high alt b), nibble_some (hexPair_low alt b), (halves_of_byte b).1]

theorem length_bytes (alt : Bool) (bs : List Byte) :
    (bs.flatMap (hexPair alt)).length = 2 * bs.length := by
  induction bs with
  | nil => rfl
  | cons b bs ih =>
    rw [List.flatMap_cons, List.length_append, ih, List.length_cons]
    change 2 + 2 * bs.length = 2 * (bs.length + 1)
    omega

/-! ## What reads them -/

/-- Bytes that were printed in digits of either case are read back by `parsehex`, when its
buffer has room for them. Two characters for each of `2 ^ 30` bytes are more than an `int`
counts. -/
theorem printed_bytes_are_read_back (strings : Strings) (alt : Bool) {n : Nat} {buf : List Byte}
    (hroom : bs.length ≤ n) (hbuf : n ≤ buf.length) (hcount : bs.length < 2 ^ 30) : ∃ out,
      _doprnt record strings (formatOf (bs.map fun _ => .spec (byteSpec alt)))
        (bs.map (·.setWidth 32)) [] = some ((out.length : Int), out) ∧
      parsehex buf n out = (bs ++ buf.drop bs.length, (bs.length : Int)) := by
  refine ⟨bs.flatMap (hexPair alt), ?_, ?_⟩
  · apply doprnt_of_denote (denote_bytes strings alt bs)
    rw [length_bytes]
    omega
  · have hlen := length_bytes alt bs
    have hall : hexPrefix n (bs.flatMap (hexPair alt)) = bs.flatMap (hexPair alt) := by
      have h := @hexPrefix_all _ n (allHex_bytes alt bs) (by omega) [] (by simp)
      rwa [List.append_nil] at h
    rw [parsehex_eq _ hbuf, hall, packHex_bytes, hlen, if_neg (by omega)]
    have hhalf : 2 * bs.length / 2 = bs.length := by omega
    rw [hhalf]

theorem three_bytes_are_read_back : ∃ out,
    _doprnt record (fun _ => []) (formatOf (([0xF0, 0x0D, 0x07] : List Byte).map fun _ =>
      .spec (byteSpec true))) (([0xF0, 0x0D, 0x07] : List Byte).map (·.setWidth 32)) [] =
        some ((out.length : Int), out) ∧
    parsehex [1, 2, 3, 4] 4 out = ([0xF0, 0x0D, 0x07] ++ [4], 3) :=
  printed_bytes_are_read_back (fun _ => []) true (by decide) (by decide) (by decide)

/-! ## Addresses -/

/-- The pieces of an address of `n` bytes, with colons between them. -/
def addressPieces : Nat → List Piece
  | 0 => []
  | 1 => [.spec (byteSpec true)]
  | n + 2 => .spec (byteSpec true) :: .char 58 (by decide) :: addressPieces (n + 1)

/-- The text of an address. -/
def addressText : List Byte → CString
  | [] => []
  | [b] => hexPair true b
  | b :: bs => hexPair true b ++ 58 :: addressText bs

theorem denote_address (strings : Strings) (bs : List Byte) :
    denote strings (addressPieces bs.length) (bs.map (·.setWidth 32)) = some (addressText bs) := by
  induction bs with
  | nil => rfl
  | cons b bs ih =>
    cases bs with
    | nil =>
      rw [List.length_singleton, addressPieces, List.map_singleton, denote, Piece.denote,
        byteSpec_denote]
      rfl
    | cons d bs =>
      rw [List.length_cons] at ih
      rw [List.length_cons, List.length_cons, addressPieces, List.map_cons]
      simp only [denote, Piece.denote, byteSpec_denote, Option.bind_eq_bind, Option.bind_some, ih]
      rfl

theorem groups_of_address (b : Byte) (bs : List Byte) :
    address.Groups (bs.length + 1) (addressText (b :: bs)) (b :: bs) := by
  induction bs generalizing b with
  | nil =>
    have h := address.Groups.last (hexPair_high true b) (hexPair_low true b)
    rwa [(halves_of_byte b).2] at h
  | cons d bs ih =>
    have h := address.Groups.colon (hexPair_high true b) (hexPair_low true b) (ih d)
    rwa [(halves_of_byte b).2] at h

theorem addressText_length (b : Byte) (bs : List Byte) :
    (addressText (b :: bs)).length = 3 * bs.length + 2 := by
  induction bs generalizing b with
  | nil => rfl
  | cons d bs ih =>
    have hcons : addressText (b :: d :: bs) = hexPair true b ++ 58 :: addressText (d :: bs) := rfl
    rw [hcons, List.length_append, List.length_cons, ih, List.length_cons]
    change 2 + (3 * bs.length + 2 + 1) = 3 * (bs.length + 1) + 2
    omega

theorem addressText_nonzero (bs : List Byte) : 0 ∉ addressText bs := by
  have hpair : ∀ b, 0 ∉ hexPair true b := by decide +kernel
  induction bs with
  | nil => exact List.not_mem_nil
  | cons b bs ih =>
    cases bs with
    | nil => exact hpair b
    | cons d bs =>
      rw [addressText, List.mem_append, List.mem_cons]
      · rintro (h | h | h)
        · exact hpair b h
        · exact absurd h (by decide)
        · exact ih h
      · exact List.cons_ne_nil d bs

/-- An address that the driver prints is read back by `parseether`. -/
theorem a_printed_address_is_read_back (strings : Strings) (addr : List Byte)
    (h : addr.length = 6) : ∃ out,
      _doprnt record strings (cstr "%02X:%02X:%02X:%02X:%02X:%02X") (addr.map (·.setWidth 32)) [] =
        some ((out.length : Int), out) ∧
      address.parseether out = some (some addr) := by
  obtain ⟨b, bs, rfl⟩ : ∃ b bs, addr = b :: bs := List.exists_cons_of_length_eq_add_one h
  have hlen : bs.length + 1 = 6 := h
  have hfmt : formatOf (addressPieces (b :: bs).length) =
      cstr "%02X:%02X:%02X:%02X:%02X:%02X" := by
    rw [h]
    decide
  refine ⟨addressText (b :: bs), ?_, ?_⟩
  · rw [← hfmt]
    apply doprnt_of_denote (denote_address strings (b :: bs))
    rw [addressText_length]
    omega
  · obtain ⟨ps, hps, hhex, heq⟩ := (groups_of_address b bs).pairs
    rw [hlen] at hps
    rw [address.parseether, address.parseFrom_eq (addressText_nonzero _) 6 (Nat.zero_le _),
      List.drop_zero, address.readEther_pairs, hps, Option.bind_some,
      if_pos fun p hp => address.readsWhole_of_hex (hhex p hp), ← heq]

theorem an_address_is_read_back : ∃ out,
    _doprnt record (fun _ => []) (cstr "%02X:%02X:%02X:%02X:%02X:%02X")
        (([0xB8, 0x27, 0xEB, 0, 1, 0xAF] : List Byte).map (·.setWidth 32)) [] =
      some ((out.length : Int), out) ∧
    address.parseether out = some (some [0xB8, 0x27, 0xEB, 0, 1, 0xAF]) :=
  a_printed_address_is_read_back (fun _ => []) [0xB8, 0x27, 0xEB, 0, 1, 0xAF] rfl

end rpi_wifi.plibc.doprnt
