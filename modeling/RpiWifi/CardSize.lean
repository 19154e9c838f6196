-- The size of an SD card, which both drivers decode from its CSD register. The EMMC driver
-- puts the bytes of the response in order and masks each field, and the SDHOST driver
-- takes any field with one function. An overflow of an `int` wraps.
import RpiWifi.BitFields

namespace rpi_wifi.card_size

open bit_fields

abbrev Byte := BitVec 8

abbrev Word := BitVec 32

/-! ## The EMMC driver -/

/-- The fields of a CSD that the two versions lay out differently. -/
inductive Size where
  | v1 (c_size : BitVec 12) (vdd_r_curr_min vdd_r_curr_max vdd_w_curr_min vdd_w_curr_max
      c_size_mult : BitVec 3)
  | v2 (ver2_c_size : BitVec 22)
  deriving DecidableEq

/-- `struct CSD`. -/
structure CSD where
  csd_structure : BitVec 2
  spec_vers : BitVec 6
  taac : Byte
  nsac : Byte
  tran_speed : Byte
  ccc : BitVec 12
  read_bl_len : BitVec 4
  read_bl_partial : BitVec 1
  write_blk_misalign : BitVec 1
  read_blk_misalign : BitVec 1
  dsr_imp : BitVec 1
  size : Size
  erase_blk_en : BitVec 1
  sector_size : BitVec 7
  wp_grp_size : BitVec 7
  wp_grp_enable : BitVec 1
  default_ecc : BitVec 5
  r2w_factor : BitVec 3
  write_bl_len : BitVec 4
  write_bl_partial : BitVec 1
  file_format_grp : BitVec 1
  copy : BitVec 1
  perm_write_protect : BitVec 1
  tmp_write_protect : BitVec 1
  file_format : BitVec 2
  ecc : BitVec 2
  deriving DecidableEq

/-- `(b & mask) ? 1 : 0` -/
def flag (b mask : Byte) : BitVec 1 := if b &&& mask ≠ 0 then 1 else 0

/-- The buffer of `unpack_csd`, where `RESP` are the four response registers: the last
one stands in front. -/
def csdBuf (RESP : Nat → Word) (k : Nat) : Byte := (RESP (3 - k / 4)).extractLsb' (8 * (k % 4)) 8

/-- The size fields of a CSD of version 2.0. -/
def unpackSize2 (buf : Nat → Byte) : BitVec 22 :=
  (buf 11 &&& 0x3F).setWidth 22 <<< 16 + (buf 10).setWidth 22 <<< 8 + (buf 9).setWidth 22

/-- `c_size` of a CSD of any other version. -/
def unpackSize1 (buf : Nat → Byte) : BitVec 12 :=
  ((buf 4 &&& 0x03).setWidth 12 <<< 8 + (buf 11).setWidth 12) <<< 2 +
    ((buf 10 &&& 0xc0) >>> 6).setWidth 12

def unpackSize (buf : Nat → Byte) (csd_structure : BitVec 2) : Size :=
  if csd_structure = 1 then .v2 (unpackSize2 buf)
  else
    .v1 (unpackSize1 buf)
      (((buf 10 &&& 0x38) >>> 3).setWidth 3)
      ((buf 10 &&& 0x07).setWidth 3)
      (((buf 9 &&& 0xe0) >>> 5).setWidth 3)
      (((buf 9 &&& 0x1c) >>> 2).setWidth 3)
      ((buf 9 &&& 0x03).setWidth 3 <<< 1 ||| ((buf 8 &&& 0x80) >>> 7).setWidth 3)

/-- `sdCard.CardCapacity`. The product of the second version is one of 64 bits, and the
product of the first version is an `int`. -/
def cardCapacity (read_bl_len : BitVec 4) : Size → BitVec 64
  | .v2 ver2_c_size => ver2_c_size.setWidth 64 * (512 * 1024)
  | .v1 c_size _ _ _ _ c_size_mult =>
    let product := (c_size.setWidth 32 + 1) * (1 : Word) <<< (c_size_mult.toNat + 2) *
      (1 : Word) <<< read_bl_len.toNat
    product.signExtend 64

/-- What `unpack_csd` writes. -/
structure Unpacked where
  csd : CSD
  CardCapacity : BitVec 64
  deriving DecidableEq

def unpack_csd (RESP : Nat → Word) : Unpacked :=
  let buf := csdBuf RESP
  let csd_structure : BitVec 2 := ((buf 2 &&& 0xc0) >>> 6).setWidth 2
  let read_bl_len : BitVec 4 := (buf 5 &&& 0x0f).setWidth 4
  let size := unpackSize buf csd_structure
  { CardCapacity := cardCapacity read_bl_len size
    csd :=
      { csd_structure, read_bl_len, size
        spec_vers := (buf 2 &&& 0x3F).setWidth 6
        taac := buf 1
        nsac := buf 0
        tran_speed := buf 7
        ccc := (buf 6).setWidth 12 <<< 4 ||| ((buf 5 &&& 0xf0) >>> 4).setWidth 12
        read_bl_partial := flag (buf 4) 0x80
        write_blk_misalign := flag (buf 4) 0x40
        read_blk_misalign := flag (buf 4) 0x20
        dsr_imp := flag (buf 4) 0x10
        erase_blk_en := ((buf 8 &&& 0x40) >>> 6).setWidth 1
        sector_size := ((buf 15 &&& 0x80) >>> 1 ||| (buf 8 &&& 0x3F)).setWidth 7
        wp_grp_size := (buf 15 &&& 0x7f).setWidth 7
        wp_grp_enable := flag (buf 14) 0x80
        default_ecc := ((buf 14 &&& 0x60) >>> 5).setWidth 5
        r2w_factor := ((buf 14 &&& 0x1c) >>> 2).setWidth 3
        write_bl_len := (buf 14 &&& 0x03).setWidth 4 <<< 2 ||| ((buf 13 &&& 0xc0) >>> 6).setWidth 4
        write_bl_partial := flag (buf 13) 0x20
        file_format_grp := flag (buf 12) 0x80
        copy := flag (buf 12) 0x40
        perm_write_protect := flag (buf 12) 0x20
        tmp_write_protect := flag (buf 12) 0x10
        file_format := ((buf 12 &&& 0x0c) >>> 2).setWidth 2
        ecc := (buf 12 &&& 0x03).setWidth 2 } }

/-! ## The SDHOST driver -/

/-- The byte at `(uint8_t*) src + k`. -/
def byteAt (src : Nat → Word) (k : Nat) : Byte := (src (k / 4)).extractLsb' (8 * (k % 4)) 8

/-- The loop of `__bitfield`, with at most `n` rounds to go. -/
def bitfieldLoop (src : Nat → Word) : Nat → Nat → Nat → Nat → Word → Word
  | 0, _, _, _, dst => dst
  | n + 1, start, len, shift, dst =>
    if len = 0 then dst
    else
      let bs := start % 8
      let bc := min (8 - bs) len
      bitfieldLoop src n (start + bc) (len - bc) (shift + bc)
        (dst ||| ((byteAt src (start / 8)).setWidth 32 >>> bs) <<< shift)

/-- `__bitfield` of the source. Each round of its loop takes a bit or more, so `len` rounds are enough. -/
def bitfield (src : Nat → Word) (start len : Int) : Word :=
  if start < 0 ∨ len < 0 ∨ 32 < len then 0
  else
    let len := len.toNat
    let mask := if len % 32 ≠ 0 then BitVec.allOnes 32 >>> (32 - len % 32) else BitVec.allOnes 32
    bitfieldLoop src len start.toNat len 0 0 &&& mask

def SD_CSD_CSDVER (csd : Nat → Word) : Word := bitfield csd 126 2

def SD_CSD_READ_BL_LEN (csd : Nat → Word) : Word := bitfield csd 80 4

def SD_CSD_C_SIZE (csd : Nat → Word) : Word := bitfield csd 62 12

def SD_CSD_C_SIZE_MULT (csd : Nat → Word) : Word := bitfield csd 47 3

def SD_CSD_CAPACITY (csd : Nat → Word) : Word :=
  (SD_CSD_C_SIZE csd + 1) <<< (SD_CSD_C_SIZE_MULT csd + 2).toNat

def SD_CSD_V2_C_SIZE (csd : Nat → Word) : Word := bitfield csd 48 22

def SD_CSD_V2_CAPACITY (csd : Nat → Word) : Word := (SD_CSD_V2_C_SIZE csd + 1) <<< 10

def SD_CSD_V2_BL_LEN : Nat := 9

/-- What `print_csd` prints, but for the texts around. -/
structure Printed where
  version : Nat
  capacity : Word
  size : Word
  block_length : Word
  capacity_bytes : Word
  clock_div : Word
  deriving DecidableEq

/-- `print_csd`. Of an unknown version nothing is decoded. -/
def print_csd (csd : Nat → Word) : Option Printed :=
  if SD_CSD_CSDVER csd = 1 then
    let block_length := (1 : Word) <<< SD_CSD_V2_BL_LEN
    some
      { version := 2, capacity := SD_CSD_V2_CAPACITY csd, size := SD_CSD_V2_C_SIZE csd
        block_length, capacity_bytes := SD_CSD_V2_CAPACITY csd * block_length, clock_div := 5 }
  else if SD_CSD_CSDVER csd = 0 then
    let block_length := (1 : Word) <<< (SD_CSD_READ_BL_LEN csd).toNat
    some
      { version := 1, capacity := SD_CSD_CAPACITY csd, size := SD_CSD_C_SIZE csd
        block_length, capacity_bytes := SD_CSD_CAPACITY csd * block_length, clock_div := 10 }
  else none

/-! ## The register and its layouts -/

/-- The response registers of the EMMC hold the bits from 8 on, right-aligned. -/
def emmcLayout (csd : BitVec 128) (i : Nat) : Word := csd.extractLsb' (8 + 32 * i) 32

/-- The response words of the SDHOST hold all the bits. -/
def sdhostLayout (csd : BitVec 128) (i : Nat) : Word := csd.extractLsb' (32 * i) 32

/-- The version of a CSD: 0 is version 1.0, and 1 is version 2.0. -/
def csdVersion (csd : BitVec 128) : BitVec 2 := csd.extractLsb' 126 2

/-- The bytes of a card of version 2.0. -/
def size2 (csd : BitVec 128) : Nat := ((csd.extractLsb' 48 22).toNat + 1) * (512 * 1024)

/-- The bytes of a card of version 1.0. -/
def size1 (csd : BitVec 128) : Nat :=
  ((csd.extractLsb' 62 12).toNat + 1) * 2 ^ ((csd.extractLsb' 47 3).toNat + 2) *
    2 ^ (csd.extractLsb' 80 4).toNat

/-- Both decoders find the bytes of the card. -/
def BothFind (csd : BitVec 128) (bytes : Nat) : Prop :=
  (unpack_csd (emmcLayout csd)).CardCapacity.toNat = bytes ∧
    ∃ p, print_csd (sdhostLayout csd) = some p ∧ p.capacity_bytes.toNat = bytes

/-- The decoders agree on the size of the card. -/
def SizesAgree (csd : BitVec 128) : Prop :=
  (csdVersion csd = 1 → BothFind csd (size2 csd)) ∧ (csdVersion csd = 0 → BothFind csd (size1 csd))

/-! ## The fields of the EMMC driver -/

/-- The buffer holds the bytes of each word in their order. -/
theorem csdBuf_emmcLayout (csd : BitVec 128) (k : Nat) :
    csdBuf (emmcLayout csd) k = csd.extractLsb' (8 + 32 * (3 - k / 4) + 8 * (k % 4)) 8 :=
  field_field csd _ (by omega)

theorem flag_twoPow (b : Byte) (j : Nat) : flag b (BitVec.twoPow 8 j) = b.extractLsb' j 1 := by
  unfold flag
  ext i hi
  obtain rfl : i = 0 := by omega
  rw [BitVec.and_twoPow]
  cases hb : b.getLsbD j
  · simp [hb]
  · have hj : j < 8 := BitVec.lt_of_getLsbD hb
    have hne : BitVec.twoPow 8 j ≠ 0#8 := by
      intro h
      have := congrArg (fun v => BitVec.getLsbD v j) h
      simp [hj] at this
    simp [hb, hne]

/-- A flag of a byte is a bit of the register. -/
theorem flag_byte (csd : BitVec 128) (p j : Nat) (mask : Byte) (hj : j + 1 ≤ 8)
    (hmask : mask = BitVec.twoPow 8 j) :
    flag (csd.extractLsb' p 8) mask = csd.extractLsb' (p + j) 1 := by
  rw [hmask, flag_twoPow, field_field csd p hj]

/-- A masked field of a byte is a field of the register. -/
theorem masked_byte (csd : BitVec 128) (p s w n : Nat) (mask : Byte) (h : s + w ≤ 8)
    (hmask : mask = (BitVec.allOnes w).setWidth 8 <<< s) :
    ((csd.extractLsb' p 8 &&& mask) >>> s).setWidth n =
      (csd.extractLsb' (p + s) w).setWidth n := by
  rw [masked _ s w hmask, field_field csd p h, BitVec.setWidth_setWidth (by omega)]

/-- A mask without a shift. -/
theorem masked_low (csd : BitVec 128) (p w n : Nat) (mask : Byte) (h : w ≤ 8)
    (hmask : mask = (BitVec.allOnes w).setWidth 8) :
    (csd.extractLsb' p 8 &&& mask).setWidth n = (csd.extractLsb' p w).setWidth n := by
  have hfield := masked_byte csd p 0 w n mask (by omega) (by simpa using hmask)
  simpa using hfield

theorem unpackSize2_eq (csd : BitVec 128) :
    unpackSize2 (csdBuf (emmcLayout csd)) = csd.extractLsb' 48 22 := by
  simp only [unpackSize2, csdBuf_emmcLayout, Nat.reduceMul, Nat.reduceDiv, Nat.reduceSub,
    Nat.reduceMod, Nat.reduceAdd]
  rw [masked_low csd 64 6 22 0x3F (by decide) rfl, BitVec.add_assoc, join_add csd 48 8 8,
    join_add csd 48 16 6, BitVec.setWidth_eq]

theorem unpackSize1_eq (csd : BitVec 128) :
    unpackSize1 (csdBuf (emmcLayout csd)) = csd.extractLsb' 62 12 := by
  simp only [unpackSize1, csdBuf_emmcLayout, Nat.reduceMul, Nat.reduceDiv, Nat.reduceSub,
    Nat.reduceMod, Nat.reduceAdd]
  rw [masked_low csd 72 2 12 0x03 (by decide) rfl, masked_byte csd 56 6 2 12 0xc0 (by decide) rfl,
    join_add csd 64 8 2, join_add csd 62 2 10, BitVec.setWidth_eq]

/-- The fields of a CSD where the register has them. -/
def csdFields (csd : BitVec 128) : CSD where
  csd_structure := csdVersion csd
  spec_vers := csd.extractLsb' 120 6
  taac := csd.extractLsb' 112 8
  nsac := csd.extractLsb' 104 8
  tran_speed := csd.extractLsb' 96 8
  ccc := csd.extractLsb' 84 12
  read_bl_len := csd.extractLsb' 80 4
  read_bl_partial := csd.extractLsb' 79 1
  write_blk_misalign := csd.extractLsb' 78 1
  read_blk_misalign := csd.extractLsb' 77 1
  dsr_imp := csd.extractLsb' 76 1
  size :=
    if csdVersion csd = 1 then .v2 (csd.extractLsb' 48 22)
    else
      .v1 (csd.extractLsb' 62 12) (csd.extractLsb' 59 3) (csd.extractLsb' 56 3)
        (csd.extractLsb' 53 3) (csd.extractLsb' 50 3) (csd.extractLsb' 47 3)
  erase_blk_en := csd.extractLsb' 46 1
  sector_size := csd.extractLsb' 39 7
  wp_grp_size := csd.extractLsb' 32 7
  wp_grp_enable := csd.extractLsb' 31 1
  default_ecc := (csd.extractLsb' 29 2).setWidth 5
  r2w_factor := csd.extractLsb' 26 3
  write_bl_len := csd.extractLsb' 22 4
  write_bl_partial := csd.extractLsb' 21 1
  file_format_grp := csd.extractLsb' 15 1
  copy := csd.extractLsb' 14 1
  perm_write_protect := csd.extractLsb' 13 1
  tmp_write_protect := csd.extractLsb' 12 1
  file_format := csd.extractLsb' 10 2
  ecc := csd.extractLsb' 8 2

theorem unpackSize_eq (csd : BitVec 128) :
    unpackSize (csdBuf (emmcLayout csd)) (csdVersion csd) = (csdFields csd).size := by
  simp only [unpackSize, csdFields, unpackSize1_eq, unpackSize2_eq, csdBuf_emmcLayout,
    Nat.reduceMul, Nat.reduceDiv, Nat.reduceSub, Nat.reduceMod, Nat.reduceAdd]
  rw [masked_byte csd 56 3 3 3 0x38 (by decide) rfl, masked_low csd 56 3 3 0x07 (by decide) rfl,
    masked_byte csd 48 5 3 3 0xe0 (by decide) rfl, masked_byte csd 48 2 3 3 0x1c (by decide) rfl,
    masked_low csd 48 2 3 0x03 (by decide) rfl, masked_byte csd 40 7 1 3 0x80 (by decide) rfl,
    join_or csd 47 1 2]
  simp only [Nat.reduceAdd, BitVec.setWidth_eq]

/-- The lowest bit of `sector_size` comes to stand above the others. -/
theorem sectorSize_eq (csd : BitVec 128) :
    ((csd.extractLsb' 32 8 &&& 0x80) >>> 1 ||| (csd.extractLsb' 40 8 &&& 0x3F)).setWidth 7 =
      csd.extractLsb' 39 1 ++ csd.extractLsb' 40 6 := by
  ext i hi
  rw [BitVec.getElem_append]
  interval_cases i <;> simp

/-- Every field but `sector_size` is taken from its bits. -/
theorem unpack_csd_fields (csd : BitVec 128) :
    (unpack_csd (emmcLayout csd)).csd =
      { csdFields csd with sector_size := csd.extractLsb' 39 1 ++ csd.extractLsb' 40 6 } := by
  have hversion : ((csdBuf (emmcLayout csd) 2 &&& 0xc0) >>> 6).setWidth 2 = csdVersion csd := by
    rw [csdBuf_emmcLayout, masked_byte csd _ 6 2 2 0xc0 (by decide) rfl, BitVec.setWidth_eq]
    rfl
  unfold unpack_csd
  simp only [hversion, unpackSize_eq]
  simp only [csdBuf_emmcLayout, Nat.reduceMul, Nat.reduceDiv, Nat.reduceSub, Nat.reduceMod,
    Nat.reduceAdd, sectorSize_eq]
  rw [masked_low csd 120 6 6 0x3F (by decide) rfl, masked_byte csd 80 4 4 12 0xf0 (by decide) rfl,
    masked_low csd 80 4 4 0x0f (by decide) rfl, masked_byte csd 40 6 1 1 0x40 (by decide) rfl,
    masked_low csd 32 7 7 0x7f (by decide) rfl, masked_byte csd 24 5 2 5 0x60 (by decide) rfl,
    masked_byte csd 24 2 3 3 0x1c (by decide) rfl, masked_low csd 24 2 4 0x03 (by decide) rfl,
    masked_byte csd 16 6 2 4 0xc0 (by decide) rfl, masked_byte csd 8 2 2 2 0x0c (by decide) rfl,
    masked_low csd 8 2 2 0x03 (by decide) rfl, join_or csd 84 4 8, join_or csd 22 2 2,
    flag_byte csd 72 7 0x80 (by decide) rfl, flag_byte csd 72 6 0x40 (by decide) rfl,
    flag_byte csd 72 5 0x20 (by decide) rfl, flag_byte csd 72 4 0x10 (by decide) rfl,
    flag_byte csd 24 7 0x80 (by decide) rfl, flag_byte csd 16 5 0x20 (by decide) rfl,
    flag_byte csd 8 7 0x80 (by decide) rfl, flag_byte csd 8 6 0x40 (by decide) rfl,
    flag_byte csd 8 5 0x20 (by decide) rfl, flag_byte csd 8 4 0x10 (by decide) rfl]
  simp only [csdFields, Nat.reduceAdd, BitVec.setWidth_eq]

/-! ## The size of the EMMC driver -/

theorem size1_lt (csd : BitVec 128) : size1 csd < 2 ^ 37 := by
  have hsize : (csd.extractLsb' 62 12).toNat + 1 ≤ 2 ^ 12 := (csd.extractLsb' 62 12).isLt
  have hmult : 2 ^ ((csd.extractLsb' 47 3).toNat + 2) ≤ 2 ^ 9 := by
    have := (csd.extractLsb' 47 3).isLt
    exact Nat.pow_le_pow_right (by decide) (by omega)
  have hlen : 2 ^ (csd.extractLsb' 80 4).toNat ≤ 2 ^ 15 := by
    have := (csd.extractLsb' 80 4).isLt
    exact Nat.pow_le_pow_right (by decide) (by omega)
  calc size1 csd ≤ 2 ^ 12 * 2 ^ 9 * 2 ^ 15 := Nat.mul_le_mul (Nat.mul_le_mul hsize hmult) hlen
    _ < 2 ^ 37 := by decide

/-- A product of words is the product, modulo `2 ^ 32`. -/
theorem toNat_product (size : Word) (mult len : Nat) :
    ((size + 1) * (1 : Word) <<< mult * (1 : Word) <<< len).toNat =
      (size.toNat + 1) * 2 ^ mult * 2 ^ len % 2 ^ 32 := by
  simp only [BitVec.toNat_mul, BitVec.toNat_add, BitVec.toNat_shiftLeft, Nat.shiftLeft_eq]
  simp [Nat.mul_mod]

/-- A word that is read as an `int` is the number it stands for exactly below `2 ^ 31`. -/
theorem signExtend_eq_iff (x : Word) {n : Nat} (hx : x.toNat = n % 2 ^ 32) (hn : n < 2 ^ 37) :
    (x.signExtend 64).toNat = n ↔ n < 2 ^ 31 := by
  rw [BitVec.toNat_signExtend, BitVec.msb_eq_decide, BitVec.toNat_setWidth, hx]
  split_ifs with h
  · simp at h
    omega
  · simp at h
    omega

theorem unpack_csd_capacity (csd : BitVec 128) :
    (unpack_csd (emmcLayout csd)).CardCapacity =
      cardCapacity (csd.extractLsb' 80 4) (csdFields csd).size := by
  have hfields := unpack_csd_fields csd
  have hcapacity : (unpack_csd (emmcLayout csd)).CardCapacity =
      cardCapacity (unpack_csd (emmcLayout csd)).csd.read_bl_len
        (unpack_csd (emmcLayout csd)).csd.size := rfl
  rw [hcapacity, hfields]
  rfl

/-- The EMMC driver finds one unit too few on every card of version 2.0. -/
theorem emmc_size2 {csd : BitVec 128} (h : csdVersion csd = 1) :
    (unpack_csd (emmcLayout csd)).CardCapacity.toNat + 512 * 1024 = size2 csd := by
  have hsize := (csd.extractLsb' 48 22).isLt
  rw [unpack_csd_capacity, csdFields, if_pos h, cardCapacity, size2, BitVec.toNat_mul,
    BitVec.toNat_setWidth]
  simp
  omega

/-- On a card of version 1.0 it finds the size when an `int` holds it. -/
theorem emmc_size1 {csd : BitVec 128} (h : csdVersion csd = 0) :
    (unpack_csd (emmcLayout csd)).CardCapacity.toNat = size1 csd ↔ size1 csd < 2 ^ 31 := by
  have hne : csdVersion csd ≠ 1 := by
    rw [h]
    decide
  have hsize := (csd.extractLsb' 62 12).isLt
  rw [unpack_csd_capacity, csdFields, if_neg hne, cardCapacity]
  have hword : (csd.extractLsb' 62 12).toNat % 2 ^ 32 = (csd.extractLsb' 62 12).toNat :=
    Nat.mod_eq_of_lt (by omega)
  apply signExtend_eq_iff _ _ (size1_lt csd)
  rw [toNat_product, BitVec.toNat_setWidth, hword]
  rfl

/-! ## The fields of the SDHOST driver -/

theorem byteAt_bit (src : Nat → Word) (start : Nat) {j : Nat} (hj : start % 8 + j < 8) :
    (byteAt src (start / 8)).getLsbD (start % 8 + j) = wordBit src (start + j) := by
  have hword : start / 8 / 4 = (start + j) / 32 := by omega
  have hbit : 8 * (start / 8 % 4) + (start % 8 + j) = (start + j) % 32 := by omega
  simp only [byteAt, wordBit, BitVec.getLsbD_extractLsb', hj, decide_true, Bool.true_and, hword,
    hbit]

/-- What one round of the loop of `__bitfield` adds. -/
theorem round_bit (src : Nat → Word) (start shift : Nat) {i : Nat} (hi : i < 32) :
    (((byteAt src (start / 8)).setWidth 32 >>> (start % 8)) <<< shift).getLsbD i =
      (decide (shift ≤ i ∧ start % 8 + (i - shift) < 8) && wordBit src (start + (i - shift))) := by
  simp only [BitVec.getLsbD_shiftLeft, BitVec.getLsbD_ushiftRight, BitVec.getLsbD_setWidth]
  by_cases hlow : i < shift
  · simp [hlow]
  · by_cases hin : start % 8 + (i - shift) < 8
    · rw [byteAt_bit src start hin]
      have hlt : start % 8 + (i - shift) < 32 := by omega
      simp [hi, hlow, hlt, hin, Nat.le_of_not_lt hlow]
    · have hout : (byteAt src (start / 8)).getLsbD (start % 8 + (i - shift)) = false :=
        BitVec.getLsbD_of_ge _ _ (by omega)
      simp [hout, hin]

/-- The loop of `__bitfield` puts the bits from `start` on at `shift`. -/
theorem bitfieldLoop_bit (src : Nat → Word) {n start len shift : Nat} {dst : Word}
    (hn : len ≤ n) (hfits : shift + len ≤ 32)
    (hdst : len ≠ 0 → ∀ i, shift ≤ i → dst.getLsbD i = false) {i : Nat} (hi : i < shift + len) :
    (bitfieldLoop src n start len shift dst).getLsbD i =
      if i < shift then dst.getLsbD i else wordBit src (start + (i - shift)) := by
  induction n generalizing start len shift dst with
  | zero =>
    have hlt : i < shift := by omega
    rw [bitfieldLoop, if_pos hlt]
  | succ n ih =>
    unfold bitfieldLoop
    by_cases hlen : len = 0
    · have hlt : i < shift := by omega
      rw [if_pos hlen, if_pos hlt]
    · rw [if_neg hlen]
      dsimp only
      have hfresh := hdst hlen
      have hbc : min (8 - start % 8) len ≤ len := by omega
      rw [ih (by omega) (by omega) ?_ (by omega)]
      · rw [BitVec.getLsbD_or, round_bit src start shift (by omega)]
        by_cases hlow : i < shift
        · have hlow' : i < shift + min (8 - start % 8) len := by omega
          simp [hlow, hlow']
        · by_cases hround : i < shift + min (8 - start % 8) len
          · have hin : start % 8 + (i - shift) < 8 := by omega
            simp [hlow, hround, hin, hfresh i (by omega), Nat.le_of_not_lt hlow]
          · have hpos : start + min (8 - start % 8) len + (i - (shift + min (8 - start % 8) len)) =
                start + (i - shift) := by omega
            rw [if_neg hround, if_neg hlow, hpos]
      · intro hrest k hk
        rw [BitVec.getLsbD_or, hfresh k (by omega), Bool.false_or]
        by_cases hk32 : k < 32
        · have hout : ¬ start % 8 + (k - shift) < 8 := by omega
          rw [round_bit src start shift hk32]
          simp [hout]
        · exact BitVec.getLsbD_of_ge _ _ (by omega)

/-- `__bitfield` gives the bits from `start` on, and zeros above `len` of them. -/
theorem bitfield_bit (src : Nat → Word) (start : Nat) {len i : Nat} (hlen : len ≤ 32)
    (hi : i < 32) :
    (bitfield src start len).getLsbD i = (decide (i < len) && wordBit src (start + i)) := by
  have hno : ¬ ((start : Int) < 0 ∨ (len : Int) < 0 ∨ 32 < (len : Int)) := by omega
  unfold bitfield
  rw [if_neg hno]
  simp only [Int.toNat_natCast]
  by_cases hzero : len = 0
  · subst hzero
    simp [bitfieldLoop]
  · have hmask : (if len % 32 ≠ 0 then BitVec.allOnes 32 >>> (32 - len % 32)
        else BitVec.allOnes 32).getLsbD i = decide (i < len) := by
      split_ifs with hmod
      · have hlt : 32 - len % 32 + i < 32 ↔ i < len := by omega
        rw [BitVec.getLsbD_ushiftRight, BitVec.getLsbD_allOnes, decide_eq_decide]
        exact hlt
      · have hlt : i < len := by omega
        rw [BitVec.getLsbD_allOnes]
        simp [hi, hlt]
    rw [BitVec.getLsbD_and, hmask]
    by_cases hfield : i < len
    · rw [bitfieldLoop_bit _ (le_refl len) (by omega) (by simp) (by omega), if_neg (by omega)]
      simp [hfield]
    · simp [hfield]

theorem wordBit_sdhostLayout (csd : BitVec 128) (p : Nat) :
    wordBit (sdhostLayout csd) p = csd.getLsbD p := by
  have hlt : p % 32 < 32 := Nat.mod_lt _ (by decide)
  simp only [wordBit, sdhostLayout, BitVec.getLsbD_extractLsb', hlt, decide_true, Bool.true_and,
    Nat.div_add_mod]

/-- `__bitfield` takes the field of `len` bits from `start` on. -/
theorem bitfield_eq (csd : BitVec 128) (start : Nat) {len : Nat} (hlen : len ≤ 32) :
    bitfield (sdhostLayout csd) start len = (csd.extractLsb' start len).setWidth 32 := by
  apply BitVec.eq_of_getLsbD_eq
  intro i hi
  rw [bitfield_bit _ _ hlen hi, wordBit_sdhostLayout, BitVec.getLsbD_setWidth,
    BitVec.getLsbD_extractLsb']
  simp [hi]

/-! ## The size of the SDHOST driver -/

theorem csdver_eq (csd : BitVec 128) :
    SD_CSD_CSDVER (sdhostLayout csd) = (csdVersion csd).setWidth 32 :=
  bitfield_eq csd 126 (by decide)

/-- On a card of version 2.0 the SDHOST driver finds the size when 32 bits hold it. -/
theorem sdhost_size2 {csd : BitVec 128} (h : csdVersion csd = 1) :
    ∃ p, print_csd (sdhostLayout csd) = some p ∧
      (p.capacity_bytes.toNat = size2 csd ↔ size2 csd < 2 ^ 32) := by
  have hver : SD_CSD_CSDVER (sdhostLayout csd) = 1 := by
    rw [csdver_eq, h]
    rfl
  have hsize := (csd.extractLsb' 48 22).isLt
  have hfield : SD_CSD_V2_C_SIZE (sdhostLayout csd) = (csd.extractLsb' 48 22).setWidth 32 :=
    bitfield_eq csd 48 (by decide)
  refine ⟨_, by rw [print_csd, if_pos hver], ?_⟩
  have hbytes : (SD_CSD_V2_CAPACITY (sdhostLayout csd) * (1 : Word) <<< SD_CSD_V2_BL_LEN).toNat =
      size2 csd % 2 ^ 32 := by
    rw [SD_CSD_V2_CAPACITY, hfield, size2, SD_CSD_V2_BL_LEN]
    simp only [BitVec.toNat_mul, BitVec.toNat_add, BitVec.toNat_shiftLeft, BitVec.toNat_setWidth,
      Nat.shiftLeft_eq]
    simp
    omega
  dsimp only
  rw [hbytes]
  omega

theorem shiftLeft_eq_mul (x : Word) (k : Nat) : x <<< k = x * (1 : Word) <<< k :=
  calc x <<< k = x * BitVec.twoPow 32 k := BitVec.shiftLeft_eq_mul_twoPow x k
    _ = x * (1 : Word) <<< k := by rw [BitVec.shiftLeft_eq_mul_twoPow 1, one_mul]

/-- And so it does on a card of version 1.0. -/
theorem sdhost_size1 {csd : BitVec 128} (h : csdVersion csd = 0) :
    ∃ p, print_csd (sdhostLayout csd) = some p ∧
      (p.capacity_bytes.toNat = size1 csd ↔ size1 csd < 2 ^ 32) := by
  have hver : SD_CSD_CSDVER (sdhostLayout csd) = 0 := by
    rw [csdver_eq, h]
    rfl
  have hne : SD_CSD_CSDVER (sdhostLayout csd) ≠ 1 := by
    rw [hver]
    decide
  have hfield : SD_CSD_C_SIZE (sdhostLayout csd) = (csd.extractLsb' 62 12).setWidth 32 :=
    bitfield_eq csd 62 (by decide)
  have hmult : SD_CSD_C_SIZE_MULT (sdhostLayout csd) = (csd.extractLsb' 47 3).setWidth 32 :=
    bitfield_eq csd 47 (by decide)
  have hlen : (SD_CSD_READ_BL_LEN (sdhostLayout csd)).toNat = (csd.extractLsb' 80 4).toNat := by
    have hfour := (csd.extractLsb' 80 4).isLt
    have heq : SD_CSD_READ_BL_LEN (sdhostLayout csd) = (csd.extractLsb' 80 4).setWidth 32 :=
      bitfield_eq csd 80 (by decide)
    rw [heq, BitVec.toNat_setWidth, Nat.mod_eq_of_lt (by omega)]
  have hcount : (SD_CSD_C_SIZE_MULT (sdhostLayout csd) + 2).toNat =
      (csd.extractLsb' 47 3).toNat + 2 := by
    have hthree := (csd.extractLsb' 47 3).isLt
    rw [hmult, BitVec.toNat_add, BitVec.toNat_setWidth]
    simp
    omega
  have hword : ((csd.extractLsb' 62 12).setWidth 32).toNat = (csd.extractLsb' 62 12).toNat := by
    have htwelve := (csd.extractLsb' 62 12).isLt
    rw [BitVec.toNat_setWidth, Nat.mod_eq_of_lt (by omega)]
  refine ⟨_, by rw [print_csd, if_neg hne, if_pos hver], ?_⟩
  have hbytes : (SD_CSD_CAPACITY (sdhostLayout csd) *
      (1 : Word) <<< (SD_CSD_READ_BL_LEN (sdhostLayout csd)).toNat).toNat =
        size1 csd % 2 ^ 32 := by
    rw [SD_CSD_CAPACITY, hcount, hlen, hfield, size1, ← hword, ← toNat_product, shiftLeft_eq_mul]
  dsimp only
  rw [hbytes]
  omega

/-! ## The agreement -/

/-- The two drivers agree on the size of a card exactly when the card is one of version 1.0
with less than 2 GiB, or of no known version. -/
theorem the_sizes_agree_below_2_GiB (csd : BitVec 128) :
    SizesAgree csd ↔ csdVersion csd ≠ 1 ∧ (csdVersion csd = 0 → size1 csd < 2 ^ 31) := by
  unfold SizesAgree BothFind
  constructor
  · rintro ⟨h2, h1⟩
    refine ⟨?_, ?_⟩
    · intro hver
      have hfew := emmc_size2 hver
      have hfind := (h2 hver).1
      omega
    · intro hver
      exact (emmc_size1 hver).mp (h1 hver).1
  · rintro ⟨hne, hsmall⟩
    refine ⟨fun hver => absurd hver hne, ?_⟩
    intro hver
    obtain ⟨p, hp, hiff⟩ := sdhost_size1 hver
    have hlt := hsmall hver
    exact ⟨(emmc_size1 hver).mpr hlt, p, hp, hiff.mpr (by omega)⟩

/-- The card of 16 GB that a comment of `unpack_csd` shows. -/
theorem the_sizes_differ_on_a_card_of_16_GB : ¬ ∀ csd, SizesAgree csd := by
  intro h
  have hfind := ((h 0x40e000325b59000073a77f800a400001).1 (by decide)).1
  have hfew := @emmc_size2 0x40e000325b59000073a77f800a400001 (by decide)
  omega

end rpi_wifi.card_size
