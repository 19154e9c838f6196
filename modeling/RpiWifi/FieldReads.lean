-- What `__bitfield` gives of any array of response words, and the bytes that it reads
-- for it: the field is the number of the array, shifted and cut, and no byte is read
-- that does not hold a bit of the field.
import RpiWifi.CardSize

namespace rpi_wifi.card_size

open bit_fields

/-! ## The number of an array -/

/-- The word `i` of an array. -/
def wordsOf (words : List Word) (i : Nat) : Word := words.getD i 0

/-- The number that an array of words represents, the low word first. -/
def numberOf (words : List Word) : Nat := Nat.ofDigits (2 ^ 32) (words.map BitVec.toNat)

theorem wordBit_cons_low (word : Word) (words : List Word) {p : Nat} (hp : p < 32) :
    wordBit (wordsOf (word :: words)) p = word.getLsbD p := by
  rw [wordBit, Nat.div_eq_of_lt hp, Nat.mod_eq_of_lt hp]
  rfl

theorem wordBit_cons_high (word : Word) (words : List Word) (p : Nat) :
    wordBit (wordsOf (word :: words)) (32 + p) = wordBit (wordsOf words) p := by
  have hword : (32 + p) / 32 = p / 32 + 1 := by omega
  rw [wordBit, wordBit, hword, Nat.add_mod_left]
  rfl

/-- The bits of the number are the bits of the words. -/
theorem numberOf_testBit (words : List Word) (p : Nat) :
    (numberOf words).testBit p = wordBit (wordsOf words) p := by
  induction words generalizing p with
  | nil => simp [numberOf, wordBit, wordsOf]
  | cons word words ih =>
    have hsplit : numberOf (word :: words) = 2 ^ 32 * numberOf words + word.toNat := by
      simp [numberOf, Nat.ofDigits_cons, Nat.add_comm]
    rw [hsplit, Nat.testBit_two_pow_mul_add _ word.isLt]
    split_ifs with hp
    · rw [wordBit_cons_low word words hp]
      rfl
    · obtain ⟨q, rfl⟩ := Nat.exists_eq_add_of_le (Nat.le_of_not_lt hp)
      rw [Nat.add_sub_cancel_left, ih, wordBit_cons_high]

/-! ## The bytes that are read -/

/-- The loop of `__bitfield`, with the bytes at `(uint8_t*) src` that its rounds read. -/
def readLoop (src : Nat → Word) : Nat → Nat → Nat → Nat → Word → List Nat × Word
  | 0, _, _, _, dst => ([], dst)
  | n + 1, start, len, shift, dst =>
    if len = 0 then ([], dst)
    else
      let bs := start % 8
      let bc := min (8 - bs) len
      let rest := readLoop src n (start + bc) (len - bc) (shift + bc)
        (dst ||| ((byteAt src (start / 8)).setWidth 32 >>> bs) <<< shift)
      (start / 8 :: rest.1, rest.2)

/-- The bytes that `__bitfield` reads. It leaves before the loop when an argument is out of
range. -/
def bytesRead (src : Nat → Word) (start len : Int) : List Nat :=
  if start < 0 ∨ len < 0 ∨ 32 < len then []
  else (readLoop src len.toNat start.toNat len.toNat 0 0).1

theorem readLoop_result (src : Nat → Word) (n start len shift : Nat) (dst : Word) :
    (readLoop src n start len shift dst).2 = bitfieldLoop src n start len shift dst := by
  induction n generalizing start len shift dst with
  | zero => rfl
  | succ n ih =>
    unfold readLoop bitfieldLoop
    split
    · rfl
    · exact ih _ _ _ _

/-- Each byte that is read holds a bit of the field. -/
theorem readLoop_inside (src : Nat → Word) {n start len shift k : Nat} {dst : Word}
    (hk : k ∈ (readLoop src n start len shift dst).1) :
    start < 8 * (k + 1) ∧ 8 * k < start + len := by
  induction n generalizing start len shift dst with
  | zero => simp [readLoop] at hk
  | succ n ih =>
    unfold readLoop at hk
    split at hk
    · simp at hk
    · next hlen =>
      rcases List.mem_cons.mp hk with rfl | hrest
      · exact ⟨by omega, by omega⟩
      · obtain ⟨hfirst, hlast⟩ := ih hrest
        exact ⟨by omega, by omega⟩

/-! ## The law -/

theorem bitfield_toNat (words : List Word) (start : Nat) {len : Nat} (hlen : len ≤ 32) :
    (bitfield (wordsOf words) start len).toNat = (numberOf words >>> start) % 2 ^ len := by
  apply Nat.eq_of_testBit_eq
  intro i
  rw [Nat.testBit_mod_two_pow, Nat.testBit_shiftRight, numberOf_testBit, BitVec.testBit_toNat]
  by_cases hi : i < 32
  · exact bitfield_bit _ _ hlen hi
  · have hout : ¬ i < len := by omega
    rw [BitVec.getLsbD_of_ge _ _ (by omega)]
    simp [hout]

theorem the_field_of_an_array_is_cut_out_of_its_number (words : List Word) (start len : Nat)
    (hlen : len ≤ 32) (hin : start + len ≤ 32 * words.length) :
    (bitfield (wordsOf words) start len).toNat = (numberOf words >>> start) % 2 ^ len ∧
      ∀ k ∈ bytesRead (wordsOf words) start len,
        start / 8 ≤ k ∧ k ≤ (start + len - 1) / 8 ∧ k < 4 * words.length := by
  refine ⟨bitfield_toNat words start hlen, ?_⟩
  intro k hk
  unfold bytesRead at hk
  split at hk
  · simp at hk
  · obtain ⟨hfirst, hlast⟩ := readLoop_inside _ hk
    simp only [Int.toNat_natCast] at hfirst hlast
    exact ⟨by omega, by omega, by omega⟩

/-- A field of a whole word that starts inside a byte, and the bytes that it meets. -/
theorem a_field_of_32_bits_over_five_bytes :
    (bitfield (wordsOf [0x89ABCDEF, 0x01234567]) 12 32).toNat =
        (numberOf [0x89ABCDEF, 0x01234567] >>> 12) % 2 ^ 32 ∧
      bytesRead (wordsOf [0x89ABCDEF, 0x01234567]) 12 32 = [1, 2, 3, 4, 5] := by
  have h := the_field_of_an_array_is_cut_out_of_its_number [0x89ABCDEF, 0x01234567] 12 32
    (by decide) (by decide)
  exact ⟨h.1, by decide⟩

end rpi_wifi.card_size
