-- Fields of bits: what a mask and a shift take out of a number, how two fields that
-- stand side by side are joined, and where a bit stands among words.
import Mathlib

namespace bit_fields

variable {v : Nat}

theorem toNat_field (x : BitVec v) (p k : Nat) :
    (x.extractLsb' p k).toNat = x.toNat / 2 ^ p % 2 ^ k := by
  rw [BitVec.extractLsb'_toNat, Nat.shiftRight_eq_div_pow]

/-- A field of a field. -/
theorem field_field (x : BitVec v) (p : Nat) {l s w : Nat} (h : s + w ≤ l) :
    (x.extractLsb' p l).extractLsb' s w = x.extractLsb' (p + s) w := by
  ext i hi
  have hin : s + i < l := by omega
  simp [hin, Nat.add_assoc]

/-- A mask of `w` bits from `s` on, and the shift by `s`, take a field. -/
theorem masked (b : BitVec v) {mask : BitVec v} (s w : Nat)
    (hmask : mask = (BitVec.allOnes w).setWidth v <<< s) :
    (b &&& mask) >>> s = (b.extractLsb' s w).setWidth v := by
  subst hmask
  ext i hi
  simp only [BitVec.getElem_ushiftRight, BitVec.getLsbD_and, BitVec.getLsbD_shiftLeft,
    BitVec.getLsbD_setWidth, BitVec.getLsbD_allOnes, BitVec.getElem_setWidth,
    BitVec.getLsbD_extractLsb']
  cases hb : b.getLsbD (s + i)
  · simp
  · have hlt : s + i < v := BitVec.lt_of_getLsbD hb
    simp [hlt, hi]

/-- A field in front of the next one is a wider field. -/
theorem join_add (x : BitVec v) (p k m n : Nat) :
    (x.extractLsb' (p + k) m).setWidth n <<< k + (x.extractLsb' p k).setWidth n =
      (x.extractLsb' p (k + m)).setWidth n := by
  have hsplit : x.toNat / 2 ^ p % 2 ^ (k + m) =
      x.toNat / 2 ^ p % 2 ^ k + 2 ^ k * (x.toNat / 2 ^ (p + k) % 2 ^ m) := by
    rw [Nat.pow_add 2 k m, Nat.mod_mul, Nat.div_div_eq_div_mul, ← Nat.pow_add]
  apply BitVec.eq_of_toNat_eq
  simp only [BitVec.toNat_add, BitVec.toNat_shiftLeft, BitVec.toNat_setWidth, toNat_field,
    Nat.shiftLeft_eq, hsplit]
  rw [Nat.add_comm, Nat.mul_comm]
  simp

theorem join_or (x : BitVec v) (p k m n : Nat) :
    (x.extractLsb' (p + k) m).setWidth n <<< k ||| (x.extractLsb' p k).setWidth n =
      (x.extractLsb' p (k + m)).setWidth n := by
  ext i hi
  simp only [BitVec.getElem_or, BitVec.getElem_shiftLeft, BitVec.getElem_setWidth,
    BitVec.getLsbD_extractLsb']
  by_cases hlow : i < k
  · simp [hlow, Nat.lt_add_right m hlow]
  · have hsplit : i - k < m ↔ i < k + m := by omega
    have hbit : p + k + (i - k) = p + i := by omega
    simp [hlow, hsplit, hbit]

/-- The bits of a number of words: bit `p` of the words in their order. -/
def wordBit (src : Nat → BitVec 32) (p : Nat) : Bool := (src (p / 32)).getLsbD (p % 32)

end bit_fields
