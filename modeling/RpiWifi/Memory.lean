-- A memory of bytes, and the words of four bytes in it with the low byte
-- first. A word that is written is read back, and a word that does not meet it
-- is left as it was.
import Mathlib

namespace memory

abbrev Mem := Nat → BitVec 8

/-- The word at address `a`. -/
def read32 (m : Mem) (a : Nat) : Nat :=
  (m a).toNat + 256 * (m (a + 1)).toNat + 65536 * (m (a + 2)).toNat +
    16777216 * (m (a + 3)).toNat

/-- The memory after a write of the low 32 bits of `v` at address `a`. -/
def write32 (m : Mem) (a v : Nat) : Mem := fun b =>
  if a ≤ b ∧ b < a + 4 then BitVec.ofNat 8 (v / 256 ^ (b - a)) else m b

/-- The memory after `n` zero bytes from address `a` on. -/
def zero (m : Mem) (a n : Nat) : Mem := fun b => if a ≤ b ∧ b < a + n then 0 else m b

variable {m m' : Mem} {a b v n : Nat}

theorem write32_of_out (h : b < a ∨ a + 4 ≤ b) : write32 m a v b = m b := by
  unfold write32
  rw [if_neg (by omega)]

theorem zero_of_out (h : b < a ∨ a + n ≤ b) : zero m a n b = m b := by
  unfold zero
  rw [if_neg (by omega)]

/-- A word depends only on its four bytes. -/
theorem read32_congr (h : ∀ i < 4, m' (a + i) = m (a + i)) : read32 m' a = read32 m a := by
  unfold read32
  rw [h 1 (by omega), h 2 (by omega), h 3 (by omega)]
  have h0 := h 0 (by omega)
  rw [Nat.add_zero] at h0
  rw [h0]

theorem read32_write32 (h : v < 2 ^ 32) : read32 (write32 m a v) a = v := by
  have hbyte : ∀ i < 4, (write32 m a v (a + i)).toNat = v / 256 ^ i % 256 := by
    intro i hi
    unfold write32
    rw [if_pos (by omega), Nat.add_sub_cancel_left, BitVec.toNat_ofNat]
  have h0 := hbyte 0 (by omega)
  rw [Nat.add_zero] at h0
  unfold read32
  rw [h0, hbyte 1 (by omega), hbyte 2 (by omega), hbyte 3 (by omega)]
  omega

/-- A write leaves every word that it does not meet. -/
theorem read32_write32_of_apart (h : b + 4 ≤ a ∨ a + 4 ≤ b) :
    read32 (write32 m a v) b = read32 m b := by
  apply read32_congr
  intro i hi
  exact write32_of_out (by omega)

theorem read32_update {x : BitVec 8} (h : b < a ∨ a + 4 ≤ b) :
    read32 (Function.update m b x) a = read32 m a := by
  apply read32_congr
  intro i hi
  exact Function.update_of_ne (by omega) _ _

/-! ## Loops over bytes -/

/-- `memset`: one byte after the other, at addresses of 32 bits. -/
def memset (m : Mem) (buf : Nat) (value : BitVec 8) : Nat → Mem
  | 0 => m
  | i + 1 => Function.update (memset m buf value i) ((buf + i) % 2 ^ 32) value

/-- `memcpy`: one byte after the other, from the first one on. -/
def memcpy (m : Mem) (dst src : Nat) : Nat → Mem
  | 0 => m
  | i + 1 =>
    let m' := memcpy m dst src i
    Function.update m' ((dst + i) % 2 ^ 32) (m' ((src + i) % 2 ^ 32))

theorem memset_at {value : BitVec 8} {i : Nat} (hi : i < n) (hword : a + n ≤ 2 ^ 32) :
    memset m a value n (a + i) = value := by
  induction n with
  | zero => cases hi
  | succ n ih =>
    unfold memset
    rw [Nat.mod_eq_of_lt (by omega)]
    by_cases hlast : i = n
    · rw [hlast, Function.update_self]
    · rw [Function.update_of_ne (by omega)]
      exact ih (by omega) (by omega)

theorem memcpy_of_out {src : Nat} (hword : a + n ≤ 2 ^ 32) (hb : b < a ∨ a + n ≤ b) :
    memcpy m a src n b = m b := by
  induction n with
  | zero => rfl
  | succ n ih =>
    unfold memcpy
    dsimp only
    rw [Nat.mod_eq_of_lt (by omega), Function.update_of_ne (by omega)]
    exact ih (by omega) (by omega)

/-- A byte that the copy does not write over arrives as it was. -/
theorem memcpy_at {src i : Nat} (hi : i < n) (hword : a + n ≤ 2 ^ 32) (hsrc : src + i < 2 ^ 32)
    (hout : src + i < a ∨ a + n ≤ src + i) : memcpy m a src n (a + i) = m (src + i) := by
  induction n with
  | zero => cases hi
  | succ n ih =>
    unfold memcpy
    dsimp only
    rw [Nat.mod_eq_of_lt (by omega)]
    by_cases hlast : i = n
    · rw [hlast, Function.update_self, Nat.mod_eq_of_lt (by omega)]
      exact memcpy_of_out (by omega) (by omega)
    · rw [Function.update_of_ne (by omega)]
      exact ih (by omega) (by omega) (by omega)

end memory
