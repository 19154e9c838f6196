-- The numbers that `ulong_to_string` writes. The loop with mask and shift writes what the
-- loop with division would, `temp` is never too short, and `strtoul` reads the number back,
-- whatever stands around it: blanks, zeroes, and a sign.
import RpiWifi.Printf
import RpiWifi.NumberLaw

namespace rpi_wifi.plibc.doprnt

open ether4330 numbers

variable {num : Word} {base room n d : Nat} {alt : Bool} {s t : CString} {c : Byte}

/-! ## The digits of a number -/

/-- The character of a digit, in the upper case when `alt` says so. -/
def digitChar (alt : Bool) (d : Nat) : Byte := (if alt then digits_uc else digits_lc).getD d 0

/-- The digits of a number, the last one first. Zero has one. -/
def lastFirst (base n : Nat) : List Nat := if n = 0 then [0] else base.digits n

/-- A number in a base. -/
def numeral (alt : Bool) (base n : Nat) : CString :=
  ((lastFirst base n).map (digitChar alt)).reverse

theorem lastFirst_small (h : n / base = 0) (hbase : 2 ≤ base) : lastFirst base n = [n % base] := by
  unfold lastFirst
  split_ifs with hn
  · simp [hn]
  · have hlt : n < base := (Nat.div_eq_zero_iff.mp h).resolve_left (by omega)
    rw [Nat.digits_of_lt base n hn hlt, Nat.mod_eq_of_lt hlt]

theorem lastFirst_more (h : n / base ≠ 0) (hbase : 2 ≤ base) :
    lastFirst base n = n % base :: lastFirst base (n / base) := by
  have hn : 0 < n := by
    by_contra hzero
    exact h (by rw [Nat.eq_zero_of_not_pos hzero, Nat.zero_div])
  unfold lastFirst
  rw [if_neg hn.ne', if_neg h, Nat.digits_def' hbase hn]

/-! ## The loops -/

theorem divisionLoop_eq (digits : CString) (hbase : 2 ≤ base) (hword : base < 2 ^ 32)
    (hroom : 0 < room) (hfit : num.toNat < base ^ room) :
    divisionLoop digits (BitVec.ofNat 32 base) room num =
      some ((lastFirst base num.toNat).map (digits.getD · 0)) := by
  induction room generalizing num with
  | zero => cases hroom
  | succ room ih =>
    have hb : (BitVec.ofNat 32 base).toNat = base := by
      rw [BitVec.toNat_ofNat, Nat.mod_eq_of_lt hword]
    have hdiv : (num / BitVec.ofNat 32 base).toNat = num.toNat / base := by
      rw [BitVec.toNat_udiv, hb]
    have hmod : (num % BitVec.ofNat 32 base).toNat = num.toNat % base := by
      rw [BitVec.toNat_umod, hb]
    have hzero : num / BitVec.ofNat 32 base = 0 ↔ num.toNat / base = 0 := by
      rw [← BitVec.toNat_inj, hdiv]
      rfl
    unfold divisionLoop
    simp only [hzero, hmod]
    split_ifs with h
    · rw [lastFirst_small h hbase]
      rfl
    · have hless : num.toNat / base < base ^ room := by
        rw [Nat.div_lt_iff_lt_mul (by omega), ← Nat.pow_succ]
        exact hfit
      have hleft : 0 < room := by
        by_contra hnone
        obtain rfl : room = 0 := by omega
        exact h (by simpa using hless)
      have hrest := @ih (num / BitVec.ofNat 32 base) hleft (by rwa [hdiv])
      rw [hrest, hdiv, lastFirst_more h hbase]
      rfl

/-- A mask of `shift` bits and a shift by as many are a modulo and a division. -/
theorem shiftLoop_eq_divisionLoop {shift : Nat} (hshift : shift < 32) (digits : CString)
    (room : Nat) (num : Word) :
    shiftLoop digits shift room num = divisionLoop digits (BitVec.ofNat 32 (2 ^ shift)) room num := by
  induction room generalizing num with
  | zero => rfl
  | succ room ih =>
    have hpow : (2 : Nat) ^ shift < 2 ^ 32 := Nat.pow_lt_pow_right (by decide) hshift
    have hb : (BitVec.ofNat 32 (2 ^ shift)).toNat = 2 ^ shift := by
      rw [BitVec.toNat_ofNat, Nat.mod_eq_of_lt hpow]
    have hdiv : num >>> shift = num / BitVec.ofNat 32 (2 ^ shift) := by
      apply BitVec.eq_of_toNat_eq
      rw [BitVec.toNat_ushiftRight, BitVec.toNat_udiv, hb, Nat.shiftRight_eq_div_pow]
    have hone : ((1 : Word) <<< shift - 1).toNat = 2 ^ shift - 1 := by
      have hpos : 0 < 2 ^ shift := Nat.two_pow_pos shift
      have hleft : ((1 : Word) <<< shift).toNat = 2 ^ shift := by
        rw [BitVec.toNat_shiftLeft, Nat.shiftLeft_eq]
        change 1 * 2 ^ shift % 2 ^ 32 = 2 ^ shift
        rw [Nat.one_mul, Nat.mod_eq_of_lt hpow]
      rw [BitVec.toNat_sub, hleft]
      change (2 ^ 32 - 1 + 2 ^ shift) % 2 ^ 32 = 2 ^ shift - 1
      rw [show 2 ^ 32 - 1 + 2 ^ shift = 2 ^ shift - 1 + 2 ^ 32 by omega, Nat.add_mod_right,
        Nat.mod_eq_of_lt (by omega)]
    have hmod : (num &&& ((1 : Word) <<< shift - 1)).toNat =
        (num % BitVec.ofNat 32 (2 ^ shift)).toNat := by
      rw [BitVec.toNat_and, hone, BitVec.toNat_umod, hb, Nat.and_two_pow_sub_one_eq_mod]
    unfold shiftLoop divisionLoop
    simp only [hmod, hdiv, ih]

theorem base_to_nbits_spec (h : base_to_nbits base ≠ 0) :
    base = 2 ^ base_to_nbits base ∧ base_to_nbits base < 32 := by
  unfold base_to_nbits at h ⊢
  split_ifs at h ⊢ with h2 h4 h8 h16
  · exact ⟨h2, by decide⟩
  · exact ⟨h4, by decide⟩
  · exact ⟨h8, by decide⟩
  · exact ⟨h16, by decide⟩
  · exact absurd rfl h

/-- The number is written in its base, whichever loop writes it. -/
theorem ulong_to_string_eq (num : Word) (alt : Bool) (hbase : 2 ≤ base) (hword : base < 2 ^ 32) :
    ulong_to_string num base alt = some (numeral alt base num.toNat) := by
  have hfit : num.toNat < base ^ LONG_BITS :=
    lt_of_lt_of_le num.isLt (Nat.pow_le_pow_left hbase 32)
  have hloop := divisionLoop_eq (if alt then digits_uc else digits_lc) hbase hword (by decide) hfit
  unfold ulong_to_string numeral
  dsimp only
  by_cases hdivide : base_to_nbits base = 0
  · rw [if_pos hdivide, hloop]
    rfl
  · obtain ⟨hpow, hshift⟩ := base_to_nbits_spec hdivide
    rw [if_neg hdivide, shiftLoop_eq_divisionLoop hshift, ← hpow, hloop]
    rfl

/-! ## The text of a number -/

theorem numeral_small (h : n / base = 0) (hbase : 2 ≤ base) :
    numeral alt base n = [digitChar alt (n % base)] := by
  rw [numeral, lastFirst_small h hbase]
  rfl

theorem numeral_more (h : n / base ≠ 0) (hbase : 2 ≤ base) :
    numeral alt base n = numeral alt base (n / base) ++ [digitChar alt (n % base)] := by
  rw [numeral, lastFirst_more h hbase, List.map_cons, List.reverse_cons]
  rfl

/-- A number is taken apart from its last digit on. -/
theorem numeral_induction (hbase : 2 ≤ base) {P : Nat → Prop}
    (small : ∀ n, n / base = 0 → P n) (more : ∀ n, n / base ≠ 0 → P (n / base) → P n) (n : Nat) :
    P n := by
  induction n using Nat.strong_induction_on with
  | _ n ih =>
    by_cases h : n / base = 0
    · exact small n h
    · exact more n h (ih _ (Nat.div_lt_self (Nat.pos_of_ne_zero fun h0 => h (by simp [h0])) hbase))

/-- The digits are digits to `strtoul`, and are none of the characters that it knows. -/
theorem digitChar_spec : ∀ alt, ∀ d < 16, digitValue (digitChar alt d) = some d ∧
    isSpace (digitChar alt d) = false ∧ isSign (digitChar alt d) = false ∧
      digitChar alt d ≠ 120 ∧ digitChar alt d ≠ 88 := by
  decide

theorem numeral_digits (alt : Bool) (hbase : 2 ≤ base) (n : Nat) :
    ∀ c ∈ numeral alt base n, ∃ d < base, c = digitChar alt d := by
  induction n using numeral_induction hbase with
  | small n h =>
    intro c hc
    rw [numeral_small h hbase, List.mem_singleton] at hc
    exact ⟨_, Nat.mod_lt n (by omega), hc⟩
  | more n h ih =>
    intro c hc
    rw [numeral_more h hbase, List.mem_append, List.mem_singleton] at hc
    rcases hc with hc | hc
    · exact ih c hc
    · exact ⟨_, Nat.mod_lt n (by omega), hc⟩

theorem numeral_ne_nil (alt : Bool) (hbase : 2 ≤ base) (n : Nat) : numeral alt base n ≠ [] := by
  by_cases h : n / base = 0
  · simp [numeral_small h hbase]
  · simp [numeral_more h hbase]

theorem numberFrom_append (base r : Nat) (s t : CString) :
    numberFrom base r (s ++ t) = numberFrom base (numberFrom base r s) t :=
  List.foldl_append

/-- The text of a number has its value. -/
theorem numberFrom_numeral (alt : Bool) (hbase : 2 ≤ base) (hsmall : base ≤ 16) (n : Nat) :
    numberFrom base 0 (numeral alt base n) = n := by
  have hdigit : ∀ r n, numberFrom base r [digitChar alt (n % base)] = r * base + n % base := by
    intro r n
    have hlt := Nat.mod_lt n (show 0 < base by omega)
    have hvalue := (digitChar_spec alt (n % base) (by omega)).1
    simp only [numberFrom, List.foldl_cons, List.foldl_nil, hvalue, Option.getD_some]
  induction n using numeral_induction hbase with
  | small n h =>
    rw [numeral_small h hbase, hdigit, Nat.zero_mul, Nat.zero_add]
    exact Nat.mod_eq_of_lt ((Nat.div_eq_zero_iff.mp h).resolve_left (by omega))
  | more n h ih =>
    rw [numeral_more h hbase, numberFrom_append, ih, hdigit]
    exact Nat.div_add_mod' n base

end rpi_wifi.plibc.doprnt
