-- Numbers in base 16, as `strtoul` and `strtoull` read them: a sign and a mark are left
-- out, and a string of hexadecimal digits that fits is read as its value.
import RpiWifi.CStrings

namespace rpi_wifi.plibc

open ether4330

variable {a b c x y : Byte} {s : CString} {w max : Nat}

/-! ## Signs and marks -/

def isSign (c : Byte) : Bool := c == 43 || c == 45

theorem isSign_iff : isSign c = true ↔ c = 43 ∨ c = 45 := by
  unfold isSign
  rw [Bool.or_eq_true, beq_iff_eq, beq_iff_eq]

/-- A character that is no sign is kept. -/
theorem readSign_plain (h : isSign c = false) (cs : CString) :
    readSign (c :: cs) = (false, c :: cs) := by
  have hnot := mt isSign_iff.mpr (ne_true_of_eq_false h)
  unfold readSign
  split
  · rename_i heq
    exact absurd (.inl (List.cons.inj heq).1) hnot
  · rename_i heq
    exact absurd (.inr (List.cons.inj heq).1) hnot
  · rfl

theorem readSign_rest (c : Byte) (cs : CString) :
    (readSign (c :: cs)).2 = if isSign c then cs else c :: cs := by
  by_cases hc : isSign c = true
  · rw [if_pos hc]
    rcases isSign_iff.mp hc with rfl | rfl <;> rfl
  · rw [if_neg hc, readSign_plain (eq_false_of_ne_true hc)]

/-- What is left of a number in base 16 behind its zero or its mark. -/
def behindZero : CString → CString
  | [] => []
  | c :: cs => if c == 120 || c == 88 then cs else c :: cs

def afterMark : CString → CString
  | [] => []
  | c :: cs => if c = 48 then behindZero cs else c :: cs

theorem afterMark_zero (cs : CString) : afterMark (48 :: cs) = behindZero cs := by
  change (if (48 : Byte) = 48 then behindZero cs else 48 :: cs) = behindZero cs
  exact if_pos rfl

theorem afterMark_other {cs : CString} (h : c ≠ 48) : afterMark (c :: cs) = c :: cs := by
  change (if c = 48 then behindZero cs else c :: cs) = c :: cs
  exact if_neg h

theorem readBase_16 (t : CString) : readBase 16 t = some (16, afterMark t) := by
  cases t with
  | nil => rfl
  | cons c cs =>
    by_cases hc : c = 48
    · subst hc
      rw [afterMark_zero]
      cases cs with
      | nil => rfl
      | cons d cs =>
        change (if (d == 120 || d == 88) = true then
          (if 16 ≠ 0 ∧ 16 ≠ 16 then none else some (16, cs)) else some (16, d :: cs)) =
            some (16, if (d == 120 || d == 88) = true then cs else d :: cs)
        split <;> rfl
    · rw [afterMark_other hc]
      unfold readBase
      split
      · rename_i heq
        exact absurd (List.cons.inj heq).1 hc
      · rename_i heq
        exact absurd (List.cons.inj heq).1 hc
      · rfl

/-! ## Hexadecimal digits -/

theorem digit_of_hexDigit : ∀ c : Byte, (hexDigit c).isSome = true →
    digitOf c = (hexDigit c).map BitVec.toNat ∧ (∀ x ∈ hexDigit c, x.toNat < 16) ∧
      isSpace c = false ∧ isSign c = false ∧ c ≠ 120 ∧ c ≠ 88 ∧ c ≠ 58 ∧ c ≠ 0 := by
  decide +kernel

/-- The characters are hexadecimal digits, upper case or lower case. -/
def AllHex (s : CString) : Prop := ∀ c ∈ s, (hexDigit c).isSome = true

/-- The value of the digits behind a number `r`. -/
def hexValue (s : CString) (r : Nat) : Nat :=
  s.foldl (fun r c => r * 16 + (digitOf c).getD 0) r

theorem le_hexValue (s : CString) (r : Nat) : r ≤ hexValue s r := by
  induction s generalizing r with
  | nil => exact Nat.le_refl r
  | cons c s ih =>
    have hrest := ih (r * 16 + (digitOf c).getD 0)
    have hstep : hexValue (c :: s) r = hexValue s (r * 16 + (digitOf c).getD 0) := rfl
    omega

/-- Digits that fit are read to their end. -/
theorem readDigits_hex (hs : AllHex s) {r : Nat} {first : Bool} (hfit : hexValue s r < 2 ^ w) :
    ∃ first', readDigits w 16 max s r first = ⟨hexValue s r, [], first', false⟩ := by
  induction s generalizing r first with
  | nil => exact ⟨first, rfl⟩
  | cons c s ih =>
    obtain ⟨hdigit, hsmall, -⟩ := digit_of_hexDigit c (hs c List.mem_cons_self)
    rcases hx : hexDigit c with _ | x
    · have hnot := hs c List.mem_cons_self
      rw [hx] at hnot
      cases hnot
    · rw [hx] at hdigit hsmall
      have hd : digitOf c = some x.toNat := hdigit
      have hx16 : x.toNat < 16 := hsmall x rfl
      have hstep : hexValue (c :: s) r = hexValue s (r * 16 + x.toNat) := by
        change hexValue s (r * 16 + (digitOf c).getD 0) = _
        rw [hd]
        rfl
      have hle := le_hexValue s (r * 16 + x.toNat)
      rw [hstep] at hfit ⊢
      have hmod : (r * 16 + x.toNat) % 2 ^ w = r * 16 + x.toNat := Nat.mod_eq_of_lt (by omega)
      unfold readDigits
      rw [hd]
      dsimp only
      rw [if_neg (by omega), hmod, if_neg (by omega)]
      exact ih (fun c hc => hs c (List.mem_cons_of_mem _ hc)) hfit

theorem AllHex.tail (h : AllHex (c :: s)) : AllHex s :=
  fun d hd => h d (List.mem_cons_of_mem _ hd)

/-- A string of digits has no mark, and a zero in front of it has no value. -/
theorem afterMark_hex (hs : AllHex s) :
    AllHex (afterMark s) ∧ hexValue (afterMark s) 0 = hexValue s 0 := by
  cases s with
  | nil => exact ⟨hs, rfl⟩
  | cons c cs =>
    by_cases hc : c = 48
    · subst hc
      have hkeep : behindZero cs = cs := by
        cases cs with
        | nil => rfl
        | cons d cs =>
          obtain ⟨-, -, -, -, hx, hX, -⟩ := digit_of_hexDigit d (hs.tail d List.mem_cons_self)
          have hmark : (d == 120 || d == 88) = false := by
            rw [beq_eq_false_iff_ne.mpr hx, beq_eq_false_iff_ne.mpr hX]
            rfl
          exact if_neg (ne_true_of_eq_false hmark)
      rw [afterMark_zero, hkeep]
      exact ⟨hs.tail, rfl⟩
    · rw [afterMark_other hc]
      exact ⟨hs, rfl⟩

/-- A string of hexadecimal digits is read as its value. -/
theorem strtou_hex (hs : AllHex s) (hfit : hexValue s 0 < 2 ^ w) :
    strtou w max s 16 = (hexValue s 0, []) := by
  have hsign : readSign (s.dropWhile isSpace) = (false, s) := by
    cases s with
    | nil => rfl
    | cons c cs =>
      obtain ⟨-, -, hspace, hsign, -⟩ := digit_of_hexDigit c (hs c List.mem_cons_self)
      rw [List.dropWhile_cons_of_neg (by simp [hspace]), readSign_plain hsign]
  obtain ⟨hall, hvalue⟩ := afterMark_hex hs
  obtain ⟨first, hdigits⟩ : ∃ first, readDigits w 16 max (afterMark s) 0 true =
      ⟨hexValue (afterMark s) 0, [], first, false⟩ := readDigits_hex hall (hvalue ▸ hfit)
  unfold strtou
  rw [if_neg (by decide), hsign]
  dsimp only
  rw [readBase_16]
  dsimp only
  rw [hdigits, hvalue]
  cases first <;> rfl

end rpi_wifi.plibc
