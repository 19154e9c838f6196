-- The law of numbers in a string, against what `strtoul` and `strtoull` read: the
-- characters between '9' and 'A' are taken for digits, a number that is too large is
-- noticed only when it wraps below the number in front of its last digit, and the end
-- pointer is behind blanks, signs and marks that belong to no number.
import RpiWifi.HexNumbers

namespace rpi_wifi.plibc.numbers

open ether4330

variable {w max base b r n d : Nat} {s t : CString} {c : Byte} {minus first : Bool}

/-! ## The law -/

/-- The value of a digit. The letters are digits in either case, from ten on. -/
def digitValue (c : Byte) : Option Nat :=
  if 48 ≤ c.toNat ∧ c.toNat ≤ 57 then some (c.toNat - 48)
  else if 65 ≤ c.toNat ∧ c.toNat ≤ 90 then some (c.toNat - 55)
  else if 97 ≤ c.toNat ∧ c.toNat ≤ 122 then some (c.toNat - 87)
  else none

def isDigit (base : Nat) (c : Byte) : Bool := (digitValue c).any (· < base)

/-- A zero and an 'x' in front. -/
def crossMark (t : CString) : Bool :=
  t.head? == some 48 && (t[1]? == some 120 || t[1]? == some 88)

/-- The mark of base 16, with a digit behind it. -/
def hexMark (t : CString) : Bool := crossMark t && (t[2]?).any (isDigit 16)

/-- The base of a number, and its text without the mark. -/
def lawBase (base : Nat) (t : CString) : Nat × CString :=
  if hexMark t ∧ (base = 0 ∨ base = 16) then (16, t.drop 2)
  else if base ≠ 0 then (base, t)
  else (if t.head? = some 48 then 8 else 10, t)

/-- The number that has `r` in front of the digits. -/
def numberFrom (base r : Nat) (digits : CString) : Nat :=
  digits.foldl (fun r c => r * base + (digitValue c).getD 0) r

/-- The value in `w` bits of a number with its sign. -/
def signed (w : Nat) (minus : Bool) (n : Nat) : Nat := if minus then (2 ^ w - n) % 2 ^ w else n

/-- A number that does not fit is replaced by the largest one. -/
def saturated (w : Nat) (minus : Bool) (n : Nat) : Nat :=
  if 2 ^ w ≤ n then 2 ^ w - 1 else signed w minus n

/-- The value and the end pointer of a number whose text behind the sign is `t`. -/
def lawText (w : Nat) (s : CString) (base : Nat) (minus : Bool) (t : CString) : Nat × CString :=
  let text := lawBase base t
  let digits := text.2.takeWhile (isDigit text.1)
  if digits = [] then (0, s)
  else (saturated w minus (numberFrom text.1 0 digits), text.2.dropWhile (isDigit text.1))

/-- The value and the end pointer for a result of `w` bits. -/
def law (w : Nat) (s : CString) (base : Nat) : Nat × CString :=
  lawText w s base (readSign (s.dropWhile isSpace)).1 (readSign (s.dropWhile isSpace)).2

/-! ## What is read by the law -/

/-- The value of one of the characters from ':' to '@', which the loops take for digits. -/
def oddValue (c : Byte) : Option Nat :=
  if 58 ≤ c.toNat ∧ c.toNat ≤ 64 then some (c.toNat - 48) else none

/-- The value of an odd digit that stands in front. -/
def oddDigit (base : Nat) (t : CString) : Option Nat :=
  t.head?.bind fun c => (oddValue c).filter (· < base)

/-- No digit makes the number wrap below the one in front of it. -/
def NeverBelow (w base : Nat) : Nat → CString → Prop
  | _, [] => True
  | r, c :: digits =>
    r % 2 ^ w ≤ (r * base + (digitValue c).getD 0) % 2 ^ w ∧
      NeverBelow w base (r * base + (digitValue c).getD 0) digits

/-- Behind the digits of `n` stands no odd digit, and `n` fits or wraps to the largest value;
or by an odd digit it wraps below itself, and `max` happens to be right. -/
def EndsRight (w max base : Nat) (minus : Bool) (n : Nat) : Option Nat → Prop
  | none => n < 2 ^ w ∨ n % 2 ^ w = if minus then 1 else 2 ^ w - 1
  | some d => (n * base + d) % 2 ^ w < n % 2 ^ w ∧ max = saturated w minus n

def ReadsRight (w max base : Nat) (minus : Bool) (t : CString) : Prop :=
  NeverBelow w base 0 (t.takeWhile (isDigit base)) ∧
    EndsRight w max base minus (numberFrom base 0 (t.takeWhile (isDigit base)))
      (oddDigit base (t.dropWhile (isDigit base)))

/-- Where there is no digit, nothing else may stand in front either. -/
structure MeetsText (w max : Nat) (s : CString) (base : Nat) (minus : Bool) (t : CString) :
    Prop where
  mark : crossMark t = true → hexMark t = true ∧ (base = 0 ∨ base = 16)
  number : if (lawBase base t).2.takeWhile (isDigit (lawBase base t).1) = [] then
      (lawBase base t).2 = s ∧ oddDigit (lawBase base t).1 (lawBase base t).2 = none
    else ReadsRight w max (lawBase base t).1 minus (lawBase base t).2

/-- The strings that are read by the law. -/
def Meets (w max : Nat) (s : CString) (base : Nat) : Prop :=
  MeetsText w max s base (readSign (s.dropWhile isSpace)).1 (readSign (s.dropWhile isSpace)).2

/-! ## The loop over the digits -/

/-- The loops know the digits, and take some characters for digits that are none. -/
theorem digitOf_cases : ∀ c : Byte,
    (digitOf c = digitValue c ∧ oddValue c = none) ∨
      (digitValue c = none ∧ digitOf c = oddValue c) ∨
        (digitValue c = none ∧ oddValue c = none ∧ ∀ d ∈ digitOf c, 36 ≤ d) := by
  decide +kernel

theorem numberFrom_cons (base r : Nat) (c : Byte) (digits : CString) :
    numberFrom base r (c :: digits) =
      numberFrom base (r * base + (digitValue c).getD 0) digits := rfl

theorem mod_step (r base d w : Nat) :
    (r % 2 ^ w * base + d) % 2 ^ w = (r * base + d) % 2 ^ w := by
  rw [Nat.add_mod, Nat.mul_mod, Nat.mod_mod, ← Nat.mul_mod, ← Nat.add_mod]

theorem readDigits_digit (hc : isDigit b c = true) (cs : CString) :
    readDigits w b max (c :: cs) (r % 2 ^ w) first =
      if (r * b + (digitValue c).getD 0) % 2 ^ w < r % 2 ^ w then ⟨max, c :: cs, first, true⟩
      else readDigits w b max cs ((r * b + (digitValue c).getD 0) % 2 ^ w) false := by
  obtain ⟨x, hx, hlt⟩ : ∃ x, digitValue c = some x ∧ x < b := by
    simpa [isDigit, Option.any_eq_true] using hc
  have hdigit : digitOf c = some x := by
    rcases digitOf_cases c with ⟨h, -⟩ | ⟨h, -⟩ | ⟨h, -⟩ <;> simp_all
  rw [readDigits, hdigit]
  simp [hx, Nat.not_le.mpr hlt, mod_step]

/-- Behind the digits, the loop ends in front of a character that it takes for none. -/
theorem readDigits_behind (hb : b ≤ 36) (hc : ∀ c ∈ t.head?, isDigit b c = false)
    (hodd : oddDigit b t = none) : readDigits w b max t r first = ⟨r, t, first, false⟩ := by
  cases t with
  | nil => rfl
  | cons c cs =>
    have hno := hc c rfl
    rw [readDigits]
    cases hdigit : digitOf c with
    | none => rfl
    | some x =>
      have hle : b ≤ x := by
        rcases digitOf_cases c with ⟨h, -⟩ | ⟨-, h⟩ | ⟨-, -, h⟩
        · simpa [isDigit, ← h, hdigit] using hno
        · simpa [oddDigit, ← h, hdigit] using hodd
        · exact le_trans hb (h x hdigit)
      simp [hle]

/-- An odd digit is read like one. -/
theorem readDigits_odd (w max r : Nat) (first : Bool) (hodd : oddDigit b t = some d) :
    ∃ c cs, t = c :: cs ∧ readDigits w b max t (r % 2 ^ w) first =
      if (r * b + d) % 2 ^ w < r % 2 ^ w then ⟨max, c :: cs, first, true⟩
      else readDigits w b max cs ((r * b + d) % 2 ^ w) false := by
  cases t with
  | nil => simp [oddDigit] at hodd
  | cons c cs =>
    obtain ⟨hvalue, hlt⟩ : oddValue c = some d ∧ d < b := by
      simpa [oddDigit, Option.filter_eq_some_iff] using hodd
    have hdigit : digitOf c = some d := by
      rcases digitOf_cases c with ⟨-, h⟩ | ⟨-, h⟩ | ⟨-, h, -⟩ <;> simp_all
    refine ⟨c, cs, rfl, ?_⟩
    rw [readDigits, hdigit]
    simp [Nat.not_le.mpr hlt, mod_step]

theorem readDigits_length (w b max : Nat) (t : CString) (r : Nat) (first : Bool) :
    (readDigits w b max t r first).rest.length ≤ t.length := by
  induction t generalizing r first with
  | nil => rfl
  | cons c cs ih =>
    rw [readDigits]
    split
    · rfl
    · split
      · rfl
      · dsimp only
        split
        · rfl
        · exact Nat.le_succ_of_le (ih _ _)

/-- The digits are read through as long as the number does not wrap below. -/
theorem readDigits_through (h : NeverBelow w b r (t.takeWhile (isDigit b))) :
    readDigits w b max t (r % 2 ^ w) first =
      readDigits w b max (t.dropWhile (isDigit b))
        (numberFrom b r (t.takeWhile (isDigit b)) % 2 ^ w)
        (first && (t.takeWhile (isDigit b)).isEmpty) := by
  induction t generalizing r first with
  | nil => simp [numberFrom]
  | cons c cs ih =>
    by_cases hc : isDigit b c = true
    · rw [List.takeWhile_cons_of_pos hc] at h ⊢
      obtain ⟨hle, hrest⟩ := h
      rw [readDigits_digit hc, if_neg (Nat.not_lt.mpr hle), ih hrest,
        List.dropWhile_cons_of_pos hc, numberFrom_cons]
      simp
    · simp [hc, numberFrom]

/-- Otherwise the loop ends in front of a digit. -/
theorem readDigits_stopped (max : Nat) (first : Bool)
    (h : ¬ NeverBelow w b r (t.takeWhile (isDigit b))) :
    (t.dropWhile (isDigit b)).length < (readDigits w b max t (r % 2 ^ w) first).rest.length := by
  induction t generalizing r first with
  | nil => exact absurd trivial h
  | cons c cs ih =>
    by_cases hc : isDigit b c = true
    · rw [List.takeWhile_cons_of_pos hc] at h
      rw [List.dropWhile_cons_of_pos hc, readDigits_digit hc]
      split
      · exact Nat.lt_succ_of_le (List.length_dropWhile_le _ _)
      · next hle => exact ih _ fun hrest => h ⟨Nat.not_lt.mp hle, hrest⟩
    · rw [List.takeWhile_cons_of_neg hc] at h
      exact absurd trivial h

/-! ## The result -/

/-- What the functions return behind the loop. -/
def resultOf (w : Nat) (minus : Bool) (d : Digits) : Nat × CString :=
  (if d.stop || d.first then d.value else signed w minus d.value, d.rest)

theorem signed_eq_saturated_iff (hw : 0 < w) :
    signed w minus (n % 2 ^ w) = saturated w minus n ↔
      n < 2 ^ w ∨ n % 2 ^ w = if minus then 1 else 2 ^ w - 1 := by
  have htwo : 2 ≤ 2 ^ w := Nat.le_self_pow hw.ne' 2
  have hlt : n % 2 ^ w < 2 ^ w := Nat.mod_lt _ (by omega)
  unfold saturated
  split
  · next hle =>
    have hno : ¬ n < 2 ^ w := by omega
    cases minus
    · simp [signed, hno]
    · simp only [signed, if_true, hno, false_or]
      generalize n % 2 ^ w = x at hlt
      constructor
      · intro h
        by_cases hzero : x = 0
        · subst hzero
          rw [Nat.sub_zero, Nat.mod_self] at h
          omega
        · rw [Nat.mod_eq_of_lt (by omega)] at h
          omega
      · rintro rfl
        exact Nat.mod_eq_of_lt (by omega)
  · next hle =>
    have hfit : n < 2 ^ w := by omega
    rw [Nat.mod_eq_of_lt hfit]
    exact ⟨fun _ => Or.inl hfit, fun _ => rfl⟩

/-- A text that starts with a digit is read as its number exactly when it is read right. -/
theorem result_eq_iff (hw : 0 < w) (hb : b ≤ 36) (hdigits : t.takeWhile (isDigit b) ≠ []) :
    resultOf w minus (readDigits w b max t 0 true) =
        (saturated w minus (numberFrom b 0 (t.takeWhile (isDigit b))), t.dropWhile (isDigit b)) ↔
      ReadsRight w max b minus t := by
  have hzero : readDigits w b max t 0 true = readDigits w b max t (0 % 2 ^ w) true := by simp
  have hempty : (t.takeWhile (isDigit b)).isEmpty = false := by simpa using hdigits
  have hbehind : ∀ c ∈ (t.dropWhile (isDigit b)).head?, isDigit b c = false := by
    intro c hc
    have hhead := List.head?_dropWhile_not (isDigit b) t
    rw [Option.mem_def.mp hc] at hhead
    simpa using hhead
  unfold ReadsRight
  rw [hzero]
  by_cases hnever : NeverBelow w b 0 (t.takeWhile (isDigit b))
  · rw [readDigits_through hnever, hempty, Bool.and_false]
    generalize numberFrom b 0 (t.takeWhile (isDigit b)) = n
    generalize t.dropWhile (isDigit b) = rest at hbehind
    cases hodd : oddDigit b rest with
    | none =>
      rw [readDigits_behind hb hbehind hodd]
      simp [resultOf, EndsRight, hnever, signed_eq_saturated_iff hw]
    | some d =>
      obtain ⟨c, cs, rfl, hread⟩ := readDigits_odd w max n false hodd
      rw [hread]
      split
      · next hlt => simp [resultOf, EndsRight, hnever, hlt]
      · next hle =>
        have hlen := readDigits_length w b max cs ((n * b + d) % 2 ^ w) false
        refine iff_of_false ?_ fun h => hle h.2.1
        intro h
        have hrest := congrArg (fun p => p.2.length) h
        simp only [resultOf, List.length_cons] at hrest
        omega
  · have hlen := readDigits_stopped max true hnever
    refine iff_of_false ?_ fun h => hnever h.1
    intro h
    have hrest := congrArg (fun p => p.2.length) h
    simp only [resultOf] at hrest
    omega

/-! ## The text behind the sign -/

theorem isDigit_zero (hb : 0 < b) : isDigit b 48 = true := by
  have hvalue : digitValue 48#8 = some 0 := by decide
  simp [isDigit, hvalue, hb]

/-- A zero in front changes nothing, for the loop does not see the first digit of a zero. -/
theorem result_zero (hb : 0 < b) (cs : CString) :
    resultOf w minus (readDigits w b max cs 0 true) =
      resultOf w minus (readDigits w b max (48 :: cs) 0 true) := by
  have hdigit : digitOf 48 = some 0 := by decide
  have hskip : readDigits w b max (48 :: cs) 0 true = readDigits w b max cs 0 false := by
    rw [readDigits, hdigit]
    simp [hb.ne']
  rw [hskip]
  have hnone : ∀ rest, resultOf w minus ⟨0, rest, true, false⟩ =
      resultOf w minus ⟨0, rest, false, false⟩ := by
    intro rest
    cases minus <;> simp [resultOf, signed]
  cases cs with
  | nil => exact hnone []
  | cons c cs =>
    rw [readDigits, readDigits]
    cases digitOf c with
    | none => exact hnone _
    | some d =>
      dsimp only
      split
      · exact hnone _
      · simp

theorem readBase_zero (base : Nat) (cs : CString) :
    readBase base (48 :: cs) =
      if crossMark (48 :: cs) then
        if base ≠ 0 ∧ base ≠ 16 then none else some (16, cs.drop 1)
      else some (if base = 0 then 8 else base, cs) := by
  cases cs with
  | nil => rfl
  | cons c cs =>
    have hmark : crossMark (48 :: c :: cs) = (c == 120 || c == 88) := by simp [crossMark]
    rw [hmark]
    rfl

theorem readBase_other (base : Nat) (h : t.head? ≠ some 48) :
    readBase base t = some (if base = 0 then 10 else base, t) := by
  unfold readBase
  split
  · simp at h
  · simp at h
  · rfl

/-- What the functions do behind the sign. -/
def readText (w max : Nat) (s : CString) (base : Nat) (minus : Bool) (t : CString) :
    Nat × CString :=
  match readBase base t with
  | none => (0, s)
  | some text => resultOf w minus (readDigits w text.1 max text.2 0 true)

theorem strtou_eq (hbase : base = 0 ∨ 2 ≤ base ∧ base ≤ 36) :
    strtou w max s base =
      readText w max s base (readSign (s.dropWhile isSpace)).1
        (readSign (s.dropWhile isSpace)).2 := by
  have hvalid : ¬ (base ≠ 0 ∧ (base < 2 ∨ 36 < base)) := by omega
  unfold strtou readText
  rw [if_neg hvalid]
  dsimp only
  cases readBase base (readSign (s.dropWhile isSpace)).2 with
  | none => rfl
  | some p =>
    dsimp only [resultOf, signed]
    split <;> rfl

theorem readSign_length (t : CString) : (readSign t).2.length ≤ t.length := by
  cases t with
  | nil => rfl
  | cons c cs =>
    rw [readSign_rest]
    split <;> simp

/-- A text without a digit is read right when nothing stands in front of it. -/
theorem no_digit_iff (hb : b ≤ 36) (ht : t.length ≤ s.length)
    (hdigits : t.takeWhile (isDigit b) = []) :
    resultOf w minus (readDigits w b max t 0 true) = (0, s) ↔ t = s ∧ oddDigit b t = none := by
  have hbehind : ∀ c ∈ t.head?, isDigit b c = false := by
    intro c hc
    cases t with
    | nil => cases hc
    | cons x cs =>
      obtain rfl : x = c := by simpa using hc
      simpa using hdigits
  cases hodd : oddDigit b t with
  | none =>
    rw [readDigits_behind hb hbehind hodd]
    simp [resultOf]
  | some d =>
    obtain ⟨c, cs, rfl, hread⟩ := readDigits_odd w max 0 true hodd
    have hlen := readDigits_length w b max cs ((0 * b + d) % 2 ^ w) false
    rw [Nat.zero_mod, if_neg (Nat.not_lt_zero _)] at hread
    rw [hread]
    simp only [List.length_cons] at ht
    refine iff_of_false ?_ (by simp)
    intro h
    have hrest := congrArg (fun p => p.2.length) h
    simp only [resultOf] at hrest
    omega

theorem text_iff (hw : 0 < w) (hb : b ≤ 36) (ht : t.length ≤ s.length) :
    resultOf w minus (readDigits w b max t 0 true) =
        (if t.takeWhile (isDigit b) = [] then (0, s)
        else (saturated w minus (numberFrom b 0 (t.takeWhile (isDigit b))),
          t.dropWhile (isDigit b))) ↔
      if t.takeWhile (isDigit b) = [] then t = s ∧ oddDigit b t = none
      else ReadsRight w max b minus t := by
  by_cases hdigits : t.takeWhile (isDigit b) = []
  · rw [if_pos hdigits, if_pos hdigits]
    exact no_digit_iff hb ht hdigits
  · rw [if_neg hdigits, if_neg hdigits]
    exact result_eq_iff hw hb hdigits

theorem crossMark_iff :
    crossMark t = true ↔ ∃ x cs, t = 48 :: x :: cs ∧ (x = 120 ∨ x = 88) := by
  cases t with
  | nil => simp [crossMark]
  | cons c cs =>
    cases cs with
    | nil => simp [crossMark]
    | cons x cs => simp [crossMark]

/-- A mark without a digit of its own is no mark, and the zero in it is the number. -/
theorem lawText_cross {x : Byte} {cs : CString} (ht : t = 48 :: x :: cs)
    (hno : ¬ (hexMark t ∧ (base = 0 ∨ base = 16))) :
    (lawText w s base minus t).2 =
      (x :: cs).dropWhile (isDigit (if base = 0 then 8 else base)) := by
  have hlaw : lawBase base t = (if base = 0 then 8 else base, t) := by
    rw [lawBase, if_neg hno, ht]
    by_cases hzero : base = 0
    · simp [hzero]
    · simp [hzero]
  have hpos : 0 < if base = 0 then 8 else base := by split <;> omega
  unfold lawText
  dsimp only
  rw [hlaw, ht, List.takeWhile_cons_of_pos (isDigit_zero hpos),
    List.dropWhile_cons_of_pos (isDigit_zero hpos)]
  rfl

/-- With the mark of base 16, both read on behind it. -/
theorem readText_hex (hw : 0 < w) (hhex : hexMark t = true) (hbase : base = 0 ∨ base = 16) :
    readText w max s base minus t = lawText w s base minus t ↔
      MeetsText w max s base minus t := by
  obtain ⟨hcross, hdigit⟩ : crossMark t = true ∧ (t[2]?).any (isDigit 16) = true := by
    simpa only [hexMark, Bool.and_eq_true] using hhex
  obtain ⟨x, cs, rfl, -⟩ := crossMark_iff.mp hcross
  have hlaw : lawBase base (48 :: x :: cs) = (16, cs) := by
    rw [lawBase, if_pos ⟨hhex, hbase⟩]
    rfl
  have hdigits : cs.takeWhile (isDigit 16) ≠ [] := by
    cases cs with
    | nil => simp at hdigit
    | cons c cs =>
      have hc : isDigit 16 c = true := by simpa using hdigit
      simp [List.takeWhile_cons_of_pos hc]
  have hread : readText w max s base minus (48 :: x :: cs) =
      resultOf w minus (readDigits w 16 max cs 0 true) := by
    have hbad : ¬ (base ≠ 0 ∧ base ≠ 16) := by omega
    rw [readText, readBase_zero, if_pos hcross, if_neg hbad]
    rfl
  have hmeets : MeetsText w max s base minus (48 :: x :: cs) ↔ ReadsRight w max 16 minus cs := by
    constructor
    · intro h
      have hnumber := h.number
      rwa [hlaw, if_neg hdigits] at hnumber
    · intro h
      exact ⟨fun _ => ⟨hhex, hbase⟩, by rwa [hlaw, if_neg hdigits]⟩
  rw [hmeets, ← result_eq_iff hw (by decide) hdigits, hread, lawText, hlaw]
  simp only [hdigits, if_false]

/-- A mark that is none: the law ends in front of the 'x', and the functions in front of the
string or behind the mark. -/
theorem readText_cross {x : Byte} {cs : CString} (ht : t = 48 :: x :: cs) (hx : x = 120 ∨ x = 88)
    (hno : ¬ (hexMark t = true ∧ (base = 0 ∨ base = 16))) (hlen : t.length ≤ s.length) :
    readText w max s base minus t ≠ lawText w s base minus t := by
  have hcross : crossMark (48 :: x :: cs) = true := crossMark_iff.mpr ⟨x, cs, rfl, hx⟩
  intro h
  have hrest := congrArg (fun p => p.2.length) h
  simp only [lawText_cross ht hno] at hrest
  by_cases hbad : base ≠ 0 ∧ base ≠ 16
  · have hread : readText w max s base minus t = (0, s) := by
      rw [readText, ht, readBase_zero, if_pos hcross, if_pos hbad]
    have hshort := List.length_dropWhile_le (isDigit (if base = 0 then 8 else base)) (x :: cs)
    rw [hread] at hrest
    rw [ht] at hlen
    simp only [List.length_cons] at hlen hshort hrest
    omega
  · have hread : readText w max s base minus t =
        resultOf w minus (readDigits w 16 max cs 0 true) := by
      rw [readText, ht, readBase_zero, if_pos hcross, if_neg hbad]
      rfl
    have hshort := readDigits_length w 16 max cs 0 true
    have hletter : isDigit (if base = 0 then 8 else base) x = false := by
      obtain rfl | rfl : base = 0 ∨ base = 16 := by omega
      · rcases hx with rfl | rfl <;> decide
      · rcases hx with rfl | rfl <;> decide
    rw [hread, List.dropWhile_cons_of_neg (by simp [hletter])] at hrest
    simp only [List.length_cons, resultOf] at hrest
    omega

/-- Without a mark, both read the same text in the same base. -/
theorem readText_plain (w max : Nat) (s : CString) (minus : Bool)
    (hcross : crossMark t = false) (hbase : base = 0 ∨ 2 ≤ base ∧ base ≤ 36) :
    (lawBase base t).2 = t ∧ (lawBase base t).1 ≤ 36 ∧
      readText w max s base minus t =
        resultOf w minus (readDigits w (lawBase base t).1 max t 0 true) := by
  have hlaw : lawBase base t =
      (if base ≠ 0 then base else if t.head? = some 48 then 8 else 10, t) := by
    unfold lawBase hexMark
    rw [hcross, Bool.false_and, if_neg (by simp)]
    split <;> rfl
  rw [hlaw]
  refine ⟨rfl, by dsimp only; split_ifs <;> omega, ?_⟩
  by_cases hzero : t.head? = some 48
  · obtain ⟨cs, rfl⟩ : ∃ cs, t = 48 :: cs := by
      cases t with
      | nil => cases hzero
      | cons c cs => exact ⟨cs, by rw [Option.some_inj.mp hzero]⟩
    have hb : (if base ≠ 0 then base else 8) = if base = 0 then 8 else base := by
      split_ifs <;> simp_all
    have hpos : 0 < if base = 0 then 8 else base := by split <;> omega
    rw [if_pos hzero, hb, readText, readBase_zero, hcross, ← result_zero hpos]
    rfl
  · rw [if_neg hzero, readText, readBase_other base hzero]
    have hb : (if base ≠ 0 then base else 10) = if base = 0 then 10 else base := by
      split_ifs <;> simp_all
    rw [hb]

theorem readText_iff (hw : 0 < w) (hbase : base = 0 ∨ 2 ≤ base ∧ base ≤ 36)
    (hlen : t.length ≤ s.length) :
    readText w max s base minus t = lawText w s base minus t ↔
      MeetsText w max s base minus t := by
  by_cases hhex : hexMark t = true ∧ (base = 0 ∨ base = 16)
  · exact readText_hex hw hhex.1 hhex.2
  · cases hcross : crossMark t with
    | true =>
      obtain ⟨x, cs, ht, hx⟩ := crossMark_iff.mp hcross
      exact iff_of_false (readText_cross ht hx hhex hlen) fun h => hhex (h.mark hcross)
    | false =>
      obtain ⟨htext, hb, hread⟩ := readText_plain w max s minus hcross hbase
      have hmeets : MeetsText w max s base minus t ↔
          if t.takeWhile (isDigit (lawBase base t).1) = [] then
            t = s ∧ oddDigit (lawBase base t).1 t = none
          else ReadsRight w max (lawBase base t).1 minus t := by
        constructor
        · intro h
          have hnumber := h.number
          rwa [htext] at hnumber
        · intro h
          refine ⟨fun h => ?_, by rwa [htext]⟩
          rw [hcross] at h
          cases h
      rw [hmeets, hread, lawText, htext]
      exact text_iff hw hb hlen

/-- The functions return what the law gives on the strings that are read by it. -/
theorem strtou_eq_law_iff (hw : 0 < w) (hbase : base = 0 ∨ 2 ≤ base ∧ base ≤ 36) :
    strtou w max s base = law w s base ↔ Meets w max s base := by
  rw [strtou_eq hbase]
  exact readText_iff hw hbase
    (le_trans (readSign_length _) (List.length_dropWhile_le isSpace s))

/-! ## The two functions -/

theorem numbers_are_read_by_the_law_iff (s : CString) (base : Nat)
    (hbase : base = 0 ∨ 2 ≤ base ∧ base ≤ 36) :
    (strtoul s base = law 32 s base ↔ Meets 32 (2 ^ 32 - 1) s base) ∧
      (strtoull s base = law 64 s base ↔ Meets 64 (2 ^ 32 - 1) s base) :=
  ⟨strtou_eq_law_iff (by decide) hbase, strtou_eq_law_iff (by decide) hbase⟩

theorem a_number_with_a_mark_is_read :
    strtoul (cstr " -0x2A!") 0 = law 32 (cstr " -0x2A!") 0 ∧
      strtoul (cstr " -0x2A!") 0 = (2 ^ 32 - 42, cstr "!") := by
  have h := numbers_are_read_by_the_law_iff (cstr " -0x2A!") 0 (Or.inl rfl)
  refine ⟨h.1.mpr ⟨fun _ => by decide, ?_⟩, by decide⟩
  rw [if_neg (by decide)]
  exact ⟨⟨by decide, by decide, trivial⟩, Or.inl (by decide)⟩

/-- A number of 33 bits that wraps to a large one is not noticed. -/
theorem a_number_that_wraps_is_returned :
    ¬ ∀ (s : CString) (base : Nat), base = 0 ∨ 2 ≤ base ∧ base ≤ 36 →
      strtoul s base = law 32 s base ∧ strtoull s base = law 64 s base := by
  intro h
  have hwrap := (h (cstr "123456789") 16 (by decide)).1
  exact absurd hwrap (by decide)

end rpi_wifi.plibc.numbers
