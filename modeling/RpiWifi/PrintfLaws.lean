-- A format is read as what it means. Each part of a specification is read back from its text,
-- whatever stands behind it, and so is a whole format.
import RpiWifi.PrintfSyntax

namespace rpi_wifi.plibc.doprnt

open ether4330 numbers

variable {strings : Strings} {fmt rest : CString} {ap : List Word} {c : Byte} {n : Nat}

theorem fits_eq {m : Nat} (h : fits n = some m) : n = m := by
  unfold fits at h
  split_ifs at h
  exact Option.some_inj.mp h

/-! ## The numbers of a format -/

/-- A character of a number. -/
def isFigure (c : Byte) : Prop := 48 ≤ c.toNat ∧ c.toNat ≤ 57

instance (c : Byte) : Decidable (isFigure c) := inferInstanceAs (Decidable (_ ∧ _))

theorem number_stop (h : ∀ c ∈ rest.head?, ¬ isFigure c) (n : Nat) : number rest n = (n, rest) := by
  cases rest with
  | nil => rfl
  | cons c rest =>
    unfold number
    exact if_neg (h c rfl)

theorem number_figures {s : CString} (hs : ∀ c ∈ s, isFigure c) (rest : CString) (n : Nat) :
    number (s ++ rest) n = number rest (numberFrom 10 n s) := by
  induction s generalizing n with
  | nil => rfl
  | cons c s ih =>
    have hc : 48 ≤ c.toNat ∧ c.toNat ≤ 57 := hs c List.mem_cons_self
    have hvalue : digitValue c = some (c.toNat - 48) := by
      unfold digitValue
      exact if_pos hc
    rw [List.cons_append, number, if_pos hc, ih (fun d hd => hs d (List.mem_cons_of_mem c hd)),
      numberFrom_cons, hvalue]
    rfl

theorem numeral_figures (n : Nat) : ∀ c ∈ numeral false 10 n, isFigure c := by
  intro c hc
  obtain ⟨d, hd, rfl⟩ := numeral_digits false (by decide) n c hc
  have hall : ∀ d < 10, isFigure (digitChar false d) := by decide
  exact hall d hd

theorem number_numeral (n : Nat) (h : ∀ c ∈ rest.head?, ¬ isFigure c) :
    number (numeral false 10 n ++ rest) 0 = (n, rest) := by
  rw [number_figures (numeral_figures n), numberFrom_numeral false (by decide) (by decide),
    number_stop h]

/-- A number that is not zero does not begin with a zero. -/
theorem numeral_head (hn : 0 < n) (rest : CString) :
    ∃ c t, numeral false 10 n ++ rest = c :: t ∧ isFigure c ∧ c ≠ 48 := by
  induction n using numeral_induction (show 2 ≤ 10 by decide) generalizing rest with
  | small n h =>
    have hlt : n < 10 := (Nat.div_eq_zero_iff.mp h).resolve_left (by omega)
    have hall : ∀ d < 10, 0 < d → isFigure (digitChar false d) ∧ digitChar false d ≠ 48 := by
      decide
    rw [numeral_small h (by decide), Nat.mod_eq_of_lt hlt]
    exact ⟨_, _, rfl, hall n hlt hn⟩
  | more n h ih =>
    rw [numeral_more h (by decide), List.append_assoc]
    exact ih (Nat.pos_of_ne_zero h) _

/-! ## What stands behind a part -/

/-- The characters that a conversion may be. -/
theorem conversion_print (conv : Conversion) : conversionOf conv.print = some conv ∧
    ¬ isFigure conv.print ∧ conv.print ≠ 37 ∧ conv.print ≠ 42 ∧ conv.print ≠ 45 ∧
      conv.print ≠ 46 ∧ conv.print ≠ 104 ∧ conv.print ≠ 108 := by
  cases conv <;> decide

/-- The text from the modifier on. -/
theorem size_head (size : IntegerSize) (conv : Conversion) (rest : CString) :
    ∀ c ∈ (size.print ++ conv.print :: rest).head?,
      ¬ isFigure c ∧ c ≠ 37 ∧ c ≠ 42 ∧ c ≠ 45 ∧ c ≠ 46 := by
  intro c hc
  cases size with
  | REGULAR =>
    cases hc
    obtain ⟨-, h, h37, h42, h45, h46, -⟩ := conversion_print conv
    exact ⟨h, h37, h42, h45, h46⟩
  | _ =>
    cases hc
    decide

/-- The text from the precision on. -/
theorem precision_head (p : Precision) (size : IntegerSize) (conv : Conversion) (rest : CString) :
    ∀ c ∈ (p.print ++ (size.print ++ conv.print :: rest)).head?,
      ¬ isFigure c ∧ c ≠ 37 ∧ c ≠ 42 ∧ c ≠ 45 := by
  intro c hc
  cases p with
  | none =>
    obtain ⟨h, h37, h42, h45, -⟩ := size_head size conv rest c hc
    exact ⟨h, h37, h42, h45⟩
  | _ =>
    cases hc
    decide

/-- The text from the width on. -/
theorem width_head (w : Width) (p : Precision) (size : IntegerSize) (conv : Conversion)
    (rest : CString) :
    ∀ c ∈ (w.print ++ (p.print ++ (size.print ++ conv.print :: rest))).head?,
      c ≠ 37 ∧ c ≠ 45 ∧ c ≠ 48 := by
  intro c hc
  cases w with
  | none =>
    obtain ⟨h, h37, -, h45⟩ := precision_head p size conv rest c hc
    refine ⟨h37, h45, ?_⟩
    rintro rfl
    exact h (by decide)
  | star =>
    cases hc
    decide
  | fixed n pos =>
    obtain ⟨d, t, heq, hd, h48⟩ := numeral_head pos (p.print ++ (size.print ++ conv.print :: rest))
    rw [Width.print, heq] at hc
    cases hc
    refine ⟨?_, ?_, h48⟩
    · rintro rfl
      exact absurd hd (by decide)
    · rintro rfl
      exact absurd hd (by decide)

/-! ## The parts of a specification -/

theorem flags_print (fs : List Flag) (h : ∀ c ∈ rest.head?, c ≠ 45 ∧ c ≠ 48) (left : Bool)
    (pad : Byte) :
    flags (fs.map Flag.print ++ rest) left pad =
      (left || fs.contains .minus, if fs.contains .zero then 48 else pad, rest) := by
  induction fs generalizing left pad with
  | nil =>
    cases rest with
    | nil => simp [flags]
    | cons c rest =>
      obtain ⟨h45, h48⟩ := h c rfl
      simp only [List.map_nil, List.nil_append, flags, if_neg h45, if_neg h48]
      simp
  | cons f fs ih =>
    cases f with
    | minus =>
      rw [List.map_cons, List.cons_append, flags, if_pos (by rfl), ih]
      simp
    | zero =>
      rw [List.map_cons, List.cons_append, flags, if_neg (by decide), if_pos (by rfl), ih]
      simp

theorem fieldWidth_print (w : Width) (h : ∀ c ∈ rest.head?, ¬ isFigure c ∧ c ≠ 42) (left : Bool)
    (ap : List Word) :
    fieldWidth (w.print ++ rest) left ap = (w.value ap).bind fun (v, ap) =>
      (fits v.natAbs).map fun n => (n, left || decide (v < 0), rest, ap) := by
  have hfigure : ∀ c ∈ rest.head?, ¬ isFigure c := fun c hc => (h c hc).1
  have hstar : rest.head? ≠ some 42 := fun heq => (h 42 heq).2 rfl
  cases w with
  | none =>
    unfold fieldWidth
    rw [Width.print, List.nil_append, if_neg hstar, number_stop hfigure]
    simp [Width.value, fits]
  | star =>
    unfold fieldWidth
    rw [Width.print, List.singleton_append, if_pos (by rfl)]
    cases ap with
    | nil => rfl
    | cons arg ap =>
      simp only [va_arg, Width.value, Option.bind_eq_bind, Option.bind_some, Option.map_some,
        List.tail_cons]
      split_ifs with hneg
      · simp [hneg, Option.map_eq_bind]
      · have hint : arg.toInt = arg.toNat := by
          rw [BitVec.toInt_eq_toNat_cond] at hneg ⊢
          split_ifs at hneg ⊢ <;> omega
        have hfit : fits arg.toNat = some arg.toNat := by
          rw [BitVec.toInt_eq_toNat_cond] at hint
          unfold fits
          rw [if_pos]
          split_ifs at hint <;> omega
        simp [hint, hfit]
  | fixed n pos =>
    obtain ⟨c, t, heq, hc, -⟩ := numeral_head pos rest
    have hnone : ¬ (numeral false 10 n ++ rest).head? = some 42 := by
      rw [heq]
      rintro ⟨⟩
      exact absurd hc (by decide)
    unfold fieldWidth
    rw [Width.print, if_neg hnone, number_numeral n hfigure]
    simp only [Width.value, Option.bind_some, Int.natAbs_natCast, Option.bind_eq_bind,
      Option.map_eq_bind]
    have hpos : ¬ ((n : Int) < 0) := by omega
    simp [hpos]

/-- The precision is read, or an argument is missing. -/
theorem precision_print (p : Precision) (h : ∀ c ∈ rest.head?, ¬ isFigure c ∧ c ≠ 42 ∧ c ≠ 46)
    (ap : List Word) :
    (precision (p.print ++ rest) ap = none ∧ p.value ap = none) ∨
      ∃ prec ap', precision (p.print ++ rest) ap = some (prec, rest, ap') ∧
        p.value ap = some (if prec < 0 then none else some prec.toNat, ap') := by
  have hfigure : ∀ c ∈ rest.head?, ¬ isFigure c := fun c hc => (h c hc).1
  have hstar : rest.head? ≠ some 42 := fun heq => (h 42 heq).2.1 rfl
  have hperiod : rest.head? ≠ some 46 := fun heq => (h 46 heq).2.2 rfl
  unfold precision
  cases p with
  | none =>
    rw [Precision.print, List.nil_append, if_neg hperiod]
    exact .inr ⟨-1, ap, rfl, rfl⟩
  | star =>
    rw [Precision.print, if_pos (by rfl), if_pos (by rfl)]
    cases ap with
    | nil => exact .inl ⟨rfl, rfl⟩
    | cons arg ap =>
      refine .inr ⟨arg.toInt, ap, rfl, ?_⟩
      simp only [Precision.value, va_arg, Option.map_some]
      split_ifs with hneg
      · rfl
      · rw [BitVec.toInt_eq_toNat_cond] at hneg ⊢
        split_ifs at hneg ⊢
        · rfl
        · omega
  | period =>
    rw [Precision.print, if_pos (by rfl), List.singleton_append, List.tail_cons, if_neg hstar,
      number_stop hfigure]
    exact .inr ⟨0, ap, rfl, rfl⟩
  | fixed n =>
    have hnone : ¬ (numeral false 10 n ++ rest).head? = some 42 := by
      intro heq
      obtain ⟨c, t, ht⟩ := List.exists_cons_of_ne_nil (numeral_ne_nil false (show 2 ≤ 10 by decide) n)
      have hc := numeral_figures n c (by simp [ht])
      rw [ht] at heq
      cases heq
      exact absurd hc (by decide)
    rw [Precision.print, if_pos (by rfl), List.cons_append, List.tail_cons, if_neg hnone,
      number_numeral n hfigure]
    dsimp only [Precision.value]
    unfold fits
    split_ifs with hfit
    · refine .inr ⟨n, ap, rfl, ?_⟩
      have hpos : ¬ ((n : Int) < 0) := by omega
      rw [if_neg hpos]
      rfl
    · exact .inl ⟨rfl, rfl⟩

theorem lengthModifier_print (size : IntegerSize) (h : ∀ c ∈ rest.head?, c ≠ 104 ∧ c ≠ 108) :
    lengthModifier (size.print ++ rest) = (size, rest) := by
  have hh : rest.head? ≠ some 104 := fun heq => (h 104 heq).1 rfl
  have hl : rest.head? ≠ some 108 := fun heq => (h 108 heq).2 rfl
  unfold lengthModifier
  cases size with
  | SHORT_SHORT => rfl
  | SHORT =>
    rw [IntegerSize.print, if_neg (by simp), if_pos (by rfl), List.singleton_append,
      List.tail_cons, if_neg hh]
  | REGULAR => rw [IntegerSize.print, List.nil_append, if_neg hl, if_neg hh]
  | LONG => rfl

/-! ## The text of a specification -/

def Chars.text (strings : Strings) : Chars → CString
  | .string t => t
  | .pointer p => strings p

/-- What the loops put out for a specification. -/
def Field.text (strings : Strings) (f : Field) : Option CString :=
  (f.lengths (f.str.text strings).length).map fun l =>
    List.replicate l.before l.pad_char ++ f.sign.toList ++ List.replicate l.num_zeroes 48 ++
      (f.str.text strings).take l.len_str ++ List.replicate l.behind l.pad_char

def Item.text (strings : Strings) : Item → Option CString
  | .literal c => some [c]
  | .field f => f.text strings

theorem convert_eq (strings : Strings) (conv : Conversion) (arg : Word) :
    ∃ str, convert conv arg = some ((conv.text strings arg).1, str) ∧
      str.text strings = (conv.text strings arg).2 := by
  have hnat : ∀ alt base, 2 ≤ base → base < 2 ^ 32 → ∀ num : Word,
      ulong_to_string num base alt = some (numeral alt base num.toNat) :=
    fun alt base hbase hword num => ulong_to_string_eq num alt hbase hword
  cases conv with
  | c => exact ⟨_, rfl, rfl⟩
  | s =>
    refine ⟨_, rfl, ?_⟩
    simp only [Conversion.text]
    split_ifs <;> rfl
  | d =>
    simp only [convert, Conversion.text]
    split_ifs with hneg
    · have habs : (-arg).toNat = arg.toInt.natAbs := by
        rw [BitVec.toInt_eq_toNat_cond] at hneg ⊢
        rw [BitVec.toNat_neg]
        split_ifs at hneg ⊢ <;> omega
      rw [hnat false 10 (by decide) (by decide), habs]
      exact ⟨_, rfl, rfl⟩
    · have habs : arg.toNat = arg.toInt.natAbs := by
        rw [BitVec.toInt_eq_toNat_cond] at hneg ⊢
        split_ifs at hneg ⊢ <;> omega
      rw [hnat false 10 (by decide) (by decide), habs]
      exact ⟨_, rfl, rfl⟩
  | X =>
    simp only [convert, Conversion.text]
    rw [hnat true 16 (by decide) (by decide)]
    exact ⟨_, rfl, rfl⟩
  | u | o | x | b =>
    simp only [convert, Conversion.text]
    rw [hnat false _ (by decide) (by decide)]
    exact ⟨_, rfl, rfl⟩

/-- The characters of a field with `k` zeroes in front, when the padding is put out in
parts. -/
theorem layOut_parts (left zeroes : Bool) (fmin k : Nat) (sign : Option Byte) (str : CString)
    (hleft : left = true → zeroes = false) (hk : zeroes = true → k = 0) :
    (let len_padding := fmin - (str.length + k + sign.toList.length)
     let padding := List.replicate (if zeroes then 0 else len_padding) (if zeroes then 48 else 32)
     (if left then [] else padding) ++ sign.toList ++
        List.replicate (if zeroes then len_padding else k) 48 ++ str ++
          if left then padding else []) =
      layOut left zeroes fmin sign (List.replicate k 48 ++ str) := by
  have hlen : (sign.toList ++ (List.replicate k (48 : Byte) ++ str)).length =
      str.length + k + sign.toList.length := by
    simp only [List.length_append, List.length_replicate]
    omega
  unfold layOut
  cases left with
  | true =>
    rw [hleft rfl]
    simp only [List.rightpad, hlen]
    simp
  | false =>
    cases zeroes with
    | false =>
      simp only [List.leftpad, hlen]
      simp
    | true =>
      rw [hk rfl, Nat.add_comm str.length, Nat.add_assoc, Nat.zero_add, Nat.add_comm str.length]
      simp [List.leftpad, Nat.sub_sub]

/-- What is put out, in the words of the meaning. -/
theorem field_text (left zero : Bool) (fmin : Nat) (prec : Int) (numeric : Bool)
    (sign : Option Byte) (chars : Chars) {str : CString} (hstr : chars.text strings = str) :
    Field.text strings
        ⟨left, if left then 32 else if zero then 48 else 32, fmin, prec, numeric, sign, chars⟩ =
      (fits str.length).bind fun _ =>
        let p := if prec < 0 then none else some prec.toNat
        let body := withPrecision numeric p str
        (fits (sign.toList ++ body).length).map fun _ =>
          layOut left (zero && !(numeric && p.isSome)) fmin sign body := by
  -- A precision of a number takes the place of the zeroes.
  have hprec : (0 ≤ prec ∧ numeric = true) ↔
      (numeric && (if prec < 0 then none else some prec.toNat).isSome) = true := by
    cases numeric <;> split_ifs <;> simp <;> omega
  have hpad : (if 0 ≤ prec ∧ numeric = true then 32
      else if left then 32 else if zero then 48 else 32 : Byte) =
      if (!left && (zero && !(numeric && (if prec < 0 then none else some prec.toNat).isSome)))
        then 48 else 32 := by
    simp only [hprec]
    generalize (numeric && (if prec < 0 then none else some prec.toNat).isSome) = b
    cases b <;> cases left <;> cases zero <;> rfl
  have hbody : withPrecision numeric (if prec < 0 then none else some prec.toNat) str =
      List.replicate (if 0 ≤ prec ∧ numeric = true then prec.toNat - str.length else 0) 48 ++
        str.take (if 0 ≤ prec ∧ (!numeric) = true ∧ prec < str.length then prec.toNat
          else str.length) := by
    by_cases hneg : prec < 0
    · have hnot : ¬ 0 ≤ prec := by omega
      simp [withPrecision, hneg, hnot]
    · have hpos : 0 ≤ prec := by omega
      rw [if_neg hneg]
      cases numeric with
      | true => simp [withPrecision, hpos, List.leftpad]
      | false =>
        by_cases hshort : prec < str.length
        · simp [withPrecision, hpos, hshort]
        · have hlong : str.length ≤ prec.toNat := by omega
          simp [withPrecision, hshort, List.take_of_length_le hlong]
  have htake : (if 0 ≤ prec ∧ (!numeric) = true ∧ prec < str.length then prec.toNat
      else str.length) ≤ str.length := by
    split_ifs <;> omega
  have hzero : (zero && !(numeric && (if prec < 0 then none else some prec.toNat).isSome)) = true →
      (if 0 ≤ prec ∧ numeric = true then prec.toNat - str.length else 0) = 0 := by
    intro h
    refine if_neg fun hnumber => ?_
    rw [hprec.mp hnumber] at h
    simp at h
  unfold Field.text Field.lengths
  dsimp only
  rw [hstr]
  rcases hshort : fits str.length with _ | strlen
  · rfl
  obtain rfl : str.length = strlen := fits_eq hshort
  simp only [Option.bind_eq_bind, Option.bind_some]
  rw [hpad, hbody]
  generalize (zero && !(numeric && (if prec < 0 then none else some prec.toNat).isSome)) = zeroes
    at hzero ⊢
  generalize (if 0 ≤ prec ∧ (!numeric) = true ∧ prec < str.length then prec.toNat
    else str.length) = n at htake ⊢
  generalize (if 0 ≤ prec ∧ numeric = true then prec.toNat - str.length else 0) = k at hzero ⊢
  have hpads : (!left && (if !left && zeroes then (48 : Byte) else 32) == 48) =
      (!left && zeroes) := by
    cases left <;> cases zeroes <;> rfl
  have hout : layOut left zeroes fmin sign (List.replicate k 48 ++ str.take n) =
      layOut left (!left && zeroes) fmin sign (List.replicate k 48 ++ str.take n) := by
    cases left <;> rfl
  have hlen : (sign.toList ++ (List.replicate k (48 : Byte) ++ str.take n)).length =
      n + k + sign.toList.length := by
    simp only [List.length_append, List.length_replicate, List.length_take_of_le htake]
    omega
  have hparts := layOut_parts left (!left && zeroes) fmin k sign (str.take n)
    (by rintro rfl; rfl) fun h => hzero (Bool.and_eq_true_iff.mp h).2
  rw [List.length_take_of_le htake] at hparts
  rw [hpads, hout, ← hparts, hlen]
  cases hfit : fits (n + k + sign.toList.length) with
  | none => rfl
  | some m =>
    obtain rfl : n + k + sign.toList.length = m := fits_eq hfit
    cases left <;> simp

/-! ## A whole format -/

/-- The characters that a round puts out, with what is left. -/
def textOf (strings : Strings) (r : Option (Item × CString × List Word)) :
    Option (CString × CString × List Word) :=
  r.bind fun (item, fmt, ap) => (item.text strings).map fun out => (out, fmt, ap)

theorem specification_print (strings : Strings) (d : Spec) (rest : CString) (ap : List Word) :
    textOf strings (specification (d.print ++ rest) ap) =
      (d.denote strings ap).map fun (out, ap) => (out, rest, ap) := by
  obtain ⟨fs, w, p, size, conv⟩ := d
  obtain ⟨hconv, -, -, -, -, -, h104, h108⟩ := conversion_print conv
  have hflags : ∀ c ∈ (w.print ++ (p.print ++ (size.print ++ conv.print :: rest))).head?,
      c ≠ 45 ∧ c ≠ 48 := fun c hc => (width_head w p size conv rest c hc).2
  have hwidth : ∀ c ∈ (p.print ++ (size.print ++ conv.print :: rest)).head?,
      ¬ isFigure c ∧ c ≠ 42 := by
    intro c hc
    obtain ⟨h, -, h42, -⟩ := precision_head p size conv rest c hc
    exact ⟨h, h42⟩
  have hprec : ∀ c ∈ (size.print ++ conv.print :: rest).head?,
      ¬ isFigure c ∧ c ≠ 42 ∧ c ≠ 46 := by
    intro c hc
    obtain ⟨h, -, h42, -, h46⟩ := size_head size conv rest c hc
    exact ⟨h, h42, h46⟩
  have hsize : ∀ c ∈ (conv.print :: rest).head?, c ≠ 104 ∧ c ≠ 108 := by
    rintro c ⟨⟩
    exact ⟨h104, h108⟩
  have htext : Spec.print ⟨fs, w, p, size, conv⟩ ++ rest = fs.map Flag.print ++
      (w.print ++ (p.print ++ (size.print ++ conv.print :: rest))) := by
    simp [Spec.print]
  rw [htext, specification, flags_print fs hflags]
  dsimp only
  rw [fieldWidth_print w hwidth, Spec.denote]
  dsimp only
  cases hw : w.value ap with
  | none => rfl
  | some v =>
    obtain ⟨v, ap⟩ := v
    simp only [Option.bind_eq_bind, Option.bind_some]
    cases fits v.natAbs with
    | none => rfl
    | some width =>
      simp only [Option.map_some, Option.bind_some]
      rcases precision_print p hprec ap with ⟨hnone, hvalue⟩ | ⟨prec, ap, hsome, hvalue⟩
      · rw [hnone, hvalue]
        rfl
      · rw [hsome, hvalue]
        simp only [Option.bind_some]
        rw [lengthModifier_print size hsize]
        simp only [List.head?_cons, Option.bind_some, hconv]
        cases hap : va_arg ap with
        | none => rfl
        | some arg =>
          obtain ⟨str, hconvert, hstr⟩ := convert_eq strings conv arg.1
          simp only [Option.bind_some, hconvert, Bool.false_or, textOf, Option.pure_def,
            Item.text, field_text _ _ _ _ _ _ str hstr]
          cases fits (conv.text strings arg.1).2.length with
          | none => rfl
          | some _ =>
            simp only [Option.bind_some]
            cases fits (((conv.text strings arg.1).1.toList ++ withPrecision (conv.base != 0)
              (if prec < 0 then none else some prec.toNat)
              (conv.text strings arg.1).2).length) <;> rfl

/-- A specification does not begin with a '%'. -/
theorem spec_head (d : Spec) (rest : CString) : (d.print ++ rest).head? ≠ some 37 := by
  obtain ⟨fs, w, p, size, conv⟩ := d
  have htext : Spec.print ⟨fs, w, p, size, conv⟩ ++ rest = fs.map Flag.print ++
      (w.print ++ (p.print ++ (size.print ++ conv.print :: rest))) := by
    simp [Spec.print]
  rw [htext]
  cases fs with
  | nil => exact fun heq => (width_head w p size conv rest 37 heq).1 rfl
  | cons f fs => cases f <;> simp [Flag.print]

/-- A round takes a piece. -/
theorem round_print (strings : Strings) (p : Piece) (rest : CString) (ap : List Word) :
    textOf strings (round (p.print ++ rest) ap) =
      (p.denote strings ap).map fun (out, ap) => (out, rest, ap) := by
  cases p with
  | char c ordinary =>
    have hround : round (c :: rest) ap = some (.literal c, rest, ap) := if_neg ordinary.2
    rw [Piece.print, List.singleton_append, hround]
    rfl
  | percent => rfl
  | spec d =>
    have hround : round (37 :: (d.print ++ rest)) ap =
        if (d.print ++ rest).head? = some 37 then some (.literal 37, (d.print ++ rest).tail, ap)
        else specification (d.print ++ rest) ap := rfl
    rw [Piece.print, List.cons_append, hround, if_neg (spec_head d rest), specification_print]
    rfl

theorem piece_print_ne_nil (p : Piece) : p.print ≠ [] := by
  cases p <;> simp [Piece.print]

/-- The characters that `n` rounds put out. -/
def formatText (strings : Strings) : Nat → CString → List Word → Option CString
  | _, [], _ => some []
  | 0, _ :: _, _ => none
  | n + 1, c :: fmt, ap => do
    let (out, fmt, ap) ← textOf strings (round (c :: fmt) ap)
    let rest ← formatText strings n fmt ap
    return out ++ rest

/-- The rounds take the pieces of a format. -/
theorem formatText_print (strings : Strings) (ps : List Piece) {n : Nat}
    (hn : (formatOf ps).length ≤ n) (ap : List Word) :
    formatText strings n (formatOf ps) ap = denote strings ps ap := by
  induction ps generalizing n ap with
  | nil => cases n <;> rfl
  | cons p ps ih =>
    obtain ⟨c, fmt, hp⟩ := List.exists_cons_of_ne_nil (piece_print_ne_nil p)
    have hfmt : formatOf (p :: ps) = c :: (fmt ++ formatOf ps) := by
      rw [formatOf, List.flatMap_cons, hp]
      rfl
    have hround := round_print strings p (formatOf ps) ap
    rw [hp, List.cons_append] at hround
    rw [hfmt, List.length_cons, List.length_append] at hn
    cases n with
    | zero => omega
    | succ n =>
      rw [hfmt, formatText, hround, denote]
      cases p.denote strings ap with
      | none => rfl
      | some out =>
        obtain ⟨out, ap⟩ := out
        simp only [Option.map_some, Option.bind_eq_bind, Option.bind_some]
        rw [ih (by omega)]

end rpi_wifi.plibc.doprnt
