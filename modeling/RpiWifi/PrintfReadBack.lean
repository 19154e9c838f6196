-- The number that `strtoul` reads back from the text of one.
import RpiWifi.PrintfOutput

namespace rpi_wifi.plibc.doprnt

open ether4330 numbers

variable {strings : Strings} {out : CString} {n : Int}

section Numbers

variable {w max base k : Nat} {alt minus : Bool} {s t : CString} {c : Byte}

theorem le_numberFrom (hbase : 1 ≤ base) (r : Nat) (s : CString) : r ≤ numberFrom base r s := by
  induction s generalizing r with
  | nil => exact le_rfl
  | cons c s ih =>
    rw [numberFrom_cons]
    exact le_trans (le_trans (Nat.le_mul_of_pos_right r hbase) (Nat.le_add_right _ _)) (ih _)

/-- A number that fits never wraps below itself. -/
theorem neverBelow_of_fits (hbase : 1 ≤ base) {r : Nat} (h : numberFrom base r s < 2 ^ w) :
    NeverBelow w base r s := by
  induction s generalizing r with
  | nil => trivial
  | cons c s ih =>
    rw [numberFrom_cons] at h
    have hnext := le_numberFrom hbase (r * base + (digitValue c).getD 0) s
    have hmul := Nat.le_mul_of_pos_right r hbase
    refine ⟨?_, ih h⟩
    rw [Nat.mod_eq_of_lt (by omega), Nat.mod_eq_of_lt (by omega)]
    omega

/-- Zeroes in front of a number, and the number. -/
def zeroesAnd (k : Nat) (alt : Bool) (base n : Nat) : CString :=
  List.replicate k 48 ++ numeral alt base n

theorem numberFrom_zeroesAnd (hbase : 2 ≤ base) (hsmall : base ≤ 16) (k n : Nat) :
    numberFrom base 0 (zeroesAnd k alt base n) = n := by
  unfold zeroesAnd
  induction k with
  | zero => exact numberFrom_numeral alt hbase hsmall n
  | succ k ih =>
    have hzero : digitValue 48 = some 0 := by decide
    rw [List.replicate_succ, List.cons_append, numberFrom_cons, hzero, Option.getD_some,
      Nat.zero_mul, Nat.zero_add, ih]

theorem zeroesAnd_digits (hbase : 2 ≤ base) {n : Nat} (h : c ∈ zeroesAnd k alt base n) :
    ∃ d < base, c = digitChar alt d := by
  rcases List.mem_append.mp h with hc | hc
  · refine ⟨0, by omega, ?_⟩
    rw [(List.mem_replicate.mp hc).2]
    cases alt <;> rfl
  · exact numeral_digits alt hbase n c hc

theorem isDigit_blank (base : Nat) : isDigit base 32 = false := by
  have hnone : digitValue 32 = none := by decide
  rw [isDigit, hnone]
  rfl

/-- Blanks behind a number do not belong to it. -/
theorem digits_of_number (hbase : 2 ≤ base) (hsmall : base ≤ 16) (behind k n : Nat) :
    (zeroesAnd k alt base n ++ List.replicate behind 32).takeWhile (isDigit base) =
        zeroesAnd k alt base n ∧
      (zeroesAnd k alt base n ++ List.replicate behind 32).dropWhile (isDigit base) =
        List.replicate behind 32 := by
  have hdigit : ∀ c ∈ zeroesAnd k alt base n, isDigit base c = true := by
    intro c hc
    obtain ⟨d, hd, rfl⟩ := zeroesAnd_digits hbase hc
    simp [isDigit, (digitChar_spec alt d (by omega)).1, hd]
  have hblank := isDigit_blank base
  rw [List.takeWhile_append_of_pos hdigit, List.dropWhile_append_of_pos hdigit]
  cases behind with
  | zero => simp
  | succ behind =>
    rw [List.replicate_succ, List.takeWhile_cons_of_neg (ne_true_of_eq_false hblank),
      List.dropWhile_cons_of_neg (ne_true_of_eq_false hblank), List.append_nil]
    exact ⟨rfl, rfl⟩

/-- A printed number has no mark of another base. -/
theorem no_crossMark (hbase : 2 ≤ base) (hsmall : base ≤ 16) (behind k n : Nat) :
    crossMark (zeroesAnd k alt base n ++ List.replicate behind 32) = false := by
  by_contra hmark
  obtain ⟨x, cs, heq, hx⟩ := crossMark_iff.mp (eq_true_of_ne_false hmark)
  have hmem : x ∈ zeroesAnd k alt base n ++ List.replicate behind 32 := by
    rw [heq]
    exact List.mem_cons_of_mem _ List.mem_cons_self
  rcases List.mem_append.mp hmem with hmem | hmem
  · obtain ⟨d, hd, rfl⟩ := zeroesAnd_digits hbase hmem
    obtain ⟨-, -, -, h120, h88⟩ := digitChar_spec alt d (by omega)
    rcases hx with hx | hx
    · exact h120 hx
    · exact h88 hx
  · rw [(List.mem_replicate.mp hmem).2] at hx
    revert hx
    decide

/-- A number with blanks, a sign and zeroes around it is read as the number. -/
theorem strtou_printed (hbase : 2 ≤ base) (hsmall : base ≤ 16) {n : Nat} (hn : n < 2 ^ w)
    (max blanks k behind : Nat) (alt minus : Bool) :
    strtou w max (List.replicate blanks 32 ++ ((if minus then [45] else []) ++
        (zeroesAnd k alt base n ++ List.replicate behind 32))) base =
      (signed w minus n, List.replicate behind 32) := by
  have hvalid : base = 0 ∨ 2 ≤ base ∧ base ≤ 36 := by omega
  obtain ⟨c, cs, hhead⟩ : ∃ c cs, zeroesAnd k alt base n = c :: cs := by
    refine List.exists_cons_of_ne_nil fun hnil => ?_
    exact numeral_ne_nil alt hbase n (List.append_eq_nil_iff.mp hnil).2
  obtain ⟨d, hd, hc⟩ : ∃ d < base, c = digitChar alt d :=
    zeroesAnd_digits hbase (by rw [hhead]; exact List.mem_cons_self)
  obtain ⟨-, hspace, hsign, -⟩ := digitChar_spec alt d (by omega)
  rw [← hc] at hspace hsign
  have hmark := @no_crossMark base alt hbase hsmall behind k n
  obtain ⟨htake, hdrop⟩ := @digits_of_number base alt hbase hsmall behind k n
  have hvalue := @numberFrom_zeroesAnd base alt hbase hsmall k n
  have hread : (List.replicate blanks 32 ++ ((if minus then [45] else []) ++
      (zeroesAnd k alt base n ++ List.replicate behind 32))).dropWhile isSpace =
      (if minus then [45] else []) ++ (zeroesAnd k alt base n ++ List.replicate behind 32) := by
    have hblanks : ∀ b ∈ List.replicate blanks (32 : Byte), isSpace b = true := by
      intro b hb
      rw [(List.mem_replicate.mp hb).2]
      rfl
    rw [List.dropWhile_append_of_pos hblanks]
    cases minus with
    | true => rfl
    | false => rw [if_neg (by simp), List.nil_append, hhead, List.cons_append,
        List.dropWhile_cons_of_neg (by simp [hspace])]
  have hsigned : readSign ((if minus then [45] else []) ++
      (zeroesAnd k alt base n ++ List.replicate behind 32)) =
      (minus, zeroesAnd k alt base n ++ List.replicate behind 32) := by
    cases minus with
    | true => rfl
    | false => rw [if_neg (by simp), List.nil_append, hhead, List.cons_append, readSign_plain hsign]
  have hnever : NeverBelow w base 0 ((zeroesAnd k alt base n ++
      List.replicate behind 32).takeWhile (isDigit base)) := by
    rw [htake]
    exact neverBelow_of_fits (by omega) (by rwa [hvalue])
  have hlaw : (lawBase base (zeroesAnd k alt base n ++ List.replicate behind 32)).1 = base := by
    unfold lawBase hexMark
    rw [hmark, Bool.false_and, if_neg (by simp), if_pos (by omega)]
  have hblank := isDigit_blank base
  have hodd : oddDigit base (List.replicate behind 32) = none := by
    cases behind with
    | zero => rfl
    | succ behind => rfl
  have hbehind : ∀ c ∈ (List.replicate behind (32 : Byte)).head?, isDigit base c = false := by
    intro c hc
    rw [(List.mem_replicate.mp (List.mem_of_mem_head? hc)).2]
    exact hblank
  rw [strtou_eq hvalid, hread, hsigned]
  dsimp only
  rw [(readText_plain w max _ minus hmark hvalid).2.2, hlaw]
  have hloop : readDigits w base max _ (0 % 2 ^ w) true = _ := readDigits_through hnever
  rw [Nat.zero_mod, htake, hdrop, hvalue, Nat.mod_eq_of_lt hn,
    readDigits_behind (by omega) hbehind hodd] at hloop
  have hsome : (zeroesAnd k alt base n).isEmpty = false := by rw [hhead]; rfl
  rw [hloop, hsome]
  rfl

/-! ## Fields -/

/-- The text of a number in its field. -/
theorem layOut_number (left zeroes : Bool) (width : Nat) (sign : Option Byte) (prec : Option Nat)
    (alt : Bool) (base n : Nat) : ∃ blanks k behind,
      layOut left zeroes width sign (withPrecision true prec (numeral alt base n)) =
        List.replicate blanks 32 ++ (sign.toList ++
          (zeroesAnd k alt base n ++ List.replicate behind 32)) := by
  obtain ⟨k, hbody⟩ : ∃ k, withPrecision true prec (numeral alt base n) =
      zeroesAnd k alt base n := by
    cases prec with
    | none => exact ⟨0, rfl⟩
    | some p => exact ⟨_, rfl⟩
  rw [hbody]
  unfold layOut
  split_ifs
  · exact ⟨0, k, width - (sign.toList ++ zeroesAnd k alt base n).length, by simp [List.rightpad]⟩
  · refine ⟨0, width - sign.toList.length - (zeroesAnd k alt base n).length + k, 0, ?_⟩
    simp only [List.leftpad, List.replicate_zero, List.nil_append, List.append_nil]
    rw [zeroesAnd, ← List.append_assoc (List.replicate _ 48), List.replicate_append_replicate]
    rfl
  · exact ⟨width - (sign.toList ++ zeroesAnd k alt base n).length, k, 0, by simp [List.leftpad]⟩

/-- The sign and the digits of a number. -/
theorem text_number (strings : Strings) {conv : Conversion} (hconv : conv.base ≠ 0) (arg : Word) :
    2 ≤ conv.base ∧ conv.base ≤ 16 ∧ ∃ minus alt n, n < 2 ^ 32 ∧ signed 32 minus n = arg.toNat ∧
      conv.text strings arg = (if minus then some 45 else none, numeral alt conv.base n) := by
  have hlt := arg.isLt
  cases conv with
  | c => exact absurd rfl hconv
  | s => exact absurd rfl hconv
  | d =>
    refine ⟨by decide, by decide, decide (arg.toInt < 0), false, arg.toInt.natAbs, ?_, ?_, ?_⟩
    · rw [BitVec.toInt_eq_toNat_cond]
      split_ifs <;> omega
    · unfold signed
      rw [BitVec.toInt_eq_toNat_cond]
      split_ifs <;> simp_all <;> omega
    · simp [Conversion.text, Conversion.base]
  | u | o | x | b =>
    exact ⟨by decide, by decide, false, false, arg.toNat, hlt, rfl, rfl⟩
  | X => exact ⟨by decide, by decide, false, true, arg.toNat, hlt, rfl, rfl⟩

/-- A number is read back from its text in its base, with any flags, width and precision, and
nothing but blanks is left. From `%d` the signed number is read back. -/
theorem a_printed_number_is_read_back (d : Spec) (hnumber : d.conversion.base ≠ 0)
    {ap ap₁ ap₂ : List Word} {v : Int} {prec : Option Nat} {arg : Word}
    (hwidth : d.width.value ap = some (v, ap₁))
    (hprec : d.precision.value ap₁ = some (prec, arg :: ap₂))
    (h : _doprnt record strings (formatOf [.spec d]) ap [] = some (n, out)) :
    (strtoul out d.conversion.base).1 = arg.toNat ∧
      (∀ c ∈ (strtoul out d.conversion.base).2, c = 32) ∧
        (d.conversion = .d → atoi out = arg.toInt) := by
  obtain ⟨hbase, hsmall, minus, alt, k, hk, hsigned, htext⟩ := text_number strings hnumber arg
  have hout : ∃ blanks zeroes behind, out = List.replicate blanks 32 ++
      ((if minus then [45] else []) ++
        (zeroesAnd zeroes alt d.conversion.base k ++ List.replicate behind 32)) := by
    have hmeans := (doprnt_record_some h).1
    rw [formatText_print strings _ le_rfl] at hmeans
    have hnumeric : (d.conversion.base != 0) = true := by simp [hnumber]
    simp only [denote, Piece.denote, Spec.denote, hwidth, hprec, htext, hnumeric, va_arg,
      Option.bind_eq_bind, Option.bind_some, Option.bind_eq_some_iff] at hmeans
    obtain ⟨⟨field, rest⟩, ⟨width, -, -, -, -, -, hfield⟩, -, ⟨⟩, ⟨⟩⟩ := hmeans
    cases hfield
    obtain ⟨blanks, zeroes, behind, hlay⟩ := layOut_number
      (d.flags.contains .minus || decide (v < 0)) (d.flags.contains .zero && !(true && prec.isSome))
      width (if minus then some 45 else none) prec alt d.conversion.base k
    refine ⟨blanks, zeroes, behind, ?_⟩
    have hsign : (if minus then some 45 else none : Option Byte).toList =
        if minus then [45] else [] := by
      cases minus <;> rfl
    rw [List.append_nil, hlay, hsign]
  obtain ⟨blanks, zeroes, behind, rfl⟩ := hout
  have hread : strtoul _ d.conversion.base = (signed 32 minus k, List.replicate behind 32) :=
    strtou_printed hbase hsmall hk (2 ^ 32 - 1) blanks zeroes behind alt minus
  rw [hread, hsigned]
  refine ⟨rfl, fun c hc => (List.mem_replicate.mp hc).2, fun hd => ?_⟩
  rw [hd] at hread
  have hbase10 : Conversion.base .d = 10 := rfl
  rw [atoi, hd, ← hbase10, hread, hsigned, BitVec.ofNat_toNat, BitVec.setWidth_eq]

/-- With `%08d` there are zeroes between the sign and the digits. -/
theorem a_number_below_zero_is_read_back : (strtoul (cstr "-0000042") 10).1 = (-42 : Word).toNat ∧
    (∀ c ∈ (strtoul (cstr "-0000042") 10).2, c = 32) ∧
      (Conversion.d = .d → atoi (cstr "-0000042") = (-42 : Word).toInt) :=
  a_printed_number_is_read_back ⟨[.zero], .fixed 8 (by decide), .none, .REGULAR, .d⟩ (by decide)
    rfl rfl (show _doprnt record (fun _ => []) (cstr "%08d") [-42] [] =
      some (8, cstr "-0000042") by decide)

end Numbers

end rpi_wifi.plibc.doprnt
