-- The law of addresses: `parseether` stays in front of the NUL, and it takes exactly the
-- grammar as long as no pair is one that `strtoul` alone takes for a number.
import RpiWifi.EtherAddress

namespace rpi_wifi.plibc.address

open ether4330

variable {a b c x y : Byte} {s : CString}

/-! ## Characters -/

theorem isDigit16_iff : ∀ c : Byte, isDigit16 c = (digitOf c).any (· < 16) := by
  decide +kernel

/-- Blanks, signs and digits are different characters. -/
theorem classes_apart : ∀ c : Byte,
    (isSpace c = true → isSign c = false ∧ isDigit16 c = false) ∧
      (isSign c = true → isDigit16 c = false) := by
  decide +kernel

/-! ## The numbers of two characters -/

/-- The digits that `strtoul` reads in base 16. -/
def digitsOf (s : CString) : Digits :=
  readDigits 32 16 (2 ^ 32 - 1) (afterMark (readSign (s.dropWhile isSpace)).2) 0 true

theorem strtoul_rest (s : CString) : (strtoul s 16).2 = (digitsOf s).rest := by
  unfold strtoul strtou digitsOf
  rw [if_neg (by decide)]
  dsimp only
  rw [readBase_16]
  dsimp only
  split <;> rfl

/-- One character more of a number that is short. -/
theorem readDigits_step {r : Nat} {first : Bool} (hr : r < 2 ^ 16) (c : Byte) (cs : CString) :
    readDigits 32 16 (2 ^ 32 - 1) (c :: cs) r first =
      if isDigit16 c then
        readDigits 32 16 (2 ^ 32 - 1) cs (r * 16 + (digitOf c).getD 0) false
      else ⟨r, c :: cs, first, false⟩ := by
  rw [isDigit16_iff]
  conv_lhs => unfold readDigits
  rcases hd : digitOf c with _ | d
  · rfl
  · dsimp only [Option.any_some, Option.getD_some]
    by_cases h16 : 16 ≤ d
    · rw [if_pos h16, if_neg (by simpa using h16)]
    · have hmod : (r * 16 + d) % 2 ^ 32 = r * 16 + d := Nat.mod_eq_of_lt (by omega)
      rw [if_neg h16, hmod, if_neg (by omega), if_pos (by simpa using h16)]

theorem digit_one {r : Nat} {first : Bool} (hr : r < 2 ^ 16) :
    (readDigits 32 16 (2 ^ 32 - 1) [b] r first).rest = [] ↔ isDigit16 b = true := by
  rw [readDigits_step hr]
  split
  · rename_i hb
    exact iff_of_true rfl hb
  · rename_i hb
    exact iff_of_false (List.cons_ne_nil _ _) hb

theorem number_one : (readDigits 32 16 (2 ^ 32 - 1) (afterMark [b]) 0 true).rest = [] ↔
    isDigit16 b = true := by
  by_cases hb : b = 48
  · subst hb
    rw [afterMark_zero]
    exact iff_of_true rfl rfl
  · rw [afterMark_other hb]
    exact digit_one (by decide)

theorem digit_small (h : isDigit16 c = true) : (digitOf c).getD 0 < 16 := by
  rw [isDigit16_iff] at h
  rcases hd : digitOf c with _ | d
  · exact Nat.zero_lt_succ 15
  · rw [hd] at h
    simpa using h

/-- Behind a blank the number has one character. -/
theorem pair_space (h : isSpace a = true) :
    (digitsOf [a, b]).rest = [] ↔ (isSpace b || isSign b || isDigit16 b) = true := by
  unfold digitsOf
  rw [List.dropWhile_cons_of_pos h]
  by_cases hb : isSpace b = true
  · rw [List.dropWhile_cons_of_pos hb]
    exact iff_of_true rfl (by simp [hb])
  · rw [List.dropWhile_cons_of_neg hb, readSign_rest]
    by_cases hs : isSign b = true
    · rw [if_pos hs]
      exact iff_of_true rfl (by simp [hs])
    · rw [if_neg hs, number_one]
      simp [hb, hs]

theorem pair_sign (h : isSign a = true) :
    (digitsOf [a, b]).rest = [] ↔ isDigit16 b = true := by
  have hspace : ¬ isSpace a = true := by
    intro hs
    rw [((classes_apart a).1 hs).1] at h
    cases h
  unfold digitsOf
  rw [List.dropWhile_cons_of_neg hspace, readSign_rest, if_pos h]
  exact number_one

/-- Without a blank or a sign in front, the number has both characters. -/
theorem digitsOf_plain (hspace : isSpace a = false) (hsign : isSign a = false) (cs : CString) :
    digitsOf (a :: cs) = readDigits 32 16 (2 ^ 32 - 1) (afterMark (a :: cs)) 0 true := by
  unfold digitsOf
  rw [List.dropWhile_cons_of_neg (by simp [hspace]), readSign_rest, if_neg (by simp [hsign])]

theorem pair_plain (hspace : isSpace a = false) (hsign : isSign a = false) :
    (digitsOf [a, b]).rest = [] ↔
      (a == 48 && (b == 120 || b == 88) || isDigit16 a && isDigit16 b) = true := by
  rw [digitsOf_plain hspace hsign]
  by_cases h48 : a = 48
  · subst h48
    have hdigit : isDigit16 48 = true := rfl
    rw [afterMark_zero]
    by_cases hx : (b == 120 || b == 88) = true
    · have hnone : behindZero [b] = [] := if_pos hx
      rw [hnone]
      exact iff_of_true rfl (by rw [hx]; rfl)
    · have hkeep : behindZero [b] = [b] := if_neg hx
      rw [hkeep, digit_one (by decide), hdigit, eq_false_of_ne_true hx]
      simp
  · rw [afterMark_other h48, readDigits_step (by decide)]
    have hzero : (a == 48) = false := beq_eq_false_iff_ne.mpr h48
    rw [hzero]
    split
    · rename_i ha
      have hsmall := digit_small ha
      rw [digit_one (by omega), ha]
      simp
    · rename_i ha
      exact iff_of_false (List.cons_ne_nil _ _) (by simp [ha])

/-- The pairs that `strtoul` reads whole. -/
theorem strtoul_pair (a b : Byte) : (strtoul [a, b] 16).2 = [] ↔ readsWhole a b = true := by
  have hclasses := classes_apart a
  rw [strtoul_rest]
  unfold readsWhole
  by_cases hspace : isSpace a = true
  · obtain ⟨hsign, hdigit⟩ := hclasses.1 hspace
    have h48 : (a == 48) = false := by
      rw [beq_eq_false_iff_ne]
      rintro rfl
      cases hdigit
    rw [pair_space hspace, hspace, hsign, hdigit, h48]
    simp
  · by_cases hsign : isSign a = true
    · have hdigit := hclasses.2 hsign
      have h48 : (a == 48) = false := by
        rw [beq_eq_false_iff_ne]
        rintro rfl
        cases hdigit
      rw [pair_sign hsign, hsign, hdigit, h48, eq_false_of_ne_true hspace]
      simp
    · rw [pair_plain (eq_false_of_ne_true hspace) (eq_false_of_ne_true hsign),
        eq_false_of_ne_true hspace, eq_false_of_ne_true hsign]
      simp

theorem isDigit16_of_hexDigit (h : (hexDigit c).isSome = true) : isDigit16 c = true := by
  unfold isDigit16
  rw [h]
  rfl

/-- Two hexadecimal digits are read as what they are. -/
theorem strtoul_hex (ha : hexDigit a = some x) (hb : hexDigit b = some y) :
    strtoul [a, b] 16 = (16 * x.toNat + y.toNat, []) := by
  have hsome : (hexDigit a).isSome = true ∧ (hexDigit b).isSome = true := by
    rw [ha, hb]
    exact ⟨rfl, rfl⟩
  obtain ⟨hda, hsa, -⟩ := digit_of_hexDigit a hsome.1
  obtain ⟨hdb, hsb, -⟩ := digit_of_hexDigit b hsome.2
  have hx := hsa x ha
  have hy := hsb y hb
  have hvalue : hexValue [a, b] 0 = 16 * x.toNat + y.toNat := by
    change (0 * 16 + (digitOf a).getD 0) * 16 + (digitOf b).getD 0 = _
    rw [hda, hdb, ha, hb]
    change (0 * 16 + x.toNat) * 16 + y.toNat = _
    omega
  have hall : AllHex [a, b] := by
    intro c hc
    rcases List.mem_cons.mp hc with rfl | hc
    · exact hsome.1
    · rw [List.mem_singleton.mp hc]
      exact hsome.2
  unfold strtoul
  rw [strtou_hex hall (by omega), hvalue]

theorem byte_pair (x y : Byte) :
    BitVec.ofNat 8 (16 * x.toNat + y.toNat) = 16 * x + y := by
  apply BitVec.eq_of_toNat_eq
  rw [BitVec.toNat_ofNat, BitVec.toNat_add, BitVec.toNat_mul]
  have h16 : (16 : Byte).toNat = 16 := rfl
  rw [h16]
  omega

/-! ## The string -/

theorem load_eq {p : Nat} (hp : p ≤ s.length) : load s p = some ((s.drop p).head?.getD 0) := by
  unfold load
  by_cases hlt : p < s.length
  · rw [List.getElem?_append_left hlt, List.getElem?_eq_getElem hlt, List.drop_eq_getElem_cons hlt]
    rfl
  · have heq : p = s.length := by omega
    subst heq
    rw [List.getElem?_append_right (Nat.le_refl _), Nat.sub_self, List.drop_length]
    rfl

/-- A character at a place of the string, and what follows it. -/
theorem load_cons (h0 : 0 ∉ s) {p : Nat} {t : CString} (h : s.drop p = c :: t) :
    load s p = some c ∧ c ≠ 0 ∧ p + 1 ≤ s.length ∧ s.drop (p + 1) = t := by
  have hlt : p < s.length := by
    by_contra hge
    rw [List.drop_eq_nil_of_le (by omega)] at h
    cases h
  refine ⟨?_, ?_, hlt, ?_⟩
  · rw [load_eq hlt.le, h]
    rfl
  · rintro rfl
    have hmem : 0 ∈ s.drop p := by
      rw [h]
      exact List.mem_cons_self
    exact h0 (List.mem_of_mem_drop hmem)
  · have htail := congrArg List.tail h
    rw [List.tail_drop] at htail
    exact htail

/-- At the end of the string stands its NUL. -/
theorem load_nil {p : Nat} (hp : p ≤ s.length) (h : s.drop p = []) : load s p = some 0 := by
  rw [load_eq hp, h]
  rfl

theorem skipColon_eq (h0 : 0 ∉ s) (n : Nat) {p : Nat} {t : CString} (hp : p ≤ s.length)
    (h : s.drop p = t) :
    ∃ q, skipColon s n p = some q ∧ q ≤ s.length ∧
      s.drop q = if 0 < n ∧ t.head? = some 58 then t.drop 1 else t := by
  unfold skipColon
  by_cases hn : 0 < n
  · rw [if_pos hn]
    cases t with
    | nil =>
      have h58 : ¬ (0 < n ∧ ([] : CString).head? = some 58) := fun hc => by cases hc.2
      rw [load_nil hp h, if_neg h58]
      exact ⟨p, rfl, hp, h⟩
    | cons c t =>
      obtain ⟨hload, -, hp', hnext⟩ := load_cons h0 h
      rw [hload, Option.map_some]
      by_cases hc : c = 58
      · rw [if_pos hc, if_pos ⟨hn, congrArg some hc⟩]
        exact ⟨p + 1, rfl, hp', hnext⟩
      · rw [if_neg hc, if_neg (fun hboth => hc (Option.some.inj hboth.2))]
        exact ⟨p, rfl, hp, h⟩
  · rw [if_neg hn, if_neg (fun hboth => hn hboth.1)]
    exact ⟨p, rfl, hp, h⟩

/-- The loop reads what the list has, and nothing behind its NUL. -/
theorem parseFrom_eq (h0 : 0 ∉ s) (n : Nat) {p : Nat} (hp : p ≤ s.length) :
    parseFrom s n p = some (readEther n (s.drop p)) := by
  induction n generalizing p with
  | zero =>
    unfold parseFrom readEther
    rcases h : s.drop p with _ | ⟨c, t⟩
    · rw [load_nil hp h]
      rfl
    · obtain ⟨hload, hc, -⟩ := load_cons h0 h
      rw [hload]
      dsimp only [Option.bind_eq_bind]
      rw [Option.bind_some, if_neg hc, if_neg (List.cons_ne_nil c t)]
      rfl
  | succ n ih =>
    unfold parseFrom
    dsimp only [Option.bind_eq_bind]
    rcases h : s.drop p with _ | ⟨a, t⟩
    · rw [load_nil hp h, Option.bind_some, if_pos rfl]
      rfl
    · obtain ⟨hload, ha, hp', h'⟩ := load_cons h0 h
      rw [hload, Option.bind_some, if_neg ha]
      rcases ht : t with _ | ⟨b, t'⟩
      · rw [ht] at h'
        rw [load_nil hp' h', Option.bind_some, if_pos rfl]
        rfl
      · rw [ht] at h'
        obtain ⟨hload', hb, hp'', h''⟩ := load_cons h0 h'
        obtain ⟨q, hq, hqle, hrest⟩ := skipColon_eq h0 n hp'' h''
        rw [hload', Option.bind_some, if_neg hb, hq, Option.bind_some, ih hqle, hrest]
        conv_rhs => unfold readEther
        dsimp only
        by_cases hwhole : (strtoul [a, b] 16).2 = []
        · rw [if_neg (not_not.mpr hwhole), if_pos hwhole]
          rfl
        · rw [if_pos hwhole, if_neg hwhole]
          rfl

/-! ## The law -/

/-- What a pair is read as. -/
def pairByte (p : Byte × Byte) : Byte := BitVec.ofNat 8 (strtoul [p.1, p.2] 16).1

theorem readEther_succ (n : Nat) (a b : Byte) (s : CString) :
    readEther (n + 1) (a :: b :: s) =
      if (strtoul [a, b] 16).2 = [] then
        (readEther n (if 0 < n ∧ s.head? = some 58 then s.drop 1 else s)).map (pairByte (a, b) :: ·)
      else none := by
  conv_lhs => unfold readEther
  unfold pairByte
  generalize strtoul [a, b] 16 = r
  rfl

/-- What `readEther` takes is what its pairs are read as. -/
theorem readEther_pairs (n : Nat) (s : CString) :
    readEther n s = (pairs n s).bind fun ps =>
      if ∀ p ∈ ps, readsWhole p.1 p.2 = true then some (ps.map pairByte) else none := by
  induction n generalizing s with
  | zero =>
    unfold readEther pairs
    by_cases hs : s = []
    · rw [if_pos hs, if_pos hs, Option.bind_some, if_pos (List.forall_mem_nil _), List.map_nil]
    · rw [if_neg hs, if_neg hs, Option.bind_none]
  | succ n ih =>
    match s with
    | [] => rfl
    | [a] => rfl
    | a :: b :: s =>
      unfold pairs
      rw [readEther_succ, ih]
      generalize pairs n _ = ps
      cases ps with
      | none => simp
      | some ps =>
        rw [Option.map_some, Option.bind_some, Option.bind_some]
        simp only [List.forall_mem_cons, List.map_cons]
        by_cases hpair : readsWhole a b = true
        · rw [if_pos ((strtoul_pair a b).mpr hpair)]
          by_cases hps : ∀ p ∈ ps, readsWhole p.1 p.2 = true
          · rw [if_pos hps, if_pos ⟨hpair, hps⟩, Option.map_some]
          · rw [if_neg hps, if_neg (fun hboth => hps hboth.2), Option.map_none]
        · rw [if_neg (mt (strtoul_pair a b).mp hpair), if_neg (fun hboth => hpair hboth.1)]

theorem isHexPair_iff : isHexPair a b = true ↔ ∃ x y, hexDigit a = some x ∧ hexDigit b = some y := by
  unfold isHexPair
  rw [Bool.and_eq_true, Option.isSome_iff_exists, Option.isSome_iff_exists]
  constructor
  · rintro ⟨⟨x, hx⟩, y, hy⟩
    exact ⟨x, y, hx, hy⟩
  · rintro ⟨x, y, hx, hy⟩
    exact ⟨⟨x, hx⟩, y, hy⟩

theorem readsWhole_of_hex (h : isHexPair a b = true) : readsWhole a b = true := by
  unfold isHexPair at h
  rw [Bool.and_eq_true] at h
  unfold readsWhole
  rw [isDigit16_of_hexDigit h.1, isDigit16_of_hexDigit h.2]
  simp

theorem pairByte_hex (ha : hexDigit a = some x) (hb : hexDigit b = some y) :
    pairByte (a, b) = 16 * x + y := by
  unfold pairByte
  dsimp only
  rw [strtoul_hex ha hb]
  exact byte_pair x y

/-- An address starts with a digit. -/
theorem Groups.head {n : Nat} {addr : List Byte} (h : Groups n s addr) : s.head? ≠ some 58 := by
  have hdigit : ∀ {c z : Byte}, hexDigit c = some z → c ≠ 58 := by
    intro c z hc
    obtain ⟨-, -, -, -, -, -, h58, -⟩ := digit_of_hexDigit c (by rw [hc]; rfl)
    exact h58
  cases h with
  | last ha _ => exact fun hc => hdigit ha (Option.some.inj hc)
  | next ha _ _ => exact fun hc => hdigit ha (Option.some.inj hc)
  | colon ha _ _ => exact fun hc => hdigit ha (Option.some.inj hc)

/-- An address splits into pairs of digits, which are its bytes. -/
theorem Groups.pairs {n : Nat} {addr : List Byte} (h : Groups n s addr) :
    ∃ ps, address.pairs n s = some ps ∧ (∀ p ∈ ps, isHexPair p.1 p.2 = true) ∧
      addr = ps.map pairByte := by
  induction h with
  | @last a b x y ha hb =>
    refine ⟨[(a, b)], rfl, ?_, ?_⟩
    · intro p hp
      rw [List.mem_singleton.mp hp]
      exact isHexPair_iff.mpr ⟨x, y, ha, hb⟩
    · rw [List.map_singleton, pairByte_hex ha hb]
  | @next n a b x y s addr ha hb hs ih =>
    obtain ⟨ps, hps, hhex, rfl⟩ := ih
    refine ⟨(a, b) :: ps, ?_, ?_, ?_⟩
    · unfold address.pairs
      rw [if_neg (fun hboth => hs.head hboth.2), hps]
      rfl
    · rw [List.forall_mem_cons]
      exact ⟨isHexPair_iff.mpr ⟨x, y, ha, hb⟩, hhex⟩
    · rw [List.map_cons, pairByte_hex ha hb]
  | @colon n a b x y s addr ha hb hs ih =>
    obtain ⟨ps, hps, hhex, rfl⟩ := ih
    refine ⟨(a, b) :: ps, ?_, ?_, ?_⟩
    · unfold address.pairs
      rw [if_pos ⟨Nat.succ_pos n, rfl⟩, List.drop_one, List.tail_cons, hps]
      rfl
    · rw [List.forall_mem_cons]
      exact ⟨isHexPair_iff.mpr ⟨x, y, ha, hb⟩, hhex⟩
    · rw [List.map_cons, pairByte_hex ha hb]

/-- The first pair of a string that splits, and the groups behind it. -/
theorem pairs_succ {n : Nat} {ps : List (Byte × Byte)} (h : pairs (n + 1) s = some ps) :
    ∃ a b t ps', s = a :: b :: t ∧ ps = (a, b) :: ps' ∧
      pairs n (if 0 < n ∧ t.head? = some 58 then t.drop 1 else t) = some ps' := by
  match s with
  | [] => cases h
  | [a] => cases h
  | a :: b :: t =>
    unfold pairs at h
    obtain ⟨ps', hps', rfl⟩ := Option.map_eq_some_iff.mp h
    exact ⟨a, b, t, ps', rfl, rfl, hps'⟩

theorem groups_of_pairs {n : Nat} {ps : List (Byte × Byte)} (h : pairs (n + 1) s = some ps)
    (hhex : ∀ p ∈ ps, isHexPair p.1 p.2 = true) : Groups (n + 1) s (ps.map pairByte) := by
  induction n generalizing s ps with
  | zero =>
    obtain ⟨a, b, t, ps', rfl, rfl, hrest⟩ := pairs_succ h
    obtain ⟨x, y, ha, hb⟩ := isHexPair_iff.mp (hhex (a, b) List.mem_cons_self)
    have hstop : ¬ (0 < 0 ∧ t.head? = some 58) := fun hboth => absurd hboth.1 (Nat.lt_irrefl 0)
    rw [if_neg hstop] at hrest
    unfold pairs at hrest
    split at hrest
    · rename_i hempty
      subst hempty
      obtain rfl : [] = ps' := Option.some.inj hrest
      rw [List.map_singleton, pairByte_hex ha hb]
      exact .last ha hb
    · cases hrest
  | succ n ih =>
    obtain ⟨a, b, t, ps', rfl, rfl, hrest⟩ := pairs_succ h
    rw [List.forall_mem_cons] at hhex
    obtain ⟨x, y, ha, hb⟩ := isHexPair_iff.mp hhex.1
    have hgroups := ih hrest hhex.2
    rw [List.map_cons, pairByte_hex ha hb]
    by_cases hcolon : t.head? = some 58
    · rw [if_pos ⟨Nat.succ_pos n, hcolon⟩] at hgroups
      obtain ⟨t', rfl⟩ := List.head?_eq_some_iff.mp hcolon
      exact .colon ha hb hgroups
    · rw [if_neg (fun hboth => hcolon hboth.2)] at hgroups
      exact .next ha hb hgroups

/-- `parseether` takes exactly the addresses, unless the string splits into six pairs that
`strtoul` reads whole and one of them is not two hexadecimal digits. -/
theorem an_address_is_taken_exactly_iff (str : CString) (h : 0 ∉ str) :
    Exact str ↔ ¬ ∃ ps, pairs 6 str = some ps ∧ (∀ p ∈ ps, readsWhole p.1 p.2 = true) ∧
      ∃ p ∈ ps, isHexPair p.1 p.2 = false := by
  have hread : parseether str = some (readEther 6 str) := parseFrom_eq h 6 (Nat.zero_le _)
  have hexact : Exact str ↔ ∀ addr, readEther 6 str = some addr ↔ Groups 6 str addr := by
    constructor
    · intro hexact addr
      rw [← hexact.grammar, hread, Option.some_inj]
    · intro hgrammar
      refine ⟨⟨_, hread⟩, fun addr => ?_⟩
      rw [← hgrammar, hread, Option.some_inj]
  rw [hexact, readEther_pairs]
  rcases hpairs : pairs 6 str with _ | ps
  · constructor
    · rintro - ⟨ps, hps, -⟩
      cases hps
    · intro _ addr
      refine iff_of_false (fun hnone => by cases hnone) fun hgroups => ?_
      obtain ⟨ps, hps, -⟩ := hgroups.pairs
      rw [hpairs] at hps
      cases hps
  · rw [Option.bind_some]
    constructor
    · rintro hgrammar ⟨ps', hps', hwhole, p, hp, hnot⟩
      obtain rfl : ps = ps' := Option.some.inj hps'
      rw [if_pos hwhole] at hgrammar
      obtain ⟨ps', hps', hhex, -⟩ := ((hgrammar _).mp rfl).pairs
      obtain rfl : ps = ps' := Option.some.inj (hpairs.symm.trans hps')
      rw [hhex p hp] at hnot
      cases hnot
    · intro hno addr
      constructor
      · intro htaken
        have hwhole : ∀ p ∈ ps, readsWhole p.1 p.2 = true := by
          by_contra hnot
          rw [if_neg hnot] at htaken
          cases htaken
        have hhex : ∀ p ∈ ps, isHexPair p.1 p.2 = true := by
          intro p hp
          by_contra hnot
          exact hno ⟨ps, rfl, hwhole, p, hp, eq_false_of_ne_true hnot⟩
        rw [if_pos hwhole] at htaken
        obtain rfl : ps.map pairByte = addr := Option.some.inj htaken
        exact groups_of_pairs hpairs hhex
      · intro hgroups
        obtain ⟨ps', hps', hhex, rfl⟩ := hgroups.pairs
        obtain rfl : ps = ps' := Option.some.inj (hpairs.symm.trans hps')
        rw [if_pos fun p hp => readsWhole_of_hex (hhex p hp)]

/-- An address with colons. -/
theorem an_address_with_colons :
    0 ∉ cstr "B8:27:EB:00:00:01" ∧ Exact (cstr "B8:27:EB:00:00:01") := by
  have h0 : 0 ∉ cstr "B8:27:EB:00:00:01" := by decide
  have hexact := an_address_is_taken_exactly_iff _ h0
  refine ⟨h0, hexact.mpr ?_⟩
  have hsplit : pairs 6 (cstr "B8:27:EB:00:00:01") =
      some [(66, 56), (50, 55), (69, 66), (48, 48), (48, 48), (48, 49)] := by
    rfl
  have hall : [((66, 56) : Byte × Byte), (50, 55), (69, 66), (48, 48), (48, 48), (48, 49)].all
      (fun p => isHexPair p.1 p.2) = true := by
    decide
  rintro ⟨ps, hps, -, p, hp, hnot⟩
  rw [hsplit] at hps
  rw [← Option.some.inj hps] at hp
  have hhex := List.all_eq_true.mp hall p hp
  rw [hnot] at hhex
  cases hhex

/-- Six signs with a digit are taken for an address. -/
theorem signs_are_taken_for_an_address : ¬ ∀ str : CString, 0 ∉ str → Exact str := by
  intro h
  have hexact := h (cstr "+1+1+1+1+1+1") (by decide)
  have htaken : parseether (cstr "+1+1+1+1+1+1") = some (some [1, 1, 1, 1, 1, 1]) := by
    decide +kernel
  obtain ⟨ps, hps, hhex, -⟩ := ((hexact.grammar _).mp htaken).pairs
  obtain rfl : [(43, 49), (43, 49), (43, 49), (43, 49), (43, 49), (43, 49)] = ps :=
    Option.some.inj hps
  have hsign := hhex (43, 49) List.mem_cons_self
  cases hsign

end rpi_wifi.plibc.address
