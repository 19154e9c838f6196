-- The law of the command buffer: `parsecmd` never leaves its 200 bytes, and its slots point
-- to the runs of characters of the first 199 characters, in their order, each one with a
-- NUL behind it in the buffer.
import RpiWifi.CommandBuffer

namespace rpi_wifi.ether4330.cmdbuf

open plibc pieces

variable {buf : List Byte} {p q : Nat} {s t : CString}

/-! ## Words -/

theorem isDelim_zero : isDelim 0 = false := rfl

theorem strchr_delims (c : Byte) : (strchr (cstr " \t\n") c).isSome = isDelim c := by
  have hlist : cstr " \t\n" = [32, 9, 10] := rfl
  rw [hlist]
  unfold isDelim
  by_cases h32 : c = 32
  · subst h32
    rfl
  · by_cases h9 : c = 9
    · subst h9
      rfl
    · by_cases h10 : c = 10
      · subst h10
        rfl
      · rw [beq_eq_false_iff_ne.mpr h32, beq_eq_false_iff_ne.mpr h9, beq_eq_false_iff_ne.mpr h10]
        simp only [strchr, if_neg (Ne.symm h32), if_neg (Ne.symm h9), if_neg (Ne.symm h10)]
        rfl

/-- The words that `strtok_r` finds one after the other are the runs. -/
theorem tokens_eq (n : Nat) (s : CString) : tokens n s = (runs isDelim s).take n := by
  induction n generalizing s with
  | zero => rfl
  | succ n ih =>
    unfold tokens plibc.strtok_r
    rw [runs_dropWhile]
    rcases hrest : s.dropWhile isDelim with _ | ⟨c, rest⟩
    · rfl
    · have hc : isDelim c = false := by
        have hne : s.dropWhile isDelim ≠ [] := by simp [hrest]
        have hhead := List.head_dropWhile_not isDelim hne
        simpa [hrest] using hhead
      rw [runs_cons rest hc, List.take_succ_cons, ← ih]
      simp [hc]

/-! ## Strings in the buffer -/

/-- The string `s` stands at place `q` of the buffer. -/
structure At (buf : List Byte) (q : Nat) (s : CString) : Prop where
  chars : ∀ i < s.length, buf[q + i]? = s[i]?
  nul : buf[q + s.length]? = some 0
  noNul : 0 ∉ s

theorem At.lt (h : At buf q s) : q + s.length < buf.length := by
  by_contra hge
  have hnul := h.nul
  rw [List.getElem?_eq_none (by omega)] at hnul
  cases hnul

theorem At.head {c : Byte} (h : At buf q (c :: s)) : buf[q]? = some c := by
  have hat := h.chars 0 (by simp)
  simpa using hat

theorem At.tail {c : Byte} (h : At buf q (c :: s)) : At buf (q + 1) s := by
  refine ⟨?_, ?_, fun h0 => h.noNul (List.mem_cons_of_mem _ h0)⟩
  · intro i hi
    have hat := h.chars (i + 1) (by simpa using hi)
    have hplace : q + (i + 1) = q + 1 + i := by omega
    rw [hplace] at hat
    exact hat
  · have hat := h.nul
    have hplace : q + (c :: s).length = q + 1 + s.length := by
      rw [List.length_cons]
      omega
    rw [hplace] at hat
    exact hat

theorem At.drop {a : CString} (h : At buf q (a ++ s)) : At buf (q + a.length) s := by
  induction a generalizing q with
  | nil => exact h
  | cons c a ih =>
    have hplace : q + (c :: a).length = q + 1 + a.length := by
      rw [List.length_cons]
      omega
    rw [hplace]
    exact ih h.tail

/-- The loop over delimiters ends at the first other character, which may be the NUL. -/
theorem skipDelims_at (h : At buf q s) :
    skipDelims buf (cstr " \t\n") q = some (q + (s.takeWhile isDelim).length) := by
  induction s generalizing q with
  | nil =>
    have hlt := h.lt
    have hnul : buf[q]? = some 0 := h.nul
    rw [List.getElem?_eq_some_iff] at hnul
    obtain ⟨hq, h0⟩ := hnul
    unfold skipDelims
    rw [dif_pos hq, h0, strchr_delims, isDelim_zero, if_neg Bool.false_ne_true]
    rfl
  | cons c s ih =>
    obtain ⟨hq, hc⟩ := List.getElem?_eq_some_iff.mp h.head
    unfold skipDelims
    rw [dif_pos hq, hc, strchr_delims]
    by_cases hd : isDelim c = true
    · rw [if_pos hd, List.takeWhile_cons_of_pos hd, ih h.tail, List.length_cons]
      congr 1
      omega
    · rw [if_neg hd, List.takeWhile_cons_of_neg hd]
      rfl

/-- The loop over a token ends at the first delimiter or at the NUL. -/
theorem skipToken_at (h : At buf q s) :
    skipToken buf (cstr " \t\n") q = some (q + (s.takeWhile (!isDelim ·)).length) := by
  have hchr : ∀ c, strchr (cstr " \t\n") c = none ↔ isDelim c = false := by
    intro c
    rw [← strchr_delims, Option.isSome_eq_false_iff, Option.isNone_iff_eq_none]
  induction s generalizing q with
  | nil =>
    have hnul : buf[q]? = some 0 := h.nul
    obtain ⟨hq, h0⟩ := List.getElem?_eq_some_iff.mp hnul
    unfold skipToken
    rw [dif_pos hq, if_neg (fun hmore => hmore.1 h0)]
    rfl
  | cons c s ih =>
    obtain ⟨hq, hc⟩ := List.getElem?_eq_some_iff.mp h.head
    have hne : c ≠ 0 := by
      rintro rfl
      exact h.noNul List.mem_cons_self
    unfold skipToken
    rw [dif_pos hq, hc]
    by_cases hd : isDelim c = false
    · rw [if_pos ⟨hne, (hchr c).mpr hd⟩, List.takeWhile_cons_of_pos (by simp [hd]), ih h.tail, List.length_cons]
      congr 1
      omega
    · rw [if_neg (fun hmore => hd ((hchr c).mp hmore.2)), List.takeWhile_cons_of_neg (by simpa using hd)]
      rfl

/-! ## One word -/

/-- What `strtok_r` keeps when it goes on from place `q`: the places before, and each NUL. -/
structure Kept (q : Nat) (buf buf' : List Byte) : Prop where
  length : buf'.length = buf.length
  before : ∀ i : Nat, i < q → buf'[i]? = buf[i]?
  nuls : ∀ i : Nat, buf[i]? = some 0 → buf'[i]? = some 0

theorem kept_refl (q : Nat) (buf : List Byte) : Kept q buf buf :=
  ⟨rfl, fun _ _ => rfl, fun _ h => h⟩

theorem Kept.trans {buf' buf'' : List Byte} (h : Kept p buf buf') (h' : Kept q buf' buf'')
    (hpq : p ≤ q) : Kept p buf buf'' where
  length := h'.length.trans h.length
  before := fun i hi => (h'.before i (by omega)).trans (h.before i hi)
  nuls := fun i hi => h'.nuls i (h.nuls i hi)

/-- A word in front of the place stays. -/
theorem At.kept {buf' : List Byte} (h : At buf p t) (hkept : Kept q buf buf')
    (hle : p + t.length ≤ q) : At buf' p t where
  chars := fun i hi => (hkept.before (p + i) (by omega)).trans (h.chars i hi)
  nul := hkept.nuls _ h.nul
  noNul := h.noNul

/-- A NUL behind a word cuts the string in two. -/
theorem At.cut {c : Byte} (h : At buf p (t ++ c :: s)) :
    ∃ buf', store buf (p + t.length) 0 = some buf' ∧ Kept p buf buf' ∧ At buf' p t ∧
      At buf' (p + t.length + 1) s := by
  have hlt := h.lt
  have hplace : p + t.length < buf.length := by
    rw [List.length_append] at hlt
    omega
  have hrest : At buf (p + t.length + 1) s := h.drop.tail
  refine ⟨buf.set (p + t.length) 0, if_pos hplace, ?_, ?_, ?_⟩
  · refine ⟨List.length_set, fun i hi => List.getElem?_set_ne (by omega), ?_⟩
    intro i hi
    by_cases heq : p + t.length = i
    · subst heq
      exact List.getElem?_set_self hplace
    · rw [List.getElem?_set_ne heq]
      exact hi
  · refine ⟨?_, List.getElem?_set_self hplace, ?_⟩
    · intro i hi
      have hchar := h.chars i (by rw [List.length_append]; omega)
      rw [List.getElem?_set_ne (by omega), hchar, List.getElem?_append_left hi]
    · exact fun h0 => h.noNul (List.mem_append_left _ h0)
  · refine ⟨?_, ?_, hrest.noNul⟩
    · intro i hi
      rw [List.getElem?_set_ne (by omega)]
      exact hrest.chars i hi
    · rw [List.getElem?_set_ne (by omega)]
      exact hrest.nul

/-- A call of `strtok_r` at a string finds the word that the list has. -/
structure Found (buf : List Byte) (q : Nat) (t rest : CString) (r : Tokenized) : Prop where
  kept : Kept q buf r.buf
  token : ∃ p, r.token = some p ∧ At r.buf p t ∧ ∃ q', r.savePtr = some q' ∧ q ≤ q' ∧
    p + t.length ≤ q' ∧ At r.buf q' rest

theorem strtok_r_none {pString savePtr : Option Nat} (h : At buf q s)
    (hq : pString.or savePtr = some q) (hnone : plibc.strtok_r s = none) :
    strtok_r buf pString (cstr " \t\n") savePtr = some ⟨buf, none, none⟩ := by
  have hall : s.dropWhile isDelim = [] := by
    unfold plibc.strtok_r at hnone
    rcases hrest : s.dropWhile isDelim with _ | ⟨c, rest⟩
    · rfl
    · rw [hrest] at hnone
      cases hnone
  have htake : s.takeWhile isDelim = s := by
    have hjoin := List.takeWhile_append_dropWhile (p := isDelim) (l := s)
    rwa [hall, List.append_nil] at hjoin
  have hskip := skipDelims_at h
  rw [htake] at hskip
  have hnul : load buf (q + s.length) = some 0 := h.nul
  unfold strtok_r
  rw [hq]
  cases s with
  | nil =>
    have hload : load buf q = some 0 := hnul
    simp [hload]
  | cons c s =>
    have hload : load buf q = some c := h.head
    rw [List.length_cons] at hskip hnul
    simp [hload, hskip, hnul]

/-- The loops of `strtok_r` at a string whose first word is `t`. -/
theorem strtok_r_word {pString savePtr : Option Nat} {c : Byte} {a w : CString}
    (h : At buf q (a ++ c :: w)) (hq : pString.or savePtr = some q)
    (hstart : skipDelims buf (cstr " \t\n") q = some (q + a.length)) :
    strtok_r buf pString (cstr " \t\n") savePtr =
      (skipToken buf (cstr " \t\n") (q + a.length)).bind fun p =>
        (load buf p).bind fun d =>
          if d ≠ 0 then
            (store buf p 0).bind fun buf' =>
              some ⟨buf', some (q + a.length), some (p + 1)⟩
          else some ⟨buf, some (q + a.length), some p⟩ := by
  have hne : ∀ d ∈ a ++ c :: w, d ≠ 0 := by
    rintro d hd rfl
    exact h.noNul hd
  obtain ⟨d, hd, hload⟩ : ∃ d ∈ a ++ c :: w, load buf q = some d := by
    cases a with
    | nil => exact ⟨c, List.mem_cons_self, h.head⟩
    | cons d a => exact ⟨d, List.mem_cons_self, h.head⟩
  have hword : load buf (q + a.length) = some c := h.drop.head
  have hc : c ≠ 0 := hne c (by simp)
  unfold strtok_r
  rw [hq]
  dsimp only [Option.bind_eq_bind]
  rw [hload, Option.bind_some, if_neg (hne d hd), hstart, Option.bind_some, hword,
    Option.bind_some, if_neg hc]
  rfl

theorem strtok_r_some {pString savePtr : Option Nat} {rest : CString} (h : At buf q s)
    (hq : pString.or savePtr = some q) (hsome : plibc.strtok_r s = some (t, rest)) :
    ∃ r, strtok_r buf pString (cstr " \t\n") savePtr = some r ∧ Found buf q t rest r := by
  have hstart := skipDelims_at h
  have hjoin := List.takeWhile_append_dropWhile (p := isDelim) (l := s)
  unfold plibc.strtok_r at hsome
  rcases hword : s.dropWhile isDelim with _ | ⟨c, w⟩
  · rw [hword] at hsome
    cases hsome
  · rw [hword] at hsome hjoin
    obtain ⟨ht, hrest⟩ : (c :: w).takeWhile (!isDelim ·) = t ∧
        ((c :: w).dropWhile (!isDelim ·)).drop 1 = rest := by
      simpa using hsome
    rw [← hjoin] at h
    generalize s.takeWhile isDelim = a at h hstart
    have hat := h.drop
    have hend := skipToken_at hat
    have hsplit := List.takeWhile_append_dropWhile (p := fun c => !isDelim c) (l := c :: w)
    rw [ht] at hend hsplit
    rw [strtok_r_word h hq hstart, hend, Option.bind_some]
    rcases htail : (c :: w).dropWhile (!isDelim ·) with _ | ⟨d, tail⟩
    · -- The word ends with the string, and the pointer stays at its NUL.
      rw [htail, List.append_nil] at hsplit
      rw [htail, List.drop_nil] at hrest
      rw [← hsplit] at hat
      have hnul : load buf (q + a.length + t.length) = some 0 := hat.nul
      subst hrest
      refine ⟨⟨buf, some (q + a.length), some (q + a.length + t.length)⟩, ?_, kept_refl q buf,
        q + a.length, rfl, hat, _, rfl, by omega, Nat.le_refl _, ?_⟩
      · rw [hnul, Option.bind_some, if_neg (not_not.mpr rfl)]
      · exact ⟨fun i hi => absurd hi (Nat.not_lt_zero i), hat.nul, List.not_mem_nil⟩
    · rw [htail] at hsplit hrest
      rw [← hsplit] at hat
      have hd : d ≠ 0 := by
        rintro rfl
        exact hat.noNul (by simp)
      have hload : load buf (q + a.length + t.length) = some d := hat.drop.head
      obtain ⟨buf', hstore, hkept, hcut, hbehind⟩ := hat.cut
      rw [List.drop_one, List.tail_cons] at hrest
      subst hrest
      refine ⟨⟨buf', some (q + a.length), some (q + a.length + t.length + 1)⟩, ?_, ?_,
        q + a.length, rfl, hcut, _, rfl, by omega, by omega, hbehind⟩
      · rw [hload, Option.bind_some, if_pos hd, hstore, Option.bind_some]
      · exact ⟨hkept.length, fun i hi => hkept.before i (by omega), hkept.nuls⟩

/-! ## All words -/

/-- What the loop leaves when it starts at place `q` with the words `ts` before it. -/
structure Parsed (n i : Nat) (q : Nat) (cb : Cmdbuf) (ts : List CString) (r : Cmdbuf) : Prop where
  kept : Kept q cb.buf r.buf
  argc : r.argc = cb.argc + ts.length
  before : ∀ j : Nat, j < i → r.f[j]? = cb.f[j]?
  words : ∀ j (hj : j < ts.length), ∃ p, r.f[i + j]? = some (some p) ∧ At r.buf p ts[j]
  last : ts.length < n → r.f[i + ts.length]? = some none

theorem parseLoop_parsed {n i : Nat} {cb : Cmdbuf} {savePtr : Option Nat} (h : At cb.buf q s)
    (hq : (if i = 0 then some 0 else none : Option Nat).or savePtr = some q)
    (hslots : i + n ≤ cb.f.length) :
    ∃ r, parseLoop n i cb savePtr = some r ∧ Parsed n i q cb (tokens n s) r := by
  induction n generalizing i q cb s savePtr with
  | zero =>
    refine ⟨cb, rfl, kept_refl q _, rfl, fun _ _ => rfl, ?_, ?_⟩
    · intro j hj
      cases hj
    · intro hlt
      cases hlt
  | succ n ih =>
    unfold parseLoop tokens
    rcases hword : plibc.strtok_r s with _ | ⟨t, rest⟩
    · rw [strtok_r_none h hq hword]
      refine ⟨_, rfl, kept_refl q _, rfl, ?_, ?_, ?_⟩
      · intro j hj
        exact List.getElem?_set_ne (by omega)
      · intro j hj
        cases hj
      · intro _
        exact List.getElem?_set_self (by omega)
    · obtain ⟨r, hr, hkept, p, htoken, hat, q', hsave, hle, hend, hrest⟩ := strtok_r_some h hq hword
      rw [hr]
      set cb' : Cmdbuf := ⟨r.buf, cb.argc + 1, cb.f.set i r.token⟩ with hcb
      have hslots' : i + 1 + n ≤ cb'.f.length := by
        rw [hcb, List.length_set]
        omega
      have hq' : (if i + 1 = 0 then some 0 else none : Option Nat).or r.savePtr = some q' := by
        rw [if_neg (Nat.succ_ne_zero i), hsave]
        rfl
      obtain ⟨r', hrun, hparsed⟩ := ih hrest hq' hslots'
      have hslot : cb'.f[i]? = some (some p) := by
        rw [hcb, ← htoken]
        exact List.getElem?_set_self (by omega)
      refine ⟨r', ?_, hkept.trans hparsed.kept hle, ?_, ?_, ?_, ?_⟩
      · have hgo : (if r.token = none then some (⟨r.buf, cb.argc, cb.f.set i r.token⟩ : Cmdbuf)
            else parseLoop n (i + 1) cb' r.savePtr) = some r' := by
          rw [if_neg (by simp [htoken]), hrun]
        exact hgo
      · have hargc : cb'.argc = cb.argc + 1 := rfl
        rw [hparsed.argc, hargc, List.length_cons]
        omega
      · intro j hj
        rw [hparsed.before j (by omega)]
        exact List.getElem?_set_ne (by omega)
      · intro j hj
        cases j with
        | zero =>
          refine ⟨p, ?_, hat.kept hparsed.kept hend⟩
          rw [hparsed.before (i + 0) (by omega)]
          exact hslot
        | succ j =>
          obtain ⟨p', hp', hat'⟩ := hparsed.words j (by simpa using hj)
          refine ⟨p', ?_, hat'⟩
          rw [← hp']
          congr 1
          omega
      · intro hlt
        rw [List.length_cons] at hlt ⊢
        rw [← hparsed.last (by omega)]
        congr 1
        omega

/-! ## The copy of the command -/

theorem store_set {c : Byte} (h : p < buf.length) : store buf p c = some (buf.set p c) := if_pos h

/-- What `strncpy` leaves: the characters, and a NUL when there is room for it. -/
structure Copied (buf : List Byte) (p n : Nat) (s : CString) (buf' : List Byte) : Prop where
  length : buf'.length = buf.length
  before : ∀ i : Nat, i < p → buf'[i]? = buf[i]?
  chars : ∀ i : Nat, i < n → i < s.length → buf'[p + i]? = s[i]?
  nul : s.length < n → buf'[p + s.length]? = some 0

theorem strncpy_copied {n : Nat} (h : p + n ≤ buf.length) :
    ∃ buf', strncpy buf p s n = some buf' ∧ Copied buf p n s buf' := by
  induction n generalizing p s buf with
  | zero =>
    refine ⟨buf, by unfold strncpy; rfl, rfl, fun _ _ => rfl, ?_, ?_⟩
    · intro i hi
      cases hi
    · intro hlt
      cases hlt
  | succ n ih =>
    cases s with
    | nil =>
      refine ⟨buf.set p 0, store_set (by omega), List.length_set, ?_, ?_, ?_⟩
      · exact fun i hi => List.getElem?_set_ne (by omega)
      · intro i _ hi
        cases hi
      · intro _
        exact List.getElem?_set_self (by omega)
    | cons c s =>
      have hlen : (buf.set p c).length = buf.length := List.length_set
      have hroom : p + 1 + n ≤ (buf.set p c).length := by omega
      obtain ⟨buf', hrun, hcopied⟩ := ih (s := s) hroom
      refine ⟨buf', ?_, hcopied.length.trans hlen, ?_, ?_, ?_⟩
      · unfold strncpy
        rw [store_set (by omega)]
        exact hrun
      · intro i hi
        rw [hcopied.before i (by omega)]
        exact List.getElem?_set_ne (by omega)
      · intro i hi hlt
        cases i with
        | zero =>
          rw [hcopied.before (p + 0) (by omega)]
          exact List.getElem?_set_self (by omega)
        | succ i =>
          rw [List.length_cons] at hlt
          have hat := hcopied.chars i (by omega) (by omega)
          have hplace : p + 1 + i = p + (i + 1) := by omega
          rw [hplace] at hat
          exact hat
      · intro hlt
        rw [List.length_cons] at hlt
        have hplace : p + 1 + s.length = p + (c :: s).length := by
          rw [List.length_cons]
          omega
        rw [← hplace]
        exact hcopied.nul (by omega)

/-- The first 199 characters stand in the buffer, with a NUL behind them. -/
theorem copied_at {buf' : List Byte} (hsize : buf.length = 200) (h : Copied buf 0 199 s buf')
    (h0 : 0 ∉ s) : At (buf'.set 199 0) 0 (s.take 199) where
  chars := by
    intro i hi
    rw [List.length_take] at hi
    have hchar := h.chars i (by omega) (by omega)
    rw [Nat.zero_add] at hchar ⊢
    rw [List.getElem?_set_ne (by omega), hchar, List.getElem?_take_of_lt (by omega)]
  nul := by
    have hlen := h.length
    rw [List.length_take, Nat.zero_add]
    by_cases hlt : s.length < 199
    · have hnul := h.nul hlt
      rw [Nat.min_eq_right hlt.le, List.getElem?_set_ne (by omega)]
      rw [Nat.zero_add] at hnul
      exact hnul
    · rw [Nat.min_eq_left (by omega)]
      exact List.getElem?_set_self (by omega)
  noNul := fun hmem => h0 (List.mem_of_mem_take hmem)

/-! ## The law -/

/-- The words of the command, as the other commands take them. -/
theorem parsecmd_words (str : CString) :
    ether4330.parsecmd str = (runs isDelim (str.take 199)).take 10 :=
  tokens_eq 10 _

/-- `parsecmd` stays inside of its buffer. It finds the first ten runs of characters that
are no delimiters, in their order, each with a NUL behind it in the buffer, and a slot
that is left is null. -/
theorem a_command_is_cut_into_its_words (pCmdbuf : Fresh) (str : CString) (h : 0 ∉ str) :
    ∃ cb, parsecmd pCmdbuf str = some cb ∧ cb.buf.length = 200 ∧
      cb.argc = min 10 (runs isDelim (str.take 199)).length ∧
      (∀ j < cb.argc, ∃ p w, cb.f[j]? = some (some p) ∧
        (runs isDelim (str.take 199))[j]? = some w ∧ At cb.buf p w) ∧
      (cb.argc < 10 → cb.f[cb.argc]? = some none) := by
  have hbytes := pCmdbuf.bytes
  have hslots := pCmdbuf.slots
  have hroom : 0 + 199 ≤ pCmdbuf.cb.buf.length := by omega
  obtain ⟨buf', hrun, hcopied⟩ := strncpy_copied (s := str) hroom
  have hat := copied_at hbytes hcopied h
  have hstore : store buf' 199 0 = some (buf'.set 199 0) := by
    apply store_set
    rw [hcopied.length]
    omega
  set cb : Cmdbuf := { pCmdbuf.cb with buf := buf'.set 199 0, argc := 0 }
  have hfit : 0 + 10 ≤ cb.f.length := by
    change 0 + 10 ≤ pCmdbuf.cb.f.length
    omega
  have hstart : (if 0 = 0 then some 0 else none : Option Nat).or none = some 0 := rfl
  have hatcb : At cb.buf 0 (str.take 199) := hat
  obtain ⟨r, hparse, hkept, hargc, -, hwords, hlast⟩ := parseLoop_parsed hatcb hstart hfit
  have hlength : (tokens 10 (str.take 199)).length =
      min 10 (runs isDelim (str.take 199)).length := by
    rw [tokens_eq, List.length_take]
  rw [Nat.zero_add] at hargc hlast
  refine ⟨r, ?_, ?_, ?_, ?_, ?_⟩
  · unfold parsecmd
    rw [hrun]
    dsimp only [Option.bind_eq_bind]
    rw [Option.bind_some, hstore]
    exact hparse
  · rw [hkept.length, List.length_set, hcopied.length, hbytes]
  · rw [hargc, hlength]
  · intro j hj
    rw [hargc] at hj
    obtain ⟨p, hp, hword⟩ := hwords j hj
    rw [Nat.zero_add] at hp
    refine ⟨p, _, hp, ?_, hword⟩
    have hget := List.getElem?_eq_getElem hj
    rw [← hget, tokens_eq]
    rw [hlength] at hj
    exact (List.getElem?_take_of_lt (by omega)).symm
  · intro hlt
    rw [hargc] at hlt ⊢
    exact hlast hlt

/-- A command with two words and blanks around them, in a buffer of zeros. -/
theorem a_command_of_two_words :
    0 ∉ cstr " key 0\n" ∧ ∃ cb, parsecmd
      ⟨⟨List.replicate 200 0, 0, List.replicate 10 none⟩, List.length_replicate,
        List.length_replicate⟩ (cstr " key 0\n") = some cb ∧ cb.argc = 2 := by
  have h0 : 0 ∉ cstr " key 0\n" := by decide
  obtain ⟨cb, hcb, -, hargc, -⟩ := a_command_is_cut_into_its_words
    ⟨⟨List.replicate 200 0, 0, List.replicate 10 none⟩, List.length_replicate,
      List.length_replicate⟩ (cstr " key 0\n") h0
  refine ⟨h0, cb, hcb, ?_⟩
  rw [hargc]
  decide

end rpi_wifi.ether4330.cmdbuf
