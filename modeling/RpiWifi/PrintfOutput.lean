-- What `_doprnt` hands to its output function: the text of the format, one character after the
-- other, wherever the format and the strings are, as long as what is read there stays.
import RpiWifi.PrintfLaws

namespace rpi_wifi.plibc.doprnt

open ether4330 memory

variable {σ κ α : Type} {put : Put σ} {r : Reader σ κ} {strings : Strings}
variable {fmt rest text out : CString} {ap ap' : List Word} {item : Item} {n K : Nat}

/-! ## Characters one after the other -/

def putText (put : Put σ) : CString → σ × Nat → Run σ (σ × Nat)
  | [], x => pure x
  | c :: cs, x => do putText put cs (← putc put c x)

theorem putText_append (out out' : CString) (x : σ × Nat) :
    putText put (out ++ out') x = putText put out x >>= putText put out' := by
  induction out generalizing x with
  | nil => rw [List.nil_append, putText, pure_bind]
  | cons c out ih => simp only [List.cons_append, putText, bind_assoc, ih]

/-- `P` stays as long as characters are taken and there are no more than `K` of them. -/
def Stays (put : Put σ) (P : σ × Nat → Prop) (K : Nat) : Prop :=
  ∀ s k c t, P (s, k) → k < K → put s c = (true, t) → P (t, k + 1)

variable {P : σ × Nat → Prop}

/-- Behind a character there is one more, in a state that `P` holds of. -/
theorem putc_bind (hstays : Stays put P K) {x : σ × Nat} (hx : P x) (hroom : x.2 < K) {c : Byte}
    {f g : σ × Nat → Run σ α} (hfg : ∀ y, P y → y.2 = x.2 + 1 → f y = g y) :
    putc put c x >>= f = putc put c x >>= g := by
  unfold putc
  rcases hput : put x.1 c with ⟨_ | _, t⟩
  · rfl
  · rcases hfit : fits (x.2 + 1) with _ | m
    · rfl
    · obtain rfl : x.2 + 1 = m := fits_eq hfit
      exact hfg (t, x.2 + 1) (hstays x.1 x.2 c t hx hroom hput) rfl

theorem putText_bind (hstays : Stays put P K) {x : σ × Nat} (hx : P x)
    (hroom : x.2 + out.length ≤ K) {f g : σ × Nat → Run σ α}
    (hfg : ∀ y, P y → y.2 = x.2 + out.length → f y = g y) :
    putText put out x >>= f = putText put out x >>= g := by
  induction out generalizing x with
  | nil =>
    rw [putText, pure_bind, pure_bind]
    exact hfg x hx rfl
  | cons c out ih =>
    rw [List.length_cons] at hroom hfg
    rw [putText, bind_assoc, bind_assoc]
    apply putc_bind hstays hx (by omega)
    intro y hy hlen
    apply ih hy (by omega)
    intro z hz hz2
    exact hfg z hz (by omega)

/-- A loop over `i` puts out what it reads. -/
theorem putEach_eq (hstays : Stays put P K) {char : σ → Nat → Byte} {x : σ × Nat} (hx : P x)
    (hroom : x.2 + out.length ≤ K) {i : Nat}
    (hchar : ∀ y, P y → ∀ j < out.length, char y.1 (i + j) = out.getD j 0) :
    putEach put char out.length i x = putText put out x := by
  induction out generalizing i x with
  | nil => rfl
  | cons c out ih =>
    rw [List.length_cons] at hroom hchar
    have hc : char x.1 i = c := hchar x hx 0 (by omega)
    rw [List.length_cons, putEach, putText, hc]
    apply putc_bind hstays hx (by omega)
    intro y hy hlen
    apply ih hy (by omega)
    intro z hz j hj
    rw [Nat.add_assoc, Nat.add_comm 1]
    exact hchar z hz (j + 1) (by omega)

theorem putEach_replicate (hstays : Stays put P K) {x : σ × Nat} (hx : P x) {k : Nat} (c : Byte)
    (hroom : x.2 + k ≤ K) :
    putEach put (fun _ _ => c) k 0 x = putText put (List.replicate k c) x := by
  have heach := @putEach_eq σ put (List.replicate k c) K P hstays (fun _ _ => c) x hx
    (by rwa [List.length_replicate]) 0 fun _ _ j hj => by
      rw [List.getD_eq_getElem _ _ hj, List.getElem_replicate]
  rwa [List.length_replicate] at heach

/-! ## A specification -/

/-- The characters of an argument are read as `strings` has them. -/
def Chars.ReadBy (r : Reader σ κ) (strings : Strings) (s : σ) : Chars → Prop
  | .string _ => True
  | .pointer p => r.strlen s p = (strings p).length ∧
      ∀ i < (strings p).length, r.char s p i = (strings p).getD i 0

theorem Chars.ReadBy.strlen {str : Chars} {s : σ} (h : str.ReadBy r strings s) :
    str.strlen r s = (str.text strings).length := by
  cases str with
  | string t => rfl
  | pointer p => exact h.1

theorem Chars.ReadBy.char {str : Chars} {s : σ} (h : str.ReadBy r strings s) {i : Nat}
    (hi : i < (str.text strings).length) : str.char r s i = (str.text strings).getD i 0 := by
  cases str with
  | string t => rfl
  | pointer p => exact h.2 i hi

theorem Field.put_none {f : Field} {x : σ × Nat} (hread : f.str.ReadBy r strings x.1)
    (h : f.text strings = none) : f.put r put x = ExceptT.mk none := by
  have hlengths : f.lengths (f.str.text strings).length = none := Option.map_eq_none_iff.mp h
  unfold Field.put
  rw [hread.strlen, hlengths]
  rfl

theorem Field.lengths_le {f : Field} {strlen : Nat} {l : Lengths} (h : f.lengths strlen = some l) :
    l.len_str ≤ strlen := by
  simp only [Field.lengths, Option.bind_eq_bind, Option.bind_eq_some_iff] at h
  obtain ⟨m, hm, -, -, ⟨⟩⟩ := h
  obtain rfl := fits_eq hm
  dsimp only
  split_ifs <;> omega

theorem putSign_eq (sign : Option Byte) (x : σ × Nat) :
    putSign put sign x = putText put sign.toList x := by
  cases sign with
  | none => rfl
  | some sign =>
    have hnil : putText put [] = pure := funext fun y => rfl
    rw [Option.toList_some, putText, hnil, bind_pure]
    rfl

/-- The loops put out the text of a specification. -/
theorem Field.put_eq {f : Field} (hstays : Stays put P K) {x : σ × Nat} (hx : P x)
    (hread : ∀ y, P y → f.str.ReadBy r strings y.1) (h : f.text strings = some out)
    (hroom : x.2 + out.length ≤ K) : f.put r put x = putText put out x := by
  obtain ⟨l, hlengths, rfl⟩ := Option.map_eq_some_iff.mp h
  have hlen := Field.lengths_le hlengths
  simp only [List.length_append, List.length_replicate, List.length_take_of_le hlen] at hroom
  unfold Field.put
  rw [(hread x hx).strlen, hlengths]
  change putEach put (fun _ _ => l.pad_char) l.before 0 x >>= _ = _
  simp only [putText_append, bind_assoc]
  rw [putEach_replicate hstays hx l.pad_char (by omega)]
  apply putText_bind hstays hx (by rw [List.length_replicate]; omega)
  intro y hy hylen
  rw [List.length_replicate] at hylen
  rw [putSign_eq]
  apply putText_bind hstays hy (by omega)
  intro z hz hzlen
  rw [putEach_replicate hstays hz 48 (by omega)]
  apply putText_bind hstays hz (by rw [List.length_replicate]; omega)
  intro u hu hulen
  rw [List.length_replicate] at hulen
  have hstr : putEach put (f.str.char r) l.len_str 0 u =
      putText put ((f.str.text strings).take l.len_str) u := by
    have heach := @putEach_eq σ put ((f.str.text strings).take l.len_str) K P hstays
      (f.str.char r) u hu (by rw [List.length_take_of_le hlen]; omega) 0 fun y hy j hj => by
        rw [List.length_take_of_le hlen] at hj
        rw [Nat.zero_add, (hread y hy).char (by omega)]
        simp only [List.getD_eq_getElem?_getD, List.getElem?_take_of_lt hj]
    rwa [List.length_take_of_le hlen] at heach
  rw [hstr]
  apply putText_bind hstays hu (by rw [List.length_take_of_le hlen]; omega)
  intro v hv hvlen
  rw [List.length_take_of_le hlen] at hvlen
  exact putEach_replicate hstays hv l.pad_char (by omega)

/-! ## What is left of a format -/

theorem flags_suffix (fmt : CString) (left : Bool) (pad : Byte) :
    (flags fmt left pad).2.2 <:+ fmt := by
  fun_induction flags fmt left pad with
  | case1 => exact List.suffix_rfl
  | case2 left pad fmt ih => exact ih.trans (List.suffix_cons _ _)
  | case3 left pad fmt _ ih => exact ih.trans (List.suffix_cons _ _)
  | case4 => exact List.suffix_rfl

theorem number_suffix (fmt : CString) (n : Nat) : (number fmt n).2 <:+ fmt := by
  fun_induction number fmt n with
  | case1 => exact List.suffix_rfl
  | case2 n c fmt _ ih => exact ih.trans (List.suffix_cons _ _)
  | case3 => exact List.suffix_rfl

/-- The rest of a format, and of the arguments. -/
def Left (fmt : CString) (ap : List Word) (rest : CString) (ap' : List Word) : Prop :=
  rest <:+ fmt ∧ ap' <:+ ap

theorem va_arg_left {arg : Word} (h : va_arg ap = some (arg, ap')) : arg ∈ ap ∧ ap' <:+ ap := by
  cases ap with
  | nil => cases h
  | cons a as =>
    cases h
    exact ⟨List.mem_cons_self, List.suffix_cons _ _⟩

theorem fieldWidth_left {left left' : Bool} {fmin : Nat}
    (h : fieldWidth fmt left ap = some (fmin, left', rest, ap')) : Left fmt ap rest ap' := by
  unfold fieldWidth at h
  split_ifs at h with hstar
  · obtain ⟨⟨arg, ap₁⟩, harg, h⟩ := Option.bind_eq_some_iff.mp h
    have hap := (va_arg_left harg).2
    dsimp only at h
    split_ifs at h with hneg
    · obtain ⟨m, -, ⟨⟩⟩ := Option.bind_eq_some_iff.mp h
      exact ⟨List.tail_suffix fmt, hap⟩
    · cases h
      exact ⟨List.tail_suffix fmt, hap⟩
  · obtain ⟨m, -, ⟨⟩⟩ := Option.bind_eq_some_iff.mp h
    exact ⟨number_suffix fmt 0, List.suffix_rfl⟩

theorem precision_left {prec : Int} (h : precision fmt ap = some (prec, rest, ap')) :
    Left fmt ap rest ap' := by
  have htail := List.tail_suffix fmt
  unfold precision at h
  split_ifs at h with hperiod hstar
  · obtain ⟨⟨arg, ap₁⟩, harg, ⟨⟩⟩ := Option.bind_eq_some_iff.mp h
    exact ⟨(List.tail_suffix fmt.tail).trans htail, (va_arg_left harg).2⟩
  · obtain ⟨m, -, ⟨⟩⟩ := Option.bind_eq_some_iff.mp h
    exact ⟨(number_suffix fmt.tail 0).trans htail, List.suffix_rfl⟩
  · cases h
    exact ⟨List.suffix_rfl, List.suffix_rfl⟩

theorem lengthModifier_suffix (fmt : CString) : (lengthModifier fmt).2 <:+ fmt := by
  have htail := List.tail_suffix fmt
  unfold lengthModifier
  split_ifs
  · exact htail
  · exact (List.tail_suffix fmt.tail).trans htail
  · exact htail
  · exact List.suffix_rfl

theorem Left.trans {fmt₁ : CString} {ap₁ : List Word} (h : Left fmt ap fmt₁ ap₁)
    (h' : Left fmt₁ ap₁ rest ap') : Left fmt ap rest ap' :=
  ⟨h'.1.trans h.1, h'.2.trans h.2⟩

theorem convert_pointer {conv : Conversion} {arg p : Word} {sign : Option Byte}
    (h : convert conv arg = some (sign, .pointer p)) : p = arg := by
  cases conv with
  | s =>
    simp only [convert] at h
    split_ifs at h
    · cases h
    · cases h
      rfl
  | c => cases h
  | d =>
    simp only [convert] at h
    split_ifs at h
    · obtain ⟨t, -, ⟨⟩⟩ := Option.map_eq_some_iff.mp h
    · obtain ⟨t, -, ⟨⟩⟩ := Option.map_eq_some_iff.mp h
  | u | o | x | X | b =>
    obtain ⟨t, -, ⟨⟩⟩ := Option.map_eq_some_iff.mp h

/-- The item prints the string at `p`. -/
def Item.Points (item : Item) (p : Word) : Prop := ∃ f, item = .field f ∧ f.str = .pointer p

theorem specification_left (h : specification fmt ap = some (item, rest, ap')) :
    Left fmt ap rest ap' ∧ ∀ p, item.Points p → p ∈ ap := by
  unfold specification at h
  dsimp only at h
  have hflags := flags_suffix fmt false 32
  obtain ⟨⟨fmin, left, fmt₁, ap₁⟩, hwidth, h⟩ := Option.bind_eq_some_iff.mp h
  obtain ⟨⟨prec, fmt₂, ap₂⟩, hprec, h⟩ := Option.bind_eq_some_iff.mp h
  have hleft : Left fmt ap fmt₂ ap₂ :=
    Left.trans ⟨hflags, List.suffix_rfl⟩ ((fieldWidth_left hwidth).trans (precision_left hprec))
  have hmodifier := lengthModifier_suffix fmt₂
  dsimp only at h
  split at h
  · cases h
    refine ⟨⟨List.suffix_rfl, hleft.2⟩, ?_⟩
    rintro p ⟨f, ⟨⟩, -⟩
  · obtain ⟨⟨arg, ap₃⟩, harg, h⟩ := Option.bind_eq_some_iff.mp h
    obtain ⟨⟨sign, str⟩, hconvert, ⟨⟩⟩ := Option.bind_eq_some_iff.mp h
    obtain ⟨hmem, hrest⟩ := va_arg_left harg
    refine ⟨⟨(List.tail_suffix _).trans (hmodifier.trans hleft.1), hrest.trans hleft.2⟩, ?_⟩
    rintro p ⟨f, ⟨⟩, hp⟩
    obtain rfl : str = .pointer p := hp
    rw [convert_pointer hconvert]
    exact hleft.2.subset hmem

theorem round_left (h : round fmt ap = some (item, rest, ap')) :
    Left fmt ap rest ap' ∧ ∀ p, item.Points p → p ∈ ap := by
  cases fmt with
  | nil => cases h
  | cons c fmt =>
    have hcons := List.suffix_cons c fmt
    simp only [round] at h
    split_ifs at h with hc hpercent
    · cases h
      refine ⟨⟨(List.tail_suffix fmt).trans hcons, List.suffix_rfl⟩, ?_⟩
      rintro p ⟨f, ⟨⟩, -⟩
    · obtain ⟨hleft, hpoints⟩ := specification_left h
      exact ⟨⟨hleft.1.trans hcons, hleft.2⟩, hpoints⟩
    · cases h
      refine ⟨⟨hcons, List.suffix_rfl⟩, ?_⟩
      rintro p ⟨f, ⟨⟩, -⟩

/-- The strings that a format prints. -/
inductive Prints : CString → List Word → Word → Prop where
  | here {fmt rest : CString} {ap ap' : List Word} {item : Item} {p : Word}
      (h : round fmt ap = some (item, rest, ap')) (hp : item.Points p) : Prints fmt ap p
  | later {fmt rest : CString} {ap ap' : List Word} {item : Item} {p : Word}
      (h : round fmt ap = some (item, rest, ap')) (hp : Prints rest ap' p) : Prints fmt ap p

/-- They are arguments. -/
theorem Prints.mem {p : Word} (h : Prints fmt ap p) : p ∈ ap := by
  induction h with
  | here h hp => exact (round_left h).2 _ hp
  | later h _ ih => exact (round_left h).1.2.subset ih

/-! ## The loop over the format -/

theorem formatText_mono {m : Nat} (h : formatText strings n fmt ap = some out) (hm : n ≤ m) :
    formatText strings m fmt ap = some out := by
  induction n generalizing m fmt ap out with
  | zero =>
    cases fmt with
    | nil => cases m <;> exact h
    | cons c fmt => cases h
  | succ n ih =>
    obtain ⟨m, rfl⟩ : ∃ k, m = k + 1 := ⟨m - 1, by omega⟩
    cases fmt with
    | nil => exact h
    | cons c fmt =>
      simp only [formatText, Option.bind_eq_bind, Option.bind_eq_some_iff] at h ⊢
      obtain ⟨⟨pre, fmt, ap⟩, hround, rest, hrest, hout⟩ := h
      exact ⟨_, hround, rest, ih hrest (by omega), hout⟩

theorem item_put_eq (hstays : Stays put P K) {x : σ × Nat} (hx : P x)
    (hread : ∀ p, item.Points p → ∀ y, P y → (Chars.pointer p).ReadBy r strings y.1)
    (h : item.text strings = some out) (hroom : x.2 + out.length ≤ K) :
    item.put r put x = putText put out x := by
  cases item with
  | literal c =>
    cases h
    have hnil : putText put [] = pure := funext fun y => rfl
    rw [putText, hnil, bind_pure]
    rfl
  | field f =>
    refine Field.put_eq hstays hx (fun y hy => ?_) h hroom
    rcases hstr : f.str with t | p
    · trivial
    · exact hread p ⟨f, rfl, hstr⟩ y hy

/-- The loop hands on the text of the format, when the format and its strings are read as they
are in every state that `P` holds of. `A` says what stands at a place of the format. -/
theorem formatLoop_eq {A : κ → CString → Prop} (hstays : Stays put P K)
    (hformat : ∀ y fmt text, P y → A fmt text → r.format y.1 fmt = text)
    (hskip : ∀ fmt text k, A fmt text → k ≤ text.length → A (r.skip fmt k) (text.drop k))
    {place : κ} (hat : A place text) {x : σ × Nat} (hx : P x)
    (hread : ∀ p, Prints text ap p → ∀ y, P y → (Chars.pointer p).ReadBy r strings y.1)
    (h : formatText strings n text ap = some out) (hroom : x.2 + out.length ≤ K) :
    formatLoop r put n place ap x = putText put out x := by
  induction n generalizing place text ap x out with
  | zero =>
    cases text with
    | nil =>
      cases h
      exact if_pos (hformat x place _ hx hat)
    | cons c text => cases h
  | succ n ih =>
    have hhere := hformat x place _ hx hat
    cases text with
    | nil =>
      cases h
      unfold formatLoop
      exact if_pos hhere
    | cons c text =>
      simp only [formatText, Option.bind_eq_bind, Option.bind_eq_some_iff] at h
      obtain ⟨⟨pre, fmt, ap'⟩, hround, rest, hrest, hout⟩ := h
      obtain rfl : pre ++ rest = out := Option.some.inj hout
      obtain ⟨⟨item, fmt, ap'⟩, hround, hitem⟩ := Option.bind_eq_some_iff.mp hround
      obtain ⟨pre, htext, ⟨⟩⟩ := Option.map_eq_some_iff.mp hitem
      rw [List.length_append] at hroom
      have hdrop := List.suffix_iff_eq_drop.mp (round_left hround).1.1
      have hnext := hskip place _ ((c :: text).length - fmt.length) hat (Nat.sub_le _ _)
      rw [← hdrop] at hnext
      unfold formatLoop
      rw [hhere, if_neg (List.cons_ne_nil c text), hround]
      change item.put r put x >>= _ = _
      rw [item_put_eq hstays hx (fun p hp => hread p (.here hround hp)) htext (by omega),
        putText_append]
      apply putText_bind hstays hx (by omega)
      intro y hy hylen
      exact ih hnext hy (fun p hp => hread p (.later hround hp)) hrest (by omega)

/-! ## Everything is taken -/

/-- Everything is taken, and kept. -/
def record : Put CString := fun out c => (true, out ++ [c])

theorem putText_record (out : CString) {x : CString × Nat} (hx : x.2 < 2 ^ 31) :
    putText record out x =
      ExceptT.mk ((fits (x.2 + out.length)).map fun k => .ok (x.1 ++ out, k)) := by
  induction out generalizing x with
  | nil =>
    have hfit : fits (x.2 + 0) = some x.2 := if_pos hx
    rw [List.length_nil, hfit, List.append_nil]
    rfl
  | cons c out ih =>
    rw [putText, List.length_cons]
    by_cases hnext : x.2 + 1 < 2 ^ 31
    · have hputc : putc record c x = pure (x.1 ++ [c], x.2 + 1) := by
        have hfit : fits (x.2 + 1) = some (x.2 + 1) := if_pos hnext
        unfold putc record
        dsimp only
        rw [hfit]
        rfl
      rw [hputc, pure_bind, ih hnext]
      simp [Nat.add_assoc, Nat.add_comm 1]
    · have hputc : putc record c x = ExceptT.mk none := by
        have hfit : fits (x.2 + 1) = none := if_neg hnext
        unfold putc record
        dsimp only
        rw [hfit]
        rfl
      have hfit : fits (x.2 + (out.length + 1)) = none := if_neg (by omega)
      rw [hputc, hfit]
      rfl

theorem readBy_textReader (strings : Strings) (str : Chars) (s : σ) :
    str.ReadBy (textReader strings) strings s := by
  cases str with
  | string t => trivial
  | pointer p => exact ⟨rfl, fun _ _ => rfl⟩

/-- A format and strings that stay are put out whatever takes the characters. -/
theorem formatLoop_text {x : σ × Nat} (h : formatText strings n fmt ap = some out) :
    formatLoop (textReader strings) put n fmt ap x = putText put out x :=
  formatLoop_eq (P := fun _ => True) (K := x.2 + out.length) (A := fun fmt text => fmt = text)
    (fun _ _ _ _ _ _ _ => trivial) (fun _ _ _ _ hat => hat)
    (fun _ _ k hat _ => congrArg (List.drop k) hat) rfl trivial
    (fun p _ y _ => readBy_textReader strings (.pointer p) y.1) h le_rfl

/-- A format that has no text has no result, as long as everything is taken. -/
theorem formatLoop_none {x : CString × Nat} (hx : x.2 < 2 ^ 31)
    (h : formatText strings n fmt ap = none) :
    formatLoop (textReader strings) record n fmt ap x = ExceptT.mk none := by
  induction n generalizing fmt ap x with
  | zero =>
    cases fmt with
    | nil => cases h
    | cons c fmt => rfl
  | succ n ih =>
    cases fmt with
    | nil => cases h
    | cons c fmt =>
      have hhere : (textReader strings).format x.1 (c :: fmt) = c :: fmt := rfl
      unfold formatLoop
      rw [formatText] at h
      rw [hhere, if_neg (List.cons_ne_nil c fmt)]
      rcases hround : round (c :: fmt) ap with _ | ⟨item, rest, ap'⟩
      · rfl
      have hskip : (textReader strings : Reader CString CString).skip (c :: fmt)
          ((c :: fmt).length - rest.length) = rest :=
        (List.suffix_iff_eq_drop.mp (round_left hround).1.1).symm
      change item.put (textReader strings) record x >>= (fun y =>
        formatLoop (textReader strings) record n _ ap' y) = _
      rw [hskip]
      rw [hround] at h
      rcases htext : item.text strings with _ | out
      · have hnone : item.put (textReader strings) record x = ExceptT.mk none := by
          cases item with
          | literal c => cases htext
          | field f => exact Field.put_none (readBy_textReader strings f.str x.1) htext
        rw [hnone]
        rfl
      · have hput : item.put (textReader strings) record x = putText record out x :=
          item_put_eq (P := fun _ => True) (K := x.2 + out.length) (fun _ _ _ _ _ _ _ => trivial)
            trivial (fun p _ y _ => readBy_textReader strings _ y.1) htext le_rfl
        have hrest : formatText strings n rest ap' = none := by
          simp only [textOf, Option.bind_some, htext, Option.map_some, Option.bind_eq_bind] at h
          rcases hrest : formatText strings n rest ap' with _ | more
          · rfl
          · rw [hrest] at h
            cases h
        rw [hput, putText_record out hx]
        by_cases hlen : x.2 + out.length < 2 ^ 31
        · have hfit : fits (x.2 + out.length) = some (x.2 + out.length) := if_pos hlen
          rw [hfit]
          exact ih (x := (x.1 ++ out, x.2 + out.length)) hlen hrest
        · have hfit : fits (x.2 + out.length) = none := if_neg hlen
          rw [hfit]
          rfl

/-- What is recorded of a format. -/
theorem doprnt_record (strings : Strings) (fmt : CString) (ap : List Word) :
    _doprnt record strings fmt ap [] =
      (formatText strings fmt.length fmt ap).bind fun out =>
        if out.length < 2 ^ 31 then some ((out.length : Int), out) else none := by
  unfold _doprnt
  rcases htext : formatText strings fmt.length fmt ap with _ | out
  · rw [formatLoop_none (by decide) htext]
    rfl
  · rw [formatLoop_text htext, putText_record out (by decide)]
    simp only [Option.bind_some, Nat.zero_add, List.nil_append, fits]
    split_ifs <;> rfl

theorem doprnt_record_some {i : Int} (h : _doprnt record strings fmt ap [] = some (i, out)) :
    formatText strings fmt.length fmt ap = some out ∧ out.length < 2 ^ 31 ∧ i = out.length := by
  rw [doprnt_record] at h
  obtain ⟨text, htext, h⟩ := Option.bind_eq_some_iff.mp h
  split_ifs at h with hlen
  cases h
  exact ⟨htext, hlen, rfl⟩

theorem doprnt_of_denote {ps : List Piece} (h : denote strings ps ap = some out)
    (hlen : out.length < 2 ^ 31) :
    _doprnt record strings (formatOf ps) ap [] = some ((out.length : Int), out) := by
  rw [doprnt_record, formatText_print strings ps le_rfl, h]
  exact if_pos hlen

/-- `_doprnt` puts out what the format means, and returns how many characters these are. -/
theorem the_output_is_the_meaning (strings : Strings) (ps : List Piece) (ap : List Word) :
    _doprnt record strings (formatOf ps) ap [] =
      (denote strings ps ap).bind fun out =>
        if out.length < 2 ^ 31 then some ((out.length : Int), out) else none := by
  rw [doprnt_record, formatText_print strings ps le_rfl]

end rpi_wifi.plibc.doprnt
