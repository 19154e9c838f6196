-- How the search reads names: the component of the path, and the parts of a long
-- name, which stand in front of their entry with the last part first.
import RpiWifi.FatTree

namespace rpi_wifi.fat

open memory

/-! ## Texts in arrays -/

/-- An array of 256 bytes holds a text, with zeros behind it. -/
def TextOf (m : Mem) (text : Path) : Prop := ∀ i < 256, m i = text.getD i 0

/-- A text that an array has room for, with the zero that ends it. -/
structure IsText (text : Path) : Prop where
  length : text.length ≤ 255
  nonzero : ∀ b ∈ text, b ≠ 0

variable {text x : Path} {m m' : Mem}

theorem getD_ne_zero (h : ∀ b ∈ text, b ≠ 0) (i : Nat) : text.getD i 0 ≠ 0 ↔ i < text.length := by
  constructor
  · intro hne
    by_contra hlen
    exact hne (List.getD_eq_default _ _ (by omega))
  · intro hlen
    rw [List.getD_eq_getElem _ _ hlen]
    exact h _ (List.getElem_mem hlen)

/-- The array is read as the name: its characters stand there, and the NUL behind them. -/
def Spells (m : Mem) (x : Path) : Prop := x.length < 256 ∧ ∀ i ≤ x.length, m i = x.getD i 0

instance (m : Mem) (x : Path) : Decidable (Spells m x) := inferInstanceAs (Decidable (_ ∧ _))

theorem spells_iff (hm : TextOf m text) (ht : IsText text) (hx : ∀ b ∈ x, b ≠ 0) :
    Spells m x ↔ text = x := by
  constructor
  · rintro ⟨hlen, hsame⟩
    have hsame : ∀ i ≤ x.length, text.getD i 0 = x.getD i 0 :=
      fun i hi => (hm i (by omega)).symm.trans (hsame i hi)
    have hend := mt (getD_ne_zero ht.nonzero x.length).mpr
      (not_not.mpr ((hsame _ le_rfl).trans (List.getD_eq_default _ _ le_rfl)))
    have hle : text.length ≤ x.length := by omega
    have hge : x.length ≤ text.length := by
      by_contra hlt
      have hchar := (getD_ne_zero hx text.length).mpr (by omega)
      rw [← hsame _ hle, List.getD_eq_default _ _ le_rfl] at hchar
      exact hchar rfl
    refine List.ext_getElem (by omega) fun i hi hi' => ?_
    have hchar := hsame i (by omega)
    rwa [List.getD_eq_getElem _ _ hi, List.getD_eq_getElem _ _ hi'] at hchar
  · rintro rfl
    have hlen := ht.length
    exact ⟨by omega, fun i hi => hm i (by omega)⟩

/-- An array is compared with a text byte by byte, up to the NUL behind the text. -/
theorem sameFrom_iff (hm : TextOf m x) (hx : IsText x) {left i : Nat} (hleft : left + i = 256)
    (hi : i ≤ x.length) :
    sameFrom m' m left i = true ↔ ∀ j, i ≤ j → j ≤ x.length → m' j = x.getD j 0 := by
  have hlen := hx.length
  induction left generalizing i with
  | zero => omega
  | succ left ih =>
    unfold sameFrom
    rw [hm i (by omega)]
    rcases Nat.lt_or_eq_of_le hi with hin | rfl
    · have hne := (getD_ne_zero hx.nonzero i).mpr hin
      have hfirst : (∀ j, i ≤ j → j ≤ x.length → m' j = x.getD j 0) ↔
          m' i = x.getD i 0 ∧ ∀ j, i + 1 ≤ j → j ≤ x.length → m' j = x.getD j 0 := by
        constructor
        · exact fun h => ⟨h i le_rfl hi, fun j hj => h j (by omega)⟩
        · rintro ⟨hchar, hrest⟩ j hj hjx
          rcases Nat.lt_or_eq_of_le hj with hlt | rfl
          · exact hrest j hlt hjx
          · exact hchar
      rw [hfirst]
      by_cases hchar : m' i = x.getD i 0
      · rw [if_pos ⟨hchar ▸ hne, hne⟩, if_neg (not_not.mpr hchar), and_iff_right hchar]
        exact ih (by omega) (by omega)
      · refine iff_of_false ?_ fun h => hchar h.1
        split
        · exact Bool.false_ne_true
        · rw [beq_eq_false_iff_ne.mpr hne, Bool.and_false]
          exact Bool.false_ne_true
    · have hnul : x.getD x.length 0 = 0 := List.getD_eq_default _ _ le_rfl
      rw [hnul, if_neg fun h => h.2 rfl, beq_self_eq_true, Bool.and_true, beq_iff_eq]
      constructor
      · intro hchar j hj hjx
        obtain rfl : j = x.length := by omega
        rw [hchar, hnul]
      · exact fun h => (h _ le_rfl le_rfl).trans hnul

/-- Nothing is the same as an array without a zero. -/
theorem not_sameFrom_of_full (hm : ∀ i < 256, m i ≠ 0) {left i : Nat} (hleft : left + i = 256) :
    sameFrom m' m left i = false := by
  induction left generalizing i with
  | zero => rfl
  | succ left ih =>
    unfold sameFrom
    have hne := hm i (by omega)
    split
    · split
      · rfl
      · exact ih (by omega)
    · rw [beq_eq_false_iff_ne.mpr hne, Bool.and_false]

/-! ## The component -/

/-- What follows a component in the path: its end, or the next one. -/
def EndsName (rest : Path) : Prop := rest = [] ∨ ∃ rest', rest = 0x2F :: rest'

/-- The characters go to the places from `count` on. -/
theorem copyName_append {a : Path} (rest : Path) (ha : ∀ b ∈ a, b ≠ 0x2F) {count : Nat} (dest : Mem)
    (hroom : count + a.length ≤ 256) (hlt : count < 256) :
    ∃ dest', copyName (a ++ rest) count dest = copyName rest ((count + a.length) % 256) dest' ∧
      ∀ i, dest' i = if count ≤ i ∧ i < count + a.length then a.getD (i - count) 0 else dest i := by
  induction a generalizing count dest with
  | nil =>
    refine ⟨dest, ?_, fun i => ?_⟩
    · rw [List.nil_append, List.length_nil, Nat.add_zero, Nat.mod_eq_of_lt hlt]
    · rw [if_neg]
      simp only [List.length_nil]
      omega
  | cons ch a ih =>
    rw [List.length_cons] at hroom
    rw [List.cons_append, copyName, if_neg (ha ch List.mem_cons_self)]
    by_cases hlast : count = 255
    · -- The counter comes back to 0 behind the last place.
      obtain rfl : a = [] := List.eq_nil_of_length_eq_zero (by omega)
      refine ⟨Function.update dest count ch, by rw [hlast]; rfl, fun i => ?_⟩
      by_cases hi : i = count
      · rw [hi, Function.update_self, if_pos (by simp), Nat.sub_self]
        rfl
      · rw [Function.update_of_ne hi, if_neg (by simp; omega)]
    · rw [Nat.mod_eq_of_lt (by omega : count + 1 < 256)]
      obtain ⟨dest', hcopy, hdest⟩ := ih (fun b hb => ha b (List.mem_cons_of_mem _ hb))
        (Function.update dest count ch) (by omega : count + 1 + a.length ≤ 256) (by omega)
      refine ⟨dest', ?_, fun i => ?_⟩
      · rw [hcopy, List.length_cons, Nat.add_right_comm, Nat.add_assoc]
      · rw [hdest i, List.length_cons]
        by_cases hi : i = count
        · rw [hi, Function.update_self, if_neg (by omega), if_pos (by omega), Nat.sub_self]
          rfl
        · rw [Function.update_of_ne hi]
          by_cases hin : count + 1 ≤ i ∧ i < count + 1 + a.length
          · obtain ⟨k, rfl⟩ := Nat.exists_eq_add_of_le hin.1
            rw [if_pos hin, if_pos (by omega), Nat.add_sub_cancel_left,
              (by omega : count + 1 + k - count = k + 1), List.getD_cons_succ]
          · rw [if_neg hin, if_neg (by omega)]

/-- An array without a zero goes on to hold none. -/
theorem copyName_full {a : Path} (rest : Path) (ha : ∀ b ∈ a, b ≠ 0 ∧ b ≠ 0x2F) {count : Nat}
    (hlt : count < 256) {dest : Mem} (hdest : ∀ i < 256, dest i ≠ 0) :
    ∃ dest', copyName (a ++ rest) count dest = copyName rest ((count + a.length) % 256) dest' ∧
      ∀ i < 256, dest' i ≠ 0 := by
  induction a generalizing count dest with
  | nil =>
    refine ⟨dest, ?_, hdest⟩
    rw [List.nil_append, List.length_nil, Nat.add_zero, Nat.mod_eq_of_lt hlt]
  | cons ch a ih =>
    rw [List.cons_append, copyName, if_neg (ha ch List.mem_cons_self).2]
    have hupdate : ∀ i < 256, Function.update dest count ch i ≠ 0 := by
      intro i hi
      by_cases h : i = count
      · rw [h, Function.update_self]
        exact (ha ch List.mem_cons_self).1
      · rw [Function.update_of_ne h]
        exact hdest i hi
    obtain ⟨dest', hcopy, hfull⟩ := ih (fun b hb => ha b (List.mem_cons_of_mem _ hb))
      (Nat.mod_lt (count + 1) (by omega)) hupdate
    refine ⟨dest', ?_, hfull⟩
    rw [hcopy, List.length_cons, Nat.mod_add_mod, Nat.add_right_comm, Nat.add_assoc]

theorem copyName_end {rest : Path} (hrest : EndsName rest) (count : Nat) (dest : Mem) :
    copyName rest count dest = (count, dest) := by
  rcases hrest with rfl | ⟨rest', rfl⟩
  · rfl
  · exact if_pos rfl

/-- What the search reads of a component: its length in 8 bits, and its name when there is
room for it. A component without room fills the array. -/
theorem get_next_dir_name_component {rest : Path} (hx : IsComponent x) (hrest : EndsName rest) :
    (get_next_dir_name (x ++ rest)).1 = x.length % 256 ∧
      (x.length ≤ 255 → TextOf (get_next_dir_name (x ++ rest)).2 x) ∧
      (255 < x.length → ∀ i < 256, (get_next_dir_name (x ++ rest)).2 i ≠ 0) := by
  have hslash : ∀ b ∈ x, b ≠ 0x2F := fun b hb => (hx.2 b hb).2
  have hnonzero := getD_ne_zero fun b hb => (hx.2 b hb).1
  unfold get_next_dir_name
  by_cases hroom : x.length ≤ 256
  · obtain ⟨dest, hcopy, hdest⟩ := copyName_append rest hslash (fun _ => 0)
      (by omega : 0 + x.length ≤ 256) (by omega)
    rw [hcopy, copyName_end hrest]
    refine ⟨by rw [Nat.zero_add], fun hlen i hi => ?_, fun hlen i hi => ?_⟩
    · show dest i = _
      rw [hdest i]
      split
      · rfl
      · exact (List.getD_eq_default _ _ (by omega)).symm
    · show dest i ≠ 0
      rw [hdest i, if_pos (by omega), Nat.sub_zero]
      exact (hnonzero i).mpr (by omega)
  · -- The first 256 characters fill the array, and the others are written over them.
    have htake : (x.take 256).length = 256 := by rw [List.length_take]; omega
    obtain ⟨dest, hcopy, hdest⟩ := copyName_append (x.drop 256 ++ rest)
      (fun b hb => hslash b (List.mem_of_mem_take hb)) (fun _ => 0)
      (by omega : 0 + (x.take 256).length ≤ 256) (by omega)
    have hfull : ∀ i < 256, dest i ≠ 0 := by
      intro i hi
      rw [hdest i, if_pos (by omega), Nat.sub_zero]
      exact (getD_ne_zero (fun b hb => (hx.2 b (List.mem_of_mem_take hb)).1) i).mpr (by omega)
    obtain ⟨dest', hcopy', hfull'⟩ := copyName_full rest
      (fun b hb => hx.2 b (List.mem_of_mem_drop hb)) (by omega : 0 < 256) hfull
    rw [htake, ← List.append_assoc, List.take_append_drop] at hcopy
    rw [hcopy, Nat.zero_add, Nat.mod_self, hcopy', copyName_end hrest, List.length_drop]
    exact ⟨by dsimp only; omega, fun hlen => absurd hlen (by omega), fun _ => hfull'⟩

/-- A name is compared with a component of the path. -/
theorem is_same_file_component {rest : Path} (hx : IsComponent x) (hrest : EndsName rest)
    (m : Mem) : is_same_file m (get_next_dir_name (x ++ rest)).2 = true ↔ Spells m x := by
  obtain ⟨-, hroom, hfull⟩ := get_next_dir_name_component hx hrest
  unfold is_same_file Spells
  by_cases hlen : x.length < 256
  · rw [and_iff_right hlen, sameFrom_iff (hroom (by omega))
      ⟨by omega, fun b hb => (hx.2 b hb).1⟩ (by omega) (Nat.zero_le _)]
    simp
  · rw [not_sameFrom_of_full (hfull (by omega)) (by omega)]
    exact iff_of_false Bool.false_ne_true fun h => hlen h.1

/-! ## The parts of a long name -/

/-- The text of a part is a piece of the name. -/
theorem takeWhile_units (n : Nat) {l : List Nat} (hl : ∀ u ∈ l, u ≠ 0) :
    ((List.range n).map fun j => (l ++ [0]).getD j 0xFFFF).takeWhile (· != 0) = l.take n := by
  induction n generalizing l with
  | zero => rfl
  | succ n ih =>
    rw [List.range_succ_eq_map, List.map_cons, List.map_map]
    cases l with
    | nil => rfl
    | cons u l =>
      have hu : (u != 0) = true := bne_iff_ne.mpr (hl u List.mem_cons_self)
      rw [List.take_succ_cons, ← ih fun v hv => hl v (List.mem_cons_of_mem _ hv)]
      exact List.takeWhile_cons_of_pos (p := (· != 0)) hu

variable {e : LongEntry} {q : Nat} {slot : Mem}

theorem partsCount_le (e : LongEntry) : partsCount e.name ≤ 20 := by
  have := e.length
  unfold partsCount
  omega

theorem readLFNEntry_part (hq : q + 1 ≤ partsCount e.name) (h : IsPart e.name (q + 1) slot) :
    readLFNEntry slot = (e.shown.drop (13 * q)).take 13 := by
  have hle : 13 * q ≤ e.name.length := by
    unfold partsCount at hq
    omega
  have hunits : (List.range 13).map (lfnUnit slot) =
      (List.range 13).map fun j => (e.name.drop (13 * q) ++ [0]).getD j 0xFFFF := by
    refine List.map_congr_left fun j hj => ?_
    rw [h.units j (List.mem_range.mp hj), Nat.add_sub_cancel, ← List.drop_append_of_le_length hle]
    simp only [List.getD_eq_getElem?_getD, List.getElem?_drop]
  unfold readLFNEntry
  rw [hunits, takeWhile_units 13 fun u hu => (e.units u (List.mem_of_mem_drop hu)).1, List.map_take,
    List.map_drop]
  rfl

theorem copyText_at (dest : Mem) (index : Nat) (text : Path) (i : Nat) :
    copyText dest index text i =
      if index ≤ i ∧ i < index + text.length then text.getD (i - index) 0 else dest i := by
  induction text generalizing dest index with
  | nil =>
    rw [if_neg (by simp only [List.length_nil]; omega)]
    rfl
  | cons ch text ih =>
    rw [copyText, ih, List.length_cons]
    by_cases hi : i = index
    · rw [hi, Function.update_self, if_neg (by omega), if_pos (by omega), Nat.sub_self]
      rfl
    · rw [Function.update_of_ne hi]
      by_cases hin : index + 1 ≤ i ∧ i < index + 1 + text.length
      · obtain ⟨k, rfl⟩ := Nat.exists_eq_add_of_le hin.1
        rw [if_pos hin, if_pos (by omega), Nat.add_sub_cancel_left,
          (by omega : index + 1 + k - index = k + 1), List.getD_cons_succ]
      · rw [if_neg hin, if_neg (by omega)]

/-- The number of a part, and the place of its text. -/
theorem part_number : ∀ q < 20, ∀ n < 21,
    let number := BitVec.ofNat 8 (if q + 1 = n then q + 1 + 64 else q + 1)
    (((~~~0x40#8 &&& number) - 1) * 13).toNat = 13 * q ∧
      (number == 0x1 || number == 0x41) = decide (q = 0) := by
  decide +kernel

theorem addPart_part (hq : q + 1 ≤ partsCount e.name) (h : IsPart e.name (q + 1) slot)
    (m : Mem) : addPart m slot = copyText m (13 * q) ((e.shown.drop (13 * q)).take 13) := by
  have hcount := partsCount_le e
  have hnumber := (part_number q (by omega) (partsCount e.name) (by omega)).1
  unfold addPart
  rw [readLFNEntry_part hq h, h.number]
  dsimp only at hnumber ⊢
  rw [hnumber]

theorem isFirstPart_part (hq : q + 1 ≤ partsCount e.name) (h : IsPart e.name (q + 1) slot) :
    isFirstPart slot = decide (q = 0) := by
  have hcount := partsCount_le e
  unfold isFirstPart
  rw [h.number]
  exact (part_number q (by omega) (partsCount e.name) (by omega)).2

/-- The parts above `q` are read. -/
def ReadDownTo (e : LongEntry) (q : Nat) (m : Mem) : Prop :=
  ∀ i < 256, m i = if 13 * q ≤ i then e.shown.getD i 0 else 0

theorem length_shown (e : LongEntry) : e.shown.length = e.name.length := List.length_map _

theorem readDownTo_start (e : LongEntry) : ReadDownTo e (partsCount e.name) fun _ => 0 := by
  intro i hi
  split
  · refine (List.getD_eq_default _ _ ?_).symm
    rw [length_shown]
    unfold partsCount at *
    omega
  · rfl

theorem readDownTo_part (hq : q + 1 ≤ partsCount e.name) (h : IsPart e.name (q + 1) slot)
    (hread : ReadDownTo e (q + 1) m) : ReadDownTo e q (addPart m slot) := by
  intro i hi
  have hlen : ((e.shown.drop (13 * q)).take 13).length = min 13 (e.name.length - 13 * q) := by
    rw [List.length_take, List.length_drop, length_shown]
  rw [addPart_part hq h, copyText_at, hlen, hread i hi]
  by_cases hin : 13 * q ≤ i ∧ i < 13 * q + min 13 (e.name.length - 13 * q)
  · obtain ⟨k, rfl⟩ := Nat.exists_eq_add_of_le hin.1
    rw [if_pos hin, if_pos hin.1, Nat.add_sub_cancel_left, List.getD_eq_getElem?_getD,
      List.getD_eq_getElem?_getD, List.getElem?_take_of_lt (by omega), List.getElem?_drop]
  · rw [if_neg hin]
    by_cases hle : 13 * q ≤ i
    · rw [if_pos hle]
      split
      · rfl
      · refine (List.getD_eq_default _ _ ?_).symm
        rw [length_shown]
        omega
    · rw [if_neg hle, if_neg (by omega)]

theorem textOf_of_read (h : ReadDownTo e 0 m) : TextOf m e.shown := by
  intro i hi
  rw [h i hi, if_pos (by omega)]

theorem isText_shown (e : LongEntry) : IsText e.shown := by
  refine ⟨(length_shown e).trans_le e.length, fun b hb => ?_⟩
  obtain ⟨u, hu, rfl⟩ := List.mem_map.mp hb
  obtain ⟨hzero, hmax⟩ := e.units u hu
  unfold ascii_for_utf_16
  rw [if_neg (by omega)]
  split
  · decide
  · intro hnul
    have := congrArg BitVec.toNat hnul
    rw [BitVec.toNat_ofNat] at this
    simp at this
    omega

/-! ## The entries of a sector -/

section
variable (descend : Nat → Nat → Except Stop Nat) (next_file_name : Mem)
  (next_index next_length : Nat)

/-- What the search does at the entry whose long name is read. -/
def atEntry (long_file_name : Mem) (entry : Mem) (rest : List Mem) : Except Stop Nat :=
  if is_same_file long_file_name next_file_name then
    if attribOf entry = 0x10 then
      descend (firstClusterOf entry) ((next_index + next_length + 1) % 2 ^ 32)
    else .ok (firstClusterOf entry)
  else if attribOf entry = 0x10 then
    match descend (firstClusterOf entry) next_index with
    | .error e => .error e
    | .ok first_cluster =>
      if first_cluster ≠ 0 then .ok first_cluster
      else entryLoop descend next_file_name next_index next_length none rest
  else entryLoop descend next_file_name next_index next_length none rest

/-- The inner loop goes through the parts of a name, down to the first one. -/
theorem entryLoop_parts {parts rest : List Mem} {entry : Mem} {name : Option Mem}
    (hparts : PartsFrom e.name (q + 1) parts) (hq : q + 1 ≤ partsCount e.name)
    (hread : ReadDownTo e (q + 1) (name.getD fun _ => 0)) :
    ∃ m, TextOf m e.shown ∧
      entryLoop descend next_file_name next_index next_length name (parts ++ entry :: rest) =
        atEntry descend next_file_name next_index next_length m entry rest := by
  induction q generalizing parts name with
  | zero =>
    obtain ⟨slot, parts, rfl, hpart, rfl⟩ := hparts
    refine ⟨_, textOf_of_read (readDownTo_part hq hpart hread), ?_⟩
    rw [List.cons_append, List.nil_append, entryLoop,
      if_neg (fun h => h.2 hpart.attrib), isFirstPart_part hq hpart, if_pos (by simp)]
    rfl
  | succ q ih =>
    obtain ⟨slot, parts, rfl, hpart, hparts⟩ := hparts
    have hread' : ReadDownTo e (q + 1)
        ((some (addPart (name.getD fun _ => 0) slot)).getD fun _ => 0) :=
      readDownTo_part hq hpart hread
    obtain ⟨m, htext, hloop⟩ := ih hparts (by omega) hread'
    refine ⟨m, htext, ?_⟩
    rw [List.cons_append, entryLoop, if_neg (fun h => h.2 hpart.attrib),
      isFirstPart_part hq hpart, if_neg (by simp)]
    exact hloop

/-- At an entry with its long name, the name is read as it is shown. -/
theorem entryLoop_entry (e : LongEntry) (rest : List Mem) :
    ∃ m, TextOf m e.shown ∧
      entryLoop descend next_file_name next_index next_length none (e.slots ++ rest) =
        atEntry descend next_file_name next_index next_length m e.slot rest := by
  have hlen := List.length_pos_iff.mpr e.nonempty
  obtain ⟨q, hq⟩ : ∃ q, partsCount e.name = q + 1 := by
    refine Nat.exists_eq_succ_of_ne_zero ?_
    unfold partsCount
    omega
  have hstart := readDownTo_start e
  have hparts := e.written
  rw [hq] at hstart hparts
  unfold LongEntry.slots
  rw [List.append_assoc]
  exact entryLoop_parts descend next_file_name next_index next_length hparts hq.ge hstart

end

end rpi_wifi.fat
