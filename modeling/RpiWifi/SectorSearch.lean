-- The search of one sector, whatever whole entries stand in it: names of any length
-- come back from their parts, and the first entry of the name is the one that is found.
import RpiWifi.FatLookup

namespace rpi_wifi.fat

open memory

/-! ## What stands in the sector -/

/-- A live entry without a long name. -/
structure ShortEntry where
  slot : Mem
  live : slot 0 ≠ 0 ∧ slot 0 ≠ 0xE5 ∧ attribOf slot ≠ 0x0F

/-- A complete name set, with the short entry behind the parts, or a short entry alone. -/
inductive Whole where
  | set (e : LongEntry)
  | short (e : ShortEntry)

def Whole.slots : Whole → List Mem
  | .set e => e.slots
  | .short e => [e.slot]

/-- The name is ASCII, and the entry is none of a directory. The 16 slots of a sector have
room for the parts of 195 characters. -/
def Whole.IsFile : Whole → Prop
  | .set e => (∀ u ∈ e.name, u < 128) ∧ e.isDir = false
  | .short _ => True

/-- The search of a sector ends at the slot behind the items. -/
def EndsSector (rest : List Mem) : Prop := ∀ slot ∈ rest.head?, slot 0 = 0 ∧ attribOf slot ≠ 0x0F

/-- What is expected of the search: the first cluster of the first set of the name. -/
def firstSet (x : Path) : List Whole → Nat
  | [] => 0
  | .set e :: items => if e.name = unitsOf x then e.cluster else firstSet x items
  | .short _ :: items => firstSet x items

variable {x : Path} {items : List Whole} {e : LongEntry} {rest : List Mem}

/-! ## The search -/

theorem ascii_of_lt {u : Nat} (hzero : u ≠ 0) (hlt : u < 128) :
    ascii_for_utf_16 u = BitVec.ofNat 8 u := by
  unfold ascii_for_utf_16
  rw [if_neg (by omega), if_neg (by omega)]

/-- An ASCII name is shown character by character, so that nothing else is shown as it. -/
theorem shown_eq_iff (hascii : ∀ u ∈ e.name, u < 128) : e.shown = x ↔ e.name = unitsOf x := by
  have hshown : e.shown = e.name.map (BitVec.ofNat 8) :=
    List.map_congr_left fun u hu => ascii_of_lt (e.units u hu).1 (hascii u hu)
  have hback : unitsOf e.shown = e.name := by
    rw [hshown]
    unfold unitsOf
    rw [List.map_map]
    refine (List.map_congr_left fun u hu => ?_).trans (List.map_id _)
    have hlt := hascii u hu
    simp only [Function.comp_apply, BitVec.toNat_ofNat, id_eq]
    omega
  constructor
  · rintro rfl
    exact hback.symm
  · intro hname
    rw [← hback] at hname
    exact List.map_injective_iff.mpr BitVec.toNat_injective hname

section
variable {descend : Nat → Nat → Except Stop Nat} {next_file_name : Mem}
  {next_index next_length : Nat}

/-- A file is found where its name is the component, and passed otherwise. -/
theorem entryLoop_set (hname : ∀ m, is_same_file m next_file_name = true ↔ Spells m x)
    (hx : ∀ b ∈ x, b ≠ 0) (hfile : (Whole.set e).IsFile)
    (rest : List Mem) :
    entryLoop descend next_file_name next_index next_length none (e.slots ++ rest) =
      if e.name = unitsOf x then .ok e.cluster
      else entryLoop descend next_file_name next_index next_length none rest := by
  obtain ⟨hascii, hdir⟩ := hfile
  have hattrib : attribOf e.slot ≠ 0x10 := by
    intro hattrib
    rw [isDir_of_attrib hattrib] at hdir
    cases hdir
  obtain ⟨m, htext, hloop⟩ :=
    entryLoop_entry descend next_file_name next_index next_length e rest
  have hsame := ((hname m).trans (spells_iff htext (isText_shown e) hx)).trans
    (shown_eq_iff hascii)
  rw [hloop]
  unfold atEntry
  simp only [hsame, if_neg hattrib]
  rfl

theorem entryLoop_ends (hrest : EndsSector rest) :
    entryLoop descend next_file_name next_index next_length none rest = .ok 0 := by
  cases rest with
  | nil => rfl
  | cons slot rest =>
    obtain ⟨hzero, hattrib⟩ := hrest slot rfl
    rw [entryLoop, if_pos ⟨rfl, hattrib⟩, if_pos hzero]

theorem entryLoop_items (hname : ∀ m, is_same_file m next_file_name = true ↔ Spells m x)
    (hx : ∀ b ∈ x, b ≠ 0) (hfiles : ∀ i ∈ items, i.IsFile) (hrest : EndsSector rest) :
    entryLoop descend next_file_name next_index next_length none
      (items.flatMap Whole.slots ++ rest) = .ok (firstSet x items) := by
  induction items with
  | nil => exact entryLoop_ends hrest
  | cons i items ih =>
    have ih := ih fun j hj => hfiles j (List.mem_cons_of_mem _ hj)
    rw [List.flatMap_cons, List.append_assoc]
    cases i with
    | set e =>
      refine (entryLoop_set hname hx (hfiles _ List.mem_cons_self) _).trans ?_
      rw [ih, firstSet]
      split <;> rfl
    | short e =>
      obtain ⟨hused, -, hattrib⟩ := e.live
      show entryLoop _ _ _ _ none (e.slot :: (items.flatMap Whole.slots ++ rest)) = _
      rw [entryLoop, if_pos ⟨rfl, hattrib⟩, if_neg hused, ih, firstSet]

end

theorem firstSet_nil (items : List Whole) : firstSet [] items = 0 := by
  induction items with
  | nil => rfl
  | cons i items ih =>
    cases i with
    | set e => exact (if_neg e.nonempty).trans ih
    | short e => exact ih

/-- A sector of whole entries is searched exactly, for each component that there can be at a
place of the path. No directory is gone into. -/
theorem the_search_of_a_sector_is_exact (s : Fat) (descend : Nat → Nat → Except Stop Nat)
    (front x behind : Path) (n : Nat) (buffer : Mem) (items : List Whole) (rest : List Mem)
    (hread : s.block_read_handler.read n = some buffer)
    (hslots : slotsOf buffer = items.flatMap Whole.slots ++ rest) (hrest : EndsSector rest)
    (hfiles : ∀ i ∈ items, i.IsFile) (hx : ∀ b ∈ x, b ≠ 0 ∧ b ≠ 0x2F) (hlen : x.length < 256)
    (hbehind : EndsName behind) :
    search_entries_in_sector s (front ++ x ++ behind) descend front.length n =
      .ok (firstSet x items) := by
  unfold search_entries_in_sector
  rw [hread]
  have hdrop : (front ++ x ++ behind).drop front.length = x ++ behind := by
    rw [List.append_assoc, List.drop_left]
  dsimp only
  rw [if_neg (by simp only [List.length_append]; omega), hdrop, hslots]
  by_cases hempty : x = []
  · subst hempty
    rw [List.nil_append, get_next_dir_name, copyName_end hbehind, if_pos rfl, firstSet_nil]
  · have hcomponent : IsComponent x := ⟨hempty, hx⟩
    have hlength := (get_next_dir_name_component hcomponent hbehind).1
    have hpos := List.length_pos_iff.mpr hempty
    rw [if_neg (by omega)]
    exact entryLoop_items (is_same_file_component hcomponent hbehind) (fun b hb => (hx b hb).1)
      hfiles hrest

/-- Behind a set of another name, and the two entries without one, the file is found. -/
theorem the_search_finds_the_file :
    search_entries_in_sector docsFat (pathOf [docsName] ++ [0x2F] ++ longName ++ [])
      (fun _ _ => .ok 0) 6 4 = .ok 5 := by
  refine the_search_of_a_sector_is_exact docsFat _ (pathOf [docsName] ++ [0x2F]) longName [] 4
    docsBlock [.short ⟨slotOf docsBlock 0, by decide⟩, .short ⟨slotOf docsBlock 1, by decide⟩,
      .set otherFile, .set longFile] ((List.range' 7 9).map (slotOf docsBlock)) rfl rfl ?_ ?_
      (by decide) (by decide) (Or.inl rfl)
  · intro slot hslot
    obtain rfl : slotOf docsBlock 7 = slot := Option.some_inj.mp hslot
    exact ⟨rfl, by decide⟩
  · simp only [List.forall_mem_cons]
    exact ⟨trivial, trivial, ⟨by decide, by decide⟩, ⟨by decide, by decide⟩, by simp⟩

end rpi_wifi.fat
