-- Where the two loops over the entries of a sector read and write. A part of a long name is
-- written where its number says, and nothing checks the number.
import RpiWifi.FatNames

namespace rpi_wifi.fat

open memory

/-! ## The loops, by their index -/

/-- What the loops do with their buffers. -/
inductive Event where
  | entry (index : Nat)
  | write (index : Nat)
  | name (long_file_name : Mem)
  | next (index : Nat)

/-- An entry lies in the 512 bytes of the sector, each write in an array of 256 bytes, and a name
that is compared or printed has a NUL. -/
def Event.InBounds : Event → Prop
  | .entry index => index + 32 ≤ 512
  | .write index => index < 256
  | .name long_file_name => ∃ i < 256, long_file_name i = 0
  | .next index => index < 256

def InBounds (events : List Event) : Prop := ∀ e ∈ events, e.InBounds

/-- The entry at an index of the sector. -/
def entryAt (buffer : Mem) (index : Nat) : Mem := fun j => if j < 32 then buffer (index + j) else 0

/-- `index1` -/
def index1 (slot : Mem) : Nat := (((~~~0x40#8 &&& slot 0) - 1) * 13).toNat

/-- The writes of `CopyUnAlignedString` for a part. -/
def partWrites (slot : Mem) : List Event :=
  (List.range' (index1 slot) (readLFNEntry slot).length).map .write

/-- The loops of `search_entries_in_sector` and of `print_entries_in_sector`, with what they do.
In the inner one there is a name. `visit` says what comes of an entry and its name: the function
returns with a result, or it goes on. -/
def sectorLoop (visit : Mem → Mem → Option (Except Stop Nat)) (buffer : Mem) :
    Nat → Option Mem → Nat → List Event × Except Stop Nat
  | 0, _, _ => ([], .error .running)
  | fuel + 1, name, index =>
    if index < 512 then
      let slot := entryAt buffer index
      if name = none ∧ attribOf slot ≠ 0x0F then
        if slot 0 = 0 then ([.entry index], .ok 0)
        else
          let rest := sectorLoop visit buffer fuel none (index + 32)
          (.entry index :: rest.1, rest.2)
      else
        let long_file_name := addPart (name.getD fun _ => 0) slot
        let events := .entry index :: partWrites slot
        if isFirstPart slot then
          let events := events ++ [.name long_file_name]
          let index := index + 32
          if 512 ≤ index then (events, .ok 0)
          else
            match visit long_file_name (entryAt buffer index) with
            | some result => (events ++ [.entry index], result)
            | none =>
              let rest := sectorLoop visit buffer fuel none (index + 32)
              (events ++ .entry index :: rest.1, rest.2)
        else
          let rest := sectorLoop visit buffer fuel (some long_file_name) (index + 32)
          (events ++ rest.1, rest.2)
    else ([], .ok 0)

/-- The search returns at the entry of the name, and at a directory of another name where it
finds something. -/
def searchVisit (descend : Nat → Nat → Except Stop Nat) (next_file_name : Mem)
    (next_index next_length : Nat) (long_file_name entry : Mem) : Option (Except Stop Nat) :=
  if is_same_file long_file_name next_file_name then
    if attribOf entry = 0x10 then
      some (descend (firstClusterOf entry) ((next_index + next_length + 1) % 2 ^ 32))
    else some (.ok (firstClusterOf entry))
  else if attribOf entry = 0x10 then
    match descend (firstClusterOf entry) next_index with
    | .error e => some (.error e)
    | .ok first_cluster => if first_cluster ≠ 0 then some (.ok first_cluster) else none
  else none

/-- The directories are printed, and the loop goes on where that comes to an end. -/
def printVisit (print_directory_contents : Nat → Except Stop Nat) (_long_file_name entry : Mem) :
    Option (Except Stop Nat) :=
  if attribOf entry = 0x10 then
    match print_directory_contents (firstClusterOf entry) with
    | .error e => some (.error e)
    | .ok _ => none
  else none

/-- Where `get_next_dir_name` writes. -/
def nextWrites : Path → Nat → List Event
  | [], _ => []
  | ch :: path, count =>
    if ch = 0x2F then [] else .next count :: nextWrites path ((count + 1) % 256)

/-- `search_entries_in_sector` behind the read of the sector. -/
def searchSector (descend : Nat → Nat → Except Stop Nat) (path : Path) (next_index : Nat)
    (buffer : Mem) : List Event × Except Stop Nat :=
  let next := get_next_dir_name (path.drop next_index)
  let writes := nextWrites (path.drop next_index) 0
  if next.1 = 0 then (writes, .ok 0)
  else
    let run := sectorLoop (searchVisit descend next.2 next_index next.1) buffer 17 none 0
    (writes ++ run.1, run.2)

/-- `print_entries_in_sector` behind the read of the sector. -/
def printSector (print_directory_contents : Nat → Except Stop Nat) (buffer : Mem) :
    List Event × Except Stop Nat :=
  sectorLoop (printVisit print_directory_contents) buffer 17 none 0

/-! ## The name sets of a sector -/

/-- The parts of a long name, as they stand in the sector. Behind the first part there is the
entry. -/
structure NameSet where
  parts : List Mem
  complete : Bool
  entry : Option Mem

/-- The sets that stand behind each other, where the parts of one have been met already. -/
def nameSets : List Mem → List Mem → List NameSet
  | [], parts => if parts = [] then [] else [⟨parts, false, none⟩]
  | slot :: rest, parts =>
    if parts = [] ∧ attribOf slot ≠ 0x0F then
      if slot 0 = 0 then [] else nameSets rest []
    else if isFirstPart slot then
      match rest with
      | [] => [⟨parts ++ [slot], true, none⟩]
      | entry :: rest => ⟨parts ++ [slot], true, some entry⟩ :: nameSets rest []
    else nameSets rest (parts ++ [slot])

/-- The name that is put together of parts. -/
def assembled (parts : List Mem) : Mem := parts.foldl addPart fun _ => 0

/-- A part has room for its characters behind the place that its number gives. -/
def PartFits (slot : Mem) : Prop := index1 slot + (readLFNEntry slot).length ≤ 256

/-- The character of a part for the place `i` of the name, if it has one. -/
def partChar (slot : Mem) (i : Nat) : Option (BitVec 8) :=
  if index1 slot ≤ i then (readLFNEntry slot)[i - index1 slot]? else none

/-- The parts have room, and they leave a place for the NUL: none of them has a character for
it, or the last one that has gives a zero. -/
def NameSet.Fits (set : NameSet) : Prop :=
  (∀ slot ∈ set.parts, PartFits slot) ∧
    (set.complete → ∃ i < 256, ∀ ch ∈ set.parts.reverse.findSome? (partChar · i), ch = 0)

/-- The sets up to the one where the function returns. -/
def reached (visit : Mem → Mem → Option (Except Stop Nat)) : List NameSet → List NameSet
  | [] => []
  | set :: sets =>
    match set.entry with
    | none => set :: reached visit sets
    | some entry =>
      if (visit (assembled set.parts) entry).isSome then [set] else set :: reached visit sets

/-! ## In bounds -/

variable {buffer : Mem} {i fuel : Nat} {visit : Mem → Mem → Option (Except Stop Nat)}

@[simp] theorem inBounds_nil : InBounds [] := by
  unfold InBounds
  simp

@[simp] theorem inBounds_cons {e : Event} {events : List Event} :
    InBounds (e :: events) ↔ e.InBounds ∧ InBounds events := by
  unfold InBounds
  exact List.forall_mem_cons

@[simp] theorem inBounds_append {events events' : List Event} :
    InBounds (events ++ events') ↔ InBounds events ∧ InBounds events' := by
  unfold InBounds
  exact List.forall_mem_append

theorem index1_lt (slot : Mem) : index1 slot < 256 := BitVec.isLt _

theorem partWrites_inBounds (slot : Mem) : InBounds (partWrites slot) ↔ PartFits slot := by
  have hlt := index1_lt slot
  unfold InBounds partWrites PartFits
  constructor
  · intro h
    by_contra hover
    have hwrite := h (.write 256) (by simp [List.mem_range'_1]; omega)
    exact absurd hwrite (by simp [Event.InBounds])
  · intro h e he
    obtain ⟨j, hj, rfl⟩ := List.mem_map.mp he
    have hj := List.mem_range'_1.mp hj
    simp only [Event.InBounds]
    omega

/-- The counter of `get_next_dir_name` has 8 bits. -/
theorem nextWrites_inBounds (path : Path) {count : Nat} (hcount : count < 256) :
    InBounds (nextWrites path count) := by
  induction path generalizing count with
  | nil => exact inBounds_nil
  | cons ch path ih =>
    unfold nextWrites
    split
    · exact inBounds_nil
    · exact inBounds_cons.mpr ⟨hcount, ih (Nat.mod_lt _ (by decide))⟩

/-! ## What the loop meets -/

/-- The slots from `i` on. -/
def slotsFrom (buffer : Mem) (i : Nat) : List Mem := (List.range' i (16 - i)).map (slotOf buffer)

theorem slotsFrom_end (buffer : Mem) : slotsFrom buffer 16 = [] := rfl

theorem slotsFrom_next (buffer : Mem) (hi : i < 16) :
    slotsFrom buffer i = entryAt buffer (32 * i) :: slotsFrom buffer (i + 1) := by
  unfold slotsFrom
  rw [(by omega : 16 - i = 16 - (i + 1) + 1), List.range'_succ, List.map_cons]
  rfl

theorem slotsFrom_zero (buffer : Mem) : slotsFrom buffer 0 = slotsOf buffer := by
  unfold slotsFrom slotsOf
  rw [List.range_eq_range']

/-- The loops over the slots that are left, the first of which has this index. -/
def slotLoop (visit : Mem → Mem → Option (Except Stop Nat)) :
    Nat → Option Mem → List Mem → List Event × Except Stop Nat
  | _, _, [] => ([], .ok 0)
  | index, name, slot :: rest =>
    if name = none ∧ attribOf slot ≠ 0x0F then
      if slot 0 = 0 then ([.entry index], .ok 0)
      else
        let run := slotLoop visit (index + 32) none rest
        (.entry index :: run.1, run.2)
    else
      let long_file_name := addPart (name.getD fun _ => 0) slot
      let events := .entry index :: partWrites slot
      if isFirstPart slot then
        let events := events ++ [.name long_file_name]
        match rest with
        | [] => (events, .ok 0)
        | entry :: rest =>
          match visit long_file_name entry with
          | some result => (events ++ [.entry (index + 32)], result)
          | none =>
            let run := slotLoop visit (index + 32 + 32) none rest
            (events ++ .entry (index + 32) :: run.1, run.2)
      else
        let run := slotLoop visit (index + 32) (some long_file_name) rest
        (events ++ run.1, run.2)

/-- The loops by their index are those over the slots. -/
theorem sectorLoop_eq (visit : Mem → Mem → Option (Except Stop Nat)) (buffer : Mem)
    (name : Option Mem) (hi : i ≤ 16) (hfuel : 16 < fuel + i) :
    sectorLoop visit buffer fuel name (32 * i) =
      slotLoop visit (32 * i) name (slotsFrom buffer i) := by
  induction fuel generalizing i name with
  | zero => omega
  | succ fuel ih =>
    unfold sectorLoop
    rcases Nat.lt_or_eq_of_le hi with hlt | rfl
    · have hnext := fun name => ih (i := i + 1) name hlt (by omega)
      rw [slotsFrom_next buffer hlt, if_pos (by omega : 32 * i < 512)]
      unfold slotLoop
      simp only [(Nat.mul_succ 32 i).symm, hnext]
      by_cases hlast : i + 1 = 16
      · have hslots : slotsFrom buffer (i + 1) = [] := by rw [hlast, slotsFrom_end]
        rw [hslots, if_pos (by omega : 512 ≤ 32 * i.succ)]
      · have hrest := ih (i := i + 2) none (by omega) (by omega)
        rw [slotsFrom_next buffer (by omega : i + 1 < 16), if_neg (by omega : ¬ 512 ≤ 32 * i.succ),
          ← Nat.mul_succ, hrest]
    · rw [slotsFrom_end, if_neg (by omega)]
      rfl

theorem sectorLoop_slots (visit : Mem → Mem → Option (Except Stop Nat)) (buffer : Mem) :
    sectorLoop visit buffer 17 none 0 = slotLoop visit 0 none (slotsOf buffer) := by
  rw [← slotsFrom_zero]
  exact sectorLoop_eq visit buffer none (Nat.zero_le 16) (by omega)

/-- What the inner loop has put together. -/
def nameOf (parts : List Mem) : Option Mem := if parts = [] then none else some (assembled parts)

theorem nameOf_eq_none {parts : List Mem} : nameOf parts = none ↔ parts = [] := by
  unfold nameOf
  split <;> simp [*]

theorem nameOf_getD (parts : List Mem) : ((nameOf parts).getD fun _ => 0) = assembled parts := by
  unfold nameOf
  split
  · next h => rw [h]; rfl
  · rfl

theorem assembled_concat (parts : List Mem) (slot : Mem) :
    assembled (parts ++ [slot]) = addPart (assembled parts) slot := by
  unfold assembled
  rw [List.foldl_append]
  rfl

theorem nameOf_concat (parts : List Mem) (slot : Mem) :
    nameOf (parts ++ [slot]) = some (addPart (assembled parts) slot) := by
  unfold nameOf
  rw [if_neg (by simp), assembled_concat]

theorem mem_reached_head (visit : Mem → Mem → Option (Except Stop Nat)) (set : NameSet)
    (sets : List NameSet) : set ∈ reached visit (set :: sets) := by
  unfold reached
  split
  · exact List.mem_cons_self
  · split <;> exact List.mem_cons_self

/-- A part that is not the first one is met. -/
theorem nameSets_part {slot : Mem} (hattrib : attribOf slot = 0x0F)
    (hfirst : isFirstPart slot = false) (rest : List Mem) :
    nameSets (slot :: rest) [] = nameSets rest [slot] := by
  conv_lhs => unfold nameSets
  rw [if_neg fun h => h.2 hattrib, if_neg (by simp [hfirst])]
  rfl

/-- The parts that are met already stand in a set that is reached. -/
theorem part_reached (visit : Mem → Mem → Option (Except Stop Nat)) (slots : List Mem)
    {parts : List Mem} {slot : Mem} (hslot : slot ∈ parts) :
    ∃ set ∈ reached visit (nameSets slots parts), slot ∈ set.parts := by
  induction slots generalizing parts with
  | nil =>
    unfold nameSets
    rw [if_neg (List.ne_nil_of_mem hslot)]
    exact ⟨_, mem_reached_head _ _ _, hslot⟩
  | cons first rest ih =>
    have hmem : slot ∈ parts ++ [first] := List.mem_append_left _ hslot
    unfold nameSets
    rw [if_neg fun h => List.ne_nil_of_mem hslot h.1]
    split
    · split <;> exact ⟨_, mem_reached_head _ _ _, hmem⟩
    · exact ih hmem

theorem addPart_at (m : Mem) (slot : Mem) (i : Nat) :
    addPart m slot i = (partChar slot i).getD (m i) := by
  have hcopy := copyText_at m (index1 slot) (readLFNEntry slot) i
  refine hcopy.trans ?_
  unfold partChar
  by_cases hle : index1 slot ≤ i
  · by_cases hlt : i < index1 slot + (readLFNEntry slot).length
    · have hin : i - index1 slot < (readLFNEntry slot).length := by omega
      rw [if_pos ⟨hle, hlt⟩, if_pos hle, List.getElem?_eq_getElem hin,
        List.getD_eq_getElem _ _ hin]
      rfl
    · rw [if_neg fun h => hlt h.2, if_pos hle, List.getElem?_eq_none (by omega)]
      rfl
  · rw [if_neg fun h => hle h.1, if_neg hle]
    rfl

/-- At each place of the name stands what the last part with a character for it has put there. -/
theorem assembled_at (parts : List Mem) (i : Nat) :
    assembled parts i = (parts.reverse.findSome? (partChar · i)).getD 0 := by
  induction parts using List.reverseRecOn with
  | nil => rfl
  | append_singleton parts slot ih =>
    rw [assembled_concat, addPart_at, ih, List.reverse_concat, List.findSome?_cons]
    cases partChar slot i <;> rfl

/-- The name has a NUL where its parts leave a place for it. -/
theorem name_inBounds (parts : List Mem) : (Event.name (assembled parts)).InBounds ↔
    ∃ i < 256, ∀ ch ∈ parts.reverse.findSome? (partChar · i), ch = 0 := by
  unfold Event.InBounds
  refine exists_congr fun i => and_congr_right fun _ => ?_
  rw [assembled_at]
  cases parts.reverse.findSome? (partChar · i) <;> simp

/-- A set that ends at its first part, with all its other parts in bounds. -/
theorem fits_concat {parts : List Mem} (hparts : ∀ part ∈ parts, PartFits part) (slot : Mem)
    (entry : Option Mem) :
    (NameSet.mk (parts ++ [slot]) true entry).Fits ↔
      PartFits slot ∧ (Event.name (addPart (assembled parts) slot)).InBounds := by
  unfold NameSet.Fits
  rw [List.forall_mem_append, and_iff_right hparts, List.forall_mem_singleton,
    ← assembled_concat, name_inBounds, forall_prop_of_true rfl]

/-- The loop over the slots of a sector stays in bounds exactly when the sets that it reaches
fit. -/
theorem slotLoop_inBounds (visit : Mem → Mem → Option (Except Stop Nat)) (slots parts : List Mem)
    {index : Nat} (hend : index + 32 * slots.length ≤ 512)
    (hparts : ∀ slot ∈ parts, PartFits slot) :
    InBounds (slotLoop visit index (nameOf parts) slots).1 ↔
      ∀ set ∈ reached visit (nameSets slots parts), set.Fits := by
  induction slots, parts using nameSets.induct generalizing index with
  | case1 => simp [slotLoop, nameSets, reached]
  | case2 parts hne => simpa [slotLoop, nameSets, hne, reached, NameSet.Fits] using hparts
  | case3 slot rest parts hshort hzero =>
    rw [List.length_cons] at hend
    have hentry : (Event.entry index).InBounds := by simp only [Event.InBounds]; omega
    unfold slotLoop nameSets
    rw [if_pos (by rwa [nameOf_eq_none]), if_pos hzero, if_pos hshort, if_pos hzero]
    simp [hentry, reached]
  | case4 slot rest parts hshort hzero ih =>
    rw [List.length_cons] at hend
    have hentry : (Event.entry index).InBounds := by simp only [Event.InBounds]; omega
    have hrest := @ih (index + 32) (by omega) (List.forall_mem_nil PartFits)
    unfold slotLoop nameSets
    rw [if_pos (by rwa [nameOf_eq_none]), if_neg hzero, if_pos hshort, if_neg hzero, inBounds_cons,
      and_iff_right hentry]
    exact hrest
  | case5 slot parts hshort hfirst =>
    rw [List.length_singleton] at hend
    have hentry : (Event.entry index).InBounds := by simp only [Event.InBounds]; omega
    unfold slotLoop nameSets
    rw [if_neg (by rwa [nameOf_eq_none]), if_neg hshort, if_pos hfirst, if_pos hfirst, nameOf_getD]
    simp [hentry, reached, fits_concat hparts, partWrites_inBounds]
  | case6 slot parts hshort hfirst entry rest ih =>
    simp only [List.length_cons] at hend
    have hentry : (Event.entry index).InBounds := by simp only [Event.InBounds]; omega
    have hsecond : (Event.entry (index + 32)).InBounds := by simp only [Event.InBounds]; omega
    have hset := fits_concat hparts slot (some entry)
    have hrest := @ih (index + 32 + 32) (by omega) (List.forall_mem_nil PartFits)
    unfold slotLoop nameSets
    rw [if_neg (by rwa [nameOf_eq_none]), if_neg hshort, if_pos hfirst, if_pos hfirst, nameOf_getD]
    dsimp only
    rw [reached]
    dsimp only
    rw [assembled_concat]
    cases hvisit : visit (addPart (assembled parts) slot) entry with
    | some result => simp [hset, hentry, hsecond, partWrites_inBounds]
    | none =>
      have hrest : InBounds (slotLoop visit (index + 32 + 32) none rest).1 ↔ _ := hrest
      simp [hset, hentry, hsecond, partWrites_inBounds, hrest, and_assoc]
  | case7 slot rest parts hshort hfirst ih =>
    rw [List.length_cons] at hend
    have hentry : (Event.entry index).InBounds := by simp only [Event.InBounds]; omega
    unfold slotLoop nameSets
    rw [if_neg (by rwa [nameOf_eq_none]), if_neg hshort, if_neg hfirst, if_neg hfirst, nameOf_getD,
      inBounds_append, inBounds_cons, partWrites_inBounds, and_iff_right hentry]
    by_cases hfits : PartFits slot
    · have hall : ∀ part ∈ parts ++ [slot], PartFits part :=
        List.forall_mem_append.mpr ⟨hparts, List.forall_mem_singleton.mpr hfits⟩
      have hrest := @ih (index + 32) (by omega) hall
      rw [nameOf_concat] at hrest
      rw [and_iff_right hfits]
      exact hrest
    · refine iff_of_false (fun h => hfits h.1) fun h => ?_
      obtain ⟨set, hmem, hpart⟩ := part_reached visit rest
        (List.mem_append_right parts List.mem_cons_self)
      exact hfits ((h set hmem).1 slot hpart)

/-! ## The two functions -/

section
variable (descend : Nat → Nat → Except Stop Nat) (next_file_name : Mem)
  (next_index next_length : Nat)

/-- At the entry of a name the search returns, or goes on behind it. -/
theorem atEntry_eq (long_file_name entry : Mem) (rest : List Mem) :
    atEntry descend next_file_name next_index next_length long_file_name entry rest =
      (searchVisit descend next_file_name next_index next_length long_file_name entry).elim
        (entryLoop descend next_file_name next_index next_length none rest) id := by
  unfold atEntry searchVisit
  split
  · split <;> rfl
  · split
    · cases descend (firstClusterOf entry) next_index with
      | error e => rfl
      | ok first_cluster =>
        dsimp only
        split <;> rfl
    · rfl

/-- The loop over the slots is the one over the entries. -/
theorem slotLoop_result (slots : List Mem) (name : Option Mem) (index : Nat) :
    (slotLoop (searchVisit descend next_file_name next_index next_length) index name slots).2 =
      entryLoop descend next_file_name next_index next_length name slots := by
  induction index, name, slots using slotLoop.induct
    (searchVisit descend next_file_name next_index next_length) with
  | case1 => rfl
  | case2 index name slot rest hshort hzero =>
    unfold slotLoop entryLoop
    rw [if_pos hshort, if_pos hshort, if_pos hzero, if_pos hzero]
  | case3 index name slot rest hshort hzero ih =>
    unfold slotLoop entryLoop
    rw [if_pos hshort, if_pos hshort, if_neg hzero, if_neg hzero]
    exact ih
  | case4 index name slot hshort hfirst =>
    unfold slotLoop entryLoop
    rw [if_neg hshort, if_neg hshort, if_pos hfirst, if_pos hfirst]
  | case5 index name slot hshort long_file_name hfirst entry rest result hvisit =>
    unfold slotLoop entryLoop
    rw [if_neg hshort, if_neg hshort, if_pos hfirst, if_pos hfirst]
    refine Eq.trans ?_ (atEntry_eq descend next_file_name next_index next_length long_file_name
      entry rest).symm
    unfold long_file_name at hvisit ⊢
    dsimp only
    rw [hvisit]
    rfl
  | case6 index name slot hshort long_file_name hfirst entry rest hvisit ih =>
    unfold slotLoop entryLoop
    rw [if_neg hshort, if_neg hshort, if_pos hfirst, if_pos hfirst]
    refine Eq.trans ?_ (atEntry_eq descend next_file_name next_index next_length long_file_name
      entry rest).symm
    unfold long_file_name at hvisit ⊢
    dsimp only
    rw [hvisit]
    exact ih
  | case7 index name slot rest hshort long_file_name hfirst ih =>
    unfold slotLoop entryLoop
    rw [if_neg hshort, if_neg hshort, if_neg hfirst, if_neg hfirst]
    exact ih

end

/-! ## What comes of the visits -/

/-- What comes of the visits of the entries behind the names. -/
def resultOf (visit : Mem → Mem → Option (Except Stop Nat)) : List NameSet → Except Stop Nat
  | [] => .ok 0
  | set :: sets =>
    (set.entry.bind (visit (assembled set.parts))).elim (resultOf visit sets) id

theorem resultOf_cons (visit : Mem → Mem → Option (Except Stop Nat)) (set : NameSet)
    (sets : List NameSet) :
    resultOf visit (set :: sets) =
      (set.entry.bind (visit (assembled set.parts))).elim (resultOf visit sets) id := rfl

/-- The result of the loop over the slots is what comes of these visits. -/
theorem slotLoop_resultOf (visit : Mem → Mem → Option (Except Stop Nat)) (slots parts : List Mem)
    (index : Nat) :
    (slotLoop visit index (nameOf parts) slots).2 = resultOf visit (nameSets slots parts) := by
  induction slots, parts using nameSets.induct generalizing index with
  | case1 => rfl
  | case2 parts hne =>
    unfold nameSets
    rw [if_neg hne]
    rfl
  | case3 slot rest parts hshort hzero =>
    unfold slotLoop nameSets
    rw [if_pos (by rwa [nameOf_eq_none]), if_pos hzero, if_pos hshort, if_pos hzero]
    rfl
  | case4 slot rest parts hshort hzero ih =>
    unfold slotLoop nameSets
    rw [if_pos (by rwa [nameOf_eq_none]), if_neg hzero, if_pos hshort, if_neg hzero]
    exact ih (index + 32)
  | case5 slot parts hshort hfirst =>
    unfold slotLoop nameSets
    rw [if_neg (by rwa [nameOf_eq_none]), if_neg hshort, if_pos hfirst, if_pos hfirst]
    rfl
  | case6 slot parts hshort hfirst entry rest ih =>
    unfold slotLoop nameSets
    rw [if_neg (by rwa [nameOf_eq_none]), if_neg hshort, if_pos hfirst, if_pos hfirst, nameOf_getD]
    dsimp only
    rw [resultOf_cons, Option.bind_some, assembled_concat]
    cases visit (addPart (assembled parts) slot) entry with
    | some result => rfl
    | none => exact ih (index + 32 + 32)
  | case7 slot rest parts hshort hfirst ih =>
    unfold slotLoop nameSets
    rw [if_neg (by rwa [nameOf_eq_none]), if_neg hshort, if_neg hfirst, if_neg hfirst, nameOf_getD,
      ← nameOf_concat]
    exact ih (index + 32)

theorem sectorLoop_all (visit : Mem → Mem → Option (Except Stop Nat)) (buffer : Mem) :
    (sectorLoop visit buffer 17 none 0).2 = resultOf visit (nameSets (slotsOf buffer) []) := by
  rw [sectorLoop_slots]
  exact slotLoop_resultOf visit (slotsOf buffer) [] 0

/-- What the search finds is what it finds here. -/
theorem search_entries_in_sector_eq (s : Fat) (descend : Nat → Nat → Except Stop Nat)
    {path : Path} {next_index n : Nat} (hread : s.block_read_handler.read n = some buffer)
    (hindex : next_index ≤ path.length) :
    search_entries_in_sector s path descend next_index n =
      (searchSector descend path next_index buffer).2 := by
  unfold search_entries_in_sector searchSector
  rw [hread]
  dsimp only
  rw [if_neg (by omega)]
  split
  · rfl
  · rw [sectorLoop_slots, slotLoop_result]

/-- The sets that the search of a sector reaches. -/
def searchedSets (descend : Nat → Nat → Except Stop Nat) (path : Path) (next_index : Nat)
    (buffer : Mem) : List NameSet :=
  let next := get_next_dir_name (path.drop next_index)
  if next.1 = 0 then []
  else reached (searchVisit descend next.2 next_index next.1) (nameSets (slotsOf buffer) [])

/-- The sets that are printed. -/
def printedSets (print_directory_contents : Nat → Except Stop Nat) (buffer : Mem) :
    List NameSet :=
  reached (printVisit print_directory_contents) (nameSets (slotsOf buffer) [])

theorem sectorLoop_start (visit : Mem → Mem → Option (Except Stop Nat)) (buffer : Mem) :
    InBounds (sectorLoop visit buffer 17 none 0).1 ↔
      ∀ set ∈ reached visit (nameSets (slotsOf buffer) []), set.Fits := by
  have hlen : 0 + 32 * (slotsOf buffer).length ≤ 512 := by simp [slotsOf]
  rw [sectorLoop_slots]
  exact slotLoop_inBounds visit (slotsOf buffer) [] hlen (List.forall_mem_nil PartFits)

/-- For every sector, path and place in it, whatever comes of the directories that the functions
go into: each of them stays in bounds exactly when the name sets that it reaches fit. -/
theorem the_long_names_stay_inside_iff (descend : Nat → Nat → Except Stop Nat)
    (print_directory_contents : Nat → Except Stop Nat) (path : Path) (next_index : Nat)
    (buffer : Mem) :
    (InBounds (searchSector descend path next_index buffer).1 ↔
        ∀ set ∈ searchedSets descend path next_index buffer, set.Fits) ∧
      (InBounds (printSector print_directory_contents buffer).1 ↔
        ∀ set ∈ printedSets print_directory_contents buffer, set.Fits) := by
  refine ⟨?_, sectorLoop_start _ _⟩
  have hnext := nextWrites_inBounds (path.drop next_index) (show 0 < 256 by decide)
  unfold searchSector searchedSets
  dsimp only
  split
  · simpa using hnext
  · rw [inBounds_append, and_iff_right hnext]
    exact sectorLoop_start _ _

/-- The first slot is the part 20 of a name, with all its thirteen characters. -/
def fullPart : Mem :=
  blockOf ([(0, 20), (11, 0x0F)] ++
    ([1, 3, 5, 7, 9] ++ [14, 16, 18, 20, 22, 24] ++ [28, 30]).map fun i => (i, 0x61))

/-- It is written behind the end of the array, in both functions. -/
theorem a_part_is_written_behind_the_name :
    ¬ InBounds (searchSector (fun _ _ => .ok 0) [0x2F, 0x61] 1 fullPart).1 ∧
      ¬ InBounds (printSector (fun _ => .ok 0) fullPart).1 := by
  have hpart : ¬ PartFits (slotOf fullPart 0) := by
    unfold PartFits
    decide +kernel
  have hsets : nameSets (slotsOf fullPart) [] =
      nameSets (slotsFrom fullPart 1) [slotOf fullPart 0] := by
    rw [← slotsFrom_zero, slotsFrom_next fullPart (by omega)]
    exact nameSets_part rfl (by decide +kernel) _
  have hloop : ∀ visit, ¬ InBounds (sectorLoop visit fullPart 17 none 0).1 := by
    intro visit h
    have hfits := (sectorLoop_start visit fullPart).mp h
    rw [hsets] at hfits
    obtain ⟨set, hmem, hslot⟩ := part_reached visit (slotsFrom fullPart 1)
      (List.mem_singleton.mpr (rfl : slotOf fullPart 0 = slotOf fullPart 0))
    exact hpart ((hfits set hmem).1 _ hslot)
  refine ⟨?_, hloop _⟩
  unfold searchSector
  dsimp only
  rw [if_neg (by decide), inBounds_append]
  exact fun h => hloop _ h.2

end rpi_wifi.fat
