-- The lookup of a path, against the tree of the volume. The search goes into
-- directories of other names too, and takes the first entry of the name that it meets.
import RpiWifi.FatPaths

namespace rpi_wifi.fat

open memory first_found Filter

/-! ## The place in the path -/

/-- At `next_index` the components stand that are still to be looked up. Behind the last one
there is the NUL, and behind that the index. -/
structure At (path : Path) (next_index : Nat) (components : List Path) : Prop where
  place : ∃ done, path = pathOf (done ++ components) ∧ next_index = (pathOf done).length + 1
  components : ∀ x ∈ components, IsComponent x
  short : path.length + 1 < 2 ^ 32

section
variable {path x : Path} {next_index : Nat} {components rest : List Path}

theorem pathOf_append (components rest : List Path) :
    pathOf (components ++ rest) = pathOf components ++ pathOf rest := List.flatMap_append

theorem pathOf_cons (x : Path) (rest : List Path) :
    pathOf (x :: rest) = 0x2F :: (x ++ pathOf rest) := rfl

theorem endsName_pathOf (rest : List Path) : EndsName (pathOf rest) := by
  cases rest with
  | nil => exact Or.inl rfl
  | cons y rest => exact Or.inr ⟨_, rfl⟩

/-- Behind a component comes the next one. -/
theorem At.next (h : At path next_index (x :: rest)) :
    At path ((next_index + x.length + 1) % 2 ^ 32) rest := by
  obtain ⟨done, hpath, rfl⟩ := h.place
  have hshort := h.short
  have hlen := congrArg List.length hpath
  rw [pathOf_append, pathOf_cons, List.length_append, List.length_cons, List.length_append] at hlen
  refine ⟨⟨done ++ [x], ?_, ?_⟩, fun y hy => h.components y (List.mem_cons_of_mem _ hy), hshort⟩
  · rw [hpath, List.append_assoc, List.singleton_append]
  · have hdone : (pathOf (done ++ [x])).length = (pathOf done).length + (x.length + 1) := by
      simp [pathOf]
    rw [hdone, Nat.mod_eq_of_lt (by omega)]
    omega

/-- A path of one component at least starts with its first one. -/
theorem at_start (hcomponents : ∀ x ∈ components, IsComponent x)
    (hlen : (pathOf components).length + 1 < 2 ^ 32) : At (pathOf components) 1 components :=
  ⟨⟨[], rfl, rfl⟩, hcomponents, hlen⟩

theorem At.inside (h : At path next_index (x :: rest)) : next_index ≤ path.length := by
  obtain ⟨done, rfl, rfl⟩ := h.place
  rw [pathOf_append, pathOf_cons, List.length_append, List.length_cons]
  omega

theorem At.drop (h : At path next_index (x :: rest)) :
    path.drop next_index = x ++ pathOf rest := by
  obtain ⟨done, rfl, rfl⟩ := h.place
  rw [pathOf_append, ← List.drop_drop, List.drop_left, pathOf_cons, List.drop_succ_cons,
    List.drop_zero]

theorem At.behind (h : At path next_index []) : path.length < next_index := by
  obtain ⟨done, rfl, rfl⟩ := h.place
  rw [List.append_nil]
  omega

theorem At.component (h : At path next_index (x :: rest)) : IsComponent x :=
  h.components x List.mem_cons_self

end

/-! ## Searching a sector -/

section
variable (descend : Nat → Nat → Except Stop Nat) (next_index next_length : Nat)

/-- What the search gives at the entry of the name. -/
def atName (entry : Mem) : Except Stop Nat :=
  if attribOf entry = 0x10 then
    descend (firstClusterOf entry) ((next_index + next_length + 1) % 2 ^ 32)
  else .ok (firstClusterOf entry)

end

section
variable {descend : Nat → Nat → Except Stop Nat} {next_file_name : Mem}
  {next_index next_length : Nat} {x : Path}

/-- What the search gives at a set: it goes on, or it is done. -/
theorem visit_eq (hname : ∀ m, is_same_file m next_file_name = true ↔ Spells m x)
    (set : NameSet) :
    set.entry.bind
        (searchVisit descend next_file_name next_index next_length (assembled set.parts)) =
      match set.named x with
      | some entry => some (atName descend next_index next_length entry)
      | none => (set.entry.bind directoryOf).bind fun d =>
        match descend d next_index with
        | .error e => some (.error e)
        | .ok first_cluster => if first_cluster ≠ 0 then some (.ok first_cluster) else none := by
  unfold NameSet.named
  cases set.entry with
  | none => simp
  | some entry =>
    rw [Option.bind_some, searchVisit]
    simp only [hname]
    by_cases hspells : Spells (assembled set.parts) x
    · rw [if_pos hspells, if_pos hspells]
      dsimp only [atName]
      by_cases hattrib : attribOf entry = 0x10
      · rw [if_pos hattrib, if_pos hattrib]
      · rw [if_neg hattrib, if_neg hattrib]
    · rw [if_neg hspells, if_neg hspells, Option.bind_some]
      unfold directoryOf
      by_cases hattrib : attribOf entry = 0x10
      · rw [if_pos hattrib, if_pos hattrib]
        rfl
      · rw [if_neg hattrib, if_neg hattrib]
        rfl

/-- Where nothing is found in the directories that the search goes into, the sector gives what
the entry of the name gives. -/
theorem resultOf_met (hname : ∀ m, is_same_file m next_file_name = true ↔ Spells m x)
    {sets : List NameSet} (hentered : ∀ d ∈ entered x sets, descend d next_index = .ok 0) :
    resultOf (searchVisit descend next_file_name next_index next_length) sets =
      (met x sets).elim (.ok 0) (atName descend next_index next_length) := by
  induction sets with
  | nil => rfl
  | cons set sets ih =>
    unfold met entered at *
    rw [resultOf_cons, visit_eq hname, List.findSome?_cons]
    cases hnamed : set.named x with
    | some entry => rfl
    | none =>
      rw [List.takeWhile_cons_of_pos (by rw [hnamed]; rfl), List.filterMap_cons] at hentered
      cases hdirectory : set.entry.bind directoryOf with
      | none =>
        rw [hdirectory] at hentered
        exact ih hentered
      | some d =>
        rw [hdirectory] at hentered
        obtain ⟨hd, hrest⟩ := List.forall_mem_cons.mp hentered
        dsimp only
        rw [Option.bind_some, hd]
        exact ih hrest

/-- Where a sector gives nothing, nothing is found in the directories either. -/
theorem entered_of_resultOf (hname : ∀ m, is_same_file m next_file_name = true ↔ Spells m x)
    {sets : List NameSet}
    (h : resultOf (searchVisit descend next_file_name next_index next_length) sets = .ok 0) :
    ∀ d ∈ entered x sets, descend d next_index = .ok 0 := by
  induction sets with
  | nil => simp [entered]
  | cons set sets ih =>
    unfold entered at *
    rw [resultOf_cons, visit_eq hname] at h
    cases hnamed : set.named x with
    | some entry => simp [hnamed]
    | none =>
      rw [List.takeWhile_cons_of_pos (by rw [hnamed]; rfl), List.filterMap_cons]
      rw [hnamed] at h
      cases hdirectory : set.entry.bind directoryOf with
      | none =>
        rw [hdirectory] at h
        exact ih h
      | some d =>
        rw [hdirectory] at h
        dsimp only at h ⊢
        rw [Option.bind_some] at h
        cases hd : descend d next_index with
        | error e =>
          rw [hd] at h
          cases h
        | ok first_cluster =>
          rw [hd] at h
          dsimp only at h
          by_cases hzero : first_cluster = 0
          · subst hzero
            rw [if_neg (not_not.mpr rfl)] at h
            exact List.forall_mem_cons.mpr ⟨hd, ih h⟩
          · rw [if_pos hzero] at h
            exact absurd (Except.ok.inj h) hzero

end

section
variable {s : Fat} {path x : Path} {next_index n : Nat} {rest : List Path}
  {descend : Nat → Nat → Except Stop Nat}

/-- The search of a sector is one of its name sets. -/
theorem search_sector_eq (hat : At path next_index (x :: rest))
    (descend : Nat → Nat → Except Stop Nat) (n : Nat) :
    search_entries_in_sector s path descend next_index n =
      resultOf (searchVisit descend (get_next_dir_name (path.drop next_index)).2 next_index
        (x.length % 256)) (setsIn s x n) := by
  have hlength := (get_next_dir_name_component hat.component (endsName_pathOf rest)).1
  rw [← hat.drop] at hlength
  unfold setsIn
  cases hread : s.block_read_handler.read n with
  | none =>
    unfold search_entries_in_sector
    rw [hread]
    dsimp only [Option.map_none, Option.getD_none]
    rw [ite_self]
    rfl
  | some buffer =>
    rw [search_entries_in_sector_eq s descend hread hat.inside]
    unfold searchSector
    dsimp only [Option.map_some, Option.getD_some]
    rw [hlength]
    split
    · rfl
    · rw [sectorLoop_all]

/-- The name of a component, in the path where it stands. -/
theorem At.named (hat : At path next_index (x :: rest)) (m : Mem) :
    is_same_file m (get_next_dir_name (path.drop next_index)).2 = true ↔ Spells m x := by
  rw [hat.drop]
  exact is_same_file_component hat.component (endsName_pathOf rest) m

/-- The length of a name that is met is not cut off. -/
theorem length_of_met {sets : List NameSet} {entry : Mem} (h : met x sets = some entry) :
    x.length % 256 = x.length := by
  obtain ⟨set, -, hnamed⟩ := List.exists_of_findSome?_eq_some h
  unfold NameSet.named at hnamed
  split at hnamed
  · next hspells => exact Nat.mod_eq_of_lt hspells.1
  · cases hnamed

/-- Nothing comes of a sector exactly when nothing comes of the directories that the search goes
into and of the entry of the name. -/
theorem search_sector_nothing (hat : At path next_index (x :: rest)) :
    search_entries_in_sector s path descend next_index n = .ok 0 ↔
      (∀ d ∈ entered x (setsIn s x n), descend d next_index = .ok 0) ∧
        ∀ entry ∈ met x (setsIn s x n), atName descend next_index x.length entry = .ok 0 := by
  rw [search_sector_eq hat]
  constructor
  · intro h
    have hentered := entered_of_resultOf hat.named h
    refine ⟨hentered, fun entry hentry => ?_⟩
    rw [resultOf_met hat.named hentered, hentry, length_of_met hentry] at h
    exact h
  · rintro ⟨hentered, hmet⟩
    rw [resultOf_met hat.named hentered]
    cases hentry : met x (setsIn s x n) with
    | none => rfl
    | some entry =>
      rw [length_of_met hentry]
      exact hmet entry hentry

/-- What comes of a sector where the search comes to the entry of the name. -/
theorem search_sector_met (hat : At path next_index (x :: rest))
    (hentered : ∀ d ∈ entered x (setsIn s x n), descend d next_index = .ok 0) {entry : Mem}
    (hmet : met x (setsIn s x n) = some entry) :
    search_entries_in_sector s path descend next_index n =
      atName descend next_index x.length entry := by
  rw [search_sector_eq hat, resultOf_met hat.named hentered, hmet, length_of_met hmet]
  rfl

/-- Behind the end of the path a sector is not searched but where it cannot be read. -/
theorem search_sector_behind (hat : At path next_index []) :
    search_entries_in_sector s path descend next_index n = .ok 0 ↔
      s.block_read_handler.read n = none := by
  unfold search_entries_in_sector
  cases s.block_read_handler.read n with
  | none => simp
  | some buffer => simp [hat.behind]

end

/-! ## Searching a directory -/

/-- With enough fuel for what is below it, each of a list of searches is done. -/
theorem eventually_all {α : Type} {l : List α} {P : α → Nat → Prop}
    (h : ∀ a ∈ l, ∀ᶠ fuel in atTop, P a fuel) : ∀ᶠ fuel in atTop, ∀ a ∈ l, P a fuel :=
  (eventually_all_finite (List.finite_toSet l)).mpr h

/-- What holds of the fuel of the calls below holds of the fuel of the call. -/
theorem eventually_succ {P : Nat → Prop} (h : ∀ᶠ fuel in atTop, P (fuel + 1)) :
    ∀ᶠ fuel in atTop, P fuel := by
  rw [← map_add_atTop_eq_nat 1]
  exact h

section
variable {s : Fat} {content : Nat → List Item} {path x : Path} {components rest : List Path}
  {junk : Nat → Nat → Mem} {fuel c next_index r : Nat} {visited : List Nat}

/-- The sectors of a cluster are searched one by one. -/
theorem search_cluster_nothing {descend : Nat → Nat → Except Stop Nat} {d : Nat} :
    search_directory_cluster_contents s path descend next_index d = .ok 0 ↔
      ∀ n ∈ sectorsOf s d, search_entries_in_sector s path descend next_index n = .ok 0 :=
  firstFound_eq_nothing

/-- A search goes along its trail when nothing comes of the sectors there. -/
theorem search_of_trail (hs : IsFat32 s) (hfirst : ReadsFirst s c) (htrail : Trail s c visited)
    (hfuel : visited.length ≤ fuel)
    (h : ∀ n ∈ visited.flatMap (sectorsOf s), search_entries_in_sector s path
      (search_directory_contents s path junk fuel) next_index n = .ok 0) :
    search_directory_contents s path junk (fuel + 1) c next_index = .ok 0 := by
  have hnothing : ∀ d ∈ visited, search_directory_cluster_contents s path
      (search_directory_contents s path junk fuel) next_index d = .ok 0 :=
    fun d hd => search_cluster_nothing.mpr fun n hn => h n (List.mem_flatMap.mpr ⟨d, hd, hn⟩)
  have hcached : isStop c = false → 0 = (getFatEntrySectorAndOffset s c).1 →
      Holds s 0 (junk fuel 0) := hfirst.cached
  have hloop := clusterLoop_of_trail hs htrail hnothing hcached (Nat.lt_succ_of_le hfuel)
    fun k => junk fuel (k + 1)
  rw [search_directory_contents, hloop]

/-- Where a search finds nothing, it has gone along a trail, and nothing has come of the
sectors there. -/
theorem trail_of_search (hs : IsFat32 s) (hzero : BehindSectorZero s)
    (h : search_directory_contents s path junk (fuel + 1) c next_index = .ok 0) :
    ∃ visited, Trail s c visited ∧ ∀ n ∈ visited.flatMap (sectorsOf s),
      search_entries_in_sector s path (search_directory_contents s path junk fuel) next_index n =
        .ok 0 := by
  rw [search_directory_contents] at h
  split at h
  · cases h
  · next visited result hloop =>
    cases h
    have hnothing := visits_of_clusterLoop hloop
    refine ⟨visited, trail_of_clusterLoop hs (fun h => absurd h.symm (hzero c)) hloop
      hnothing, ?_⟩
    intro n hn
    obtain ⟨d, hd, hmem⟩ := List.mem_flatMap.mp hn
    exact search_cluster_nothing.mp (hnothing d hd) n hmem

/-- A search goes along the clusters, up to the sector where something is found. -/
theorem search_of_along (hs : IsFat32 s) (hfirst : ReadsFirst s c) (halong : Along s c visited)
    (hfuel : visited.length ≤ fuel)
    (hfound : firstFound 0 (search_entries_in_sector s path
      (search_directory_contents s path junk fuel) next_index)
      (visited.flatMap (sectorsOf s)) = .ok r) (hr : r ≠ 0) :
    search_directory_contents s path junk (fuel + 1) c next_index = .ok r := by
  rw [firstFound_flatMap] at hfound
  have hcached : isStop c = false → 0 = (getFatEntrySectorAndOffset s c).1 →
      Holds s 0 (junk fuel 0) := hfirst.cached
  obtain ⟨visited, hloop⟩ := clusterLoop_of_along hs halong hfound hr hcached
    (Nat.le_succ_of_le hfuel) fun k => junk fuel (k + 1)
  rw [search_directory_contents]
  unfold search_directory_cluster_contents
  rw [hloop]

/-! ## Down the tree -/

/-- With enough fuel, nothing is found where the search is quiet. -/
theorem Quiet.search (hs : IsFat32 s) (h : Quiet s c components) :
    ∀ᶠ fuel in atTop, ∀ junk path next_index, At path next_index components →
      search_directory_contents s path junk fuel c next_index = .ok 0 := by
  induction h with
  | @dir c x rest visited hfirst htrail hentered hfile hbelow ihentered ihbelow =>
    have hdirectories := eventually_all fun n hn =>
      eventually_all fun d hd => ihentered n hn d hd
    have hentries := eventually_all (l := visited.flatMap (sectorsOf s)) fun n hn =>
      eventually_all (l := (met x (setsIn s x n)).toList) fun entry hentry =>
        eventually_imp_distrib_left.mpr (ihbelow n hn entry (Option.mem_toList.mp hentry))
    refine eventually_succ ?_
    filter_upwards [hdirectories, hentries, eventually_ge_atTop visited.length] with fuel
      hdirectories hentries hfuel
    intro junk path next_index hat
    refine search_of_trail hs hfirst htrail hfuel fun n hn =>
      (search_sector_nothing hat).mpr ⟨fun d hd => ?_, fun entry hentry => ?_⟩
    · exact hdirectories n hn d hd junk path next_index hat
    · unfold atName
      split
      · next hattrib =>
        exact hentries n hn entry (Option.mem_toList.mpr hentry) hattrib junk path _ hat.next
      · next hattrib => rw [hfile n hn entry hentry hattrib]
  | @behind c visited hfirst htrail hunread =>
    refine eventually_succ ?_
    filter_upwards [eventually_ge_atTop visited.length] with fuel hfuel
    intro junk path next_index hat
    exact search_of_trail hs hfirst htrail hfuel fun n hn =>
      (search_sector_behind hat).mpr (hunread n hn)

/-- Where a search finds nothing, it is quiet. -/
theorem quiet_of_search (hs : IsFat32 s) (hzero : BehindSectorZero s)
    (hat : At path next_index components)
    (h : search_directory_contents s path junk fuel c next_index = .ok 0) :
    Quiet s c components := by
  induction fuel generalizing c next_index components with
  | zero => cases h
  | succ fuel ih =>
    obtain ⟨visited, htrail, hsectors⟩ := trail_of_search hs hzero h
    cases components with
    | nil =>
      exact .behind (fun _ => hzero c) htrail fun n hn =>
        (search_sector_behind hat).mp (hsectors n hn)
    | cons x rest =>
      have hsectors := fun n hn => (search_sector_nothing hat).mp (hsectors n hn)
      refine .dir (fun _ => hzero c) htrail (fun n hn d hd => ?_) (fun n hn entry hentry hattrib => ?_)
        fun n hn entry hentry hattrib => ?_
      · exact ih hat ((hsectors n hn).1 d hd)
      · have hfile := (hsectors n hn).2 entry hentry
        unfold atName at hfile
        rw [if_neg hattrib] at hfile
        exact Except.ok.inj hfile
      · have hbelow := (hsectors n hn).2 entry hentry
        unfold atName at hbelow
        rw [if_pos hattrib] at hbelow
        exact ih hat.next hbelow

/-- A search that comes to an entry gives what the entry gives. -/
theorem ComesTo.search (hs : IsFat32 s) {entry : Mem} (h : ComesTo s c x rest entry) (hr : r ≠ 0)
    (hgives : ∀ᶠ fuel in atTop, ∀ junk path next_index, At path next_index (x :: rest) →
      atName (search_directory_contents s path junk fuel) next_index x.length entry = .ok r) :
    ∀ᶠ fuel in atTop, ∀ junk path next_index, At path next_index (x :: rest) →
      search_directory_contents s path junk fuel c next_index = .ok r := by
  obtain ⟨hfirst, visited, before, n, behind, halong, hsectors, hbefore, hentered, hmet⟩ := h
  have hpassed := eventually_all fun m hm =>
    eventually_all fun d hd => ((hbefore m hm).entered d hd).search hs
  have hempty := eventually_all (l := before) fun m hm =>
    eventually_all (l := (met x (setsIn s x m)).toList) fun entry hentry =>
      eventually_imp_distrib_left.mpr fun hattrib =>
        ((hbefore m hm).directory entry (Option.mem_toList.mp hentry) hattrib).search hs
  have hhere := eventually_all fun d hd => (hentered d hd).search hs
  refine eventually_succ ?_
  filter_upwards [hpassed, hempty, hhere, hgives, eventually_ge_atTop visited.length] with fuel
    hpassed hempty hhere hgives hfuel
  intro junk path next_index hat
  refine search_of_along hs hfirst halong hfuel ?_ hr
  have hbefore' : ∀ m ∈ before, search_entries_in_sector s path
      (search_directory_contents s path junk fuel) next_index m = .ok 0 := by
    intro m hm
    refine (search_sector_nothing hat).mpr ⟨fun d hd => ?_, fun entry hentry => ?_⟩
    · exact hpassed m hm d hd junk path next_index hat
    · unfold atName
      split
      · next hattrib =>
        exact hempty m hm entry (Option.mem_toList.mpr hentry) hattrib junk path _ hat.next
      · next hattrib => rw [(hbefore m hm).file entry hentry hattrib]
  have hsector : search_entries_in_sector s path (search_directory_contents s path junk fuel)
      next_index n = .ok r :=
    (search_sector_met hat (fun d hd => hhere d hd junk path next_index hat) hmet).trans
      (hgives junk path next_index hat)
  rw [hsectors, firstFound_passed hbefore', firstFound_cons_found hsector hr]

theorem isDir_of_attrib {e : LongEntry} (h : attribOf e.slot = 0x10) : e.isDir = true := by
  unfold LongEntry.isDir
  rw [h]
  rfl

theorem lookup_cons (content : Nat → List Item) (c : Nat) (x : Path) (rest : List Path) :
    lookup content c (x :: rest) = ((findEntry (content c) x).map (valueOf content rest)).getD 0 := by
  unfold lookup valueOf
  cases findEntry (content c) x <;> rfl

/-- A lookup that stays on the path finds what the path names. -/
theorem Direct.search (hs : IsFat32 s) (h : Direct s content c (x :: rest)) :
    ∀ᶠ fuel in atTop, ∀ junk path next_index, At path next_index (x :: rest) →
      search_directory_contents s path junk fuel c next_index =
        .ok (lookup content c (x :: rest)) := by
  induction rest generalizing c x with
  | nil =>
    rw [Direct] at h
    rcases h with ⟨hnothing, hquiet⟩ | ⟨e, hentry, hcomes, hvalue, -⟩
    · rw [hnothing]
      exact hquiet.search hs
    · rw [lookup_cons, hentry, Option.map_some, Option.getD_some]
      refine hcomes.search hs hvalue (Eventually.of_forall fun fuel junk path next_index hat => ?_)
      unfold valueOf at hvalue ⊢
      rw [if_pos rfl] at hvalue ⊢
      have hfile : e.isDir ≠ true := fun hdir => hvalue (if_pos hdir)
      have hattrib : attribOf e.slot ≠ 0x10 := fun h => hfile (isDir_of_attrib h)
      unfold atName
      rw [if_neg hattrib, if_neg hfile]
      rfl
  | cons y rest ih =>
    rw [Direct] at h
    rcases h with ⟨hnothing, hquiet⟩ | ⟨e, hentry, hcomes, hvalue, hgoes⟩
    · rw [hnothing]
      exact hquiet.search hs
    · obtain ⟨hattrib, hdirect⟩ := hgoes (List.cons_ne_nil _ _)
      rw [lookup_cons, hentry, Option.map_some, Option.getD_some]
      refine hcomes.search hs hvalue ?_
      filter_upwards [ih hdirect] with fuel hbelow
      intro junk path next_index hat
      unfold atName valueOf
      rw [if_pos hattrib, if_neg (List.cons_ne_nil _ _), if_pos (isDir_of_attrib hattrib)]
      exact hbelow junk path _ hat.next

/-- The lookup of an absolute path is the search for its components from the root directory. -/
theorem get_file_size_eq (hat : At (pathOf (x :: rest)) 1 (x :: rest)) :
    get_file_size s (pathOf (x :: rest)) junk fuel =
      search_directory_contents s (pathOf (x :: rest)) junk fuel
        s.current_sd_partition.rootCluster 1 := by
  have hslash : (pathOf (x :: rest)).head? = some 0x2F := rfl
  unfold get_file_size find_file_in_directory
  rw [if_neg (not_not.mpr hslash), if_neg (not_lt.mpr hat.inside)]

/-- With enough fuel, the lookup that stays on the path gives what the path names. -/
theorem Direct.get_file_size (hs : IsFat32 s) (hne : components ≠ [])
    (hcomponents : ∀ x ∈ components, IsComponent x)
    (hlen : (pathOf components).length + 1 < 2 ^ 32)
    (hdirect : Direct s content s.current_sd_partition.rootCluster components) :
    ∀ᶠ fuel in atTop, ∀ junk, fat.get_file_size s (pathOf components) junk fuel =
      .ok (lookup content s.current_sd_partition.rootCluster components) := by
  obtain ⟨x, rest, rfl⟩ := List.exists_cons_of_ne_nil hne
  have hat := at_start hcomponents hlen
  filter_upwards [hdirect.search hs] with fuel hfuel
  intro junk
  rw [get_file_size_eq hat]
  exact hfuel junk _ 1 hat

/-- On a FAT32 volume the lookup of an absolute path is exact where it stays on the path. Where the
path leads to no file, it is exact only there. -/
theorem the_direct_lookup_is_exact (hvolume : Volume s content) (hne : components ≠ [])
    (hcomponents : ∀ x ∈ components, IsComponent x)
    (hlen : (pathOf components).length + 1 < 2 ^ 32) :
    (Direct s content s.current_sd_partition.rootCluster components →
        LookupExact s content components) ∧
      (BehindSectorZero s → lookup content s.current_sd_partition.rootCluster components = 0 →
        LookupExact s content components →
          Direct s content s.current_sd_partition.rootCluster components) := by
  have hs := hvolume.toIsFat32
  refine ⟨fun hdirect => (hdirect.get_file_size hs hne hcomponents hlen).exists, ?_⟩
  rintro hzero hnothing ⟨fuel, hexact⟩
  obtain ⟨x, rest, rfl⟩ := List.exists_cons_of_ne_nil hne
  have hat := at_start hcomponents hlen
  have hsearch := hexact fun _ _ _ => 0
  rw [get_file_size_eq hat, hnothing] at hsearch
  exact Or.inl ⟨hnothing, quiet_of_search hs hzero hat hsearch⟩

end

/-! ## A card with one file -/

/-- The only block of the root directory: the file `a`, with its first cluster 3. -/
def fileBlock : List (Nat × BitVec 8) :=
  [(0, 0x41), (1, 0x61), (11, 0x0F), (32, 0x41), (43, 0x20), (58, 3)] ++
    ([5, 6, 7, 8, 9, 10] ++ List.range' 14 12 ++ List.range' 28 4).map fun i => (i, 0xFF)

/-- The root directory is the cluster 2, and it has no other one. -/
def oneFile : Fat :=
  smallFat [(8, 0xFF), (9, 0xFF), (10, 0xFF), (11, 0x0F), (12, 0xFF), (13, 0xFF), (14, 0xFF),
    (15, 0x0F)] fileBlock

def fileEntry : LongEntry where
  name := [0x61]
  parts := [slotOf (blockOf fileBlock) 0]
  slot := slotOf (blockOf fileBlock) 1
  nonempty := by simp
  length := by simp
  units := by simp
  written := ⟨_, [], rfl, ⟨by decide, by decide, by decide⟩, rfl⟩
  live := by decide

def fileContent : Nat → List Item := fun _ => [.entry fileEntry]

theorem oneFile_isFat32 : IsFat32 oneFile := ⟨by decide, by decide, by decide⟩

theorem oneFile_entry : fatEntry oneFile 2 = some 0x0FFFFFFF := by decide +kernel

theorem oneFile_cluster : IsCluster oneFile 2 := ⟨by decide, by decide⟩

theorem oneFile_slots : slotsOf (blockOf fileBlock) =
    fileEntry.slots ++ (List.range' 2 14).map (slotOf (blockOf fileBlock)) := rfl

/-- The root directory is one cluster of one sector, and in it stands the file `e` alone. -/
structure OneFile (s : Fat) (e : LongEntry) (sector : Nat) (buffer : Mem) : Prop
    extends IsFat32 s where
  cluster : IsCluster s s.current_sd_partition.rootCluster
  entry : fatEntry s s.current_sd_partition.rootCluster = some 0x0FFFFFFF
  fits : Fits s s.current_sd_partition.rootCluster
  sectors : dataSectors s s.current_sd_partition.rootCluster = [sector]
  read : s.block_read_handler.read sector = some buffer
  slots : ∃ free, slotsOf buffer = e.slots ++ free ∧ ∀ slot ∈ free, slot 0 = 0
  file : e.isDir = false

theorem OneFile.isEnd {s : Fat} {e : LongEntry} {sector : Nat} {buffer : Mem}
    (h : OneFile s e sector buffer) : IsEnd s 0x0FFFFFFF := by
  unfold IsEnd
  rw [h.type, if_neg (by decide)]
  decide

theorem OneFile.volume {s : Fat} {e : LongEntry} {sector : Nat} {buffer : Mem}
    (h : OneFile s e sector buffer) : Volume s fun _ => [.entry e] := by
  obtain ⟨free, hslots, hfree⟩ := h.slots
  refine ⟨h.toIsFat32, .dir ?_ ?_ ?_⟩
  · refine ⟨[s.current_sd_partition.rootCluster], [buffer], free,
      .last h.cluster h.entry h.isEnd, ?_, ?_, ?_, hfree⟩
    · intro d hd
      rw [List.mem_singleton.mp hd]
      exact h.fits
    · rw [List.flatMap_singleton, h.sectors]
      exact .cons h.read .nil
    · simpa [Item.slots] using hslots
  · simp [entriesOf]
  · intro d hd hdir
    obtain rfl : d = e := List.mem_singleton.mp hd
    rw [h.file] at hdir
    cases hdir

theorem oneFile_oneFile : OneFile oneFile fileEntry 2 (blockOf fileBlock) where
  toIsFat32 := oneFile_isFat32
  cluster := oneFile_cluster
  entry := oneFile_entry
  fits := by unfold Fits; decide
  sectors := rfl
  read := rfl
  slots := ⟨_, oneFile_slots, by decide⟩
  file := by decide

theorem oneFile_volume : Volume oneFile fileContent := oneFile_oneFile.volume

/-- A path that goes on behind the file is looked up to its cluster. -/
theorem the_file_is_found_in_the_middle : ¬ ∀ (s : Fat) (content : Nat → List Item)
    (components : List Path), Volume s content → components ≠ [] →
      (∀ x ∈ components, IsComponent x) → (pathOf components).length + 1 < 2 ^ 32 →
        LookupExact s content components := by
  intro h
  obtain ⟨fuel, hfuel⟩ := h oneFile fileContent [[0x61], [0x62]] oneFile_volume (by simp)
    (by decide) (by decide)
  have hlookup : lookup fileContent oneFile.current_sd_partition.rootCluster [[0x61], [0x62]] = 0 :=
    by decide
  have hrun := hfuel fun _ _ _ => 0
  rw [hlookup] at hrun
  cases fuel with
  | zero => cases hrun
  | succ fuel =>
    have hthree : get_file_size oneFile (pathOf [[0x61], [0x62]]) (fun _ _ _ => 0) (fuel + 1) =
        .ok 3 := rfl
    rw [hthree] at hrun
    exact absurd (Except.ok.inj hrun) (by decide)

/-! ## A card with a directory -/

/-- The bytes of a part in the slot `k`. -/
def partBytes (k : Nat) (number : BitVec 8) (units : List Nat) : List (Nat × BitVec 8) :=
  [(32 * k, number), (32 * k + 11, 0x0F)] ++ (List.range 13).flatMap fun j =>
    let place := 32 * k + if j < 5 then 1 + 2 * j else if j < 11 then 4 + 2 * j else 6 + 2 * j
    [(place, BitVec.ofNat 8 (units.getD j 0xFFFF)),
      (place + 1, BitVec.ofNat 8 (units.getD j 0xFFFF / 256))]

/-- The first byte, the attribute and the first cluster of the entry in the slot `k`. -/
def shortBytes (k : Nat) (first attrib cluster : BitVec 8) : List (Nat × BitVec 8) :=
  [(32 * k, first), (32 * k + 11, attrib), (32 * k + 26, cluster)]

/-- `docs` -/
def docsName : Path := [0x64, 0x6F, 0x63, 0x73]

/-- `a long name.txt` -/
def longName : Path :=
  [0x61, 0x20, 0x6C, 0x6F, 0x6E, 0x67, 0x20, 0x6E, 0x61, 0x6D, 0x65, 0x2E, 0x74, 0x78, 0x74]

/-- The first sector of the root directory: the empty file `b`, deleted entries, and the name of
`c`, whose entry stands in the next sector. -/
def rootBlock : Mem :=
  blockOf (partBytes 0 0x41 [0x62, 0] ++ shortBytes 1 0x42 0x20 0 ++
    (List.range' 2 13).flatMap (fun k => shortBytes k 0xE5 0x20 9) ++ partBytes 15 0x41 [0x63, 0])

/-- The second one, with the directory `docs`. -/
def nextBlock : Mem :=
  blockOf (shortBytes 0 0x43 0x20 0 ++ partBytes 1 0x41 (unitsOf docsName ++ [0]) ++
    shortBytes 2 0x44 0x10 4)

/-- In the directory `docs` stand a file `b` and one with a long name, of 600 bytes. -/
def docsBlock : Mem :=
  blockOf (shortBytes 0 0x2E 0x10 4 ++ shortBytes 1 0x2E 0x10 0 ++ partBytes 2 0x41 [0x62, 0] ++
    shortBytes 3 0x42 0x20 7 ++ partBytes 4 0x42 (unitsOf (longName.drop 13) ++ [0]) ++
    partBytes 5 0x01 (unitsOf (longName.take 13)) ++ shortBytes 6 0x41 0x20 5 ++
    [(220, 0x58), (221, 2)])

/-- The FAT: the clusters 2 and 3 of the root directory, 4 of `docs`, and 5 and 6 of the file. -/
def docsEntries : List (Nat × BitVec 8) :=
  [(8, 3), (12, 0xFF), (13, 0xFF), (14, 0xFF), (15, 0x0F), (16, 0xFF), (17, 0xFF), (18, 0xFF),
    (19, 0x0F), (20, 6), (24, 0xFF), (25, 0xFF), (26, 0xFF), (27, 0x0F)]

def docsCard : Disk where
  read n :=
    if 2 ^ 32 ≤ n then none
    else match n with
      | 0 => some (blockOf [(0, 0xEB), (12, 2), (13, 1), (14, 1), (16, 1), (36, 1), (44, 2)])
      | 1 => some (blockOf docsEntries)
      | 2 => some rootBlock
      | 3 => some nextBlock
      | 4 => some docsBlock
      | 5 => some fun _ => 0x61
      | 6 => some fun i => if i < 88 then 0x61 else 0
      | _ => some (blockOf [])
  numbered _ h := if_pos h

def docsFat : Fat := (initialize_fat (Fat.boot docsCard) (some docsCard)).2

/-- A name of up to thirteen characters has one part. -/
def shortSet (x : Path) (part slot : Mem) (hname : x ≠ [] ∧ x.length ≤ 13 ∧ ∀ b ∈ x, b ≠ 0)
    (hpart : IsPart (unitsOf x) 1 part) (live : slot 0 ≠ 0 ∧ slot 0 ≠ 0xE5 ∧ attribOf slot ≠ 0x0F) :
    LongEntry where
  name := unitsOf x
  parts := [part]
  slot := slot
  nonempty := by simpa [unitsOf] using hname.1
  length := by simpa [unitsOf] using hname.2.1.trans (by decide : 13 ≤ 255)
  units := by
    intro u hu
    obtain ⟨b, hb, rfl⟩ := List.mem_map.mp hu
    have hlt := b.isLt
    refine ⟨fun h => hname.2.2 b hb (BitVec.eq_of_toNat_eq h), by omega⟩
  written := by
    have hlen := List.length_pos_iff.mpr hname.1
    have hcount : partsCount (unitsOf x) = 1 := by
      unfold partsCount unitsOf
      rw [List.length_map]
      omega
    rw [hcount]
    exact ⟨part, [], rfl, hpart, rfl⟩
  live := live

def rootFile : LongEntry :=
  shortSet [0x62] (slotOf rootBlock 0) (slotOf rootBlock 1) (by decide)
    ⟨by decide, by decide, by decide⟩ (by decide)

/-- The set of `c`, which goes on in the next sector. -/
def splitFile : LongEntry :=
  shortSet [0x63] (slotOf rootBlock 15) (slotOf nextBlock 0) (by decide)
    ⟨by decide, by decide, by decide⟩ (by decide)

def docsDirectory : LongEntry :=
  shortSet docsName (slotOf nextBlock 1) (slotOf nextBlock 2) (by decide)
    ⟨by decide, by decide, by decide⟩ (by decide)

def otherFile : LongEntry :=
  shortSet [0x62] (slotOf docsBlock 2) (slotOf docsBlock 3) (by decide)
    ⟨by decide, by decide, by decide⟩ (by decide)

def longFile : LongEntry where
  name := unitsOf longName
  parts := [slotOf docsBlock 4, slotOf docsBlock 5]
  slot := slotOf docsBlock 6
  nonempty := by decide
  length := by decide
  units := by decide
  written :=
    ⟨_, _, rfl, ⟨by decide, by decide, by decide⟩, _, [], rfl,
      ⟨by decide, by decide, by decide⟩, rfl⟩
  live := by decide

/-- A deleted entry of the first sector. -/
def deletedHole (k : Fin 13) : Hole :=
  ⟨slotOf rootBlock (k + 2), by revert k; decide, Or.inl (by revert k; decide)⟩

def dotHole (k : Fin 2) : Hole :=
  ⟨slotOf docsBlock k, by revert k; decide,
    Or.inr ⟨by revert k; decide, Or.inl (by revert k; decide)⟩⟩

def docsContent : Nat → List Item
  | 4 => (List.finRange 2).map (fun k => .hole (dotHole k)) ++ [.entry otherFile, .entry longFile]
  | _ => .entry rootFile :: (List.finRange 13).map (fun k => .hole (deletedHole k)) ++
      [.entry splitFile, .entry docsDirectory]

theorem docsFat_isFat32 : IsFat32 docsFat := ⟨by decide, by decide, by decide⟩

theorem docsFat_chain : ClusterChain docsFat 2 [2, 3] :=
  .link (n := 3) ⟨by decide, by decide⟩ (by decide)
    (.last (n := 0x0FFFFFFF) ⟨by decide, by decide⟩ (by decide) (by decide))

theorem docs_chain : ClusterChain docsFat 4 [4] :=
  .last (n := 0x0FFFFFFF) ⟨by decide, by decide⟩ (by decide) (by decide)

theorem file_chain : ClusterChain docsFat 5 [5, 6] :=
  .link (n := 6) ⟨by decide, by decide⟩ (by decide)
    (.last (n := 0x0FFFFFFF) ⟨by decide, by decide⟩ (by decide) (by decide))

theorem docs_lists : Lists docsFat 4 (docsContent 4) :=
  ⟨[4], [docsBlock], (List.range' 7 9).map (slotOf docsBlock), docs_chain,
    by unfold Fits; decide, .cons rfl .nil, rfl, by decide⟩

theorem root_lists : Lists docsFat 2 (docsContent 2) :=
  ⟨[2, 3], [rootBlock, nextBlock], (List.range' 3 13).map (slotOf nextBlock), docsFat_chain,
    by unfold Fits; decide, .cons rfl (.cons rfl .nil), rfl, by decide⟩


theorem docsFat_volume : Volume docsFat docsContent := by
  refine ⟨docsFat_isFat32, .dir root_lists (by decide) ?_⟩
  intro e he hdir
  obtain rfl : e = docsDirectory := by
    have hmem : e ∈ [rootFile, splitFile, docsDirectory] := he
    rcases List.mem_cons.mp hmem with rfl | hmem
    · cases hdir
    · rcases List.mem_cons.mp hmem with rfl | hmem
      · cases hdir
      · exact List.mem_singleton.mp hmem
  refine .dir docs_lists (by decide) ?_
  intro e he hdir
  have hmem : e ∈ [otherFile, longFile] := he
  rcases List.mem_cons.mp hmem with rfl | hmem
  · cases hdir
  · obtain rfl := List.mem_singleton.mp hmem
    cases hdir

/-- The first sector is passed: there are a file of another name and a name without its entry. -/
theorem rootBlock_sets : setsIn docsFat docsName 2 =
    [⟨[slotOf rootBlock 0], true, some (slotOf rootBlock 1)⟩,
      ⟨[slotOf rootBlock 15], true, none⟩] := rfl

theorem nextBlock_sets : setsIn docsFat docsName 3 =
    [⟨[slotOf nextBlock 1], true, some (slotOf nextBlock 2)⟩] := rfl

theorem docsBlock_sets : setsIn docsFat longName 4 =
    [⟨[slotOf docsBlock 2], true, some (slotOf docsBlock 3)⟩,
      ⟨[slotOf docsBlock 4, slotOf docsBlock 5], true, some (slotOf docsBlock 6)⟩] := rfl

theorem long_comesTo : ComesTo docsFat 4 longName [] longFile.slot := by
  refine ⟨fun _ => by decide, [4], [], 4, [], docs_chain.along docsFat_isFat32, rfl, by simp,
    ?_, ?_⟩
  · have hentered : entered longName (setsIn docsFat longName 4) = [] := by
      rw [docsBlock_sets]
      decide
    rw [hentered]
    simp
  · rw [docsBlock_sets]
    have hother : ¬ Spells (assembled [slotOf docsBlock 2]) longName := by decide
    have hlong : Spells (assembled [slotOf docsBlock 4, slotOf docsBlock 5]) longName := by
      decide
    simp [met, NameSet.named, hother, hlong]
    rfl

theorem docs_comesTo : ComesTo docsFat 2 docsName [longName] docsDirectory.slot := by
  refine ⟨fun _ => by decide, [2, 3], [2], 3, [], docsFat_chain.along docsFat_isFat32, rfl,
    ?_, ?_, ?_⟩
  · intro m hm
    obtain rfl := List.mem_singleton.mp hm
    have hentered : entered docsName (setsIn docsFat docsName 2) = [] := by
      rw [rootBlock_sets]
      decide
    have hmet : met docsName (setsIn docsFat docsName 2) = none := by
      rw [rootBlock_sets]
      have hother : ¬ Spells (assembled [slotOf rootBlock 0]) docsName := by decide
      simp [met, NameSet.named, hother]
    exact ⟨by rw [hentered]; simp, by rw [hmet]; simp, by rw [hmet]; simp⟩
  · have hentered : entered docsName (setsIn docsFat docsName 3) = [] := by
      rw [nextBlock_sets]
      decide
    rw [hentered]
    simp
  · rw [nextBlock_sets]
    have hdocs : Spells (assembled [slotOf nextBlock 1]) docsName := by decide
    simp [met, NameSet.named, hdocs]
    rfl

theorem docsFat_direct : Direct docsFat docsContent 2 [docsName, longName] := by
  refine Or.inr ⟨docsDirectory, rfl, docs_comesTo, by decide, fun _ => ⟨by decide, ?_⟩⟩
  exact Or.inr ⟨longFile, rfl, long_comesTo, by decide, fun h => absurd rfl h⟩

/-- The file is found by its path, through the name that is split over two sectors. -/
theorem the_file_is_found : LookupExact docsFat docsContent [docsName, longName] ∧
    lookup docsContent docsFat.current_sd_partition.rootCluster [docsName, longName] = 5 :=
  ⟨(the_direct_lookup_is_exact docsFat_volume (by simp) (by decide) (by decide)).1
    docsFat_direct, by decide⟩

end rpi_wifi.fat
