-- Whether the traversals come to an end. They follow what stands on the card, from cluster to
-- cluster and into directories, and nothing remembers where they have been.
import RpiWifi.FatLookup

namespace rpi_wifi.fat

open memory first_found Filter

/-! ## Printing a directory -/

section
variable (s : Fat)

def print_entries_in_sector (print_directory_contents : Nat → Except Stop Nat)
    (sector_number : Nat) : Except Stop Nat :=
  match s.block_read_handler.read sector_number with
  | none => .ok 0
  | some buffer => (printSector print_directory_contents buffer).2

def print_directory_cluster_contents (print_directory_contents : Nat → Except Stop Nat)
    (cluster_number : Nat) : Except Stop Nat :=
  firstFound 0 (print_entries_in_sector s print_directory_contents) (sectorsOf s cluster_number)

/-- `print_directory_contents`, with what its buffer holds at first and what lies behind the
buffer. There is no result but that it ends. -/
def print_directory_contents (junk : Nat → Nat → Mem) : Nat → Nat → Except Stop Nat
  | 0, _ => .error .running
  | fuel + 1, directory_first_cluster =>
    let visit := print_directory_cluster_contents s (print_directory_contents junk fuel)
    match clusterLoop s visit (fuel + 1) directory_first_cluster 0 (junk fuel 0)
        (fun k => junk fuel (k + 1)) with
    | .error e => .error e
    | .ok _ => .ok 0

end

/-! ## Endless paths -/

/-- The call is no longer running. -/
def Ends {α : Type} (r : Except Stop α) : Prop := r ≠ .error .running

@[simp] theorem ends_ok {α : Type} (r : α) : Ends (.ok r : Except Stop α) := by
  unfold Ends
  simp

/-- A round of a loop: its cluster, and whether the buffer still holds what it held at first,
which is taken for the sector 0. -/
structure Place where
  cluster : Nat
  fresh : Bool
  deriving DecidableEq

/-- What the buffer can hold when the entry of the cluster is looked at. -/
def Reads (s : Fat) (a : Place) (buffer : Mem) : Prop :=
  let sector := (getFatEntrySectorAndOffset s a.cluster).1
  a.fresh = true ∧ sector = 0 ∨ s.block_read_handler.read sector = some buffer

/-- The next round of the loop. -/
def nextPlace (s : Fat) (a : Place) (buffer behind : Mem) : Place :=
  let entry := getFatEntrySectorAndOffset s a.cluster
  ⟨read32 (withBehind buffer behind) entry.2 % 2 ^ 28, a.fresh && entry.1 == 0⟩

/-- The loop goes on, or a loop is started in a directory that is gone into. -/
def Follows (s : Fat) (enters : Nat → List Nat) (a b : Place) : Prop :=
  isStop a.cluster = false ∧ ∃ buffer, Reads s a buffer ∧
    ((∃ behind, b = nextPlace s a buffer behind) ∨
      b.fresh = true ∧ b.cluster ∈ enters a.cluster)

/-- From the cluster `c` an endless path leads on. -/
def Endless (s : Fat) (enters : Nat → List Nat) (c : Nat) : Prop :=
  ∃ path : Nat → Place, path 0 = ⟨c, true⟩ ∧ ∀ k, Follows s enters (path k) (path (k + 1))

/-- The directories of a sector. -/
def directoriesIn (buffer : Mem) : List Nat :=
  (nameSets (slotsOf buffer) []).filterMap fun set => set.entry.bind directoryOf

/-- The directories of a cluster. -/
def directoriesOf (s : Fat) (c : Nat) : List Nat :=
  (sectorsOf s c).flatMap fun n => ((s.block_read_handler.read n).map directoriesIn).getD []

/-- No directory is gone into where a file is read. -/
def noDirectories (_c : Nat) : List Nat := []

/-! ## What is expected -/

/-- With a depth of the recursion and a number of rounds that the buffers do not change, the
directory is printed. -/
def Printed (s : Fat) (c : Nat) : Prop :=
  ∀ᶠ fuel in atTop, ∀ junk, Ends (print_directory_contents s junk fuel c)

def Searched (s : Fat) (path : Path) (c : Nat) : Prop :=
  ∀ᶠ fuel in atTop, ∀ junk next_index,
    Ends (search_directory_contents s path junk fuel c next_index)

def ReadOut (s : Fat) (path : Path) : Prop :=
  ∀ᶠ fuel in atTop, ∀ junk, Ends (read_file s path junk fuel)

/-- The path can be looked up to the cluster `d`. -/
def LookedUp (s : Fat) (path : Path) (d : Nat) : Prop :=
  ∃ fuel junk, get_file_size s path junk fuel = .ok d

/-! ## A round of a loop -/

variable {s : Fat} {a b : Place} {enters : Nat → List Nat} {buffer : Mem} {old c v fuel : Nat}

/-- What the loop has in its buffer before a round. -/
def Held (s : Fat) (a : Place) (old : Nat) (buffer : Mem) : Prop :=
  a.fresh = true ∧ old = 0 ∨ a.fresh = false ∧ Holds s old buffer

theorem withBehind_congr {sector : Mem} (h : ∀ i < 512, buffer i = sector i) (behind : Mem) :
    withBehind buffer behind = withBehind sector behind := by
  funext i
  unfold withBehind
  split
  · next hi => exact h i hi
  · rfl

theorem held_start (c : Nat) (buffer : Mem) : Held s ⟨c, true⟩ 0 buffer := Or.inl ⟨rfl, rfl⟩

/-- The buffer in a round, and before the next one. -/
theorem held_round {buffer' : Mem} (hheld : Held s a old buffer)
    (hsector : fatSector s old (getFatEntrySectorAndOffset s a.cluster).1 buffer = some buffer') :
    ∃ sector, Reads s a sector ∧
      (∀ behind, withBehind buffer' behind = withBehind sector behind) ∧
      ∀ sector' behind, Held s (nextPlace s a sector' behind)
        (getFatEntrySectorAndOffset s a.cluster).1 buffer' := by
  unfold Reads Held nextPlace
  unfold fatSector at hsector
  dsimp only
  rcases hheld with ⟨hfresh, rfl⟩ | ⟨hfresh, sector, hread, hbytes⟩
  · split at hsector
    · next hne =>
      refine ⟨buffer', Or.inr hsector, fun _ => rfl, fun _ _ => Or.inr ⟨?_, ?_⟩⟩
      · simpa using fun _ => hne.symm
      · exact ⟨buffer', hsector, fun _ _ => rfl⟩
    · next heq =>
      have heq := (not_not.mp heq).symm
      refine ⟨buffer', Or.inl ⟨hfresh, heq⟩, fun _ => rfl, fun _ _ => Or.inl ⟨?_, heq⟩⟩
      simp [hfresh, heq]
  · split at hsector
    · refine ⟨buffer', Or.inr hsector, fun _ => rfl, fun _ _ => Or.inr ⟨?_, ?_⟩⟩
      · simp [hfresh]
      · exact ⟨buffer', hsector, fun _ _ => rfl⟩
    · next heq =>
      obtain rfl := Option.some_inj.mp hsector
      have heq := not_not.mp heq
      rw [← heq]
      refine ⟨sector, Or.inr hread, withBehind_congr hbytes, fun _ _ => Or.inr ⟨?_, ?_⟩⟩
      · simp [hfresh]
      · exact ⟨sector, hread, hbytes⟩

/-- A round ends the loop, or is followed by the next one. -/
theorem ends_round {visit : Nat → Except Stop Nat} {buffer' : Mem} (hgo : isStop v = false)
    (hsector : fatSector s old (getFatEntrySectorAndOffset s v).1 buffer = some buffer')
    (behind : Nat → Mem) :
    Ends (clusterLoop s visit (fuel + 1) v old buffer behind) ↔
      Ends (visit v) ∧ (visit v = .ok 0 →
        Ends (clusterLoop s visit fuel
          (read32 (withBehind buffer' (behind 0)) (getFatEntrySectorAndOffset s v).2 % 2 ^ 28)
          (getFatEntrySectorAndOffset s v).1 buffer' fun k => behind (k + 1))) := by
  rw [clusterLoop]
  dsimp only
  rw [hsector, hgo]
  unfold Ends
  cases visit v with
  | error e => simp
  | ok r =>
    by_cases hr : r = 0
    · subst hr
      dsimp only
      cases clusterLoop s visit fuel
        (read32 (withBehind buffer' (behind 0)) (getFatEntrySectorAndOffset s v).2 % 2 ^ 28)
        (getFatEntrySectorAndOffset s v).1 buffer' fun k => behind (k + 1) <;> simp
    · simp [hr]

theorem ends_stop {visit : Nat → Except Stop Nat} (hstop : isStop v = true)
    (behind : Nat → Mem) : Ends (clusterLoop s visit (fuel + 1) v old buffer behind) := by
  rw [clusterLoop, if_pos hstop]
  exact ends_ok _

theorem ends_unread {visit : Nat → Except Stop Nat}
    (hsector : fatSector s old (getFatEntrySectorAndOffset s v).1 buffer = none)
    (behind : Nat → Mem) : Ends (clusterLoop s visit (fuel + 1) v old buffer behind) := by
  rw [clusterLoop]
  dsimp only
  rw [hsector]
  split <;> exact ends_ok _

/-- From a place there are finitely many ways on. -/
theorem follows_finite (s : Fat) (enters : Nat → List Nat) (a : Place) :
    {b | Follows s enters a b}.Finite := by
  have hfinite : ((fun p : Nat × Bool => Place.mk p.1 p.2) ''
      ((Set.Iio (2 ^ 28) ∪ {c | c ∈ enters a.cluster}) ×ˢ Set.univ)).Finite := by
    apply Set.Finite.image
    exact ((Set.finite_Iio _).union (List.finite_toSet _)).prod Set.finite_univ
  apply hfinite.subset
  rintro ⟨c, fresh⟩ ⟨-, buffer, -, ⟨behind, hnext⟩ | ⟨-, hmem⟩⟩
  · refine ⟨(c, fresh), ⟨Or.inl ?_, trivial⟩, rfl⟩
    have hcluster := congrArg Place.cluster hnext
    dsimp only [nextPlace] at hcluster
    rw [Set.mem_Iio, hcluster]
    exact Nat.mod_lt _ (by decide)
  · exact ⟨(c, fresh), ⟨Or.inr hmem, trivial⟩, rfl⟩

/-! ## No endless path -/

/-- A traversal: a call goes through its loop with the visits, and a visit calls for the
directories that it goes into. -/
structure Traversal (s : Fat) (enters : Nat → List Nat) (ι : Type) where
  call : (Nat → Nat → Mem) → Nat → ι → Nat → Except Stop Nat
  visit : (Nat → Nat → Mem) → Nat → ι → Nat → Except Stop Nat
  visit_ends : ∀ junk fuel i c, (∀ d ∈ enters c, ∀ j, Ends (call junk fuel j d)) →
    Ends (visit junk fuel i c)
  call_ends : ∀ junk fuel i c,
    Ends (clusterLoop s (visit junk fuel i) (fuel + 1) c 0 (junk fuel 0)
      (fun k => junk fuel (k + 1))) → Ends (call junk (fuel + 1) i c)

variable {ι : Type}

/-- With fuel from `k` on, the loop ends. -/
def Traversal.EndsFrom (t : Traversal s enters ι) (a : Place) (k : Nat) : Prop :=
  ∀ fuel l, k ≤ fuel → k ≤ l → ∀ junk i old buffer behind, Held s a old buffer →
    Ends (clusterLoop s (t.visit junk fuel i) l a.cluster old buffer behind)

theorem Traversal.loop_ends (t : Traversal s enters ι)
    (hacc : Acc (fun b a => Follows s enters a b) a) : ∀ᶠ k in atTop, t.EndsFrom a k := by
  induction hacc with
  | intro a _ ih =>
    have hnext : ∀ᶠ k in atTop, ∀ b ∈ {b | Follows s enters a b}, t.EndsFrom b k :=
      (eventually_all_finite (follows_finite s enters a)).mpr ih
    refine eventually_succ ?_
    filter_upwards [hnext] with k hk
    intro fuel l hfuel hl junk i old buffer behind hheld
    obtain ⟨fuel, rfl⟩ := Nat.exists_eq_succ_of_ne_zero (Nat.ne_zero_of_lt hfuel)
    obtain ⟨l, rfl⟩ := Nat.exists_eq_succ_of_ne_zero (Nat.ne_zero_of_lt hl)
    have hfuel := Nat.le_of_succ_le_succ hfuel
    have hl := Nat.le_of_succ_le_succ hl
    by_cases hstop : isStop a.cluster = true
    · exact ends_stop hstop _
    · have hgo : isStop a.cluster = false := by simpa using hstop
      cases hsector : fatSector s old (getFatEntrySectorAndOffset s a.cluster).1 buffer with
      | none => exact ends_unread hsector _
      | some buffer' =>
        obtain ⟨sector, hreads, hsame, hheld'⟩ := held_round hheld hsector
        refine (ends_round hgo hsector behind).mpr ⟨?_, fun _ => ?_⟩
        · refine t.visit_ends junk (fuel + 1) i a.cluster fun d hd j => ?_
          have hfollows : Follows s enters a ⟨d, true⟩ :=
            ⟨hgo, sector, hreads, Or.inr ⟨rfl, hd⟩⟩
          apply t.call_ends
          exact hk _ hfollows fuel (fuel + 1) hfuel (by omega) junk j 0 _ _ (held_start d _)
        · rw [hsame]
          have hfollows : Follows s enters a (nextPlace s a sector (behind 0)) :=
            ⟨hgo, sector, hreads, Or.inl ⟨behind 0, rfl⟩⟩
          exact hk _ hfollows (fuel + 1) l (by omega) hl junk i _ _ _ (hheld' sector (behind 0))

theorem acc_of_not_endless (h : ¬ Endless s enters c) :
    Acc (fun b a => Follows s enters a b) ⟨c, true⟩ := by
  by_contra hacc
  exact h (not_acc_iff_exists_descending_chain.mp hacc)

theorem Traversal.calls_end (t : Traversal s enters ι) (h : ¬ Endless s enters c) :
    ∀ᶠ fuel in atTop, ∀ junk i, Ends (t.call junk fuel i c) := by
  refine eventually_succ ?_
  filter_upwards [t.loop_ends (acc_of_not_endless h)] with k hk
  intro junk i
  apply t.call_ends
  exact hk k (k + 1) le_rfl (by omega) junk i 0 _ _ (held_start c _)

/-! ## The visits -/

theorem firstFound_ends {α : Type} {f : α → Except Stop Nat} {l : List α}
    (h : ∀ a ∈ l, Ends (f a)) : Ends (firstFound 0 f l) := by
  induction l with
  | nil => exact ends_ok _
  | cons a l ih =>
    have ha := h a List.mem_cons_self
    have hl := ih fun d hd => h d (List.mem_cons_of_mem _ hd)
    rw [firstFound_cons]
    cases hfa : f a with
    | error e => rwa [hfa] at ha
    | ok r =>
      dsimp only
      split
      · exact ends_ok _
      · exact hl

theorem resultOf_ends {visit : Mem → Mem → Option (Except Stop Nat)} {sets : List NameSet}
    (h : ∀ set ∈ sets, ∀ entry ∈ set.entry, ∀ name, ∀ result ∈ visit name entry, Ends result) :
    Ends (resultOf visit sets) := by
  induction sets with
  | nil => exact ends_ok _
  | cons set sets ih =>
    rw [resultOf_cons]
    cases hresult : set.entry.bind (visit (assembled set.parts)) with
    | none => exact ih fun set' hset' => h set' (List.mem_cons_of_mem _ hset')
    | some result =>
      obtain ⟨entry, hentry, hvisit⟩ := Option.bind_eq_some_iff.mp hresult
      exact h set List.mem_cons_self entry hentry _ result hvisit

theorem mem_directoriesIn {d : Nat} :
    d ∈ directoriesIn buffer ↔ ∃ set ∈ nameSets (slotsOf buffer) [], ∃ entry ∈ set.entry,
      attribOf entry = 0x10 ∧ firstClusterOf entry = d := by
  unfold directoriesIn directoryOf
  simp [List.mem_filterMap, Option.bind_eq_some_iff]

theorem mem_directoriesOf {n d : Nat} (hn : n ∈ sectorsOf s c)
    (hread : s.block_read_handler.read n = some buffer) (hd : d ∈ directoriesIn buffer) :
    d ∈ directoriesOf s c := by
  unfold directoriesOf
  refine List.mem_flatMap.mpr ⟨n, hn, ?_⟩
  rw [hread]
  exact hd

theorem searchVisit_ends {descend : Nat → Nat → Except Stop Nat} {next_file_name name entry : Mem}
    {next_index next_length : Nat} {result : Except Stop Nat}
    (h : attribOf entry = 0x10 → ∀ j, Ends (descend (firstClusterOf entry) j))
    (hresult : result ∈ searchVisit descend next_file_name next_index next_length name entry) :
    Ends result := by
  unfold searchVisit at hresult
  by_cases hattrib : attribOf entry = 0x10
  · have hends := h hattrib
    rw [if_pos hattrib, if_pos hattrib] at hresult
    split at hresult
    · obtain rfl := Option.some_inj.mp hresult
      exact hends _
    · have hbelow := hends next_index
      split at hresult
      · next e herror =>
        obtain rfl := Option.some_inj.mp hresult
        rwa [herror] at hbelow
      · split at hresult
        · obtain rfl := Option.some_inj.mp hresult
          exact ends_ok _
        · cases hresult
  · rw [if_neg hattrib, if_neg hattrib] at hresult
    split at hresult
    · obtain rfl := Option.some_inj.mp hresult
      exact ends_ok _
    · cases hresult

/-- A sector is searched to the end where the directories in it are. -/
theorem search_sector_ends {path : Path} {descend : Nat → Nat → Except Stop Nat}
    {next_index n : Nat}
    (h : ∀ buffer ∈ s.block_read_handler.read n, ∀ d ∈ directoriesIn buffer, ∀ j,
      Ends (descend d j)) :
    Ends (search_entries_in_sector s path descend next_index n) := by
  cases hread : s.block_read_handler.read n with
  | none =>
    unfold search_entries_in_sector
    rw [hread]
    exact ends_ok _
  | some buffer =>
    by_cases hindex : next_index ≤ path.length
    · rw [search_entries_in_sector_eq s descend hread hindex]
      unfold searchSector
      dsimp only
      split
      · exact ends_ok _
      · rw [sectorLoop_all]
        refine resultOf_ends fun set hset entry hentry name result hresult =>
          searchVisit_ends (fun hattrib => ?_) hresult
        exact h buffer hread _
          (mem_directoriesIn.mpr ⟨set, hset, entry, hentry, hattrib, rfl⟩)
    · unfold search_entries_in_sector Ends
      rw [hread]
      dsimp only
      rw [if_pos (by omega)]
      simp

theorem print_sector_ends {print : Nat → Except Stop Nat} {n : Nat}
    (h : ∀ buffer ∈ s.block_read_handler.read n, ∀ d ∈ directoriesIn buffer, Ends (print d)) :
    Ends (print_entries_in_sector s print n) := by
  unfold print_entries_in_sector
  cases hread : s.block_read_handler.read n with
  | none => exact ends_ok _
  | some buffer =>
    dsimp only [printSector]
    rw [sectorLoop_all]
    refine resultOf_ends fun set hset entry hentry name result hresult => ?_
    unfold printVisit at hresult
    split at hresult
    · next hattrib =>
      have hends := h buffer hread _
        (mem_directoriesIn.mpr ⟨set, hset, entry, hentry, hattrib, rfl⟩)
      split at hresult
      · next e herror =>
        obtain rfl := Option.some_inj.mp hresult
        rwa [herror] at hends
      · cases hresult
    · cases hresult

/-! ## The traversals -/

theorem ends_error {α β : Type} {e : Stop} (h : Ends (.error e : Except Stop α)) :
    Ends (.error e : Except Stop β) := fun heq => h (by rw [Except.error.inj heq])

def searchTraversal (s : Fat) (path : Path) : Traversal s (directoriesOf s) Nat where
  call junk fuel next_index c := search_directory_contents s path junk fuel c next_index
  visit junk fuel next_index c := search_directory_cluster_contents s path
    (search_directory_contents s path junk fuel) next_index c
  visit_ends junk fuel next_index c h := by
    apply firstFound_ends
    intro n hn
    apply search_sector_ends
    intro buffer hread d hd
    exact h d (mem_directoriesOf hn hread hd)
  call_ends junk fuel next_index c h := by
    rw [search_directory_contents]
    split
    · next e herror => exact ends_error (herror ▸ h)
    · exact ends_ok _

theorem print_ends_iff {junk : Nat → Nat → Mem} :
    Ends (print_directory_contents s junk (fuel + 1) c) ↔
      Ends (clusterLoop s (print_directory_cluster_contents s
        (print_directory_contents s junk fuel)) (fuel + 1) c 0 (junk fuel 0)
        fun k => junk fuel (k + 1)) := by
  rw [print_directory_contents]
  split
  · next e herror =>
    rw [herror]
    exact ⟨ends_error, ends_error⟩
  · next r hok =>
    rw [hok]
    exact iff_of_true (ends_ok _) (ends_ok _)

def printTraversal (s : Fat) : Traversal s (directoriesOf s) Unit where
  call junk fuel _ c := print_directory_contents s junk fuel c
  visit junk fuel _ c :=
    print_directory_cluster_contents s (print_directory_contents s junk fuel) c
  visit_ends junk fuel _ c h := by
    apply firstFound_ends
    intro n hn
    apply print_sector_ends
    intro buffer hread d hd
    exact h d (mem_directoriesOf hn hread hd) ()
  call_ends junk fuel _ c h := by
    exact print_ends_iff.mpr h

/-- The loop of `read_file`. -/
def readTraversal (s : Fat) : Traversal s noDirectories Unit where
  call _ _ _ _ := .ok 0
  visit _ _ _ _ := .ok 0
  visit_ends _ _ _ _ _ := ends_ok 0
  call_ends _ _ _ _ _ := ends_ok 0

theorem printed_of_not_endless (h : ¬ Endless s (directoriesOf s) c) : Printed s c := by
  unfold Printed
  filter_upwards [(printTraversal s).calls_end h] with fuel hends
  exact fun junk => hends junk ()

theorem searched_of_not_endless (path : Path) (h : ¬ Endless s (directoriesOf s) c) :
    Searched s path c := (searchTraversal s path).calls_end h

/-! ## Numbers of clusters -/

/-- What is found is a number of 28 bits. -/
def Narrow (r : Except Stop Nat) : Prop := ∀ d, r = .ok d → d < 2 ^ 28

theorem narrow_ok {d : Nat} (h : d < 2 ^ 28) : Narrow (.ok d) := by
  intro d' heq
  rwa [← Except.ok.inj heq]

theorem narrow_error (e : Stop) : Narrow (.error e) := by
  intro d heq
  cases heq

theorem narrow_firstFound {α : Type} {f : α → Except Stop Nat} {l : List α}
    (h : ∀ a, Narrow (f a)) : Narrow (firstFound 0 f l) := by
  induction l with
  | nil => exact narrow_ok (by decide)
  | cons a l ih =>
    have ha := h a
    rw [firstFound_cons]
    cases hfa : f a with
    | error e => exact narrow_error e
    | ok r =>
      dsimp only
      split
      · exact hfa ▸ ha
      · exact ih

theorem narrow_clusterLoop {visit : Nat → Except Stop Nat} (h : ∀ c, Narrow (visit c))
    {behind : Nat → Mem} {l : List Nat} {r : Nat}
    (hloop : clusterLoop s visit fuel v old buffer behind = .ok (l, r)) : r < 2 ^ 28 := by
  induction fuel generalizing v old buffer behind l with
  | zero => cases hloop
  | succ fuel ih =>
    rw [clusterLoop] at hloop
    dsimp only at hloop
    split at hloop
    · cases hloop
      decide
    · split at hloop
      · cases hloop
        decide
      · split at hloop
        · cases hloop
        · next hvisit =>
          split at hloop
          · cases hloop
            exact h _ _ hvisit
          · split at hloop
            · cases hloop
            · next hrest =>
              cases hloop
              exact ih hrest

theorem narrow_searchVisit {descend : Nat → Nat → Except Stop Nat}
    {next_file_name name entry : Mem} {next_index next_length : Nat} {result : Except Stop Nat}
    (h : ∀ c j, Narrow (descend c j))
    (hresult : result ∈ searchVisit descend next_file_name next_index next_length name entry) :
    Narrow result := by
  have hfirst : firstClusterOf entry < 2 ^ 28 := Nat.mod_lt _ (by decide)
  unfold searchVisit at hresult
  split at hresult
  · split at hresult
    · obtain rfl := Option.some_inj.mp hresult
      exact h _ _
    · obtain rfl := Option.some_inj.mp hresult
      exact narrow_ok hfirst
  · split at hresult
    · split at hresult
      · obtain rfl := Option.some_inj.mp hresult
        exact narrow_error _
      · next hdescend =>
        split at hresult
        · obtain rfl := Option.some_inj.mp hresult
          exact hdescend ▸ h _ _
        · cases hresult
    · cases hresult

theorem narrow_resultOf {visit : Mem → Mem → Option (Except Stop Nat)} {sets : List NameSet}
    (h : ∀ name entry, ∀ result ∈ visit name entry, Narrow result) :
    Narrow (resultOf visit sets) := by
  induction sets with
  | nil => exact narrow_ok (by decide)
  | cons set sets ih =>
    rw [resultOf_cons]
    cases hresult : set.entry.bind (visit (assembled set.parts)) with
    | none => exact ih
    | some result =>
      obtain ⟨entry, -, hvisit⟩ := Option.bind_eq_some_iff.mp hresult
      exact h _ entry result hvisit

theorem narrow_search (s : Fat) (path : Path) (junk : Nat → Nat → Mem) (fuel c next_index : Nat) :
    Narrow (search_directory_contents s path junk fuel c next_index) := by
  induction fuel generalizing c next_index with
  | zero => exact narrow_error _
  | succ fuel ih =>
    rw [search_directory_contents]
    split
    · exact narrow_error _
    · next visited result hloop =>
      refine narrow_ok (narrow_clusterLoop (fun c => narrow_firstFound fun n => ?_) hloop)
      cases hread : s.block_read_handler.read n with
      | none =>
        unfold search_entries_in_sector
        rw [hread]
        exact narrow_ok (by decide)
      | some buffer =>
        by_cases hindex : next_index ≤ path.length
        · rw [search_entries_in_sector_eq s _ hread hindex]
          unfold searchSector
          dsimp only
          split
          · exact narrow_ok (by decide)
          · rw [sectorLoop_all]
            exact narrow_resultOf fun name entry result => narrow_searchVisit ih
        · unfold search_entries_in_sector
          rw [hread]
          dsimp only
          rw [if_pos (by omega)]
          exact narrow_error _

/-! ## Reading a file -/

theorem get_file_size_ends {path : Path} (junk : Nat → Nat → Mem)
    (h : ∀ next_index, Ends (search_directory_contents s path junk fuel
      s.current_sd_partition.rootCluster next_index)) :
    Ends (get_file_size s path junk fuel) := by
  unfold get_file_size find_file_in_directory
  split
  · exact ends_ok 0
  · split
    · unfold Ends
      simp
    · exact h 1

theorem lookedUp_lt {path : Path} {d : Nat} (h : LookedUp s path d) : d < 2 ^ 28 := by
  obtain ⟨fuel, junk, h⟩ := h
  unfold get_file_size find_file_in_directory at h
  split at h
  · cases h
    decide
  · split at h
    · cases h
    · exact narrow_search s path junk fuel _ 1 d h

theorem readOut_of_not_endless {path : Path}
    (hroot : ¬ Endless s (directoriesOf s) s.current_sd_partition.rootCluster)
    (hfile : ∀ d, LookedUp s path d → ¬ Endless s noDirectories d) : ReadOut s path := by
  have hloops : ∀ᶠ k in atTop, ∀ d ∈ {d | LookedUp s path d},
      (readTraversal s).EndsFrom ⟨d, true⟩ k := by
    refine (eventually_all_finite ?_).mpr fun d hd =>
      (readTraversal s).loop_ends (acc_of_not_endless (hfile d hd))
    exact (Set.finite_Iio (2 ^ 28)).subset fun d hd => lookedUp_lt hd
  unfold ReadOut
  filter_upwards [searched_of_not_endless path hroot, hloops] with fuel hsearch hloops
  intro junk
  have hlookup := get_file_size_ends junk fun j => hsearch junk j
  unfold read_file
  cases hsize : get_file_size s path junk fuel with
  | error e =>
    rw [hsize] at hlookup
    exact ends_error hlookup
  | ok d =>
    have hloop := hloops d ⟨fuel, junk, hsize⟩ fuel fuel le_rfl le_rfl junk () 0 (junk fuel 0)
      (fun k => junk fuel (k + 1)) (held_start d _)
    dsimp only
    split
    · next e herror => exact ends_error (herror ▸ hloop)
    · exact ends_ok _

/-! ## The way back -/

/-- Nothing is found, or the call is still running. -/
def Quietly (r : Except Stop Nat) : Prop := r = .ok 0 ∨ r = .error .running

theorem Quietly.ends_iff {r : Except Stop Nat} (h : Quietly r) : Ends r ↔ r = .ok 0 := by
  unfold Ends
  rcases h with rfl | rfl <;> simp

theorem quietly_firstFound {α : Type} {f : α → Except Stop Nat} {l : List α}
    (h : ∀ a, Quietly (f a)) :
    Quietly (firstFound 0 f l) ∧ (Ends (firstFound 0 f l) → ∀ a ∈ l, Ends (f a)) := by
  induction l with
  | nil => exact ⟨Or.inl rfl, by simp⟩
  | cons a l ih =>
    rw [firstFound_cons]
    rcases h a with hfa | hfa
    · simpa [hfa] using ih
    · rw [hfa]
      exact ⟨Or.inr rfl, fun hends => absurd rfl hends⟩

/-- Where the printing of a sector ends, it has come back from all the directories in it. -/
theorem quietly_resultOf {print : Nat → Except Stop Nat} (sets : List NameSet)
    (h : ∀ d, Quietly (print d)) :
    Quietly (resultOf (printVisit print) sets) ∧
      (Ends (resultOf (printVisit print) sets) → ∀ set ∈ sets, ∀ entry ∈ set.entry,
        attribOf entry = 0x10 → Ends (print (firstClusterOf entry))) := by
  induction sets with
  | nil => exact ⟨Or.inl rfl, by simp⟩
  | cons set sets ih =>
    obtain ⟨parts, complete, entry⟩ := set
    rw [resultOf_cons]
    cases entry with
    | none => simpa using ih
    | some entry =>
      rw [Option.bind_some]
      have hnone : printVisit print (assembled parts) entry = none →
          (attribOf entry = 0x10 → Ends (print (firstClusterOf entry))) →
            Quietly ((printVisit print (assembled parts) entry).elim
                (resultOf (printVisit print) sets) id) ∧
              (Ends ((printVisit print (assembled parts) entry).elim
                  (resultOf (printVisit print) sets) id) →
                ∀ set ∈ ⟨parts, complete, some entry⟩ :: sets, ∀ entry ∈ set.entry,
                  attribOf entry = 0x10 → Ends (print (firstClusterOf entry))) := by
        intro hvisit hentry
        rw [hvisit]
        refine ⟨ih.1, fun hends => List.forall_mem_cons.mpr ⟨?_, ih.2 hends⟩⟩
        intro entry' hentry'
        obtain rfl := Option.some_inj.mp hentry'
        exact hentry
      by_cases hattrib : attribOf entry = 0x10
      · rcases h (firstClusterOf entry) with hprint | hprint
        · refine hnone ?_ fun _ => hprint ▸ ends_ok 0
          unfold printVisit
          rw [if_pos hattrib, hprint]
        · have hvisit : printVisit print (assembled parts) entry = some (.error .running) := by
            unfold printVisit
            rw [if_pos hattrib, hprint]
          rw [hvisit]
          exact ⟨Or.inr rfl, fun hends => absurd rfl hends⟩
      · exact hnone (if_neg hattrib) fun h => absurd h hattrib

theorem quietly_print_sector {print : Nat → Except Stop Nat} (h : ∀ d, Quietly (print d))
    (s : Fat) (n : Nat) :
    Quietly (print_entries_in_sector s print n) ∧
      (Ends (print_entries_in_sector s print n) → ∀ buffer ∈ s.block_read_handler.read n,
        ∀ d ∈ directoriesIn buffer, Ends (print d)) := by
  unfold print_entries_in_sector
  cases s.block_read_handler.read n with
  | none => exact ⟨Or.inl rfl, by simp⟩
  | some buffer =>
    have hsets := quietly_resultOf (nameSets (slotsOf buffer) []) h
    dsimp only [printSector]
    rw [sectorLoop_all]
    refine ⟨hsets.1, fun hends buffer' hbuffer d hd => ?_⟩
    obtain rfl := Option.some_inj.mp hbuffer
    obtain ⟨set, hset, entry, hentry, hattrib, rfl⟩ := mem_directoriesIn.mp hd
    exact hsets.2 hends set hset entry hentry hattrib

theorem quietly_print_cluster {print : Nat → Except Stop Nat} (h : ∀ d, Quietly (print d))
    (s : Fat) (c : Nat) :
    Quietly (print_directory_cluster_contents s print c) ∧
      (Ends (print_directory_cluster_contents s print c) →
        ∀ d ∈ directoriesOf s c, Ends (print d)) := by
  have hsectors := quietly_firstFound (l := sectorsOf s c) fun n => (quietly_print_sector h s n).1
  refine ⟨hsectors.1, fun hends d hd => ?_⟩
  obtain ⟨n, hn, hmem⟩ := List.mem_flatMap.mp hd
  have hsector := hsectors.2 hends n hn
  cases hread : s.block_read_handler.read n with
  | none =>
    rw [hread] at hmem
    cases hmem
  | some buffer =>
    rw [hread] at hmem
    exact (quietly_print_sector h s n).2 hsector buffer hread d hmem

theorem quietly_clusterLoop {visit : Nat → Except Stop Nat} (h : ∀ c, Quietly (visit c))
    {behind : Nat → Mem} {e : Stop}
    (hloop : clusterLoop s visit fuel v old buffer behind = .error e) : e = .running := by
  induction fuel generalizing v old buffer behind with
  | zero => exact (Except.error.inj hloop).symm
  | succ fuel ih =>
    rw [clusterLoop] at hloop
    dsimp only at hloop
    split at hloop
    · cases hloop
    · split at hloop
      · cases hloop
      · rcases h v with hvisit | hvisit
        · simp only [hvisit] at hloop
          split at hloop
          · next hne => exact absurd rfl hne
          · split at hloop
            · next hrest =>
              cases hloop
              exact ih hrest
            · cases hloop
        · simp only [hvisit] at hloop
          exact (Except.error.inj hloop).symm

theorem quietly_print (s : Fat) (junk : Nat → Nat → Mem) (fuel c : Nat) :
    Quietly (print_directory_contents s junk fuel c) := by
  induction fuel generalizing c with
  | zero => exact Or.inr rfl
  | succ fuel ih =>
    rw [print_directory_contents]
    split
    · next e hloop =>
      have hvisit := fun c => (quietly_print_cluster ih s c).1
      exact Or.inr (congrArg _ (quietly_clusterLoop hvisit hloop))
    · exact Or.inl rfl

/-- A call looks at the buffers of the calls below it, and at its own. -/
theorem print_congr {junk junk' : Nat → Nat → Mem} (h : ∀ k < fuel, junk k = junk' k) :
    print_directory_contents s junk fuel = print_directory_contents s junk' fuel := by
  induction fuel with
  | zero => rfl
  | succ fuel ih =>
    funext c
    rw [print_directory_contents, print_directory_contents,
      ih fun k hk => h k (Nat.lt_succ_of_lt hk), h fuel (Nat.lt_succ_self fuel)]

/-- Where a loop ends whatever lies behind its buffer, no endless path leads on from it. -/
theorem acc_of_loop (hzero : BehindSectorZero s)
    (hbelow : ∀ d, (∀ junk, Ends (print_directory_contents s junk fuel d)) →
      Acc (fun b a => Follows s (directoriesOf s) a b) ⟨d, true⟩)
    {l : Nat} (hheld : Held s a old buffer)
    (hends : ∀ junk behind, Ends (clusterLoop s
      (print_directory_cluster_contents s (print_directory_contents s junk fuel)) l a.cluster old
      buffer behind)) : Acc (fun b a => Follows s (directoriesOf s) a b) a := by
  induction l generalizing a old buffer with
  | zero => exact absurd rfl (hends (fun _ _ _ => 0) fun _ _ => 0)
  | succ l ih =>
    refine Acc.intro a ?_
    rintro b ⟨hgo, read, hreads, hway⟩
    have hread : s.block_read_handler.read (getFatEntrySectorAndOffset s a.cluster).1 =
        some read := hreads.resolve_left fun h => hzero a.cluster h.2
    obtain ⟨buffer', hsector⟩ : ∃ buffer',
        fatSector s old (getFatEntrySectorAndOffset s a.cluster).1 buffer = some buffer' := by
      unfold fatSector
      split
      · exact ⟨read, hread⟩
      · exact ⟨buffer, rfl⟩
    obtain ⟨sector, hreads', hsame, hheld'⟩ := held_round hheld hsector
    obtain rfl : read = sector := by
      have hread' := hreads'.resolve_left fun h => hzero a.cluster h.2
      exact Option.some_inj.mp (hread.symm.trans hread')
    have hround := fun junk behind => (ends_round hgo hsector behind).mp (hends junk behind)
    rcases hway with ⟨behind, rfl⟩ | ⟨hfresh, hd⟩
    · refine ih (hheld' read behind) fun junk behind' => ?_
      have hvisit := (quietly_print_cluster (quietly_print s junk fuel) s a.cluster).1
      obtain ⟨hends, hnext⟩ := hround junk fun k => if k = 0 then behind else behind' (k - 1)
      have hloop := hnext (hvisit.ends_iff.mp hends)
      rw [hsame] at hloop
      exact hloop
    · obtain ⟨d, fresh⟩ := b
      obtain rfl : fresh = true := hfresh
      refine hbelow d fun junk => ?_
      have hends := (hround junk fun _ _ => 0).1
      exact (quietly_print_cluster (quietly_print s junk fuel) s a.cluster).2 hends d hd

/-- Where a directory is printed to the end, no endless path leads on from it. -/
theorem acc_of_print (hzero : BehindSectorZero s)
    (hends : ∀ junk, Ends (print_directory_contents s junk fuel c)) :
    Acc (fun b a => Follows s (directoriesOf s) a b) ⟨c, true⟩ := by
  induction fuel generalizing c with
  | zero => exact absurd rfl (hends fun _ _ _ => 0)
  | succ fuel ih =>
    refine acc_of_loop hzero (fun d => ih) (l := fuel + 1) (held_start c fun _ => 0) ?_
    intro junk behind
    -- the buffers of this call are taken from `behind`, those of the calls below stay
    let own : Nat → Mem := fun k => k.casesOn (fun _ => 0) behind
    have hsame : print_directory_contents s (Function.update junk fuel own) fuel =
        print_directory_contents s junk fuel :=
      print_congr fun k hk => Function.update_of_ne (Nat.ne_of_lt hk) own junk
    have hcall := print_ends_iff.mp (hends (Function.update junk fuel own))
    rw [hsame, Function.update_self] at hcall
    exact hcall

theorem not_endless_of_acc (h : Acc (fun b a => Follows s enters a b) ⟨c, true⟩) :
    ¬ Endless s enters c := by
  rintro ⟨path, hstart, hpath⟩
  exact not_acc_iff_exists_descending_chain.mpr ⟨path, hstart, hpath⟩ h

/-- The traversals end where no endless path leads on, and for the printing of a directory that
is also needed. Nothing is said of the content of the card. -/
theorem the_traversals_end_without_endless_paths (s : Fat) (c : Nat) (path : Path) :
    (¬ Endless s (directoriesOf s) c → Printed s c ∧ Searched s path c) ∧
      (¬ Endless s (directoriesOf s) s.current_sd_partition.rootCluster →
        (∀ d, LookedUp s path d → ¬ Endless s noDirectories d) → ReadOut s path) ∧
      (BehindSectorZero s → Printed s c → ¬ Endless s (directoriesOf s) c) := by
  refine ⟨fun h => ⟨printed_of_not_endless h, searched_of_not_endless path h⟩,
    readOut_of_not_endless, fun hzero hprinted => ?_⟩
  obtain ⟨fuel, hends⟩ := hprinted.exists
  exact not_endless_of_acc (acc_of_print hzero hends)

/-! ## Two cards -/

theorem nextPlace_inside {behind : Mem} (h : (getFatEntrySectorAndOffset s a.cluster).2 ≤ 508) :
    (nextPlace s a buffer behind).cluster =
      read32 buffer (getFatEntrySectorAndOffset s a.cluster).2 % 2 ^ 28 := by
  unfold nextPlace read32 withBehind
  dsimp only
  rw [if_pos (by omega), if_pos (by omega), if_pos (by omega), if_pos (by omega)]

/-- From a cluster of the card the ways lead to the one in its FAT entry, and into its
directories. -/
theorem docsFat_ways {c n : Nat} (h : Follows docsFat (directoriesOf docsFat) a b)
    (hc : a.cluster = c) (hentry : getFatEntrySectorAndOffset docsFat c = (1, 4 * c))
    (hlow : c < 128) (hn : read32 (blockOf docsEntries) (4 * c) % 2 ^ 28 = n) :
    b.cluster = n ∨ b.cluster ∈ directoriesOf docsFat c := by
  obtain ⟨-, buffer, hreads, hway⟩ := h
  unfold Reads at hreads
  rw [hc] at hreads hway
  have hread : docsFat.block_read_handler.read 1 = some buffer := by
    rw [hentry] at hreads
    exact hreads.resolve_left fun h => absurd h.2 Nat.one_ne_zero
  obtain rfl := Option.some_inj.mp hread
  rcases hway with ⟨behind, rfl⟩ | ⟨-, hmem⟩
  · left
    have hoffset : (getFatEntrySectorAndOffset docsFat a.cluster).2 ≤ 508 := by
      rw [hc, hentry]
      dsimp only
      omega
    rw [nextPlace_inside hoffset, hc, hentry]
    exact hn
  · exact Or.inr hmem

/-- From the root directory the ways lead to its second cluster, from there into `docs`, and no
further. -/
theorem docsFat_not_endless : ¬ Endless docsFat (directoriesOf docsFat) 2 := by
  rintro ⟨path, hstart, hpath⟩
  have hnone : directoriesOf docsFat 2 = [] := rfl
  have hdocs : directoriesOf docsFat 3 = [4] := rfl
  have hnone' : directoriesOf docsFat 4 = [] := rfl
  have hend : ∀ k, (path k).cluster ≠ 0x0FFFFFFF := by
    intro k hk
    obtain ⟨hgo, -⟩ := hpath k
    rw [hk] at hgo
    cases hgo
  have hroot : (path 0).cluster = 2 := congrArg Place.cluster hstart
  have hfirst := docsFat_ways (n := 3) (hpath 0) hroot (by decide) (by decide) (by decide)
  rw [hnone, or_iff_left (List.not_mem_nil)] at hfirst
  rcases docsFat_ways (n := 0x0FFFFFFF) (hpath 1) hfirst (by decide) (by decide) (by decide) with
    hsecond | hsecond
  · exact hend _ hsecond
  · rw [hdocs, List.mem_singleton] at hsecond
    have hthird := docsFat_ways (n := 0x0FFFFFFF) (hpath 2) hsecond (by decide) (by decide)
      (by decide)
    rw [hnone', or_iff_left (List.not_mem_nil)] at hthird
    exact hend _ hthird

/-- The directories of the card are printed and searched to their ends. -/
theorem the_directories_of_the_card_end :
    Printed docsFat 2 ∧ Searched docsFat (pathOf [docsName, longName]) 2 :=
  (the_traversals_end_without_endless_paths docsFat 2 (pathOf [docsName, longName])).1
    docsFat_not_endless

/-- A card where the entry of the cluster 2 is 2. -/
def circle : Fat := smallFat [(8, 2)] []

theorem circle_behind_sector_zero : BehindSectorZero circle := by
  intro v
  have hsector : (getFatEntrySectorAndOffset circle v).1 = (1 + v * 4 % 2 ^ 32 / 512) % 2 ^ 32 := by
    unfold getFatEntrySectorAndOffset
    rfl
  rw [hsector]
  omega

theorem circle_endless : Endless circle (directoriesOf circle) 2 := by
  have hsector : (getFatEntrySectorAndOffset circle 2).1 = 1 := by decide +kernel
  have hread : circle.block_read_handler.read (getFatEntrySectorAndOffset circle 2).1 =
      some (blockOf [(8, 2)]) := by
    rw [hsector]
    rfl
  have hnext : ∀ fresh, nextPlace circle ⟨2, fresh⟩ (blockOf [(8, 2)]) (fun _ => 0) =
      ⟨2, false⟩ := by
    decide +kernel
  refine ⟨fun k => ⟨2, k == 0⟩, rfl, fun k => ?_⟩
  have hreads : Reads circle ⟨2, k == 0⟩ (blockOf [(8, 2)]) := by
    unfold Reads
    dsimp only
    exact Or.inr hread
  exact ⟨rfl, _, hreads, Or.inl ⟨fun _ => 0, (hnext (k == 0)).symm⟩⟩

/-- A chain that comes back to its cluster is printed for ever. -/
theorem a_circle_of_clusters_is_printed_for_ever :
    ¬ ∀ (disk : Disk) (s : Fat), (∀ n < 2 ^ 32, (disk.read n).isSome) →
      initialize_fat (Fat.boot disk) (some disk) = (true, s) →
        Printed s s.current_sd_partition.rootCluster := by
  intro h
  have hreads : ∀ n < 2 ^ 32, ((smallCard [(8, 2)] []).read n).isSome := by
    intro n hn
    unfold smallCard
    dsimp only
    rw [if_neg (by omega)]
    split <;> rfl
  have hmount : initialize_fat (Fat.boot (smallCard [(8, 2)] []))
      (some (smallCard [(8, 2)] [])) = (true, circle) := Prod.ext (by decide +kernel) rfl
  have hprinted : Printed circle 2 := h _ circle hreads hmount
  obtain ⟨fuel, hends⟩ := hprinted.exists
  exact not_endless_of_acc (acc_of_print circle_behind_sector_zero hends) circle_endless

end rpi_wifi.fat
