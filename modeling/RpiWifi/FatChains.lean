-- The clusters of a chain, against those that the loop goes to. The loop takes
-- 32 bits for an entry of either width, and of the end marks of FAT32 it knows
-- the last one only.
import RpiWifi.Fat

namespace rpi_wifi.fat

open memory

variable {s : Fat} {c d n u v fuel : Nat} {l chain : List Nat}

/-! ## The chains of a volume -/

/-- The bytes of an entry. -/
def entryBytes (s : Fat) : Nat := if s.selected_fat_type = .FAT16 then 2 else 4

/-- The sector that holds the entry of a cluster: the FAT stands behind the reserved
sectors of the partition. -/
def entrySector (s : Fat) (c : Nat) : Nat :=
  s.current_sd_partition.unusedSectors + s.current_sd_partition.reservedSectorCount +
    c * entryBytes s / 512

/-- The entry of a cluster. The upper four bits do not count in FAT32. -/
def fatEntry (s : Fat) (c : Nat) : Option Nat :=
  (s.block_read_handler.read (entrySector s c)).map fun sector =>
    if s.selected_fat_type = .FAT16 then read16 sector (c * 2 % 512)
    else read32 sector (c * 4 % 512) % 2 ^ 28

/-- The numbers that a cluster can have. The ones from the mark of a bad cluster on have a
meaning of their own. -/
def IsCluster (s : Fat) (c : Nat) : Prop :=
  2 ≤ c ∧ if s.selected_fat_type = .FAT16 then c < 0xFFF7 else c < 0x0FFFFFF7

/-- The end marks. -/
def IsEnd (s : Fat) (n : Nat) : Prop :=
  if s.selected_fat_type = .FAT16 then 0xFFF8 ≤ n else 0x0FFFFFF8 ≤ n

instance (s : Fat) (n : Nat) : Decidable (IsEnd s n) :=
  inferInstanceAs (Decidable (if s.selected_fat_type = .FAT16 then 0xFFF8 ≤ n else 0x0FFFFFF8 ≤ n))

/-- A finite chain of clusters from `c` on, with an end mark in the entry of the last. -/
inductive ClusterChain (s : Fat) : Nat → List Nat → Prop
  | last {c n : Nat} (hc : IsCluster s c) (hn : fatEntry s c = some n) (hend : IsEnd s n) :
    ClusterChain s c [c]
  | link {c n : Nat} {l : List Nat} (hc : IsCluster s c) (hn : fatEntry s c = some n)
    (hrest : ClusterChain s n l) : ClusterChain s c (c :: l)

/-- The clusters up to the first one whose visit gives something else than 0, and what it
gives. -/
def visitedOf (visit : Nat → Nat) : List Nat → List Nat × Nat
  | [] => ([], 0)
  | c :: l =>
    if visit c ≠ 0 then ([c], visit c) else (c :: (visitedOf visit l).1, (visitedOf visit l).2)

theorem visitedOf_cons (visit : Nat → Nat) (c : Nat) (l : List Nat) :
    visitedOf visit (c :: l) =
      if visit c ≠ 0 then ([c], visit c)
      else (c :: (visitedOf visit l).1, (visitedOf visit l).2) := rfl

theorem visitedOf_nothing (l : List Nat) : visitedOf (fun _ => 0) l = (l, 0) := by
  induction l with
  | nil => rfl
  | cons c l ih => simp [visitedOf_cons, ih]

/-- The loop visits the clusters of the chain, in order: all of them in `read_file`, where
the visits give 0, and in `search_directory_contents` up to the one where the name is found. -/
def FollowsExactly (s : Fat) (c : Nat) (chain : List Nat) : Prop :=
  ∃ fuel, ∀ (visit : Nat → Nat) (buffer : Mem) (behind : Nat → Mem),
    clusterLoop s (fun c => .ok (visit c)) fuel c 0 buffer behind = .ok (visitedOf visit chain)

/-! ## What the loop takes for an entry -/

/-- What the loop can take for the upper half of an entry: nothing in FAT32, where an entry
has four bytes. In FAT16 it is the entry of the next cluster, and behind the last entry of a
sector it is what stands behind the buffer. -/
def UpperHalf (s : Fat) (c u : Nat) : Prop :=
  if s.selected_fat_type = .FAT16 then
    if c % 256 = 255 then u < 4096 else ∃ e, fatEntry s (c + 1) = some e ∧ u = e % 4096
  else u = 0

/-- Behind the cluster `c`, the loop ends at the number `v`: it is one of the three that the
loop knows, or no sector of the FAT can be read for it. -/
def EndsAt (s : Fat) (c v : Nat) : Prop :=
  isStop v = true ∨
    (getFatEntrySectorAndOffset s v).1 ≠ entrySector s c ∧
      s.block_read_handler.read (getFatEntrySectorAndOffset s v).1 = none

/-- The loop goes on from each cluster of the chain to the next one, and ends behind the
last. -/
structure GoesOn (s : Fat) (chain : List Nat) : Prop where
  links : ∀ d ∈ chain.dropLast, ∀ u, UpperHalf s d u → u = 0
  last : ∀ d ∈ chain.getLast?, ∀ n, fatEntry s d = some n →
    ∀ u, UpperHalf s d u → EndsAt s d (n + 65536 * u)

/-- The chains that the loop can follow. It takes the sector 0 for the one that is in the
buffer at the start. -/
structure Followable (s : Fat) (c : Nat) (chain : List Nat) : Prop extends GoesOn s chain where
  first : entrySector s c ≠ 0

theorem goesOn_singleton (hn : fatEntry s c = some n) :
    GoesOn s [c] ↔ ∀ u, UpperHalf s c u → EndsAt s c (n + 65536 * u) := by
  constructor
  · intro h
    exact h.last c (by simp) n hn
  · intro h
    refine ⟨by simp, fun d hd m hm => ?_⟩
    obtain rfl : c = d := by simpa using hd
    obtain rfl : n = m := Option.some_inj.mp (hn.symm.trans hm)
    exact h

theorem goesOn_cons (hne : l ≠ []) :
    GoesOn s (c :: l) ↔ (∀ u, UpperHalf s c u → u = 0) ∧ GoesOn s l := by
  have hdrop : (c :: l).dropLast = c :: l.dropLast := List.dropLast_cons_of_ne_nil hne
  have hgetLast : (c :: l).getLast? = l.getLast? := List.getLast?_cons_of_ne_nil hne
  constructor
  · rintro ⟨hlinks, hlast⟩
    rw [hdrop] at hlinks
    rw [hgetLast] at hlast
    exact ⟨hlinks c List.mem_cons_self, fun d hd => hlinks d (List.mem_cons_of_mem _ hd), hlast⟩
  · rintro ⟨hc, hlinks, hlast⟩
    refine ⟨?_, ?_⟩
    · rw [hdrop]
      intro d hd
      rcases List.mem_cons.mp hd with rfl | hd
      · exact hc
      · exact hlinks d hd
    · rwa [hgetLast]

theorem ClusterChain.head (h : ClusterChain s c chain) : ∃ l, chain = c :: l := by
  cases h
  · exact ⟨[], rfl⟩
  · exact ⟨_, rfl⟩

theorem ClusterChain.isCluster (h : ClusterChain s c chain) : IsCluster s c := by
  cases h <;> assumption

theorem ClusterChain.ne_nil (h : ClusterChain s c l) : l ≠ [] := by
  cases h <;> simp

/-! ## A mounted card -/

/-- The state after `initialize_fat` has accepted a card with sectors of 512 bytes. -/
structure Mounted (s : Fat) : Prop where
  type : s.selected_fat_type = .FAT16 ∨ s.selected_fat_type = .FAT32
  bytes : s.current_sd_partition.bytesPerSector = 512

theorem mount_type (s : Fat) (bpb : Mem) :
    (mount s bpb).selected_fat_type = .FAT16 ∨ (mount s bpb).selected_fat_type = .FAT32 := by
  unfold mount
  dsimp only
  split
  · exact Or.inr rfl
  · exact Or.inl rfl

theorem initialize_fat_type {s₀ : Fat} {handler : Option Disk}
    (h : initialize_fat s₀ handler = (true, s)) :
    s.selected_fat_type = .FAT16 ∨ s.selected_fat_type = .FAT32 := by
  unfold initialize_fat at h
  grind [mount_type]

theorem IsCluster.not_stop (hc : IsCluster s c) : isStop c = false := by
  unfold IsCluster at hc
  unfold isStop
  split at hc <;> simp <;> omega

theorem IsCluster.lt (hc : IsCluster s c) : c < 2 ^ 28 := by
  unfold IsCluster at hc
  split at hc <;> omega

/-- The sector of an entry that can be read has a number of 32 bits. -/
theorem getFatEntry_of_entry (hm : Mounted s) (hc : IsCluster s c) (hn : fatEntry s c = some n) :
    getFatEntrySectorAndOffset s c = (entrySector s c, c * entryBytes s % 512) := by
  have hlt : entrySector s c < 2 ^ 32 := by
    by_contra hle
    unfold fatEntry at hn
    rw [s.block_read_handler.numbered _ (by omega)] at hn
    cases hn
  have hc := hc.lt
  unfold getFatEntrySectorAndOffset
  dsimp only
  rw [hm.bytes]
  unfold entrySector entryBytes at *
  split at hlt
  · next htype =>
    simp only [htype, if_true]
    rw [Nat.mod_eq_of_lt (show c * 2 < 2 ^ 32 by omega), Nat.mod_eq_of_lt hlt]
  · next htype =>
    simp only [htype, if_false]
    rw [Nat.mod_eq_of_lt (show c * 4 < 2 ^ 32 by omega), Nat.mod_eq_of_lt hlt]

/-! ## The buffer -/

/-- The buffer holds the sector `sector_num`. -/
def Holds (s : Fat) (sector_num : Nat) (buffer : Mem) : Prop :=
  ∃ sector, s.block_read_handler.read sector_num = some sector ∧ ∀ i < 512, buffer i = sector i

theorem fatSector_holds {old sector_num : Nat} {buffer sector : Mem}
    (hcached : old = sector_num → Holds s old buffer)
    (hread : s.block_read_handler.read sector_num = some sector) :
    ∃ buffer', fatSector s old sector_num buffer = some buffer' ∧ Holds s sector_num buffer' := by
  unfold fatSector
  by_cases h : old = sector_num
  · rw [if_neg (by simp [h])]
    exact ⟨buffer, rfl, h ▸ hcached h⟩
  · rw [if_pos h]
    exact ⟨sector, hread, sector, hread, fun i _ => rfl⟩

/-- What the loop takes for the next cluster. -/
def nextOf (s : Fat) (c : Nat) (buffer behind : Mem) : Nat :=
  read32 (withBehind buffer behind) (c * entryBytes s % 512) % 2 ^ 28

theorem entrySector_succ (htype : s.selected_fat_type = .FAT16) (hlast : c % 256 ≠ 255) :
    entrySector s (c + 1) = entrySector s c := by
  unfold entrySector entryBytes
  rw [if_pos htype]
  omega

theorem withBehind_inside {buffer sector : Mem} (hbytes : ∀ i < 512, buffer i = sector i)
    (behind : Mem) {i : Nat} (hi : i < 512) : withBehind buffer behind i = sector i := by
  unfold withBehind
  rw [if_pos hi, hbytes i hi]

theorem read16_lt (m : Mem) (a : Nat) : read16 m a < 65536 := by
  have h0 := (m a).isLt
  have h1 := (m (a + 1)).isLt
  unfold read16
  omega

/-- The word, in two halves. -/
theorem read32_halves (m : Mem) (a : Nat) :
    read32 m a = read16 m a + 65536 * read16 m (a + 2) := by
  unfold read32 read16
  rw [Nat.add_assoc a 2 1]
  omega

theorem nextOf_fat32 {buffer : Mem} (htype : s.selected_fat_type ≠ .FAT16)
    (hholds : Holds s (entrySector s c) buffer) (hn : fatEntry s c = some n) (behind : Mem) :
    nextOf s c buffer behind = n := by
  obtain ⟨sector, hread, hbytes⟩ := hholds
  unfold fatEntry at hn
  rw [hread, Option.map_some, Option.some_inj, if_neg htype] at hn
  unfold nextOf entryBytes
  rw [if_neg htype, ← hn]
  congr 1
  unfold read32
  rw [withBehind_inside hbytes _ (by omega), withBehind_inside hbytes _ (by omega),
    withBehind_inside hbytes _ (by omega), withBehind_inside hbytes _ (by omega)]

theorem nextOf_fat16 {buffer : Mem} (htype : s.selected_fat_type = .FAT16)
    (hholds : Holds s (entrySector s c) buffer) (hn : fatEntry s c = some n) (behind : Mem) :
    nextOf s c buffer behind =
      n + 65536 * (read16 (withBehind buffer behind) (c * 2 % 512 + 2) % 4096) := by
  obtain ⟨sector, hread, hbytes⟩ := hholds
  unfold fatEntry at hn
  rw [hread, Option.map_some, Option.some_inj, if_pos htype] at hn
  have hlow : read16 (withBehind buffer behind) (c * 2 % 512) = n := by
    rw [← hn]
    unfold read16
    rw [withBehind_inside hbytes _ (by omega), withBehind_inside hbytes _ (by omega)]
  have hlt := read16_lt sector (c * 2 % 512)
  unfold nextOf entryBytes
  rw [if_pos htype, read32_halves, hlow]
  omega

/-- Where the entry of the next cluster is in the buffer, it is the upper half. -/
theorem read16_succ {buffer : Mem} (htype : s.selected_fat_type = .FAT16)
    (hholds : Holds s (entrySector s c) buffer) (hlast : c % 256 ≠ 255) (behind : Mem) :
    fatEntry s (c + 1) = some (read16 (withBehind buffer behind) (c * 2 % 512 + 2)) := by
  obtain ⟨sector, hread, hbytes⟩ := hholds
  unfold fatEntry
  rw [entrySector_succ htype hlast, hread, Option.map_some, if_pos htype]
  have hoffset : (c + 1) * 2 % 512 = c * 2 % 512 + 2 := by omega
  congr 1
  unfold read16
  rw [withBehind_inside hbytes _ (by omega), withBehind_inside hbytes _ (by omega), hoffset]

/-- The word is the entry, and above it what the loop takes for the upper half. -/
theorem nextOf_upperHalf {buffer : Mem} (hholds : Holds s (entrySector s c) buffer)
    (hn : fatEntry s c = some n) (behind : Mem) :
    ∃ u, UpperHalf s c u ∧ nextOf s c buffer behind = n + 65536 * u := by
  unfold UpperHalf
  by_cases htype : s.selected_fat_type = .FAT16
  · refine ⟨_, ?_, nextOf_fat16 htype hholds hn behind⟩
    rw [if_pos htype]
    split
    · exact Nat.mod_lt _ (by omega)
    · next hlast => exact ⟨_, read16_succ htype hholds hlast behind, rfl⟩
  · refine ⟨0, ?_, nextOf_fat32 htype hholds hn behind⟩
    rw [if_neg htype]

/-- And each upper half there is can be the one that is read. -/
theorem upperHalf_nextOf {buffer : Mem} (hholds : Holds s (entrySector s c) buffer)
    (hn : fatEntry s c = some n) (hu : UpperHalf s c u) :
    ∃ behind, nextOf s c buffer behind = n + 65536 * u := by
  unfold UpperHalf at hu
  by_cases htype : s.selected_fat_type = .FAT16
  · rw [if_pos htype] at hu
    split at hu
    · next hlast =>
      refine ⟨write32 (fun _ => 0) 512 u, ?_⟩
      have hword : read32 (write32 (fun _ => 0) 512 u) 512 = u := read32_write32 (by omega)
      rw [read32_halves] at hword
      have hlow := read16_lt (write32 (fun _ => 0) 512 u) 512
      have hoffset : c * 2 % 512 + 2 = 512 := by omega
      have hbehind : read16 (withBehind buffer (write32 (fun _ => 0) 512 u)) 512 =
          read16 (write32 (fun _ => 0) 512 u) 512 := by
        unfold read16 withBehind
        rw [if_neg (by omega), if_neg (by omega)]
      rw [nextOf_fat16 htype hholds hn, hoffset, hbehind]
      omega
    · next hlast =>
      obtain ⟨e, he, rfl⟩ := hu
      refine ⟨fun _ => 0, ?_⟩
      have hsucc := read16_succ htype hholds hlast (fun _ => 0)
      rw [he, Option.some_inj] at hsucc
      rw [nextOf_fat16 htype hholds hn, ← hsucc]
  · rw [if_neg htype] at hu
    rw [hu]
    exact ⟨fun _ => 0, nextOf_fat32 htype hholds hn _⟩

/-! ## One round of the loop -/

/-- A round of the loop goes on with the word at the entry of its cluster. -/
theorem clusterLoop_succ {old b : Nat} {buffer buffer' : Mem} (visit : Nat → Except Stop Nat)
    (hm : Mounted s) (hc : IsCluster s c) (hn : fatEntry s c = some n)
    (hsector : fatSector s old (entrySector s c) buffer = some buffer') (hvisit : visit c = .ok b)
    (fuel : Nat) (behind : Nat → Mem) :
    clusterLoop s visit (fuel + 1) c old buffer behind =
      if b ≠ 0 then .ok ([c], b)
      else match clusterLoop s visit fuel (nextOf s c buffer' (behind 0)) (entrySector s c) buffer'
          (fun k => behind (k + 1)) with
        | .error e => .error e
        | .ok (visited, result) => .ok (c :: visited, result) := by
  rw [clusterLoop]
  simp only [hc.not_stop, getFatEntry_of_entry hm hc hn, hsector, hvisit, Bool.false_eq_true,
    if_false]
  rfl

/-- At a cluster of a chain, its sector is in the buffer. -/
theorem fatSector_of_entry {old : Nat} {buffer : Mem} (hn : fatEntry s c = some n)
    (hcached : old = entrySector s c → Holds s old buffer) :
    ∃ buffer', fatSector s old (entrySector s c) buffer = some buffer' ∧
      Holds s (entrySector s c) buffer' := by
  unfold fatEntry at hn
  obtain ⟨sector, hread, -⟩ := Option.map_eq_some_iff.mp hn
  exact fatSector_holds hcached hread

/-- What `read_file` visits behind the cluster `c`, the loop visits from the next number on. -/
theorem visited_behind {old : Nat} {buffer buffer' : Mem} {behind : Nat → Mem} (hm : Mounted s)
    (hc : IsCluster s c) (hn : fatEntry s c = some n)
    (hsector : fatSector s old (entrySector s c) buffer = some buffer')
    (h : clusterLoop s (fun _ => .ok 0) fuel c old buffer behind = .ok (c :: l, 0)) :
    clusterLoop s (fun _ => .ok 0) (fuel - 1) (nextOf s c buffer' (behind 0))
      (entrySector s c) buffer' (fun k => behind (k + 1)) = .ok (l, 0) := by
  cases fuel with
  | zero => cases h
  | succ fuel =>
    rw [clusterLoop_succ (fun _ => .ok 0) hm hc hn hsector rfl, if_neg (by simp)] at h
    rw [Nat.add_sub_cancel]
    split at h
    · cases h
    · next visited result hrest =>
      injection h with h
      injection h with hvisited hresult
      injection hvisited with _ hvisited
      rw [hrest, hvisited, hresult]

/-- No cluster is visited exactly when the loop stops at the number, or the sector for it
cannot be read. -/
theorem clusterLoop_nothing {old r : Nat} {buffer : Mem} {behind : Nat → Mem}
    (h : clusterLoop s (fun _ => .ok 0) fuel v old buffer behind = .ok ([], r)) :
    isStop v = true ∨ fatSector s old (getFatEntrySectorAndOffset s v).1 buffer = none := by
  cases fuel with
  | zero => cases h
  | succ fuel =>
    rw [clusterLoop] at h
    by_cases hstop : isStop v = true
    · exact Or.inl hstop
    · right
      rw [if_neg hstop] at h
      dsimp only at h
      grind

/-- The first cluster that is visited is the one the loop starts with. -/
theorem clusterLoop_head {old a r : Nat} {buffer : Mem} {behind : Nat → Mem}
    (h : clusterLoop s (fun _ => .ok 0) fuel v old buffer behind = .ok (a :: l, r)) :
    a = v := by
  cases fuel with
  | zero => cases h
  | succ fuel =>
    rw [clusterLoop] at h
    dsimp only at h
    grind

theorem fatSector_eq_none {old sector_num : Nat} {buffer : Mem} :
    fatSector s old sector_num buffer = none ↔
      sector_num ≠ old ∧ s.block_read_handler.read sector_num = none := by
  unfold fatSector
  split
  · next h => simp [Ne.symm h]
  · next h => simp [not_not.mp h]

theorem clusterLoop_ends {visit : Nat → Except Stop Nat} {buffer : Mem} (h : EndsAt s c v)
    (behind : Nat → Mem) :
    clusterLoop s visit (fuel + 1) v (entrySector s c) buffer behind =
      .ok ([], 0) := by
  rw [clusterLoop]
  rcases h with hstop | hnone
  · rw [if_pos hstop]
  · dsimp only
    rw [fatSector_eq_none.mpr hnone]
    split <;> rfl

/-! ## A run along a chain -/

theorem clusterLoop_chain (hm : Mounted s) (hchain : ClusterChain s c chain)
    (hgo : GoesOn s chain) {old : Nat} {buffer : Mem}
    (hcached : old = entrySector s c → Holds s old buffer) (visit : Nat → Nat)
    (behind : Nat → Mem) :
    clusterLoop s (fun c => .ok (visit c)) (chain.length + 1) c old buffer behind =
      .ok (visitedOf visit chain) := by
  induction hchain generalizing old buffer behind with
  | @last c n hc hn hend =>
    obtain ⟨buffer', hsector, hholds⟩ := fatSector_of_entry hn hcached
    obtain ⟨u, hu, hnext⟩ := nextOf_upperHalf hholds hn (behind 0)
    have hends : EndsAt s c (n + 65536 * u) := (goesOn_singleton hn).mp hgo u hu
    rw [List.length_singleton, clusterLoop_succ (fun c => .ok (visit c)) hm hc hn hsector rfl,
      hnext, clusterLoop_ends hends]
    unfold visitedOf visitedOf
    split <;> rfl
  | @link c n l hc hn hrest ih =>
    obtain ⟨buffer', hsector, hholds⟩ := fatSector_of_entry hn hcached
    obtain ⟨u, hu, hnext⟩ := nextOf_upperHalf hholds hn (behind 0)
    obtain ⟨hlink, hgo⟩ := (goesOn_cons hrest.ne_nil).mp hgo
    rw [hlink u hu, Nat.mul_zero, Nat.add_zero] at hnext
    rw [List.length_cons, clusterLoop_succ (fun c => .ok (visit c)) hm hc hn hsector rfl, hnext,
      ih hgo fun _ => hholds, visitedOf_cons]
    split <;> rfl

/-- Where `read_file` visits the clusters of a chain, the loop goes on at each of them. -/
theorem goesOn_of_visited (hm : Mounted s) (hchain : ClusterChain s c chain) {old : Nat}
    {buffer : Mem} (hcached : old = entrySector s c → Holds s old buffer)
    (hrun : ∀ behind,
      clusterLoop s (fun _ => .ok 0) fuel c old buffer behind = .ok (chain, 0)) :
    GoesOn s chain := by
  induction hchain generalizing old buffer fuel with
  | @last c n hc hn hend =>
    obtain ⟨buffer', hsector, hholds⟩ := fatSector_of_entry hn hcached
    refine (goesOn_singleton hn).mpr fun u hu => ?_
    obtain ⟨behind, hnext⟩ := upperHalf_nextOf hholds hn hu
    have hrest := visited_behind hm hc hn hsector (hrun fun _ => behind)
    rw [hnext] at hrest
    rcases clusterLoop_nothing hrest with hstop | hnone
    · exact Or.inl hstop
    · exact Or.inr (fatSector_eq_none.mp hnone)
  | @link c n l hc hn hrest ih =>
    obtain ⟨buffer', hsector, hholds⟩ := fatSector_of_entry hn hcached
    have hlink : ∀ u, UpperHalf s c u → u = 0 := by
      intro u hu
      obtain ⟨behind, hnext⟩ := upperHalf_nextOf hholds hn hu
      have hloop := visited_behind hm hc hn hsector (hrun fun _ => behind)
      obtain ⟨l', rfl⟩ := hrest.head
      have hhead := clusterLoop_head hloop
      omega
    have hloop : ∀ behind, clusterLoop s (fun _ => .ok 0) (fuel - 1) n (entrySector s c)
        buffer' behind = .ok (l, 0) := by
      intro behind
      have hloop := visited_behind hm hc hn hsector (hrun fun k => behind (k - 1))
      obtain ⟨u, hu, hnext⟩ := nextOf_upperHalf hholds hn (behind 0)
      rw [hlink u hu, Nat.mul_zero, Nat.add_zero] at hnext
      rwa [hnext] at hloop
    exact (goesOn_cons hrest.ne_nil).mpr ⟨hlink, ih (fun _ => hholds) hloop⟩

theorem nextOf_write32 (s : Fat) (c : Nat) (hv : v < 2 ^ 28) :
    ∃ m : Mem, nextOf s c m m = v := by
  refine ⟨write32 (fun _ => 0) (c * entryBytes s % 512) v, ?_⟩
  have hsame : ∀ m : Mem, withBehind m m = m := by
    intro m
    funext i
    unfold withBehind
    exact ite_self _
  unfold nextOf
  rw [hsame, read32_write32 (by omega), Nat.mod_eq_of_lt hv]

/-- With the sector 0, what stands in the buffer at the start is taken for the FAT, and a
word that leads elsewhere can stand there. -/
theorem first_of_visited (hm : Mounted s) (hchain : ClusterChain s c chain)
    (hrun : ∀ buffer behind,
      clusterLoop s (fun _ => .ok 0) fuel c 0 buffer behind = .ok (chain, 0)) :
    entrySector s c ≠ 0 := by
  intro hzero
  have hsector : ∀ buffer, fatSector s 0 (entrySector s c) buffer = some buffer := by
    intro buffer
    rw [hzero]
    exact if_neg (by simp)
  cases hchain with
  | last hc hn hend =>
    -- The loop comes back to the cluster.
    obtain ⟨m, hm'⟩ := nextOf_write32 s c hc.lt
    have hloop := visited_behind hm hc hn (hsector m) (hrun m fun _ => m)
    rw [hm', hzero] at hloop
    rcases clusterLoop_nothing hloop with hstop | hnone
    · rw [hc.not_stop] at hstop
      cases hstop
    · rw [getFatEntry_of_entry hm hc hn, hsector] at hnone
      cases hnone
  | link hc hn hrest =>
    -- The loop ends before the second cluster.
    obtain ⟨m, hm'⟩ := nextOf_write32 s c (show 0 < 2 ^ 28 by decide)
    have hloop := visited_behind hm hc hn (hsector m) (hrun m fun _ => m)
    rw [hm'] at hloop
    obtain ⟨l, rfl⟩ := hrest.head
    have hhead := clusterLoop_head hloop
    have htwo := hrest.isCluster.1
    omega

/-- A card with 512-byte sectors that is accepted: a chain of clusters is followed exactly
when the FAT sector of its first cluster is not the sector 0, each entry but the last has
zeros where the loop looks for the upper half, and the loop ends at the word it finds in the
last one. -/
theorem the_chain_is_followed_iff {disk : Disk}
    (hmount : initialize_fat (Fat.boot disk) (some disk) = (true, s))
    (hbytes : s.current_sd_partition.bytesPerSector = 512) (hchain : ClusterChain s c chain) :
    FollowsExactly s c chain ↔ Followable s c chain := by
  have hm : Mounted s := ⟨initialize_fat_type hmount, hbytes⟩
  constructor
  · rintro ⟨fuel, hrun⟩
    have hread : ∀ buffer behind,
        clusterLoop s (fun _ => .ok 0) fuel c 0 buffer behind = .ok (chain, 0) := by
      intro buffer behind
      rw [hrun (fun _ => 0), visitedOf_nothing]
    have hfirst := first_of_visited hm hchain hread
    have hcached : 0 = entrySector s c → Holds s 0 (fun _ => 0) := fun h => absurd h.symm hfirst
    exact ⟨goesOn_of_visited hm hchain hcached (hread fun _ => 0), hfirst⟩
  · rintro ⟨hgo, hfirst⟩
    refine ⟨chain.length + 1, fun visit buffer behind => ?_⟩
    exact clusterLoop_chain hm hchain hgo (fun h => absurd h.symm hfirst) visit behind

/-! ## Two cards -/

/-- A block whose bytes are 0 but for the ones in the list. -/
def blockOf (bytes : List (Nat × BitVec 8)) : Mem := fun i => (bytes.lookup i).getD 0

/-- A FAT32 card: a boot sector, the FAT in one block behind it, and then the clusters, of one
block each. Only the first of them holds something. -/
def smallCard (entries root : List (Nat × BitVec 8)) : Disk where
  read n :=
    if 2 ^ 32 ≤ n then none
    else match n with
      | 0 => some (blockOf [(0, 0xEB), (12, 2), (13, 1), (14, 1), (16, 1), (36, 1), (44, 2)])
      | 1 => some (blockOf entries)
      | 2 => some (blockOf root)
      | _ => some (blockOf [])
  numbered _ h := if_pos h

/-- The reader with such a card. -/
def smallFat (entries root : List (Nat × BitVec 8)) : Fat :=
  (initialize_fat (Fat.boot (smallCard entries root)) (some (smallCard entries root))).2

/-- The entry of the cluster 2 is 3, and the one of the cluster 3 is the last end mark. -/
def twoClusters : List (Nat × BitVec 8) := [(8, 3), (12, 0xFF), (13, 0xFF), (14, 0xFF), (15, 0x0F)]

/-- The entry of the cluster 2 is the first end mark. -/
def firstEndMark : List (Nat × BitVec 8) := [(8, 0xF8), (9, 0xFF), (10, 0xFF), (11, 0x0F)]

theorem two_clusters_are_followed : FollowsExactly (smallFat twoClusters []) 2 [2, 3] := by
  have hlast : ClusterChain (smallFat twoClusters []) 3 [3] :=
    .last (n := 0x0FFFFFFF) ⟨by decide, by decide⟩ (by decide +kernel) (by decide)
  have hchain : ClusterChain (smallFat twoClusters []) 2 [2, 3] :=
    .link ⟨by decide, by decide⟩ (by decide +kernel) hlast
  have hmount : initialize_fat (Fat.boot (smallCard twoClusters []))
      (some (smallCard twoClusters [])) = (true, smallFat twoClusters []) :=
    Prod.ext (by decide +kernel) rfl
  refine (the_chain_is_followed_iff hmount (by decide +kernel) hchain).mpr ⟨⟨?_, ?_⟩, ?_⟩
  · intro d _ u hu
    exact hu
  · intro d hd n hn u hu
    obtain rfl : 3 = d := by simpa using hd
    obtain rfl : n = 0x0FFFFFFF := by
      have hmark : fatEntry (smallFat twoClusters []) 3 = some 0x0FFFFFFF := by decide +kernel
      exact Option.some_inj.mp (hn.symm.trans hmark)
    obtain rfl : u = 0 := hu
    exact Or.inl rfl
  · decide +kernel

/-- Behind the first of the end marks, the loop goes on to a cluster of that number. -/
theorem the_first_end_mark_is_followed :
    ¬ ∀ (disk : Disk) (s : Fat) (c : Nat) (chain : List Nat),
      initialize_fat (Fat.boot disk) (some disk) = (true, s) →
        s.current_sd_partition.bytesPerSector = 512 → ClusterChain s c chain →
          FollowsExactly s c chain := by
  intro h
  have hentry : fatEntry (smallFat firstEndMark []) 2 = some 0x0FFFFFF8 := by decide +kernel
  have hc : IsCluster (smallFat firstEndMark []) 2 := ⟨by decide, by decide⟩
  have hmount : initialize_fat (Fat.boot (smallCard firstEndMark []))
      (some (smallCard firstEndMark [])) = (true, smallFat firstEndMark []) :=
    Prod.ext (by decide +kernel) rfl
  have hbytes : (smallFat firstEndMark []).current_sd_partition.bytesPerSector = 512 := by
    decide +kernel
  obtain ⟨fuel, hrun⟩ := h _ _ 2 [2] hmount hbytes (.last hc hentry (by decide))
  have hm : Mounted (smallFat firstEndMark []) := ⟨initialize_fat_type hmount, hbytes⟩
  have hfirst : 0 = entrySector (smallFat firstEndMark []) 2 →
      Holds (smallFat firstEndMark []) 0 (fun _ => 0) := fun h => absurd h (by decide +kernel)
  obtain ⟨buffer', hsector, hholds⟩ := fatSector_of_entry hentry hfirst
  have hrest := visited_behind hm hc hentry hsector (hrun (fun _ => 0) _ fun _ _ => 0)
  rw [nextOf_fat32 (by decide +kernel) hholds hentry] at hrest
  rcases clusterLoop_nothing hrest with hstop | hnone
  · exact absurd hstop (by decide)
  · have hread := (fatSector_eq_none.mp hnone).2
    exact absurd hread (by decide +kernel)

end rpi_wifi.fat
