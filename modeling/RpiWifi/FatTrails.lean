-- Where the loop over the clusters goes, whatever its visits are: from a number to the one in
-- its FAT entry, until it stops, cannot read the FAT, or finds something.
import RpiWifi.FatTree

namespace rpi_wifi.fat

open memory first_found

/-- The entry of a cluster, as the loop reads it. -/
def entryOf (s : Fat) (v : Nat) : Option Nat :=
  let entry := getFatEntrySectorAndOffset s v
  (s.block_read_handler.read entry.1).map fun sector => read32 sector entry.2 % 2 ^ 28

/-- From the number `v` on the loop goes to these clusters, and ends. -/
inductive Trail (s : Fat) : Nat → List Nat → Prop
  | stop {v : Nat} (hstop : isStop v = true) : Trail s v []
  | unread {v : Nat} (hstop : isStop v = false) (hnone : entryOf s v = none) : Trail s v []
  | next {v n : Nat} {l : List Nat} (hstop : isStop v = false) (hn : entryOf s v = some n)
    (hrest : Trail s n l) : Trail s v (v :: l)

/-- From the number `v` on the loop goes to these clusters first. -/
inductive Along (s : Fat) : Nat → List Nat → Prop
  | nil {v : Nat} : Along s v []
  | next {v n : Nat} {l : List Nat} (hstop : isStop v = false) (hn : entryOf s v = some n)
    (hrest : Along s n l) : Along s v (v :: l)

/-- The loop does not take the sector of its first entry for the one in its buffer. -/
def ReadsFirst (s : Fat) (v : Nat) : Prop :=
  isStop v = false → (getFatEntrySectorAndOffset s v).1 ≠ 0

/-- No entry of the FAT lies in the sector 0, which the loops take for one that they have
in their buffer. -/
def BehindSectorZero (s : Fat) : Prop := ∀ v, (getFatEntrySectorAndOffset s v).1 ≠ 0

variable {s : Fat} {c d v n : Nat} {l l' chain : List Nat}

theorem Trail.unique (h : Trail s v l) (h' : Trail s v l') : l = l' := by
  induction h generalizing l' with
  | stop hstop =>
    cases h' with
    | stop _ => rfl
    | unread _ _ => rfl
    | next hgo _ _ => cases hstop.symm.trans hgo
  | unread hgo hnone =>
    cases h' with
    | stop _ => rfl
    | unread _ _ => rfl
    | next _ hn _ => cases hnone.symm.trans hn
  | next hgo hn _ ih =>
    cases h' with
    | stop hstop => cases hstop.symm.trans hgo
    | unread _ hnone => cases hnone.symm.trans hn
    | next _ hn' hrest =>
      obtain rfl := Option.some_inj.mp (hn.symm.trans hn')
      rw [ih hrest]

/-! ## A round of the loop -/

theorem offset_le (hs : IsFat32 s) (v : Nat) : (getFatEntrySectorAndOffset s v).2 ≤ 508 := by
  unfold getFatEntrySectorAndOffset
  dsimp only
  rw [if_neg (by rw [hs.type]; decide), hs.bytes]
  omega

section
variable {visit : Nat → Except Stop Nat} {old fuel r : Nat} {buffer : Mem}

theorem ReadsFirst.cached (h : ReadsFirst s v) (hgo : isStop v = false)
    (hcached : 0 = (getFatEntrySectorAndOffset s v).1) : Holds s 0 buffer :=
  absurd hcached.symm (h hgo)

/-- A round of the loop, at a number where it does not stop. -/
theorem clusterLoop_round (hs : IsFat32 s) (visit : Nat → Except Stop Nat)
    (hgo : isStop v = false)
    (hcached : old = (getFatEntrySectorAndOffset s v).1 → Holds s old buffer) (fuel : Nat)
    (behind : Nat → Mem) :
    (entryOf s v = none ∧
      clusterLoop s visit (fuel + 1) v old buffer behind = .ok ([], 0)) ∨
    ∃ n buffer', entryOf s v = some n ∧
      Holds s (getFatEntrySectorAndOffset s v).1 buffer' ∧
      clusterLoop s visit (fuel + 1) v old buffer behind =
        match visit v with
        | .error e => .error e
        | .ok first_cluster =>
          if first_cluster ≠ 0 then .ok ([v], first_cluster)
          else match clusterLoop s visit fuel n (getFatEntrySectorAndOffset s v).1 buffer'
            (fun k => behind (k + 1)) with
          | .error e => .error e
          | .ok (visited, result) => .ok (v :: visited, result) := by
  have hoffset := offset_le hs v
  unfold entryOf
  rw [clusterLoop]
  dsimp only
  cases hread : s.block_read_handler.read (getFatEntrySectorAndOffset s v).1 with
  | none =>
    have hne : (getFatEntrySectorAndOffset s v).1 ≠ old := by
      intro heq
      obtain ⟨sector, hsector, -⟩ := hcached heq.symm
      rw [← heq, hread] at hsector
      cases hsector
    rw [fatSector_eq_none.mpr ⟨hne, hread⟩, hgo]
    exact Or.inl ⟨rfl, rfl⟩
  | some sector =>
    obtain ⟨buffer', hsector, hholds⟩ := fatSector_holds hcached hread
    have hnext : read32 (withBehind buffer' (behind 0)) (getFatEntrySectorAndOffset s v).2 =
        read32 sector (getFatEntrySectorAndOffset s v).2 := by
      obtain ⟨sector', hread', hbytes⟩ := hholds
      obtain rfl := Option.some_inj.mp (hread.symm.trans hread')
      unfold read32
      rw [withBehind_inside hbytes _ (by omega), withBehind_inside hbytes _ (by omega),
        withBehind_inside hbytes _ (by omega), withBehind_inside hbytes _ (by omega)]
    rw [hsector, hgo]
    refine Or.inr ⟨_, buffer', rfl, hholds, ?_⟩
    dsimp only
    rw [← hnext]
    rfl

/-! ## Along a trail -/

/-- With fuel for it, the loop goes along its trail when nothing is found there. -/
theorem clusterLoop_of_trail (hs : IsFat32 s) (h : Trail s v l)
    (hnothing : ∀ d ∈ l, visit d = .ok 0)
    (hcached : isStop v = false → old = (getFatEntrySectorAndOffset s v).1 → Holds s old buffer)
    (hfuel : l.length < fuel) (behind : Nat → Mem) :
    clusterLoop s visit fuel v old buffer behind = .ok (l, 0) := by
  induction h generalizing old fuel buffer behind with
  | stop hstop =>
    obtain ⟨fuel, rfl⟩ := Nat.exists_eq_add_of_lt hfuel
    exact if_pos hstop
  | unread hgo hnone =>
    obtain ⟨fuel, rfl⟩ := Nat.exists_eq_add_of_lt hfuel
    rcases clusterLoop_round hs visit hgo (hcached hgo) _ behind with ⟨-, hloop⟩ | ⟨n, -, hn, -⟩
    · exact hloop
    · cases hnone.symm.trans hn
  | next hgo hn _ ih =>
    obtain ⟨fuel, rfl⟩ := Nat.exists_eq_add_of_lt hfuel
    rcases clusterLoop_round hs visit hgo (hcached hgo) _ behind with
      ⟨hnone, -⟩ | ⟨n, buffer', hn', hholds, hloop⟩
    · cases hnone.symm.trans hn
    · obtain rfl := Option.some_inj.mp (hn.symm.trans hn')
      rw [hloop, hnothing _ List.mem_cons_self,
        ih (fun d hd => hnothing d (List.mem_cons_of_mem _ hd)) (fun _ heq => heq ▸ hholds)
          (by simp only [List.length_cons]; omega)]
      exact if_neg (not_not.mpr rfl)

/-- The loop goes along these clusters up to the one where something is found. -/
theorem clusterLoop_of_along (hs : IsFat32 s) (h : Along s v l)
    (hfound : firstFound 0 visit l = .ok r) (hr : r ≠ 0)
    (hcached : isStop v = false → old = (getFatEntrySectorAndOffset s v).1 → Holds s old buffer)
    (hfuel : l.length ≤ fuel) (behind : Nat → Mem) :
    ∃ visited, clusterLoop s visit fuel v old buffer behind = .ok (visited, r) := by
  induction h generalizing old fuel buffer behind with
  | nil => exact absurd (Except.ok.inj hfound).symm hr
  | @next v n l hgo hn _ ih =>
    obtain ⟨fuel, rfl⟩ := Nat.exists_eq_succ_of_ne_zero (Nat.ne_zero_of_lt hfuel)
    rcases clusterLoop_round hs visit hgo (hcached hgo) fuel behind with
      ⟨hnone, -⟩ | ⟨m, buffer', hm, hholds, hloop⟩
    · cases hnone.symm.trans hn
    · obtain rfl := Option.some_inj.mp (hn.symm.trans hm)
      rw [hloop]
      obtain ⟨b, hvisit, ⟨hb, rfl⟩ | ⟨rfl, hrest⟩⟩ := firstFound_cons_ok hfound
      · rw [hvisit]
        exact ⟨_, if_pos hb⟩
      · obtain ⟨visited, hloop'⟩ := @ih (getFatEntrySectorAndOffset s v).1 fuel buffer' hrest
          (fun _ heq => heq ▸ hholds) (Nat.le_of_succ_le_succ hfuel) fun k => behind (k + 1)
        rw [hvisit]
        dsimp only
        rw [hloop', if_neg (not_not.mpr rfl)]
        exact ⟨_, rfl⟩

/-- Where the loop finds nothing, its visits have found nothing. -/
theorem visits_of_clusterLoop {behind : Nat → Mem}
    (h : clusterLoop s visit fuel v old buffer behind = .ok (l, 0)) :
    ∀ d ∈ l, visit d = .ok 0 := by
  induction fuel generalizing v l old buffer behind with
  | zero => cases h
  | succ fuel ih =>
    rw [clusterLoop] at h
    dsimp only at h
    split at h
    · cases h
      simp
    · split at h
      · cases h
        simp
      · split at h
        · cases h
        · next first_cluster hvisit =>
          split at h
          · next hne =>
            cases h
            exact absurd rfl hne
          · next heq =>
            obtain rfl := not_not.mp heq
            split at h
            · cases h
            · next visited result hrest =>
              cases h
              exact List.forall_mem_cons.mpr ⟨hvisit, ih hrest⟩

/-- Where the loop ends and nothing is found, it has gone along a trail. -/
theorem trail_of_clusterLoop (hs : IsFat32 s)
    (hcached : old = (getFatEntrySectorAndOffset s v).1 → Holds s old buffer)
    {behind : Nat → Mem} (h : clusterLoop s visit fuel v old buffer behind = .ok (l, r))
    (hnothing : ∀ d ∈ l, visit d = .ok 0) : Trail s v l := by
  induction fuel generalizing v l old buffer behind with
  | zero => cases h
  | succ fuel ih =>
    by_cases hgo : isStop v = true
    · rw [clusterLoop, if_pos hgo] at h
      cases h
      exact .stop hgo
    · have hgo : isStop v = false := by simpa using hgo
      rcases clusterLoop_round hs visit hgo hcached fuel behind with
        ⟨hnone, hloop⟩ | ⟨n, buffer', hn, hholds, hloop⟩
      · cases hloop.symm.trans h
        exact .unread hgo hnone
      · rw [hloop] at h
        split at h
        · cases h
        · next first_cluster hvisit =>
          split at h
          · next hne =>
            cases h
            have heq := hvisit.symm.trans (hnothing v List.mem_cons_self)
            exact absurd (Except.ok.inj heq) hne
          · split at h
            · cases h
            · next visited result hrest =>
              cases h
              have hrest' := ih (fun heq => heq ▸ hholds) hrest
                fun d hd => hnothing d (List.mem_cons_of_mem _ hd)
              exact .next hgo hn hrest'

end

/-! ## Chains -/

/-- The loop over the sectors of a cluster goes through all of them. -/
theorem sectorsOf_eq (hc : IsCluster s c) (hfits : Fits s c) : sectorsOf s c = dataSectors s c := by
  have htwo := hc.1
  unfold Fits at hfits
  unfold sectorsOf dataSectors getFirstSectorOfCluster
  dsimp only at hfits ⊢
  have hfirst : ((c + 2 ^ 32 - 2) * s.current_sd_partition.sectorPerCluster +
      s.current_sd_partition.firstDataSector) % 2 ^ 32 =
        s.current_sd_partition.firstDataSector +
          (c - 2) * s.current_sd_partition.sectorPerCluster := by
    rw [(by omega : c + 2 ^ 32 - 2 = c - 2 + 2 ^ 32), Nat.add_mul, Nat.add_right_comm,
      Nat.add_mul_mod_self_left, Nat.add_comm, Nat.mod_eq_of_lt (by omega)]
  rw [hfirst, Nat.mod_eq_of_lt hfits, Nat.add_sub_cancel_left]

theorem ClusterChain.all_clusters (h : ClusterChain s c chain) : ∀ d ∈ chain, IsCluster s d := by
  induction h with
  | last hc hn hend =>
    intro d hd
    rw [List.mem_singleton.mp hd]
    exact hc
  | link hc hn hrest ih =>
    intro d hd
    rcases List.mem_cons.mp hd with rfl | hd
    · exact hc
    · exact ih d hd

theorem entryOf_cluster (hs : IsFat32 s) (hc : IsCluster s c) (hn : fatEntry s c = some n) :
    entryOf s c = some n := by
  have htype : s.selected_fat_type ≠ .FAT16 := by
    rw [hs.type]
    decide
  unfold entryOf
  rw [getFatEntry_of_entry ⟨Or.inr hs.type, hs.bytes⟩ hc hn, ← hn]
  unfold fatEntry entryBytes
  simp only [htype, if_false]

theorem ClusterChain.along (hs : IsFat32 s) (h : ClusterChain s c chain) : Along s c chain := by
  induction h with
  | last hc hn _ => exact .next hc.not_stop (entryOf_cluster hs hc hn) .nil
  | link hc hn _ ih => exact .next hc.not_stop (entryOf_cluster hs hc hn) ih

/-- The sector of the first entry is none that the loop takes for the one in its buffer. -/
theorem ClusterChain.first_sector (hs : IsFat32 s) (h : ClusterChain s c chain) :
    (getFatEntrySectorAndOffset s c).1 ≠ 0 := by
  have hm : Mounted s := ⟨Or.inr hs.type, hs.bytes⟩
  have hreserved := hs.reserved
  obtain ⟨n, hn⟩ : ∃ n, fatEntry s c = some n := by
    cases h with
    | last _ hn _ => exact ⟨_, hn⟩
    | link _ hn _ => exact ⟨_, hn⟩
  rw [getFatEntry_of_entry hm h.isCluster hn]
  unfold entrySector
  dsimp only
  omega

/-- A chain is gone along, and then what the end mark leads to. -/
theorem trail_iff (hs : IsFat32 s) (hchain : ClusterChain s c chain) :
    Trail s c l ↔ ∃ d ∈ chain.getLast?, ∃ n ∈ fatEntry s d, ∃ more, Trail s n more ∧
      l = chain ++ more := by
  have hstep : ∀ {c n l}, IsCluster s c → fatEntry s c = some n →
      (Trail s c l ↔ ∃ rest, Trail s n rest ∧ l = c :: rest) := by
    intro c n l hc hn
    have hentry := entryOf_cluster hs hc hn
    constructor
    · intro h
      cases h with
      | stop hstop => cases hstop.symm.trans hc.not_stop
      | unread _ hnone => cases hnone.symm.trans hentry
      | next _ hn' hrest =>
        obtain rfl := Option.some_inj.mp (hentry.symm.trans hn')
        exact ⟨_, hrest, rfl⟩
    · rintro ⟨rest, hrest, rfl⟩
      exact .next hc.not_stop hentry hrest
  induction hchain generalizing l with
  | @last c n hc hn hend =>
    rw [hstep hc hn]
    simp [hn]
  | @link c n chain hc hn hrest ih =>
    rw [hstep hc hn, List.getLast?_cons_of_ne_nil hrest.ne_nil]
    constructor
    · rintro ⟨rest, htrail, rfl⟩
      obtain ⟨d, hd, m, hm, more, hmore, rfl⟩ := ih.mp htrail
      exact ⟨d, hd, m, hm, more, hmore, rfl⟩
    · rintro ⟨d, hd, m, hm, more, hmore, rfl⟩
      exact ⟨chain ++ more, ih.mpr ⟨d, hd, m, hm, more, hmore, rfl⟩, rfl⟩

end rpi_wifi.fat
