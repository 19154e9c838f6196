-- Where the FAT and the clusters of an accepted card are taken to be. The place
-- of the FAT comes from the MBR, or from an earlier card where there is none,
-- and the place of the clusters of FAT32 from the boot sector. No field of the
-- boot sector is looked at before something is divided by it.
import RpiWifi.FatChains

namespace rpi_wifi.fat

open memory

variable {s s' : Fat} {disk : Disk} {bpb : Mem} {P c : Nat}

/-! ## The divisions -/

/-- `/` and `%`, which give nothing for the divisor 0. -/
def quotient (a b : Nat) : Option Nat := if b = 0 then none else some (a / b)

def remainder (a b : Nat) : Option Nat := if b = 0 then none else some (a % b)

/-- `partition_totalClusters`, which `initialize_fat` computes before it prints it. -/
def partition_totalClusters (s : Fat) : Option Nat :=
  quotient s.current_sd_partition.dataSectors s.current_sd_partition.sectorPerCluster

/-- `getFatEntrySectorAndOffset`, with its two divisions. -/
def entryPlace (s : Fat) (cluster_number : Nat) : Option (Nat × Nat) := do
  let p := s.current_sd_partition
  let fat_offset :=
    if s.selected_fat_type = .FAT16 then cluster_number * 2 % 2 ^ 32
    else cluster_number * 4 % 2 ^ 32
  let sector ← quotient fat_offset p.bytesPerSector
  let offset ← remainder fat_offset p.bytesPerSector
  pure ((p.unusedSectors + p.reservedSectorCount + sector) % 2 ^ 32, offset)

theorem quotient_ne_none {a b : Nat} : quotient a b ≠ none ↔ b ≠ 0 := by
  unfold quotient
  split <;> simp_all

theorem entryPlace_eq (h : s.current_sd_partition.bytesPerSector ≠ 0) :
    entryPlace s c = some (getFatEntrySectorAndOffset s c) := by
  unfold entryPlace quotient remainder getFatEntrySectorAndOffset
  simp [h]

theorem entryPlace_ne_none :
    entryPlace s c ≠ none ↔ s.current_sd_partition.bytesPerSector ≠ 0 := by
  constructor
  · intro h hzero
    refine h ?_
    unfold entryPlace quotient
    simp [hzero]
  · intro h
    simp [entryPlace_eq h]

/-! ## The partition of a card -/

/-- The first sector of the partition and its boot sector. A card without an MBR is one
partition that starts at 0. -/
def partitionOf (disk : Disk) : Option (Nat × Mem) :=
  match disk.read 0 with
  | none => none
  | some block =>
    if isBootSector block then some (0, block)
    else if read16 block 510 ≠ 0xaa55 then none
    else
      match disk.read (read32 block 454) with
      | none => none
      | some bpb => if isBootSector bpb then some (read32 block 454, bpb) else none

/-- `unusedSectors` after a call for a partition that starts at `P`: without an MBR, it stays
what it was. -/
def startAfter (s : Fat) (P : Nat) : Nat :=
  if P = 0 then s.current_sd_partition.unusedSectors else P

/-- The reader that `mount` is called with. -/
def Fat.at (s : Fat) (disk : Disk) (P : Nat) : Fat :=
  { s with
    block_read_handler := disk
    current_sd_partition := { s.current_sd_partition with unusedSectors := startAfter s P } }

theorem initialize_fat_of_partition (h : partitionOf disk = some (P, bpb)) :
    initialize_fat s (some disk) = (true, mount (s.at disk P) bpb) := by
  unfold partitionOf at h
  unfold initialize_fat
  dsimp only
  cases hblock : disk.read 0 with
  | none => simp [hblock] at h
  | some block =>
    simp only [hblock] at h ⊢
    by_cases hboot : isBootSector block = true
    · rw [if_pos hboot] at h ⊢
      cases h
      rfl
    · rw [if_neg hboot] at h ⊢
      by_cases hmbr : read16 block 510 = 0xaa55
      · rw [if_neg (not_not_intro hmbr)] at h ⊢
        cases hread : disk.read (read32 block 454) with
        | none => simp [hread] at h
        | some bpb' =>
          simp only [hread] at h ⊢
          by_cases hboot' : isBootSector bpb' = true
          · rw [if_pos hboot'] at h ⊢
            cases h
            -- a partition at 0 would be the MBR itself, which is no boot sector
            have hne : read32 block 454 ≠ 0 := by
              intro hzero
              rw [hzero, hblock] at hread
              cases hread
              exact hboot hboot'
            unfold Fat.at startAfter
            rw [if_neg hne]
          · simp [hboot'] at h
      · simp [hmbr] at h

theorem partition_of_accepted (h : (initialize_fat s (some disk)).1 = true) :
    ∃ P bpb, partitionOf disk = some (P, bpb) := by
  unfold initialize_fat at h
  unfold partitionOf
  cases hblock : disk.read 0 with
  | none => simp [hblock] at h
  | some block =>
    simp only [hblock] at h ⊢
    split at h
    · next hboot => exact ⟨0, block, by rw [if_pos hboot]⟩
    · next hboot =>
      rw [if_neg hboot]
      split at h
      · simp at h
      · next hmbr =>
        rw [if_neg hmbr]
        cases hread : disk.read (read32 block 454) with
        | none => simp [hread] at h
        | some bpb =>
          simp only [hread] at h
          by_cases hboot' : isBootSector bpb = true
          · exact ⟨_, bpb, if_pos hboot'⟩
          · simp [hboot'] at h

/-! ## The states that calls leave -/

/-- The reader after calls of `initialize_fat`, whatever each of them finds. -/
inductive Reached : Fat → Prop
  | boot (disk : Disk) : Reached (Fat.boot disk)
  | call {s : Fat} (handler : Option Disk) (h : Reached s) : Reached (initialize_fat s handler).2

theorem read32_lt (m : Mem) (a : Nat) : read32 m a < 2 ^ 32 := by
  have hlow := read16_lt m a
  have hhigh := read16_lt m (a + 2)
  rw [read32_halves]
  omega

theorem mount_start (s : Fat) (bpb : Mem) :
    (mount s bpb).current_sd_partition.unusedSectors = s.current_sd_partition.unusedSectors := by
  unfold mount
  dsimp only
  split <;> rfl

/-- A call leaves the start as it is, or takes it from an MBR. -/
theorem initialize_fat_start (s : Fat) (handler : Option Disk) :
    (initialize_fat s handler).2.current_sd_partition.unusedSectors =
        s.current_sd_partition.unusedSectors ∨
      ∃ block, (initialize_fat s handler).2.current_sd_partition.unusedSectors =
        read32 block 454 := by
  unfold initialize_fat
  cases handler with
  | none => exact Or.inl rfl
  | some disk =>
    dsimp only
    cases disk.read 0 with
    | none => exact Or.inl rfl
    | some block =>
      dsimp only
      split
      · exact Or.inl (mount_start _ _)
      · split
        · exact Or.inl rfl
        · refine Or.inr ⟨block, ?_⟩
          split
          · rfl
          · split
            · exact mount_start _ _
            · rfl

theorem Reached.start_lt (h : Reached s) : s.current_sd_partition.unusedSectors < 2 ^ 32 := by
  induction h with
  | boot disk => exact Nat.two_pow_pos 32
  | @call s handler _ ih =>
    rcases initialize_fat_start s handler with hsame | ⟨block, hblock⟩
    · rwa [hsame]
    · rw [hblock]
      exact read32_lt _ _

/-! ## The geometry -/

/-- The check by which `initialize_fat` takes a volume for FAT32. -/
def NamesFat32 (bpb : Mem) : Prop := read16 bpb 22 = 0 ∧ read16 bpb 17 = 0

theorem mount_fields (s : Fat) (bpb : Mem) :
    (mount s bpb).current_sd_partition.sectorPerCluster = (bpb 13).toNat ∧
      (mount s bpb).current_sd_partition.bytesPerSector = read16 bpb 11 ∧
        (mount s bpb).current_sd_partition.reservedSectorCount = read16 bpb 14 := by
  unfold mount
  dsimp only
  split <;> exact ⟨rfl, rfl, rfl⟩

theorem mount_fat32 : (mount s bpb).selected_fat_type = .FAT32 ↔ NamesFat32 bpb := by
  unfold mount NamesFat32
  dsimp only
  split <;> simp_all

theorem mount_firstDataSector (h : NamesFat32 bpb) :
    (mount s bpb).current_sd_partition.firstDataSector =
      (read16 bpb 14 + read32 bpb 28 + read32 bpb 36 * (bpb 16).toNat) % 2 ^ 32 := by
  obtain ⟨hsize, hroot⟩ := h
  unfold mount
  dsimp only
  rw [if_pos ⟨hsize, hroot⟩]

/-- The geometry that a card with its partition at `P` has, in the reader `s`: nothing is
divided by 0, and the FAT and the clusters of FAT32 are looked for in that partition. A
cluster of FAT32 has 28 bits. -/
structure Consistent (s : Fat) (P : Nat) (bpb : Mem) : Prop where
  total : partition_totalClusters s ≠ none
  entry : ∀ c, entryPlace s c ≠ none
  sector : s.selected_fat_type = .FAT32 → ∀ c < 2 ^ 28,
    ∃ offset, entryPlace s c = some (P + read16 bpb 14 + 4 * c / read16 bpb 11, offset)
  data : s.selected_fat_type = .FAT32 →
    getFirstSectorOfCluster s 2 = P + read16 bpb 14 + (bpb 16).toNat * read32 bpb 36

/-- The boot sectors that give such a geometry, after the calls that lead to `s`. -/
structure Agrees (s : Fat) (P : Nat) (bpb : Mem) : Prop where
  cluster : bpb 13 ≠ 0
  sector : read16 bpb 11 ≠ 0
  start : NamesFat32 bpb → P = 0 → s.current_sd_partition.unusedSectors = 0
  hidden : NamesFat32 bpb → read32 bpb 28 = P
  tables : NamesFat32 bpb → P + read16 bpb 14 + (bpb 16).toNat * read32 bpb 36 < 2 ^ 32
  entries : NamesFat32 bpb → P + read16 bpb 14 + (2 ^ 30 - 4) / read16 bpb 11 < 2 ^ 32

/-- A sum of 32 bits is the one without a bound where its first part is the same and the
whole has room. -/
theorem mod_add_eq_iff {a b x : Nat} (ha : a < 2 ^ 32) (hb : b < 2 ^ 32) :
    (a + x) % 2 ^ 32 = b + x ↔ a = b ∧ b + x < 2 ^ 32 := by
  constructor
  · intro h
    omega
  · rintro ⟨rfl, hlt⟩
    exact Nat.mod_eq_of_lt hlt

theorem startAfter_eq_iff :
    startAfter s P = P ↔ (P = 0 → s.current_sd_partition.unusedSectors = 0) := by
  unfold startAfter
  by_cases hzero : P = 0
  · simp [hzero]
  · simp [hzero]

theorem partition_lt (h : partitionOf disk = some (P, bpb)) : P < 2 ^ 32 := by
  unfold partitionOf at h
  have hword := @read32_lt
  grind

/-- The sector of an entry, with the start that is kept from an earlier card. -/
theorem entry_sector_iff (hstart : s.current_sd_partition.unusedSectors < 2 ^ 32)
    (hP : P < 2 ^ 32) (hfat : NamesFat32 bpb) (hc : c < 2 ^ 28) :
    (getFatEntrySectorAndOffset (mount (s.at disk P) bpb) c).1 =
        P + read16 bpb 14 + 4 * c / read16 bpb 11 ↔
      startAfter s P = P ∧ P + read16 bpb 14 + 4 * c / read16 bpb 11 < 2 ^ 32 := by
  have htype : (mount (s.at disk P) bpb).selected_fat_type = .FAT32 := mount_fat32.mpr hfat
  obtain ⟨-, hbytes, hreserved⟩ := mount_fields (s.at disk P) bpb
  have hunused : (mount (s.at disk P) bpb).current_sd_partition.unusedSectors = startAfter s P :=
    mount_start _ _
  have hlt : startAfter s P < 2 ^ 32 := by
    unfold startAfter
    split <;> assumption
  unfold getFatEntrySectorAndOffset
  simp only [htype, hbytes, hreserved, hunused, reduceCtorEq, if_false]
  rw [Nat.mul_comm c 4, Nat.mod_eq_of_lt (show 4 * c < 2 ^ 32 by omega), Nat.add_assoc,
    Nat.add_assoc, mod_add_eq_iff hlt hP]

theorem first_sector_iff (hP : P < 2 ^ 32) (hfat : NamesFat32 bpb) :
    getFirstSectorOfCluster (mount (s.at disk P) bpb) 2 =
        P + read16 bpb 14 + (bpb 16).toNat * read32 bpb 36 ↔
      read32 bpb 28 = P ∧ P + read16 bpb 14 + (bpb 16).toNat * read32 bpb 36 < 2 ^ 32 := by
  have hhidden := read32_lt bpb 28
  unfold getFirstSectorOfCluster
  simp only [mount_firstDataSector hfat]
  have hsum : ((2 + 2 ^ 32 - 2) * (mount (s.at disk P) bpb).current_sd_partition.sectorPerCluster +
      (read16 bpb 14 + read32 bpb 28 + read32 bpb 36 * (bpb 16).toNat) % 2 ^ 32) % 2 ^ 32 =
      (read32 bpb 28 + (read16 bpb 14 + (bpb 16).toNat * read32 bpb 36)) % 2 ^ 32 := by
    rw [Nat.add_sub_cancel_left, Nat.mul_add_mod, Nat.mod_mod, Nat.mul_comm (read32 bpb 36)]
    congr 1
    omega
  rw [hsum, Nat.add_assoc, mod_add_eq_iff hhidden hP]

theorem the_geometry_is_consistent_iff (hs : Reached s) (hp : partitionOf disk = some (P, bpb))
    (h : initialize_fat s (some disk) = (true, s')) : Consistent s' P bpb ↔ Agrees s P bpb := by
  obtain rfl : mount (s.at disk P) bpb = s' := by
    rw [initialize_fat_of_partition hp] at h
    exact congrArg Prod.snd h
  have hP := partition_lt hp
  obtain ⟨hcluster, hbytes, -⟩ := mount_fields (s.at disk P) bpb
  have hzero : (bpb 13).toNat ≠ 0 ↔ bpb 13 ≠ 0 := by simp [BitVec.toNat_eq]
  constructor
  · intro hcons
    have hsector : read16 bpb 11 ≠ 0 := hbytes ▸ entryPlace_ne_none.mp (hcons.entry 0)
    have hplace := fun c => entryPlace_eq (c := c) (hbytes ▸ hsector)
    have hsectors : NamesFat32 bpb → ∀ c < 2 ^ 28, startAfter s P = P ∧
        P + read16 bpb 14 + 4 * c / read16 bpb 11 < 2 ^ 32 := by
      intro hfat c hc
      obtain ⟨offset, hentry⟩ := hcons.sector (mount_fat32.mpr hfat) c hc
      rw [hplace c, Option.some_inj] at hentry
      exact (entry_sector_iff hs.start_lt hP hfat hc).mp (congrArg Prod.fst hentry)
    have hfirst := fun hfat => (first_sector_iff hP hfat).mp (hcons.data (mount_fat32.mpr hfat))
    refine ⟨?_, hsector, ?_, fun hfat => (hfirst hfat).1, fun hfat => (hfirst hfat).2, ?_⟩
    · have htotal := quotient_ne_none.mp hcons.total
      rw [hcluster] at htotal
      exact hzero.mp htotal
    · intro hfat
      exact startAfter_eq_iff.mp (hsectors hfat 0 (by omega)).1
    · intro hfat
      exact (hsectors hfat (2 ^ 28 - 1) (by omega)).2
  · intro hagrees
    have hplace := fun c => entryPlace_eq (c := c) (hbytes ▸ hagrees.sector)
    refine ⟨?_, ?_, ?_, ?_⟩
    · refine quotient_ne_none.mpr ?_
      rw [hcluster]
      exact hzero.mpr hagrees.cluster
    · intro c
      simp [hplace]
    · intro htype c hc
      have hfat := mount_fat32.mp htype
      have hroom : 4 * c / read16 bpb 11 ≤ (2 ^ 30 - 4) / read16 bpb 11 :=
        Nat.div_le_div_right (by omega)
      have hsector := (@entry_sector_iff s disk _ _ _ hs.start_lt hP hfat hc).mpr
        ⟨startAfter_eq_iff.mpr (hagrees.start hfat), by have := hagrees.entries hfat; omega⟩
      exact ⟨_, by rw [hplace c, ← hsector]⟩
    · intro htype
      have hfat := mount_fat32.mp htype
      exact (first_sector_iff hP hfat).mpr ⟨hagrees.hidden hfat, hagrees.tables hfat⟩

/-! ## Cards that are accepted -/

/-- A card with the blocks that a list gives, and blocks of zeros behind them. -/
def cardOf (blocks : List (List (Nat × BitVec 8))) : Disk where
  read n := if 2 ^ 32 ≤ n then none else some (blockOf (blocks.getD n []))
  numbered _ h := if_pos h

/-- The boot sector of a FAT32 volume that starts at 0, and a card of such a volume. -/
def plainBoot : List (Nat × BitVec 8) :=
  [(0, 0xEB), (12, 2), (13, 1), (14, 1), (16, 1), (36, 1), (44, 2)]

def plainCard : Disk := cardOf [plainBoot]

/-- A card with an MBR, and its first partition at the sector 1. -/
def partitionedCard : Disk :=
  cardOf [[(454, 1), (510, 0x55), (511, 0xAA)], plainBoot ++ [(28, 1)]]

/-- The same volume has the right geometry on the first card, and not on one behind a card
that had an MBR. -/
theorem the_start_of_an_earlier_card_is_kept :
    Consistent (initialize_fat (Fat.boot plainCard) (some plainCard)).2 0 (blockOf plainBoot) ∧
      ¬ Consistent (initialize_fat (initialize_fat (Fat.boot plainCard)
        (some partitionedCard)).2 (some plainCard)).2 0 (blockOf plainBoot) := by
  have hpartition : partitionOf plainCard = some (0, blockOf plainBoot) := rfl
  constructor
  · refine (the_geometry_is_consistent_iff (.boot plainCard) hpartition
      (Prod.ext (by decide +kernel) rfl)).mpr ?_
    exact ⟨by decide, by decide, fun _ _ => rfl, fun _ => by decide, fun _ => by decide,
      fun _ => by decide⟩
  · intro h
    have hagrees := (the_geometry_is_consistent_iff (.call (some partitionedCard)
      (.boot plainCard)) hpartition (Prod.ext (by decide +kernel) rfl)).mp h
    have hstart := hagrees.start ⟨by decide, by decide⟩ rfl
    exact absurd hstart (by decide +kernel)

/-- A boot sector of zeros behind the jump is taken for a FAT32 volume, and the number of its
clusters is a quotient by 0. -/
theorem an_accepted_boot_sector_divides_by_zero :
    ¬ ∀ (s s' : Fat) (disk : Disk) (P : Nat) (bpb : Mem), Reached s →
      partitionOf disk = some (P, bpb) → initialize_fat s (some disk) = (true, s') →
        Consistent s' P bpb := by
  intro h
  have hcons := h _ _ (cardOf [[(0, 0xEB)]]) 0 (blockOf [(0, 0xEB)])
    (.boot (cardOf [])) rfl (Prod.ext (by decide +kernel) rfl)
  exact hcons.total (by decide +kernel)

end rpi_wifi.fat
