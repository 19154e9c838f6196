-- The FAT reader: how a card is accepted, where the entry of a cluster lies in
-- the FAT, and the loop that goes from cluster to cluster. Three functions hold
-- a copy of that loop. A `uint32_t` is a number that is reduced modulo 2^32.
import RpiWifi.Memory

namespace rpi_wifi.fat

open memory

/-- The half word at address `a`, the low byte first. -/
def read16 (m : Mem) (a : Nat) : Nat := (m a).toNat + 256 * (m (a + 1)).toNat

/-! ## The card -/

/-- What the read handler finds on the card: the 512 bytes of a block, or nothing where it
fails. The number of a block has 32 bits. -/
structure Disk where
  read : Nat → Option Mem
  numbered : ∀ n, 2 ^ 32 ≤ n → read n = none

inductive FatType where
  | FAT_NULL
  | FAT12
  | FAT16
  | FAT32
  deriving DecidableEq, Repr

structure SdPartition where
  rootCluster : Nat
  sectorPerCluster : Nat
  bytesPerSector : Nat
  firstDataSector : Nat
  dataSectors : Nat
  unusedSectors : Nat
  reservedSectorCount : Nat
  fatSize : Nat
  deriving DecidableEq, Repr

/-- The static variables of the reader. -/
structure Fat where
  block_read_handler : Disk
  selected_fat_type : FatType
  current_sd_partition : SdPartition

/-- The static variables at the start. Nothing is read before a handler is set. -/
def Fat.boot (disk : Disk) : Fat :=
  ⟨disk, .FAT_NULL, ⟨0, 0, 0, 0, 0, 0, 0, 0⟩⟩

/-- `bootjmp[0]` of a boot sector. -/
def isBootSector (bpb : Mem) : Bool := bpb 0 == 0xE9 || bpb 0 == 0xEB

/-- What `initialize_fat` takes from the boot sector, field by field of `fat_bpb`. -/
def mount (s : Fat) (bpb : Mem) : Fat :=
  let bytes_per_sector := read16 bpb 11
  let sectors_per_cluster := (bpb 13).toNat
  let reserved_sector_count := read16 bpb 14
  let fat_table_count := (bpb 16).toNat
  let root_entry_count := read16 bpb 17
  let fat16_table_size := read16 bpb 22
  let hidden_sector_count := read32 bpb 28
  let fat32_total_sectors := read32 bpb 32
  let fat_table_size_32 := read32 bpb 36
  let root_cluster := read32 bpb 44
  let unusedSectors := s.current_sd_partition.unusedSectors
  if fat16_table_size = 0 ∧ root_entry_count = 0 then
    let tables := fat_table_size_32 * fat_table_count
    { s with
      selected_fat_type := .FAT32
      current_sd_partition :=
        { rootCluster := root_cluster
          sectorPerCluster := sectors_per_cluster
          bytesPerSector := bytes_per_sector
          firstDataSector := (reserved_sector_count + hidden_sector_count + tables) % 2 ^ 32
          dataSectors :=
            (((fat32_total_sectors : Int) - reserved_sector_count - tables) % 2 ^ 32).toNat
          unusedSectors := unusedSectors
          reservedSectorCount := reserved_sector_count
          fatSize := fat_table_size_32 } }
  else
    let tables := fat_table_count * fat16_table_size
    { s with
      selected_fat_type := .FAT16
      current_sd_partition :=
        { rootCluster := 2
          sectorPerCluster := sectors_per_cluster
          bytesPerSector := bytes_per_sector
          firstDataSector := (unusedSectors + tables + 1) % 2 ^ 32
          dataSectors := (((fat32_total_sectors : Int) - tables - 33) % 2 ^ 32).toNat
          unusedSectors := unusedSectors
          reservedSectorCount := reserved_sector_count
          fatSize := fat16_table_size } }

/-- `initialize_fat`: the first block is a boot sector, or an MBR that says where the boot
sector is. -/
def initialize_fat (s : Fat) (read_handler : Option Disk) : Bool × Fat :=
  match read_handler with
  | none => (false, s)
  | some disk =>
    let s := { s with block_read_handler := disk }
    match disk.read 0 with
    | none => (false, s)
    | some bpb =>
      if isBootSector bpb then (true, mount s bpb)
      else if read16 bpb 510 ≠ 0xaa55 then (false, s)
      else
        let firstSector := read32 bpb 454
        let s := { s with
          current_sd_partition := { s.current_sd_partition with unusedSectors := firstSector } }
        match disk.read firstSector with
        | none => (false, s)
        | some bpb => if isBootSector bpb then (true, mount s bpb) else (false, s)

/-! ## Where an entry is -/

/-- `getFatEntrySectorAndOffset`: the sector of the FAT, and the offset of the entry in it. -/
def getFatEntrySectorAndOffset (s : Fat) (cluster_number : Nat) : Nat × Nat :=
  let p := s.current_sd_partition
  let fat_offset :=
    if s.selected_fat_type = .FAT16 then cluster_number * 2 % 2 ^ 32
    else cluster_number * 4 % 2 ^ 32
  ((p.unusedSectors + p.reservedSectorCount + fat_offset / p.bytesPerSector) % 2 ^ 32,
    fat_offset % p.bytesPerSector)

/-- `getFirstSectorOfCluster`. A difference below zero wraps around. -/
def getFirstSectorOfCluster (s : Fat) (cluster_number : Nat) : Nat :=
  let p := s.current_sd_partition
  ((cluster_number + 2 ^ 32 - 2) * p.sectorPerCluster + p.firstDataSector) % 2 ^ 32

/-! ## The loop over the clusters -/

/-- Why a call has given no result: it is still running when the fuel is used up, or it has
read behind the end of the path. -/
inductive Stop where
  | running
  | outside
  deriving DecidableEq, Repr

/-- The loop stops at these. -/
def isStop (cluster_number : Nat) : Bool :=
  cluster_number == 0x0fffffff || cluster_number == 0x0FFFFFF7 || cluster_number == 0

/-- The 512 bytes of a buffer, with what lies behind it in the memory. -/
def withBehind (buffer behind : Mem) : Mem := fun i => if i < 512 then buffer i else behind i

/-- The FAT sector is read when it is not the one that was used last. -/
def fatSector (s : Fat) (old_fat_sector_num fat_sector_num : Nat) (fat_sector_buffer : Mem) :
    Option Mem :=
  if old_fat_sector_num ≠ fat_sector_num then s.block_read_handler.read fat_sector_num
  else some fat_sector_buffer

/-- The loop of `read_file`, `search_directory_contents` and `print_directory_contents`:
the clusters that are visited, and the result. A visit that gives something else than 0 ends
the loop with that. In the buffer and behind it stands anything at first. -/
def clusterLoop (s : Fat) (visit : Nat → Except Stop Nat) :
    Nat → Nat → Nat → Mem → (Nat → Mem) → Except Stop (List Nat × Nat)
  | 0, _, _, _, _ => .error .running
  | fuel + 1, cluster_number, old_fat_sector_num, fat_sector_buffer, behind =>
    if isStop cluster_number then .ok ([], 0)
    else
      let entry := getFatEntrySectorAndOffset s cluster_number
      match fatSector s old_fat_sector_num entry.1 fat_sector_buffer with
      | none => .ok ([], 0)
      | some buffer =>
        match visit cluster_number with
        | .error e => .error e
        | .ok first_cluster =>
          if first_cluster ≠ 0 then .ok ([cluster_number], first_cluster)
          else
            let next := read32 (withBehind buffer (behind 0)) entry.2 % 2 ^ 28
            match clusterLoop s visit fuel next entry.1 buffer (fun k => behind (k + 1)) with
            | .error e => .error e
            | .ok (visited, result) => .ok (cluster_number :: visited, result)

end rpi_wifi.fat
