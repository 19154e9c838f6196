-- How a path is looked up: `get_file_size` goes through the entries of a
-- directory, sector by sector, and into the directories that it meets.
import RpiWifi.Fat
import RpiWifi.FirstFound

namespace rpi_wifi.fat

open memory first_found

/-! ## The path -/

/-- The bytes of a path, without the NUL behind them. -/
abbrev Path := List (BitVec 8)

/-- The loop of `get_next_dir_name`. The counter has 8 bits. -/
def copyName : Path → Nat → Mem → Nat × Mem
  | [], count, dest => (count, dest)
  | ch :: path, count, dest =>
    if ch = 0x2F then (count, dest)
    else copyName path ((count + 1) % 256) (Function.update dest count ch)

/-- `get_next_dir_name` with a buffer of zeros: the length, and the name with zeros behind
it. -/
def get_next_dir_name (path : Path) : Nat × Mem := copyName path 0 fun _ => 0

/-- The loop of `is_same_file`, with `left` more bytes in both arrays. What lies behind
them is not followed. -/
def sameFrom (src dest : Mem) : Nat → Nat → Bool
  | 0, _ => false
  | left + 1, i =>
    if src i ≠ 0 ∧ dest i ≠ 0 then
      if src i ≠ dest i then false else sameFrom src dest left (i + 1)
    else src i == 0 && dest i == 0

/-- `is_same_file` of two arrays of 256 bytes. -/
def is_same_file (src dest : Mem) : Bool := sameFrom src dest 256 0

/-! ## The entries of a sector -/

/-- A directory entry: 32 bytes of a sector. -/
def slotOf (sector : Mem) (i : Nat) : Mem := fun j => if j < 32 then sector (32 * i + j) else 0

def slotsOf (sector : Mem) : List Mem := (List.range 16).map (slotOf sector)

/-- `LDIR_Attr`, and `file_attrib` in the entry that the name belongs to. -/
def attribOf (slot : Mem) : BitVec 8 := slot 11

/-- The first cluster of an entry. -/
def firstClusterOf (slot : Mem) : Nat := (read16 slot 20 * 2 ^ 16 + read16 slot 26) % 2 ^ 28

/-- The thirteen characters of `dir_lfn_entry`: `LDIR_Name1`, `LDIR_Name2` and `LDIR_Name3`. -/
def lfnUnit (slot : Mem) (j : Nat) : Nat :=
  if j < 5 then read16 slot (1 + 2 * j)
  else if j < 11 then read16 slot (14 + 2 * (j - 5))
  else read16 slot (28 + 2 * (j - 11))

def ascii_for_utf_16 (utf_16_code : Nat) : BitVec 8 :=
  if utf_16_code = 0xffff ∨ utf_16_code = 0 then 0
  else if 128 ≤ utf_16_code then 0x7E
  else BitVec.ofNat 8 utf_16_code

/-- `ReadLFNEntry`: the text up to the first zero. -/
def readLFNEntry (slot : Mem) : List (BitVec 8) :=
  (((List.range 13).map (lfnUnit slot)).takeWhile (· != 0)).map ascii_for_utf_16

/-- `CopyUnAlignedString` to the index `at`. What is written behind the 256 bytes of an array
is not followed. -/
def copyText (dest : Mem) (index : Nat) : List (BitVec 8) → Mem
  | [] => dest
  | ch :: text => copyText (Function.update dest index ch) (index + 1) text

/-- The text of one part of a long name goes to the place that its number gives. The index
has 8 bits. -/
def addPart (long_file_name : Mem) (slot : Mem) : Mem :=
  let index1 := ((~~~0x40#8 &&& slot 0) - 1) * 13
  copyText long_file_name index1.toNat (readLFNEntry slot)

/-- The first part of a name, which stands last. -/
def isFirstPart (slot : Mem) : Bool := slot 0 == 0x1 || slot 0 == 0x41

/-- The loops of `search_entries_in_sector`. In the inner one, over the parts of a name, there
is the name as far as it is read. `descend` is `search_directory_contents` of a cluster, with
the index in the path to go on from. -/
def entryLoop (descend : Nat → Nat → Except Stop Nat) (next_file_name : Mem)
    (next_index next_length : Nat) : Option Mem → List Mem → Except Stop Nat
  | _, [] => .ok 0
  | name, slot :: rest =>
    if name = none ∧ attribOf slot ≠ 0x0F then
      if slot 0 = 0 then .ok 0
      else entryLoop descend next_file_name next_index next_length none rest
    else
      let long_file_name := addPart (name.getD fun _ => 0) slot
      if isFirstPart slot then
        match rest with
        | [] => .ok 0
        | entry :: rest =>
          let first_cluster := firstClusterOf entry
          if is_same_file long_file_name next_file_name then
            if attribOf entry = 0x10 then
              descend first_cluster ((next_index + next_length + 1) % 2 ^ 32)
            else .ok first_cluster
          else if attribOf entry = 0x10 then
            match descend first_cluster next_index with
            | .error e => .error e
            | .ok first_cluster =>
              if first_cluster ≠ 0 then .ok first_cluster
              else entryLoop descend next_file_name next_index next_length none rest
          else entryLoop descend next_file_name next_index next_length none rest
      else entryLoop descend next_file_name next_index next_length (some long_file_name) rest

/-! ## The search -/

section
variable (s : Fat) (path : Path)

/-- `search_entries_in_sector`. The path is read from `next_index` on, up to its end. -/
def search_entries_in_sector (descend : Nat → Nat → Except Stop Nat) (next_index : Nat)
    (sector_number : Nat) : Except Stop Nat :=
  match s.block_read_handler.read sector_number with
  | none => .ok 0
  | some buffer =>
    if path.length < next_index then .error .outside
    else
      let next := get_next_dir_name (path.drop next_index)
      if next.1 = 0 then .ok 0
      else entryLoop descend next.2 next_index next.1 none (slotsOf buffer)

/-- The sectors that the loop over the sectors of a cluster goes through. -/
def sectorsOf (cluster_number : Nat) : List Nat :=
  let first := getFirstSectorOfCluster s cluster_number
  let last := (first + s.current_sd_partition.sectorPerCluster) % 2 ^ 32
  List.range' first (last - first)

def search_directory_cluster_contents (descend : Nat → Nat → Except Stop Nat)
    (next_index cluster_number : Nat) : Except Stop Nat :=
  firstFound 0 (search_entries_in_sector s path descend next_index) (sectorsOf s cluster_number)

/-- `search_directory_contents`, with what its buffer holds at first and what lies behind the
buffer. -/
def search_directory_contents (junk : Nat → Nat → Mem) : Nat → Nat → Nat → Except Stop Nat
  | 0, _, _ => .error .running
  | fuel + 1, directory_first_cluster, next_index =>
    let visit := search_directory_cluster_contents s path
      (search_directory_contents junk fuel) next_index
    match clusterLoop s visit (fuel + 1) directory_first_cluster 0 (junk fuel 0)
        (fun k => junk fuel (k + 1)) with
    | .error e => .error e
    | .ok (_, result) => .ok result

def find_file_in_directory (junk : Nat → Nat → Mem) (fuel directory_cluster next_index : Nat) :
    Except Stop Nat :=
  if path.length < next_index then .error .outside
  else search_directory_contents s path junk fuel directory_cluster next_index

/-- `get_file_size`: the result is a first cluster. -/
def get_file_size (junk : Nat → Nat → Mem) (fuel : Nat) : Except Stop Nat :=
  if path.head? ≠ some 0x2F then .ok 0
  else find_file_in_directory s path junk fuel s.current_sd_partition.rootCluster 1

/-- `read_file`: the clusters whose contents are printed. -/
def read_file (junk : Nat → Nat → Mem) (fuel : Nat) : Except Stop (List Nat) :=
  match get_file_size s path junk fuel with
  | .error e => .error e
  | .ok cluster_number =>
    match clusterLoop s (fun _ => .ok 0) fuel cluster_number 0 (junk fuel 0)
        (fun k => junk fuel (k + 1)) with
    | .error e => .error e
    | .ok (visited, _) => .ok visited

end

end rpi_wifi.fat
