-- The directory trees of a FAT32 volume whose entries have long names, and what a
-- path names in such a tree. A directory is given by what stands in it, in order:
-- the entries with the parts of their names, and the holes between them.
import RpiWifi.FatChains
import RpiWifi.FatSearch

namespace rpi_wifi.fat

open memory first_found

/-! ## What stands in a directory -/

/-- The parts of a name. Each of them has room for thirteen characters. -/
def partsCount (name : List Nat) : Nat := (name.length + 12) / 13

/-- The part `q` of a name, counted from 1 on. The number of the last part is marked, a zero
ends the name, and the room behind it is filled up. -/
structure IsPart (name : List Nat) (q : Nat) (slot : Mem) : Prop where
  number : slot 0 = BitVec.ofNat 8 (if q = partsCount name then q + 64 else q)
  attrib : attribOf slot = 0x0F
  units : ∀ j < 13, lfnUnit slot j = (name ++ [0]).getD (13 * (q - 1) + j) 0xFFFF

/-- The parts from `q` down to 1. -/
def PartsFrom (name : List Nat) : Nat → List Mem → Prop
  | 0, parts => parts = []
  | q + 1, parts => ∃ slot rest, parts = slot :: rest ∧ IsPart name (q + 1) slot ∧
      PartsFrom name q rest

/-- An entry with its long name in front of it. -/
structure LongEntry where
  name : List Nat
  parts : List Mem
  slot : Mem
  nonempty : name ≠ []
  length : name.length ≤ 255
  units : ∀ u ∈ name, u ≠ 0 ∧ u ≠ 0xFFFF
  written : PartsFrom name (partsCount name) parts
  live : slot 0 ≠ 0 ∧ slot 0 ≠ 0xE5 ∧ attribOf slot ≠ 0x0F

/-- A slot without an entry of the tree: a deleted one, `.` and `..`, and the volume label. -/
structure Hole where
  slot : Mem
  used : slot 0 ≠ 0
  unnamed : slot 0 = 0xE5 ∨
    attribOf slot ≠ 0x0F ∧ (slot 0 = 0x2E ∨ attribOf slot &&& 0x08 ≠ 0)

inductive Item where
  | hole (h : Hole)
  | entry (e : LongEntry)

def LongEntry.slots (e : LongEntry) : List Mem := e.parts ++ [e.slot]

def Item.slots : Item → List Mem
  | .hole h => [h.slot]
  | .entry e => e.slots

def entriesOf (items : List Item) : List LongEntry :=
  items.filterMap fun i => match i with
    | .hole _ => none
    | .entry e => some e

def LongEntry.cluster (e : LongEntry) : Nat := firstClusterOf e.slot

/-- The directory bit is set, whatever the other ones are. -/
def LongEntry.isDir (e : LongEntry) : Bool := attribOf e.slot &&& 0x10 != 0

/-! ## The tree -/

/-- The sectors of a cluster. -/
def dataSectors (s : Fat) (c : Nat) : List Nat :=
  let p := s.current_sd_partition
  List.range' (p.firstDataSector + (c - 2) * p.sectorPerCluster) p.sectorPerCluster

/-- The sectors of a cluster, and the one behind them, have numbers of 32 bits. -/
def Fits (s : Fat) (c : Nat) : Prop :=
  let p := s.current_sd_partition
  p.firstDataSector + (c - 2) * p.sectorPerCluster + p.sectorPerCluster < 2 ^ 32

/-- In the sectors of a chain stand the items, and behind them free slots only. -/
def Lists (s : Fat) (c : Nat) (items : List Item) : Prop :=
  ∃ chain buffers free, ClusterChain s c chain ∧ (∀ d ∈ chain, Fits s d) ∧
    List.Forall₂ (fun n buffer => s.block_read_handler.read n = some buffer)
      (chain.flatMap (dataSectors s)) buffers ∧
    buffers.flatMap slotsOf = items.flatMap Item.slots ++ free ∧ ∀ slot ∈ free, slot 0 = 0

/-- What stands in the directory of each cluster, from the directory `c` down: no name stands
twice in a directory, and the tree is finite. -/
inductive TreeFrom (s : Fat) (content : Nat → List Item) : Nat → Prop
  | dir {c : Nat} (hlists : Lists s c (content c))
    (hnames : ((entriesOf (content c)).map LongEntry.name).Nodup)
    (hsub : ∀ e ∈ entriesOf (content c), e.isDir → TreeFrom s content e.cluster) :
    TreeFrom s content c

theorem TreeFrom.sub {s : Fat} {content : Nat → List Item} {c : Nat} (h : TreeFrom s content c) :
    ∀ e ∈ entriesOf (content c), e.isDir → TreeFrom s content e.cluster := by
  cases h
  assumption

/-- A FAT32 volume. The boot sector is one of the reserved sectors. -/
structure IsFat32 (s : Fat) : Prop where
  type : s.selected_fat_type = .FAT32
  bytes : s.current_sd_partition.bytesPerSector = 512
  reserved : 0 < s.current_sd_partition.reservedSectorCount

/-- A volume with its directory tree. -/
structure Volume (s : Fat) (content : Nat → List Item) : Prop extends IsFat32 s where
  tree : TreeFrom s content s.current_sd_partition.rootCluster

/-! ## What a path names -/

/-- A component of a path. -/
def IsComponent (x : Path) : Prop := x ≠ [] ∧ ∀ b ∈ x, b ≠ 0 ∧ b ≠ 0x2F

instance (x : Path) : Decidable (IsComponent x) := inferInstanceAs (Decidable (_ ∧ _))

/-- The absolute path with the components. -/
def pathOf (components : List Path) : Path := components.flatMap fun x => 0x2F :: x

/-- A component as a name. -/
def unitsOf (x : Path) : List Nat := x.map BitVec.toNat

/-- The entry of a name in the directory of a cluster. -/
def findEntry (items : List Item) (x : Path) : Option LongEntry :=
  (entriesOf items).find? fun e => e.name == unitsOf x

/-- The first cluster of the file that the components lead to from the directory `c`, and 0
where they do not lead to a file. -/
def lookup (content : Nat → List Item) : Nat → List Path → Nat
  | _, [] => 0
  | c, x :: rest =>
    match findEntry (content c) x with
    | none => 0
    | some e =>
      if rest = [] then if e.isDir then 0 else e.cluster
      else if e.isDir then lookup content e.cluster rest else 0

/-- The lookup is exact, and it does not read behind the path. -/
def LookupExact (s : Fat) (content : Nat → List Item) (components : List Path) : Prop :=
  ∃ fuel, ∀ junk, get_file_size s (pathOf components) junk fuel =
    .ok (lookup content s.current_sd_partition.rootCluster components)

/-! ## What the search makes of a name -/

/-- The name as the search reads it. -/
def LongEntry.shown (e : LongEntry) : Path := e.name.map ascii_for_utf_16

end rpi_wifi.fat
