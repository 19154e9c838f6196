-- What a search goes through on its way to the entry of a path. It takes the first name of a
-- sector that is read as the component, and goes into the directories in front of it.
import RpiWifi.FatTrails
import RpiWifi.LongNames

namespace rpi_wifi.fat

open memory

/-! ## What the search meets in a sector -/

/-- The first cluster of the directory that an entry stands for. -/
def directoryOf (entry : Mem) : Option Nat :=
  if attribOf entry = 0x10 then some (firstClusterOf entry) else none

/-- The entry behind a name that is read as `x`. -/
def NameSet.named (x : Path) (set : NameSet) : Option Mem :=
  if Spells (assembled set.parts) x then set.entry else none

/-- The name sets of a sector, as a search for `x` comes to them. There are none where the
length of `x` is 0 in 8 bits, and where the sector cannot be read. -/
def setsIn (s : Fat) (x : Path) (n : Nat) : List NameSet :=
  if x.length % 256 = 0 then []
  else ((s.block_read_handler.read n).map fun buffer => nameSets (slotsOf buffer) []).getD []

/-- The entry of the first name that is read as `x`. -/
def met (x : Path) (sets : List NameSet) : Option Mem := sets.findSome? (NameSet.named x)

/-- The directories that stand in front of it. -/
def entered (x : Path) (sets : List NameSet) : List Nat :=
  (sets.takeWhile fun set => (set.named x).isNone).filterMap fun set =>
    set.entry.bind directoryOf

/-! ## The searches that find nothing -/

/-- Nothing is found in a sector: nothing in the directories that the search goes into, and
nothing at the entry of the name, which is an empty file or a directory without the rest. -/
structure Passes (s : Fat) (x : Path) (quiet below : Nat → Prop) (n : Nat) : Prop where
  entered : ∀ d ∈ entered x (setsIn s x n), quiet d
  file : ∀ entry ∈ met x (setsIn s x n), attribOf entry ≠ 0x10 → firstClusterOf entry = 0
  directory : ∀ entry ∈ met x (setsIn s x n), attribOf entry = 0x10 →
    below (firstClusterOf entry)

/-- A search for the components from the cluster `c` on finds nothing. Behind the end of the
path no sector is searched. -/
inductive Quiet (s : Fat) : Nat → List Path → Prop
  | dir {c : Nat} {x : Path} {rest : List Path} {visited : List Nat} (hfirst : ReadsFirst s c)
    (htrail : Trail s c visited)
    (hentered : ∀ n ∈ visited.flatMap (sectorsOf s), ∀ d ∈ entered x (setsIn s x n),
      Quiet s d (x :: rest))
    (hfile : ∀ n ∈ visited.flatMap (sectorsOf s), ∀ entry ∈ met x (setsIn s x n),
      attribOf entry ≠ 0x10 → firstClusterOf entry = 0)
    (hbelow : ∀ n ∈ visited.flatMap (sectorsOf s), ∀ entry ∈ met x (setsIn s x n),
      attribOf entry = 0x10 → Quiet s (firstClusterOf entry) rest) : Quiet s c (x :: rest)
  | behind {c : Nat} {visited : List Nat} (hfirst : ReadsFirst s c) (htrail : Trail s c visited)
    (hunread : ∀ n ∈ visited.flatMap (sectorsOf s), s.block_read_handler.read n = none) :
    Quiet s c []

/-! ## The searches that stay on the path -/

/-- The search from the cluster `c` on comes to an entry of the name `x`, and has found nothing
before. -/
structure ComesTo (s : Fat) (c : Nat) (x : Path) (rest : List Path) (entry : Mem) : Prop where
  first : ReadsFirst s c
  there : ∃ visited before n behind, Along s c visited ∧
    visited.flatMap (sectorsOf s) = before ++ n :: behind ∧
    (∀ m ∈ before, Passes s x (Quiet s · (x :: rest)) (Quiet s · rest) m) ∧
    (∀ d ∈ entered x (setsIn s x n), Quiet s d (x :: rest)) ∧ met x (setsIn s x n) = some entry

/-- What an entry of the name stands for, with the rest of the path. -/
def valueOf (content : Nat → List Item) (rest : List Path) (e : LongEntry) : Nat :=
  if rest = [] then if e.isDir then 0 else e.cluster
  else if e.isDir then lookup content e.cluster rest else 0

/-- The lookup stays on the path. Where the components lead to no file, or to an empty one, the
search finds nothing. Where they lead to one, it comes to the entry of the first component, which
is a plain directory if the path goes on, and so on in there. -/
def Direct (s : Fat) (content : Nat → List Item) : Nat → List Path → Prop
  | _, [] => True
  | c, x :: rest =>
    lookup content c (x :: rest) = 0 ∧ Quiet s c (x :: rest) ∨
      ∃ e ∈ findEntry (content c) x, ComesTo s c x rest e.slot ∧ valueOf content rest e ≠ 0 ∧
        (rest ≠ [] → attribOf e.slot = 0x10 ∧ Direct s content e.cluster rest)

end rpi_wifi.fat
