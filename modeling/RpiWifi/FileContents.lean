-- What `read_file` prints of a file: of each cluster the bytes up to the first NUL.
-- The size that the entry of the file gives is not used.
import RpiWifi.FatLookup

namespace rpi_wifi.fat

open memory first_found Filter

/-! ## The functions -/

/-- The loop over the bytes of a sector: what is printed, and `is_done`. -/
def printBytes (buffer : Mem) : Nat → Nat → List (BitVec 8) × Bool
  | 0, _ => ([], false)
  | left + 1, index =>
    if buffer index = 0 then ([], true)
    else
      let rest := printBytes buffer left (index + 1)
      (buffer index :: rest.1, rest.2)

section
variable (s : Fat)

/-- The loop over the sectors of a cluster. -/
def printSectors : List Nat → List (BitVec 8)
  | [] => []
  | sector_number :: rest =>
    match s.block_read_handler.read sector_number with
    | none => []
    | some buffer =>
      let printed := printBytes buffer 512 0
      if printed.2 then printed.1 else printed.1 ++ printSectors rest

def print_file_cluster_contents (cluster_number : Nat) : List (BitVec 8) :=
  printSectors s (sectorsOf s cluster_number)

/-- What `read_file` prints of the file. Its messages are left out. -/
def readFilePrints (path : Path) (junk : Nat → Nat → Mem) (fuel : Nat) :
    Except Stop (List (BitVec 8)) :=
  match read_file s path junk fuel with
  | .error e => .error e
  | .ok visited => .ok (visited.flatMap (print_file_cluster_contents s))

end

/-! ## What is expected -/

/-- `file_size_bytes` -/
def LongEntry.size (e : LongEntry) : Nat := read32 e.slot 28

/-- The file that the components lead to from the directory `c`. -/
def fileAt (content : Nat → List Item) : Nat → List Path → Option LongEntry
  | _, [] => none
  | c, x :: rest =>
    match findEntry (content c) x with
    | none => none
    | some e =>
      if rest = [] then if e.isDir then none else some e
      else if e.isDir then fileAt content e.cluster rest else none

/-- The bytes of a sector. -/
def sectorBytes (s : Fat) (n : Nat) : List (BitVec 8) :=
  (List.range' 0 512).map ((s.block_read_handler.read n).getD fun _ => 0)

def clusterBytes (s : Fat) (c : Nat) : List (BitVec 8) :=
  (dataSectors s c).flatMap (sectorBytes s)

def chainBytes (s : Fat) (chain : List Nat) : List (BitVec 8) := chain.flatMap (clusterBytes s)

def clusterSize (s : Fat) : Nat := s.current_sd_partition.sectorPerCluster * 512

/-- The clusters of a file: as many as its size needs, and none for the empty file. -/
structure FileOn (s : Fat) (e : LongEntry) (chain : List Nat) : Prop where
  empty : e.size = 0 → e.cluster = 0 ∧ chain = []
  clusters : e.size ≠ 0 → ClusterChain s e.cluster chain
  size : e.size ≠ 0 → (chain.length - 1) * clusterSize s < e.size ∧
    e.size ≤ chain.length * clusterSize s
  sectors : ∀ d ∈ chain, Fits s d ∧ ∀ n ∈ dataSectors s d, (s.block_read_handler.read n).isSome

/-- Whatever the buffers hold at first, the text is printed. -/
def PrintsFile (s : Fat) (path : Path) (text : List (BitVec 8)) : Prop :=
  ∀ᶠ fuel in atTop, ∀ junk, readFilePrints s path junk fuel = .ok text

/-- Behind the last cluster of the chain nothing is printed: the loop ends at the end mark that
it knows, and from another one it goes to clusters that begin with a NUL. -/
def SilentBehind (s : Fat) (chain : List Nat) : Prop :=
  ∀ d ∈ chain.getLast?, ∀ n ∈ fatEntry s d, ∃ more, Trail s n more ∧
    ∀ v ∈ more, ∀ sector ∈ (sectorsOf s v).head?,
      ∀ buffer ∈ s.block_read_handler.read sector, buffer 0 = 0

variable {s : Fat} {c d v n : Nat} {l l' chain : List Nat}

/-! ## Texts that end at the first NUL -/

section
variable {α : Type} {p : α → Bool} {b text : List α} {r : Nat}

/-- The text of a block is its first `r` elements. -/
theorem takeWhile_take_iff (htext : ∀ a ∈ text, p a) :
    b.takeWhile p ++ text = b.take r ↔
      (∀ a ∈ b.take r, p a) ∧ (∀ a ∈ b[r]?, ¬ p a) ∧ text = [] := by
  by_cases hall : ∀ a ∈ b.take r, p a
  · have hsplit : b.takeWhile p = b.take r ++ (b.drop r).takeWhile p := by
      conv_lhs => rw [← List.take_append_drop r b]
      exact List.takeWhile_append_of_pos hall
    rw [hsplit, List.append_assoc, List.append_right_eq_self, List.append_eq_nil_iff,
      and_iff_right hall]
    by_cases hin : r < b.length
    · rw [List.drop_eq_getElem_cons hin, List.getElem?_eq_getElem hin]
      simp [hin]
    · rw [List.drop_eq_nil_of_le (not_lt.mp hin), List.getElem?_eq_none (not_lt.mp hin)]
      simp
  · refine iff_of_false (fun heq => hall ?_) fun h => hall h.1
    intro a ha
    rw [← heq, List.mem_append] at ha
    rcases ha with ha | ha
    · exact List.mem_takeWhile_imp ha
    · exact htext a ha

theorem texts_all {blocks : List (List α)} (htext : ∀ a ∈ text, p a) :
    ∀ a ∈ blocks.flatMap (List.takeWhile p) ++ text, p a := by
  intro a ha
  rcases List.mem_append.mp ha with ha | ha
  · obtain ⟨b, -, hmem⟩ := List.mem_flatMap.mp ha
    exact List.mem_takeWhile_imp hmem
  · exact htext a ha

/-- The texts of the blocks are the first elements of all of them: none of these is the end
of a text, and behind them is the end, or nothing. -/
theorem texts_take_iff (blocks : List (List α)) (size : Nat) {k : Nat}
    (hlen : ∀ b ∈ blocks, b.length = k)
    (hlow : (blocks.length - 1) * k < size) (hsize : size ≤ blocks.length * k)
    (htext : ∀ a ∈ text, p a) :
    blocks.flatMap (List.takeWhile p) ++ text = blocks.flatten.take size ↔
      (∀ a ∈ blocks.flatten.take size, p a) ∧ (∀ a ∈ blocks.flatten[size]?, ¬ p a) ∧
        text = [] := by
  induction blocks generalizing size with
  | nil => simp at hsize; omega
  | cons b blocks ih =>
    have hb := hlen b List.mem_cons_self
    rw [List.length_cons] at hlow hsize
    rw [List.flatMap_cons, List.flatten_cons, List.append_assoc]
    cases blocks with
    | nil =>
      rw [List.flatMap_nil, List.flatten_nil, List.append_nil, List.nil_append]
      exact takeWhile_take_iff htext
    | cons c blocks =>
      have hcount : (blocks.length + 1) * k = blocks.length * k + k := Nat.succ_mul _ _
      simp only [List.length_cons, Nat.add_sub_cancel, Nat.succ_mul] at hlow hsize ih
      obtain ⟨rest, rfl⟩ := Nat.exists_eq_add_of_le (by omega : k ≤ size)
      have hrest := ih rest (fun d hd => hlen d (List.mem_cons_of_mem _ hd)) (by omega)
        (by omega)
      have htake : (b ++ (c :: blocks).flatten).take (k + rest) =
          b ++ (c :: blocks).flatten.take rest := by
        rw [← hb, List.take_length_add_append]
      have hget : (b ++ (c :: blocks).flatten)[k + rest]? = (c :: blocks).flatten[rest]? := by
        rw [← hb, List.getElem?_append_right (by omega), Nat.add_sub_cancel_left]
      rw [htake, hget]
      by_cases hall : ∀ a ∈ b, p a
      · have hfront : (∀ a ∈ b ++ (c :: blocks).flatten.take rest, p a) ↔
            ∀ a ∈ (c :: blocks).flatten.take rest, p a := by
          rw [List.forall_mem_append, and_iff_right hall]
        rw [List.takeWhile_eq_self_iff.mpr hall, List.append_cancel_left_eq, hrest, hfront]
      · refine iff_of_false (fun heq => hall fun a ha => ?_) fun h => hall fun a ha => ?_
        · have hmem := List.mem_append_left ((c :: blocks).flatten.take rest) ha
          rw [← heq, ← List.append_assoc, ← List.flatMap_cons] at hmem
          exact texts_all htext a hmem
        · exact h.1 a (List.mem_append_left _ ha)

end

/-! ## What is printed -/

theorem printBytes_eq (buffer : Mem) (left index : Nat) :
    (printBytes buffer left index).1 =
        ((List.range' index left).map buffer).takeWhile (· != 0) ∧
      ((printBytes buffer left index).2 = false ↔
        ∀ b ∈ (List.range' index left).map buffer, (b != 0) = true) := by
  induction left generalizing index with
  | zero => simp [printBytes]
  | succ left ih =>
    obtain ⟨htext, hdone⟩ := ih (index + 1)
    unfold printBytes
    rw [List.range'_succ, List.map_cons]
    by_cases hnul : buffer index = 0
    · simp [hnul]
    · have hne : (buffer index != 0) = true := bne_iff_ne.mpr hnul
      rw [if_neg hnul, List.takeWhile_cons_of_pos (p := (· != 0)) hne, List.forall_mem_cons]
      exact ⟨congrArg _ htext, hdone.trans (and_iff_right hne).symm⟩

theorem printSectors_eq {ns : List Nat} (hread : ∀ n ∈ ns, (s.block_read_handler.read n).isSome) :
    printSectors s ns = (ns.flatMap (sectorBytes s)).takeWhile (· != 0) := by
  induction ns with
  | nil => rfl
  | cons n ns ih =>
    have ih := ih fun m hm => hread m (List.mem_cons_of_mem _ hm)
    obtain ⟨buffer, hbuffer⟩ := Option.isSome_iff_exists.mp (hread n List.mem_cons_self)
    obtain ⟨htext, hdone⟩ := printBytes_eq buffer 512 0
    have hbytes : sectorBytes s n = (List.range' 0 512).map buffer := by
      unfold sectorBytes
      rw [hbuffer]
      rfl
    unfold printSectors
    rw [hbuffer, List.flatMap_cons, hbytes]
    dsimp only
    by_cases hall : ∀ b ∈ (List.range' 0 512).map buffer, (b != 0) = true
    · rw [if_neg (by rw [hdone.mpr hall]; simp), List.takeWhile_append_of_pos hall, ih, htext,
        List.takeWhile_eq_self_iff.mpr hall]
    · rw [if_pos (by simpa using mt hdone.mp hall), htext, List.takeWhile_append, if_neg]
      intro hlen
      exact hall (List.takeWhile_eq_self_iff.mp
        ((List.takeWhile_prefix _).eq_of_length hlen))

/-- No NUL is printed. -/
theorem printSectors_ne (s : Fat) (ns : List Nat) : ∀ b ∈ printSectors s ns, (b != 0) = true := by
  induction ns with
  | nil => simp [printSectors]
  | cons n ns ih =>
    unfold printSectors
    split
    · simp
    · next buffer hbuffer =>
      have htext : ∀ b ∈ (printBytes buffer 512 0).1, (b != 0) = true := by
        rw [(printBytes_eq buffer 512 0).1]
        exact fun b hb => List.mem_takeWhile_imp (p := (· != 0)) hb
      dsimp only
      split
      · exact htext
      · exact List.forall_mem_append.mpr ⟨htext, ih⟩

/-- Nothing is printed of a cluster that begins with a NUL. -/
theorem printSectors_eq_nil (s : Fat) (ns : List Nat) :
    printSectors s ns = [] ↔ ∀ n ∈ ns.head?, ∀ buffer ∈ s.block_read_handler.read n,
      buffer 0 = 0 := by
  cases ns with
  | nil => simp [printSectors]
  | cons n ns =>
    unfold printSectors
    cases hread : s.block_read_handler.read n with
    | none => simp [hread]
    | some buffer =>
      have hfirst : printBytes buffer 512 0 = if buffer 0 = 0 then ([], true)
        else (buffer 0 :: (printBytes buffer 511 1).1, (printBytes buffer 511 1).2) := rfl
      by_cases hnul : buffer 0 = 0
      · simp [hfirst, hnul, hread]
      · dsimp only
        rw [hfirst, if_neg hnul]
        refine iff_of_false ?_ fun h => hnul (h n rfl buffer hread)
        dsimp only
        split <;> simp

theorem length_clusterBytes (s : Fat) (c : Nat) : (clusterBytes s c).length = clusterSize s := by
  unfold clusterBytes dataSectors clusterSize
  rw [List.length_flatMap, List.map_congr_left (g := fun _ => 512)
    (fun n _ => by unfold sectorBytes; simp)]
  simp

/-! ## The whole file -/

section
variable {content : Nat → List Item} {path : Path} {components : List Path} {e : LongEntry}
  {text : List (BitVec 8)}

theorem lookup_of_fileAt (h : fileAt content c components = some e) :
    lookup content c components = e.cluster := by
  induction components generalizing c with
  | nil => cases h
  | cons x rest ih =>
    unfold fileAt at h
    unfold lookup
    cases hentry : findEntry (content c) x with
    | none =>
      rw [hentry] at h
      cases h
    | some d =>
      rw [hentry] at h
      dsimp only at h ⊢
      by_cases hrest : rest = []
      · rw [if_pos hrest] at h ⊢
        by_cases hdir : d.isDir = true
        · rw [if_pos hdir] at h
          cases h
        · rw [if_neg hdir] at h ⊢
          rw [Option.some_inj.mp h]
      · rw [if_neg hrest] at h ⊢
        by_cases hdir : d.isDir = true
        · rw [if_pos hdir] at h ⊢
          exact ih h
        · rw [if_neg hdir] at h
          cases h

/-- What is printed stands in the clusters that the loop goes to. -/
theorem printsFile_iff (hs : IsFat32 s)
    (hlook : ∀ᶠ fuel in atTop, ∀ junk, get_file_size s path junk fuel = .ok c)
    (hfirst : (getFatEntrySectorAndOffset s c).1 ≠ 0) :
    PrintsFile s path text ↔ ∃ visited, Trail s c visited ∧
      visited.flatMap (print_file_cluster_contents s) = text := by
  have hcached : ∀ junk, 0 = (getFatEntrySectorAndOffset s c).1 → Holds s 0 junk :=
    fun _ h => absurd h.symm hfirst
  constructor
  · intro hprints
    obtain ⟨fuel, hlook, hprints⟩ := (hlook.and hprints).exists
    have hprints := hprints fun _ _ _ => 0
    unfold readFilePrints read_file at hprints
    rw [hlook] at hprints
    dsimp only at hprints
    split at hprints
    · cases hprints
    · next visited hread =>
      split at hread
      · cases hread
      · next hloop =>
        cases hread
        exact ⟨visited, trail_of_clusterLoop hs (hcached _) hloop fun _ _ => rfl,
          Except.ok.inj hprints⟩
  · rintro ⟨visited, htrail, rfl⟩
    unfold PrintsFile
    filter_upwards [hlook, eventually_gt_atTop visited.length] with fuel hlook hfuel
    intro junk
    unfold readFilePrints read_file
    rw [hlook]
    dsimp only
    rw [clusterLoop_of_trail hs htrail (fun _ _ => rfl) (fun _ => hcached _) hfuel]

theorem prints_empty (hlook : ∀ᶠ fuel in atTop, ∀ junk, get_file_size s path junk fuel = .ok 0) :
    PrintsFile s path [] := by
  unfold PrintsFile
  filter_upwards [hlook, eventually_gt_atTop 0] with fuel hlook hfuel
  intro junk
  obtain ⟨fuel, rfl⟩ := Nat.exists_eq_add_of_lt hfuel
  unfold readFilePrints read_file
  rw [hlook]
  rfl

theorem PrintsFile.ne_nul (h : PrintsFile s path text) : ∀ b ∈ text, b ≠ 0 := by
  obtain ⟨fuel, hprints⟩ := h.exists
  have hprints := hprints fun _ _ _ => 0
  unfold readFilePrints at hprints
  split at hprints
  · cases hprints
  · next visited _ =>
    obtain rfl := Except.ok.inj hprints
    intro b hb
    obtain ⟨v, -, hmem⟩ := List.mem_flatMap.mp hb
    exact bne_iff_ne.mp (printSectors_ne s _ b hmem)

theorem ClusterChain.last_entry (h : ClusterChain s c chain) :
    ∃ d n, chain.getLast? = some d ∧ fatEntry s d = some n := by
  induction h with
  | last _ hn _ => exact ⟨_, _, rfl, hn⟩
  | link _ _ hrest ih =>
    rw [List.getLast?_cons_of_ne_nil hrest.ne_nil]
    exact ih

/-- The clusters of a file are printed up to their first NUL. -/
theorem print_chain (hclusters : ∀ d ∈ chain, IsCluster s d)
    (hsectors : ∀ d ∈ chain, Fits s d ∧
      ∀ n ∈ dataSectors s d, (s.block_read_handler.read n).isSome) :
    chain.flatMap (print_file_cluster_contents s) =
      (chain.map (clusterBytes s)).flatMap (List.takeWhile (· != 0)) := by
  rw [List.flatMap_map]
  refine List.flatMap_congr fun d hd => ?_
  obtain ⟨hfits, hread⟩ := hsectors d hd
  unfold print_file_cluster_contents
  rw [sectorsOf_eq (hclusters d hd) hfits, printSectors_eq hread]
  rfl

/-- Where the path leads straight to a file, `read_file` prints the file exactly when no NUL
stands in it, a NUL or the end of its last cluster is behind it, and the loop finds nothing to
print behind its clusters. -/
theorem a_file_is_printed_iff {chain : List Nat} (hvolume : Volume s content)
    (hne : components ≠ []) (hcomponents : ∀ x ∈ components, IsComponent x)
    (hlen : (pathOf components).length + 1 < 2 ^ 32)
    (hdirect : Direct s content s.current_sd_partition.rootCluster components)
    (hfile : fileAt content s.current_sd_partition.rootCluster components = some e)
    (hon : FileOn s e chain) :
    PrintsFile s (pathOf components) ((chainBytes s chain).take e.size) ↔
      (∀ b ∈ (chainBytes s chain).take e.size, b ≠ 0) ∧
        (∀ b ∈ (chainBytes s chain)[e.size]?, b = 0) ∧ SilentBehind s chain := by
  have hs := hvolume.toIsFat32
  have hlook := hdirect.get_file_size hs hne hcomponents hlen
  rw [lookup_of_fileAt hfile] at hlook
  by_cases hempty : e.size = 0
  · obtain ⟨hcluster, rfl⟩ := hon.empty hempty
    rw [hcluster] at hlook
    refine iff_of_true ?_ ⟨by simp [chainBytes], by simp [chainBytes], by simp [SilentBehind]⟩
    simpa [chainBytes] using prints_empty hlook
  · have hchain := hon.clusters hempty
    obtain ⟨hlow, hsize⟩ := hon.size hempty
    obtain ⟨d, n, hd, hn⟩ := hchain.last_entry
    have hprint : ∀ more : List Nat, (chain ++ more).flatMap (print_file_cluster_contents s) =
        (chainBytes s chain).take e.size ↔
          (∀ b ∈ (chainBytes s chain).take e.size, b ≠ 0) ∧
            (∀ b ∈ (chainBytes s chain)[e.size]?, b = 0) ∧
            ∀ v ∈ more, print_file_cluster_contents s v = [] := by
      intro more
      have hmore : ∀ b ∈ more.flatMap (print_file_cluster_contents s), (b != 0) = true := by
        intro b hb
        obtain ⟨v, -, hmem⟩ := List.mem_flatMap.mp hb
        exact printSectors_ne s _ b hmem
      have hlength : ∀ b ∈ chain.map (clusterBytes s), b.length = clusterSize s := by
        simp [length_clusterBytes]
      have htexts := texts_take_iff (chain.map (clusterBytes s)) e.size hlength
        (by simpa using hlow) (by simpa using hsize) hmore
      rw [List.flatMap_append, print_chain hchain.all_clusters hon.sectors]
      simpa [chainBytes, List.flatMap_def, List.flatMap_eq_nil_iff] using htexts
    rw [printsFile_iff hs hlook (hchain.first_sector hs)]
    constructor
    · rintro ⟨visited, htrail, hprinted⟩
      obtain ⟨d, hd, n, hn, more, hmore, rfl⟩ := (trail_iff hs hchain).mp htrail
      obtain ⟨hnonzero, hbehind, hsilent⟩ := (hprint more).mp hprinted
      refine ⟨hnonzero, hbehind, ?_⟩
      intro d' hd' n' hn'
      obtain rfl := Option.some_inj.mp (hd.symm.trans hd')
      obtain rfl := Option.some_inj.mp (hn.symm.trans hn')
      exact ⟨more, hmore, fun v hv => (printSectors_eq_nil s _).mp (hsilent v hv)⟩
    · rintro ⟨hnonzero, hbehind, hsilent⟩
      obtain ⟨more, hmore, hnul⟩ := hsilent d hd n hn
      refine ⟨chain ++ more, (trail_iff hs hchain).mpr ⟨d, hd, n, hn, more, hmore, rfl⟩, ?_⟩
      exact (hprint more).mpr ⟨hnonzero, hbehind,
        fun v hv => (printSectors_eq_nil s _).mpr (hnul v hv)⟩

end

/-! ## A file of two clusters -/

theorem longFile_on : FileOn docsFat longFile [5, 6] where
  empty h := absurd h (by decide)
  clusters _ := file_chain
  size _ := ⟨by decide, by decide⟩
  sectors d hd := by
    rcases List.mem_pair.mp hd with rfl | rfl
    all_goals
      refine ⟨by unfold Fits; decide, fun n hn => ?_⟩
      obtain rfl := List.mem_singleton.mp hn
      rfl

/-- The last cluster has the end mark that the loop knows. -/
theorem longFile_silent : SilentBehind docsFat [5, 6] := by
  intro d hd n hn
  obtain rfl : 6 = d := Option.some_inj.mp hd
  have hmark : fatEntry docsFat 6 = some 0x0FFFFFFF := by decide
  obtain rfl := Option.some_inj.mp (hmark.symm.trans hn)
  exact ⟨[], .stop (by decide), by simp⟩

theorem longFile_at : fileAt docsContent docsFat.current_sd_partition.rootCluster
    [docsName, longName] = some longFile := by
  have hroot : docsFat.current_sd_partition.rootCluster = 2 := by decide
  have hdocs : findEntry (docsContent 2) docsName = some docsDirectory := rfl
  have hlong : findEntry (docsContent 4) longName = some longFile := rfl
  have hcluster : docsDirectory.cluster = 4 := by decide
  rw [hroot, fileAt, hdocs]
  dsimp only
  have hdir : docsDirectory.isDir = true := by decide
  have hfile : longFile.isDir = false := by decide
  rw [if_neg (List.cons_ne_nil _ _), if_pos hdir, hcluster, fileAt, hlong]
  dsimp only
  rw [if_pos rfl, hfile]
  rfl

/-- The first cluster, and the second one with the 88 bytes that are left. -/
theorem longFile_bytes : chainBytes docsFat [5, 6] =
    (List.range' 0 512).map (fun _ => 0x61) ++
      (List.range' 0 512).map fun i => if i < 88 then 0x61 else 0 := by
  have hfirst : dataSectors docsFat 5 = [5] := rfl
  have hsecond : dataSectors docsFat 6 = [6] := rfl
  have hread : docsFat.block_read_handler.read 5 = some fun _ => 0x61 := rfl
  have hread' : docsFat.block_read_handler.read 6 = some fun i => if i < 88 then 0x61 else 0 := rfl
  unfold chainBytes clusterBytes
  rw [List.flatMap_cons, List.flatMap_singleton, hfirst, hsecond, List.flatMap_singleton,
    List.flatMap_singleton]
  unfold sectorBytes
  rw [hread, hread']
  rfl

theorem longFile_size : longFile.size = 600 := by decide

/-- The 600 bytes of the file are none of them zero, and the one behind them is. -/
theorem longFile_text : (∀ b ∈ (chainBytes docsFat [5, 6]).take longFile.size, b ≠ 0) ∧
    ∀ b ∈ (chainBytes docsFat [5, 6])[longFile.size]?, b = 0 := by
  have hlen : ((List.range' 0 512).map fun _ => (0x61 : BitVec 8)).length = 512 := by
    rw [List.length_map, List.length_range']
  rw [longFile_bytes, longFile_size, List.take_append, List.getElem?_append_right (by omega), hlen]
  constructor
  · intro b hb
    rcases List.mem_append.mp hb with hb | hb
    · obtain ⟨i, -, rfl⟩ := List.mem_map.mp (List.mem_of_mem_take hb)
      decide
    · rw [← List.map_take] at hb
      obtain ⟨i, hi, rfl⟩ := List.mem_map.mp hb
      obtain ⟨j, hj, rfl⟩ := List.mem_take_iff_getElem.mp hi
      have hj := (lt_min_iff.mp hj).1
      rw [List.getElem_range', if_pos (by omega)]
      decide
  · intro b hb
    rw [List.getElem?_map, List.getElem?_range' (by omega)] at hb
    obtain rfl := Option.some_inj.mp hb
    rfl

/-- The file with the long name is printed. -/
theorem the_long_file_is_printed : PrintsFile docsFat (pathOf [docsName, longName])
    ((chainBytes docsFat [5, 6]).take longFile.size) := by
  have hcomponents : ∀ x ∈ [docsName, longName], IsComponent x := by decide
  refine (a_file_is_printed_iff docsFat_volume (by simp) hcomponents (by decide) docsFat_direct
    longFile_at longFile_on).mpr ⟨longFile_text.1, longFile_text.2, longFile_silent⟩

/-! ## A file of one NUL -/

/-- The directory of the file `a`, with the size 1. The block of its cluster is zero. -/
def nulBlock : List (Nat × BitVec 8) := fileBlock ++ [(60, 1)]

def nulFile : Fat :=
  smallFat [(8, 0xFF), (9, 0xFF), (10, 0xFF), (11, 0x0F), (12, 0xFF), (13, 0xFF), (14, 0xFF),
    (15, 0x0F)] nulBlock

def nulEntry : LongEntry where
  name := [0x61]
  parts := [slotOf (blockOf nulBlock) 0]
  slot := slotOf (blockOf nulBlock) 1
  nonempty := fileEntry.nonempty
  length := fileEntry.length
  units := fileEntry.units
  written := ⟨_, [], rfl, ⟨by decide, by decide, by decide⟩, rfl⟩
  live := by decide

theorem nulFile_oneFile : OneFile nulFile nulEntry 2 (blockOf nulBlock) where
  type := by decide
  bytes := by decide
  reserved := by decide
  cluster := ⟨by decide, by decide⟩
  entry := by decide
  fits := by unfold Fits; decide
  sectors := rfl
  read := rfl
  slots := ⟨(List.range' 2 14).map (slotOf (blockOf nulBlock)), rfl, by decide⟩
  file := by decide

theorem nulFile_at : fileAt (fun _ => [.entry nulEntry])
    nulFile.current_sd_partition.rootCluster [[0x61]] = some nulEntry := rfl

theorem nulFile_on : FileOn nulFile nulEntry [3] where
  empty h := absurd h (by decide)
  clusters _ := .last (n := 0x0FFFFFFF) ⟨by decide, by decide⟩ (by decide) (by decide)
  size _ := ⟨by decide, by decide⟩
  sectors d hd := by
    rw [List.mem_singleton.mp hd]
    refine ⟨by unfold Fits; decide, fun n hn => ?_⟩
    obtain rfl : n = 3 := List.mem_singleton.mp hn
    rfl

theorem nulFile_bytes : (chainBytes nulFile [3]).take nulEntry.size = [0] := by decide

/-- A NUL is not printed, though the file holds it. -/
theorem a_nul_in_a_file_is_not_printed : ¬ ∀ (s : Fat) (content : Nat → List Item)
    (components : List Path) (e : LongEntry) (chain : List Nat), Volume s content →
      components ≠ [] → (∀ x ∈ components, IsComponent x) →
        fileAt content s.current_sd_partition.rootCluster components = some e →
          FileOn s e chain →
            PrintsFile s (pathOf components) ((chainBytes s chain).take e.size) := by
  intro h
  have hprints := h nulFile _ [[0x61]] nulEntry [3] nulFile_oneFile.volume (by simp) (by decide)
    nulFile_at nulFile_on
  rw [nulFile_bytes] at hprints
  exact hprints.ne_nul 0 List.mem_cons_self rfl

end rpi_wifi.fat
