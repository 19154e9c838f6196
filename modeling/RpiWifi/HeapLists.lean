-- The law of the heap's blocks: the blocks in use never meet each other or a
-- block in a free list, and each free list is a chain of blocks of its size
-- that ends. It holds from every place where the frame allocator puts the heap.
import RpiWifi.HeapRegion
import RpiWifi.FrameSafety
import RpiWifi.Chains

namespace rpi_wifi.kernel_alloc

open runs memory chains frame_alloc

/-! ## The machine of the clients -/

/-- A block in use: the pointer that was returned and the bytes that were asked for. -/
structure Live where
  ptr : Nat
  size : Nat
  deriving DecidableEq

def Live.header (b : Live) : Nat := b.ptr - sizeofHeader

/-- The heap with the blocks in use, which the code does not keep. -/
structure Arena where
  heap : Heap
  live : List Live

/-- What the clients do: ask for a block, give back one that is in use, or store a byte. -/
inductive ClientOp where
  | allocate (size : BitVec 32)
  | deallocate (b : Live)
  | store (a : Nat) (v : BitVec 8)

/-- The byte at `a` belongs to a client: it lies behind the header of a block in
use, or in no block at all. -/
def Arena.mayStore (s : Arena) (a : Nat) : Prop :=
  (∃ b ∈ s.live, b.ptr ≤ a ∧ a < b.ptr + sizeAt s.heap.mem b.header) ∨
    ∀ h ∈ s.heap.blocks, a < h ∨ h + sizeofHeader + sizeAt s.heap.mem h ≤ a

instance (s : Arena) (a : Nat) : Decidable (s.mayStore a) := inferInstanceAs (Decidable (_ ∨ _))

/-- A pointer was returned for the request, or null. -/
def Arena.returned (s : Arena) (r : Heap × Nat) (size : Nat) : Arena :=
  { heap := r.1, live := if r.2 = 0 then s.live else ⟨r.2, size⟩ :: s.live }

def clientStep (s : Arena) : ClientOp → Option Arena
  | .allocate size =>
    if size.toNat + 31 < 2 ^ 32 then
      some (s.returned (kernel_allocate s.heap size) size.toNat)
    else none
  | .deallocate b =>
    if b ∈ s.live then some { heap := kernel_deallocate s.heap b.ptr, live := s.live.erase b }
    else none
  | .store a v =>
    if s.mayStore a then
      some { s with heap := { s.heap with mem := Function.update s.heap.mem a v } }
    else none

/-! ## The invariant -/

/-- Two blocks do not meet, from their headers to their recorded ends. -/
def Clear (m : Mem) (h k : Nat) : Prop :=
  h + sizeofHeader + sizeAt m h ≤ k ∨ k + sizeofHeader + sizeAt m k ≤ h

/-- The blocks stand on the grid of 16 bytes and do not meet. Each of them is in
use, in the one free list of its size, or in neither. -/
structure ArenaOk (s : Arena) (lists : Fin 7 → List Nat) : Prop where
  heap : HeapOk 1 (2 ^ 32) s.heap
  grid : s.heap.s_pNextBlock % 16 = 0
  aligned : ∀ h ∈ s.heap.blocks, h % 16 = 0
  clear : ∀ h ∈ s.heap.blocks, ∀ k ∈ s.heap.blocks, k = h ∨ Clear s.heap.mem h k
  chain : ∀ i, Chain (nextAt s.heap.mem) 0 (s.heap.free_list i) (lists i)
  sized : ∀ i, ∀ h ∈ lists i, h ∈ s.heap.blocks ∧ sizeAt s.heap.mem h = bucketSize i
  held : ∀ b ∈ s.live, ∃ h ∈ s.heap.blocks, b.ptr = h + sizeofHeader ∧ b.size ≤ sizeAt s.heap.mem h
  once : (s.live.map Live.ptr).Nodup
  used : ∀ b ∈ s.live, ∀ i, b.header ∉ lists i

/-- The part of the invariant that is about the lists and the blocks in use. A block in
use `fits` what was asked for. -/
structure Settled (fits : Nat → Nat → Prop) (s : Arena) (lists : Fin 7 → List Nat) : Prop where
  chain : ∀ i, Chain (nextAt s.heap.mem) 0 (s.heap.free_list i) (lists i)
  sized : ∀ i, ∀ h ∈ lists i, h ∈ s.heap.blocks ∧ sizeAt s.heap.mem h = bucketSize i
  held : ∀ b ∈ s.live, ∃ h ∈ s.heap.blocks,
    b.ptr = h + sizeofHeader ∧ fits b.size (sizeAt s.heap.mem h)
  once : (s.live.map Live.ptr).Nodup
  used : ∀ b ∈ s.live, ∀ i, b.header ∉ lists i

variable {s t : Arena} {lists : Fin 7 → List Nat} {fits : Nat → Nat → Prop}

theorem ArenaOk.settled (hs : ArenaOk s lists) : Settled (· ≤ ·) s lists :=
  ⟨hs.chain, hs.sized, hs.held, hs.once, hs.used⟩

theorem bucketSize_inj {i j : Fin 7} (h : bucketSize i = bucketSize j) : i = j := by
  revert i j
  decide

theorem Settled.lists_apart (hs : Settled fits s lists) {i j : Fin 7} {h : Nat} (hi : h ∈ lists i)
    (hj : h ∈ lists j) : i = j := by
  apply bucketSize_inj
  rw [← (hs.sized i h hi).2, (hs.sized j h hj).2]

/-- A change that keeps the blocks and their sizes keeps what depends on these alone. -/
theorem ArenaOk.resettled (hs : ArenaOk s lists) {heap : Heap} {live : List Live}
    {lists' : Fin 7 → List Nat} (hheap : HeapOk 1 (2 ^ 32) heap)
    (hnext : heap.s_pNextBlock = s.heap.s_pNextBlock) (hblocks : heap.blocks = s.heap.blocks)
    (hsize : ∀ h ∈ s.heap.blocks, sizeAt heap.mem h = sizeAt s.heap.mem h)
    (hsettled : Settled (· ≤ ·) ⟨heap, live⟩ lists') : ArenaOk ⟨heap, live⟩ lists' := by
  refine ⟨hheap, ?_, ?_, ?_, hsettled.chain, hsettled.sized, hsettled.held, hsettled.once,
    hsettled.used⟩
  · dsimp only
    rw [hnext]
    exact hs.grid
  · dsimp only
    rw [hblocks]
    exact hs.aligned
  · dsimp only
    rw [hblocks]
    intro h hh k hk
    unfold Clear
    rw [hsize h hh, hsize k hk]
    exact hs.clear h hh k hk

/-! ## Lists and blocks in use -/

theorem header_of_ptr {b : Live} {h : Nat} (hp : b.ptr = h + sizeofHeader) : b.header = h := by
  unfold Live.header
  omega

theorem Settled.free_ne (hs : Settled fits s lists) {b : Live} (hb : b ∈ s.live) {i : Fin 7}
    {h : Nat} (hh : h ∈ lists i) : b.ptr ≠ h + sizeofHeader := by
  intro hp
  apply hs.used b hb i
  rw [header_of_ptr hp]
  exact hh

/-- New blocks may come, when the headers that are there stay. -/
theorem Settled.keep (hs : Settled fits s lists) (heap : Heap)
    (hblocks : ∀ h ∈ s.heap.blocks, h ∈ heap.blocks) (hfree : heap.free_list = s.heap.free_list)
    (hsize : ∀ h ∈ s.heap.blocks, sizeAt heap.mem h = sizeAt s.heap.mem h)
    (hnext : ∀ h ∈ s.heap.blocks, nextAt heap.mem h = nextAt s.heap.mem h) :
    Settled fits ⟨heap, s.live⟩ lists := by
  refine ⟨?_, ?_, ?_, hs.once, hs.used⟩
  · intro i
    dsimp only
    rw [hfree]
    apply (hs.chain i).congr
    exact fun h hh => hnext h (hs.sized i h hh).1
  · intro i h hh
    obtain ⟨hm, hz⟩ := hs.sized i h hh
    exact ⟨hblocks h hm, (hsize h hm).trans hz⟩
  · intro b hb
    obtain ⟨h, hm, hp, hz⟩ := hs.held b hb
    refine ⟨h, hblocks h hm, hp, ?_⟩
    dsimp only
    rw [hsize h hm]
    exact hz

/-- A block that is in no list, and that no client has, is given to a client. -/
theorem Settled.hold (hs : Settled fits s lists) {h : Nat} (size : Nat) (hm : h ∈ s.heap.blocks)
    (hfit : fits size (sizeAt s.heap.mem h)) (hout : ∀ i, h ∉ lists i)
    (hnew : ∀ b ∈ s.live, b.ptr ≠ h + sizeofHeader) :
    Settled fits ⟨s.heap, ⟨h + sizeofHeader, size⟩ :: s.live⟩ lists := by
  refine ⟨hs.chain, hs.sized, ?_, ?_, ?_⟩
  · intro b hb
    rcases List.mem_cons.mp hb with rfl | hb
    · exact ⟨h, hm, rfl, hfit⟩
    · exact hs.held b hb
  · refine List.nodup_cons.mpr ⟨?_, hs.once⟩
    intro hin
    obtain ⟨b, hb, hp⟩ := List.mem_map.mp hin
    exact hnew b hb hp
  · intro b hb i hi
    rcases List.mem_cons.mp hb with rfl | hb
    · rw [header_of_ptr rfl] at hi
      exact hout i hi
    · exact hs.used b hb i hi

/-- A client gives a block back, which goes into no list yet. -/
theorem Settled.drop (hs : Settled fits s lists) (b : Live) :
    Settled fits ⟨s.heap, s.live.erase b⟩ lists :=
  ⟨hs.chain, hs.sized, fun c hc => hs.held c (List.mem_of_mem_erase hc),
    hs.once.sublist (List.erase_sublist.map _), fun c hc => hs.used c (List.mem_of_mem_erase hc)⟩

/-- No block in use has the header of one that was given back. -/
theorem Settled.dropped (hs : Settled fits s lists) {b : Live} (hb : b ∈ s.live) :
    ∀ c ∈ s.live.erase b, c.ptr ≠ b.ptr := by
  intro c hc hp
  obtain ⟨hne, hc⟩ := hs.once.of_map.mem_erase_iff.mp hc
  exact hne (List.inj_on_of_nodup_map hs.once hc hb hp)

/-- The first block of a free list is taken off. -/
theorem Settled.pop (hs : Settled fits s lists) {i : Fin 7} (hne : s.heap.free_list i ≠ 0)
    (hap : ∀ h ∈ s.heap.blocks, ∀ k ∈ s.heap.blocks, k = h ∨ Apart h k) :
    ∃ l, lists i = s.heap.free_list i :: l ∧
      (∀ j, s.heap.free_list i ∉ Function.update lists i l j) ∧
      Settled fits
        { heap := { s.heap with
            mem := setNext s.heap.mem (s.heap.free_list i) 0
            free_list := Function.update s.heap.free_list i
              (nextAt s.heap.mem (s.heap.free_list i)) }
          live := s.live } (Function.update lists i l) := by
  obtain ⟨l, hl, hrest⟩ := (hs.chain i).pop hne
  have hfirst : s.heap.free_list i ∈ lists i := by simp [hl]
  obtain ⟨hmem, hz⟩ := hs.sized i _ hfirst
  -- Every block that stays in a list is another one.
  have hnext : ∀ j, ∀ k ∈ lists j, k ≠ s.heap.free_list i →
      nextAt (setNext s.heap.mem (s.heap.free_list i) 0) k = nextAt s.heap.mem k := by
    intro j k hk hne
    apply nextAt_setNext_apart
    exact (hap _ hmem k (hs.sized j k hk).1).resolve_left hne
  have hnodup : s.heap.free_list i ∉ l ∧ l.Nodup := by
    have := (hs.chain i).nodup
    rw [hl] at this
    exact List.nodup_cons.mp this
  have hkeep : ∀ j, ∀ k ∈ Function.update lists i l j, k ∈ lists j ∧ k ≠ s.heap.free_list i := by
    intro j k hk
    by_cases hj : j = i
    · subst hj
      rw [Function.update_self] at hk
      refine ⟨by simp [hl, hk], ?_⟩
      rintro rfl
      exact hnodup.1 hk
    · rw [Function.update_of_ne hj] at hk
      refine ⟨hk, ?_⟩
      rintro rfl
      exact hj (hs.lists_apart hk hfirst)
  have hsize : ∀ k ∈ s.heap.blocks,
      sizeAt (setNext s.heap.mem (s.heap.free_list i) 0) k = sizeAt s.heap.mem k :=
    fun k hk => sizeAt_setNext (hap _ hmem k hk)
  refine ⟨l, hl, fun j hj => (hkeep j _ hj).2 rfl, ?_, ?_, ?_, hs.once, ?_⟩
  · intro j
    have hold : Chain (nextAt s.heap.mem) 0
        (Function.update s.heap.free_list i (nextAt s.heap.mem (s.heap.free_list i)) j)
        (Function.update lists i l j) := by
      by_cases hj : j = i
      · subst hj
        rw [Function.update_self, Function.update_self]
        exact hrest
      · rw [Function.update_of_ne hj, Function.update_of_ne hj]
        exact hs.chain j
    apply hold.congr
    intro k hk
    exact hnext j k (hkeep j k hk).1 (hkeep j k hk).2
  · intro j k hk
    obtain ⟨hm, hz⟩ := hs.sized j k (hkeep j k hk).1
    exact ⟨hm, (hsize k hm).trans hz⟩
  · intro b hb
    obtain ⟨h, hm, hp, hz⟩ := hs.held b hb
    refine ⟨h, hm, hp, ?_⟩
    dsimp only
    rw [hsize h hm]
    exact hz
  · intro b hb j hj
    exact hs.used b hb j (hkeep j _ hj).1

/-- A block that no client has goes in front of the free list of its size. -/
theorem Settled.push (hs : Settled fits s lists) {h : Nat} {i : Fin 7} (hm : h ∈ s.heap.blocks)
    (h0 : h ≠ 0) (hz : sizeAt s.heap.mem h = bucketSize i) (hlt : s.heap.free_list i < 2 ^ 32)
    (hap : ∀ k ∈ s.heap.blocks, k = h ∨ Apart h k) (hout : ∀ j, h ∉ lists j)
    (hfree : ∀ b ∈ s.live, b.ptr ≠ h + sizeofHeader) :
    Settled fits
      { heap := { s.heap with
          mem := setNext s.heap.mem h (s.heap.free_list i)
          free_list := Function.update s.heap.free_list i h }
        live := s.live } (Function.update lists i (h :: lists i)) := by
  have hsize : ∀ k ∈ s.heap.blocks,
      sizeAt (setNext s.heap.mem h (s.heap.free_list i)) k = sizeAt s.heap.mem k :=
    fun k hk => sizeAt_setNext (hap k hk)
  have hnext : ∀ j, ∀ k ∈ lists j,
      nextAt (setNext s.heap.mem h (s.heap.free_list i)) k = nextAt s.heap.mem k := by
    intro j k hk
    apply nextAt_setNext_apart
    apply (hap k (hs.sized j k hk).1).resolve_left
    rintro rfl
    exact hout j hk
  refine ⟨?_, ?_, ?_, hs.once, ?_⟩
  · intro j
    dsimp only
    by_cases hj : j = i
    · subst hj
      rw [Function.update_self, Function.update_self]
      exact (hs.chain j).push h0 (nextAt_setNext_self hlt) (hnext j)
    · rw [Function.update_of_ne hj, Function.update_of_ne hj]
      exact (hs.chain j).congr (hnext j)
  · intro j k hk
    have hold : k = h ∧ j = i ∨ k ∈ lists j := by
      by_cases hj : j = i
      · subst hj
        rw [Function.update_self] at hk
        exact (List.mem_cons.mp hk).imp_left fun he => ⟨he, rfl⟩
      · rw [Function.update_of_ne hj] at hk
        exact .inr hk
    rcases hold with ⟨rfl, rfl⟩ | hk
    · exact ⟨hm, (hsize _ hm).trans hz⟩
    · obtain ⟨hk, hkz⟩ := hs.sized j k hk
      exact ⟨hk, (hsize k hk).trans hkz⟩
  · intro b hb
    obtain ⟨k, hk, hp, hz⟩ := hs.held b hb
    refine ⟨k, hk, hp, ?_⟩
    dsimp only
    rw [hsize k hk]
    exact hz
  · intro b hb j hj
    by_cases hji : j = i
    · subst hji
      rw [Function.update_self] at hj
      rcases List.mem_cons.mp hj with heq | hj
      · obtain ⟨k, -, hp, -⟩ := hs.held b hb
        rw [header_of_ptr hp] at heq
        exact hfree b hb (heq ▸ hp)
      · exact hs.used b hb j hj
    · rw [Function.update_of_ne hji] at hj
      exact hs.used b hb j hj

/-! ## The calls -/

/-- The first block of a free list is taken off and given to a client. -/
theorem arenaOk_pop (hs : ArenaOk s lists) {i : Fin 7} {size : Nat} (hne : s.heap.free_list i ≠ 0)
    (hle : size ≤ bucketSize i) :
    ∃ lists', ArenaOk
      { heap := (Heap.give { s.heap with
          free_list := Function.update s.heap.free_list i
            (nextAt s.heap.mem (s.heap.free_list i)) } (s.heap.free_list i)).1
        live := ⟨s.heap.free_list i + sizeofHeader, size⟩ :: s.live } lists' := by
  obtain ⟨l, hl, hout, hpop⟩ := hs.settled.pop hne hs.heap.apart
  have hfirst : s.heap.free_list i ∈ lists i := by simp [hl]
  obtain ⟨hmem, hz⟩ := hs.sized i _ hfirst
  have hsize : ∀ k ∈ s.heap.blocks,
      sizeAt (setNext s.heap.mem (s.heap.free_list i) 0) k = sizeAt s.heap.mem k :=
    fun k hk => sizeAt_setNext (hs.heap.apart _ hmem k hk)
  have hlinked : Linked s.heap.blocks s.heap.mem
      (nextAt s.heap.mem (s.heap.free_list i)) (bucketSize i) := hz ▸ hs.heap.linked _ hmem
  have hheap := heapOk_setNext hs.heap hmem (.inl rfl) hlinked
  refine ⟨Function.update lists i l, hs.resettled hheap rfl rfl hsize ?_⟩
  apply hpop.hold _ hmem _ hout fun b hb => hs.settled.free_ne hb hfirst
  dsimp only
  rw [hsize _ hmem, hz]
  exact hle

/-- With a new header behind the last block, the blocks that are there read as before. -/
structure Carved (heap : Heap) (m : Mem) (z : Nat) : Prop where
  size : ∀ k ∈ heap.blocks, sizeAt m k = sizeAt heap.mem k
  next : ∀ k ∈ heap.blocks, nextAt m k = nextAt heap.mem k
  new : sizeAt m heap.s_pNextBlock = z

theorem carved_header {heap : Heap} (h : HeapOk 1 (2 ^ 32) heap) {z : Nat} (hz : z ≤ maxRequest) :
    Carved heap (setNext (setHeader heap.mem heap.s_pNextBlock z) heap.s_pNextBlock 0) z := by
  -- The blocks that are there end in front of the new one.
  have hold : ∀ k ∈ heap.blocks, Apart heap.s_pNextBlock k := by
    intro k hk
    have := (h.inside k hk).2
    right
    omega
  refine ⟨?_, ?_, ?_⟩
  · intro k hk
    rw [sizeAt_setNext (.inr (hold k hk)), sizeAt_setHeader_apart (hold k hk)]
  · intro k hk
    rw [nextAt_setNext_apart (hold k hk), nextAt_setHeader_apart (hold k hk)]
  · unfold maxRequest at hz
    rw [sizeAt_setNext (.inl rfl), sizeAt_setHeader_self (by omega)]

/-- The new block is clear of the ones that are there. -/
theorem ArenaOk.clear_carved (hs : ArenaOk s lists) {m : Mem} {z : Nat} (hm : Carved s.heap m z) :
    ∀ h ∈ s.heap.blocks ++ [s.heap.s_pNextBlock], ∀ k ∈ s.heap.blocks ++ [s.heap.s_pNextBlock],
      k = h ∨ Clear m h k := by
  have hnew : ∀ k ∈ s.heap.blocks, Clear m k s.heap.s_pNextBlock := by
    intro k hk
    left
    rw [hm.size k hk]
    exact (hs.heap.inside k hk).2
  intro h hh k hk
  rcases List.mem_append.mp hh with hh | hh <;> rcases List.mem_append.mp hk with hk | hk
  · apply (hs.clear h hh k hk).imp_right
    intro hc
    unfold Clear at hc ⊢
    rw [hm.size h hh, hm.size k hk]
    exact hc
  · rw [List.mem_singleton.mp hk]
    exact .inr (hnew h hh)
  · rw [List.mem_singleton.mp hh]
    exact .inr (Or.symm (hnew k hk))
  · rw [List.mem_singleton.mp hh, List.mem_singleton.mp hk]
    exact .inl rfl

/-- A new block is carved behind the last one and given to a client. -/
theorem arenaOk_carve (hs : ArenaOk s lists) {z size : Nat} (hz : z ≤ maxRequest) (hle : size ≤ z)
    (hlt : s.heap.s_pNextBlock < (s.heap.s_pNextBlock + stride z) % 2 ^ 32)
    (hroom : (s.heap.s_pNextBlock + stride z) % 2 ^ 32 ≤ s.heap.roomEnd) :
    ArenaOk
      { heap := (Heap.give { s.heap with
          s_pNextBlock := (s.heap.s_pNextBlock + stride z) % 2 ^ 32
          mem := setHeader s.heap.mem s.heap.s_pNextBlock z
          blocks := s.heap.blocks ++ [s.heap.s_pNextBlock] } s.heap.s_pNextBlock).1
        live := ⟨s.heap.s_pNextBlock + sizeofHeader, size⟩ :: s.live } lists := by
  obtain ⟨hn, hstride⟩ := stride_spec hs.heap.word hz hlt
  have hgrid := hs.grid
  have hm := carved_header hs.heap hz
  have hfresh : ∀ k ∈ s.heap.blocks, k ≠ s.heap.s_pNextBlock := by
    intro k hk
    have := (hs.heap.inside k hk).2
    unfold sizeofHeader at this
    omega
  have hkept := hs.settled.keep (Heap.give { s.heap with
      s_pNextBlock := (s.heap.s_pNextBlock + stride z) % 2 ^ 32
      mem := setHeader s.heap.mem s.heap.s_pNextBlock z
      blocks := s.heap.blocks ++ [s.heap.s_pNextBlock] } s.heap.s_pNextBlock).1
    (fun h hh => List.mem_append_left _ hh) rfl hm.size hm.next
  have hheld := hkept.hold (h := s.heap.s_pNextBlock) size (by simp [Heap.give])
    (hle.trans_eq hm.new.symm) (fun i hi => hfresh _ (hs.sized i _ hi).1 rfl) (by
      intro b hb hp
      obtain ⟨k, hk, hk', -⟩ := hs.held b hb
      exact hfresh k hk (by omega))
  refine ⟨heapOk_carve hs.heap hz hlt hroom, ?_, ?_, hs.clear_carved hm, hheld.chain,
    hheld.sized, hheld.held, hheld.once, hheld.used⟩
  · dsimp only [Heap.give]
    rw [hn]
    unfold stride
    omega
  · intro k hk
    rcases List.mem_append.mp hk with hk | hk
    · exact hs.aligned k hk
    · rw [List.mem_singleton.mp hk]
      exact hgrid

/-- A block that was in use goes in front of the free list of its size. -/
theorem arenaOk_push (hs : ArenaOk s lists) {b : Live} (hb : b ∈ s.live) {h : Nat} {i : Fin 7}
    (hm : h ∈ s.heap.blocks) (hp : b.ptr = h + sizeofHeader)
    (hz : sizeAt s.heap.mem h = bucketSize i) :
    ∃ lists', ArenaOk
      { heap := { s.heap with
          mem := setNext s.heap.mem h (s.heap.free_list i)
          free_list := Function.update s.heap.free_list i h }
        live := s.live.erase b } lists' := by
  have hsize : ∀ k ∈ s.heap.blocks,
      sizeAt (setNext s.heap.mem h (s.heap.free_list i)) k = sizeAt s.heap.mem k :=
    fun k hk => sizeAt_setNext (hs.heap.apart h hm k hk)
  have hlt : s.heap.free_list i < 2 ^ 32 := (hs.heap.listed i).lt hs.heap
  have h0 := (hs.heap.inside h hm).1
  have hheap := heapOk_setNext hs.heap hm (hz ▸ hs.heap.listed i) (.inr ⟨hm, hz⟩)
  refine ⟨Function.update lists i (h :: lists i), hs.resettled hheap rfl rfl hsize ?_⟩
  exact (hs.settled.drop b).push hm (by omega) hz hlt (hs.heap.apart h hm)
    (fun j hj => hs.settled.free_ne hb hj hp) fun c hc => hp ▸ hs.settled.dropped hb c hc

/-! ## The law of the blocks -/

theorem returned_give {heap : Heap} {h size : Nat} (hh : h + sizeofHeader < 2 ^ 32) :
    s.returned (heap.give h) size =
      { heap := (heap.give h).1, live := ⟨h + sizeofHeader, size⟩ :: s.live } := by
  have hptr : (heap.give h).2 = h + sizeofHeader := Nat.mod_eq_of_lt hh
  have hpos : h + sizeofHeader ≠ 0 := by
    unfold sizeofHeader
    omega
  simp only [Arena.returned, hptr, if_neg hpos]

theorem arenaOk_allocate (hs : ArenaOk s lists) {size : BitVec 32}
    (hsize : size.toNat + 31 < 2 ^ 32) :
    ∃ lists', ArenaOk (s.returned (kernel_allocate s.heap size) size.toNat) lists' := by
  have hword := hs.heap.word
  rcases kernel_allocate_cases s.heap size with ⟨i, hle, hne, hgive⟩ | ⟨z, hle, hz, hcarve⟩
  · obtain ⟨hmem, -⟩ := (hs.heap.listed i).resolve_left hne
    have hin := hs.heap.inside _ hmem
    rw [hgive, returned_give (by omega)]
    exact arenaOk_pop hs hne hle
  · have hmax : z ≤ maxRequest := by
      unfold maxRequest
      rcases hz with rfl | ⟨i, rfl⟩
      · omega
      · have := bucketSize_le i
        omega
    refine ⟨lists, ?_⟩
    rw [hcarve]
    rcases carve_cases s.heap z with hno | ⟨hlt, hroom, hnew⟩
    · have hheap := (carve_spec hs.heap hmax).1
      rw [hno] at hheap ⊢
      exact hs.resettled hheap rfl rfl (fun _ _ => rfl)
        (hs.settled.keep _ (fun _ hh => hh) rfl (fun _ _ => rfl) fun _ _ => rfl)
    · obtain ⟨hn, hstride⟩ := stride_spec hword hmax hlt
      have hlast := Nat.mod_lt (s.heap.s_pNextBlock + stride z) (show 0 < 2 ^ 32 by decide)
      rw [hnew, returned_give (by omega)]
      exact arenaOk_carve hs hmax hle hlt hroom

theorem arenaOk_deallocate (hs : ArenaOk s lists) {b : Live} (hb : b ∈ s.live) :
    ∃ lists', ArenaOk
      { heap := kernel_deallocate s.heap b.ptr, live := s.live.erase b } lists' := by
  obtain ⟨h, hm, hp, -⟩ := hs.held b hb
  have hin := hs.heap.inside h hm
  have hword := hs.heap.word
  rw [hp]
  rcases kernel_deallocate_cases (s := s.heap) (h := h) (by omega) with hno | ⟨i, hz, heq⟩
  · -- The block is larger than the last bucket, and it is given up.
    rw [hno]
    exact ⟨lists, hs.resettled hs.heap rfl rfl (fun _ _ => rfl) (hs.settled.drop b)⟩
  · rw [heq]
    exact arenaOk_push hs hb hm hp hz

/-- A byte that belongs to a client is in no header. -/
theorem ArenaOk.store_outside (hs : ArenaOk s lists) {a : Nat} (ha : s.mayStore a) :
    ∀ h ∈ s.heap.blocks, a < h ∨ h + sizeofHeader ≤ a := by
  intro h hm
  rcases ha with ⟨b, hb, hlo, hhi⟩ | hout
  · obtain ⟨k, hk, hp, -⟩ := hs.held b hb
    rw [header_of_ptr hp] at hhi
    rcases hs.clear h hm k hk with rfl | hc
    · omega
    · unfold Clear at hc
      omega
  · have := hout h hm
    omega

theorem arenaOk_store (hs : ArenaOk s lists) {a : Nat} {v : BitVec 8} (ha : s.mayStore a) :
    ArenaOk { s with heap := { s.heap with mem := Function.update s.heap.mem a v } } lists := by
  have hout := hs.store_outside ha
  have hfield : ∀ h ∈ s.heap.blocks, ∀ d ≤ 12,
      read32 (Function.update s.heap.mem a v) (h + d) = read32 s.heap.mem (h + d) := by
    intro h hm d hd
    have := hout h hm
    unfold sizeofHeader at this
    exact read32_update (by omega)
  have hsize : ∀ h ∈ s.heap.blocks,
      sizeAt (Function.update s.heap.mem a v) h = sizeAt s.heap.mem h :=
    fun h hm => hfield h hm 4 (by decide)
  exact hs.resettled (heapOk_store hs.heap hout) rfl rfl hsize
    (hs.settled.keep _ (fun _ hh => hh) rfl hsize fun h hm => hfield h hm 8 (by decide))

theorem arenaOk_step {a : ClientOp} (hs : ∃ lists, ArenaOk s lists)
    (h : clientStep s a = some t) : ∃ lists, ArenaOk t lists := by
  obtain ⟨lists, hs⟩ := hs
  cases a with
  | allocate size =>
    simp only [clientStep] at h
    split at h <;> cases h
    exact arenaOk_allocate hs ‹_›
  | deallocate b =>
    simp only [clientStep] at h
    split at h <;> cases h
    exact arenaOk_deallocate hs ‹_›
  | store b v =>
    simp only [clientStep] at h
    split at h <;> cases h
    exact ⟨lists, arenaOk_store hs ‹_›⟩

theorem arenaOk_init {mem : Mem} {fm : FrameManager} {ulSize : BitVec 32} {heap : Heap}
    (h : kernel_alloc_init mem
      (BitVec.ofNat 32 (alloc_contiguous_frames fm (ulSize.toNat / PAGE_SIZE)).2) ulSize =
        some heap) :
    ArenaOk ⟨heap, []⟩ fun _ => [] := by
  obtain ⟨h0, rfl⟩ := init_eq h
  have haligned := alloc_contiguous_frames_aligned fm (ulSize.toNat / PAGE_SIZE)
  set base := (alloc_contiguous_frames fm (ulSize.toNat / PAGE_SIZE)).2
  have hbase : (BitVec.ofNat 32 base).toNat = base % 2 ^ 32 := BitVec.toNat_ofNat _ _
  have hpos : 0 < (BitVec.ofNat 32 base).toNat := by
    rw [Nat.pos_iff_ne_zero]
    intro hz
    exact h0 (BitVec.eq_of_toNat_eq hz)
  refine ⟨⟨hpos, (BitVec.isLt _).le, BitVec.isLt _, ?_, ?_, Nat.mod_lt _ (by decide), ?_, ?_, ?_,
    ?_⟩, ?_, ?_, ?_, fun _ => chain_null _ _, ?_, ?_, List.nodup_nil, ?_⟩
  all_goals simp [Linked]
  · exact (Nat.mod_lt _ (by decide)).le
  · exact (Nat.mod_lt _ (by decide)).le
  · unfold PAGE_SIZE at haligned
    omega

/-- What the clients rely on: a block has the room that was asked for, the blocks in
use meet neither each other nor a free block, pointers stand on the grid, and each
free list is a chain, of blocks of its size, that has no block in common with another. -/
structure NoOverlap (s : Arena) (lists : Fin 7 → List Nat) : Prop where
  room : ∀ b ∈ s.live, b.size ≤ sizeAt s.heap.mem b.header
  aligned : ∀ b ∈ s.live, b.ptr % 16 = 0
  live : s.live.Pairwise fun b c => Clear s.heap.mem b.header c.header
  free : ∀ b ∈ s.live, ∀ i, ∀ h ∈ lists i, Clear s.heap.mem b.header h
  chain : ∀ i, Chain (nextAt s.heap.mem) 0 (s.heap.free_list i) (lists i)
  acyclic : ∀ i, (lists i).Nodup
  sized : ∀ i, ∀ h ∈ lists i, sizeAt s.heap.mem h = bucketSize i
  apart : ∀ i j, i ≠ j → (lists i).Disjoint (lists j)

theorem ArenaOk.noOverlap (hs : ArenaOk s lists) : NoOverlap s lists := by
  have hheld : ∀ b ∈ s.live, b.header ∈ s.heap.blocks ∧ b.ptr = b.header + sizeofHeader ∧
      b.size ≤ sizeAt s.heap.mem b.header := by
    intro b hb
    obtain ⟨h, hm, hp, hz⟩ := hs.held b hb
    rw [header_of_ptr hp]
    exact ⟨hm, hp, hz⟩
  refine ⟨fun b hb => (hheld b hb).2.2, ?_, ?_, ?_, hs.chain, fun i => (hs.chain i).nodup,
    fun i h hh => (hs.sized i h hh).2, ?_⟩
  · intro b hb
    have := hs.aligned _ (hheld b hb).1
    rw [(hheld b hb).2.1]
    unfold sizeofHeader
    omega
  · have honce : s.live.Pairwise fun b c => b.ptr ≠ c.ptr := List.pairwise_map.mp hs.once
    apply honce.imp_of_mem
    intro b c hb hc hne
    apply (hs.clear _ (hheld b hb).1 _ (hheld c hc).1).resolve_left
    intro heq
    apply hne
    rw [(hheld b hb).2.1, (hheld c hc).2.1, heq]
  · intro b hb i h hh
    apply (hs.clear _ (hheld b hb).1 h (hs.sized i h hh).1).resolve_left
    rintro rfl
    exact hs.used b hb i hh
  · intro i j hij h hi hj
    exact hij (hs.settled.lists_apart hi hj)

/-- After a successful `kernel_alloc_init`, whatever the frame allocator gave, no
sequence of calls makes two blocks meet. -/
theorem the_blocks_never_overlap (fm : FrameManager) (mem : Mem) (ulSize : BitVec 32)
    (heap : Heap) (ops : List ClientOp) (s : Arena)
    (hinit : kernel_alloc_init mem
      (BitVec.ofNat 32 (alloc_contiguous_frames fm (ulSize.toNat / PAGE_SIZE)).2) ulSize =
        some heap)
    (h : exec clientStep ⟨heap, []⟩ ops = some s) : ∃ lists, NoOverlap s lists := by
  obtain ⟨lists, hs⟩ := exec_keeps (fun s => ∃ lists, ArenaOk s lists)
    (fun _ _ _ hi ht => arenaOk_step hi ht) ⟨_, arenaOk_init hinit⟩ h
  exact ⟨lists, hs.noOverlap⟩

/-- Two blocks of one bucket are taken, the first one is written to and given back,
and a third request takes its place. -/
def clientRun : List ClientOp :=
  [.allocate 100, .allocate 1000, .store 0x20010 7, .deallocate ⟨0x20010, 100⟩, .allocate 500]

theorem clientRun_does_not_overlap :
    ∃ heap s, kernel_alloc_init (fun _ => 0)
        (BitVec.ofNat 32
          (alloc_contiguous_frames clearMachine ((0x4000 : BitVec 32).toNat / PAGE_SIZE)).2)
        0x4000 = some heap ∧
      exec clientStep ⟨heap, []⟩ clientRun = some s ∧
      s.live = [⟨0x20010, 500⟩, ⟨0x20420, 1000⟩] ∧ ∃ lists, NoOverlap s lists := by
  have hinit : ∃ heap, kernel_alloc_init (fun _ => 0)
      (BitVec.ofNat 32
        (alloc_contiguous_frames clearMachine ((0x4000 : BitVec 32).toNat / PAGE_SIZE)).2)
      0x4000 = some heap ∧
      (exec clientStep ⟨heap, []⟩ clientRun).map Arena.live =
        some [⟨0x20010, 500⟩, ⟨0x20420, 1000⟩] := by
    refine ⟨_, rfl, ?_⟩
    decide +kernel
  obtain ⟨heap, hheap, hlive⟩ := hinit
  obtain ⟨s, hs, hl⟩ := Option.map_eq_some_iff.mp hlive
  exact ⟨heap, s, hheap, hs, hl, the_blocks_never_overlap _ _ _ heap clientRun s hheap hs⟩

end rpi_wifi.kernel_alloc
