-- The ledger of the heap: every block that was ever carved is in use or in a free
-- list, as long as no block is given back that is larger than the last bucket.
-- Such a block has no list to go to, and nobody has it afterwards.
import RpiWifi.HeapBlocks
import RpiWifi.HeapLists

namespace rpi_wifi.kernel_alloc

open runs memory chains

/-! ## The machine -/

/-- What the clients do, whatever they ask for. They store anywhere but in a header. -/
def ledgerStep (s : Arena) : ClientOp → Option Arena
  | .allocate size => some (s.returned (kernel_allocate s.heap size) size.toNat)
  | .deallocate b =>
    if b ∈ s.live then some { heap := kernel_deallocate s.heap b.ptr, live := s.live.erase b }
    else none
  | .store a v =>
    if ∀ h ∈ s.heap.blocks, a < h ∨ h + sizeofHeader ≤ a then
      some { s with heap := { s.heap with mem := Function.update s.heap.mem a v } }
    else none

/-- The largest block that a free list takes. -/
def lastBucket : Nat := 0x80000

/-- Each block that was carved is either in use, once, or in the free list of its recorded
size, and in no other list. -/
def NoneLost (s : Arena) : Prop :=
  (s.live.map Live.ptr).Nodup ∧
    ∃ lists : Fin 7 → List Nat,
      (∀ i, Chain (nextAt s.heap.mem) 0 (s.heap.free_list i) (lists i)) ∧
      ∀ h ∈ s.heap.blocks,
        (h + sizeofHeader ∈ s.live.map Live.ptr ∧ ∀ i, h ∉ lists i) ∨
        (h + sizeofHeader ∉ s.live.map Live.ptr ∧
          ∃ i, bucketSize i = sizeAt s.heap.mem h ∧ ∀ j, h ∈ lists j ↔ j = i)

/-- A block of this size that is taken and given back is there for the next request. -/
def Reuses (s : Heap) (size : BitVec 32) : Prop :=
  let r := kernel_allocate s size
  let freed := kernel_deallocate r.1 r.2
  r.2 ≠ 0 → (kernel_allocate freed size).1.s_pNextBlock = freed.s_pNextBlock

/-! ## The invariant -/

/-- The blocks are in order, and a block in use has the size of its request or of its
bucket. -/
structure LedgerOk (base : Nat) (s : Arena) (lists : Fin 7 → List Nat) : Prop where
  blocks : BlocksOk base s.heap
  settled : Settled (fun n z => z = recorded n) s lists

/-- Every block is in use or in a list. -/
def Kept (s : Arena) (lists : Fin 7 → List Nat) : Prop :=
  ∀ h ∈ s.heap.blocks, h + sizeofHeader ∈ s.live.map Live.ptr ∨ ∃ i, h ∈ lists i

variable {base : Nat} {s t : Arena} {lists : Fin 7 → List Nat}

theorem ptr_ne_zero (h : Nat) : h + sizeofHeader ≠ 0 := by
  unfold sizeofHeader
  omega

/-- A block that is given out is a block in use afterwards. -/
theorem returned_eq {heap : Heap} {h size : Nat} :
    s.returned (heap, h + sizeofHeader) size =
      { heap, live := ⟨h + sizeofHeader, size⟩ :: s.live } := by
  unfold Arena.returned
  rw [if_neg (ptr_ne_zero h)]

theorem LedgerOk.allocate (hs : LedgerOk base s lists) (size : BitVec 32) :
    ∃ lists', LedgerOk base (s.returned (kernel_allocate s.heap size) size.toNat) lists' ∧
      (Kept s lists → Kept (s.returned (kernel_allocate s.heap size) size.toNat) lists') := by
  have hok := (hs.blocks.allocate size).1
  rcases hs.blocks.allocate_cases size with ⟨-, heq⟩ | ⟨-, i, hi, hm, h0, hz, heq⟩ | ⟨-, hf, -, heq⟩
  · rw [heq] at hok ⊢
    refine ⟨lists, ⟨hok, ?_⟩, fun hk => hk⟩
    exact hs.settled.keep _ (fun _ hh => hh) rfl (fun _ _ => rfl) fun _ _ => rfl
  · have hrec : bucketSize i = recorded size.toNat := by simp [recorded, hi]
    obtain ⟨l, hl, hout, hpop⟩ := hs.settled.pop h0 fun h hh k hk => hs.blocks.apart hh hk
    have hfirst : s.heap.free_list i ∈ lists i := by simp [hl]
    rw [heq] at hok ⊢
    rw [returned_eq]
    refine ⟨Function.update lists i l, ⟨hok, ?_⟩, ?_⟩
    · apply hpop.hold _ hm _ hout fun b hb => hs.settled.free_ne hb hfirst
      dsimp only
      rw [sizeAt_setNext (.inl rfl), hz, hrec]
    · intro hk h hh
      rcases hk h hh with hlive | ⟨j, hj⟩
      · exact .inl (List.mem_cons_of_mem _ hlive)
      · by_cases hji : j = i
        · subst hji
          rw [hl] at hj
          rcases List.mem_cons.mp hj with rfl | hj
          · exact .inl List.mem_cons_self
          · refine .inr ⟨j, ?_⟩
            rw [Function.update_self]
            exact hj
        · refine .inr ⟨j, ?_⟩
          rw [Function.update_of_ne hji]
          exact hj
  · obtain ⟨⟨hsize, -, -⟩, hold⟩ := hs.blocks.header (recorded_lt size)
    have hfresh : ∀ k ∈ s.heap.blocks, k ≠ s.heap.s_pNextBlock := by
      intro k hk
      obtain ⟨-, h16, hend⟩ := hs.blocks.inside k hk
      unfold sizeofHeader at h16
      omega
    have hkept := hs.settled.keep (s.heap.carved (recorded size.toNat))
      (fun h hh => List.mem_append_left _ hh) rfl (fun h hh => (hold h hh).1)
      fun h hh => (hold h hh).2.2
    rw [heq] at hok ⊢
    rw [returned_eq]
    refine ⟨lists, ⟨hok, ?_⟩, ?_⟩
    · apply hkept.hold _ (by simp [Heap.carved]) hsize
      · exact fun i hi => hfresh _ (hs.settled.sized i _ hi).1 rfl
      · intro b hb hp
        obtain ⟨k, hk, hk', -⟩ := hs.settled.held b hb
        exact hfresh k hk (by omega)
    · intro hk h hh
      rcases List.mem_append.mp hh with hh | hh
      · exact (hk h hh).imp_left fun hlive => List.mem_cons_of_mem _ hlive
      · rw [List.mem_singleton.mp hh]
        exact .inl List.mem_cons_self

theorem find_bucket (i : Fin 7) :
    (List.finRange 7).find? (fun j => bucketSize i = bucketSize j) = some i := by
  revert i
  decide

/-- A block of a bucket goes into the list of that bucket. -/
theorem BlocksOk.deallocate_bucket {s : Heap} (hs : BlocksOk base s) {h : Nat} {i : Fin 7}
    (hm : h ∈ s.blocks) (hz : sizeAt s.mem h = bucketSize i) :
    kernel_deallocate s (h + sizeofHeader) =
      { s with
        mem := setNext s.mem h (s.free_list i)
        free_list := Function.update s.free_list i h } := by
  have hword := hs.lt hm
  have hback : (h + sizeofHeader + 2 ^ 32 - sizeofHeader) % 2 ^ 32 = h := by omega
  unfold kernel_deallocate
  dsimp only
  rw [if_neg (ptr_ne_zero h), hback, if_neg (not_not.mpr (hs.magic h hm)), hz, find_bucket]

/-- A block of no bucket goes nowhere. -/
theorem BlocksOk.deallocate_large {s : Heap} (hs : BlocksOk base s) {h : Nat} (hm : h ∈ s.blocks)
    (hz : lastBucket < sizeAt s.mem h) : kernel_deallocate s (h + sizeofHeader) = s := by
  have hword := hs.lt hm
  rcases kernel_deallocate_cases (s := s) (h := h) (by omega) with hno | ⟨i, hi, -⟩
  · exact hno
  · have := bucketSize_le i
    unfold lastBucket at hz
    omega

theorem recorded_small {n : Nat} (h : n ≤ lastBucket) : ∃ i, bucketFor n = some i := by
  have hsome : (bucketFor n).isSome = true := by
    apply List.find?_isSome.mpr
    exact ⟨6, List.mem_finRange 6, decide_eq_true h⟩
  exact Option.isSome_iff_exists.mp hsome

theorem recorded_large {n : Nat} (h : lastBucket < n) : recorded n = n := by
  unfold recorded
  rcases hb : bucketFor n with _ | i
  · rfl
  · have h1 := bucketFor_some hb
    have h2 := bucketSize_le i
    unfold lastBucket at h
    omega

theorem LedgerOk.deallocate (hbase : 0 < base) (hs : LedgerOk base s lists) {b : Live}
    (hb : b ∈ s.live) :
    ∃ lists', LedgerOk base ⟨kernel_deallocate s.heap b.ptr, s.live.erase b⟩ lists' ∧
      (b.size ≤ lastBucket → Kept s lists →
        Kept ⟨kernel_deallocate s.heap b.ptr, s.live.erase b⟩ lists') := by
  obtain ⟨h, hm, hp, hz⟩ := hs.settled.held b hb
  have hok := hs.blocks.deallocate (.inr ⟨h, hm, hp⟩)
  have hdrop := hs.settled.drop b
  rcases Nat.lt_or_ge lastBucket b.size with hlarge | hsmall
  · rw [hp, hs.blocks.deallocate_large hm (by rw [hz, recorded_large hlarge]; exact hlarge)] at *
    exact ⟨lists, ⟨hok, hdrop⟩, fun hle => absurd hle (Nat.not_le_of_lt hlarge)⟩
  · obtain ⟨i, hi⟩ := recorded_small hsmall
    have hbucket : sizeAt s.heap.mem h = bucketSize i := by
      rw [hz]
      simp [recorded, hi]
    have hlow := (hs.blocks.inside h hm).1
    have hpush := hdrop.push hm (by omega) hbucket (hs.blocks.linked_lt (hs.blocks.listed i))
      (fun k hk => hs.blocks.apart hm hk) (fun j hj => hs.settled.free_ne hb hj hp)
      fun c hc => hp ▸ hs.settled.dropped hb c hc
    rw [hp, hs.blocks.deallocate_bucket hm hbucket] at hok ⊢
    refine ⟨_, ⟨hok, hpush⟩, ?_⟩
    intro _ hk k hkm
    by_cases hkh : k = h
    · refine .inr ⟨i, ?_⟩
      rw [hkh, Function.update_self]
      exact List.mem_cons_self
    · -- Every other block stays where it is.
      apply (hk k hkm).imp
      · intro hlive
        obtain ⟨c, hc, hcp⟩ := List.mem_map.mp hlive
        refine List.mem_map.mpr ⟨c, (List.mem_erase_of_ne ?_).mpr hc, hcp⟩
        rintro rfl
        omega
      · rintro ⟨j, hj⟩
        refine ⟨j, ?_⟩
        by_cases hji : j = i
        · subst hji
          rw [Function.update_self]
          exact List.mem_cons_of_mem _ hj
        · rw [Function.update_of_ne hji]
          exact hj

theorem LedgerOk.store (hs : LedgerOk base s lists) {a : Nat} {v : BitVec 8}
    (ha : ∀ h ∈ s.heap.blocks, a < h ∨ h + sizeofHeader ≤ a) :
    LedgerOk base { s with heap := { s.heap with mem := Function.update s.heap.mem a v } }
      lists := by
  have hfield : ∀ h ∈ s.heap.blocks, ∀ d ≤ 12,
      read32 (Function.update s.heap.mem a v) (h + d) = read32 s.heap.mem (h + d) := by
    intro h hm d hd
    have := ha h hm
    unfold sizeofHeader at this
    exact read32_update (by omega)
  exact ⟨hs.blocks.store ha, hs.settled.keep _ (fun _ hh => hh) rfl
    (fun h hm => hfield h hm 4 (by decide)) fun h hm => hfield h hm 8 (by decide)⟩

/-- A block that is given back is not larger than the last bucket. -/
def BucketGivenBack (s : Arena) : ClientOp → Prop
  | .deallocate b => b ∈ s.live → b.size ≤ lastBucket
  | _ => True

theorem ledgerOk_step (hbase : 0 < base) {a : ClientOp} (hs : LedgerOk base s lists)
    (h : ledgerStep s a = some t) :
    ∃ lists', LedgerOk base t lists' ∧ (BucketGivenBack s a → Kept s lists → Kept t lists') := by
  cases a with
  | allocate size =>
    cases h
    obtain ⟨lists', hok, hkept⟩ := hs.allocate size
    exact ⟨lists', hok, fun _ => hkept⟩
  | deallocate b =>
    simp only [ledgerStep] at h
    split at h <;> cases h
    next hb =>
    obtain ⟨lists', hok, hkept⟩ := hs.deallocate hbase hb
    exact ⟨lists', hok, fun hback => hkept (hback hb)⟩
  | store b v =>
    simp only [ledgerStep] at h
    split at h <;> cases h
    exact ⟨lists, hs.store ‹_›, fun _ hk => hk⟩

theorem ledgerOk_init {mem : Mem} {ulBase ulSize : BitVec 32} {heap : Heap}
    (h : kernel_alloc_init mem ulBase ulSize = some heap) :
    0 < ulBase.toNat ∧ LedgerOk ulBase.toNat ⟨heap, []⟩ (fun _ => []) ∧
      Kept ⟨heap, []⟩ fun _ => [] := by
  have hblocks := blocksOk_init h
  obtain ⟨h0, rfl⟩ := init_eq h
  refine ⟨?_, ⟨hblocks, fun _ => chain_null _ _, ?_, ?_, List.nodup_nil, ?_⟩, ?_⟩
  · rw [Nat.pos_iff_ne_zero]
    exact fun hz => h0 (BitVec.eq_of_toNat_eq hz)
  all_goals simp [Kept]

/-- Every run from a new heap keeps the ledger. -/
theorem ledger_of_run {mem : Mem} {ulBase ulSize : BitVec 32} {heap : Heap}
    {ops : List ClientOp} (hinit : kernel_alloc_init mem ulBase ulSize = some heap)
    (h : exec ledgerStep ⟨heap, []⟩ ops = some s) :
    ∃ lists, LedgerOk ulBase.toNat s lists := by
  obtain ⟨hbase, hledger, -⟩ := ledgerOk_init hinit
  refine exec_keeps (fun s => ∃ lists, LedgerOk ulBase.toNat s lists) ?_ ⟨_, hledger⟩ h
  rintro s a t ⟨lists, hs⟩ ht
  obtain ⟨lists', hok, -⟩ := ledgerOk_step hbase hs ht
  exact ⟨lists', hok⟩

/-! ## The law of the ledger -/

theorem LedgerOk.noneLost (hs : LedgerOk base s lists) (hk : Kept s lists) : NoneLost s := by
  have happart : ∀ h i, h ∈ lists i → h + sizeofHeader ∉ s.live.map Live.ptr := by
    intro h i hi hlive
    obtain ⟨b, hb, hp⟩ := List.mem_map.mp hlive
    exact hs.settled.free_ne hb hi hp
  refine ⟨hs.settled.once, lists, hs.settled.chain, ?_⟩
  intro h hm
  rcases hk h hm with hlive | ⟨i, hi⟩
  · exact .inl ⟨hlive, fun i hi => happart h i hi hlive⟩
  · refine .inr ⟨happart h i hi, i, (hs.settled.sized i h hi).2.symm, ?_⟩
    intro j
    refine ⟨fun hj => hs.settled.lists_apart hj hi, ?_⟩
    rintro rfl
    exact hi

/-- A block that is too large for the last bucket is lost when it is given back. -/
theorem LedgerOk.lost (hs : LedgerOk base s lists) {b : Live} (hb : b ∈ s.live)
    (hlarge : lastBucket < b.size) :
    ¬ NoneLost ⟨kernel_deallocate s.heap b.ptr, s.live.erase b⟩ := by
  obtain ⟨h, hm, hp, hz⟩ := hs.settled.held b hb
  rw [recorded_large hlarge] at hz
  rw [hp, hs.blocks.deallocate_large hm (hz ▸ hlarge)]
  rintro ⟨-, lists', -, hall⟩
  rcases hall h hm with ⟨hlive, -⟩ | ⟨-, i, hi, -⟩
  · obtain ⟨c, hc, hcp⟩ := List.mem_map.mp hlive
    exact hs.settled.dropped hb c hc (hcp.trans hp.symm)
  · have := bucketSize_le i
    dsimp only at hi
    rw [hz] at hi
    unfold lastBucket at hlarge
    omega

/-- A block of a bucket is there for the next request. -/
theorem BlocksOk.reuses {s : Heap} (hbase : 0 < base) (hs : BlocksOk base s) {size : BitVec 32}
    (hsmall : size.toNat ≤ lastBucket) : Reuses s size := by
  intro hp
  obtain ⟨i, hi⟩ := recorded_small hsmall
  obtain ⟨hok, hret⟩ := hs.allocate size
  obtain ⟨h, hm, hptr, hz⟩ := hret.resolve_left hp
  have hbucket : sizeAt (kernel_allocate s size).1.mem h = bucketSize i := by
    rw [hz]
    simp [recorded, hi]
  have hlow := (hok.inside h hm).1
  have hfreed := hok.deallocate_bucket hm hbucket
  have hmagic : magicAt (setNext (kernel_allocate s size).1.mem h
      ((kernel_allocate s size).1.free_list i)) h = BLOCK_MAGIC := by
    rw [magicAt_setNext (.inl rfl)]
    exact hok.magic h hm
  rw [hptr, hfreed]
  generalize (kernel_allocate s size).1 = heap at *
  unfold kernel_allocate
  rw [hi]
  dsimp only
  rw [Function.update_self, if_pos ⟨by omega, hmagic⟩]
  rfl

/-- In a run from a new heap, no block is ever lost, and every block of a bucket is used
again, exactly when no block is given back that is larger than the last bucket. -/
theorem the_heap_loses_no_block_iff (mem : Mem) (ulBase ulSize : BitVec 32) (heap : Heap)
    (ops : List ClientOp) (hinit : kernel_alloc_init mem ulBase ulSize = some heap) :
    (∀ bs t, bs <+: ops → exec ledgerStep ⟨heap, []⟩ bs = some t →
        NoneLost t ∧ ∀ size : BitVec 32, size.toNat ≤ lastBucket → Reuses t.heap size) ↔
      Allowed ledgerStep BucketGivenBack ⟨heap, []⟩ ops := by
  obtain ⟨hbase, hledger, hkept⟩ := ledgerOk_init hinit
  apply exec_safe_iff (fun s => ∃ lists, LedgerOk ulBase.toNat s lists ∧ Kept s lists)
    (fun t => NoneLost t ∧ ∀ size : BitVec 32, size.toNat ≤ lastBucket → Reuses t.heap size)
  · rintro s ⟨lists, hs, hk⟩
    exact ⟨hs.noneLost hk, fun size hsmall => hs.blocks.reuses hbase hsmall⟩
  · rintro s a t ⟨lists, hs, hk⟩ hback ht
    obtain ⟨lists', hok, hkept⟩ := ledgerOk_step hbase hs ht
    exact ⟨lists', hok, hkept hback hk⟩
  · rintro s a ⟨lists, hs, -⟩ hbad
    cases a with
    | allocate size => exact absurd trivial hbad
    | store a v => exact absurd trivial hbad
    | deallocate b =>
      obtain ⟨hb, hlarge⟩ := Classical.not_imp.mp hbad
      refine ⟨_, if_pos hb, fun hsafe => ?_⟩
      exact hs.lost hb (Nat.lt_of_not_le hlarge) hsafe.1
  · exact ⟨_, hledger, hkept⟩

/-- Two blocks of a bucket, one of which is given back. -/
def bucketRun : List ClientOp :=
  [.allocate 100, .allocate 0x80000, .deallocate ⟨0x200010, 100⟩]

theorem bucketRun_loses_no_block :
    ∃ heap, kernel_alloc_init (fun _ => 0) 0x200000 0x1000000 = some heap ∧
      ∀ bs t, bs <+: bucketRun → exec ledgerStep ⟨heap, []⟩ bs = some t →
        NoneLost t ∧ ∀ size : BitVec 32, size.toNat ≤ lastBucket → Reuses t.heap size := by
  refine ⟨_, rfl, ?_⟩
  apply (the_heap_loses_no_block_iff (fun _ => 0) 0x200000 0x1000000 _ bucketRun rfl).mpr
  refine ⟨trivial, trivial, ?_, trivial⟩
  exact fun _ => by decide

/-- A block of 0x80001 bytes is given back and lost, and the same request takes new
memory. -/
theorem a_large_block_is_lost :
    ∃ heap s t, kernel_alloc_init (fun _ => 0) 0x200000 0x1000000 = some heap ∧
      exec ledgerStep ⟨heap, []⟩ [.allocate 0x80001] = some s ∧
      ledgerStep s (.deallocate ⟨0x200010, 0x80001⟩) = some t ∧
      ¬ NoneLost t ∧ ¬ Reuses heap 0x80001 := by
  have hrun : ∃ heap s, kernel_alloc_init (fun _ => 0) 0x200000 0x1000000 = some heap ∧
      exec ledgerStep ⟨heap, []⟩ [.allocate 0x80001] = some s ∧
      ⟨0x200010, 0x80001⟩ ∈ s.live ∧ ¬ Reuses heap 0x80001 := by
    refine ⟨_, _, rfl, rfl, by decide +kernel, ?_⟩
    intro h
    have hsame := h (by decide +kernel)
    revert hsame
    decide +kernel
  obtain ⟨heap, s, hinit, hs, hb, hreuse⟩ := hrun
  obtain ⟨lists, hledger⟩ := ledger_of_run hinit hs
  exact ⟨heap, s, _, hinit, hs, if_pos hb, hledger.lost hb (by decide), hreuse⟩

end rpi_wifi.kernel_alloc
