-- The calls of `net_queue.c` as functions, from their first statement to their return,
-- with the heap that the entries come from and go back to.
import RpiWifi.NetQueue
import RpiWifi.Allocators

namespace rpi_wifi.net_queue

open allocators chains

/-! ## The functions -/

/-- `sizeof(net_queue_entry_t)`. -/
def sizeofEntry : Nat := 1616

/-- The heap and the entries in it. -/
structure Pool (H : Type) where
  heap : H
  mem : Entries

variable {H : Type}

/-- What `enqueue_nqueue` writes to its entry. -/
def Entry.filled (e : Entry) (src : Bytes) (nLength : Nat) (pParam : Addr) : Entry :=
  { prev := NULL, next := NULL, nLength, Buffer := memcpy e.Buffer src nLength, pParam }

def enqueue_nqueue (A : Allocator H Addr NULL) (s : Pool H) (nqueue : Queue)
    (pBuffer : Option Bytes) (nLength : Nat) (pParam : Addr) : Pool H × Queue :=
  let r := A.allocate s.heap sizeofEntry
  let pEntry := r.2
  if pEntry = NULL ∨ nLength = 0 ∨ nLength > FRAME_BUFFER_SIZE then (⟨r.1, s.mem⟩, nqueue)
  else
    let e := { s.mem pEntry with prev := NULL, next := NULL, nLength }
    match pBuffer with
    | none => (⟨r.1, Function.update s.mem pEntry e⟩, nqueue)
    | some src =>
      let e := { e with Buffer := memcpy e.Buffer src nLength, pParam }
      let t := link (Function.update s.mem pEntry e) nqueue pEntry
      (⟨r.1, t.1⟩, t.2)

/-- The state after `dequeue_nqueue`, its result, the buffer, and what was stored behind
`ppParam`, where that is no null pointer. -/
structure Dequeued (H : Type) where
  pool : Pool H
  nqueue : Queue
  nResult : Nat
  pBuffer : Bytes
  param : Option Addr

def dequeue_nqueue (A : Allocator H Addr NULL) (s : Pool H) (nqueue : Queue) (pBuffer : Bytes) :
    Dequeued H :=
  if nqueue.head = NULL then ⟨s, nqueue, 0, pBuffer, none⟩
  else
    let pEntry := nqueue.head
    let nResult := (s.mem pEntry).nLength
    let pBuffer := memcpy pBuffer (s.mem pEntry).Buffer nResult
    let param := (s.mem pEntry).pParam
    let t := unlink s.mem nqueue pEntry
    ⟨⟨A.deallocate s.heap nqueue.head, t.1⟩, t.2, nResult, pBuffer, some param⟩

/-- The packet that a call puts into the queue. -/
def packetOf (src : Bytes) (nLength : Nat) (pParam : Addr) : Packet :=
  ⟨firstBytes src nLength, nLength, pParam⟩

/-- The arguments that `enqueue_nqueue` does not reject. -/
def Accepts (pBuffer : Option Bytes) (nLength : Nat) : Prop :=
  pBuffer ≠ none ∧ nLength ≠ 0 ∧ nLength ≤ FRAME_BUFFER_SIZE

instance (pBuffer : Option Bytes) (nLength : Nat) : Decidable (Accepts pBuffer nLength) :=
  have : Decidable (pBuffer ≠ none) :=
    match pBuffer with
    | none => isFalse fun h => h rfl
    | some _ => isTrue nofun
  inferInstanceAs (Decidable (_ ∧ _))

/-! ## Two queues in one heap -/

/-- The entries of two queues are allocated, beside the blocks of `rest`, and no entry is
in both. -/
structure Pair (A : Allocator H Addr NULL) (s : Pool H) (rest : Set Addr) (q q' : Queue)
    (l l' : List Addr) : Prop where
  stock : Stock A s.heap rest (l ++ l')
  first : q.Lists s.mem l
  second : q'.Lists s.mem l'

variable {A : Allocator H Addr NULL} {s : Pool H} {rest : Set Addr} {q q' : Queue}
  {l l' : List Addr} {p : Addr} {src : Bytes} {nLength : Nat} {pParam : Addr}

theorem Pair.symm (h : Pair A s rest q q' l l') : Pair A s rest q' q l' l :=
  ⟨h.stock.perm List.perm_append_comm, h.second, h.first⟩

/-- Two queues without entries. -/
theorem pair_empty (A : Allocator H Addr NULL) (s : Pool H) :
    Pair A s (A.allocated s.heap) ⟨NULL, NULL⟩ ⟨NULL, NULL⟩ [] [] := by
  refine ⟨⟨?_, List.nodup_nil, nofun⟩, lists_empty _, lists_empty _⟩
  ext p
  simp

/-- Blocks that are no entries of the queues may be written. -/
theorem Pair.write {heap : H} {mem : Entries} {rest' : Set Addr} (h : Pair A s rest q q' l l')
    (hstock : Stock A heap rest' (l ++ l')) (hmem : ∀ c ∈ l ++ l', mem c = s.mem c) :
    Pair A ⟨heap, mem⟩ rest' q q' l l' where
  stock := hstock
  first := h.first.congr fun c hc => hmem c (List.mem_append_left _ hc)
  second := h.second.congr fun c hc => hmem c (List.mem_append_right _ hc)

/-- The heap sees one request, whatever comes of it. -/
theorem enqueue_heap (pBuffer : Option Bytes) :
    (enqueue_nqueue A s q pBuffer nLength pParam).1.heap = (A.allocate s.heap sizeofEntry).1 := by
  unfold enqueue_nqueue
  dsimp only
  split
  · rfl
  · split <;> rfl

/-- No entry was allocated: nothing happens. -/
theorem enqueue_of_null {pBuffer : Option Bytes} (hn : (A.allocate s.heap sizeofEntry).2 = NULL) :
    enqueue_nqueue A s q pBuffer nLength pParam
      = (⟨(A.allocate s.heap sizeofEntry).1, s.mem⟩, q) := by
  unfold enqueue_nqueue
  exact if_pos (.inl hn)

/-- Rejected arguments: the entry stays allocated, and the queue does not change. -/
theorem enqueue_of_rejected {pBuffer : Option Bytes} (hr : ¬ Accepts pBuffer nLength) :
    ∃ mem, enqueue_nqueue A s q pBuffer nLength pParam
        = (⟨(A.allocate s.heap sizeofEntry).1, mem⟩, q) ∧
      ∀ c, c ≠ (A.allocate s.heap sizeofEntry).2 → mem c = s.mem c := by
  unfold enqueue_nqueue
  dsimp only
  split
  · exact ⟨s.mem, rfl, fun _ _ => rfl⟩
  · next hok =>
    cases pBuffer with
    | none => exact ⟨_, rfl, fun c hc => Function.update_of_ne hc _ _⟩
    | some src =>
      refine absurd ⟨nofun, fun h0 => hok (.inr (.inl h0)), ?_⟩ hr
      exact Nat.le_of_not_lt fun hlt => hok (.inr (.inr hlt))

/-- Accepted arguments: the entry is filled and linked. -/
theorem enqueue_of_accepted (hn : (A.allocate s.heap sizeofEntry).2 ≠ NULL)
    (ha : Accepts (some src) nLength) :
    enqueue_nqueue A s q (some src) nLength pParam =
      let p := (A.allocate s.heap sizeofEntry).2
      let t := link (Function.update s.mem p ((s.mem p).filled src nLength pParam)) q p
      (⟨(A.allocate s.heap sizeofEntry).1, t.1⟩, t.2) := by
  obtain ⟨-, h0, hle⟩ := ha
  unfold enqueue_nqueue
  dsimp only
  rw [if_neg (by simp [hn, h0, hle])]
  rfl

theorem packetAt_filled (mem : Entries) (p : Addr) (src : Bytes) (nLength : Nat) (pParam : Addr) :
    packetAt (Function.update mem p ((mem p).filled src nLength pParam)) p
      = packetOf src nLength pParam := by
  unfold packetAt packetOf
  rw [Function.update_self]
  simp [Entry.filled, firstBytes_memcpy]

/-- A new entry with null links goes to the end of the first queue. -/
theorem Pair.link {heap : H} {e : Entry} (h : Pair A s rest q q' l l')
    (hstock : Stock A heap rest (p :: (l ++ l'))) (hp : p ≠ NULL) (hprev : e.prev = NULL)
    (hnext : e.next = NULL) :
    Pair A ⟨heap, (link (Function.update s.mem p e) q p).1⟩ rest
      (net_queue.link (Function.update s.mem p e) q p).2 q' (l ++ [p]) l' := by
  obtain ⟨hnew, hnodup⟩ := List.nodup_cons.mp hstock.nodup
  have hmem : ∀ c ∈ l ++ l', Function.update s.mem p e c = s.mem c := by
    intro c hc
    refine Function.update_of_ne ?_ _ _
    rintro rfl
    exact hnew hc
  have hself : Function.update s.mem p e p = e := Function.update_self _ _ _
  have hl : q.Lists (Function.update s.mem p e) l :=
    h.first.congr fun c hc => hmem c (List.mem_append_left _ hc)
  refine ⟨hstock.perm ?_, ?_, ?_⟩
  · rw [List.append_assoc]
    exact List.perm_middle.symm
  · apply link_lists hl hp (fun hpl => hnew (List.mem_append_left _ hpl))
    · rw [hself]
      exact hprev
    · rw [hself]
      exact hnext
  · apply h.second.congr
    intro c hc
    have hcl : c ∉ l := fun hcl => (List.nodup_append.mp hnodup).2.2 c hcl c hc rfl
    have hcp : c ≠ p := by
      rintro rfl
      exact hnew (List.mem_append_right _ hc)
    exact (link_other hl hcl hcp).trans (hmem c (List.mem_append_right _ hc))

/-- An accepted packet goes to the end of its queue. -/
theorem Pair.enqueue (h : Pair A s rest q q' l l') (src : Bytes) (pParam : Addr)
    (hn : (A.allocate s.heap sizeofEntry).2 ≠ NULL) (ha : Accepts (some src) nLength) :
    ∃ p t, enqueue_nqueue A s q (some src) nLength pParam = t ∧
      Pair A t.1 rest t.2 q' (l ++ [p]) l' ∧ packetAt t.1.mem p = packetOf src nLength pParam ∧
      ∀ c ∈ l ++ l', packetAt t.1.mem c = packetAt s.mem c := by
  have hstock := h.stock.add hn
  have hnew := (List.nodup_cons.mp hstock.nodup).1
  refine ⟨(A.allocate s.heap sizeofEntry).2, _, enqueue_of_accepted hn ha,
    h.link hstock hn rfl rfl, ?_, ?_⟩
  · exact (packetAt_link _ _ _ _).trans (packetAt_filled _ _ _ _ _)
  · intro c hc
    refine (packetAt_link _ _ _ _).trans ?_
    unfold packetAt
    rw [Function.update_of_ne]
    rintro rfl
    exact hnew hc

theorem dequeue_of_head (b : Bytes) (hp : q.head = p) (hne : p ≠ NULL) :
    dequeue_nqueue A s q b =
      ⟨⟨A.deallocate s.heap p, (unlinkHead s.mem q).1⟩, (unlinkHead s.mem q).2, (s.mem p).nLength,
        memcpy b (s.mem p).Buffer (s.mem p).nLength, some (s.mem p).pParam⟩ := by
  subst hp
  unfold dequeue_nqueue
  rw [if_neg hne]
  dsimp only
  rw [unlink_head]

/-- The first packet is copied, and its entry is given back. -/
theorem Pair.dequeue (b : Bytes) (h : Pair A s rest q q' (p :: l) l') :
    ∃ r, dequeue_nqueue A s q b = r ∧ r.pool.heap = A.deallocate s.heap p ∧
      Pair A r.pool rest r.nqueue q' l l' ∧ r.nResult = (packetAt s.mem p).length ∧
      firstBytes r.pBuffer r.nResult = (packetAt s.mem p).bytes ∧
      r.param = some (packetAt s.mem p).param ∧
      ∀ c, packetAt r.pool.mem c = packetAt s.mem c := by
  obtain ⟨hhead, hlists⟩ := unlinkHead_lists h.first
  have hne : p ≠ NULL := h.first.forward.2.1
  have hdisjoint := (List.nodup_append.mp h.stock.nodup).2.2
  refine ⟨_, dequeue_of_head b hhead hne, rfl, ⟨h.stock.free, hlists, ?_⟩, rfl,
    firstBytes_memcpy _ _ _, rfl, fun c => packetAt_unlinkHead _ _ _⟩
  apply h.second.congr
  intro c hc
  apply unlinkHead_other h.first
  exact fun hcl => hdisjoint c (List.mem_cons_of_mem _ hcl) c hc rfl

theorem dequeue_of_empty (b : Bytes) (h : Pair A s rest q q' [] l') :
    dequeue_nqueue A s q b = ⟨s, q, 0, b, none⟩ := by
  unfold dequeue_nqueue
  exact if_pos (h.first.head_eq_null.mpr rfl)

end rpi_wifi.net_queue
