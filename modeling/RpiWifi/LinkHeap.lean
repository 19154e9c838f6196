-- What the packet queues keep allocated. A call that is rejected leaves its entry behind,
-- and the record of a sender is freed by nobody; without these two, the blocks in use are
-- those from before and the entries of the queues.
import RpiWifi.LinkLayer
import RpiWifi.KernelHeap
import RpiWifi.Runs

namespace rpi_wifi.link_layer

open allocators net_queue runs
open kernel_alloc (SoundArena kernelHeap initialized kernel_alloc_init)
open frame_alloc (alloc_contiguous_frames clearMachine PAGE_SIZE)

/-! ## The machine -/

/-- The two queues. -/
inductive Which where
  | frame_receive_queue
  | rx_net_queue
  deriving DecidableEq

/-- A call, by a task or an interrupt. The loop of `process_l2_layer` goes on by one turn,
with anything in its buffer. -/
inductive Act where
  | enqueue_nqueue (which : Which) (pBuffer : Option Bytes) (nLength : Nat) (pParam : Addr)
  | enable_receive_raw_l2 (nProtocolType : BitVec 16)
  | turn (Buffer : Bytes)
  | receive_raw_l2_packet (pBuffer : Option Bytes) (pResultLength : Option Nat)
      (sender_mac : Option Bytes)

variable {H : Type}

/-- `enqueue_nqueue` on one of the queues. -/
def enqueue (A : Allocator H Addr NULL) (s : Net H) (which : Which) (pBuffer : Option Bytes)
    (nLength : Nat) (pParam : Addr) : Net H :=
  match which with
  | .frame_receive_queue =>
    let t := net_queue.enqueue_nqueue A s.pool s.frame_receive_queue pBuffer nLength pParam
    { s with pool := t.1, frame_receive_queue := t.2 }
  | .rx_net_queue =>
    let t := net_queue.enqueue_nqueue A s.pool s.rx_net_queue pBuffer nLength pParam
    { s with pool := t.1, rx_net_queue := t.2 }

def step (A : Allocator H Addr NULL) (own : Bytes) (s : Net H) : Act → Option (Net H)
  | .enqueue_nqueue which pBuffer nLength pParam => some (enqueue A s which pBuffer nLength pParam)
  | .enable_receive_raw_l2 protocol => some (link_layer.enable_receive_raw_l2 s protocol).1
  | .turn Buffer => some (link_layer.turn A own s Buffer).1
  | .receive_raw_l2_packet pBuffer pResultLength sender_mac =>
    some (link_layer.receive_raw_l2_packet A s pBuffer pResultLength sender_mac).1

/-- The run of the loop, turn by turn. -/
theorem process_l2_layer_turns (A : Allocator H Addr NULL) (own : Bytes) {fuel : Nat} {s t : Net H}
    {b : Bytes} (h : process_l2_layer A own fuel s b = some t) :
    ∃ bs : List Bytes, exec (step A own) s (bs.map Act.turn) = some t := by
  induction fuel generalizing s b with
  | zero => cases h
  | succ fuel ih =>
    simp only [process_l2_layer] at h
    split at h
    · obtain ⟨bs, hbs⟩ := ih h
      exact ⟨b :: bs, hbs⟩
    · exact ⟨[b], h⟩

/-! ## What leaks -/

/-- The entry at the head holds a frame of the protocol that is enabled. -/
def HeadMatches (own : Bytes) (s : Net H) : Prop :=
  s.frame_receive_queue.head ≠ NULL ∧
    (packetAt s.pool.mem s.frame_receive_queue.head).length ≤ FRAME_BUFFER_SIZE ∧
    Matches own (bswap16 s.raw_protocol_type)
      (packetAt s.pool.mem s.frame_receive_queue.head).bytes

/-- The step leaves nothing behind: the arguments are accepted, and no frame of the
protocol is next, or there is no block to leave behind. -/
def Keeps (A : Allocator H Addr NULL) (own : Bytes) (s : Net H) : Act → Prop
  | .enqueue_nqueue _ pBuffer nLength _ =>
    Accepts pBuffer nLength ∨ (A.allocate s.pool.heap sizeofEntry).2 = NULL
  | .turn _ =>
    HeadMatches own s →
      (A.allocate (A.deallocate s.pool.heap s.frame_receive_queue.head)
        sizeofTRawPrivateData).2 = NULL
  | .enable_receive_raw_l2 _ | .receive_raw_l2_packet _ _ _ => True

instance (own : Bytes) (s : Net H) : Decidable (HeadMatches own s) :=
  inferInstanceAs (Decidable (_ ∧ _))

instance (A : Allocator H Addr NULL) (own : Bytes) (s : Net H) (a : Act) :
    Decidable (Keeps A own s a) :=
  match a with
  | .enqueue_nqueue _ _ _ _ => inferInstanceAs (Decidable (_ ∨ _))
  | .turn _ => inferInstanceAs (Decidable (_ → _))
  | .enable_receive_raw_l2 _ | .receive_raw_l2_packet _ _ _ => isTrue trivial

/-- The blocks in use are those of `rest` and the entries of the queues. -/
def Balanced (A : Allocator H Addr NULL) (rest : Set Addr) (s : Net H) : Prop :=
  ∃ lf lr, Pair A s.pool rest s.frame_receive_queue s.rx_net_queue lf lr

variable {A : Allocator H Addr NULL} {own : Bytes} {rest : Set Addr} {s t : Net H} {a : Act}

theorem balanced_start (A : Allocator H Addr NULL) (pool : Pool H) (MACSender : Addr → Bytes) :
    Balanced A (A.allocated pool.heap) (start pool MACSender) :=
  ⟨[], [], pair_empty A pool⟩

/-- A call that leaves nothing behind keeps the entries of its queue, and one more where it
was accepted. -/
theorem pair_enqueue {pool : Pool H} {q q' : Queue} {l l' : List Addr}
    (h : Pair A pool rest q q' l l') (pBuffer : Option Bytes) (nLength : Nat) (pParam : Addr)
    (hok : Accepts pBuffer nLength ∨ (A.allocate pool.heap sizeofEntry).2 = NULL) :
    ∃ l₂, Pair A (enqueue_nqueue A pool q pBuffer nLength pParam).1 rest
      (enqueue_nqueue A pool q pBuffer nLength pParam).2 q' l₂ l' := by
  by_cases hnull : (A.allocate pool.heap sizeofEntry).2 = NULL
  · rw [enqueue_of_null hnull]
    exact ⟨l, h.write (h.stock.fail hnull) fun _ _ => rfl⟩
  · have ha := hok.resolve_right hnull
    obtain ⟨src, rfl⟩ := Option.ne_none_iff_exists'.mp ha.1
    obtain ⟨p, t, ht, hpair, -⟩ := h.enqueue src pParam hnull ha
    rw [ht]
    exact ⟨l ++ [p], hpair⟩

theorem balanced_enqueue (h : Balanced A rest s) {which : Which} {pBuffer : Option Bytes}
    {nLength : Nat} {pParam : Addr}
    (hok : Keeps A own s (.enqueue_nqueue which pBuffer nLength pParam)) :
    Balanced A rest (enqueue A s which pBuffer nLength pParam) := by
  obtain ⟨lf, lr, hpair⟩ := h
  cases which with
  | frame_receive_queue =>
    obtain ⟨l, hl⟩ := pair_enqueue hpair pBuffer nLength pParam hok
    exact ⟨l, lr, hl⟩
  | rx_net_queue =>
    obtain ⟨l, hl⟩ := pair_enqueue hpair.symm pBuffer nLength pParam hok
    exact ⟨lf, l, hl.symm⟩

/-- A frame is taken out, and if it is for the protocol, there is no block for its record. -/
theorem balanced_turn (h : Balanced A rest s) {b : Bytes} (hok : Keeps A own s (.turn b)) :
    Balanced A rest (turn A own s b).1 := by
  obtain ⟨lf, lr, hpair⟩ := h
  unfold turn receive_frame
  dsimp only
  cases lf with
  | nil =>
    rw [dequeue_of_empty b hpair]
    exact ⟨[], lr, hpair⟩
  | cons p lf =>
    have hhead : s.frame_receive_queue.head = p := hpair.first.forward.1
    have hne : p ≠ NULL := hpair.first.forward.2.1
    obtain ⟨r, hr, hheap, hnext, hresult, hbytes, -⟩ := hpair.dequeue b
    rw [hr]
    have hraw : s.raw_protocol_type = bswap16 (bswap16 s.raw_protocol_type) :=
      (bswap16_bswap16 _).symm
    split
    · dsimp only
      rw [processFrame_eq (s := { s with pool := r.pool, frame_receive_queue := r.nqueue }) own
        hraw, hbytes]
      split
      · next hmatch =>
        have hnull := hok ⟨hhead ▸ hne, by rw [hhead, ← hresult]; exact hmatch.1,
          by rw [hhead]; exact hmatch.2⟩
        rw [hhead, ← hheap] at hnull
        unfold enqueueRaw
        dsimp only
        rw [if_neg (not_not.mpr hnull)]
        exact ⟨lf, lr, hnext.write (hnext.stock.fail hnull) fun _ _ => rfl⟩
      · exact ⟨lf, lr, hnext⟩
    · exact ⟨lf, lr, hnext⟩

theorem balanced_receive (h : Balanced A rest s) (pBuffer : Option Bytes)
    (pResultLength : Option Nat) (sender_mac : Option Bytes) :
    Balanced A rest (receive_raw_l2_packet A s pBuffer pResultLength sender_mac).1 := by
  obtain ⟨lf, lr, hpair⟩ := h
  unfold receive_raw_l2_packet
  split
  · next b n =>
    have hdone : ∃ l, Pair A (dequeue_nqueue A s.pool s.rx_net_queue b).pool rest
        s.frame_receive_queue (dequeue_nqueue A s.pool s.rx_net_queue b).nqueue lf l := by
      cases lr with
      | nil =>
        rw [dequeue_of_empty b hpair.symm]
        exact ⟨[], hpair⟩
      | cons p lr =>
        obtain ⟨r, hr, -, hnext, -⟩ := hpair.symm.dequeue b
        rw [hr]
        exact ⟨lr, hnext.symm⟩
    obtain ⟨l, hl⟩ := hdone
    dsimp only
    split
    · exact ⟨lf, l, hl⟩
    · exact ⟨lf, l, hl⟩
  · exact ⟨lf, lr, hpair⟩

theorem balanced_step (h : Balanced A rest s) (hok : Keeps A own s a)
    (hs : step A own s a = some t) : Balanced A rest t := by
  cases a with
  | enqueue_nqueue which pBuffer nLength pParam =>
    cases hs
    exact balanced_enqueue h hok
  | enable_receive_raw_l2 protocol =>
    cases hs
    unfold link_layer.enable_receive_raw_l2
    split_ifs <;> exact h
  | turn b =>
    cases hs
    exact balanced_turn h hok
  | receive_raw_l2_packet pBuffer pResultLength sender_mac =>
    cases hs
    exact balanced_receive h pBuffer pResultLength sender_mac

theorem balanced_exec {acts : List Act} {pool : Pool H} {MACSender : Addr → Bytes}
    (hok : Allowed (step A own) (Keeps A own) (start pool MACSender) acts)
    (h : exec (step A own) (start pool MACSender) acts = some s) :
    Balanced A (A.allocated pool.heap) s :=
  exec_inv (Balanced A (A.allocated pool.heap)) (fun _ _ _ hb hok ht => balanced_step hb hok ht)
    (balanced_start A pool MACSender) hok h

/-- Empty queues have no entries. -/
theorem Balanced.empty (h : Balanced A rest s) (hf : s.frame_receive_queue.head = NULL)
    (hr : s.rx_net_queue.head = NULL) : A.allocated s.pool.heap = rest := by
  obtain ⟨lf, lr, hpair⟩ := h
  obtain rfl := hpair.first.head_eq_null.mp hf
  obtain rfl := hpair.second.head_eq_null.mp hr
  rw [hpair.stock.allocated]
  ext p
  simp

/-! ## Every run -/

/-- After every run whose steps leave nothing behind, the blocks in use are those from before
whenever both queues are empty, and a call that is rejected changes neither the queues nor
which blocks are in use. -/
theorem the_receive_queues_leak_nothing (A : Allocator H Addr NULL) (own : Bytes) (pool : Pool H)
    (MACSender : Addr → Bytes) (acts : List Act) (s : Net H)
    (hok : Allowed (step A own) (Keeps A own) (start pool MACSender) acts)
    (h : exec (step A own) (start pool MACSender) acts = some s) :
    (s.frame_receive_queue.head = NULL → s.rx_net_queue.head = NULL →
      A.allocated s.pool.heap = A.allocated pool.heap) ∧
    ∀ which pBuffer nLength pParam,
      Keeps A own s (.enqueue_nqueue which pBuffer nLength pParam) →
      ¬ (Accepts pBuffer nLength ∧ (A.allocate s.pool.heap sizeofEntry).2 ≠ NULL) →
      let t := enqueue A s which pBuffer nLength pParam
      t.frame_receive_queue = s.frame_receive_queue ∧ t.rx_net_queue = s.rx_net_queue ∧
        t.pool.mem = s.pool.mem ∧ A.allocated t.pool.heap = A.allocated s.pool.heap := by
  refine ⟨fun hf hr => (balanced_exec hok h).empty hf hr, ?_⟩
  intro which pBuffer nLength pParam hkeeps hrejected
  have hnull : (A.allocate s.pool.heap sizeofEntry).2 = NULL := by
    rcases hkeeps with ha | hnull
    · by_contra hnull
      exact hrejected ⟨ha, hnull⟩
    · exact hnull
  have hsame := A.allocated_of_null _ _ hnull
  cases which with
  | frame_receive_queue =>
    simp only [enqueue, enqueue_of_null hnull]
    exact ⟨trivial, trivial, trivial, hsame⟩
  | rx_net_queue =>
    simp only [enqueue, enqueue_of_null hnull]
    exact ⟨trivial, trivial, trivial, hsame⟩

/-- The heap of the kernel with 16 KB of memory, and queues with nothing in them. -/
def freshNet : Net SoundArena :=
  have h : kernel_alloc_init (fun _ => 0) (BitVec.ofNat 32 (alloc_contiguous_frames clearMachine
      ((0x4000 : BitVec 32).toNat / PAGE_SIZE)).2) 0x4000 = some _ := rfl
  start ⟨initialized h, fun _ => ⟨0, 0, 0, fun _ => 0, 0⟩⟩ fun _ _ => 0

/-- The heap of the kernel. -/
def netHeap : Allocator SoundArena Addr NULL := kernelHeap

def ownAddress : Bytes := fun i => BitVec.ofNat 8 i

/-- A frame with these bytes is passed on, looked at, and received. -/
def oneFrame (bytes : List Byte) : List Act :=
  [.enable_receive_raw_l2 0x88b5,
   .enqueue_nqueue .frame_receive_queue (some fun i => bytes.getD i 0) bytes.length 0,
   .turn fun _ => 0, .receive_raw_l2_packet (some fun _ => 0) (some 0) (some fun _ => 0)]

def ofProtocol : List Byte := [0, 1, 2, 3, 4, 5, 9, 9, 9, 9, 9, 9, 0x88, 0xb5, 42]

def ofAnother : List Byte := [0, 1, 2, 3, 4, 5, 9, 9, 9, 9, 9, 9, 0x08, 0x00, 42]

/-- The frame of another protocol leaves nothing behind. -/
theorem a_frame_of_another_protocol_leaks_nothing :
    ∃ s, exec (step netHeap ownAddress) freshNet (oneFrame ofAnother) = some s ∧
      s.frame_receive_queue.head = NULL ∧ s.rx_net_queue.head = NULL ∧
      netHeap.allocated s.pool.heap = netHeap.allocated freshNet.pool.heap := by
  have hok : Allowed (step netHeap ownAddress)
      (Keeps netHeap ownAddress) freshNet (oneFrame ofAnother) := by
    decide +kernel
  have hrun : (exec (step netHeap ownAddress) freshNet (oneFrame ofAnother)).map
      (fun s => (s.frame_receive_queue.head, s.rx_net_queue.head)) = some (NULL, NULL) := by
    decide +kernel
  obtain ⟨s, hs, hheads⟩ := Option.map_eq_some_iff.mp hrun
  obtain ⟨hf, hr⟩ := Prod.ext_iff.mp hheads
  have hleak := (the_receive_queues_leak_nothing netHeap ownAddress
    freshNet.pool freshNet.MACSender (oneFrame ofAnother) s hok hs).1
  exact ⟨s, hs, hf, hr, hleak hf hr⟩

/-- The frame of the protocol leaves its record behind, and an empty packet its entry. -/
theorem the_receive_queues_leak :
    (∃ s, exec (step netHeap ownAddress) freshNet (oneFrame ofProtocol) = some s ∧
      s.frame_receive_queue.head = NULL ∧ s.rx_net_queue.head = NULL ∧
      netHeap.allocated s.pool.heap ≠ netHeap.allocated freshNet.pool.heap) ∧
    ∃ s, exec (step netHeap ownAddress) freshNet
        [.enqueue_nqueue .rx_net_queue (some fun _ => 0) 0 0] = some s ∧
      s.rx_net_queue = freshNet.rx_net_queue ∧
      netHeap.allocated s.pool.heap ≠ netHeap.allocated freshNet.pool.heap := by
  have hne : ∀ (s : SoundArena) (p : Nat), s.1.live.map (fun b => b.ptr) = [p] →
      netHeap.allocated s ≠ netHeap.allocated freshNet.pool.heap := by
    intro s p hlive heq
    have hp : p ∈ netHeap.allocated s := by
      change p ∈ s.1.live.map _
      rw [hlive]
      exact List.mem_singleton_self p
    rw [heq] at hp
    cases hp
  constructor
  · have hrun : (exec (step netHeap ownAddress) freshNet
        (oneFrame ofProtocol)).map (fun s => (s.frame_receive_queue.head, s.rx_net_queue.head,
          s.pool.heap.1.live.map fun b => b.ptr)) = some (NULL, NULL, [0x21020]) := by
      decide +kernel
    obtain ⟨s, hs, hfields⟩ := Option.map_eq_some_iff.mp hrun
    obtain ⟨hf, hrest⟩ := Prod.ext_iff.mp hfields
    obtain ⟨hr, hlive⟩ := Prod.ext_iff.mp hrest
    exact ⟨s, hs, hf, hr, hne _ _ hlive⟩
  · have hrun : (exec (step netHeap ownAddress) freshNet
        [.enqueue_nqueue .rx_net_queue (some fun _ => 0) 0 0]).map (fun s => (s.rx_net_queue,
          s.pool.heap.1.live.map fun b => b.ptr)) = some (⟨NULL, NULL⟩, [0x20010]) := by
      decide +kernel
    obtain ⟨s, hs, hfields⟩ := Option.map_eq_some_iff.mp hrun
    obtain ⟨hr, hlive⟩ := Prod.ext_iff.mp hfields
    exact ⟨s, hs, hr, hne _ _ hlive⟩

end rpi_wifi.link_layer
