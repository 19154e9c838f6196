-- What the link layer delivers. The frames of the first queue are the ones that
-- `etheriq` was given, and the second queue holds what they carry for the protocol, each
-- payload with a record of its sender, unless the heap ran out.
import RpiWifi.LinkLayer

namespace rpi_wifi.link_layer

open allocators net_queue

/-! ## The contents of the queues -/

/-- The entry `p` holds a payload, and its parameter is a record of the sender. -/
structure Delivered (mem : Entries) (sender : Addr → Bytes) (rest : Set Addr) (p : Addr)
    (k : List Byte × List Byte) : Prop where
  bytes : (packetAt mem p).bytes = k.1
  length : (packetAt mem p).length ≠ 0
  not_null : (packetAt mem p).param ≠ NULL
  kept : (packetAt mem p).param ∈ rest
  sender : firstBytes (sender (packetAt mem p).param) MAC_ADDRESS_SIZE = k.2

/-- The first queue holds the frames, and the second one the packets. -/
structure Content {H : Type} (s : Net H) (rest : Set Addr) (lf lr : List Addr)
    (frames : List (List Byte)) (packets : List (List Byte × List Byte)) : Prop where
  frames : lf.map (fun p => (packetAt s.pool.mem p).bytes) = frames
  packets : List.Forall₂ (Delivered s.pool.mem s.MACSender rest) lr packets

/-- The two queues, and what they hold if no allocation has failed. -/
structure Carries {H : Type} (A : Allocator H Addr NULL) (protocol : BitVec 16)
    (s : Net (Tracked H)) (rest : Set Addr) (lf lr : List Addr) (frames : List (List Byte))
    (packets : List (List Byte × List Byte)) : Prop where
  pair : Pair A.tracked s.pool rest s.frame_receive_queue s.rx_net_queue lf lr
  raw : s.raw_protocol_type = bswap16 protocol
  sizes : ∀ p ∈ lf, (packetAt s.pool.mem p).length ≠ 0 ∧
    (packetAt s.pool.mem p).length ≤ FRAME_BUFFER_SIZE
  count : lf.length ≤ frames.length
  content : s.pool.heap.failed = true ∨ Content s rest lf lr frames packets

variable {H : Type} {A : Allocator H Addr NULL} {protocol : BitVec 16} {s : Net (Tracked H)}
  {rest rest' : Set Addr} {lf lr : List Addr} {frames : List (List Byte)}
  {packets : List (List Byte × List Byte)} {mem mem' : Entries} {sender sender' : Addr → Bytes}

theorem Delivered.congr {p : Addr} {k : List Byte × List Byte} (h : Delivered mem sender rest p k)
    (hmem : packetAt mem' p = packetAt mem p) (hsender : ∀ a ∈ rest, sender' a = sender a)
    (hrest : rest ⊆ rest') : Delivered mem' sender' rest' p k := by
  refine ⟨?_, ?_, ?_, ?_, ?_⟩
  all_goals rw [hmem]
  · exact h.bytes
  · exact h.length
  · exact h.not_null
  · exact hrest h.kept
  · rw [hsender _ h.kept]
    exact h.sender

/-- Packets stay where they are while other blocks are written. -/
theorem delivered_congr (h : List.Forall₂ (Delivered mem sender rest) lr packets)
    (hmem : ∀ p ∈ lr, packetAt mem' p = packetAt mem p) (hsender : ∀ a ∈ rest, sender' a = sender a)
    (hrest : rest ⊆ rest') : List.Forall₂ (Delivered mem' sender' rest') lr packets := by
  induction h with
  | nil => exact .nil
  | cons hk _ ih =>
    refine .cons (hk.congr (hmem _ List.mem_cons_self) hsender hrest) (ih ?_)
    exact fun p hp => hmem p (List.mem_cons_of_mem _ hp)

/-! ## Failures stay -/

theorem etheriq_failed (h : s.pool.heap.failed = true) (rp : Bytes) (n : Nat) :
    (etheriq A.tracked s rp n).pool.heap.failed = true := by
  unfold etheriq
  dsimp only
  rw [enqueue_heap]
  exact tracked_allocate_failed.mpr (.inl h)

theorem enqueueRaw_failed (h : s.pool.heap.failed = true) (b : Bytes) (n : Nat) :
    (enqueueRaw A.tracked s b n).pool.heap.failed = true := by
  have hfirst := (tracked_allocate_failed (A := A) (n := sizeofTRawPrivateData)).mpr (.inl h)
  unfold enqueueRaw
  dsimp only
  split
  · dsimp only
    rw [enqueue_heap]
    exact tracked_allocate_failed.mpr (.inl hfirst)
  · exact hfirst

theorem processFrame_failed (h : s.pool.heap.failed = true) (own b : Bytes) (n : Nat) :
    (processFrame A.tracked own s b n).pool.heap.failed = true := by
  unfold processFrame
  dsimp only
  split_ifs
  any_goals exact h
  exact enqueueRaw_failed h _ _

/-! ## Frames come in -/

/-- `etheriq` puts the frame behind the others. -/
theorem Carries.etheriq (h : Carries A protocol s rest lf lr frames packets) (rp : Bytes) {n : Nat}
    (h0 : n ≠ 0) (hn : n ≤ FRAME_BUFFER_SIZE) :
    ∃ lf', Carries A protocol (etheriq A.tracked s rp n) rest lf' lr
      (frames ++ [firstBytes rp n]) packets := by
  have hstay : s.pool.heap.failed = true → _ := fun hf => etheriq_failed (A := A) hf rp n
  unfold link_layer.etheriq at hstay ⊢
  dsimp only at hstay ⊢
  by_cases hnull : (A.tracked.allocate s.pool.heap sizeofEntry).2 = NULL
  · rw [enqueue_of_null hnull]
    have hfailed := tracked_allocate_failed.mpr (.inr hnull)
    refine ⟨lf, ⟨h.pair.write (h.pair.stock.fail hnull) fun _ _ => rfl, h.raw, h.sizes, ?_,
      .inl hfailed⟩⟩
    have hcount := h.count
    rw [List.length_append]
    omega
  · obtain ⟨p, t, ht, hpair, hp, hsame⟩ := h.pair.enqueue rp NULL hnull ⟨Option.some_ne_none _, h0, hn⟩
    rw [ht] at hstay ⊢
    refine ⟨lf ++ [p], ⟨hpair, h.raw, ?_, ?_, ?_⟩⟩
    · intro c hc
      rcases List.mem_append.mp hc with hc | hc
      · rw [hsame c (List.mem_append_left _ hc)]
        exact h.sizes c hc
      · rw [List.mem_singleton.mp hc, hp]
        exact ⟨h0, hn⟩
    · have hcount := h.count
      simp only [List.length_append, List.length_singleton]
      omega
    · rcases h.content with hfailed | hcontent
      · exact .inl (hstay hfailed)
      · refine .inr ⟨?_, ?_⟩
        · have hmap : lf.map (fun p => (packetAt t.1.mem p).bytes) = frames := by
            rw [← hcontent.frames]
            apply List.map_congr_left
            intro c hc
            rw [hsame c (List.mem_append_left _ hc)]
          rw [List.map_append, hmap]
          simp [hp, net_queue.packetOf]
        · exact delivered_congr hcontent.packets (fun c hc => hsame c (List.mem_append_right _ hc))
            (fun _ _ => rfl) subset_rfl

/-! ## One turn of the loop -/

/-- A frame of the protocol goes to the second queue. -/
theorem Carries.enqueueRaw (h : Carries A protocol s rest lf lr frames packets) (b : Bytes) {n : Nat}
    (h0 : n ≠ 0) (hn : n ≤ FRAME_BUFFER_SIZE) :
    ∃ rest' lr', Carries A protocol (enqueueRaw A.tracked s b n) rest' lf lr' frames
      (packets ++ [(firstBytes (fun i => b (sizeofTEthernetHeader + i)) n,
        firstBytes (fun i => b (MAC_ADDRESS_SIZE + i)) MAC_ADDRESS_SIZE)]) := by
  have hstay : s.pool.heap.failed = true → _ := fun hf => enqueueRaw_failed (A := A) hf b n
  unfold link_layer.enqueueRaw at hstay ⊢
  dsimp only at hstay ⊢
  by_cases hnull : (A.tracked.allocate s.pool.heap sizeofTRawPrivateData).2 = NULL
  · rw [if_neg (not_not.mpr hnull)]
    have hfailed := tracked_allocate_failed.mpr (.inr hnull)
    exact ⟨rest, lr, h.pair.write (h.pair.stock.fail hnull) fun _ _ => rfl, h.raw, h.sizes, h.count,
      .inl hfailed⟩
  rw [if_pos hnull] at hstay ⊢
  have hnew := A.tracked.fresh _ _ hnull
  have hold := (h.pair.stock.not_mem hnew).1
  have hkept : Pair A.tracked ⟨_, s.pool.mem⟩ _ _ _ lf lr :=
    h.pair.write (h.pair.stock.keep hnull) fun _ _ => rfl
  generalize hr : A.tracked.allocate s.pool.heap sizeofTRawPrivateData = r at *
  by_cases hnull' : (A.tracked.allocate r.1 sizeofEntry).2 = NULL
  · rw [enqueue_of_null (s := ⟨r.1, s.pool.mem⟩) hnull']
    have hfailed := tracked_allocate_failed.mpr (.inr hnull')
    exact ⟨_, lr, hkept.write (hkept.stock.fail hnull') fun _ _ => rfl, h.raw, h.sizes, h.count,
      .inl hfailed⟩
  · obtain ⟨p, t, ht, hpair, hp, hsame⟩ :=
      hkept.symm.enqueue (fun i => b (sizeofTEthernetHeader + i)) r.2 hnull' ⟨nofun, h0, hn⟩
    rw [ht] at hstay ⊢
    refine ⟨_, lr ++ [p], hpair.symm, h.raw, ?_, h.count, ?_⟩
    · intro c hc
      rw [hsame c (List.mem_append_right _ hc)]
      exact h.sizes c hc
    · rcases h.content with hfailed | hcontent
      · exact .inl (hstay hfailed)
      · refine .inr ⟨?_, ?_⟩
        · rw [← hcontent.frames]
          apply List.map_congr_left
          intro c hc
          rw [hsame c (List.mem_append_right _ hc)]
        · refine List.rel_append ?_ (.cons ?_ .nil)
          · apply delivered_congr hcontent.packets
            · exact fun c hc => hsame c (List.mem_append_left _ hc)
            · intro a ha
              refine Function.update_of_ne ?_ _ _
              rintro rfl
              exact hold ha
            · exact Set.subset_insert _ _
          · refine ⟨?_, ?_, ?_, ?_, ?_⟩
            all_goals rw [hp]
            · rfl
            · exact h0
            · exact hnull
            · exact Set.mem_insert _ _
            · simp [net_queue.packetOf, firstBytes_memcpy]

/-- The packet of a frame, if it is one of the protocol. -/
theorem deliveriesOf_cons (own : Bytes) (f : List Byte) (frames : List (List Byte)) :
    deliveriesOf own protocol (f :: frames) =
      deliveriesOf own protocol [f] ++ deliveriesOf own protocol frames := by
  unfold deliveriesOf
  by_cases hf : Matches own protocol f
  · simp [hf]
  · simp [hf]

/-- The body of the loop, with the frame in the buffer. -/
theorem Carries.processFrame (h : Carries A protocol s rest lf lr frames packets) (own b : Bytes)
    {n : Nat} (hn : n ≤ FRAME_BUFFER_SIZE) :
    ∃ rest' lr', Carries A protocol (processFrame A.tracked own s b n) rest' lf lr' frames
      (packets ++ deliveriesOf own protocol [firstBytes b n]) := by
  rw [processFrame_eq own h.raw]
  by_cases hmatch : Matches own protocol (firstBytes b n)
  · rw [if_pos ⟨hn, hmatch⟩]
    have hlong : sizeofTEthernetHeader < n := by simpa using hmatch.1
    have hsender : (firstBytes (fun i => b (MAC_ADDRESS_SIZE + i)) (n - MAC_ADDRESS_SIZE)).take
        MAC_ADDRESS_SIZE = firstBytes (fun i => b (MAC_ADDRESS_SIZE + i)) MAC_ADDRESS_SIZE := by
      apply take_firstBytes
      unfold MAC_ADDRESS_SIZE
      unfold sizeofTEthernetHeader at hlong
      omega
    have hdelivery : deliveriesOf own protocol [firstBytes b n] =
        [(firstBytes (fun i => b (sizeofTEthernetHeader + i)) (n - sizeofTEthernetHeader),
          firstBytes (fun i => b (MAC_ADDRESS_SIZE + i)) MAC_ADDRESS_SIZE)] := by
      simp [deliveriesOf, hmatch, deliveryOf, drop_firstBytes, hsender]
    rw [hdelivery]
    exact h.enqueueRaw b (by omega) (by omega)
  · rw [if_neg fun hok => hmatch hok.2]
    have hnone : deliveriesOf own protocol [firstBytes b n] = [] := by
      simp [deliveriesOf, hmatch]
    rw [hnone, List.append_nil]
    exact ⟨rest, lr, h⟩

/-- The first queue is empty: the loop ends. -/
theorem Carries.turn_empty (h : Carries A protocol s rest [] lr frames packets) (own b : Bytes) :
    turn A.tracked own s b = (s, b, false) := by
  unfold turn receive_frame
  rw [dequeue_of_empty b h.pair]
  rfl

/-- The first frame is taken out and looked at. -/
theorem Carries.turn {p : Addr} {f : List Byte}
    (h : Carries A protocol s rest (p :: lf) lr (f :: frames) packets) (own b : Bytes) :
    ∃ t b' rest' lr', turn A.tracked own s b = (t, b', true) ∧
      Carries A protocol t rest' lf lr' frames (packets ++ deliveriesOf own protocol [f]) := by
  obtain ⟨r, hr, hheap, hpair, hresult, hbytes, -, hsame⟩ := h.pair.dequeue b
  obtain ⟨hpos, hle⟩ := h.sizes p List.mem_cons_self
  have hret : (r.nResult != 0) = true := by simpa [hresult] using hpos
  have htaken : Carries A protocol
      { s with pool := r.pool, frame_receive_queue := r.nqueue } rest lf lr frames packets := by
    refine ⟨hpair, h.raw, ?_, Nat.le_of_succ_le_succ h.count, ?_⟩
    · intro c hc
      rw [hsame c]
      exact h.sizes c (List.mem_cons_of_mem _ hc)
    · rcases h.content with hfailed | hcontent
      · refine .inl ?_
        rw [hheap]
        exact hfailed
      · refine .inr ⟨?_, ?_⟩
        · rw [List.map_congr_left fun c _ => congrArg Packet.bytes (hsame c)]
          exact (List.cons.inj hcontent.frames).2
        · exact delivered_congr hcontent.packets (fun c _ => hsame c) (fun _ _ => rfl) subset_rfl
  have hturn : link_layer.turn A.tracked own s b =
      (link_layer.processFrame A.tracked own
        { s with pool := r.pool, frame_receive_queue := r.nqueue } r.pBuffer r.nResult,
        r.pBuffer, true) := by
    unfold link_layer.turn receive_frame
    rw [hr]
    exact if_pos hret
  obtain ⟨rest', lr', hdone⟩ := htaken.processFrame own r.pBuffer (hresult ▸ hle)
  refine ⟨_, _, rest', lr', hturn, hdone.pair, hdone.raw, hdone.sizes, hdone.count, ?_⟩
  rcases h.content with hfailed | hcontent
  · refine .inl (processFrame_failed ?_ own _ _)
    dsimp only
    rw [hheap]
    exact hfailed
  · have hf : firstBytes r.pBuffer r.nResult = f := hbytes.trans (List.cons.inj hcontent.frames).1
    rw [← hf]
    exact hdone.content

/-! ## The whole loop -/

/-- The loop ends, with an empty first queue and the packets of all frames in the second. -/
theorem Carries.process (own : Bytes) (h : Carries A protocol s rest lf lr frames packets)
    (b : Bytes) :
    ∃ t rest' lr', (∀ fuel, frames.length < fuel →
        process_l2_layer A.tracked own fuel s b = some t) ∧
      Carries A protocol t rest' [] lr' [] (packets ++ deliveriesOf own protocol frames) := by
  induction frames generalizing s rest lf lr packets b with
  | nil =>
    obtain rfl : lf = [] := List.length_eq_zero_iff.mp (Nat.le_zero.mp h.count)
    refine ⟨s, rest, lr, ?_, ?_⟩
    · intro fuel hfuel
      obtain ⟨fuel, rfl⟩ := Nat.exists_eq_add_of_lt hfuel
      simp [process_l2_layer, h.turn_empty own b]
    · simpa [deliveriesOf] using h
  | cons f frames ih =>
    cases lf with
    | nil =>
      -- The frame was lost to a failed allocation.
      have hfailed : s.pool.heap.failed = true := by
        rcases h.content with hfailed | hcontent
        · exact hfailed
        · cases hcontent.frames
      refine ⟨s, rest, lr, ?_, h.pair, h.raw, h.sizes, Nat.le_refl _, .inl hfailed⟩
      intro fuel hfuel
      obtain ⟨fuel, rfl⟩ := Nat.exists_eq_add_of_lt hfuel
      simp [process_l2_layer, h.turn_empty own b]
    | cons p lf =>
      obtain ⟨t, b', rest', lr', hturn, hnext⟩ := h.turn own b
      obtain ⟨u, rest'', lr'', hrun, hend⟩ := ih hnext b'
      refine ⟨u, rest'', lr'', ?_, ?_⟩
      · rintro (_ | fuel) hfuel
        · cases hfuel
        · simp only [process_l2_layer, hturn, if_true]
          exact hrun fuel (Nat.lt_of_succ_lt_succ hfuel)
      · rw [deliveriesOf_cons, ← List.append_assoc]
        exact hend

/-! ## What is received -/

/-- The result of a call, with its payload and the address of the sender. -/
def Received.packet (r : Received) : Option (List Byte × List Byte) :=
  match r.ret, r.pBuffer, r.pResultLength, r.sender_mac with
  | true, some buffer, some n, some mac => some (firstBytes buffer n, firstBytes mac MAC_ADDRESS_SIZE)
  | _, _, _, _ => none

/-- The results of one call after the other, with buffers that hold anything before. -/
def receives {H : Type} (A : Allocator H Addr NULL) :
    Net H → List (Bytes × Nat × Bytes) → List (Option (List Byte × List Byte))
  | _, [] => []
  | s, (buffer, n, mac) :: calls =>
    let r := receive_raw_l2_packet A s (some buffer) (some n) (some mac)
    r.2.packet :: receives A r.1 calls

theorem Carries.content_of_ok (h : Carries A protocol s rest lf lr frames packets)
    (hok : s.pool.heap.failed = false) : Content s rest lf lr frames packets := by
  rcases h.content with hfailed | hcontent
  · rw [hok] at hfailed
    cases hfailed
  · exact hcontent

theorem Carries.receive_empty (h : Carries A protocol s rest [] [] [] []) (b m : Bytes) (n : Nat) :
    ∃ r, receive_raw_l2_packet A.tracked s (some b) (some n) (some m) = (s, r) ∧
      r.packet = none := by
  unfold receive_raw_l2_packet
  dsimp only
  rw [dequeue_of_empty b h.pair.symm]
  exact ⟨_, rfl, rfl⟩

/-- The first packet of the second queue is received. -/
theorem Carries.receive {p : Addr} {k : List Byte × List Byte}
    (h : Carries A protocol s rest [] (p :: lr) [] (k :: packets))
    (hok : s.pool.heap.failed = false) (b m : Bytes) (n : Nat) :
    ∃ t r, receive_raw_l2_packet A.tracked s (some b) (some n) (some m) = (t, r) ∧
      r.packet = some k ∧ t.pool.heap.failed = false ∧
      Carries A protocol t rest [] lr [] packets := by
  obtain ⟨hk, hrest⟩ := List.forall₂_cons.mp (h.content_of_ok hok).packets
  obtain ⟨r, hr, hheap, hpair, hresult, hbytes, hparam, hsame⟩ := h.pair.symm.dequeue b
  have hne : r.nResult ≠ 0 := hresult ▸ hk.length
  unfold receive_raw_l2_packet
  dsimp only
  rw [hr, if_neg hne, hparam]
  dsimp only
  rw [if_pos hk.not_null]
  refine ⟨_, _, rfl, ?_, ?_, hpair.symm, h.raw, nofun, Nat.le_refl _, .inr ⟨rfl, ?_⟩⟩
  · simp only [Received.packet, hbytes, hk.bytes, firstBytes_memcpy, hk.sender]
  · dsimp only
    rw [hheap]
    exact hok
  · exact delivered_congr hrest (fun c _ => hsame c) (fun _ _ => rfl) subset_rfl

/-- The calls receive the packets in their order, and then nothing. -/
theorem Carries.receives (h : Carries A protocol s rest [] lr [] packets)
    (hok : s.pool.heap.failed = false) (calls : List (Bytes × Nat × Bytes)) :
    receives A.tracked s calls = (List.range calls.length).map fun i => packets[i]? := by
  induction calls generalizing s lr packets with
  | nil => rfl
  | cons call calls ih =>
    obtain ⟨b, n, m⟩ := call
    rw [List.length_cons, List.range_succ_eq_map, List.map_cons, List.map_map]
    simp only [link_layer.receives]
    have hpackets := (h.content_of_ok hok).packets
    cases packets with
    | nil =>
      obtain rfl := List.forall₂_nil_right_iff.mp hpackets
      obtain ⟨r, hr, hnone⟩ := h.receive_empty b m n
      rw [hr, hnone, ih h hok]
      simp [Function.comp_def]
    | cons k packets =>
      obtain ⟨p, lr, -, -, rfl⟩ := List.forall₂_cons_right_iff.mp hpackets
      obtain ⟨t, r, hr, hsome, hok', hnext⟩ := h.receive hok b m n
      rw [hr, hsome, ih hnext hok']
      simp [Function.comp_def]

/-! ## From the start on -/

/-- `etheriq` for one frame after the other. -/
def etheriqs {H : Type} (A : Allocator H Addr NULL) (s : Net H) (frames : List (Bytes × Nat)) :
    Net H := frames.foldl (fun s f => etheriq A s f.1 f.2) s

/-- The bytes of the frames. -/
def framesOf (frames : List (Bytes × Nat)) : List (List Byte) :=
  frames.map fun f => firstBytes f.1 f.2

theorem carries_enabled (A : Allocator H Addr NULL) (pool : Pool (Tracked H))
    (MACSender : Addr → Bytes) (hprotocol : protocol ≠ 0) :
    Carries A protocol (enable_receive_raw_l2 (start pool MACSender) protocol).1
      (A.tracked.allocated pool.heap) [] [] [] [] := by
  have henable : enable_receive_raw_l2 (start pool MACSender) protocol =
      ({ start pool MACSender with raw_protocol_type := bswap16 protocol }, true) := by
    have hzero : (start pool MACSender).raw_protocol_type = 0 := rfl
    unfold enable_receive_raw_l2
    rw [if_neg (not_not.mpr hzero), if_pos hprotocol]
  rw [henable]
  exact ⟨pair_empty A.tracked pool, rfl, nofun, Nat.le_refl _, .inr ⟨rfl, .nil⟩⟩

theorem Carries.etheriqs (h : Carries A protocol s rest lf lr frames packets)
    (fs : List (Bytes × Nat)) (hfs : ∀ f ∈ fs, 1 ≤ f.2 ∧ f.2 ≤ FRAME_BUFFER_SIZE) :
    ∃ lf', Carries A protocol (etheriqs A.tracked s fs) rest lf' lr
      (frames ++ framesOf fs) packets := by
  induction fs generalizing s lf frames with
  | nil =>
    refine ⟨lf, ?_⟩
    simpa [framesOf, link_layer.etheriqs] using h
  | cons f fs ih =>
    obtain ⟨hpos, hle⟩ := hfs f List.mem_cons_self
    obtain ⟨lf', hone⟩ := h.etheriq f.1 (Nat.one_le_iff_ne_zero.mp hpos) hle
    obtain ⟨lf'', hall⟩ := ih hone fun g hg => hfs g (List.mem_cons_of_mem _ hg)
    refine ⟨lf'', ?_⟩
    simpa [framesOf, link_layer.etheriqs] using hall

/-- The loop ends, and if no allocation has failed by then, the calls of
`receive_raw_l2_packet` receive what the frames carry for the protocol, in order and once
each, and then nothing. -/
theorem the_matching_frames_are_received (A : Allocator H Addr NULL) (own : Bytes)
    (protocol : BitVec 16) (hprotocol : protocol ≠ 0) (pool : Pool (Tracked H))
    (MACSender : Addr → Bytes) (frames : List (Bytes × Nat))
    (hframes : ∀ f ∈ frames, 1 ≤ f.2 ∧ f.2 ≤ FRAME_BUFFER_SIZE) (Buffer : Bytes) :
    ∃ t, (∀ fuel, frames.length < fuel →
        process_l2_layer A.tracked own fuel
          (etheriqs A.tracked (enable_receive_raw_l2 (start pool MACSender) protocol).1 frames)
          Buffer = some t) ∧
      (t.pool.heap.failed = false → ∀ calls, receives A.tracked t calls =
        (List.range calls.length).map fun i => (deliveriesOf own protocol (framesOf frames))[i]?) := by
  obtain ⟨lf, hfed⟩ :=
    (carries_enabled A pool MACSender hprotocol).etheriqs frames hframes
  obtain ⟨t, rest, lr, hrun, hend⟩ := hfed.process own Buffer
  refine ⟨t, ?_, fun hok calls => hend.receives hok calls⟩
  intro fuel hfuel
  exact hrun fuel (by simpa [framesOf] using hfuel)

/-- A frame with these bytes. -/
def frame (bytes : List Byte) : Bytes × Nat := (fun i => bytes.getD i 0, bytes.length)

/-- A frame for the own address, one of another protocol, and one for everybody. -/
def threeFrames : List (Bytes × Nat) :=
  [frame [0, 1, 2, 3, 4, 5, 9, 9, 9, 9, 9, 9, 0x88, 0xb5, 42],
   frame [0, 1, 2, 3, 4, 5, 8, 8, 8, 8, 8, 8, 0x08, 0x00, 43],
   frame [255, 255, 255, 255, 255, 255, 7, 7, 7, 7, 7, 7, 0x88, 0xb5, 44, 45]]

/-- A heap that never runs out, and the queues before the first frame. -/
def numbers : Allocator (List Nat) Addr NULL := counting

def noFrames : Net (Tracked (List Nat)) :=
  start ⟨⟨[], false⟩, fun _ => ⟨0, 0, 0, fun _ => 0, 0⟩⟩ fun _ _ => 0

theorem two_of_three_frames_are_received :
    ∃ t, (∀ fuel, threeFrames.length < fuel →
        process_l2_layer numbers.tracked (fun i => BitVec.ofNat 8 i) fuel
          (etheriqs numbers.tracked (enable_receive_raw_l2 noFrames 0x88b5).1 threeFrames)
          (fun _ => 0) = some t) ∧
      receives numbers.tracked t (List.replicate 3 (fun _ => 0, 0, fun _ => 0)) =
        [some ([42], [9, 9, 9, 9, 9, 9]), some ([44, 45], [7, 7, 7, 7, 7, 7]), none] := by
  obtain ⟨t, hrun, hall⟩ := the_matching_frames_are_received numbers
    (fun i => BitVec.ofNat 8 i) 0x88b5 (by decide) noFrames.pool noFrames.MACSender threeFrames
    (by decide) (fun _ => 0)
  have hfailed : (process_l2_layer numbers.tracked (fun i => BitVec.ofNat 8 i) 4
      (etheriqs numbers.tracked (enable_receive_raw_l2 noFrames 0x88b5).1 threeFrames)
      (fun _ => 0)).map (fun t => t.pool.heap.failed) = some false := by decide +kernel
  have hok : t.pool.heap.failed = false := by
    have hfour := congrArg (Option.map fun t => t.pool.heap.failed) (hrun 4 (by decide))
    exact Option.some.inj (hfour.symm.trans hfailed)
  refine ⟨t, hrun, (hall hok _).trans ?_⟩
  decide +kernel

end rpi_wifi.link_layer
