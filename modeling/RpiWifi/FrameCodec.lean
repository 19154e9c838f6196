-- The round trip of a data frame: the packet that `txstart` makes of a frame,
-- presented by the chip as a received one, is accepted by `wlreadpkt`, and
-- `rproc` and `receive_frame` give the same frame back.
import RpiWifi.Driver

namespace rpi_wifi.ether4330

open runs

/-! ## The frames that were received -/

/-- `dequeue_nqueue`: the first entry is copied and freed. -/
def dequeue_nqueue : List Packet → List Packet × Packet
  | [] => ([], [])
  | entry :: nqueue => (nqueue, entry)

/-- `receive_frame`, with the queue after it, the frame and the result. -/
def receive_frame (frame_receive_queue : List Packet) : List Packet × Packet × Bool :=
  let r := dequeue_nqueue frame_receive_queue
  (r.1, r.2, r.2.length != 0)

/-- What `receive_frame` gives after `n` calls of it. -/
def receiveAfter : Nat → List Packet → Packet × Bool
  | 0, q => (receive_frame q).2
  | n + 1, q => receiveAfter n (receive_frame q).1

theorem receiveAfter_append (earlier later : List Packet) (frame : Packet) :
    receiveAfter earlier.length (earlier ++ frame :: later) = (frame, frame.length != 0) := by
  induction earlier with
  | nil => rfl
  | cons e earlier ih => exact ih

/-! ## The fields of a data packet -/

section

variable (rp : Nat) (frame : Packet) (txseq : Byte)

/-- `off` of `txstart`. -/
def dataOffset (rp : Nat) : Nat := rp % 4 + sizeofSdpcm

theorem dataPacket_length :
    (dataPacket rp frame txseq).length = dataOffset rp + 4 + frame.length := by
  simp only [dataPacket, Sdpcm.bytes, put2, put4, List.length_append, List.length_cons,
    List.length_nil, List.length_replicate, dataOffset, sizeofSdpcm]
  omega

/-- The header and the padding, the BDC header and the frame. -/
theorem dataPacket_eq :
    ∃ header, header.length = dataOffset rp ∧
      dataPacket rp frame txseq = header ++ [0x20, 0, 0, 0] ++ frame := by
  refine ⟨(Sdpcm.sent (dataOffset rp + 4 + frame.length) txseq 2 (dataOffset rp)).bytes ++
    List.replicate (dataOffset rp - sizeofSdpcm) 0, ?_, ?_⟩
  · simp only [Sdpcm.bytes, put2, List.length_append, List.length_cons, List.length_nil,
      List.length_replicate, dataOffset, sizeofSdpcm]
    omega
  · rfl

theorem lenOf_dataPacket (h : (dataPacket rp frame txseq).length < 65536) :
    lenOf (dataPacket rp frame txseq) = (dataPacket rp frame txseq).length := by
  rw [dataPacket_length] at h ⊢
  have hlow := le16_put2 (BitVec.ofNat 16 (dataOffset rp + 4 + frame.length))
  rw [BitVec.toNat_ofNat, Nat.mod_eq_of_lt h] at hlow
  exact hlow

/-- The complement of the length is the length with every bit turned over. -/
theorem lenckOf_dataPacket (h : (dataPacket rp frame txseq).length < 65536) :
    lenckOf (dataPacket rp frame txseq) = lenOf (dataPacket rp frame txseq) ^^^ 0xFFFF := by
  rw [lenOf_dataPacket rp frame txseq h]
  rw [dataPacket_length] at h ⊢
  have hnot : (~~~ BitVec.ofNat 16 (dataOffset rp + 4 + frame.length)).toNat =
      (dataOffset rp + 4 + frame.length) ^^^ 0xFFFF := by
    rw [← BitVec.xor_allOnes, BitVec.toNat_xor, BitVec.toNat_ofNat, Nat.mod_eq_of_lt h]
    rfl
  rw [← hnot]
  exact le16_put2 _

theorem doffsetOf_dataPacket : doffsetOf (dataPacket rp frame txseq) = dataOffset rp := by
  have hoff : dataOffset rp < 256 := by
    unfold dataOffset sizeofSdpcm
    omega
  exact Nat.mod_eq_of_lt hoff

theorem bdcOf_dataPacket : bdcOf (dataPacket rp frame txseq) = 4 := by
  obtain ⟨header, hlen, heq⟩ := dataPacket_eq rp frame txseq
  unfold bdcOf byteAt
  rw [doffsetOf_dataPacket, heq, ← hlen]
  simp

/-- Behind the BDC header stands the frame. -/
theorem drop_dataPacket :
    (dataPacket rp frame txseq).drop (dataOffset rp + 4) = frame := by
  obtain ⟨header, hlen, heq⟩ := dataPacket_eq rp frame txseq
  rw [heq, List.drop_left']
  simp [hlen]

end

/-! ## The header in front -/

theorem byteAt_take {p : Packet} {n i : Nat} (h : i < n) : byteAt (p.take n) i = byteAt p i := by
  simp [byteAt, h]

theorem lenOf_take (p : Packet) : lenOf (p.take sizeofSdpcm) = lenOf p := by
  unfold lenOf
  rw [byteAt_take (by decide), byteAt_take (by decide)]

theorem lenckOf_take (p : Packet) : lenckOf (p.take sizeofSdpcm) = lenckOf p := by
  unfold lenckOf
  rw [byteAt_take (by decide), byteAt_take (by decide)]

section

variable {rp : Nat} {frame : Packet} {txseq : Byte}

/-- The length of the packet of a frame that fits into a queue entry. -/
theorem dataPacket_fits (h : frame.length ≤ FRAME_BUFFER_SIZE) :
    sizeofSdpcm < (dataPacket rp frame txseq).length ∧
      (dataPacket rp frame txseq).length ≤ 2048 := by
  unfold FRAME_BUFFER_SIZE at h
  rw [dataPacket_length]
  unfold dataOffset sizeofSdpcm
  omega

/-- `wlreadpkt` accepts the header. -/
theorem headerOk_dataPacket (h : frame.length ≤ FRAME_BUFFER_SIZE) :
    headerOk ((dataPacket rp frame txseq).take sizeofSdpcm) = true := by
  obtain ⟨hlo, hhi⟩ := @dataPacket_fits rp frame txseq h
  have hlen := lenOf_dataPacket rp frame txseq (by omega)
  have hck := lenckOf_dataPacket rp frame txseq (by omega)
  unfold headerOk
  rw [lenOf_take, lenckOf_take, hck, hlen]
  simp [hlo.le, hhi]

/-- The switch of `rproc` finds the frame. -/
theorem deliver_dataPacket (h : ETHERHDRSIZE ≤ frame.length) (reqid : BitVec 16) :
    deliver (dataPacket rp frame txseq) reqid = .frame frame := by
  have hflg : chanflgOf (dataPacket rp frame txseq) = 2 := rfl
  have hchan : (chanflgOf (dataPacket rp frame txseq) &&& 0xF).toNat = 2 := by
    rw [hflg]
    rfl
  have hlen := dataPacket_length rp frame txseq
  unfold ETHERHDRSIZE at h
  unfold deliver
  simp only [hchan]
  rw [doffsetOf_dataPacket, bdcOf_dataPacket, drop_dataPacket,
    if_pos ⟨by omega, by unfold ETHERHDRSIZE; omega⟩]

end

/-! ## The round trip -/

variable {T : Type} [DecidableEq T]

/-- A call of `send_frame` for the block up to the write of `txstart`. -/
def sendFrame (t : T) (b : Block) : List (Act T) :=
  .send_frame t b :: List.replicate 8 (.run (.task t))

/-- A packet with `padding` behind it, as the chip hands it to `wlreadpkt`, and the
steps of `rproc` up to the queue of frames. -/
def receivePacket (p padding : Packet) : List (Act T) :=
  [.header (p.take sizeofSdpcm), .body (p.drop sizeofSdpcm ++ padding), .run .rproc, .run .rproc,
    .run .rproc]

/-- What `send_frame` and `txstart` write for the bytes of a block, when nothing stands
in their way. -/
theorem sendFrame_writes (s : State T) (t : T) (b : Block) (hpc : s.pc (.task t) = .idle)
    (htlock : s.tlock = none) (hpktlock : s.pktlock = none) (hoq : s.oq = [])
    (hopen : blocked s.txseq s.txwindow s.fcmask = false) (hroom : 64 ≤ b.headroom) :
    ∃ s', exec step s (sendFrame t b) = some s' ∧
      s'.wire = s.wire ++ [dataPacket b.rp b.bytes s.txseq] := by
  have hpad : padblock b (b.rp % 4 + sizeofSdpcm + 4) =
      some { b with
        rp := b.rp - (b.rp % 4 + sizeofSdpcm + 4)
        headroom := b.headroom - (b.rp % 4 + sizeofSdpcm + 4) } := by
    unfold padblock sizeofSdpcm
    rw [if_neg (by omega)]
  simp [sendFrame, exec, step, runTask, State.goto, packetrw, hpc, htlock, hpktlock, hoq, hopen,
    hpad]

/-- A frame of a legal length fits into an entry. -/
theorem enqueue_frame (q : List Packet) {frame : Packet} (hlo : ETHERHDRSIZE ≤ frame.length)
    (hhi : frame.length ≤ FRAME_BUFFER_SIZE) :
    enqueue_nqueue q frame (BitVec.ofNat 32 frame.length) = q ++ [frame] := by
  unfold ETHERHDRSIZE at hlo
  have hnat : (BitVec.ofNat 32 frame.length).toNat = frame.length := by
    unfold FRAME_BUFFER_SIZE at hhi
    rw [BitVec.toNat_ofNat]
    omega
  have hrefused : ¬ (BitVec.ofNat 32 frame.length = 0 ∨
      FRAME_BUFFER_SIZE < (BitVec.ofNat 32 frame.length).toNat) := by
    rintro (h0 | h0)
    · rw [h0] at hnat
      have hz : (0 : BitVec 32).toNat = 0 := rfl
      omega
    · omega
  unfold enqueue_nqueue
  rw [if_neg hrefused, hnat, List.take_length]

/-- A reader that waits for a header takes the packet of a frame, whatever stands
behind it, and queues the frame. -/
theorem receivePacket_queues (s : State T) (b : Block) (hpc : s.pc .rproc = .rHeader b) {rp : Nat}
    {frame : Packet} {txseq : Byte} (hlo : ETHERHDRSIZE ≤ frame.length)
    (hhi : frame.length ≤ FRAME_BUFFER_SIZE) {padding : Packet}
    (hpad : (dataPacket rp frame txseq ++ padding).length =
      ROUND (dataPacket rp frame txseq).length 4) :
    ∃ s', exec step s (receivePacket (dataPacket rp frame txseq) padding) = some s' ∧
      s'.frame_receive_queue = s.frame_receive_queue ++ [frame] := by
  obtain ⟨h12, h2048⟩ := @dataPacket_fits rp frame txseq hhi
  have hlen := lenOf_dataPacket rp frame txseq (by omega)
  have hok := @headerOk_dataPacket rp frame txseq hhi
  have hdeliver := @deliver_dataPacket rp frame txseq hlo
  set p := dataPacket rp frame txseq with hp
  have hhead : (p.take sizeofSdpcm).length = sizeofSdpcm := List.length_take_of_le h12.le
  have hlen' : lenOf (p.take sizeofSdpcm) = p.length := (lenOf_take p).trans hlen
  have hne : lenOf (p.take sizeofSdpcm) ≠ 0 := by omega
  have hbody : (p.drop sizeofSdpcm ++ padding).length =
      ROUND (lenOf (p.take sizeofSdpcm) - sizeofSdpcm) 4 := by
    unfold ROUND sizeofSdpcm at *
    simp only [List.length_append, List.length_drop] at hpad ⊢
    omega
  have hwhole : p.take sizeofSdpcm ++
      (p.drop sizeofSdpcm ++ padding).take (lenOf (p.take sizeofSdpcm) - sizeofSdpcm) = p := by
    rw [hlen', List.take_append_of_le_length (by rw [List.length_drop]), ← List.length_drop,
      List.take_length, List.take_append_drop]
  have hread : readHeader s b (p.take sizeofSdpcm) =
      some (s.goto .rproc (.rBody b (p.take sizeofSdpcm))) := by
    unfold readHeader
    rw [if_neg (not_not.mpr hhead), if_neg hne, if_pos hok]
  have hreadBody : ∀ s' : State T,
      readBody s' b (p.take sizeofSdpcm) (p.drop sizeofSdpcm ++ padding) =
        some (s'.goto .rproc (.rUnpkt (some { b with bytes := p }))) := by
    intro s'
    unfold readBody
    dsimp only
    rw [if_neg (not_not.mpr hbody), hwhole]
  have hqueue := enqueue_frame s.frame_receive_queue hlo hhi
  simp [receivePacket, exec, step, runTask, State.goto, updateWindow, hpc, hread, hreadBody,
    hdeliver, hqueue]

/-- The packet that `send_frame` and `txstart` write for a frame of a legal length is
accepted as a received one at every alignment, and `receive_frame` gives the frame
back, after the frames that were queued before it. -/
theorem a_frame_is_received (frame : Packet) (hlo : ETHERHDRSIZE ≤ frame.length)
    (hhi : frame.length ≤ FRAME_BUFFER_SIZE) (sender : State T) (t : T) (out : Block)
    (hout : out.bytes = frame) (hidle : sender.pc (.task t) = .idle) (htlock : sender.tlock = none)
    (hpktlock : sender.pktlock = none) (hoq : sender.oq = [])
    (hopen : blocked sender.txseq sender.txwindow sender.fcmask = false) (hroom : 64 ≤ out.headroom)
    (s : State T) (b : Block) (hpc : s.pc .rproc = .rHeader b) :
    ∃ sent p, exec step sender (sendFrame t out) = some sent ∧ sent.wire = sender.wire ++ [p] ∧
      headerOk (p.take sizeofSdpcm) = true ∧
      ∀ padding : Packet, (p ++ padding).length = ROUND p.length 4 →
        ∃ s', exec step s (receivePacket p padding) = some s' ∧
          receiveAfter s.frame_receive_queue.length s'.frame_receive_queue = (frame, true) := by
  obtain ⟨sent, hsent, hwire⟩ :=
    sendFrame_writes sender t out hidle htlock hpktlock hoq hopen hroom
  rw [hout] at hwire
  refine ⟨sent, _, hsent, hwire, headerOk_dataPacket hhi, ?_⟩
  intro padding hpad
  obtain ⟨s', hs', hqueue⟩ := receivePacket_queues s b hpc hlo hhi hpad
  refine ⟨s', hs', ?_⟩
  have hne : (frame.length != 0) = true := by
    unfold ETHERHDRSIZE at hlo
    exact bne_iff_ne.mpr (by omega)
  rw [hqueue, receiveAfter_append, hne]

/-- The link of a driver that is not attached. -/
def noLink : Link := ⟨false, 0, .Disconnected, [], false, [], []⟩

/-- A frame that is only a header, in a block that starts at an odd address. -/
def shortFrame : Block := ⟨1, 67, 64, List.replicate 14 7⟩

/-- A block to read into. -/
def readBlock : Block := ⟨2, 128, 64, []⟩

theorem a_short_frame_is_received :
    ∃ sent p, exec step (start Unit 0 5 0 noLink) (sendFrame () shortFrame) = some sent ∧
      sent.wire = [] ++ [p] ∧ headerOk (p.take sizeofSdpcm) = true ∧
      ∀ padding : Packet, (p ++ padding).length = ROUND p.length 4 →
        ∃ s', exec step { start Unit 0 5 0 noLink with pc := fun _ => .rHeader readBlock }
            (receivePacket p padding) = some s' ∧
          receiveAfter 0 s'.frame_receive_queue = (List.replicate 14 7, true) :=
  a_frame_is_received (List.replicate 14 7) (by decide) (by decide) (start Unit 0 5 0 noLink) ()
    shortFrame rfl rfl rfl rfl rfl rfl (by decide)
    { start Unit 0 5 0 noLink with pc := fun _ => .rHeader readBlock } readBlock rfl

end rpi_wifi.ether4330
