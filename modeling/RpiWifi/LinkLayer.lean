-- The link layer: `etheriq` puts the frames of the driver into a queue,
-- `process_l2_layer` takes them out and puts what is for the enabled protocol into a
-- second queue, with a record of the sender, and `receive_raw_l2_packet` takes it from
-- there.
import RpiWifi.QueueCalls
import RpiWifi.Firmware

namespace rpi_wifi.link_layer

open allocators net_queue
open ether4330 (memcmp memcmp_self eq_of_memcmp)

/-! ## The functions -/

def MAC_ADDRESS_SIZE : Nat := 6

/-- `sizeof(struct TEthernetHeader)`. -/
def sizeofTEthernetHeader : Nat := 14

/-- `sizeof(struct TRawPrivateData)`. -/
def sizeofTRawPrivateData : Nat := 6

def broadcast_addr : List Byte := [0xff, 0xff, 0xff, 0xff, 0xff, 0xff]

def bswap16 (v : BitVec 16) : BitVec 16 := (v &&& 0xff) <<< 8 ||| v >>> 8

/-- The heap with the entries, the `MACSender` of the record at each address, and the
static variables of `bcm4343.c` and `link_layer.c`. -/
structure Net (H : Type) where
  pool : Pool H
  MACSender : Addr → Bytes
  frame_receive_queue : Queue
  rx_net_queue : Queue
  raw_protocol_type : BitVec 16

/-- `initialize_link_layer` and `allocate_bcm4343_device` have made the queues. -/
def start {H : Type} (pool : Pool H) (MACSender : Addr → Bytes) : Net H where
  pool := pool
  MACSender := MACSender
  frame_receive_queue := ⟨NULL, NULL⟩
  rx_net_queue := ⟨NULL, NULL⟩
  raw_protocol_type := 0

/-- The field of the header, as the processor loads it: the first byte is the low one. -/
def nProtocolType (Buffer : Bytes) : BitVec 16 := Buffer 13 ++ Buffer 12

variable {H : Type}

def enable_receive_raw_l2 (s : Net H) (nProtocolType : BitVec 16) : Net H × Bool :=
  if s.raw_protocol_type ≠ 0 then (s, false)
  else if nProtocolType ≠ 0 then ({ s with raw_protocol_type := bswap16 nProtocolType }, true)
  else (s, false)

/-- `etheriq`, with the bytes from `rp` on and the length of the Block. -/
def etheriq (A : Allocator H Addr NULL) (s : Net H) (rp : Bytes) (blen : Nat) : Net H :=
  let t := enqueue_nqueue A s.pool s.frame_receive_queue (some rp) blen NULL
  { s with pool := t.1, frame_receive_queue := t.2 }

/-- The state after `receive_frame`, the buffer, the length and the result. -/
structure Frame (H : Type) where
  net : Net H
  frame_buffer : Bytes
  length : Nat
  ret : Bool

def receive_frame (A : Allocator H Addr NULL) (s : Net H) (frame_buffer : Bytes) : Frame H :=
  let r := dequeue_nqueue A s.pool s.frame_receive_queue frame_buffer
  ⟨{ s with pool := r.pool, frame_receive_queue := r.nqueue }, r.pBuffer, r.nResult,
    r.nResult != 0⟩

/-- The branch of `process_l2_layer` for a frame of the enabled protocol; `nLength` is
without the header. -/
def enqueueRaw (A : Allocator H Addr NULL) (s : Net H) (Buffer : Bytes) (nLength : Nat) : Net H :=
  let r := A.allocate s.pool.heap sizeofTRawPrivateData
  let pParam := r.2
  let s := { s with pool := { s.pool with heap := r.1 } }
  if pParam ≠ NULL then
    let sender := memcpy (s.MACSender pParam) (fun i => Buffer (MAC_ADDRESS_SIZE + i))
      MAC_ADDRESS_SIZE
    let payload := fun i => Buffer (sizeofTEthernetHeader + i)
    let t := enqueue_nqueue A s.pool s.rx_net_queue (some payload) nLength pParam
    { s with pool := t.1, MACSender := Function.update s.MACSender pParam sender,
             rx_net_queue := t.2 }
  else s

/-- The body of the loop of `process_l2_layer`. -/
def processFrame (A : Allocator H Addr NULL) (pOwnMACAddress : Bytes) (s : Net H) (Buffer : Bytes)
    (nLength : Nat) : Net H :=
  if nLength > FRAME_BUFFER_SIZE then s
  else if nLength ≤ sizeofTEthernetHeader then s
  else
    let MACAddressReceiver := firstBytes Buffer MAC_ADDRESS_SIZE
    if memcmp MACAddressReceiver (firstBytes pOwnMACAddress MAC_ADDRESS_SIZE) ≠ 0 ∧
        memcmp broadcast_addr MACAddressReceiver ≠ 0 then s
    else
      let nLength := nLength - sizeofTEthernetHeader
      if nProtocolType Buffer = s.raw_protocol_type then enqueueRaw A s Buffer nLength else s

/-- One turn of the loop, with the buffer after it and whether there was a frame. -/
def turn (A : Allocator H Addr NULL) (pOwnMACAddress : Bytes) (s : Net H) (Buffer : Bytes) :
    Net H × Bytes × Bool :=
  let r := receive_frame A s Buffer
  if r.ret then
    (processFrame A pOwnMACAddress r.net r.frame_buffer r.length, r.frame_buffer, true)
  else (r.net, r.frame_buffer, false)

/-- `process_l2_layer`, in at most `fuel` turns. The address that `get_mac_address` returns is
that of an array, never null. `Buffer` is not initialised. -/
def process_l2_layer (A : Allocator H Addr NULL) (pOwnMACAddress : Bytes) :
    Nat → Net H → Bytes → Option (Net H)
  | 0, _, _ => none
  | fuel + 1, s, Buffer =>
    let r := turn A pOwnMACAddress s Buffer
    if r.2.2 then process_l2_layer A pOwnMACAddress fuel r.1 r.2.1 else some r.1

/-- What the caller of `receive_raw_l2_packet` has after the call: the result, and what is
behind each of its pointers, where that is no null pointer. -/
structure Received where
  ret : Bool
  pBuffer : Option Bytes
  pResultLength : Option Nat
  sender_mac : Option Bytes

def receive_raw_l2_packet (A : Allocator H Addr NULL) (s : Net H) (pBuffer : Option Bytes)
    (pResultLength : Option Nat) (sender_mac : Option Bytes) : Net H × Received :=
  match pBuffer, pResultLength with
  | some buffer, some _ =>
    let r := dequeue_nqueue A s.pool s.rx_net_queue buffer
    let s := { s with pool := r.pool, rx_net_queue := r.nqueue }
    if r.nResult = 0 then (s, ⟨false, some r.pBuffer, some r.nResult, sender_mac⟩)
    else
      let sender := match sender_mac, r.param with
        | some mac, some pData =>
          some (if pData ≠ NULL then memcpy mac (s.MACSender pData) MAC_ADDRESS_SIZE else mac)
        | _, _ => sender_mac
      (s, ⟨true, some r.pBuffer, some r.nResult, sender⟩)
  | _, _ => (s, ⟨false, pBuffer, pResultLength, sender_mac⟩)

/-! ## The frames of a protocol -/

/-- The type field of a frame, in network byte order. -/
def typeOf (frame : List Byte) : BitVec 16 := frame.getD 12 0 ++ frame.getD 13 0

/-- The frame has a payload, is for the own address or for everybody, and is of the
protocol. -/
def Matches (own : Bytes) (protocol : BitVec 16) (frame : List Byte) : Prop :=
  sizeofTEthernetHeader < frame.length ∧
    (frame.take MAC_ADDRESS_SIZE = firstBytes own MAC_ADDRESS_SIZE ∨
      frame.take MAC_ADDRESS_SIZE = broadcast_addr) ∧
    typeOf frame = protocol

instance (own : Bytes) (protocol : BitVec 16) (frame : List Byte) :
    Decidable (Matches own protocol frame) := inferInstanceAs (Decidable (_ ∧ _))

/-- The payload and the address of the sender. -/
def deliveryOf (frame : List Byte) : List Byte × List Byte :=
  (frame.drop sizeofTEthernetHeader, (frame.drop MAC_ADDRESS_SIZE).take MAC_ADDRESS_SIZE)

/-- What the frames carry for the protocol. -/
def deliveriesOf (own : Bytes) (protocol : BitVec 16) (frames : List (List Byte)) :
    List (List Byte × List Byte) :=
  (frames.filter (Matches own protocol ·)).map deliveryOf

/-! ## Bytes and words -/

theorem and_low (hi lo : Byte) : (hi ++ lo) &&& (0xff : BitVec 16) = lo.setWidth 16 := by
  apply BitVec.eq_of_toNat_eq
  have hmod := Nat.and_two_pow_sub_one_eq_mod (hi ++ lo).toNat 8
  have hlo := lo.isLt
  rw [BitVec.toNat_append, ← Nat.shiftLeft_add_eq_or_of_lt hlo, Nat.shiftLeft_eq] at hmod
  rw [BitVec.toNat_and, BitVec.toNat_append, ← Nat.shiftLeft_add_eq_or_of_lt hlo,
    Nat.shiftLeft_eq, BitVec.toNat_setWidth]
  refine hmod.trans ?_
  omega

theorem bswap16_append (hi lo : Byte) : bswap16 (hi ++ lo) = lo ++ hi := by
  unfold bswap16
  apply BitVec.eq_of_getLsbD_eq
  intro i hi'
  rw [and_low]
  simp only [BitVec.getLsbD_or, BitVec.getLsbD_shiftLeft, BitVec.getLsbD_ushiftRight,
    BitVec.getLsbD_append, BitVec.getLsbD_setWidth]
  rcases Nat.lt_or_ge i 8 with hlt | hge
  · simp [hlt]
  · have hnot : ¬ i < 8 := Nat.not_lt.mpr hge
    have hhigh : hi.getLsbD i = false := BitVec.getLsbD_of_ge hi i hge
    have hlow : i - 8 < 16 := by omega
    simp [hnot, hi', hhigh, hlow]

theorem exists_bytes (v : BitVec 16) : ∃ hi lo : Byte, v = hi ++ lo := by
  refine ⟨v.extractLsb' 8 8, v.extractLsb' 0 8, ?_⟩
  apply BitVec.eq_of_getLsbD_eq
  intro i hi
  refine Eq.trans ?_ BitVec.getLsbD_append.symm
  rw [BitVec.getLsbD_extractLsb', BitVec.getLsbD_extractLsb']
  rcases Nat.lt_or_ge i 8 with hlt | hge
  · simp [hlt]
  · have hnot : ¬ i < 8 := Nat.not_lt.mpr hge
    have h8 : 8 + (i - 8) = i := by omega
    have hlow : i - 8 < 8 := by omega
    simp [hnot, h8, hlow]

theorem bswap16_bswap16 (v : BitVec 16) : bswap16 (bswap16 v) = v := by
  obtain ⟨hi, lo, rfl⟩ := exists_bytes v
  rw [bswap16_append, bswap16_append]

theorem bswap16_inj {v w : BitVec 16} : bswap16 v = bswap16 w ↔ v = w :=
  ⟨fun h => by rw [← bswap16_bswap16 v, h, bswap16_bswap16], congrArg bswap16⟩

theorem firstBytes_getD {b : Bytes} {n i : Nat} (h : i < n) (d : Byte) :
    (firstBytes b n).getD i d = b i := by
  simp [firstBytes, h]

theorem drop_firstBytes (b : Bytes) (n k : Nat) :
    (firstBytes b n).drop k = firstBytes (fun i => b (k + i)) (n - k) := by
  unfold firstBytes
  rw [← List.map_drop, List.range_eq_range', List.drop_range', Nat.zero_add, Nat.mul_one,
    List.range'_eq_map_range, List.map_map]
  rfl

theorem memcmp_eq_zero {as bs : List Byte} (h : as.length = bs.length) :
    memcmp as bs = 0 ↔ as = bs := by
  constructor
  · exact eq_of_memcmp h
  · rintro rfl
    exact memcmp_self as

/-- The type that the processor loads is the one of the frame, with its bytes swapped. -/
theorem nProtocolType_eq {b : Bytes} {n : Nat} (h : sizeofTEthernetHeader < n) :
    nProtocolType b = bswap16 (typeOf (firstBytes b n)) := by
  have h14 : 14 < n := h
  unfold nProtocolType typeOf
  rw [firstBytes_getD (by omega), firstBytes_getD (by omega), bswap16_append]

variable {A : Allocator H Addr NULL} {s : Net H}

/-- The checks of the loop let exactly the frames of the protocol through. -/
theorem processFrame_eq (own : Bytes) {protocol : BitVec 16}
    (hraw : s.raw_protocol_type = bswap16 protocol) (b : Bytes) (n : Nat) :
    processFrame A own s b n =
      if n ≤ FRAME_BUFFER_SIZE ∧ Matches own protocol (firstBytes b n) then
        enqueueRaw A s b (n - sizeofTEthernetHeader)
      else s := by
  unfold processFrame
  by_cases hbig : n > FRAME_BUFFER_SIZE
  · rw [if_pos hbig, if_neg fun h => absurd hbig (Nat.not_lt.mpr h.1)]
  rw [if_neg hbig]
  by_cases hshort : n ≤ sizeofTEthernetHeader
  · rw [if_pos hshort, if_neg]
    rintro ⟨-, hlong, -⟩
    rw [firstBytes_length] at hlong
    omega
  have hlong : sizeofTEthernetHeader < n := Nat.lt_of_not_le hshort
  have hreceiver : (firstBytes b n).take MAC_ADDRESS_SIZE = firstBytes b MAC_ADDRESS_SIZE := by
    apply take_firstBytes
    unfold MAC_ADDRESS_SIZE
    unfold sizeofTEthernetHeader at hlong
    omega
  have hown : memcmp (firstBytes b MAC_ADDRESS_SIZE) (firstBytes own MAC_ADDRESS_SIZE) = 0 ↔
      firstBytes b MAC_ADDRESS_SIZE = firstBytes own MAC_ADDRESS_SIZE :=
    memcmp_eq_zero (by simp)
  have hbroadcast : memcmp broadcast_addr (firstBytes b MAC_ADDRESS_SIZE) = 0 ↔
      firstBytes b MAC_ADDRESS_SIZE = broadcast_addr :=
    (memcmp_eq_zero (by simp [broadcast_addr, MAC_ADDRESS_SIZE])).trans eq_comm
  have htype : nProtocolType b = s.raw_protocol_type ↔ typeOf (firstBytes b n) = protocol := by
    rw [nProtocolType_eq hlong, hraw, bswap16_inj]
  have hlength : sizeofTEthernetHeader < (firstBytes b n).length := by simpa using hlong
  rw [if_neg hshort]
  simp only [Matches, hreceiver, htype, hown, hbroadcast, Nat.le_of_not_lt hbig, hlength,
    ne_eq, true_and, ← not_or, ite_not]
  by_cases haddr : firstBytes b MAC_ADDRESS_SIZE = firstBytes own MAC_ADDRESS_SIZE ∨
      firstBytes b MAC_ADDRESS_SIZE = broadcast_addr
  · simp [haddr]
  · simp [haddr]

end rpi_wifi.link_layer
