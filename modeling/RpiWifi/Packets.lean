-- The packets between the host and the wifi chip: the SDPCM header, the
-- command header behind it, and the frames and events that the chip sends.
-- A packet is the list of its bytes, from `rp` to `wp` of its Block.
import Mathlib

namespace rpi_wifi.ether4330

abbrev Byte := BitVec 8

abbrev Packet := List Byte

/-! ## Numbers in packets -/

/-- `put2`: the low byte of a `short`, then the byte above it. -/
def put2 (v : BitVec 16) : Packet := [v.setWidth 8, (v.sshiftRight 8).setWidth 8]

/-- `put4`: the bytes of a `long`, the low byte first. -/
def put4 (v : BitVec 32) : Packet :=
  [v.setWidth 8, (v.sshiftRight 8).setWidth 8, (v.sshiftRight 16).setWidth 8,
    (v.sshiftRight 24).setWidth 8]

/-- The byte at offset `i`. The code tests the length before it reads. -/
def byteAt (p : Packet) (i : Nat) : Byte := p.getD i 0

/-- `p[0] | p[1] << 8`: the bytes are promoted to `int` first. -/
def le16 (lo hi : Byte) : BitVec 32 := lo.setWidth 32 ||| hi.setWidth 32 <<< 8

/-- `nhgets`: two bytes of network order. -/
def nhgets (p : Packet) : BitVec 16 := byteAt p 0 ++ byteAt p 1

/-- `nhgetl`: four bytes of network order. -/
def nhgetl (p : Packet) : BitVec 32 := byteAt p 0 ++ byteAt p 1 ++ byteAt p 2 ++ byteAt p 3

/-! ## The headers -/

def sizeofSdpcm : Nat := 12

def sizeofCmd : Nat := 16

def ETHERHDRSIZE : Nat := 14

def Eaddrlen : Nat := 6

/-- The header of every packet on the SDIO bus. -/
structure Sdpcm where
  len : BitVec 16
  lenck : BitVec 16
  seq : Byte
  chanflg : Byte
  nextlen : Byte
  doffset : Byte
  fcmask : Byte
  window : Byte
  version : Byte
  pad : Byte
  deriving DecidableEq

def Sdpcm.bytes (h : Sdpcm) : Packet :=
  put2 h.len ++ put2 h.lenck ++
    [h.seq, h.chanflg, h.nextlen, h.doffset, h.fcmask, h.window, h.version, h.pad]

/-- The header that a sender fills in: the rest of it is cleared by `memset`. -/
def Sdpcm.sent (len : Nat) (seq chanflg : Byte) (doffset : Nat) : Sdpcm :=
  { len := BitVec.ofNat 16 len, lenck := ~~~ BitVec.ofNat 16 len, seq, chanflg, nextlen := 0,
    doffset := BitVec.ofNat 8 doffset, fcmask := 0, window := 0, version := 0, pad := 0 }

/-- `len` of a received header, as `wlreadpkt` puts it together. -/
def lenOf (p : Packet) : Nat := (le16 (byteAt p 0) (byteAt p 1)).toNat

def lenckOf (p : Packet) : Nat := (le16 (byteAt p 2) (byteAt p 3)).toNat

def seqOf (p : Packet) : Byte := byteAt p 4

def chanflgOf (p : Packet) : Byte := byteAt p 5

def doffsetOf (p : Packet) : Nat := (byteAt p 7).toNat

def fcmaskOf (p : Packet) : Byte := byteAt p 8

def windowOf (p : Packet) : Byte := byteAt p 9

/-- The two bytes `q->id` of the command header at `rp + sizeof(Sdpcm)`. -/
def idOf (p : Packet) : Byte × Byte := (byteAt p 22, byteAt p 23)

/-- The id bytes that `put2` writes for a request id. -/
def idBytes (reqid : BitVec 16) : Byte × Byte :=
  (reqid.setWidth 8, (reqid.sshiftRight 8).setWidth 8)

/-- What `wlreadpkt` demands of a header that is not empty. -/
def headerOk (p : Packet) : Bool :=
  lenckOf p == lenOf p ^^^ 0xFFFF && decide (sizeofSdpcm ≤ lenOf p) && decide (lenOf p ≤ 2048)

/-! ## The packets that the host sends -/

/-- The packet of `txstart` for the frame at address `rp`: the header, the
padding of `off - sizeof(Sdpcm)` bytes, the BDC header and the frame. -/
def dataPacket (rp : Nat) (frame : Packet) (txseq : Byte) : Packet :=
  let off := rp % 4 + sizeofSdpcm
  let len := off + 4 + frame.length
  (Sdpcm.sent len txseq 2 off).bytes ++ List.replicate (off - sizeofSdpcm) 0 ++ put4 0x20 ++ frame

/-- The arguments of one `wlcmd` call. `res` holds the value to write, and
`rlen` bytes are asked for when the call reads. -/
structure Request where
  write : Bool
  op : BitVec 32
  data : Packet
  res : Packet
  rlen : Nat
  deriving DecidableEq

def Request.tlen (c : Request) : Nat :=
  if c.write then c.data.length + c.rlen else max c.data.length c.rlen

/-- The bytes behind the command header. `memset` cleared them before. -/
def Request.payload (c : Request) : Packet :=
  let bytes := c.data ++ if c.write then c.res.take c.rlen else []
  bytes ++ List.replicate (c.tlen - bytes.length) 0

/-- The packet of `wlcmd`, with the request id that `++ctl->reqid` gave. -/
def commandPacket (c : Request) (txseq : Byte) (reqid : BitVec 16) : Packet :=
  let len := sizeofSdpcm + sizeofCmd + c.tlen
  (Sdpcm.sent len txseq 0 sizeofSdpcm).bytes ++ put4 c.op ++ put4 (BitVec.ofNat 32 c.tlen) ++
    put2 (if c.write then 2 else 0) ++ put2 reqid ++ put4 0 ++ c.payload

/-- The id bytes of a command are the two bytes of its request id. -/
theorem idOf_commandPacket (c : Request) (txseq : Byte) (reqid : BitVec 16) :
    idOf (commandPacket c txseq reqid) = idBytes reqid := rfl

/-! ## The match of a reply -/

/-- The test of `rproc` on a packet of channel 0: `q->id` put together as an
`int`, against the `short` that is promoted to `int`. -/
def idMatches (p : Packet) (reqid : BitVec 16) : Bool :=
  le16 (idOf p).1 (idOf p).2 == reqid.signExtend 32

theorem le16_toNat (lo hi : Byte) : (le16 lo hi).toNat = lo.toNat + 256 * hi.toNat := by
  have hlo := lo.isLt
  have hhi := hi.isLt
  have hshift : hi.toNat <<< 8 = 2 ^ 8 * hi.toNat := by rw [Nat.shiftLeft_eq, Nat.mul_comm]
  unfold le16
  rw [BitVec.toNat_or, BitVec.toNat_shiftLeft]
  simp only [BitVec.toNat_setWidth]
  rw [Nat.mod_eq_of_lt (a := lo.toNat) (by omega), Nat.mod_eq_of_lt (a := hi.toNat) (by omega),
    hshift, Nat.mod_eq_of_lt (by omega), Nat.or_comm, ← Nat.two_pow_add_eq_or_of_lt hlo]
  omega

/-- The bytes of `put2`, put together again, are the number as an unsigned one. -/
theorem le16_put2 (v : BitVec 16) :
    (le16 (v.setWidth 8) ((v.sshiftRight 8).setWidth 8)).toNat = v.toNat := by
  have hv := v.isLt
  have hhi : ((v.sshiftRight 8).setWidth 8 : Byte).toNat = v.toNat / 256 := by
    have : ((v.sshiftRight 8).setWidth 8 : Byte) = (v >>> 8).setWidth 8 := by
      ext i hi
      simp only [BitVec.getElem_setWidth, BitVec.getLsbD_sshiftRight, BitVec.getLsbD_ushiftRight]
      have h1 : 8 + i < 16 := by omega
      simp [h1, show ¬ 16 ≤ i by omega]
    rw [this]
    simp only [BitVec.toNat_setWidth, BitVec.toNat_ushiftRight, Nat.shiftRight_eq_div_pow]
    omega
  rw [le16_toNat, hhi]
  simp only [BitVec.toNat_setWidth]
  omega

/-- A `short` as the `int` it is compared as. -/
theorem promoted_toNat (r : BitVec 16) :
    (r.signExtend 32).toNat = if r.toNat < 32768 then r.toNat else r.toNat + 4294901760 := by
  have hr := r.isLt
  have hfits : r.toNat % 2 ^ 32 = r.toNat := Nat.mod_eq_of_lt (by omega)
  rw [BitVec.toNat_signExtend, BitVec.msb_eq_decide, BitVec.toNat_setWidth, hfits]
  by_cases hlt : r.toNat < 32768
  · have hmsb : decide (2 ^ (16 - 1) ≤ r.toNat) = false := decide_eq_false (by omega)
    rw [hmsb, if_pos hlt, if_neg Bool.false_ne_true, Nat.add_zero]
  · have hmsb : decide (2 ^ (16 - 1) ≤ r.toNat) = true := decide_eq_true (by omega)
    rw [hmsb, if_neg hlt, if_pos rfl]

/-- A reply with the id bytes of request `v` matches `reqid` only when it is
`v`, and when `v` is not negative as a `short`. -/
theorem idMatches_iff (p : Packet) (v reqid : BitVec 16)
    (h : idOf p = idBytes v) :
    idMatches p reqid = true ↔ v = reqid ∧ v.toNat < 32768 := by
  have hv := v.isLt
  have hr := reqid.isLt
  have hbytes : (le16 (idOf p).1 (idOf p).2).toNat = v.toNat := by
    rw [h]
    exact le16_put2 v
  have heq : idMatches p reqid = true ↔ v.toNat = (reqid.signExtend 32).toNat := by
    unfold idMatches
    rw [beq_iff_eq, ← BitVec.toNat_inj, hbytes]
  rw [heq, promoted_toNat]
  constructor
  · intro he
    split at he
    · exact ⟨BitVec.eq_of_toNat_eq he, by omega⟩
    · omega
  · rintro ⟨rfl, hlt⟩
    simp [hlt]

/-- A packet that matches carries the id bytes of the request. -/
theorem idOf_of_idMatches (p : Packet) (reqid : BitVec 16) (h : idMatches p reqid = true) :
    idOf p = idBytes reqid := by
  have hnat : (idOf p).1.toNat + 256 * (idOf p).2.toNat = (reqid.signExtend 32).toNat := by
    unfold idMatches at h
    rw [beq_iff_eq] at h
    rw [← le16_toNat, h]
  set v : BitVec 16 := (idOf p).2 ++ (idOf p).1 with hv
  have hvn : v.toNat = (idOf p).1.toNat + 256 * (idOf p).2.toNat := by
    have := (idOf p).1.isLt
    rw [hv, BitVec.toNat_append, Nat.shiftLeft_eq, Nat.mul_comm,
      ← Nat.two_pow_add_eq_or_of_lt this]
    omega
  have hid : idOf p = idBytes v := by
    have h1 := (idOf p).1.isLt
    have h2 := (idOf p).2.isLt
    have h3 := le16_put2 v
    rw [le16_toNat, hvn] at h3
    have h4 : ((v.setWidth 8 : Byte)).toNat = (idOf p).1.toNat := by
      rw [BitVec.toNat_setWidth, hvn]
      omega
    have h5 : ((v.sshiftRight 8).setWidth 8 : Byte).toNat = (idOf p).2.toNat := by omega
    apply Prod.ext
    · exact (BitVec.eq_of_toNat_eq h4).symm
    · exact (BitVec.eq_of_toNat_eq h5).symm
  rw [hid, ((idMatches_iff p v reqid hid).mp h).1]

/-! ## The channels -/

/-- What `rproc` does with a packet after the window update. -/
inductive Delivery where
  /-- The reply of channel 0 that matches `reqid`. -/
  | reply
  /-- The event of channel 1, with the bytes behind the BDC header. -/
  | event (p : Packet)
  /-- The frame of channel 2, with the bytes behind the BDC header. -/
  | frame (p : Packet)
  /-- The packet is freed with no other effect. -/
  | drop
  deriving DecidableEq

/-- `bdc` of the packet: four bytes and as many words as its fourth byte says. -/
def bdcOf (p : Packet) : Nat := 4 + (byteAt p (doffsetOf p + 3)).toNat * 4

/-- The switch of `rproc` on the channel of the packet. -/
def deliver (p : Packet) (reqid : BitVec 16) : Delivery :=
  match (chanflgOf p &&& 0xF).toNat with
  | 0 =>
    if p.length < sizeofSdpcm + sizeofCmd then .drop
    else if idMatches p reqid then .reply else .drop
  | 1 =>
    if p.length > doffsetOf p + 4 ∧ p.length > doffsetOf p + bdcOf p then
      .event (p.drop (doffsetOf p + bdcOf p))
    else .drop
  | 2 =>
    if p.length > doffsetOf p + 4 ∧ p.length ≥ doffsetOf p + bdcOf p + ETHERHDRSIZE then
      .frame (p.drop (doffsetOf p + bdcOf p))
    else .drop
  | _ => .drop

theorem deliver_reply {p : Packet} {reqid : BitVec 16} (h : deliver p reqid = .reply) :
    idMatches p reqid = true := by
  unfold deliver at h
  split at h
  · split at h
    · cases h
    · split at h
      · assumption
      · cases h
  · split at h <;> cases h
  · split at h <;> cases h
  · cases h

/-- A packet of channel 0 that is long enough is the reply exactly when its id matches. -/
theorem deliver_channel_zero {p : Packet} {reqid : BitVec 16} (hc : chanflgOf p &&& 0xF = 0)
    (hl : sizeofSdpcm + sizeofCmd ≤ p.length) :
    deliver p reqid = .reply ↔ idMatches p reqid = true := by
  have h0 : (chanflgOf p &&& 0xF).toNat = 0 := by rw [hc]; rfl
  simp only [deliver, h0]
  rw [if_neg (by omega)]
  split <;> simp_all

end rpi_wifi.ether4330
