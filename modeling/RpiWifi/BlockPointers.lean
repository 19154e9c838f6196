-- The four pointers of a Block, `buf`, `rp`, `wp` and `lim`, through the calls that
-- move them, with the heap that the buffer comes from. They stay in order, but
-- for a buffer that the heap gives out without its bytes.
import RpiWifi.HeapBlocks
import RpiWifi.PacketReads

namespace rpi_wifi.block_pointers

open runs memory kernel_alloc ether4330

abbrev Addr := BitVec 32

/-! ## The functions -/

/-- `sizeof(Block)`. -/
def sizeofBlock : BitVec 32 := 40

def maxhdrsize : BitVec 32 := 64

/-- The pointers of a Block. -/
structure Pointers where
  buf : Addr
  rp : Addr
  wp : Addr
  lim : Addr
  deriving DecidableEq

/-- `b->wp - b->rp`. -/
def Pointers.BLEN (b : Pointers) : Int := (b.wp - b.rp).toInt

/-- `allocb`, with no Block when there is no memory for it. -/
def allocb (s : Heap) (size : BitVec 32) : Heap × Option Pointers :=
  let (s, b) := kernel_allocate s sizeofBlock
  if b = 0 then (s, none)
  else
    let size := size + maxhdrsize
    let (s, buf) := kernel_allocate s size
    if buf = 0 then (s, none)
    else
      let buf := BitVec.ofNat 32 buf
      (s, some { buf, lim := buf + size, wp := buf + maxhdrsize, rp := buf + maxhdrsize })

/-- `b->wp += n`. -/
def Pointers.put (b : Pointers) (n : Nat) : Pointers := { b with wp := b.wp + BitVec.ofNat 32 n }

/-- `b->rp += n`. -/
def Pointers.take (b : Pointers) (n : Nat) : Pointers := { b with rp := b.rp + BitVec.ofNat 32 n }

def padblock (b : Pointers) (size : Nat) : Option Pointers :=
  if size = 0 ∨ (b.rp - b.buf).toInt < size then none
  else some { b with rp := b.rp - BitVec.ofNat 32 size }

/-- The stores of `packetrw(0, buf, len)`, in so many rounds of its loop: their addresses
and how many bytes each of them has. -/
def packetrwStores (n : Nat) : Nat → Addr → Nat → List (Addr × Nat)
  | 0, _, _ => []
  | rounds + 1, buf, len =>
    if len = 0 then []
    else
      let n := if len < n then ROUND len 4 else n
      (buf, n) :: packetrwStores n rounds (buf + BitVec.ofNat 32 n) (len - n)

/-- `packetrw(0, buf, len)`. Each round takes a byte or more. -/
def packetrw (buf : Addr) (len : Nat) : List (Addr × Nat) := packetrwStores 2048 len buf len

/-- What a Block goes through: its pointers after each operation, and where the chip's
bytes are stored. -/
structure Trace where
  states : List Pointers
  stores : List (Addr × Nat)

/-- `rproc` skips the data offset and the BDC header. -/
def rproc (b : Pointers) (p : Packet) : List Pointers :=
  match (chanflgOf p &&& 0xF).toNat with
  | 1 =>
    if b.BLEN > doffsetOf p + 4 ∧ b.BLEN > doffsetOf p + bdcOf p then
      [b.take (doffsetOf p + bdcOf p)]
    else []
  | 2 =>
    if b.BLEN > doffsetOf p + 4 ∧ b.BLEN ≥ doffsetOf p + bdcOf p + ETHERHDRSIZE then
      [b.take (doffsetOf p + bdcOf p)]
    else []
  | _ => []

/-- The loop of `wlreadpkt` over the packets that the chip offers, and `rproc` of the one that
is accepted. A bad header is read over. -/
def wlreadpkt (b : Pointers) : List Packet → Trace
  | [] => ⟨[], []⟩
  | p :: ps =>
    let header := packetrw b.wp sizeofSdpcm
    if lenOf p = 0 then ⟨[], header⟩
    else if headerOk p then
      let body :=
        if lenOf p > sizeofSdpcm then
          packetrw (b.wp + BitVec.ofNat 32 sizeofSdpcm) (lenOf p - sizeofSdpcm)
        else []
      let b := b.put (lenOf p)
      ⟨b :: rproc b p, header ++ body⟩
    else
      let rest := wlreadpkt b ps
      ⟨rest.states, header ++ rest.stores⟩

/-- `txstart` of the Block: the header and the padding go in front. -/
def txstart (b : Pointers) : List Pointers :=
  let off := (b.rp &&& 3).toNat + sizeofSdpcm
  (padblock b (off + 4)).toList

/-- `send_frame`, up to the packet that `txstart` writes. -/
def send_frame (b : Pointers) (length : BitVec 32) : Trace :=
  let b := b.put length.toNat
  ⟨b :: txstart b, []⟩

/-- The size of a command's packet. -/
def commandLen (write : Bool) (dlen rlen : Nat) : Nat :=
  sizeofSdpcm + sizeofCmd + if write then dlen + rlen else max dlen rlen

/-- `wlcmd`, up to the packet that it writes. -/
def wlcmd (b : Pointers) (write : Bool) (dlen rlen : Nat) : Trace :=
  let b₁ := b.put sizeofSdpcm
  let b₂ := b₁.put sizeofCmd
  let b₃ := b₂.put (if write then dlen + rlen else max dlen rlen)
  ⟨[b₁, b₂, b₃], []⟩

/-- A call that allocates a Block. -/
inductive Call where
  | send_frame (length : BitVec 32)
  | wlcmd (write : Bool) (dlen rlen : Nat)
  | wlreadpkt (offered : List Packet)

/-- The size that it asks `allocb` for. -/
def Call.size : Call → BitVec 32
  | .send_frame length => length
  | .wlcmd write dlen rlen => BitVec.ofNat 32 (commandLen write dlen rlen)
  | .wlreadpkt _ => 2048

/-- What the call does with its Block. -/
def Call.trace (b : Pointers) : Call → Trace
  | .send_frame length => block_pointers.send_frame b length
  | .wlcmd write dlen rlen => block_pointers.wlcmd b write dlen rlen
  | .wlreadpkt offered => block_pointers.wlreadpkt b offered

/-! ## The order -/

/-- The pointers are in order. -/
structure Ordered (b : Pointers) : Prop where
  front : b.buf ≤ b.rp
  bytes : b.rp ≤ b.wp
  room : b.wp ≤ b.lim

/-- The Block is in order when it is allocated and after each operation, and no byte is
stored behind it. -/
structure Orderly (b : Pointers) (c : Call) : Prop where
  fresh : Ordered b
  states : ∀ d ∈ (c.trace b).states, Ordered d
  stores : ∀ w ∈ (c.trace b).stores, w.1.toNat + w.2 ≤ b.lim.toNat

/-- The callers keep to these lengths: with the headroom they fit in 32 bits, and the total
of a command is an `int`. -/
def Call.Legal : Call → Prop
  | .send_frame length => length.toNat + 64 < 2 ^ 32
  | .wlcmd write dlen rlen => commandLen write dlen rlen < 2 ^ 31
  | .wlreadpkt _ => True

/-- A frame, with its headroom, is one that the heap can give the bytes for. -/
def Call.Fits : Call → Prop
  | .send_frame length => length.toNat + 64 ≤ maxRequest
  | _ => True

instance : ∀ c : Call, Decidable c.Legal
  | .send_frame _ => inferInstanceAs (Decidable (_ < _))
  | .wlcmd _ _ _ => inferInstanceAs (Decidable (_ < _))
  | .wlreadpkt _ => isTrue trivial

instance : ∀ c : Call, Decidable c.Fits
  | .send_frame _ => inferInstanceAs (Decidable (_ ≤ _))
  | .wlcmd _ _ _ => isTrue trivial
  | .wlreadpkt _ => isTrue trivial

variable {base : Nat} {s : Heap} {b : Pointers} {p : Packet} {size : BitVec 32} {n : Nat}

/-! ## New Blocks -/

/-- A Block as `allocb` makes it, with room for `n` bytes. -/
structure Fresh (b : Pointers) (n : Nat) : Prop where
  rp : b.rp.toNat = b.buf.toNat + 64
  wp : b.wp.toNat = b.buf.toNat + 64
  lim : b.lim.toNat = b.buf.toNat + 64 + n

/-- What `allocb` gets of the heap: the heap after the record of the Block, and a buffer. -/
theorem allocb_some (h : (allocb s size).2 = some b) :
    ∃ buf, (kernel_allocate (kernel_allocate s sizeofBlock).1 (size + maxhdrsize)).2 = buf ∧
      buf ≠ 0 ∧ b =
        { buf := BitVec.ofNat 32 buf
          lim := BitVec.ofNat 32 buf + (size + maxhdrsize)
          wp := BitVec.ofNat 32 buf + maxhdrsize
          rp := BitVec.ofNat 32 buf + maxhdrsize } := by
  unfold allocb at h
  dsimp only at h
  split at h
  · cases h
  · split at h
    · cases h
    · next hbuf => exact ⟨_, rfl, hbuf, (Option.some.inj h).symm⟩

theorem add_toNat {a : Addr} (h : a.toNat + n < 2 ^ 32) :
    (a + BitVec.ofNat 32 n).toNat = a.toNat + n := by
  rw [BitVec.toNat_add, BitVec.toNat_ofNat]
  omega

theorem size_toNat (size : BitVec 32) (h : size.toNat + 64 < 2 ^ 32) :
    (size + maxhdrsize).toNat = size.toNat + 64 := by
  unfold maxhdrsize
  rw [BitVec.toNat_add]
  exact Nat.mod_eq_of_lt h

/-- A Block whose buffer the heap can hold has its bytes. -/
theorem allocb_fresh (hs : BlocksOk base s) (h : (allocb s size).2 = some b)
    (hsize : size.toNat + 64 ≤ maxRequest) : Fresh b size.toNat := by
  obtain ⟨buf, hbuf, h0, rfl⟩ := allocb_some h
  have hok := (hs.allocate sizeofBlock).1
  have hmax : maxRequest < 2 ^ 32 := by decide
  have hn := size_toNat size (by omega)
  have hroom := (hok.room (by rw [hn]; exact hsize) (hbuf.trans_ne h0)).1
  have hword := (hok.allocate (size + maxhdrsize)).1.word
  rw [hbuf, hn] at hroom
  have hlt : buf + (size.toNat + 64) < 2 ^ 32 := by omega
  have hptr : (BitVec.ofNat 32 buf).toNat = buf := by
    rw [BitVec.toNat_ofNat]
    omega
  have hfirst : (BitVec.ofNat 32 buf + maxhdrsize).toNat = buf + 64 := by
    have hsum := add_toNat (a := BitVec.ofNat 32 buf) (n := 64) (by omega)
    rw [hptr] at hsum
    exact hsum
  refine ⟨by dsimp only; omega, by dsimp only; omega, ?_⟩
  dsimp only
  rw [BitVec.toNat_add, hn, hptr]
  omega

/-- A Block whose size wraps in the heap ends in front of its buffer. -/
theorem allocb_wraps (hs : BlocksOk base s) (h : (allocb s size).2 = some b)
    (hlegal : size.toNat + 64 < 2 ^ 32) (hsize : maxRequest < size.toNat + 64) :
    b.lim.toNat < b.buf.toNat := by
  obtain ⟨buf, hbuf, h0, rfl⟩ := allocb_some h
  have hok := (hs.allocate sizeofBlock).1
  have hn := size_toNat _ hlegal
  have hptr := (block_of_too_large (by rw [hn]; exact hsize) (hbuf.trans_ne h0)).1
  obtain ⟨hok', hret⟩ := hok.allocate (size + maxhdrsize)
  obtain ⟨k, hk, hkp, -⟩ := hret.resolve_left (hbuf.trans_ne h0)
  have hword := hok'.lt hk
  rw [hbuf] at hptr hkp
  dsimp only
  rw [BitVec.toNat_add, hn, BitVec.toNat_ofNat, Nat.mod_eq_of_lt (show buf < 2 ^ 32 by omega)]
  unfold maxRequest at hsize
  unfold sizeofHeader at hptr
  omega

theorem Fresh.ordered (h : Fresh b n) : Ordered b := by
  have hrp := h.rp
  have hwp := h.wp
  have hlim := h.lim
  refine ⟨?_, ?_, ?_⟩ <;> rw [BitVec.le_def] <;> omega

/-! ## The operations -/

theorem put_toNat (h : b.wp.toNat + n < 2 ^ 32) : (b.put n).wp.toNat = b.wp.toNat + n :=
  add_toNat h

/-- Bytes that have room are put behind the others. -/
theorem Ordered.put (h : Ordered b) (hn : b.wp.toNat + n ≤ b.lim.toNat) : Ordered (b.put n) := by
  have hlim := b.lim.isLt
  have hwp := put_toNat (b := b) (n := n) (by omega)
  have hbytes := BitVec.le_def.mp h.bytes
  refine ⟨h.front, ?_, ?_⟩
  · rw [BitVec.le_def, hwp]
    exact hbytes.trans (Nat.le_add_right _ _)
  · rw [BitVec.le_def, hwp]
    exact hn

/-- Bytes that are there are taken off in front. -/
theorem Ordered.take (h : Ordered b) (hn : b.rp.toNat + n ≤ b.wp.toNat) : Ordered (b.take n) := by
  have hwp := b.wp.isLt
  have hrp : (b.take n).rp.toNat = b.rp.toNat + n := add_toNat (by omega)
  have hfront := BitVec.le_def.mp h.front
  refine ⟨?_, ?_, h.room⟩
  · rw [BitVec.le_def, hrp]
    exact hfront.trans (Nat.le_add_right _ _)
  · rw [BitVec.le_def, hrp]
    exact hn

/-- Room in front of `rp` is opened. -/
theorem Ordered.pad (h : Ordered b) (hn : b.buf.toNat + n ≤ b.rp.toNat) :
    Ordered { b with rp := b.rp - BitVec.ofNat 32 n } := by
  have hlt := b.rp.isLt
  have hrp : (b.rp - BitVec.ofNat 32 n).toNat = b.rp.toNat - n := by
    rw [BitVec.toNat_sub, BitVec.toNat_ofNat]
    omega
  have hbytes := BitVec.le_def.mp h.bytes
  refine ⟨?_, ?_, h.room⟩
  · rw [BitVec.le_def]
    dsimp only
    omega
  · rw [BitVec.le_def]
    dsimp only
    omega

/-- The bytes between two pointers that are not far from each other. -/
theorem distance {hi lo : Addr} {n : Nat} (h : hi.toNat = lo.toNat + n) (hn : n < 2 ^ 31) :
    (hi - lo).toInt = n := by
  have hdiff : (hi - lo).toNat = n := by
    rw [BitVec.toNat_sub]
    omega
  rw [BitVec.toInt_eq_toNat_of_lt (by omega), hdiff]

/-- `txstart` of a Block with its headroom finds room for what it puts in front. -/
theorem txstart_ordered (h : Ordered b) (hrp : b.rp.toNat = b.buf.toNat + 64) :
    ∀ d ∈ txstart b, Ordered d := by
  have hand : (b.rp &&& 3).toNat ≤ 3 := by
    rw [BitVec.toNat_and]
    exact Nat.and_le_right
  intro d hd
  unfold txstart padblock at hd
  dsimp only at hd
  rw [distance hrp (by decide)] at hd
  unfold sizeofSdpcm at hd
  split at hd
  · cases hd
  · rw [Option.toList_some, List.mem_singleton] at hd
    rw [hd]
    exact h.pad (by omega)

/-- `rproc` skips no more than there is. -/
theorem rproc_ordered (h : Ordered b) (hn : b.wp.toNat = b.rp.toNat + n) (hlen : n < 2 ^ 31) :
    ∀ d ∈ rproc b p, Ordered d := by
  have hblen : b.BLEN = n := distance hn hlen
  intro d hd
  unfold rproc at hd
  rw [hblen] at hd
  split at hd
  · split at hd
    · rw [List.mem_singleton] at hd
      rw [hd]
      exact h.take (by omega)
    · cases hd
  · split at hd
    · rw [List.mem_singleton] at hd
      rw [hd]
      exact h.take (by omega)
    · cases hd
  · cases hd

/-! ## The stores -/

/-- The chunks end at most at the length, rounded up to words. -/
theorem packetrwStores_end {n rounds len : Nat} {buf : Addr} (hn : 4 ∣ n)
    (hend : buf.toNat + ROUND len 4 < 2 ^ 32) :
    ∀ w ∈ packetrwStores n rounds buf len, w.1.toNat + w.2 ≤ buf.toNat + ROUND len 4 := by
  induction rounds generalizing buf len n with
  | zero => intro w hw; cases hw
  | succ rounds ih =>
    intro w hw
    unfold packetrwStores at hw
    split at hw
    · cases hw
    · have hchunk : 4 ∣ (if len < n then ROUND len 4 else n) ∧
          (if len < n then ROUND len 4 else n) +
              ROUND (len - if len < n then ROUND len 4 else n) 4 ≤ ROUND len 4 := by
        unfold ROUND
        split
        · exact ⟨Nat.dvd_mul_left _ _, by omega⟩
        · exact ⟨hn, by omega⟩
      generalize (if len < n then ROUND len 4 else n) = chunk at hw hchunk
      obtain ⟨hfour, hrest⟩ := hchunk
      dsimp only at hw
      rcases List.mem_cons.mp hw with rfl | hw
      · dsimp only
        omega
      · have hnext := add_toNat (a := buf) (n := chunk) (by omega)
        have := ih hfour (by omega) w hw
        omega

/-- What `packetrw` stores for a length of at most the room, which is a number of words. -/
theorem packetrw_end {len : Nat} (room : Nat) {buf : Addr} (hroom : 4 ∣ room) (hlen : len ≤ room)
    (hend : buf.toNat + room < 2 ^ 32) :
    ∀ w ∈ packetrw buf len, w.1.toNat + w.2 ≤ buf.toNat + room := by
  have hround : ROUND len 4 ≤ room := by
    unfold ROUND
    omega
  intro w hw
  have := packetrwStores_end (by decide) (by omega) w hw
  omega

/-! ## The law of the pointers -/

/-- A Block of 2048 bytes takes whatever the chip offers. -/
theorem wlreadpkt_orderly (hf : Fresh b 2048) (offered : List Packet) :
    (∀ d ∈ (wlreadpkt b offered).states, Ordered d) ∧
      ∀ w ∈ (wlreadpkt b offered).stores, w.1.toNat + w.2 ≤ b.lim.toNat := by
  have hwp := hf.wp
  have hrp := hf.rp
  have hlim := hf.lim
  have hlast := b.lim.isLt
  have hheader : ∀ w ∈ packetrw b.wp sizeofSdpcm, w.1.toNat + w.2 ≤ b.lim.toNat := by
    intro w hw
    have := packetrw_end 2048 (by decide) (by decide) (by omega) w hw
    omega
  induction offered with
  | nil => exact ⟨by simp [wlreadpkt], by simp [wlreadpkt]⟩
  | cons p ps ih =>
    unfold wlreadpkt
    dsimp only
    split
    · exact ⟨by simp, hheader⟩
    · split
      · next hok =>
        obtain ⟨hlow, hhigh⟩ := headerOk_bounds hok
        unfold sizeofSdpcm at hlow
        have hput := put_toNat (b := b) (n := lenOf p) (by omega)
        constructor
        · intro d hd
          have hordered := hf.ordered.put (n := lenOf p) (by omega)
          rcases List.mem_cons.mp hd with rfl | hd
          · exact hordered
          · exact rproc_ordered hordered (n := lenOf p) (by rw [hput, hwp, ← hrp]; rfl)
              (by omega) d hd
        · intro w hw
          rcases List.mem_append.mp hw with hw | hw
          · exact hheader w hw
          · split at hw
            · have hbody := add_toNat (a := b.wp) (n := sizeofSdpcm)
                (by unfold sizeofSdpcm; omega)
              unfold sizeofSdpcm at hw hbody
              have := packetrw_end 2036 (by decide) (by omega) (by omega) w hw
              omega
            · cases hw
      · refine ⟨ih.1, ?_⟩
        intro w hw
        rcases List.mem_append.mp hw with hw | hw
        · exact hheader w hw
        · exact ih.2 w hw

/-- `wlcmd` fills its Block up to `lim`. -/
theorem wlcmd_orderly {write : Bool} {dlen rlen : Nat} (hf : Fresh b (commandLen write dlen rlen)) :
    ∀ d ∈ (wlcmd b write dlen rlen).states, Ordered d := by
  have hwp := hf.wp
  have hlim := hf.lim
  have hlast := b.lim.isLt
  unfold commandLen at hlim
  have h1 := put_toNat (b := b) (n := sizeofSdpcm) (by omega)
  have h2 := put_toNat (b := b.put sizeofSdpcm) (n := sizeofCmd) (by omega)
  have hordered₁ := hf.ordered.put (n := sizeofSdpcm) (by omega)
  have hroom₂ : (b.put sizeofSdpcm).wp.toNat + sizeofCmd ≤ b.lim.toNat := by omega
  have hordered₂ := hordered₁.put hroom₂
  have hroom₃ : ((b.put sizeofSdpcm).put sizeofCmd).wp.toNat +
      (if write then dlen + rlen else max dlen rlen) ≤ b.lim.toNat := by omega
  have hordered₃ := hordered₂.put hroom₃
  intro d hd
  unfold wlcmd at hd
  dsimp only at hd
  rcases List.mem_cons.mp hd with rfl | hd
  · exact hordered₁
  · rcases List.mem_cons.mp hd with rfl | hd
    · exact hordered₂
    · rw [List.mem_singleton.mp hd]
      exact hordered₃

/-- `send_frame` fills its Block up to `lim`, and `txstart` uses the headroom. -/
theorem send_frame_orderly {length : BitVec 32} (hf : Fresh b length.toNat) :
    ∀ d ∈ (send_frame b length).states, Ordered d := by
  have hwp := hf.wp
  have hlim := hf.lim
  have hordered := hf.ordered.put (n := length.toNat) (by omega)
  intro d hd
  unfold send_frame at hd
  dsimp only at hd
  rcases List.mem_cons.mp hd with rfl | hd
  · exact hordered
  · exact txstart_ordered hordered hf.rp d hd

/-- After every run of the allocator, a call that gets its Block keeps the pointers in order
and stores nothing behind `lim` exactly when its frame, with the headroom, is of at most
`maxRequest` bytes. -/
theorem the_pointers_are_orderly_iff (mem : Mem) (ulBase ulSize : BitVec 32) (s₀ s : Heap)
    (ops : List Op) (c : Call) (b : Pointers)
    (hinit : kernel_alloc_init mem ulBase ulSize = some s₀)
    (hrun : exec kernel_alloc.step s₀ ops = some s) (hlegal : c.Legal)
    (hb : (allocb s c.size).2 = some b) : Orderly b c ↔ c.Fits := by
  have hs := exec_keeps (BlocksOk ulBase.toNat) (fun _ _ _ hi ht => blocksOk_step hi ht)
    (blocksOk_init hinit) hrun
  cases c with
  | send_frame length =>
    constructor
    · intro h
      by_contra hlarge
      have hend := allocb_wraps hs hb hlegal (Nat.lt_of_not_le hlarge)
      have h1 := BitVec.le_def.mp h.fresh.front
      have h2 := BitVec.le_def.mp h.fresh.bytes
      have h3 := BitVec.le_def.mp h.fresh.room
      omega
    · intro hfits
      have hf := allocb_fresh hs hb hfits
      exact ⟨hf.ordered, send_frame_orderly hf, by simp [Call.trace, send_frame]⟩
  | wlcmd write dlen rlen =>
    refine iff_of_true ?_ trivial
    have hlen : (BitVec.ofNat 32 (commandLen write dlen rlen)).toNat =
        commandLen write dlen rlen := by
      rw [BitVec.toNat_ofNat]
      exact Nat.mod_eq_of_lt (by unfold Call.Legal at hlegal; omega)
    have hf := allocb_fresh hs hb (by
      unfold Call.size Call.Legal maxRequest at *
      rw [hlen]
      omega)
    unfold Call.size at hf
    dsimp only at hf
    rw [hlen] at hf
    exact ⟨hf.ordered, wlcmd_orderly hf, by simp [Call.trace, wlcmd]⟩
  | wlreadpkt offered =>
    refine iff_of_true ?_ trivial
    have hsize : (2048 : BitVec 32).toNat + 64 ≤ maxRequest := by decide
    have hf : Fresh b 2048 := allocb_fresh hs hb hsize
    obtain ⟨hstates, hstores⟩ := wlreadpkt_orderly hf offered
    exact ⟨hf.ordered, hstates, hstores⟩

/-- A frame of 60 bytes, out of a new heap. -/
theorem a_short_frame_is_orderly :
    ∃ s₀ b, kernel_alloc_init (fun _ => 0) 0x200000 0x1000000 = some s₀ ∧
      (allocb s₀ 60).2 = some b ∧ Orderly b (.send_frame 60) := by
  obtain ⟨s₀, b, hinit, hb⟩ : ∃ s₀ b, kernel_alloc_init (fun _ => 0) 0x200000 0x1000000 = some s₀ ∧
      (allocb s₀ 60).2 = some b := by
    refine ⟨_, ⟨0x200060, 0x2000A0, 0x2000A0, 0x2000DC⟩, rfl, ?_⟩
    decide +kernel
  refine ⟨s₀, b, hinit, hb, ?_⟩
  exact (the_pointers_are_orderly_iff (fun _ => 0) 0x200000 0x1000000 s₀ s₀ []
    (.send_frame 60) b hinit rfl (by decide) hb).mpr (by decide)

/-- A frame of 0xFFFFFFB1 bytes gets a Block that ends in front of its buffer. -/
theorem a_long_frame_is_not_orderly :
    ∃ s₀ b, kernel_alloc_init (fun _ => 0) 0x200000 0x1000000 = some s₀ ∧
      (allocb s₀ 0xFFFFFFB1).2 = some b ∧ (Call.send_frame 0xFFFFFFB1).Legal ∧ b.lim < b.buf ∧
      ¬ Orderly b (.send_frame 0xFFFFFFB1) := by
  refine ⟨_, ⟨0x200060, 0x2000A0, 0x2000A0, 0x200051⟩, rfl, by decide +kernel, by decide, by decide,
    ?_⟩
  intro h
  have hroom := h.fresh.room
  revert hroom
  decide

end rpi_wifi.block_pointers
