-- Where the driver reads in a packet that the chip sent: `rproc` and `bcmevent`
-- for an event, `rproc` and `wlcmd` for a reply. The lengths are of C's `int`,
-- and one of them is handed on as an unsigned number.
import RpiWifi.Driver

namespace rpi_wifi.ether4330

/-! ## Accesses -/

/-- So many bytes are read, from `offset` behind `rp` on. -/
structure Access where
  offset : Nat
  count : Nat
  deriving DecidableEq

/-- All of them lie in front of `wp`. -/
def Access.Inside (p : Packet) (r : Access) : Prop := r.offset + r.count ≤ p.length

instance (p : Packet) (r : Access) : Decidable (r.Inside p) := inferInstanceAs (Decidable (_ ≤ _))

/-! ## Events -/

/-- What the handling of an event reads of the packet, and what `scan_result_received` is
called with: where its buffer starts, and the length as an unsigned number. -/
structure EventTrace where
  reads : List Access
  scan : Option (Nat × BitVec 32)

/-- The bytes that `enqueue_nqueue` copies. -/
def enqueueReads (offset : Nat) (nLength : BitVec 32) : List Access :=
  if nLength = 0 ∨ FRAME_BUFFER_SIZE < nLength.toNat then [] else [⟨offset, nLength.toNat⟩]

/-- `bcmevent` of the `len` bytes from `offset` on. -/
def bcmeventTrace (whole : Packet) (offset : Nat) (len : Int) : EventTrace :=
  if len < ETHERHDRSIZE + 10 + 46 then ⟨[], none⟩
  else
    let p := offset + (ETHERHDRSIZE + 10)
    let len := len - (ETHERHDRSIZE + 10)
    let numbers := [⟨p + 2, 2⟩, ⟨p + 6, 2⟩, ⟨p + 8, 4⟩, ⟨p + 12, 4⟩]
    let event := (nhgets (whole.drop (p + 6))).toNat
    let status := nhgetl (whole.drop (p + 8))
    let addr := [⟨p + 24, Eaddrlen⟩]
    match event with
    | 19 => if status = 0 then ⟨numbers, none⟩ else ⟨numbers ++ addr, none⟩
    | 0 => ⟨numbers ++ addr, none⟩
    | 17 => ⟨numbers ++ addr, none⟩
    | 5 | 6 | 12 | 16 | 26 => ⟨numbers, none⟩
    | 69 =>
      let nLength := BitVec.ofInt 32 (len - 48)
      ⟨numbers ++ enqueueReads (p + 48) nLength, some (p + 48, nLength)⟩
    -- `dump` of the whole event.
    | _ => if status = 0 then ⟨numbers, none⟩ else ⟨numbers ++ [⟨p, len.toNat⟩], none⟩

/-- `rproc` of a packet, with what it calls. -/
def rprocTrace (p : Packet) : EventTrace :=
  -- `window`, `fcmask`, `chanflg` and `doffset`
  let header := [⟨9, 1⟩, ⟨8, 1⟩, ⟨5, 1⟩, ⟨7, 1⟩]
  let bdcByte := [⟨doffsetOf p + 3, 1⟩]
  let start := doffsetOf p + bdcOf p
  match (chanflgOf p &&& 0xF).toNat with
  | 0 =>
    if p.length < sizeofSdpcm + sizeofCmd then ⟨header, none⟩
    else ⟨header ++ [⟨sizeofSdpcm + 10, 2⟩], none⟩
  | 1 =>
    if p.length > doffsetOf p + 4 then
      if p.length > start then
        let trace := bcmeventTrace p start (p.length - start)
        { trace with reads := header ++ bdcByte ++ trace.reads }
      else ⟨header ++ bdcByte, none⟩
    else ⟨header, none⟩
  | 2 =>
    if p.length > doffsetOf p + 4 then
      -- `etheriq` and `dump` of the frame.
      if p.length ≥ start + ETHERHDRSIZE then
        ⟨header ++ bdcByte ++ enqueueReads start (BitVec.ofNat 32 (p.length - start)) ++
          [⟨start, p.length - start⟩], none⟩
      else ⟨header ++ bdcByte, none⟩
    else ⟨header, none⟩
  | _ => ⟨header ++ [⟨0, p.length⟩], none⟩

/-- Every byte that is read lies in the packet, and so do the bytes that a scan result is
said to have. -/
structure EventInside (p : Packet) : Prop where
  reads : ∀ r ∈ (rprocTrace p).reads, r.Inside p
  scan : ∀ buffer nLength, (rprocTrace p).scan = some (buffer, nLength) →
    buffer + nLength.toNat ≤ p.length

/-- A scan result behind whose header there are 46 or 47 bytes. -/
def ShortScanResult (p : Packet) : Prop :=
  let start := doffsetOf p + bdcOf p
  nhgets (p.drop (start + (ETHERHDRSIZE + 10) + 6)) = 69 ∧
    start + 70 ≤ p.length ∧ p.length < start + 72

instance (p : Packet) : Decidable (ShortScanResult p) := inferInstanceAs (Decidable (_ ∧ _))

variable {p whole : Packet}

/-! ## The law of the events -/

/-- The number of the event that starts at the offset. -/
def eventAt (whole : Packet) (offset : Nat) : Nat :=
  (nhgets (whole.drop (offset + (ETHERHDRSIZE + 10) + 6))).toNat

/-- Scan results alone are handed on. -/
theorem bcmeventTrace_scan (whole : Packet) (offset : Nat) {len : Int} (h : 70 ≤ len) :
    (bcmeventTrace whole offset len).scan =
      if eventAt whole offset = 69 then some (offset + 72, BitVec.ofInt 32 (len - 72))
      else none := by
  have hlen : len - (ETHERHDRSIZE + 10) - 48 = len - 72 := by
    unfold ETHERHDRSIZE
    omega
  unfold bcmeventTrace
  rw [if_neg (by unfold ETHERHDRSIZE; omega)]
  dsimp only
  rw [hlen]
  unfold eventAt
  generalize (nhgets (whole.drop (offset + (ETHERHDRSIZE + 10) + 6))).toNat = event
  split <;> first | rfl | (split <;> rfl)

theorem linkdown_queue (ctl : Link) :
    (linkdown ctl).scan_results_queue = ctl.scan_results_queue := by
  unfold linkdown
  split <;> rfl

theorem callevhndlr_queue (ctl : Link) (e : EtherEvent) :
    (callevhndlr ctl e).scan_results_queue = ctl.scan_results_queue := by
  unfold callevhndlr
  split <;> rfl

theorem scanLength (n : Nat) : BitVec.ofInt 32 ((n : Int) - 48) = BitVec.ofNat 32 n - 48 := by
  apply BitVec.eq_of_toNat_eq
  rw [BitVec.toNat_ofInt, BitVec.toNat_sub, BitVec.toNat_ofNat]
  simp only [BitVec.reduceToNat]
  omega

/-- `bcmevent` hands on what the trace says. -/
theorem bcmevent_scan (ctl : Link) (whole : Packet) (offset : Nat)
    (h : offset + 70 ≤ whole.length) :
    (bcmevent ctl (whole.drop offset)).scan_results_queue =
      match (bcmeventTrace whole offset (whole.length - offset)).scan with
      | none => ctl.scan_results_queue
      | some (buffer, nLength) =>
        enqueue_nqueue ctl.scan_results_queue (whole.drop buffer) nLength := by
  have hlen : (whole.drop offset).length = whole.length - offset := List.length_drop
  have hp : (whole.drop offset).drop (ETHERHDRSIZE + 10) =
      whole.drop (offset + (ETHERHDRSIZE + 10)) := List.drop_drop
  have hlength : (whole.length : Int) - offset - 72 =
      ((whole.drop (offset + (ETHERHDRSIZE + 10))).length : Int) - 48 := by
    rw [List.length_drop]
    unfold ETHERHDRSIZE
    omega
  have hevent : (nhgets ((whole.drop (offset + (ETHERHDRSIZE + 10))).drop 6)).toNat =
      eventAt whole offset := by
    rw [List.drop_drop]
    rfl
  have hbuffer : (whole.drop (offset + (ETHERHDRSIZE + 10))).drop 48 =
      whole.drop (offset + 72) := List.drop_drop
  rw [bcmeventTrace_scan whole offset (by omega), hlength, scanLength]
  unfold bcmevent
  rw [if_neg (by unfold ETHERHDRSIZE; omega), hp]
  dsimp only
  rw [hevent, hbuffer]
  generalize eventAt whole offset = event
  split
  case h_8 => rfl
  all_goals simp_all [setSsidEvent, linkdown_queue, callevhndlr_queue]
  all_goals split <;> simp [linkdown_queue, callevhndlr_queue]

/-- The numbers and the address of an event stand in its first 54 bytes. All else that is
read is the event itself, or a scan result. -/
theorem bcmeventTrace_reads {offset : Nat} {len : Int} {r : Access}
    (hr : r ∈ (bcmeventTrace whole offset len).reads) :
    70 ≤ len ∧ (r.offset + r.count ≤ offset + 54 ∨ r = ⟨offset + 24, (len - 24).toNat⟩ ∨
      r ∈ enqueueReads (offset + 72) (BitVec.ofInt 32 (len - 72))) := by
  by_cases hshort : len < ETHERHDRSIZE + 10 + 46
  · unfold bcmeventTrace at hr
    rw [if_pos hshort] at hr
    cases hr
  · have hlen : len - (ETHERHDRSIZE + 10) - 48 = len - 72 := by
      unfold ETHERHDRSIZE
      omega
    have hrest : len - (ETHERHDRSIZE + 10) = len - 24 := by
      unfold ETHERHDRSIZE
      omega
    unfold bcmeventTrace at hr
    rw [if_neg hshort] at hr
    dsimp only at hr
    rw [hlen, hrest] at hr
    unfold ETHERHDRSIZE Eaddrlen at *
    refine ⟨by omega, ?_⟩
    generalize (nhgets (whole.drop (offset + (14 + 10) + 6))).toNat = event at hr
    generalize nhgetl (whole.drop (offset + (14 + 10) + 8)) = status at hr
    split at hr <;> grind

/-- A length that is not negative as an `int` is the same number unsigned. -/
theorem ofInt_toNat {len : Int} (h0 : 0 ≤ len) (h : len < 2 ^ 32) :
    (BitVec.ofInt 32 len).toNat = len.toNat := by
  rw [BitVec.toNat_ofInt, Int.emod_eq_of_lt h0 (by omega)]

theorem enqueueReads_inside {offset : Nat} {len : Int} {r : Access}
    (hr : r ∈ enqueueReads offset (BitVec.ofInt 32 len)) (hlow : -(2 ^ 31) ≤ len)
    (hlen : offset + len ≤ p.length) (hword : len < 2 ^ 31) : r.Inside p := by
  unfold enqueueReads at hr
  split at hr
  · cases hr
  · next hsize =>
    rw [List.mem_singleton] at hr
    rw [hr]
    obtain ⟨h0, hsmall⟩ := not_or.mp hsize
    have hpos : 0 ≤ len := by
      by_contra hneg
      rw [BitVec.toNat_ofInt] at hsmall
      unfold FRAME_BUFFER_SIZE at hsmall
      omega
    unfold Access.Inside
    dsimp only
    rw [ofInt_toNat hpos (by omega)]
    omega

theorem headerOk_bounds (h : headerOk p = true) : sizeofSdpcm ≤ lenOf p ∧ lenOf p ≤ 2048 := by
  simp only [headerOk, Bool.and_eq_true, decide_eq_true_eq] at h
  exact ⟨h.1.2, h.2⟩

/-- Every read of `rproc`, on any channel, lies in the packet. -/
theorem rproc_reads_inside (hok : headerOk p = true) (hlen : p.length = lenOf p) {r : Access}
    (hr : r ∈ (rprocTrace p).reads) : r.Inside p := by
  obtain ⟨hlow, hhigh⟩ := headerOk_bounds hok
  rw [← hlen] at hlow hhigh
  have hheader : ∀ r ∈ [(⟨9, 1⟩ : Access), ⟨8, 1⟩, ⟨5, 1⟩, ⟨7, 1⟩], r.Inside p := by
    unfold Access.Inside
    unfold sizeofSdpcm at hlow
    simp
    omega
  have hbdc : 4 ≤ bdcOf p := Nat.le_add_right _ _
  have hbyte : p.length > doffsetOf p + 4 → ∀ r ∈ [(⟨9, 1⟩ : Access), ⟨8, 1⟩, ⟨5, 1⟩, ⟨7, 1⟩] ++
      [⟨doffsetOf p + 3, 1⟩], r.Inside p := by
    intro hlong r hr
    rcases List.mem_append.mp hr with hr | hr
    · exact hheader r hr
    · rw [List.mem_singleton.mp hr]
      unfold Access.Inside
      dsimp only
      omega
  unfold rprocTrace at hr
  dsimp only at hr
  split at hr
  · split at hr
    · exact hheader r hr
    · next hlong =>
      rcases List.mem_append.mp hr with hr | hr
      · exact hheader r hr
      · rw [List.mem_singleton.mp hr]
        unfold Access.Inside sizeofSdpcm
        unfold sizeofSdpcm sizeofCmd at hlong
        dsimp only
        omega
  · split at hr
    · next hlong =>
      split at hr
      · next hstart =>
        rcases List.mem_append.mp hr with hr | hr
        · exact hbyte hlong r hr
        · obtain ⟨h70, hfirst | rfl | hscan⟩ := bcmeventTrace_reads hr
          · unfold Access.Inside
            omega
          · unfold Access.Inside
            dsimp only
            omega
          · exact enqueueReads_inside hscan (by omega) (by push_cast; omega) (by omega)
      · exact hbyte hlong r hr
    · exact hheader r hr
  · split at hr
    · next hlong =>
      split at hr
      · next hstart =>
        rcases List.mem_append.mp hr with hr | hr
        · rcases List.mem_append.mp hr with hr | hr
          · exact hbyte hlong r hr
          · rw [← BitVec.ofInt_natCast] at hr
            exact enqueueReads_inside hr (by omega) (by omega) (by omega)
        · rw [List.mem_singleton.mp hr]
          unfold Access.Inside
          dsimp only
          omega
      · exact hbyte hlong r hr
    · exact hheader r hr
  · rcases List.mem_append.mp hr with hr | hr
    · exact hheader r hr
    · rw [List.mem_singleton.mp hr]
      unfold Access.Inside
      dsimp only
      omega

/-- What is handed on as a scan result, where it starts and how long it is. -/
theorem rproc_scan (hchannel : chanflgOf p &&& 0xF = 1) :
    (rprocTrace p).scan =
      if doffsetOf p + bdcOf p + 70 ≤ p.length ∧ eventAt p (doffsetOf p + bdcOf p) = 69 then
        some (doffsetOf p + bdcOf p + 72,
          BitVec.ofInt 32 (p.length - (doffsetOf p + bdcOf p : Nat) - 72))
      else none := by
  have hbdc : 4 ≤ bdcOf p := Nat.le_add_right _ _
  have hone : (chanflgOf p &&& 0xF).toNat = 1 := by
    rw [hchannel]
    rfl
  unfold rprocTrace
  simp only [hone]
  by_cases h70 : doffsetOf p + bdcOf p + 70 ≤ p.length
  · rw [if_pos (by omega), if_pos (by omega)]
    dsimp only
    rw [bcmeventTrace_scan p _ (by omega)]
    simp only [h70, true_and]
  · have hnone : ¬ (doffsetOf p + bdcOf p + 70 ≤ p.length ∧
        eventAt p (doffsetOf p + bdcOf p) = 69) := fun hc => h70 hc.1
    rw [if_neg hnone]
    have hshort : (bcmeventTrace p (doffsetOf p + bdcOf p)
        (p.length - (doffsetOf p + bdcOf p : Nat))).scan = none := by
      unfold bcmeventTrace ETHERHDRSIZE
      rw [if_pos (by omega)]
    push_cast at hshort
    split
    · split
      · exact hshort
      · rfl
    · rfl

/-- Every access for an event lies in the packet, and the length of a scan result is not
larger than what is left of it, except for the two lengths of a short scan result. -/
theorem the_event_is_inside_iff (p : Packet) (hok : headerOk p = true) (hlen : p.length = lenOf p)
    (hchannel : chanflgOf p &&& 0xF = 1) : EventInside p ↔ ¬ ShortScanResult p := by
  have hhigh := (headerOk_bounds hok).2
  rw [← hlen] at hhigh
  have hscan := rproc_scan hchannel
  have hevent : eventAt p (doffsetOf p + bdcOf p) = 69 ↔
      nhgets (p.drop (doffsetOf p + bdcOf p + (ETHERHDRSIZE + 10) + 6)) = 69 := by
    unfold eventAt
    rw [← BitVec.toNat_inj]
    rfl
  unfold ShortScanResult
  dsimp only
  rw [← hevent]
  constructor
  · rintro hinside ⟨h69, hlow, hshort⟩
    have hlast := hinside.scan _ _ (hscan.trans (if_pos ⟨hlow, h69⟩))
    rw [BitVec.toNat_ofInt] at hlast
    omega
  · intro hnot
    refine ⟨fun r hr => rproc_reads_inside hok hlen hr, ?_⟩
    intro buffer nLength hsome
    rw [hscan] at hsome
    split at hsome
    · next hc =>
      obtain ⟨hbuffer, hlength⟩ := Prod.mk.inj (Option.some.inj hsome)
      have hlong : doffsetOf p + bdcOf p + 72 ≤ p.length := by
        by_contra hshort
        exact hnot ⟨hc.2, hc.1, by omega⟩
      rw [← hbuffer, ← hlength, ofInt_toNat (by omega) (by omega)]
      omega
    · cases hsome

/-- An event of channel 1 with `n` bytes behind the BDC header, whose number is 69. -/
def scanResultPacket (n : Nat) : Packet :=
  [BitVec.ofNat 8 (16 + n), 0, BitVec.ofNat 8 (0xFF - (16 + n)), 0xFF, 0, 1, 0, 12, 0, 0, 0, 0,
    0x20, 0, 0, 0] ++ (List.range n).map fun i => if i = 31 then 69 else 0

/-- With 72 bytes there is an empty scan result. -/
theorem an_empty_scan_result_is_inside : EventInside (scanResultPacket 72) :=
  (the_event_is_inside_iff (scanResultPacket 72) (by decide) (by decide) (by decide)).mpr
    (by decide)

/-- With 70 bytes, what is handed on is a length of 2^32 - 2 bytes, from behind the packet. -/
theorem a_short_scan_result_is_outside :
    headerOk (scanResultPacket 70) = true ∧
      (scanResultPacket 70).length = lenOf (scanResultPacket 70) ∧
      chanflgOf (scanResultPacket 70) &&& 0xF = 1 ∧
      (rprocTrace (scanResultPacket 70)).scan = some (88, 0xFFFFFFFE) ∧
      ¬ EventInside (scanResultPacket 70) := by
  have hscan : (rprocTrace (scanResultPacket 70)).scan = some (88, 0xFFFFFFFE) := by decide
  refine ⟨by decide, by decide, by decide, hscan, ?_⟩
  intro h
  have hlast := h.scan _ _ hscan
  revert hlast
  decide

/-! ## Replies -/

/-- Where `rproc` finds the header whose id it compares: `b->rp + sizeof(*p)`. -/
def rprocHeader (_ : Packet) : Nat := sizeofSdpcm

/-- Where `wlcmd` finds the header whose status it tests: `b->rp + p->doffset`. -/
def wlcmdHeader (p : Packet) : Nat := doffsetOf p

/-- The bytes that `wlcmd` copies to `res`: from `q + 1` on, when the command reads. -/
def wlcmdCopies (write : Bool) (rlen : Nat) (p : Packet) : List Nat :=
  if write then [] else (List.range rlen).map fun i => wlcmdHeader p + sizeofCmd + i

/-- The header is the one that was matched, and the copied bytes are bytes of the packet. -/
structure ReplyInside (write : Bool) (rlen : Nat) (p : Packet) : Prop where
  header : wlcmdHeader p = rprocHeader p
  copies : ∀ i ∈ wlcmdCopies write rlen p, i < p.length

/-- The id that is compared stands in the header that `rproc` finds. -/
theorem idOf_header (p : Packet) :
    idOf p = (byteAt p (rprocHeader p + 10), byteAt p (rprocHeader p + 11)) := rfl

theorem reply_length {reqid : BitVec 16} (h : deliver p reqid = .reply) :
    sizeofSdpcm + sizeofCmd ≤ p.length := by
  unfold deliver at h
  split at h
  · split at h
    · cases h
    · next hlong => exact Nat.le_of_not_lt hlong
  · split at h <;> cases h
  · split at h <;> cases h
  · cases h

/-- A reply that `rproc` stores is read where it was matched, and within its bounds, exactly
when its data offset is 12 and the command does not ask for more than there is. -/
theorem the_reply_is_inside_iff (p : Packet) (reqid : BitVec 16) (write : Bool) (rlen : Nat)
    (hreply : deliver p reqid = .reply) :
    ReplyInside write rlen p ↔
      doffsetOf p = sizeofSdpcm ∧ (write = true ∨ sizeofSdpcm + sizeofCmd + rlen ≤ p.length) := by
  have hlong := reply_length hreply
  constructor
  · rintro ⟨hheader, hcopies⟩
    have hoffset : doffsetOf p = sizeofSdpcm := hheader
    refine ⟨hoffset, ?_⟩
    cases write with
    | true => exact .inl rfl
    | false =>
      right
      rcases Nat.eq_zero_or_pos rlen with h0 | hpos
      · omega
      · -- The last byte that is copied decides.
        have hlast := hcopies (doffsetOf p + sizeofCmd + (rlen - 1))
          (List.mem_map.mpr ⟨rlen - 1, List.mem_range.mpr (by omega), rfl⟩)
        omega
  · rintro ⟨hoffset, hcopy⟩
    refine ⟨hoffset, ?_⟩
    intro i hi
    unfold wlcmdCopies wlcmdHeader at hi
    split at hi
    · cases hi
    · next hread =>
      obtain ⟨k, hk, rfl⟩ := List.mem_map.mp hi
      have hsize := hcopy.resolve_left hread
      rw [List.mem_range] at hk
      omega

/-- A reply of channel 0 to the command with the id 1, with `n` bytes behind the two headers. -/
def replyPacket (doffset : Byte) (n : Nat) : Packet :=
  [BitVec.ofNat 8 (28 + n), 0, BitVec.ofNat 8 (0xFF - (28 + n)), 0xFF, 0, 0, 0, doffset, 0, 0, 0,
    0] ++ put4 262 ++ put4 0 ++ put2 0 ++ put2 1 ++ put4 0 ++ List.replicate n 7

/-- The answer to a read of six bytes. -/
theorem a_reply_of_six_bytes_is_inside : ReplyInside false 6 (replyPacket 12 6) :=
  (the_reply_is_inside_iff (replyPacket 12 6) 1 false 6 (by decide)).mpr (by decide)

/-- An answer without data is copied from behind the packet, and one with a data offset of
16 is matched at one place and read at another. -/
theorem a_reply_is_read_outside :
    deliver (replyPacket 12 0) 1 = .reply ∧ ¬ ReplyInside false 6 (replyPacket 12 0) ∧
      deliver (replyPacket 16 10) 1 = .reply ∧ ¬ ReplyInside false 6 (replyPacket 16 10) := by
  refine ⟨by decide, ?_, by decide, ?_⟩
  · intro h
    have hlast := h.copies 33 (by decide)
    revert hlast
    decide
  · intro h
    have hheader := h.header
    revert hheader
    decide

end rpi_wifi.ether4330
