-- What the calls of `emmcio` get from the DMA channel: a transfer that is reported as done
-- was done, exactly once and as it was asked for, whatever the engine, the interrupts and
-- other code do between the accesses.
import RpiWifi.Dma

namespace rpi_wifi.dma

open runs memory

variable {p : Word} {c t : Channel} {r : Request}

/-! ## Addresses -/

theorem and_not_31 (x : Word) : x &&& ~~~31#32 = x >>> 5 <<< 5 := by
  have hbits : ∀ i : Fin 32, (~~~31#32).getLsbD i = decide (5 ≤ i.val) := by decide
  apply BitVec.eq_of_getLsbD_eq
  intro i hi
  rw [BitVec.getLsbD_and, hbits ⟨i, hi⟩, BitVec.getLsbD_shiftLeft, BitVec.getLsbD_ushiftRight]
  by_cases h : 5 ≤ i
  · simp [h, hi, Nat.not_lt.mpr h]
  · simp [h, Nat.lt_of_not_le h]

/-- The control block begins at a multiple of 32 and lies in the allocation, behind its
first byte. -/
theorem blockAddress_inside (h : p.toNat + 2 * CB_ALIGN ≤ 0x3F000000) :
    (blockAddress p).toNat % CB_ALIGN = 0 ∧ p.toNat < (blockAddress p).toNat ∧
      (blockAddress p).toNat + CB_ALIGN ≤ p.toNat + 2 * CB_ALIGN := by
  have hnat : (blockAddress p).toNat = (p.toNat + 32) / 32 * 32 := by
    have hmask : ~~~(BitVec.ofNat 32 CB_ALIGN - 1) = ~~~31#32 := by decide
    have hsum : (p + BitVec.ofNat 32 CB_ALIGN).toNat = p.toNat + 32 := by
      rw [BitVec.toNat_add, CB_ALIGN, BitVec.toNat_ofNat]
      unfold CB_ALIGN at h
      omega
    rw [blockAddress, hmask, and_not_31, BitVec.toNat_shiftLeft, BitVec.toNat_ushiftRight, hsum,
      Nat.shiftLeft_eq, Nat.shiftRight_eq_div_pow]
    unfold CB_ALIGN at h
    omega
  unfold CB_ALIGN at h ⊢
  omega

/-- A bus address of the memory means the address that it was made of. -/
theorem physical_memory {x : Word} (h : inMemory x) : physical (PMEM_TO_DMA x) = some x.toNat := by
  have hnat : (PMEM_TO_DMA x).toNat = x.toNat + 0xC0000000 := by
    unfold inMemory at h
    have hshift : (0xC0000000 : Word).toNat = 3 <<< 30 := by decide
    rw [PMEM_TO_DMA, BitVec.toNat_or, hshift, Nat.or_comm,
      ← Nat.shiftLeft_add_eq_or_of_lt (show x.toNat < 2 ^ 30 by omega), Nat.shiftLeft_eq]
    omega
  unfold inMemory at h
  unfold physical
  rw [hnat, if_neg (by omega), if_pos (by omega), Nat.add_sub_cancel]

/-- A bus address of a peripheral means the register that it was made of. -/
theorem physical_peripheral {x : Word} (h : inPeripherals x) :
    physical (PIO_TO_DMA x) = some x.toNat := by
  obtain ⟨hlow, hhigh⟩ := h
  have hnat : (PIO_TO_DMA x).toNat = x.toNat - 0x3F000000 + 0x7E000000 := by
    unfold PIO_TO_DMA
    bv_omega
  have hback : x.toNat - 0x3F000000 + 0x7E000000 - 0x7E000000 + 0x3F000000 = x.toNat := by omega
  unfold physical
  rw [hnat, if_pos (by omega), hback]

/-- The bits for a direction. -/
def transferInfo : DMA_DIR → Word
  | .DEV_TO_MEM => BCM2835_DMA_S_DREQ ||| BCM2835_DMA_D_INC
  | .MEM_TO_DEV => BCM2835_DMA_D_DREQ ||| BCM2835_DMA_S_INC
  | .MEM_TO_MEM => BCM2835_DMA_S_INC ||| BCM2835_DMA_D_INC

theorem controlBlock_info (r : Request) : (controlBlock r).info =
    transferInfo r.dir ||| r.dev <<< PERMAP_SHIFT ||| BCM2835_DMA_INT_EN := by
  obtain ⟨dev, dir, src, dst, len⟩ := r
  cases dir with
  | DEV_TO_MEM | MEM_TO_DEV | MEM_TO_MEM => rfl

theorem info_bits (r : Request) (i : Nat) : (controlBlock r).info.getLsbD i =
    ((transferInfo r.dir).getLsbD i ||
      (decide (16 ≤ i) && decide (i < 32) && r.dev.getLsbD (i - 16)) || decide (i = 0)) := by
  have hone : BCM2835_DMA_INT_EN.getLsbD i = decide (i = 0) := by
    have htwo : BCM2835_DMA_INT_EN = BitVec.twoPow 32 0 := by decide
    rw [htwo, BitVec.getLsbD_twoPow]
    by_cases hi : i = 0
    · simp [hi]
    · simp [hi, eq_comm]
  rw [controlBlock_info, BitVec.getLsbD_or, BitVec.getLsbD_or, BitVec.getLsbD_shiftLeft, hone,
    PERMAP_SHIFT]
  by_cases hi : 16 ≤ i
  · simp [hi, Nat.not_lt.mpr hi]
  · simp [hi, Nat.lt_of_not_le hi]

theorem transferInfo_high (dir : DMA_DIR) {i : Nat} (hi : 16 ≤ i) :
    (transferInfo dir).getLsbD i = false := by
  have hsmall : (transferInfo dir).toNat < 2 ^ 16 := by cases dir <;> decide
  exact Nat.testBit_lt_two_pow (hsmall.trans_le (Nat.pow_le_pow_right (by decide) hi))

theorem device_field (h : r.dev.toNat < 32) :
    ((controlBlock r).info >>> 16 &&& 0x1F).toNat = r.dev.toNat := by
  have hmask : ∀ i : Fin 32, (0x1F : Word).getLsbD i = decide (i.val < 5) := by decide
  have hfield : (controlBlock r).info >>> 16 &&& 0x1F = r.dev &&& 0x1F := by
    apply BitVec.eq_of_getLsbD_eq
    intro i hi
    rw [BitVec.getLsbD_and, BitVec.getLsbD_and, BitVec.getLsbD_ushiftRight, info_bits,
      transferInfo_high r.dir (by omega), Nat.add_sub_cancel_left, hmask ⟨i, hi⟩]
    by_cases hsmall : i < 5
    · simp [show 16 + i < 32 by omega]
    · simp [hsmall]
  rw [hfield, BitVec.toNat_and]
  exact (Nat.and_two_pow_sub_one_eq_mod r.dev.toNat 5).trans (Nat.mod_eq_of_lt h)

theorem physical_src (h : r.Valid) : physical (controlBlock r).src = some r.src.toNat := by
  obtain ⟨dev, dir, src, dst, len⟩ := r
  cases dir with
  | DEV_TO_MEM => exact physical_peripheral h.src
  | MEM_TO_DEV | MEM_TO_MEM => exact physical_memory h.src

theorem physical_dst (h : r.Valid) : physical (controlBlock r).dst = some r.dst.toNat := by
  obtain ⟨dev, dir, src, dst, len⟩ := r
  cases dir with
  | MEM_TO_DEV => exact physical_peripheral h.dst
  | DEV_TO_MEM | MEM_TO_MEM => exact physical_memory h.dst

/-- The engine makes of the control block what was asked for. -/
theorem controlBlock_move (h : r.Valid) : (controlBlock r).move = some r.move := by
  have hlength : (controlBlock r).length = r.len := by
    unfold controlBlock
    cases r.dir with
    | DEV_TO_MEM | MEM_TO_DEV | MEM_TO_MEM => rfl
  have hdir : ∀ dir : DMA_DIR, (transferInfo dir).getLsbD 8 = decide (dir ≠ .DEV_TO_MEM) ∧
      (transferInfo dir).getLsbD 10 = decide (dir = .DEV_TO_MEM) ∧
      (transferInfo dir).getLsbD 4 = decide (dir ≠ .MEM_TO_DEV) ∧
      (transferInfo dir).getLsbD 6 = decide (dir = .MEM_TO_DEV) := by
    intro dir
    cases dir <;> decide
  have hlow : ∀ i, 0 < i → i < 16 →
      (controlBlock r).info.getLsbD i = (transferInfo r.dir).getLsbD i := by
    intro i hpos hlt
    rw [info_bits]
    simp [Nat.not_le.mpr hlt, hpos.ne']
  obtain ⟨h8, h10, h4, h6⟩ := hdir r.dir
  unfold bcm2835_dma_cb.move Request.move
  rw [physical_src h, physical_dst h, device_field h.dev, hlength, hlow 8 (by decide) (by decide),
    hlow 10 (by decide) (by decide), hlow 4 (by decide) (by decide), hlow 6 (by decide) (by decide),
    h8, h10, h4, h6]
  rfl

/-! ## The memory of the control block -/

/-- The first `n` words of the control block are in the memory. -/
def Filled (m : Mem) (a : Nat) (r : Request) (n : Nat) : Prop :=
  ∀ i < n, ∀ w, (controlBlock r).words[i]? = some w → read32 m (a + 4 * i) = w.toNat

theorem Filled.write {m : Mem} {a n : Nat} {w : Word} (h : Filled m a r n)
    (hw : (controlBlock r).words[n]? = some w) :
    Filled (write32 m (a + 4 * n) w.toNat) a r (n + 1) := by
  intro i hi v hv
  by_cases hlast : i = n
  · subst hlast
    obtain rfl : w = v := Option.some.inj (hw.symm.trans hv)
    exact read32_write32 w.isLt
  · rw [read32_write32_of_apart (by omega)]
    exact h i (by omega) v hv

/-- Other code writes elsewhere. -/
theorem Filled.store {m : Mem} {a n b : Nat} {v : BitVec 8} (h : Filled m a r n)
    (hn : n ≤ 6) (hb : b < a ∨ a + 24 ≤ b) : Filled (Function.update m b v) a r n := by
  intro i hi w hw
  rw [read32_update (by omega)]
  exact h i hi w hw

theorem loadBlock_filled {m : Mem} {a : Nat} (h : Filled m a r 6) :
    loadBlock m a = controlBlock r := by
  have hword : ∀ i (hi : i < 6) w, (controlBlock r).words[i]? = some w →
      BitVec.ofNat 32 (read32 m (a + 4 * i)) = w := by
    intro i hi w hw
    rw [h i hi w hw, BitVec.ofNat_toNat, BitVec.setWidth_eq]
  have h0 := hword 0 (by decide) _ rfl
  have h1 := hword 1 (by decide) _ rfl
  have h2 := hword 2 (by decide) _ rfl
  have h3 := hword 3 (by decide) _ rfl
  have h4 := hword 4 (by decide) _ rfl
  have h5 := hword 5 (by decide) _ rfl
  rw [Nat.mul_zero, Nat.add_zero] at h0
  unfold loadBlock
  rw [h0, h1, h2, h3, h4, h5]

/-! ## Where a call is -/

/-- What the calls were told, against the transfers that were done: one that was told 0 was
done once, and one that was told -1 once or not at all. No call is refused. -/
inductive Told : List (Request × Int × Int) → List (Option Move) → Prop
  | nil : Told [] []
  | success {calls : List (Request × Int × Int)} {done : List (Option Move)} (r : Request) :
      Told calls done → Told (calls ++ [(r, 0, 0)]) (done ++ [some r.move])
  | late {calls : List (Request × Int × Int)} {done : List (Option Move)} (r : Request) :
      Told calls done → Told (calls ++ [(r, 0, -1)]) (done ++ [some r.move])
  | lost {calls : List (Request × Int × Int)} {done : List (Option Move)} (r : Request) :
      Told calls done → Told (calls ++ [(r, 0, -1)]) done

/-- The engine has nothing to do. -/
structure Still (c : Channel) : Prop where
  engine : c.engine = .idle
  active : c.active = false

/-- The channel has its handler and the memory of its control block, and no interrupt waits
to be handled. -/
structure Ready (p : Word) (c : Channel) : Prop where
  still : Still c
  cb : c.cb = some (blockAddress p)
  registered : c.registered = true
  int : c.int = false

/-- A transfer that was started: its control block is loaded, it runs, or it is done. -/
inductive Working (p : Word) (c : Channel) (r : Request) : Prop
  | loading (hengine : c.engine = .loading) (hactive : c.active = true) (hint : c.int = false)
      (hfilled : Filled c.mem (blockAddress p).toNat r 6)
      (hCONBLK : c.CONBLK_AD = PMEM_TO_DMA (blockAddress p)) (htold : Told c.calls c.done)
  | running (hengine : c.engine = .running (controlBlock r)) (hactive : c.active = true)
      (hint : c.int = false) (htold : Told c.calls c.done)
  | finished {done : List (Option Move)} (hstill : Still c) (hdone : c.done = done ++ [some r.move])
      (htold : Told c.calls done)

inductive Phase (p : Word) (c : Channel) : Prop
  | unused (hplace : c.place = .outside ∨ ∃ r, r.Valid ∧ c.place = .test r)
      (hstatus : c.channel_status = .DMA_NEED_INIT) (hregistered : c.registered = false)
      (hstill : Still c) (htold : Told c.calls c.done)
  | reset {r : Request} (hvalid : r.Valid) (hplace : c.place = .reset r)
      (hregistered : c.registered = false) (hstill : Still c) (htold : Told c.calls c.done)
  | allocate {r : Request} (hvalid : r.Valid) (hplace : c.place = .allocate r)
      (hregistered : c.registered = false) (hstill : Still c) (hint : c.int = false)
      (htold : Told c.calls c.done)
  | resting (hplace : c.place = .outside ∨ ∃ r, r.Valid ∧ c.place = .test r)
      (hstatus : c.channel_status = .DMA_END) (hready : Ready p c) (htold : Told c.calls c.done)
  | filling {r : Request} {i : Nat} (hvalid : r.Valid) (hplace : c.place = .fill r i) (hi : i ≤ 6)
      (hready : Ready p c) (hfilled : Filled c.mem (blockAddress p).toNat r i)
      (htold : Told c.calls c.done)
  | preparing {r : Request} (hvalid : r.Valid) (hplace : c.place = .stop r ∨ c.place = .address r ∨
        ((c.place = .acknowledge r ∨ c.place = .go r) ∧ c.CONBLK_AD = PMEM_TO_DMA (blockAddress p)))
      (hready : Ready p c) (hfilled : Filled c.mem (blockAddress p).toNat r 6)
      (htold : Told c.calls c.done)
  | started {r : Request} (hvalid : r.Valid) (hplace : c.place = .ended r 0 ∨
        c.channel_status = .DMA_END ∧ (c.place = .read r 0 ∨ ∃ CS, c.place = .finish r 0 CS ∧
          (CS &&& (BCM2835_DMA_ACTIVE ||| BCM2835_DMA_END ||| BCM2835_DMA_INT) = BCM2835_DMA_END →
            c.active = false)))
      (hcb : c.cb = some (blockAddress p)) (hregistered : c.registered = true)
      (hwork : Working p c r)

/-! ## The writes to the register -/

theorem writeCS_reset (c : Channel) : c.writeCS BCM2835_DMA_RESET =
    { c with active := false, ended := false, int := false, engine := .idle } :=
  if_pos (by decide)

/-- A write without the bits of the reset and of the start stops the channel. -/
theorem writeCS_stop (c : Channel) {v : Word} (hreset : v.getLsbD 31 = false)
    (hstart : v.getLsbD 0 = false) : c.writeCS v = { c with
      active := false
      ended := c.ended && !v.getLsbD 1
      int := c.int && !v.getLsbD 2 } := by
  unfold Channel.writeCS
  simp only [hreset, hstart, Bool.false_eq_true, false_and, if_false]

theorem writeCS_start (h : Still c) : c.writeCS BCM2835_DMA_ACTIVE =
    { c with active := true, engine := .loading } := by
  obtain ⟨hreset, hstart, hend, hint⟩ : BCM2835_DMA_ACTIVE.getLsbD 31 = false ∧
      BCM2835_DMA_ACTIVE.getLsbD 0 = true ∧ BCM2835_DMA_ACTIVE.getLsbD 1 = false ∧
        BCM2835_DMA_ACTIVE.getLsbD 2 = false := by
    decide
  unfold Channel.writeCS
  simp only [hreset, hstart, hend, hint, h.engine, Bool.false_eq_true, if_false, and_self, if_true,
    Bool.not_false, Bool.and_true]

/-! ## The steps of the engine, of the interrupt and of other code -/

/-- A step that leaves the place alone. -/
theorem Phase.load (h : Phase p c) (hp : p.toNat + 2 * CB_ALIGN ≤ 0x3F000000)
    (hs : c.step p .load = some t) : Phase p t := by
  obtain ⟨⟨hactive, hengine⟩, heq⟩ := Option.ite_none_right_eq_some.mp hs
  obtain ⟨a, ha, rfl⟩ := Option.map_eq_some_iff.mp heq
  have hstopped : ∀ {d : Channel}, Still d → d = c → False := by
    rintro d hstill rfl
    rw [hstill.active] at hactive
    cases hactive
  cases h with
  | unused _ _ _ hstill | reset _ _ _ hstill | allocate _ _ _ hstill =>
    exact (hstopped hstill rfl).elim
  | resting _ _ hready | filling _ _ _ hready | preparing _ _ hready =>
    exact (hstopped hready.still rfl).elim
  | started hvalid hplace hcb hregistered hwork =>
    refine .started hvalid hplace hcb hregistered ?_
    cases hwork with
    | loading _ _ hint hfilled hCONBLK htold =>
      have hhome := blockAddress_inside hp
      have hin : inMemory (blockAddress p) := by
        unfold inMemory
        unfold CB_ALIGN at hhome hp
        omega
      rw [hCONBLK, physical_memory hin] at ha
      cases ha
      exact .running (congrArg Engine.running (loadBlock_filled hfilled)) hactive hint htold
    | running hrunning =>
      rw [hrunning] at hengine
      cases hengine
    | finished hstill => exact (hstopped hstill rfl).elim

theorem Phase.complete (h : Phase p c) (hs : c.step p .complete = some t) : Phase p t := by
  unfold Channel.step at hs
  dsimp only at hs
  split at hs
  · next b hactive hengine =>
    cases hs
    have hstopped : Still c → False := by
      intro hstill
      rw [hstill.active] at hactive
      cases hactive
    cases h with
    | unused _ _ _ hstill | reset _ _ _ hstill | allocate _ _ _ hstill =>
      exact (hstopped hstill).elim
    | resting _ _ hready | filling _ _ _ hready | preparing _ _ hready =>
      exact (hstopped hready.still).elim
    | @started r hvalid hplace hcb hregistered hwork =>
      cases hwork with
      | loading hloading =>
        rw [hloading] at hengine
        cases hengine
      | running hrunning _ _ htold =>
        rw [hrunning] at hengine
        cases hengine
        refine .started hvalid ?_ hcb hregistered (.finished ⟨rfl, rfl⟩ ?_ htold)
        · refine hplace.imp_right fun hrest => ⟨hrest.1, hrest.2.imp_right ?_⟩
          rintro ⟨CS, hfinish, -⟩
          exact ⟨CS, hfinish, fun _ => rfl⟩
        · rw [controlBlock_move hvalid]
      | finished hstill => exact (hstopped hstill).elim
  · cases hs

/-- The handler clears its interrupt, and leaves an engine that is not active alone. -/
theorem Phase.irq (h : Phase p c) (hs : c.step p .dma_irq_clearer = some t) : Phase p t := by
  obtain ⟨⟨hint, hregistered⟩, heq⟩ := Option.ite_none_right_eq_some.mp hs
  rw [writeCS_stop c (by decide) (by decide)] at heq
  cases heq
  have hquiet : Ready p c → False := by
    intro hready
    rw [hready.int] at hint
    cases hint
  have hnot : c.registered = false → False := by
    intro hfalse
    rw [hfalse] at hregistered
    cases hregistered
  cases h with
  | unused _ _ hno | reset _ _ hno | allocate _ _ hno => exact (hnot hno).elim
  | resting _ _ hready | filling _ _ _ hready | preparing _ _ hready => exact (hquiet hready).elim
  | started hvalid hplace hcb hregistered hwork =>
    cases hwork with
    | loading _ _ hno | running _ _ hno =>
      rw [hno] at hint
      cases hint
    | finished hstill hdone htold =>
      refine .started hvalid ?_ hcb hregistered (.finished ⟨hstill.engine, rfl⟩ hdone htold)
      refine hplace.imp_right fun hrest => ⟨rfl, hrest.2.imp_right ?_⟩
      rintro ⟨CS, hfinish, -⟩
      exact ⟨CS, hfinish, fun _ => rfl⟩

theorem Phase.store (h : Phase p c) (hp : p.toNat + 2 * CB_ALIGN ≤ 0x3F000000) {a : Nat}
    {v : BitVec 8} (hs : c.step p (.store a v) = some t) : Phase p t := by
  obtain ⟨hout, heq⟩ := Option.ite_none_left_eq_some.mp hs
  cases heq
  have hhome := blockAddress_inside hp
  have hfree : c.registered = true →
      a < (blockAddress p).toNat ∨ (blockAddress p).toNat + 24 ≤ a := by
    intro hregistered
    have hapart : ¬ (p.toNat ≤ a ∧ a < p.toNat + 2 * CB_ALIGN) := fun hin =>
      hout ⟨hregistered, hin⟩
    unfold CB_ALIGN at hhome hapart
    omega
  cases h with
  | unused hplace hstatus hregistered hstill htold =>
    exact .unused hplace hstatus hregistered ⟨hstill.engine, hstill.active⟩ htold
  | reset hvalid hplace hregistered hstill htold =>
    exact .reset hvalid hplace hregistered ⟨hstill.engine, hstill.active⟩ htold
  | allocate hvalid hplace hregistered hstill hint htold =>
    exact .allocate hvalid hplace hregistered ⟨hstill.engine, hstill.active⟩ hint htold
  | resting hplace hstatus hready htold =>
    exact .resting hplace hstatus ⟨⟨hready.still.engine, hready.still.active⟩, hready.cb,
      hready.registered, hready.int⟩ htold
  | filling hvalid hplace hi hready hfilled htold =>
    exact .filling hvalid hplace hi ⟨⟨hready.still.engine, hready.still.active⟩, hready.cb,
      hready.registered, hready.int⟩ (hfilled.store hi (hfree hready.registered)) htold
  | preparing hvalid hplace hready hfilled htold =>
    exact .preparing hvalid hplace ⟨⟨hready.still.engine, hready.still.active⟩, hready.cb,
      hready.registered, hready.int⟩ (hfilled.store le_rfl (hfree hready.registered)) htold
  | started hvalid hplace hcb hregistered hwork =>
    refine .started hvalid hplace hcb hregistered ?_
    cases hwork with
    | loading hengine hactive hint hfilled hCONBLK htold =>
      exact .loading hengine hactive hint (hfilled.store le_rfl (hfree hregistered)) hCONBLK htold
    | running hengine hactive hint htold => exact .running hengine hactive hint htold
    | finished hstill hdone htold =>
      exact .finished ⟨hstill.engine, hstill.active⟩ hdone htold

theorem Phase.call (h : Phase p c) (hvalid : r.Valid) (hplace : c.place = .outside) :
    Phase p { c with place := .test r } := by
  have hnot : ∀ place, c.place = place → place ≠ .outside → False := by
    rintro place hp hne
    exact hne (hp.symm.trans hplace)
  cases h with
  | unused _ hstatus hregistered hstill htold =>
    exact .unused (.inr ⟨r, hvalid, rfl⟩) hstatus hregistered ⟨hstill.engine, hstill.active⟩ htold
  | resting _ hstatus hready htold =>
    exact .resting (.inr ⟨r, hvalid, rfl⟩) hstatus ⟨⟨hready.still.engine, hready.still.active⟩,
      hready.cb, hready.registered, hready.int⟩ htold
  | reset _ hother | allocate _ hother | filling _ hother =>
    exact (hnot _ hother nofun).elim
  | preparing _ hother =>
    rcases hother with hother | hother | ⟨hother | hother, -⟩
    all_goals exact (hnot _ hother nofun).elim
  | started _ hother =>
    rcases hother with hother | ⟨-, hother | ⟨CS, hother, -⟩⟩
    all_goals exact (hnot _ hother nofun).elim

/-! ## The steps of the driver -/

/-- The word that is read tells a transfer that is done, with its interrupt handled. -/
theorem CS_ended (h : c.CS &&& (BCM2835_DMA_ACTIVE ||| BCM2835_DMA_END ||| BCM2835_DMA_INT) =
    BCM2835_DMA_END) : c.active = false ∧ c.ended = true ∧ c.int = false := by
  unfold Channel.CS at h
  revert h
  cases c.active <;> cases c.ended <;> cases c.int <;> decide

/-- The transfer does not depend on the driver. -/
theorem Working.of_eq (h : Working p c r) (hengine : t.engine = c.engine)
    (hactive : t.active = c.active) (hint : t.int = c.int) (hCONBLK : t.CONBLK_AD = c.CONBLK_AD)
    (hmem : t.mem = c.mem) (hcalls : t.calls = c.calls) (hdone : t.done = c.done) :
    Working p t r := by
  cases h with
  | loading he ha hi hf hc ht =>
    exact .loading (hengine.trans he) (hactive.trans ha) (hint.trans hi) (hmem ▸ hf)
      (hCONBLK.trans hc) (hcalls ▸ hdone ▸ ht)
  | running he ha hi ht =>
    exact .running (hengine.trans he) (hactive.trans ha) (hint.trans hi) (hcalls ▸ hdone ▸ ht)
  | finished hs hd ht =>
    exact .finished ⟨hengine.trans hs.engine, hactive.trans hs.active⟩ (hdone.trans hd) (hcalls ▸ ht)

/-- A call that is told -1 had its transfer done, or has it no more. -/
theorem Working.reset_told (h : Working p c r) : Told (c.calls ++ [(r, 0, -1)]) c.done := by
  cases h with
  | loading _ _ _ _ _ htold | running _ _ _ htold => exact htold.lost r
  | finished _ hdone htold =>
    rw [hdone]
    exact htold.late r

theorem Phase.driver (h : Phase p c) (hs : c.step p .driver = some t) : Phase p t := by
  change c.driver p = some t at hs
  unfold Channel.driver at hs
  cases h with
  | unused hplace hstatus hregistered hstill htold =>
    rcases hplace with hplace | ⟨r, hvalid, hplace⟩
    · rw [hplace] at hs
      cases hs
    · simp only [hplace, hstatus] at hs
      cases hs
      exact .reset hvalid rfl hregistered ⟨hstill.engine, hstill.active⟩ htold
  | reset hvalid hplace hregistered hstill htold =>
    rw [hplace] at hs
    dsimp only at hs
    rw [writeCS_reset] at hs
    cases hs
    exact .allocate hvalid rfl hregistered ⟨rfl, rfl⟩ rfl htold
  | allocate hvalid hplace hregistered hstill hint htold =>
    rw [hplace] at hs
    cases hs
    exact .filling hvalid rfl (Nat.zero_le 6) ⟨⟨hstill.engine, hstill.active⟩, rfl, rfl, hint⟩
      (fun i hi => absurd hi (Nat.not_lt_zero i)) htold
  | resting hplace hstatus hready htold =>
    rcases hplace with hplace | ⟨r, hvalid, hplace⟩
    · rw [hplace] at hs
      cases hs
    · simp only [hplace, hstatus] at hs
      cases hs
      exact .filling hvalid rfl (Nat.zero_le 6) ⟨⟨hready.still.engine, hready.still.active⟩,
        hready.cb, hready.registered, hready.int⟩ (fun i hi => absurd hi (Nat.not_lt_zero i)) htold
  | @filling r i hvalid hplace hi hready hfilled htold =>
    simp only [hplace, hready.cb, Option.map_some, Option.some.injEq] at hs
    split at hs
    · next w hw =>
      have hlt : i < 6 := by
        by_contra hge
        obtain rfl : i = 6 := by omega
        cases hw
      cases hs
      exact .filling hvalid rfl hlt ⟨⟨hready.still.engine, hready.still.active⟩, rfl,
        hready.registered, hready.int⟩ (hfilled.write hw) htold
    · next hnone =>
      have hall : i = 6 := by
        have hlen : (controlBlock r).words.length ≤ i := List.getElem?_eq_none_iff.mp hnone
        have hsix : (controlBlock r).words.length = 6 := rfl
        omega
      subst hall
      cases hs
      exact .preparing hvalid (.inl rfl) ⟨⟨hready.still.engine, hready.still.active⟩, rfl,
        hready.registered, hready.int⟩ hfilled htold
  | preparing hvalid hplace hready hfilled htold =>
    rcases hplace with hplace | hplace | ⟨hplace | hplace, hCONBLK⟩
    · rw [hplace] at hs
      dsimp only at hs
      rw [writeCS_stop c (by decide) (by decide)] at hs
      cases hs
      refine .preparing hvalid (.inr (.inl rfl)) ⟨⟨hready.still.engine, rfl⟩, hready.cb,
        hready.registered, ?_⟩ hfilled htold
      simp [hready.int]
    · simp only [hplace, hready.cb, Option.map_some, Option.some.injEq] at hs
      cases hs
      exact .preparing hvalid (.inr (.inr ⟨.inl rfl, rfl⟩)) ⟨⟨hready.still.engine,
        hready.still.active⟩, rfl, hready.registered, hready.int⟩ hfilled htold
    · rw [hplace] at hs
      dsimp only at hs
      rw [writeCS_stop c (by decide) (by decide)] at hs
      cases hs
      refine .preparing hvalid (.inr (.inr ⟨.inr rfl, hCONBLK⟩)) ⟨⟨hready.still.engine, rfl⟩,
        hready.cb, hready.registered, ?_⟩ hfilled htold
      simp [hready.int]
    · rw [hplace] at hs
      dsimp only at hs
      rw [writeCS_start hready.still] at hs
      cases hs
      exact .started hvalid (.inl rfl) hready.cb hready.registered
        (.loading rfl rfl hready.int hfilled hCONBLK htold)
  | @started r hvalid hplace hcb hregistered hwork =>
    rcases hplace with hplace | ⟨hstatus, hplace | ⟨CS, hplace, hCS⟩⟩
    · rw [hplace] at hs
      cases hs
      exact .started hvalid (.inr ⟨rfl, .inl rfl⟩) hcb hregistered (hwork.of_eq rfl rfl rfl rfl rfl
        rfl rfl)
    · rw [hplace] at hs
      cases hs
      exact .started hvalid (.inr ⟨hstatus, .inr ⟨c.CS, rfl, fun hend => (CS_ended hend).1⟩⟩) hcb
        hregistered (hwork.of_eq rfl rfl rfl rfl rfl rfl rfl)
    · rw [hplace] at hs
      dsimp only at hs
      split at hs
      · -- The channel is reset, whatever the engine was doing.
        rw [writeCS_reset] at hs
        cases hs
        exact .resting (.inl rfl) hstatus ⟨⟨rfl, rfl⟩, hcb, hregistered, rfl⟩ hwork.reset_told
      · next hend =>
        rw [writeCS_stop c (by decide) (by decide)] at hs
        cases hs
        cases hwork with
        | loading _ hactive | running _ hactive =>
          rw [hCS (not_not.mp hend)] at hactive
          cases hactive
        | finished hstill hdone htold =>
          have hclear : (BCM2835_DMA_END ||| BCM2835_DMA_INT).getLsbD 2 = true := by decide
          refine .resting (.inl rfl) hstatus ⟨⟨hstill.engine, rfl⟩, hcb, hregistered, ?_⟩ ?_
          · rw [hclear]
            exact Bool.and_false c.int
          · rw [hdone]
            exact htold.success r

/-! ## The transfers of a run -/

/-- The calls are valid ones. -/
def fair (_ : Channel) (a : Step) : Prop :=
  ∀ r, a = .call r → r.Valid

theorem Phase.step {a : Step} (hp : p.toNat + 2 * CB_ALIGN ≤ 0x3F000000) (h : Phase p c)
    (hok : fair c a) (hs : c.step p a = some t) : Phase p t := by
  cases a with
  | call r =>
    obtain ⟨hplace, heq⟩ := Option.ite_none_right_eq_some.mp hs
    cases heq
    exact h.call (hok r rfl) hplace
  | driver => exact h.driver hs
  | load => exact h.load hp hs
  | complete => exact h.complete hs
  | dma_irq_clearer => exact h.irq hs
  | store a v => exact h.store hp hs

/-- The request of the call that the driver is in. -/
def Place.request : Place → Option Request
  | .outside => none
  | .test r | .reset r | .allocate r | .fill r _ | .stop r | .address r | .acknowledge r | .go r
  | .ended r _ | .read r _ | .finish r _ _ => some r

/-- The engine only ever has the control block of the call. -/
theorem Phase.engine (h : Phase p c) {b : bcm2835_dma_cb} (hrun : c.engine = .running b) :
    ∃ r, c.place.request = some r ∧ b.move = some r.move := by
  have hidle : Still c → False := by
    intro hstill
    rw [hstill.engine] at hrun
    cases hrun
  cases h with
  | unused _ _ _ hstill | reset _ _ _ hstill | allocate _ _ _ hstill => exact (hidle hstill).elim
  | resting _ _ hready | filling _ _ _ hready | preparing _ _ hready =>
    exact (hidle hready.still).elim
  | @started r hvalid hplace _ _ hwork =>
    refine ⟨r, ?_, ?_⟩
    · rcases hplace with hplace | ⟨-, hplace | ⟨CS, hplace, -⟩⟩
      all_goals
        rw [hplace]
        rfl
    · cases hwork with
      | loading hloading =>
        rw [hloading] at hrun
        cases hrun
      | running hrunning =>
        rw [hrunning] at hrun
        cases hrun
        exact controlBlock_move hvalid
      | finished hstill => exact (hidle hstill).elim

theorem Phase.settled (h : Phase p c) (hplace : c.place = .outside) :
    Still c ∧ Told c.calls c.done := by
  have hnot : ∀ place, c.place = place → place ≠ .outside → False := by
    rintro place hp hne
    exact hne (hp.symm.trans hplace)
  cases h with
  | unused _ _ _ hstill htold => exact ⟨hstill, htold⟩
  | resting _ _ hready htold => exact ⟨hready.still, htold⟩
  | reset _ hother | allocate _ hother | filling _ hother =>
    exact (hnot _ hother nofun).elim
  | preparing _ hother =>
    rcases hother with hother | hother | ⟨hother | hother, -⟩
    all_goals exact (hnot _ hother nofun).elim
  | started _ hother =>
    rcases hother with hother | ⟨-, hother | ⟨CS, hother, -⟩⟩
    all_goals exact (hnot _ hother nofun).elim

/-- From a channel at rest, whatever its flags, its address register and the memory held, and
whatever comes between the accesses: a transfer that runs is the one that the call has asked for;
and outside of the calls nothing runs, each call was told 0 only where its transfer was done, and
no transfer was done twice, or for none. -/
theorem a_reported_transfer_was_done (ended int : Bool) (conblk : Word) (mem : Mem)
    (hp : p.toNat + 2 * CB_ALIGN ≤ 0x3F000000) (acts : List Step)
    (hvalid : ∀ r, Step.call r ∈ acts → r.Valid) {s : Channel}
    (hrun : exec (Channel.step p) (.initial ended int conblk mem) acts = some s) :
    (∀ b, s.engine = .running b → ∃ r, s.place.request = some r ∧ b.move = some r.move) ∧
      (s.place = .outside → Still s ∧ Told s.calls s.done) := by
  have hstart : Phase p (.initial ended int conblk mem) :=
    .unused (.inl rfl) rfl rfl ⟨rfl, rfl⟩ .nil
  have hok : Allowed (Channel.step p) fair (.initial ended int conblk mem) acts := by
    apply allowed_of_mem
    rintro a ha - r rfl
    exact hvalid r ha
  have hend : Phase p s :=
    exec_inv (Phase p) (fun _ _ _ h hok hs => h.step hp hok hs) hstart hok hrun
  exact ⟨fun _ => hend.engine, hend.settled⟩

/-- A transfer that is done, with its interrupt handled, before the status is read. -/
theorem a_transfer_in_time :
    ∃ s : Channel, s.calls.map (fun call => call.2.2) = [0] ∧ s.done.length = 1 ∧
      (∀ b, s.engine = .running b → ∃ r, s.place.request = some r ∧ b.move = some r.move) ∧
        (s.place = .outside → Still s ∧ Told s.calls s.done) := by
  let sector : Request := ⟨11, .DEV_TO_MEM, 0x3F300020, 0x80000, 512⟩
  let acts : List Step := .call sector :: List.replicate 14 .driver ++
    [.load, .complete, .dma_irq_clearer] ++ List.replicate 3 .driver
  have hvalid : ∀ r, Step.call r ∈ acts → r.Valid := by
    intro r hr
    obtain rfl : r = sector := by simpa [acts] using hr
    exact ⟨by decide, by decide, by decide⟩
  have hresults : (exec (Channel.step 0x90008) (.initial false true 0 fun _ => 0) acts).map
      (fun s => (s.calls.map fun call => call.2.2, s.done.length)) = some ([0], 1) := by
    decide +kernel
  obtain ⟨s, hrun, heq⟩ := Option.map_eq_some_iff.mp hresults
  obtain ⟨htold, hdone⟩ := Prod.mk.inj heq
  exact ⟨s, htold, hdone, a_reported_transfer_was_done _ _ _ _ (by decide) _ hvalid hrun⟩

end rpi_wifi.dma
