-- The Blocks of the receive loop. `wlreadpkt` allocates a Block for each
-- packet, and somebody has to free it: `rproc` itself, or the command that
-- takes it out of `ctl->rsp`. A frame of channel 2 is copied by `etheriq` and
-- its Block is freed by nobody, and two commands behind `cmdlock` take two Blocks.
import RpiWifi.Replies

namespace rpi_wifi.ether4330

open runs

variable {T : Type} [DecidableEq T]

/-! ## The owners of a Block -/

/-- The Block that `rproc` works on, from `allocb` to its `freeb` or store. -/
def Pc.reading : Pc → Option Nat
  | .rPktlock b | .rPset b | .rHeader b | .rBody b _ | .rUnpkt (some b) | .rWindow b | .rSwitch b | .rStore b
  | .rFree b => some b.ptr
  | _ => none

/-- The Block that a command has taken out of `ctl->rsp` and has not freed. -/
def Pc.freeing : Pc → Option Nat
  | .cmdFree _ b => some b.ptr
  | _ => none

/-- The Block that the command under `cmdlock` has taken out, if there is one. -/
def State.takenOut (s : State T) : List Nat := s.cmdlock.elim [] fun w => (s.pc w).freeing.toList

/-- The Block in `ctl->rsp`, if there is one. -/
def State.slot (s : State T) : List Nat := s.rsp.toList.map Block.ptr

def Delivery.isFrame : Delivery → Bool
  | .frame _ => true
  | _ => false

/-- The step leaves a Block without an owner: a packet is handed on as a frame,
or a reply is stored over another one in `ctl->rsp`. -/
def losesBlock (s : State T) : Act T → Bool
  | .run w => match s.pc w with
    | .rSwitch b => (deliver b.bytes s.reqid).isFrame
    | .rStore _ => s.rsp.isSome
    | _ => false
  | _ => false

/-- The Blocks that are not freed are the one in `ctl->rsp` and at most one that a
command has taken out and has not freed. -/
def BlocksOwned (s : State T) : Prop :=
  ∃ taken : List Nat, s.blocks.Perm (s.slot ++ taken) ∧ taken.length ≤ 1 ∧
    ∀ ptr, ptr ∈ taken ↔ ∃ w p b, s.pc w = .cmdFree p b ∧ b.ptr = ptr

/-- Each Block that is not freed has one owner: `rproc`, the slot `ctl->rsp` or
the command that took it out. A command that is about to clear the slot still
finds there the Block that it took. -/
structure Owned (s : State T) : Prop where
  locked : CommandsLocked s
  blocks : s.blocks.Perm ((s.pc .rproc).reading.toList ++ (s.slot ++ s.takenOut))
  clears : ∀ w p b, s.pc w = .cmdClear p b → s.rsp = some b

omit [DecidableEq T] in
theorem owned_start (txseq txwindow fcmask : Byte) (link : Link) :
    Owned (start T txseq txwindow fcmask link) := by
  refine ⟨commandsLocked_start _ _ _ _, List.Perm.refl _, ?_⟩
  intro w p b hw
  cases w <;> cases hw

omit [DecidableEq T] in
/-- The command under `cmdlock` is the only one that can have taken a Block out. -/
theorem takenOut_eq {s : State T} (h : CommandsLocked s) {w : Who T} (hw : (s.pc w).holdsC = true) :
    s.takenOut = (s.pc w).freeing.toList := by
  unfold State.takenOut
  rw [(h.cmdlock w).mp hw]
  rfl

theorem freeing_cases {pc : Pc} {ptr : Nat} (h : pc.freeing = some ptr) :
    ∃ p b, pc = .cmdFree p b ∧ b.ptr = ptr := by
  unfold Pc.freeing at h
  split at h
  · exact ⟨_, _, rfl, Option.some.inj h⟩
  · cases h

omit [DecidableEq T] in
theorem takenOut_length (s : State T) : s.takenOut.length ≤ 1 := by
  unfold State.takenOut
  rcases s.cmdlock with _ | w
  · simp
  · rcases (s.pc w).freeing with _ | ptr <;> simp

omit [DecidableEq T] in
/-- What is taken out is in the hands of a command at its `freeb`. -/
theorem mem_takenOut {s : State T} (h : CommandsLocked s) (ptr : Nat) :
    ptr ∈ s.takenOut ↔ ∃ w p b, s.pc w = .cmdFree p b ∧ b.ptr = ptr := by
  constructor
  · intro hp
    unfold State.takenOut at hp
    rcases hl : s.cmdlock with _ | w
    · simp [hl] at hp
    · rw [hl] at hp
      obtain ⟨p, b, hpc, hb⟩ := freeing_cases (Option.mem_toList.mp hp)
      exact ⟨w, p, b, hpc, hb⟩
  · rintro ⟨w, p, b, hpc, rfl⟩
    rw [takenOut_eq h (congrArg Pc.holdsC hpc), hpc]
    simp [Pc.freeing]

theorem takenOut_goto {s t : State T} {w : Who T} {pc' : Pc}
    (hpc : t.pc = Function.update s.pc w pc') (hlock : t.cmdlock = s.cmdlock)
    (hf : pc'.freeing = (s.pc w).freeing) : t.takenOut = s.takenOut := by
  unfold State.takenOut
  rw [hlock]
  rcases s.cmdlock with _ | v
  · rfl
  · by_cases hv : v = w
    · subst hv
      simp [hpc, hf]
    · simp [hpc, Function.update_of_ne hv]

theorem reading_goto {s t : State T} {w : Who T} {pc' : Pc}
    (hpc : t.pc = Function.update s.pc w pc') (hr : pc'.reading = (s.pc w).reading) :
    (t.pc .rproc).reading = (s.pc .rproc).reading := by
  by_cases hw : Who.rproc = w
  · rw [hpc, hw, Function.update_self, hr]
  · rw [hpc, Function.update_of_ne hw]

theorem clears_goto {s t : State T} {w : Who T} {pc' : Pc} (h : Owned s)
    (hpc : t.pc = Function.update s.pc w pc') (hrsp : t.rsp = s.rsp)
    (hc : ∀ p b, pc' = .cmdClear p b → s.rsp = some b) :
    ∀ v p b, t.pc v = .cmdClear p b → t.rsp = some b := by
  intro v p b hv
  rw [hrsp]
  by_cases hvw : v = w
  · subst hvw
    rw [hpc, Function.update_self] at hv
    exact hc p b hv
  · rw [hpc, Function.update_of_ne hvw] at hv
    exact h.clears v p b hv

/-- A step that hands no Block on keeps the owners. -/
theorem owned_quiet {s t : State T} {w : Who T} {pc' : Pc} (h : Owned s) (hl : CommandsLocked t)
    (hpc : t.pc = Function.update s.pc w pc') (hrsp : t.rsp = s.rsp) (hb : t.blocks = s.blocks)
    (ht : t.takenOut = s.takenOut) (hr : pc'.reading = (s.pc w).reading)
    (hc : ∀ p b, pc' = .cmdClear p b → s.rsp = some b) : Owned t := by
  refine ⟨hl, ?_, clears_goto h hpc hrsp hc⟩
  have hslot : t.slot = s.slot := by rw [State.slot, hrsp, State.slot]
  rw [hb, reading_goto hpc hr, hslot, ht]
  exact h.blocks

/-- The Block that `rproc` frees is off the list of its owners. -/
theorem owned_free {s t : State T} {b : Block} {pc' : Pc} (h : Owned s) (hl : CommandsLocked t)
    (hpc : t.pc = Function.update s.pc .rproc pc') (hrsp : t.rsp = s.rsp)
    (hlock : t.cmdlock = s.cmdlock) (hb : t.blocks = s.blocks.erase b.ptr)
    (hr : (s.pc .rproc).reading = some b.ptr) (hr' : pc'.reading = none)
    (hf : pc'.freeing = (s.pc .rproc).freeing) (hc : ∀ p b, pc' ≠ .cmdClear p b) : Owned t := by
  refine ⟨hl, ?_, clears_goto h hpc hrsp fun p b he => absurd he (hc p b)⟩
  have hslot : t.slot = s.slot := by rw [State.slot, hrsp, State.slot]
  have hblocks := h.blocks
  rw [hr] at hblocks
  rw [hb, takenOut_goto hpc hlock hf, hslot, hpc, Function.update_self, hr']
  simpa using hblocks.erase b.ptr

/-- `allocb` hands its Block to `rproc`. -/
theorem owned_alloc {s : State T} {ptr rp : Nat} (h : Owned s) (hpc : s.pc .rproc = .rAlloc)
    (hl : CommandsLocked ({ s with blocks := ptr :: s.blocks }.goto .rproc
      (.rPktlock { ptr, rp, headroom := 64, bytes := [] }))) :
    Owned ({ s with blocks := ptr :: s.blocks }.goto .rproc
      (.rPktlock { ptr, rp, headroom := 64, bytes := [] })) := by
  refine ⟨hl, ?_, clears_goto h rfl rfl (by simp)⟩
  have hblocks := h.blocks
  rw [hpc] at hblocks
  have htaken : State.takenOut ({ s with blocks := ptr :: s.blocks }.goto .rproc
      (.rPktlock { ptr, rp, headroom := 64, bytes := [] })) = s.takenOut :=
    takenOut_goto rfl rfl (by rw [hpc]; rfl)
  rw [htaken]
  simpa [State.goto, Pc.reading, State.slot] using hblocks

/-- A store into the empty slot hands the Block over to it. -/
theorem owned_store {s : State T} {b : Block} (h : Owned s) (hpc : s.pc .rproc = .rStore b)
    (hrsp : s.rsp = none) (hl : CommandsLocked ({ s with rsp := some b }.goto .rproc .rTop)) :
    Owned ({ s with rsp := some b }.goto .rproc .rTop) := by
  refine ⟨hl, ?_, ?_⟩
  · have hblocks := h.blocks
    have htaken : State.takenOut ({ s with rsp := some b }.goto .rproc .rTop) = s.takenOut :=
      takenOut_goto rfl rfl (by rw [hpc]; rfl)
    rw [hpc, State.slot, hrsp] at hblocks
    rw [htaken]
    simpa [State.goto, Pc.reading, State.slot] using hblocks
  · -- A command that is about to clear the slot has found it full.
    intro v p b' hv
    have hvr : v ≠ Who.rproc := by
      rintro rfl
      simp [State.goto] at hv
    dsimp only [State.goto] at hv
    rw [Function.update_of_ne hvr] at hv
    rw [h.clears v p b' hv] at hrsp
    cases hrsp

/-- A command that clears the slot owns the Block that was in it. -/
theorem owned_clear {s : State T} {w : Who T} {p : Packet} {b : Block} (h : Owned s)
    (hpc : s.pc w = .cmdClear p b) (hl : CommandsLocked ({ s with rsp := none }.goto w (.cmdFree p b))) :
    Owned ({ s with rsp := none }.goto w (.cmdFree p b)) := by
  have hw := h.locked.not_reader (congrArg Pc.ofCaller hpc)
  have hrsp := h.clears w p b hpc
  refine ⟨hl, ?_, ?_⟩
  · have hblocks := h.blocks
    have htaken := takenOut_eq hl (w := w) (by simp [State.goto, Pc.holdsC])
    rw [takenOut_eq h.locked (congrArg Pc.holdsC hpc), hpc, State.slot, hrsp] at hblocks
    rw [htaken]
    simpa [State.goto, Function.update_of_ne hw.symm, State.slot, Pc.freeing] using hblocks
  · intro v q c hv
    dsimp only [State.goto] at hv
    by_cases hvw : v = w
    · subst hvw
      simp at hv
    · rw [Function.update_of_ne hvw] at hv
      exact absurd (held_unique h.locked.cmdlock (congrArg Pc.holdsC hv)
        (congrArg Pc.holdsC hpc)) hvw

/-- The `freeb` of a command takes its Block off the list. -/
theorem owned_cmdFree {s : State T} {w : Who T} {p : Packet} {b : Block} (h : Owned s)
    (hpc : s.pc w = .cmdFree p b) (hl : CommandsLocked ((freeb s b).goto w .cmdUnlock)) :
    Owned ((freeb s b).goto w .cmdUnlock) := by
  have hw := h.locked.not_reader (congrArg Pc.ofCaller hpc)
  refine ⟨hl, ?_, clears_goto h rfl rfl (by simp)⟩
  have hblocks := h.blocks
  have htaken := takenOut_eq hl (w := w) (by simp [State.goto, Pc.holdsC])
  rw [takenOut_eq h.locked (congrArg Pc.holdsC hpc), hpc, ← List.append_assoc] at hblocks
  have hfront := (hblocks.trans (List.perm_append_singleton _ _)).erase b.ptr
  rw [List.erase_cons_head] at hfront
  rw [htaken]
  simpa [State.goto, Function.update_of_ne hw.symm, State.slot, Pc.freeing, freeb] using hfront

/-- A step that loses no Block keeps an owner for each. -/
theorem owned_step {s t : State T} {a : Act T} (h : Owned s) (hexclude : CommandsExclude s a)
    (hok : losesBlock s a = false) (hs : step s a = some t) : Owned t := by
  have hm := moves_of_step hs
  have hl := commandsLocked_step h.locked hexclude hm
  cases hm
  case alloc ptr rp hpc hfresh => exact owned_alloc h hpc hl
  case headerEmpty hd b hpc =>
    refine owned_free h hl rfl rfl rfl rfl ?_ rfl ?_ (by simp)
    · rw [hpc]
      rfl
    · rw [hpc]
      rfl
  case rFree w b hpc =>
    obtain rfl := h.locked.is_reader (congrArg Pc.ofReader hpc)
    refine owned_free h hl rfl rfl rfl rfl ?_ rfl ?_ (by simp)
    · rw [hpc]
      rfl
    · rw [hpc]
      rfl
  case rFrame w b p hpc hd => simp [losesBlock, hpc, hd, Delivery.isFrame] at hok
  case rStore w b hpc =>
    obtain rfl := h.locked.is_reader (congrArg Pc.ofReader hpc)
    exact owned_store h hpc (by simpa [losesBlock, hpc] using hok) hl
  case cmdClear w p b hpc => exact owned_clear h hpc hl
  case cmdFree w p b hpc => exact owned_cmdFree h hpc hl
  case cmdSet w c hpc =>
    have hfree := hexclude (congrArg Pc.setsC hpc)
    refine owned_quiet h hl rfl rfl rfl ?_ (by rw [hpc]; rfl) (by simp)
    rw [takenOut_eq hl (w := w) (by simp [State.goto, Pc.holdsC])]
    simp [State.goto, Pc.freeing, State.takenOut, hfree]
  case cmdUnlock w hpc =>
    refine owned_quiet h hl rfl rfl rfl ?_ (by rw [hpc]; rfl) (by simp)
    rw [takenOut_eq h.locked (congrArg Pc.holdsC hpc), hpc]
    rfl
  case cmdTake w p b hpc hrsp =>
    refine owned_quiet h hl rfl rfl rfl (takenOut_goto rfl rfl (by rw [hpc]; rfl))
      (by rw [hpc]; rfl) ?_
    rintro _ _ ⟨⟩
    exact hrsp
  all_goals
    have hpc := ‹s.pc _ = _›
    exact owned_quiet h hl rfl rfl rfl (takenOut_goto rfl rfl (by simp [hpc, Pc.freeing]))
      (by simp [hpc, Pc.reading]) (by simp)

/-- In every run in which `cmdlock` excludes, no frame is delivered and no reply is
stored over another, the Blocks at the top of the loop of `rproc` are the one in
`ctl->rsp` and the one that a command has taken out and not freed. -/
theorem the_blocks_at_the_top_are_owned (txseq txwindow fcmask : Byte) (link : Link)
    (acts : List (Act T)) (s : State T)
    (hok : Allowed step (fun s a => CommandsExclude s a ∧ losesBlock s a = false)
      (start T txseq txwindow fcmask link) acts)
    (h : exec step (start T txseq txwindow fcmask link) acts = some s)
    (htop : s.pc .rproc = .rTop) : BlocksOwned s := by
  have howned := exec_inv Owned (fun _ _ _ hi ho hs => owned_step hi ho.1 ho.2 hs)
    (owned_start txseq txwindow fcmask link) hok h
  have hblocks := howned.blocks
  rw [htop] at hblocks
  exact ⟨s.takenOut, hblocks, takenOut_length s, mem_takenOut howned.locked⟩

/-- A command with its reply, up to the `freeb` of the reply. -/
def freeingRun : List (Act Unit) :=
  call ++ readReply 1 ++ List.replicate 2 (.run .rproc) ++ List.replicate 3 (.run (.task ()))

theorem freeingRun_is_owned :
    Allowed step (fun s a => CommandsExclude s a ∧ losesBlock s a = false) oneTask freeingRun ∧
      ∃ s, exec step oneTask freeingRun = some s ∧ BlocksOwned s ∧ s.blocks = [0x8000] ∧
        s.slot = [] := by
  have hok : Allowed step (fun s a => CommandsExclude s a ∧ losesBlock s a = false) oneTask
      freeingRun := by
    decide +kernel
  have hend : (exec step oneTask freeingRun).map (fun s =>
      (s.pc .rproc, s.blocks, s.slot)) = some (.rTop, [0x8000], []) := by
    decide +kernel
  obtain ⟨s, hs, he⟩ := Option.map_eq_some_iff.mp hend
  simp only [Prod.mk.injEq] at he
  obtain ⟨htop, hblocks, hslot⟩ := he
  exact ⟨hok, s, hs, the_blocks_at_the_top_are_owned 0 0 0 _ freeingRun s hok hs htop, hblocks,
    hslot⟩

/-- `rproc` reads one frame of 14 bytes behind a BDC header of 4 bytes. -/
def frameRun : List (Act Unit) :=
  [.run .rproc, .alloc 0x8000 0xA000, .run .rproc, .run .rproc,
    .header [30, 0, 0xE1, 0xFF, 0, 2, 0, 12, 0, 0, 0, 0], .body (List.replicate 20 0),
    .run .rproc, .run .rproc, .run .rproc]

/-- The frame is in the queue, and its Block belongs to nobody at the top of the loop. -/
theorem a_delivered_frame_keeps_its_block :
    ∃ s, exec step oneTask frameRun = some s ∧ s.pc .rproc = .rTop ∧
      s.frame_receive_queue = [List.replicate 14 0] ∧ s.blocks = [0x8000] ∧ ¬ BlocksOwned s := by
  have hend : (exec step oneTask frameRun).map (fun s =>
      (s.pc .rproc, s.frame_receive_queue, s.blocks, s.slot)) =
        some (.rTop, [List.replicate 14 0], [0x8000], []) := by
    decide +kernel
  have hcaller : (exec step oneTask frameRun).map (fun s => s.pc (.task ())) = some .idle := by
    decide +kernel
  obtain ⟨s, hs, he⟩ := Option.map_eq_some_iff.mp hend
  simp only [Prod.mk.injEq] at he
  obtain ⟨htop, hqueue, hblocks, hslot⟩ := he
  have hidle : s.pc (.task ()) = .idle := by simpa [hs] using hcaller
  refine ⟨s, hs, htop, hqueue, hblocks, ?_⟩
  rintro ⟨taken, hperm, -, hmem⟩
  rw [hblocks, hslot, List.nil_append] at hperm
  obtain ⟨w, p, b, hw, -⟩ := (hmem 0x8000).mp (hperm.subset List.mem_cons_self)
  rcases w with _ | _
  · rw [htop] at hw
    cases hw
  · rw [hidle] at hw
    cases hw

end rpi_wifi.ether4330
