-- The laws of the flow control. `txstart` tests the window and the mask of
-- the chip, and writes its frame later, behind another lock. `wlcmd` counts
-- its packet in `txseq` and never tests. So the window is respected only in
-- the runs in which the mutexes exclude and these two, and the updates of
-- `rproc`, keep out of each other's way, and a command past the window can
-- strand the frames in the queue.
import RpiWifi.DriverSteps

namespace rpi_wifi.ether4330

open runs

variable {T : Type} [DecidableEq T]

/-! ## The window of a sender -/

/-- `txstart` has passed its tests and has a frame that is not written. -/
def Pc.passed : Pc → Bool
  | .txBuild _ | .txPktlock _ _ | .txPset _ _ | .txWrite _ _ => true
  | _ => false

def Pc.isTxGet : Pc → Bool
  | .txGet => true
  | _ => false

def Pc.isCmdWrite : Pc → Bool
  | .cmdWrite _ => true
  | _ => false

theorem holdsT_of_passed {pc : Pc} (h : pc.passed = true) : pc.holdsT = true := by
  cases pc <;> first | rfl | cases h

/-- The mutexes of the senders exclude, a frame is taken from the queue with the
window open, and commands are sent with credit. While a sender has a frame in
hand or its packet is not counted, nobody closes the window in front of it. -/
def WindowKept (s : State T) (a : Act T) : Prop :=
  SendsExclude s a ∧
  (s.runsAt Pc.isTxGet a = true → s.oq ≠ [] → blocked s.txseq s.txwindow s.fcmask = false) ∧
  (s.runsAt Pc.isCmdWrite a = true → s.txseq ≠ s.txwindow) ∧
  (s.runsAt Pc.isCmdSeq a = true →
    ∀ v, (s.pc v).passed = true → s.txseq + 1 ≠ s.txwindow) ∧
  ∀ p ∈ s.installs a, ∀ v,
    ((s.pc v).passed = true ∨ (s.pc v).atSeq = true → windowOf p ≠ s.txseq) ∧
    ((s.pc v).passed = true → fcBlocked (fcmaskOf p) = false)

instance [Fintype T] (s : State T) (a : Act T) : Decidable (WindowKept s a) :=
  inferInstanceAs (Decidable (_ ∧ _ ∧ _ ∧ _ ∧ _))

theorem creditOf_succ {txwindow txseq : Byte} (h : txseq ≠ txwindow) :
    creditOf txwindow (txseq + 1) + 1 = creditOf txwindow txseq := by
  have h1 := txseq.isLt
  have h2 := txwindow.isLt
  have h3 : txseq.toNat ≠ txwindow.toNat := fun he => h (BitVec.eq_of_toNat_eq he)
  unfold creditOf
  rw [BitVec.toNat_sub, BitVec.toNat_sub, BitVec.toNat_add, show (1 : Byte).toNat = 1 from rfl]
  omega

theorem creditOf_pos {txwindow txseq : Byte} (h : txseq ≠ txwindow) :
    0 < creditOf txwindow txseq := by
  rw [← creditOf_succ h]
  omega

theorem not_blocked_iff {txseq txwindow fcmask : Byte} :
    blocked txseq txwindow fcmask = false ↔ txseq ≠ txwindow ∧ fcBlocked fcmask = false := by
  simp [blocked]

/-! ## The invariant of the window -/

/-- A sender with a frame in hand still finds the window open, and the packets
sent since the last update fit its credit, the packet on its way counted. -/
structure Windowed (s : State T) : Prop where
  locked : SendsLocked s
  passed : ∀ w, (s.pc w).passed = true → blocked s.txseq s.txwindow s.fcmask = false
  written : ∀ w, (s.pc w).atSeq = true → s.txseq ≠ s.txwindow
  spent : (∀ w, (s.pc w).atSeq = false) → s.sent + creditOf s.txwindow s.txseq ≤ s.credit
  spending : ∀ w, (s.pc w).atSeq = true →
    s.sent + creditOf s.txwindow s.txseq ≤ s.credit + 1

omit [DecidableEq T] in
theorem windowed_start (txseq txwindow fcmask : Byte) (link : Link) :
    Windowed (start T txseq txwindow fcmask link) := by
  refine ⟨sendsLocked_start _ _ _ _, ?_, ?_, ?_, ?_⟩
  · intro w hw
    cases w <;> simp [start, Pc.passed] at hw
  · intro w hw
    cases w <;> simp [start, Pc.atSeq] at hw
  · intro _
    simp [start]
  · intro w hw
    cases w <;> simp [start, Pc.atSeq] at hw

omit [DecidableEq T] in
theorem sent_le_credit {s : State T} (h : Windowed s) : s.sent ≤ s.credit := by
  by_cases hall : ∀ w, (s.pc w).atSeq = false
  · have := h.spent hall
    omega
  · obtain ⟨w, hw⟩ := not_forall.mp hall
    have hw' : (s.pc w).atSeq = true := by simpa using hw
    have h1 := h.spending w hw'
    have h2 := creditOf_pos (h.written w hw')
    omega

/-- The two sides of an update of the place of one task. -/
theorem forall_goto {pc : Who T → Pc} {w : Who T} {pc' : Pc} (P : Pc → Prop) (hw : P pc')
    (hv : ∀ v, v ≠ w → P (pc v)) : ∀ v, P (Function.update pc w pc' v) := by
  intro v
  by_cases hvw : v = w
  · subst hvw
    rw [Function.update_self]
    exact hw
  · rw [Function.update_of_ne hvw]
    exact hv v hvw

/-- A step that leaves the window, the mask and the counters alone. -/
theorem windowed_quiet {s t : State T} {w : Who T} {pc' : Pc} (h : Windowed s) (hl : SendsLocked t)
    (hpc : t.pc = Function.update s.pc w pc') (htx : t.txseq = s.txseq)
    (hwin : t.txwindow = s.txwindow) (hfc : t.fcmask = s.fcmask) (hc : t.credit = s.credit)
    (hs : t.sent = s.sent) (ha : pc'.atSeq = (s.pc w).atSeq)
    (hp : pc'.passed = true → blocked s.txseq s.txwindow s.fcmask = false) : Windowed t := by
  have hat : ∀ v, (t.pc v).atSeq = (s.pc v).atSeq := by
    intro v
    by_cases hv : v = w
    · subst hv
      rw [hpc, Function.update_self, ha]
    · rw [hpc, Function.update_of_ne hv]
  refine ⟨hl, ?_, ?_, ?_, ?_⟩
  · rw [htx, hwin, hfc, hpc]
    exact forall_goto (·.passed = true → _) hp fun v _ => h.passed v
  · intro v hv
    rw [htx, hwin]
    exact h.written v (by rw [← hat v]; exact hv)
  · intro hall
    rw [htx, hwin, hc, hs]
    exact h.spent fun v => by rw [← hat v]; exact hall v
  · intro v hv
    rw [htx, hwin, hc, hs]
    exact h.spending v (by rw [← hat v]; exact hv)

omit [DecidableEq T] in
/-- The task that holds `pktlock` is the only one with a packet on its way. -/
theorem atSeq_unique {s : State T} (h : SendsLocked s) {w : Who T} (hP : (s.pc w).holdsP = true) :
    ∀ v, v ≠ w → (s.pc v).atSeq = false := by
  intro v hv
  by_contra ha
  exact hv (held_unique h.pktlock (holdsP_of_atSeq (by simpa using ha)) hP)

/-- A packet goes out with the window open. -/
theorem windowed_write {s t : State T} {w : Who T} {pc' : Pc} (h : Windowed s) (hl : SendsLocked t)
    (hpc : t.pc = Function.update s.pc w pc') (htx : t.txseq = s.txseq)
    (hwin : t.txwindow = s.txwindow) (hfc : t.fcmask = s.fcmask) (hc : t.credit = s.credit)
    (hs : t.sent = s.sent + 1) (hP : (s.pc w).holdsP = true) (ha : (s.pc w).atSeq = false)
    (ha' : pc'.atSeq = true) (hp' : pc'.passed = false) (hopen : s.txseq ≠ s.txwindow) :
    Windowed t := by
  have hnone : ∀ v, (s.pc v).atSeq = false := by
    intro v
    by_cases hv : v = w
    · subst hv; exact ha
    · exact atSeq_unique h.locked hP v hv
  have hspent := h.spent hnone
  refine ⟨hl, ?_, ?_, ?_, ?_⟩
  · rw [htx, hwin, hfc, hpc]
    exact forall_goto (·.passed = true → _) (by simp [hp']) fun v _ => h.passed v
  · intro _ _
    rw [htx, hwin]
    exact hopen
  · intro hall
    have := hall w
    rw [hpc, Function.update_self, ha'] at this
    cases this
  · intro _ _
    rw [htx, hwin, hc, hs]
    omega

/-- The packet on its way is counted. A sender that passed its tests must still
find the window open. -/
theorem windowed_count {s t : State T} {w : Who T} {pc' : Pc} (h : Windowed s) (hl : SendsLocked t)
    (hpc : t.pc = Function.update s.pc w pc') (htx : t.txseq = s.txseq + 1)
    (hwin : t.txwindow = s.txwindow) (hfc : t.fcmask = s.fcmask) (hc : t.credit = s.credit)
    (hs : t.sent = s.sent) (ha : (s.pc w).atSeq = true) (ha' : pc'.atSeq = false)
    (hp' : pc'.passed = false)
    (hopen : ∀ v, v ≠ w → (s.pc v).passed = true → s.txseq + 1 ≠ s.txwindow) : Windowed t := by
  have hat : ∀ v, (t.pc v).atSeq = false := by
    rw [hpc]
    exact forall_goto (·.atSeq = false) ha' (atSeq_unique h.locked (holdsP_of_atSeq ha))
  have hw := h.written w ha
  have hspending := h.spending w ha
  refine ⟨hl, ?_, ?_, ?_, ?_⟩
  · rw [htx, hwin, hfc, hpc]
    refine forall_goto (·.passed = true → _) (by simp [hp']) fun v hv hpass => ?_
    have hfree := (not_blocked_iff.mp (h.passed v hpass)).2
    exact not_blocked_iff.mpr ⟨hopen v hv hpass, hfree⟩
  · intro v hv
    rw [hat v] at hv
    cases hv
  · intro _
    rw [htx, hwin, hc, hs]
    have := creditOf_succ hw
    omega
  · intro v hv
    rw [hat v] at hv
    cases hv

/-- `rproc` installs a window and a mask. -/
theorem windowed_update {s : State T} {w : Who T} {b : Block} (h : Windowed s)
    (hpc : s.pc w = .rWindow b)
    (hl : SendsLocked ((updateWindow s b.bytes).goto w (.rSwitch b)))
    (hok : ∀ v, ((s.pc v).passed = true ∨ (s.pc v).atSeq = true → windowOf b.bytes ≠ s.txseq) ∧
      ((s.pc v).passed = true → fcBlocked (fcmaskOf b.bytes) = false)) :
    Windowed ((updateWindow s b.bytes).goto w (.rSwitch b)) := by
  have hat : ∀ v, (Function.update s.pc w (.rSwitch b) v).atSeq = (s.pc v).atSeq := by
    intro v
    by_cases hv : v = w
    · subst hv
      rw [Function.update_self, hpc]
      rfl
    · rw [Function.update_of_ne hv]
  refine ⟨hl, ?_, ?_, ?_, ?_⟩
  · refine forall_goto (·.passed = true → _) (fun hp => nomatch hp) ?_
    intro v _ hp
    exact not_blocked_iff.mpr ⟨((hok v).1 (.inl hp)).symm, (hok v).2 hp⟩
  · intro v hv
    dsimp only [State.goto, updateWindow] at hv ⊢
    rw [hat v] at hv
    exact ((hok v).1 (.inr hv)).symm
  · intro hall
    dsimp only [State.goto, updateWindow] at hall ⊢
    split
    · rename_i he
      rw [he]
      exact h.spent fun v => by rw [← hat v]; exact hall v
    · omega
  · intro v hv
    dsimp only [State.goto, updateWindow] at hv ⊢
    split
    · rename_i he
      rw [he]
      exact h.spending v (by rw [← hat v]; exact hv)
    · omega

theorem windowed_step {s t : State T} {a : Act T} (h : Windowed s) (hok : WindowKept s a)
    (hs : step s a = some t) : Windowed t := by
  have hm := moves_of_step hs
  obtain ⟨hexclude, hget, hcmd, hcount, hinst⟩ := hok
  have hl := sendsLocked_step h.locked hexclude hm
  cases hm
  case txWrite w b p hpc =>
    have hopen := h.passed w (congrArg Pc.passed hpc)
    exact windowed_write h hl rfl rfl rfl rfl rfl rfl (congrArg Pc.holdsP hpc)
      (congrArg Pc.atSeq hpc) rfl rfl (not_blocked_iff.mp hopen).1
  case cmdWrite w p hpc =>
    exact windowed_write h hl rfl rfl rfl rfl rfl rfl (congrArg Pc.holdsP hpc)
      (congrArg Pc.atSeq hpc) rfl rfl (hcmd (congrArg Pc.isCmdWrite hpc))
  case txSeq w b hpc =>
    refine windowed_count h hl rfl rfl rfl rfl rfl rfl (congrArg Pc.atSeq hpc) rfl rfl ?_
    intro v hv hp
    exact absurd (held_unique h.locked.tlock (holdsT_of_passed hp) (congrArg Pc.holdsT hpc)) hv
  case cmdSeq w p hpc =>
    exact windowed_count h hl rfl rfl rfl rfl rfl rfl (congrArg Pc.atSeq hpc) rfl rfl
      fun v _ hp => hcount (congrArg Pc.isCmdSeq hpc) v hp
  case rWindow w b hpc =>
    exact windowed_update h hpc hl (hinst b.bytes (by simp [State.installs, hpc]))
  case txGet w b rest hpc hq =>
    exact windowed_quiet h hl rfl rfl rfl rfl rfl rfl (congrArg Pc.atSeq hpc).symm
      fun _ => hget (congrArg Pc.isTxGet hpc) (by simp [hq])
  case txBuild w b b' hpc =>
    exact windowed_quiet h hl rfl rfl rfl rfl rfl rfl (congrArg Pc.atSeq hpc).symm
      fun _ => h.passed w (congrArg Pc.passed hpc)
  case txPktlock w b p hpc hfree =>
    exact windowed_quiet h hl rfl rfl rfl rfl rfl rfl (congrArg Pc.atSeq hpc).symm
      fun _ => h.passed w (congrArg Pc.passed hpc)
  case txPset w b p hpc =>
    exact windowed_quiet h hl rfl rfl rfl rfl rfl rfl (congrArg Pc.atSeq hpc).symm
      fun _ => h.passed w (congrArg Pc.passed hpc)
  all_goals
    have hpc := ‹s.pc _ = _›
    exact windowed_quiet h hl rfl rfl rfl rfl rfl rfl (congrArg Pc.atSeq hpc).symm
      fun hp => nomatch hp

/-! ## The law of the window -/

/-- In every run whose steps keep to `WindowKept`, a data frame goes to the chip
only with the window open and the mask clear, and the packets sent since the
last window update never exceed the credit it gave. -/
theorem flow_control_is_respected (txseq txwindow fcmask : Byte) (link : Link)
    (acts : List (Act T)) (t : State T)
    (hok : Allowed step WindowKept (start T txseq txwindow fcmask link) acts)
    (h : exec step (start T txseq txwindow fcmask link) acts = some t) :
    (∀ w b p, t.pc w = .txWrite b p → t.txseq ≠ t.txwindow ∧ fcBlocked t.fcmask = false) ∧
      t.sent ≤ t.credit := by
  have hw := exec_inv Windowed (fun _ _ _ hi hk hs => windowed_step hi hk hs)
    (windowed_start txseq txwindow fcmask link) hok h
  refine ⟨?_, sent_le_credit hw⟩
  intro w b p hpc
  exact not_blocked_iff.mp (hw.passed w (congrArg Pc.passed hpc))

/-- A frame, a command, and then the chip opens the window to 9. -/
def keptRun : List (Act Pair) := inTurn ++ readWindow 1 0 9

theorem keptRun_is_respected :
    Allowed step WindowKept (twoTasks 5) keptRun ∧
      ∃ t, exec step (twoTasks 5) keptRun = some t ∧ t.txwindow = 9 ∧ t.sent ≤ t.credit := by
  have hok : Allowed step WindowKept (twoTasks 5) keptRun := by decide +kernel
  have hwin : (exec step (twoTasks 5) keptRun).map (fun t => t.txwindow) = some 9 := by
    decide +kernel
  obtain ⟨t, ht, h9⟩ := Option.map_eq_some_iff.mp hwin
  exact ⟨hok, t, ht, h9, (flow_control_is_respected 0 5 0 _ keptRun t hok ht).2⟩

/-- With no window from the chip yet, a command goes out and leaves `txseq` past
the window. The tests of `txstart` then let a frame through. -/
def pastTheWindow : List (Act Pair) :=
  [.wlcmd .commander smallRequest] ++ List.replicate 8 (.run (.task .commander)) ++
    [.send_frame .sender smallFrame] ++ List.replicate 8 (.run (.task .sender))

/-- A frame has passed the tests and waits for `pktlock` when the mask of the
chip arrives, and it is written all the same. -/
def maskTooLate : List (Act Pair) :=
  [.send_frame .sender smallFrame] ++ List.replicate 5 (.run (.task .sender)) ++ readWindow 1 4 5 ++
    List.replicate 2 (.run (.task .sender))

/-- Both tasks find `tlock` clear, and both set it. The first one writes its frame and
counts it, and the second one is about to write with its header built before. -/
def twoInside : List (Act Pair) :=
  [.send_frame .sender smallFrame, .send_frame .commander smallFrame,
    .run (.task .sender), .run (.task .commander)] ++
    List.replicate 4 (.run (.task .sender)) ++ List.replicate 4 (.run (.task .commander)) ++
    List.replicate 5 (.run (.task .sender)) ++ List.replicate 2 (.run (.task .commander))

/-- The place of a task right before its `packetrw` of a data frame. -/
def Pc.isTxWrite : Pc → Bool
  | .txWrite _ _ => true
  | _ => false

theorem isTxWrite_iff {pc : Pc} (h : pc.isTxWrite = true) : ∃ b p, pc = .txWrite b p := by
  cases pc <;> first | exact ⟨_, _, rfl⟩ | cases h

/-- Three ways in which the flow control fails: a frame is sent with no credit at
all, a frame is about to be written with bit 2 of the mask set, and with two
tasks behind `tlock` a frame is about to be written at a window of 1 that the
other one has used up. -/
theorem flow_control_is_not_always_respected :
    (∃ t, exec step (twoTasks 0) pastTheWindow = some t ∧
      t.wire.map chanflgOf = [0, 2] ∧ t.credit = 0 ∧ t.sent = 2) ∧
    (∃ t, exec step (twoTasks 5) maskTooLate = some t ∧
      (∃ b p, t.pc (.task .sender) = .txWrite b p) ∧ fcBlocked t.fcmask = true) ∧
    ∃ t, exec step (twoTasks 1) twoInside = some t ∧
      (∃ b p, t.pc (.task .commander) = .txWrite b p) ∧ t.txseq = t.txwindow := by
  have h1 : (exec step (twoTasks 0) pastTheWindow).map
      (fun t => (t.wire.map chanflgOf, t.credit, t.sent)) = some ([0, 2], 0, 2) := by
    decide +kernel
  have h2 : (exec step (twoTasks 5) maskTooLate).map
      (fun t => ((t.pc (.task .sender)).isTxWrite, fcBlocked t.fcmask)) = some (true, true) := by
    decide +kernel
  have h3 : (exec step (twoTasks 1) twoInside).map
      (fun t => ((t.pc (.task .commander)).isTxWrite, t.txseq == t.txwindow)) =
        some (true, true) := by
    decide +kernel
  obtain ⟨t, ht, he⟩ := Option.map_eq_some_iff.mp h1
  obtain ⟨u, hu, hf⟩ := Option.map_eq_some_iff.mp h2
  obtain ⟨v, hv, hg⟩ := Option.map_eq_some_iff.mp h3
  simp only [Prod.mk.injEq, beq_iff_eq] at he hf hg
  exact ⟨⟨t, ht, he.1, he.2.1, he.2.2⟩, ⟨u, hu, isTxWrite_iff hf.1, hf.2⟩,
    v, hv, isTxWrite_iff hg.1, hg.2⟩

/-! ## The frames in the queue -/

/-- A call of `txstart` is in progress. -/
def Pc.inTxstart : Pc → Bool
  | .txTlock | .txTset | .txTest | .txGet | .txBuild _ | .txPktlock _ _ | .txPset _ _
  | .txWrite _ _ | .txSeq _ | .txUnpkt _ | .txUntlock => true
  | _ => false

/-- A call of `txstart` is in progress, and it goes through its tests once more. -/
def Pc.willTest : Pc → Bool
  | .txUntlock => false
  | pc => pc.inTxstart

theorem inTxstart_of_willTest {pc : Pc} (h : pc.willTest = true) : pc.inTxstart = true := by
  cases pc <;> first | rfl | cases h

/-- The action counts a command at the window, which opens the tests of
`txstart` while frames wait and nobody is there to see it. -/
def Strands (s : State T) (a : Act T) : Prop :=
  s.runsAt Pc.isCmdSeq a = true ∧ s.txseq = s.txwindow ∧ fcBlocked s.fcmask = false ∧
    s.oq ≠ [] ∧ s.flowstart = false ∧ ∀ v, (s.pc v).willTest = false

instance [Fintype T] (s : State T) (a : Act T) : Decidable (Strands s a) :=
  inferInstanceAs (Decidable (_ ∧ _ ∧ _ ∧ _ ∧ _ ∧ _))

/-- The queue is empty, or the senders are blocked, or a `txstart` is on its way. -/
def Served (s : State T) : Prop :=
  s.oq = [] ∨ s.flowstart = true ∨ blocked s.txseq s.txwindow s.fcmask = true ∨
    ∃ w, (s.pc w).willTest = true

/-- A task that is on its way to the tests serves the queue. -/
theorem served_of_goto {s : State T} {w : Who T} {pc' : Pc}
    (h : pc'.willTest = true) : Served (s.goto w pc') := by
  refine .inr (.inr (.inr ⟨w, ?_⟩))
  dsimp only [State.goto]
  rw [Function.update_self]
  exact h

/-- A task on its way to the tests stays on it when another task runs. -/
theorem willTest_goto {pc : Who T → Pc} {w : Who T} {pc' : Pc} (hw : (pc w).willTest = false)
    (h : ∃ v, (pc v).willTest = true) :
    ∃ v, (Function.update pc w pc' v).willTest = true := by
  obtain ⟨v, hv⟩ := h
  have hvw : v ≠ w := by
    rintro rfl
    rw [hw] at hv
    cases hv
  exact ⟨v, by rw [Function.update_of_ne hvw]; exact hv⟩

/-- A step that leaves the queue, the flag and the flow control alone, by a task
that is not on its way to the tests. -/
theorem served_quiet {s t : State T} {w : Who T} {pc' : Pc} (h : Served s)
    (hpc : t.pc = Function.update s.pc w pc') (hq : t.oq = s.oq)
    (hflow : t.flowstart = s.flowstart) (htx : t.txseq = s.txseq)
    (hwin : t.txwindow = s.txwindow) (hfc : t.fcmask = s.fcmask)
    (hw : (s.pc w).willTest = false) : Served t := by
  unfold Served
  rw [hq, hflow, htx, hwin, hfc]
  rcases h with h | h | h | h
  · exact .inl h
  · exact .inr (.inl h)
  · exact .inr (.inr (.inl h))
  · rw [hpc]
    exact .inr (.inr (.inr (willTest_goto hw h)))

/-- Whatever update takes a blocked sender out of its wait raises `flowstart`. -/
theorem served_update {s : State T} {w : Who T} {b : Block} (h : Served s)
    (hpc : s.pc w = .rWindow b) : Served ((updateWindow s b.bytes).goto w (.rSwitch b)) := by
  rcases h with h | h | h | h
  · exact .inl h
  · refine .inr (.inl ?_)
    simp [State.goto, updateWindow, h]
  · by_cases hb : blocked s.txseq (windowOf b.bytes) (fcmaskOf b.bytes) = true
    · exact .inr (.inr (.inl hb))
    · refine .inr (.inl ?_)
      obtain ⟨hwin, hfc⟩ := not_blocked_iff.mp (by simpa using hb)
      dsimp only [State.goto, updateWindow]
      unfold blocked at h
      rw [Bool.or_eq_true] at h
      rcases h with hseq | hmask
      · have hseq' : s.txseq = s.txwindow := by simpa using hseq
        have hne : windowOf b.bytes ≠ s.txwindow := fun he => hwin (by rw [hseq', he])
        simp [hseq', hne]
      · have hne : fcmaskOf b.bytes ≠ s.fcmask := by
          intro he
          rw [he, hmask] at hfc
          cases hfc
        simp [hne, hfc]
  · exact .inr (.inr (.inr (willTest_goto (congrArg Pc.willTest hpc) h)))

theorem served_step {s t : State T} {a : Act T} (h : Served s) (hok : ¬ Strands s a)
    (hs : step s a = some t) : Served t := by
  have hm := moves_of_step hs
  cases hm
  case txClosed hpc hb => exact .inr (.inr (.inl hb))
  case txEmpty hpc hq => exact .inl hq
  case rWindow hpc => exact served_update h hpc
  case cmdSeq w p hpc =>
    -- The count changes `txseq`, so a sender that `txseq` blocked is free after it.
    have hw : (s.pc w).willTest = false := congrArg Pc.willTest hpc
    rcases h with h | h | h | h
    · exact .inl h
    · exact .inr (.inl h)
    · by_cases hfc : fcBlocked s.fcmask = true
      · exact .inr (.inr (.inl (by simp [State.goto, blocked, hfc])))
      · have hseq : s.txseq = s.txwindow := by simpa [blocked, hfc] using h
        have hrest : s.oq = [] ∨ s.flowstart = true ∨ ∃ v, (s.pc v).willTest = true := by
          by_contra hno
          simp only [not_or, not_exists, Bool.not_eq_true] at hno
          exact hok ⟨congrArg Pc.isCmdSeq hpc, hseq, by simpa using hfc, hno⟩
        rcases hrest with hr | hr | hr
        · exact .inl hr
        · exact .inr (.inl hr)
        · exact .inr (.inr (.inr (willTest_goto hw hr)))
    · exact .inr (.inr (.inr (willTest_goto hw h)))
  all_goals
    have hpc := ‹s.pc _ = _›
    first
    | exact served_of_goto rfl
    | exact served_quiet h rfl rfl rfl rfl rfl rfl (congrArg Pc.willTest hpc)

/-! ## The law of the queue -/

/-- In every run with no step that strands the queue: when no `txstart` is in
progress, `flowstart` is clear and frames wait, then the sender is blocked by
the window or by the mask. -/
theorem a_waiting_frame_is_blocked (txseq txwindow fcmask : Byte) (link : Link)
    (acts : List (Act T)) (t : State T)
    (hok : Allowed step (fun s a => ¬ Strands s a) (start T txseq txwindow fcmask link) acts)
    (h : exec step (start T txseq txwindow fcmask link) acts = some t)
    (hidle : ∀ w, (t.pc w).inTxstart = false) (hflow : t.flowstart = false) (hoq : t.oq ≠ []) :
    t.txseq = t.txwindow ∨ fcBlocked t.fcmask = true := by
  have hserved := exec_inv Served (fun _ _ _ hi hk hs => served_step hi hk hs)
    (.inl rfl) hok h
  rcases hserved with h1 | h1 | h1 | ⟨w, hw⟩
  · exact absurd h1 hoq
  · rw [hflow] at h1
    cases h1
  · simpa [blocked] using h1
  · have hi := hidle w
    rw [inTxstart_of_willTest hw] at hi
    cases hi

/-- A frame meets the closed window, and its `txstart` returns. -/
def servedRun : List (Act Pair) :=
  [.send_frame .sender smallFrame] ++ List.replicate 4 (.run (.task .sender))

theorem servedRun_is_blocked :
    Allowed step (fun s a => ¬ Strands s a) (twoTasks 0) servedRun ∧
      ∃ t, exec step (twoTasks 0) servedRun = some t ∧ t.oq = [smallFrame] ∧
        (t.txseq = t.txwindow ∨ fcBlocked t.fcmask = true) := by
  have hok : Allowed step (fun s a => ¬ Strands s a) (twoTasks 0) servedRun := by decide +kernel
  have hend : (exec step (twoTasks 0) servedRun).map (fun t =>
      (decide (∀ w, (t.pc w).inTxstart = false), t.flowstart, t.oq)) =
        some (true, false, [smallFrame]) := by
    decide +kernel
  obtain ⟨t, ht, he⟩ := Option.map_eq_some_iff.mp hend
  simp only [Prod.mk.injEq, decide_eq_true_eq] at he
  obtain ⟨hidle, hflow, hoq⟩ := he
  exact ⟨hok, t, ht, hoq, a_waiting_frame_is_blocked 0 0 0 _ servedRun t hok ht hidle hflow
    (by rw [hoq]; simp)⟩

/-- A frame meets the closed window, and then a command goes out. -/
def strandedRun : List (Act Pair) :=
  servedRun ++ [.wlcmd .commander smallRequest] ++ List.replicate 8 (.run (.task .commander))

/-- The command leaves `txseq` past the window: nothing blocks the frame, no
`txstart` is in progress, and `flowstart` is clear. -/
theorem a_command_strands_a_frame :
    ∃ t, exec step (twoTasks 0) strandedRun = some t ∧ (∀ w, (t.pc w).inTxstart = false) ∧
      t.flowstart = false ∧ t.oq ≠ [] ∧ t.txseq ≠ t.txwindow ∧ fcBlocked t.fcmask = false := by
  have hend : (exec step (twoTasks 0) strandedRun).map (fun t =>
      decide ((∀ w, (t.pc w).inTxstart = false) ∧ t.flowstart = false ∧ t.oq ≠ [] ∧
        t.txseq ≠ t.txwindow ∧ fcBlocked t.fcmask = false)) = some true := by
    decide +kernel
  obtain ⟨t, ht, he⟩ := Option.map_eq_some_iff.mp hend
  exact ⟨t, ht, by simpa using he⟩

end rpi_wifi.ether4330
