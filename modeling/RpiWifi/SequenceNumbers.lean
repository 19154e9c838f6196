-- The sequence numbers of the packets on the wire. `txstart` reads `txseq`
-- for its header before it waits for `pktlock`, and `wlcmd` reads it with the
-- lock held. So the numbers are consecutive as long as no command counts its
-- packet while a `txstart` waits with its header built.
import RpiWifi.DriverSteps

namespace rpi_wifi.ether4330

open runs

variable {T : Type} [DecidableEq T]

/-! ## The packet that a task is about to write -/

/-- `txstart` waits for `pktlock` with its header built. -/
def Pc.waiting : Pc → Bool
  | .txPktlock _ _ | .txPset _ _ => true
  | _ => false

/-- The packet whose header is built and that is not written yet. -/
def Pc.built : Pc → Option Packet
  | .txPktlock _ p | .txPset _ p | .txWrite _ p | .cmdWrite p => some p
  | _ => none

/-- When a command counts its packet, no `txstart` waits with its header built. -/
def HeaderFresh (s : State T) (a : Act T) : Prop :=
  s.runsAt Pc.isCmdSeq a = true → ∀ v, (s.pc v).waiting = false

instance [Fintype T] (s : State T) (a : Act T) : Decidable (HeaderFresh s a) :=
  inferInstanceAs (Decidable (_ → ∀ v, (s.pc v).waiting = false))

/-- `n` numbers from `first` on, modulo 256. -/
def consecutive (first : Byte) (n : Nat) : List Byte :=
  (List.range n).map fun i => first + BitVec.ofNat 8 i

theorem consecutive_succ (first : Byte) (n : Nat) :
    consecutive first (n + 1) = consecutive first n ++ [first + BitVec.ofNat 8 n] := by
  simp [consecutive, List.range_succ]

/-! ## The invariant -/

/-- The wire holds consecutive numbers, `txseq` is the next one, and so is the
number in each header that waits to be written. -/
structure Numbered (first : Byte) (s : State T) : Prop where
  locked : SendsLocked s
  wire : s.wire.map seqOf = consecutive first s.wire.length
  counted : (∀ w, (s.pc w).atSeq = false) → s.txseq = first + BitVec.ofNat 8 s.wire.length
  written : ∀ w, (s.pc w).atSeq = true → s.txseq + 1 = first + BitVec.ofNat 8 s.wire.length
  built : ∀ w p, (s.pc w).built = some p → seqOf p = s.txseq

omit [DecidableEq T] in
theorem numbered_start (first txwindow fcmask : Byte) (link : Link) :
    Numbered first (start T first txwindow fcmask link) := by
  refine ⟨sendsLocked_start _ _ _ _, rfl, ?_, ?_, ?_⟩
  · intro _
    simp [start]
  · intro w hw
    cases w <;> simp [start, Pc.atSeq] at hw
  · intro w p hw
    cases w <;> simp [start, Pc.built] at hw

theorem holdsT_of_waiting {pc : Pc} (h : pc.waiting = true) : pc.holdsT = true := by
  cases pc <;> first | rfl | cases h

/-- A built packet waits for `pktlock`, or its task holds it. -/
theorem built_of_not_waiting {pc : Pc} (hP : pc.holdsP = false) (hw : pc.waiting = false) :
    pc.built = none := by
  cases pc <;> first | rfl | (cases hP; done) | cases hw

/-- A step that leaves the wire and `txseq` alone. -/
theorem numbered_quiet {first : Byte} {s t : State T} {w : Who T} {pc' : Pc}
    (h : Numbered first s) (hl : SendsLocked t) (hpc : t.pc = Function.update s.pc w pc')
    (hwire : t.wire = s.wire) (htx : t.txseq = s.txseq) (ha : pc'.atSeq = (s.pc w).atSeq)
    (hb : ∀ p, pc'.built = some p → seqOf p = s.txseq) : Numbered first t := by
  have hat : ∀ v, (t.pc v).atSeq = (s.pc v).atSeq := by
    intro v
    by_cases hv : v = w
    · subst hv
      rw [hpc, Function.update_self, ha]
    · rw [hpc, Function.update_of_ne hv]
  refine ⟨hl, by rw [hwire]; exact h.wire, ?_, ?_, ?_⟩
  · intro hall
    rw [htx, hwire]
    exact h.counted fun v => by rw [← hat v]; exact hall v
  · intro v hv
    rw [htx, hwire]
    exact h.written v (by rw [← hat v]; exact hv)
  · intro v p hv
    rw [htx]
    by_cases hvw : v = w
    · subst hvw
      rw [hpc, Function.update_self] at hv
      exact hb p hv
    · rw [hpc, Function.update_of_ne hvw] at hv
      exact h.built v p hv

/-- The task that holds `pktlock` writes its packet. -/
theorem numbered_write {first : Byte} {s t : State T} {w : Who T} {pc' : Pc} {p : Packet}
    (h : Numbered first s) (hl : SendsLocked t) (hpc : t.pc = Function.update s.pc w pc')
    (hwire : t.wire = s.wire ++ [p]) (htx : t.txseq = s.txseq) (hw : (s.pc w).built = some p)
    (hP : (s.pc w).holdsP = true) (ha : (s.pc w).atSeq = false) (ha' : pc'.atSeq = true)
    (hb' : pc'.built = none) : Numbered first t := by
  have hnone : ∀ v, (s.pc v).atSeq = false := by
    intro v
    by_contra hv
    have hvw := held_unique h.locked.pktlock (holdsP_of_atSeq (by simpa using hv)) hP
    subst hvw
    exact hv ha
  have hnext := h.counted hnone
  refine ⟨hl, ?_, ?_, ?_, ?_⟩
  · rw [hwire, List.map_append, List.length_append, h.wire]
    simp only [List.map_cons, List.map_nil, List.length_singleton]
    rw [consecutive_succ, h.built w p hw, hnext]
  · intro hall
    have := hall w
    rw [hpc, Function.update_self, ha'] at this
    cases this
  · intro v _
    rw [htx, hwire, List.length_append, List.length_singleton, hnext, BitVec.ofNat_add,
      BitVec.add_assoc]
    rfl
  · intro v q hv
    rw [htx]
    by_cases hvw : v = w
    · subst hvw
      rw [hpc, Function.update_self, hb'] at hv
      cases hv
    · rw [hpc, Function.update_of_ne hvw] at hv
      exact h.built v q hv

/-- The task that holds `pktlock` counts the packet it wrote. No other task may
have a header with the old number. -/
theorem numbered_count {first : Byte} {s t : State T} {w : Who T} {pc' : Pc}
    (h : Numbered first s) (hl : SendsLocked t) (hpc : t.pc = Function.update s.pc w pc')
    (hwire : t.wire = s.wire) (htx : t.txseq = s.txseq + 1) (ha : (s.pc w).atSeq = true)
    (ha' : pc'.atSeq = false) (hb' : pc'.built = none)
    (hwait : ∀ v, v ≠ w → (s.pc v).waiting = false) : Numbered first t := by
  have hnone : ∀ v, v ≠ w → (s.pc v).holdsP = false := by
    intro v hv
    by_contra hP
    exact hv (held_unique h.locked.pktlock (by simpa using hP) (holdsP_of_atSeq ha))
  have hbuilt : ∀ v, (t.pc v).built = none := by
    intro v
    by_cases hv : v = w
    · subst hv
      rw [hpc, Function.update_self, hb']
    · rw [hpc, Function.update_of_ne hv]
      exact built_of_not_waiting (hnone v hv) (hwait v hv)
  refine ⟨hl, by rw [hwire]; exact h.wire, ?_, ?_, ?_⟩
  · intro _
    rw [htx, hwire]
    exact h.written w ha
  · intro v hv
    exfalso
    by_cases hvw : v = w
    · subst hvw
      rw [hpc, Function.update_self, ha'] at hv
      cases hv
    · rw [hpc, Function.update_of_ne hvw] at hv
      have hP := holdsP_of_atSeq hv
      rw [hnone v hvw] at hP
      cases hP
  · intro v q hv
    rw [hbuilt v] at hv
    cases hv

theorem numbered_step {first : Byte} {s t : State T} {a : Act T} (h : Numbered first s)
    (hexclude : SendsExclude s a) (hok : HeaderFresh s a) (hs : step s a = some t) :
    Numbered first t := by
  have hm := moves_of_step hs
  have hl := sendsLocked_step h.locked hexclude hm
  cases hm
  case txWrite hpc =>
    exact numbered_write h hl rfl rfl rfl (congrArg Pc.built hpc) (congrArg Pc.holdsP hpc)
      (congrArg Pc.atSeq hpc) rfl rfl
  case cmdWrite hpc =>
    exact numbered_write h hl rfl rfl rfl (congrArg Pc.built hpc) (congrArg Pc.holdsP hpc)
      (congrArg Pc.atSeq hpc) rfl rfl
  case txSeq w b hpc =>
    refine numbered_count h hl rfl rfl rfl (congrArg Pc.atSeq hpc) rfl rfl fun v hv => ?_
    -- Only one `txstart` at a time is behind `tlock`.
    by_contra hw
    have hT := holdsT_of_waiting (by simpa using hw)
    exact hv (held_unique h.locked.tlock hT (congrArg Pc.holdsT hpc))
  case cmdSeq w p hpc =>
    exact numbered_count h hl rfl rfl rfl (congrArg Pc.atSeq hpc) rfl rfl
      fun v _ => hok (congrArg Pc.isCmdSeq hpc) v
  case txBuild hpc =>
    refine numbered_quiet h hl rfl rfl rfl (congrArg Pc.atSeq hpc).symm ?_
    intro p hp
    cases hp
    rfl
  case cmdEncode hpc =>
    refine numbered_quiet h hl rfl rfl rfl (congrArg Pc.atSeq hpc).symm ?_
    intro p hp
    cases hp
    rfl
  case txPktlock w b p hpc _ =>
    refine numbered_quiet h hl rfl rfl rfl (congrArg Pc.atSeq hpc).symm ?_
    intro q hq
    cases hq
    exact h.built w p (congrArg Pc.built hpc)
  case txPset w b p hpc =>
    refine numbered_quiet h hl rfl rfl rfl (congrArg Pc.atSeq hpc).symm ?_
    intro q hq
    cases hq
    exact h.built w p (congrArg Pc.built hpc)
  all_goals
    have hpc := ‹s.pc _ = _›
    exact numbered_quiet h hl rfl rfl rfl (congrArg Pc.atSeq hpc).symm (by simp [Pc.built])

/-! ## The law -/

/-- The sequence numbers on the wire are consecutive modulo 256 from the first
`txseq` on, in every run in which the mutexes exclude and no command counts its
packet while a `txstart` waits for `pktlock` with its header built. -/
theorem sequence_numbers_are_consecutive (txseq txwindow fcmask : Byte) (link : Link)
    (acts : List (Act T)) (t : State T)
    (hok : Allowed step (fun s a => SendsExclude s a ∧ HeaderFresh s a)
      (start T txseq txwindow fcmask link) acts)
    (h : exec step (start T txseq txwindow fcmask link) acts = some t) :
    t.wire.map seqOf = consecutive txseq t.wire.length :=
  (exec_inv (Numbered txseq) (fun _ _ _ hi hk hs => numbered_step hi hk.1 hk.2 hs)
    (numbered_start txseq txwindow fcmask link) hok h).wire

theorem inTurn_is_consecutive :
    Allowed step (fun s a => SendsExclude s a ∧ HeaderFresh s a) (twoTasks 5) inTurn ∧
      ∃ t, exec step (twoTasks 5) inTurn = some t ∧ t.wire.length = 2 ∧
        t.wire.map seqOf = consecutive 0 t.wire.length := by
  have hok : Allowed step (fun s a => SendsExclude s a ∧ HeaderFresh s a) (twoTasks 5) inTurn := by
    decide +kernel
  have hlen : (exec step (twoTasks 5) inTurn).map (fun t => t.wire.length) = some 2 := by
    decide +kernel
  obtain ⟨t, ht, h2⟩ := Option.map_eq_some_iff.mp hlen
  exact ⟨hok, t, ht, h2, sequence_numbers_are_consecutive 0 5 0 _ inTurn t hok ht⟩

/-- The sender builds the header of its frame and is switched out at the acquire
of `pktlock`. The other task sends a command, and then the frame is written. -/
def staleHeader : List (Act Pair) :=
  [.send_frame .sender smallFrame] ++ List.replicate 5 (.run (.task .sender)) ++
    [.wlcmd .commander smallRequest] ++ List.replicate 8 (.run (.task .commander)) ++
    List.replicate 3 (.run (.task .sender))

/-- The mutexes exclude in this run, and a number is repeated. -/
theorem a_stale_header_repeats_a_number : Allowed step SendsExclude (twoTasks 5) staleHeader ∧
    ∃ t, exec step (twoTasks 5) staleHeader = some t ∧ t.wire.map seqOf = [0, 0] ∧
      t.wire.map seqOf ≠ consecutive 0 t.wire.length := by
  have hnum : (exec step (twoTasks 5) staleHeader).map (fun t => t.wire.map seqOf) = some [0, 0] := by
    decide +kernel
  obtain ⟨t, ht, h2⟩ := Option.map_eq_some_iff.mp hnum
  have hlen : t.wire.length = 2 := by
    have := congrArg List.length h2
    simpa using this
  refine ⟨by decide +kernel, t, ht, h2, ?_⟩
  rw [h2, hlen]
  decide

end rpi_wifi.ether4330
