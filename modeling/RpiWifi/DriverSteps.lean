-- What one step of the driver can do, said once: a case for each way a step
-- goes, with its guard and the state it leaves. Every law of the driver is
-- proved over these cases. The first law is that a mutex is held by the task
-- that stands between its acquire and its release, as long as every task that
-- sets it finds it clear.
import RpiWifi.Driver

namespace rpi_wifi.ether4330

variable {T : Type} [DecidableEq T]

/-! ## The cases of a step -/

/-- `Moves s a t`: the action `a` takes the driver from `s` to `t`. -/
inductive Moves (s : State T) : Act T → State T → Prop where
  | sendFrame {t b} (hpc : s.pc (.task t) = .idle) :
      Moves s (.send_frame t b) ({ s with oq := s.oq ++ [b] }.goto (.task t) .txTlock)
  | callCmd {t c} (hpc : s.pc (.task t) = .idle) :
      Moves s (.wlcmd t c) (s.goto (.task t) (.cmdLock c))
  | alloc {ptr rp} (hpc : s.pc .rproc = .rAlloc) (hfresh : ptr ∉ s.blocks) :
      Moves s (.alloc ptr rp) ({ s with blocks := ptr :: s.blocks }.goto .rproc
        (.rPktlock { ptr, rp, headroom := 64, bytes := [] }))
  | headerEmpty {h b} (hpc : s.pc .rproc = .rHeader b) :
      Moves s (.header h) ((freeb s b).goto .rproc (.rUnpkt none))
  | headerGood {h b} (hpc : s.pc .rproc = .rHeader b) (hok : headerOk h = true) :
      Moves s (.header h) (s.goto .rproc (.rBody b h))
  | headerBad {h b} (hpc : s.pc .rproc = .rHeader b) :
      Moves s (.header h) (s.goto .rproc (.rHeader b))
  | body {d h b} (hpc : s.pc .rproc = .rBody b h) :
      Moves s (.body d) (s.goto .rproc
        (.rUnpkt (some { b with bytes := h ++ d.take (lenOf h - sizeofSdpcm) })))
  | txTlock {w} (hpc : s.pc w = .txTlock) (hfree : s.tlock = none) :
      Moves s (.run w) (s.goto w .txTset)
  | txTset {w} (hpc : s.pc w = .txTset) :
      Moves s (.run w) ({ s with tlock := some w }.goto w .txTest)
  | txClosed {w} (hpc : s.pc w = .txTest) (hb : blocked s.txseq s.txwindow s.fcmask = true) :
      Moves s (.run w) (s.goto w .txUntlock)
  | txOpen {w} (hpc : s.pc w = .txTest) (hb : blocked s.txseq s.txwindow s.fcmask = false) :
      Moves s (.run w) (s.goto w .txGet)
  | txEmpty {w} (hpc : s.pc w = .txGet) (hq : s.oq = []) : Moves s (.run w) (s.goto w .txUntlock)
  | txGet {w b rest} (hpc : s.pc w = .txGet) (hq : s.oq = b :: rest) :
      Moves s (.run w) ({ s with oq := rest }.goto w (.txBuild b))
  | txBuild {w b b'} (hpc : s.pc w = .txBuild b) :
      Moves s (.run w) (s.goto w (.txPktlock b' (dataPacket b.rp b.bytes s.txseq)))
  | txPktlock {w b p} (hpc : s.pc w = .txPktlock b p) (hfree : s.pktlock = none) :
      Moves s (.run w) (s.goto w (.txPset b p))
  | txPset {w b p} (hpc : s.pc w = .txPset b p) :
      Moves s (.run w) ({ s with pktlock := some w }.goto w (.txWrite b p))
  | txWrite {w b p} (hpc : s.pc w = .txWrite b p) :
      Moves s (.run w) ((packetrw s p).goto w (.txSeq b))
  | txSeq {w b} (hpc : s.pc w = .txSeq b) :
      Moves s (.run w) ({ s with txseq := s.txseq + 1 }.goto w (.txUnpkt b))
  | txUnpkt {w b} (hpc : s.pc w = .txUnpkt b) :
      Moves s (.run w) ({ s with pktlock := none }.goto w .txTest)
  | txReturn (hpc : s.pc .rproc = .txUntlock) :
      Moves s (.run .rproc) ({ s with tlock := none }.goto .rproc .rAlloc)
  | txDone {t} (hpc : s.pc (.task t) = .txUntlock) :
      Moves s (.run (.task t)) ({ s with tlock := none }.goto (.task t) .idle)
  | cmdLock {w c} (hpc : s.pc w = .cmdLock c) (hfree : s.cmdlock = none) :
      Moves s (.run w) (s.goto w (.cmdSet c))
  | cmdSet {w c} (hpc : s.pc w = .cmdSet c) :
      Moves s (.run w) ({ s with cmdlock := some w }.goto w (.cmdPktlock c))
  | cmdPktlock {w c} (hpc : s.pc w = .cmdPktlock c) (hfree : s.pktlock = none) :
      Moves s (.run w) (s.goto w (.cmdPset c))
  | cmdPset {w c} (hpc : s.pc w = .cmdPset c) :
      Moves s (.run w) ({ s with pktlock := some w }.goto w (.cmdEncode c))
  | cmdEncode {w c} (hpc : s.pc w = .cmdEncode c) :
      Moves s (.run w) ({ s with reqid := s.reqid + 1 }.goto w
        (.cmdWrite (commandPacket c s.txseq (s.reqid + 1))))
  | cmdWrite {w p} (hpc : s.pc w = .cmdWrite p) :
      Moves s (.run w) ((packetrw s p).goto w (.cmdSeq p))
  | cmdSeq {w p} (hpc : s.pc w = .cmdSeq p) :
      Moves s (.run w) ({ s with txseq := s.txseq + 1 }.goto w (.cmdUnpkt p))
  | cmdUnpkt {w p} (hpc : s.pc w = .cmdUnpkt p) :
      Moves s (.run w) ({ s with pktlock := none }.goto w (.cmdSleep p))
  | cmdWait {w p} (hpc : s.pc w = .cmdSleep p) : Moves s (.run w) (s.goto w (.cmdSleep p))
  | cmdWake {w p} (hpc : s.pc w = .cmdSleep p) : Moves s (.run w) (s.goto w (.cmdTake p))
  | cmdTake {w p b} (hpc : s.pc w = .cmdTake p) (hrsp : s.rsp = some b) :
      Moves s (.run w) (s.goto w (.cmdClear p b))
  | cmdClear {w p b} (hpc : s.pc w = .cmdClear p b) :
      Moves s (.run w) ({ s with rsp := none }.goto w (.cmdFree p b))
  | cmdFree {w p b} (hpc : s.pc w = .cmdFree p b) :
      Moves s (.run w) ((freeb s b).goto w .cmdUnlock)
  | cmdUnlock {w} (hpc : s.pc w = .cmdUnlock) :
      Moves s (.run w) ({ s with cmdlock := none }.goto w .idle)
  | rStart {w} (hpc : s.pc w = .rTop) :
      Moves s (.run w) ({ s with flowstart := false }.goto w .txTlock)
  | rRead {w} (hpc : s.pc w = .rTop) (hflow : s.flowstart = false) :
      Moves s (.run w) (s.goto w .rAlloc)
  | rPktlock {w b} (hpc : s.pc w = .rPktlock b) (hfree : s.pktlock = none) :
      Moves s (.run w) (s.goto w (.rPset b))
  | rPset {w b} (hpc : s.pc w = .rPset b) :
      Moves s (.run w) ({ s with pktlock := some w }.goto w (.rHeader b))
  | rGot {w b} (hpc : s.pc w = .rUnpkt (some b)) :
      Moves s (.run w) ({ s with pktlock := none }.goto w (.rWindow b))
  | rNothing {w} (hpc : s.pc w = .rUnpkt none) :
      Moves s (.run w) ({ s with pktlock := none }.goto w .rIntwait)
  | rIntwait {w} (hpc : s.pc w = .rIntwait) : Moves s (.run w) (s.goto w .rTop)
  | rWindow {w b} (hpc : s.pc w = .rWindow b) :
      Moves s (.run w) ((updateWindow s b.bytes).goto w (.rSwitch b))
  | rReply {w b} (hpc : s.pc w = .rSwitch b) (hd : deliver b.bytes s.reqid = .reply) :
      Moves s (.run w) (s.goto w (.rStore b))
  | rEvent {w b p} (hpc : s.pc w = .rSwitch b) (hd : deliver b.bytes s.reqid = .event p) :
      Moves s (.run w) ({ s with link := bcmevent s.link p }.goto w (.rFree b))
  | rFrame {w b p} (hpc : s.pc w = .rSwitch b) (hd : deliver b.bytes s.reqid = .frame p) :
      Moves s (.run w) ({ s with
        frame_receive_queue :=
          enqueue_nqueue s.frame_receive_queue p (BitVec.ofNat 32 p.length) }.goto w .rTop)
  | rDrop {w b} (hpc : s.pc w = .rSwitch b) (hd : deliver b.bytes s.reqid = .drop) :
      Moves s (.run w) (s.goto w (.rFree b))
  | rStore {w b} (hpc : s.pc w = .rStore b) :
      Moves s (.run w) ({ s with rsp := some b }.goto w .rTop)
  | rFree {w b} (hpc : s.pc w = .rFree b) : Moves s (.run w) ((freeb s b).goto w .rTop)

theorem moves_of_runTask {s t : State T} {w : Who T} (h : runTask s w = some t) :
    Moves s (.run w) t := by
  unfold runTask at h
  split at h
  case h_1 => cases h
  case h_2 hpc => split at h <;> cases h; exact .txTlock hpc ‹_›
  case h_3 hpc => cases h; exact .txTset hpc
  case h_4 hpc =>
    cases h
    split
    · exact .txClosed hpc ‹_›
    · rename_i hb
      exact .txOpen hpc (by simpa using hb)
  case h_5 hpc =>
    split at h <;> cases h
    · exact .txEmpty hpc ‹_›
    · exact .txGet hpc ‹_›
  case h_6 hpc =>
    obtain ⟨b', _, rfl⟩ := Option.map_eq_some_iff.mp h
    exact .txBuild hpc
  case h_7 hpc => split at h <;> cases h; exact .txPktlock hpc ‹_›
  case h_8 hpc => cases h; exact .txPset hpc
  case h_9 hpc => cases h; exact .txWrite hpc
  case h_10 hpc => cases h; exact .txSeq hpc
  case h_11 hpc => cases h; exact .txUnpkt hpc
  case h_12 hpc =>
    cases h
    cases w with
    | rproc => exact .txReturn hpc
    | task t => exact .txDone hpc
  case h_13 hpc => split at h <;> cases h; exact .cmdLock hpc ‹_›
  case h_14 hpc => cases h; exact .cmdSet hpc
  case h_15 hpc => split at h <;> cases h; exact .cmdPktlock hpc ‹_›
  case h_16 hpc => cases h; exact .cmdPset hpc
  case h_17 hpc => cases h; exact .cmdEncode hpc
  case h_18 hpc => cases h; exact .cmdWrite hpc
  case h_19 hpc => cases h; exact .cmdSeq hpc
  case h_20 hpc => cases h; exact .cmdUnpkt hpc
  case h_21 hpc =>
    cases h
    split
    · exact .cmdWake hpc
    · exact .cmdWait hpc
  case h_22 hpc =>
    obtain ⟨b, hb, rfl⟩ := Option.map_eq_some_iff.mp h
    exact .cmdTake hpc hb
  case h_23 hpc => cases h; exact .cmdClear hpc
  case h_24 hpc => cases h; exact .cmdFree hpc
  case h_25 hpc => cases h; exact .cmdUnlock hpc
  case h_26 hpc =>
    split at h <;> cases h
    · exact .rStart hpc
    · rename_i hflow
      exact .rRead hpc (by simpa using hflow)
  case h_27 => cases h
  case h_28 hpc => split at h <;> cases h; exact .rPktlock hpc ‹_›
  case h_29 hpc => cases h; exact .rPset hpc
  case h_30 => cases h
  case h_31 => cases h
  case h_32 o hpc =>
    cases h
    cases o with
    | none => exact .rNothing hpc
    | some b => exact .rGot hpc
  case h_33 hpc => cases h; exact .rIntwait hpc
  case h_34 hpc => cases h; exact .rWindow hpc
  case h_35 hpc =>
    split at h <;> cases h
    · exact .rReply hpc ‹_›
    · exact .rEvent hpc ‹_›
    · exact .rFrame hpc ‹_›
    · exact .rDrop hpc ‹_›
  case h_36 hpc => cases h; exact .rStore hpc
  case h_37 hpc => cases h; exact .rFree hpc

/-- Every step of the driver is one of the cases. -/
theorem moves_of_step {s t : State T} {a : Act T} (h : step s a = some t) : Moves s a t := by
  cases a with
  | send_frame i b =>
    simp only [step] at h
    split at h <;> cases h
    exact .sendFrame ‹_›
  | wlcmd i c =>
    simp only [step] at h
    split at h <;> cases h
    exact .callCmd ‹_›
  | alloc ptr rp =>
    simp only [step] at h
    split at h <;> cases h
    rename_i hc
    exact .alloc hc.1 hc.2
  | header hd =>
    simp only [step] at h
    split at h
    · rename_i b hpc
      unfold readHeader at h
      split at h
      · cases h
      · split at h
        · cases h; exact .headerEmpty hpc
        · split at h <;> cases h
          · exact .headerGood hpc ‹_›
          · exact .headerBad hpc
    · cases h
  | body d =>
    simp only [step] at h
    split at h
    · rename_i b hd hpc
      unfold readBody at h
      split at h <;> cases h
      exact .body hpc
    · cases h
  | run w => exact moves_of_runTask h

/-- The action lets a task run on that stands at one of the places `f`. -/
def State.runsAt (s : State T) (f : Pc → Bool) : Act T → Bool
  | .run w => f (s.pc w)
  | _ => false

/-- The packet whose window and mask the action installs, if it is the window
update of `rproc`. -/
def State.installs (s : State T) : Act T → Option Packet
  | .run w => match s.pc w with
    | .rWindow b => some b.bytes
    | _ => none
  | _ => none

/-! ## The mutexes and the tasks that hold them -/

/-- The task has found `tlock` clear, and is about to set it. -/
def Pc.setsT : Pc → Bool
  | .txTset => true
  | _ => false

/-- The task has found `pktlock` clear, and is about to set it. -/
def Pc.setsP : Pc → Bool
  | .txPset _ _ | .cmdPset _ | .rPset _ => true
  | _ => false

/-- The task has found `cmdlock` clear, and is about to set it. -/
def Pc.setsC : Pc → Bool
  | .cmdSet _ => true
  | _ => false

/-- The task stands between the acquire and the release of `tlock`. -/
def Pc.holdsT : Pc → Bool
  | .txTest | .txGet | .txBuild _ | .txPktlock _ _ | .txPset _ _ | .txWrite _ _ | .txSeq _
  | .txUnpkt _ | .txUntlock => true
  | _ => false

/-- The task stands between the acquire and the release of `pktlock`. -/
def Pc.holdsP : Pc → Bool
  | .txWrite _ _ | .txSeq _ | .txUnpkt _ => true
  | .cmdEncode _ | .cmdWrite _ | .cmdSeq _ | .cmdUnpkt _ => true
  | .rHeader _ | .rBody _ _ | .rUnpkt _ => true
  | _ => false

/-- The task stands between the acquire and the release of `cmdlock`. -/
def Pc.holdsC : Pc → Bool
  | .cmdPktlock _ | .cmdPset _ | .cmdEncode _ | .cmdWrite _ | .cmdSeq _ | .cmdUnpkt _
  | .cmdSleep _ | .cmdTake _ | .cmdClear _ _ | .cmdFree _ _ | .cmdUnlock => true
  | _ => false

/-- The packet is written, and `txseq` does not count it yet. -/
def Pc.atSeq : Pc → Bool
  | .txSeq _ | .cmdSeq _ => true
  | _ => false

def Pc.isCmdSeq : Pc → Bool
  | .cmdSeq _ => true
  | _ => false

/-- The places of `rproc` and `wlreadpkt`. -/
def Pc.ofReader : Pc → Bool
  | .rTop | .rAlloc | .rPktlock _ | .rPset _ | .rHeader _ | .rBody _ _ | .rUnpkt _ | .rIntwait
  | .rWindow _ | .rSwitch _ | .rStore _ | .rFree _ => true
  | _ => false

/-- The places of a task that calls the driver, `txstart` left out. -/
def Pc.ofCaller : Pc → Bool
  | .idle | .cmdLock _ | .cmdSet _ | .cmdPktlock _ | .cmdPset _ | .cmdEncode _ | .cmdWrite _
  | .cmdSeq _ | .cmdUnpkt _ | .cmdSleep _ | .cmdTake _ | .cmdClear _ _ | .cmdFree _ _
  | .cmdUnlock => true
  | _ => false

theorem holdsP_of_atSeq {pc : Pc} (h : pc.atSeq = true) : pc.holdsP = true := by
  cases pc <;> first | rfl | cases h

/-- A task that sets the mutex finds it clear, as it was at its test. -/
def StoresFree (sets : Pc → Bool) (lock : State T → Option (Who T)) (s : State T) (a : Act T) :
    Prop :=
  s.runsAt sets a = true → lock s = none

instance (sets : Pc → Bool) (lock : State T → Option (Who T)) (s : State T) (a : Act T) :
    Decidable (StoresFree sets lock s a) := inferInstanceAs (Decidable (_ → _))

/-- The two mutexes of the senders exclude. -/
def SendsExclude (s : State T) (a : Act T) : Prop :=
  StoresFree Pc.setsT State.tlock s a ∧ StoresFree Pc.setsP State.pktlock s a

/-- The mutex of the commands excludes. -/
def CommandsExclude (s : State T) (a : Act T) : Prop := StoresFree Pc.setsC State.cmdlock s a

instance (s : State T) (a : Act T) : Decidable (SendsExclude s a) :=
  inferInstanceAs (Decidable (_ ∧ _))

instance (s : State T) (a : Act T) : Decidable (CommandsExclude s a) :=
  inferInstanceAs (Decidable (StoresFree Pc.setsC State.cmdlock s a))

/-- A mutex is held by exactly the task that stands inside it. -/
def Held (holds : Pc → Bool) (pc : Who T → Pc) (lock : Option (Who T)) : Prop :=
  ∀ w, holds (pc w) = true ↔ lock = some w

/-- The mutexes of `txstart` and of the packets have the task inside them as their holder. -/
structure SendsLocked (s : State T) : Prop where
  tlock : Held Pc.holdsT s.pc s.tlock
  pktlock : Held Pc.holdsP s.pc s.pktlock

/-- Only `rproc` stands in the code of `rproc`. -/
structure Roles (s : State T) : Prop where
  callers : ∀ t, (s.pc (.task t)).ofReader = false
  reader : (s.pc .rproc).ofCaller = false

/-- The mutex of the commands has the command inside it as its holder. -/
structure CommandsLocked (s : State T) : Prop extends Roles s where
  cmdlock : Held Pc.holdsC s.pc s.cmdlock

omit [DecidableEq T] in
theorem held_unique {holds : Pc → Bool} {pc : Who T → Pc} {lock : Option (Who T)}
    (h : Held holds pc lock) {v w : Who T} (hv : holds (pc v) = true) (hw : holds (pc w) = true) :
    v = w := by
  have h1 := (h v).mp hv
  rw [(h w).mp hw] at h1
  exact (Option.some.inj h1).symm

/-- A task that goes on inside the mutex, or outside it, leaves the holder as it was. -/
theorem held_goto {holds : Pc → Bool} {pc : Who T → Pc} {lock : Option (Who T)} {w : Who T}
    {pc' : Pc} (h : Held holds pc lock) (he : holds pc' = holds (pc w)) :
    Held holds (Function.update pc w pc') lock := by
  intro v
  by_cases hv : v = w
  · subst hv
    rw [Function.update_self, he]
    exact h v
  · rw [Function.update_of_ne hv]
    exact h v

theorem held_acquire {holds : Pc → Bool} {pc : Who T → Pc} {lock : Option (Who T)} {w : Who T}
    {pc' : Pc} (h : Held holds pc lock) (hfree : lock = none) (he : holds pc' = true) :
    Held holds (Function.update pc w pc') (some w) := by
  intro v
  by_cases hv : v = w
  · subst hv
    simp [he]
  · rw [Function.update_of_ne hv, h v, hfree]
    simp [Ne.symm hv]

theorem held_release {holds : Pc → Bool} {pc : Who T → Pc} {lock : Option (Who T)} {w : Who T}
    {pc' : Pc} (h : Held holds pc lock) (hw : holds (pc w) = true) (he : holds pc' = false) :
    Held holds (Function.update pc w pc') none := by
  intro v
  by_cases hv : v = w
  · subst hv
    simp [he]
  · rw [Function.update_of_ne hv, h v, (h w).mp hw]
    simp [Ne.symm hv]

theorem callers_goto {pc : Who T → Pc} {w : Who T} {pc' : Pc}
    (h : ∀ t, (pc (.task t)).ofReader = false)
    (he : w ≠ .rproc → pc'.ofReader = false) :
    ∀ t, (Function.update pc w pc' (.task t)).ofReader = false := by
  intro t
  by_cases ht : Who.task t = w
  · subst ht
    rw [Function.update_self]
    exact he (by simp)
  · rw [Function.update_of_ne ht]
    exact h t

theorem reader_goto {pc : Who T → Pc} {w : Who T} {pc' : Pc} (h : (pc .rproc).ofCaller = false)
    (he : w = .rproc → pc'.ofCaller = false) :
    (Function.update pc w pc' .rproc).ofCaller = false := by
  by_cases hw : w = Who.rproc
  · subst hw
    rw [Function.update_self]
    exact he rfl
  · rw [Function.update_of_ne (Ne.symm hw)]
    exact h

omit [DecidableEq T] in
/-- A task in the code of `rproc` is `rproc`. -/
theorem Roles.is_reader {s : State T} (h : Roles s) {w : Who T}
    (hw : (s.pc w).ofReader = true) : w = .rproc := by
  cases w with
  | rproc => rfl
  | task t =>
    rw [h.callers t] at hw
    cases hw

omit [DecidableEq T] in
/-- A task in the code of a caller is not `rproc`. -/
theorem Roles.not_reader {s : State T} (h : Roles s) {w : Who T}
    (hw : (s.pc w).ofCaller = true) : w ≠ .rproc := by
  rintro rfl
  rw [h.reader] at hw
  cases hw

omit [DecidableEq T] in
theorem sendsLocked_start (txseq txwindow fcmask : Byte) (link : Link) :
    SendsLocked (start T txseq txwindow fcmask link) := by
  constructor
  all_goals
    intro w
    cases w <;> simp [start, Pc.holdsT, Pc.holdsP]

omit [DecidableEq T] in
theorem commandsLocked_start (txseq txwindow fcmask : Byte) (link : Link) :
    CommandsLocked (start T txseq txwindow fcmask link) := by
  refine ⟨⟨fun _ => rfl, rfl⟩, ?_⟩
  intro w
  cases w <;> simp [start, Pc.holdsC]

/-- A step of the senders keeps their mutexes with the tasks inside them. -/
theorem sendsLocked_step {s t : State T} {a : Act T} (h : SendsLocked s)
    (hok : SendsExclude s a) (hm : Moves s a t) : SendsLocked t := by
  obtain ⟨htfree, hpfree⟩ := hok
  cases hm
  all_goals
    have hpc := ‹s.pc _ = _›
    dsimp only [State.goto, packetrw, freeb, updateWindow]
    constructor
    · first
      | exact held_goto h.tlock (congrArg Pc.holdsT hpc).symm
      | exact held_acquire h.tlock (htfree (congrArg Pc.setsT hpc)) rfl
      | exact held_release h.tlock (congrArg Pc.holdsT hpc) rfl
    · first
      | exact held_goto h.pktlock (congrArg Pc.holdsP hpc).symm
      | exact held_acquire h.pktlock (hpfree (congrArg Pc.setsP hpc)) rfl
      | exact held_release h.pktlock (congrArg Pc.holdsP hpc) rfl

/-- Every step leaves the tasks in their own code. -/
theorem roles_step {s t : State T} {a : Act T} (h : Roles s) (hm : Moves s a t) : Roles t := by
  cases hm
  all_goals
    have hpc := ‹s.pc _ = _›
    dsimp only [State.goto, packetrw, freeb, updateWindow]
    constructor
    · dsimp only
      refine callers_goto h.callers fun hw => ?_
      first
      | rfl
      | exact absurd (h.is_reader (congrArg Pc.ofReader hpc)) hw
      | exact absurd rfl hw
    · dsimp only
      refine reader_goto h.reader fun hw => ?_
      first
      | rfl
      | exact absurd hw (h.not_reader (congrArg Pc.ofCaller hpc))
      | exact absurd hw (by simp)

theorem commandsLocked_step {s t : State T} {a : Act T} (h : CommandsLocked s)
    (hok : CommandsExclude s a) (hm : Moves s a t) : CommandsLocked t := by
  refine ⟨roles_step h.toRoles hm, ?_⟩
  cases hm
  all_goals
    have hpc := ‹s.pc _ = _›
    dsimp only [State.goto, packetrw, freeb, updateWindow]
    first
    | exact held_goto h.cmdlock (congrArg Pc.holdsC hpc).symm
    | exact held_acquire h.cmdlock (hok (congrArg Pc.setsC hpc)) rfl
    | exact held_release h.cmdlock (congrArg Pc.holdsC hpc) rfl

/-! ## Concrete runs -/

/-- Two tasks, one that sends frames and one that sends commands. -/
inductive Pair where
  | sender
  | commander
  deriving DecidableEq

instance : Fintype Pair where
  elems := {.sender, .commander}
  complete := by
    intro t
    cases t <;> simp

/-- A driver with two tasks and clear flow control bytes, but for the window. -/
def twoTasks (txwindow : Byte) : State Pair :=
  start Pair 0 txwindow 0 ⟨true, 0, .Disconnected, [], false, [], []⟩

/-- A frame of 14 bytes at an aligned address. -/
def smallFrame : Block := ⟨0x9000, 0x9100, 64, List.replicate 14 0⟩

/-- `wlsetint` of a variable with a name of one letter. -/
def smallRequest : Request := ⟨true, 263, [0x61, 0], [1, 0, 0, 0], 4⟩

/-- One task sends a frame and the other a command, one after the other. -/
def inTurn : List (Act Pair) :=
  [.send_frame .sender smallFrame] ++ List.replicate 13 (.run (.task .sender)) ++
    [.wlcmd .commander smallRequest] ++ List.replicate 8 (.run (.task .commander))

/-- `rproc` reads a packet that is only a header, up to the window update. The
channel is one that nobody serves. -/
def readWindow (ptr : Nat) (fcmask window : Byte) : List (Act Pair) :=
  [.run .rproc, .alloc ptr 0xA000, .run .rproc, .run .rproc,
    .header [12, 0, 0xF3, 0xFF, 0, 3, 0, 12, fcmask, window, 0, 0], .body [],
    .run .rproc, .run .rproc]

end rpi_wifi.ether4330
