-- The laws of commands and their replies. Each command writes `++ctl->reqid`
-- into its packet, and `rproc` compares the id of a reply with `ctl->reqid`.
-- The counter is a `short`, so the comparison fails for the second half of
-- its values, and the slot `ctl->rsp` can hold a reply that came too late.
import RpiWifi.DriverSteps

namespace rpi_wifi.ether4330

open runs

variable {T : Type} [DecidableEq T]

/-! ## The id of a command -/

/-- The packet of a command that is sent or about to be, and that has not taken
its reply. -/
def Pc.outstanding : Pc → Option Packet
  | .cmdWrite p | .cmdSeq p | .cmdUnpkt p | .cmdSleep p | .cmdTake p => some p
  | _ => none

def Pc.isCmdEncode : Pc → Bool
  | .cmdEncode _ => true
  | _ => false

/-- The packet that the action builds, if it is the encoding of a command. -/
def State.encodes (s : State T) : Act T → Option Packet
  | .run w => match s.pc w with
    | .cmdEncode c => some (commandPacket c s.txseq (s.reqid + 1))
    | _ => none
  | _ => none

theorem holdsC_of_outstanding {pc : Pc} {p : Packet} (h : pc.outstanding = some p) :
    pc.holdsC = true := by
  cases pc <;> first | rfl | cases h

/-- The packets that `wlcmd` built in the run, in order. -/
def commandPackets (s : State T) : List (Act T) → List Packet
  | [] => []
  | a :: as => (s.encodes a).toList ++ (step s a).elim [] fun t => commandPackets t as

/-- Only the encoding of a command changes `reqid`: it adds one, and it writes
the sum into the packet. -/
theorem encodes_step {s t : State T} {a : Act T} (hs : step s a = some t) :
    (s.encodes a = none ∧ t.reqid = s.reqid) ∨
    (∃ p, s.encodes a = some p ∧ t.reqid = s.reqid + 1 ∧ idOf p = idBytes t.reqid) := by
  have hm := moves_of_step hs
  cases hm
  case cmdEncode c hpc =>
    right
    refine ⟨commandPacket c s.txseq (s.reqid + 1), ?_, rfl, idOf_commandPacket _ _ _⟩
    simp [State.encodes, hpc]
  all_goals
    left
    have hpc := ‹s.pc _ = _›
    simp [State.encodes, hpc, State.goto, packetrw, freeb, updateWindow]

theorem commandPackets_append {s t : State T} {as bs : List (Act T)}
    (h : exec step s as = some t) :
    commandPackets s (as ++ bs) = commandPackets s as ++ commandPackets t bs := by
  induction as generalizing s with
  | nil =>
    cases h
    rfl
  | cons a as ih =>
    obtain ⟨r, hr, hrt⟩ := exec_cons_some h
    simp only [List.cons_append, commandPackets, hr, Option.elim_some]
    rw [ih hrt, List.append_assoc]

/-- `reqid` counts the commands, modulo its width. -/
theorem reqid_run {s t : State T} {acts : List (Act T)} (h : exec step s acts = some t) :
    t.reqid = s.reqid + BitVec.ofNat 16 (commandPackets s acts).length := by
  induction acts generalizing s with
  | nil =>
    cases h
    simp [commandPackets]
  | cons a acts ih =>
    obtain ⟨r, hr, hrt⟩ := exec_cons_some h
    rw [ih hrt]
    rcases encodes_step hr with ⟨he, hq⟩ | ⟨p, he, hq, -⟩
    · simp [commandPackets, hr, he, hq]
    · simp only [commandPackets, hr, he, hq, Option.elim_some, Option.toList_some,
        List.length_append, List.length_singleton]
      rw [BitVec.add_assoc, BitVec.ofNat_add]
      rfl

/-- The last command of a run holds the id that `reqid` stands at. -/
theorem idOf_last_command {s t : State T} {acts : List (Act T)} {p : Packet}
    (h : exec step s acts = some t) (hp : (commandPackets s acts).getLast? = some p) :
    idOf p = idBytes t.reqid := by
  induction acts generalizing s with
  | nil => cases hp
  | cons a acts ih =>
    obtain ⟨r, hr, hrt⟩ := exec_cons_some h
    simp only [commandPackets, hr, Option.elim_some, List.getLast?_append] at hp
    rcases hlast : (commandPackets r acts).getLast? with _ | q
    · -- The step took the last id, and the steps behind it took none.
      have hnil : commandPackets r acts = [] := List.getLast?_eq_none_iff.mp hlast
      have hreq : t.reqid = r.reqid := by
        rw [reqid_run hrt, hnil]
        simp
      rw [hlast] at hp
      rcases encodes_step hr with ⟨he, -⟩ | ⟨q, he, -, hq⟩
      · rw [he] at hp
        cases hp
      · rw [he] at hp
        cases hp
        rw [hreq]
        exact hq
    · rw [hlast] at hp
      cases hp
      exact ih hrt hlast

/-- An outstanding command holds the id that `reqid` stands at. -/
structure Asked (s : State T) : Prop where
  locked : CommandsLocked s
  asked : ∀ w p, (s.pc w).outstanding = some p → idOf p = idBytes s.reqid

omit [DecidableEq T] in
theorem asked_start (txseq txwindow fcmask : Byte) (link : Link) :
    Asked (start T txseq txwindow fcmask link) := by
  refine ⟨commandsLocked_start _ _ _ _, ?_⟩
  intro w p hw
  cases w <;> simp [start, Pc.outstanding] at hw

omit [DecidableEq T] in
/-- Two commands are never outstanding at once. -/
theorem outstanding_unique {s : State T} (h : CommandsLocked s) {w : Who T} (hC : (s.pc w).holdsC = true)
    {v : Who T} (hv : v ≠ w) : (s.pc v).outstanding = none := by
  rcases ho : (s.pc v).outstanding with _ | p
  · rfl
  · exact absurd (held_unique h.cmdlock (holdsC_of_outstanding ho) hC) hv

theorem asked_quiet {s t : State T} {w : Who T} {pc' : Pc} (h : Asked s) (hl : CommandsLocked t)
    (hpc : t.pc = Function.update s.pc w pc') (hr : t.reqid = s.reqid)
    (ho : ∀ p, pc'.outstanding = some p → (s.pc w).outstanding = some p) : Asked t := by
  refine ⟨hl, ?_⟩
  intro v p hv
  rw [hr]
  by_cases hvw : v = w
  · subst hvw
    rw [hpc, Function.update_self] at hv
    exact h.asked v p (ho p hv)
  · rw [hpc, Function.update_of_ne hvw] at hv
    exact h.asked v p hv

theorem asked_step {s t : State T} {a : Act T} (h : Asked s) (hexclude : CommandsExclude s a)
    (hs : step s a = some t) : Asked t := by
  have hm := moves_of_step hs
  have hl := commandsLocked_step h.locked hexclude hm
  cases hm
  case cmdEncode w c hpc =>
    refine ⟨hl, ?_⟩
    intro v p hv
    dsimp only [State.goto] at hv ⊢
    by_cases hvw : v = w
    · subst hvw
      rw [Function.update_self] at hv
      cases hv
      exact idOf_commandPacket _ _ _
    · rw [Function.update_of_ne hvw, outstanding_unique h.locked (congrArg Pc.holdsC hpc) hvw] at hv
      cases hv
  all_goals
    have hpc := ‹s.pc _ = _›
    exact asked_quiet h hl rfl rfl (by rw [hpc]; simp [Pc.outstanding])

/-! ## A driver with one task, command after command -/

/-- The places of `rproc` and of the one task. -/
def places (r t : Pc) : Who Unit → Pc
  | .rproc => r
  | .task _ => t

@[simp] theorem places_rproc (r t : Pc) : places r t .rproc = r := rfl

@[simp] theorem places_task (r t : Pc) : places r t (.task ()) = t := rfl

@[simp] theorem update_places_rproc (r t r' : Pc) :
    Function.update (places r t) .rproc r' = places r' t := by
  funext w
  rcases w with _ | _ <;> simp [places, Function.update]

@[simp] theorem update_places_task (r t t' : Pc) :
    Function.update (places r t) (.task ()) t' = places r t' := by
  funext w
  rcases w with _ | _ <;> simp [places, Function.update]

/-- A driver with one task and clear flow control bytes. -/
def oneTask : State Unit := start Unit 0 0 0 ⟨true, 0, .Disconnected, [], false, [], []⟩

/-- The driver between two commands, with what the commands before left behind:
`ctl->reqid`, `ctl->txseq` and the packets on the wire. -/
def resting (reqid : BitVec 16) (txseq : Byte) (wire : List Packet) : State Unit :=
  { oneTask with
    reqid, txseq, wire, pc := places .rTop .idle, sent := wire.length }

/-- The same driver when `rproc` stands at `r`, with the command `p` asleep. -/
def asleep (reqid : BitVec 16) (txseq : Byte) (wire : List Packet) (p : Packet) (r : Pc)
    (blocks : List Nat) : State Unit :=
  { resting reqid txseq wire with
    pc := places r (.cmdSleep p), cmdlock := some (.task ()), blocks }

/-- `wlcmd` up to its `sleep`. -/
def call : List (Act Unit) := .wlcmd () smallRequest :: List.replicate 8 (.run (.task ()))

/-- The header of a packet of channel 0 with 16 bytes behind it. The window and
the mask are those that the driver has. -/
def replyHeader : Packet := [28, 0, 0xE3, 0xFF, 0, 0, 0, 12, 0, 0, 0, 0]

/-- A command header with the id bytes of request `v`. -/
def replyBody (v : BitVec 16) : Packet :=
  List.replicate 10 0 ++ [(idBytes v).1, (idBytes v).2] ++ List.replicate 4 0

def replyBlock (v : BitVec 16) : Block := ⟨0x8000, 0xA000, 64, replyHeader ++ replyBody v⟩

/-- `rproc` reads the reply, up to the switch on its channel. -/
def readReply (v : BitVec 16) : List (Act Unit) :=
  [.run .rproc, .alloc 0x8000 0xA000, .run .rproc, .run .rproc, .header replyHeader,
    .body (replyBody v), .run .rproc, .run .rproc]

/-- `rproc` stores the reply, and the command wakes up, takes it and returns. -/
def takeReply : List (Act Unit) :=
  List.replicate 2 (.run .rproc) ++ List.replicate 5 (.run (.task ()))

theorem call_runs (k : BitVec 16) (q : Byte) (wire : List Packet) :
    exec step (resting k q wire) call =
      some (asleep (k + 1) (q + 1) (wire ++ [commandPacket smallRequest q (k + 1)])
        (commandPacket smallRequest q (k + 1)) .rTop []) := by
  simp [call, List.replicate, exec, step, runTask, resting, oneTask, start, asleep, State.goto, packetrw]

theorem commandPackets_call (k : BitVec 16) (q : Byte) (wire : List Packet) :
    commandPackets (resting k q wire) call = [commandPacket smallRequest q (k + 1)] := by
  simp [call, List.replicate, commandPackets, State.encodes, step, runTask, resting, oneTask, start,
    State.goto, packetrw]

theorem readReply_runs (k : BitVec 16) (q : Byte) (wire : List Packet) (p : Packet)
    (v : BitVec 16) :
    exec step (asleep k q wire p .rTop []) (readReply v) =
      some (asleep k q wire p (.rSwitch (replyBlock v)) [0x8000]) := by
  have hlen : lenOf replyHeader = 28 := by decide
  have hok : headerOk replyHeader = true := by decide
  have hh : replyHeader.length = sizeofSdpcm := rfl
  have hd : (replyBody v).length = ROUND (28 - sizeofSdpcm) 4 := rfl
  have htake : (replyBody v).take (28 - sizeofSdpcm) = replyBody v := rfl
  have hwin : windowOf (replyHeader ++ replyBody v) = 0 := rfl
  have hfc : fcmaskOf (replyHeader ++ replyBody v) = 0 := rfl
  simp [readReply, exec, step, runTask, asleep, resting, oneTask, start, State.goto, updateWindow,
    readHeader, readBody, hh, hlen, hok, hd, htake, hwin, hfc, replyBlock]

theorem commandPackets_readReply (k : BitVec 16) (q : Byte) (wire : List Packet) (p : Packet)
    (v : BitVec 16) : commandPackets (asleep k q wire p .rTop []) (readReply v) = [] := by
  have hlen : lenOf replyHeader = 28 := by decide
  have hok : headerOk replyHeader = true := by decide
  have hh : replyHeader.length = sizeofSdpcm := rfl
  have hd : (replyBody v).length = ROUND (28 - sizeofSdpcm) 4 := rfl
  simp [readReply, commandPackets, State.encodes, step, runTask, asleep, resting, oneTask, start,
    State.goto, updateWindow, readHeader, readBody, hh, hlen, hok, hd]

theorem takeReply_runs (k : BitVec 16) (q : Byte) (wire : List Packet) (p : Packet)
    (v : BitVec 16) (h : deliver (replyHeader ++ replyBody v) k = .reply) :
    exec step (asleep k q wire p (.rSwitch (replyBlock v)) [0x8000]) takeReply =
      some (resting k q wire) := by
  simp [takeReply, List.replicate, exec, step, runTask, asleep, resting, oneTask, start, State.goto, h,
    replyBlock, freeb]

theorem deliver_replyBlock (v : BitVec 16) (h : v.toNat < 32768) :
    deliver (replyHeader ++ replyBody v) v = .reply := by
  have hid : idOf (replyHeader ++ replyBody v) = idBytes v := rfl
  have hchan : chanflgOf (replyHeader ++ replyBody v) = 0 := rfl
  have hlen : (replyHeader ++ replyBody v).length = sizeofSdpcm + sizeofCmd := rfl
  rw [deliver_channel_zero (by rw [hchan]; rfl) hlen.ge, idMatches_iff _ v v hid]
  exact ⟨rfl, h⟩

/-- `n` commands, each with its reply. -/
def manyCommands : Nat → List (Act Unit)
  | 0 => []
  | n + 1 => manyCommands n ++ (call ++ readReply (BitVec.ofNat 16 (n + 1)) ++ takeReply)

theorem resting_start : resting 0 0 [] = oneTask := by
  have hpc : places .rTop .idle = oneTask.pc := by
    funext w
    rcases w with _ | _ <;> rfl
  unfold resting
  rw [hpc]
  rfl

theorem manyCommands_run (n : Nat) (h : n < 32768) :
    ∃ q wire, exec step (resting 0 0 []) (manyCommands n) =
      some (resting (BitVec.ofNat 16 n) q wire) := by
  induction n with
  | zero => exact ⟨0, [], rfl⟩
  | succ n ih =>
    obtain ⟨q, wire, hrun⟩ := ih (by omega)
    have hsucc : BitVec.ofNat 16 n + 1 = BitVec.ofNat 16 (n + 1) := (BitVec.ofNat_add _ _).symm
    have hd := deliver_replyBlock (BitVec.ofNat 16 (n + 1)) (by simp; omega)
    refine ⟨q + 1, wire ++ [commandPacket smallRequest q (BitVec.ofNat 16 (n + 1))], ?_⟩
    rw [manyCommands, exec_append, hrun, Option.bind_some, exec_append, exec_append, call_runs,
      Option.bind_some, hsucc, readReply_runs, Option.bind_some, takeReply_runs _ _ _ _ _ hd]

/-- After `n` commands, the next one and its reply up to the switch of `rproc`. -/
theorem next_reply_run (n : Nat) (h : n < 32768) :
    ∃ s p, exec step oneTask
        (manyCommands n ++ (call ++ readReply (BitVec.ofNat 16 (n + 1)))) = some s ∧
      (commandPackets oneTask
        (manyCommands n ++ (call ++ readReply (BitVec.ofNat 16 (n + 1))))).getLast? = some p ∧
      s.pc .rproc = .rSwitch (replyBlock (BitVec.ofNat 16 (n + 1))) ∧
      s.reqid = BitVec.ofNat 16 (n + 1) ∧ idOf p = idBytes (BitVec.ofNat 16 (n + 1)) := by
  obtain ⟨q, wire, hrun⟩ := manyCommands_run n h
  have hsucc : BitVec.ofNat 16 n + 1 = BitVec.ofNat 16 (n + 1) := (BitVec.ofNat_add _ _).symm
  have hcall := call_runs (BitVec.ofNat 16 n) q wire
  have hpackets := commandPackets_call (BitVec.ofNat 16 n) q wire
  rw [hsucc] at hcall hpackets
  have hread := readReply_runs (BitVec.ofNat 16 (n + 1)) (q + 1)
    (wire ++ [commandPacket smallRequest q (BitVec.ofNat 16 (n + 1))])
    (commandPacket smallRequest q (BitVec.ofNat 16 (n + 1))) (BitVec.ofNat 16 (n + 1))
  rw [← resting_start]
  refine ⟨asleep (BitVec.ofNat 16 (n + 1)) (q + 1)
      (wire ++ [commandPacket smallRequest q (BitVec.ofNat 16 (n + 1))])
      (commandPacket smallRequest q (BitVec.ofNat 16 (n + 1)))
      (.rSwitch (replyBlock (BitVec.ofNat 16 (n + 1)))) [0x8000],
    commandPacket smallRequest q (BitVec.ofNat 16 (n + 1)), ?_, ?_, rfl, rfl, rfl⟩
  · rw [exec_append, hrun, Option.bind_some, exec_append, hcall, Option.bind_some, hread]
  · rw [commandPackets_append hrun, commandPackets_append hcall, commandPackets_readReply, hpackets]
    simp

/-! ## A reply to the n-th command -/

/-- `rproc` accepts the packet it looks at and stores it in `ctl->rsp`. -/
def StoresNext (s : State T) (b : Block) : Prop :=
  ∃ t u, step s (.run .rproc) = some t ∧ t.pc .rproc = .rStore b ∧
    step t (.run .rproc) = some u ∧ u.rsp = some b

theorem storesNext_iff {s : State T} {b : Block} (h : s.pc .rproc = .rSwitch b) :
    StoresNext s b ↔ deliver b.bytes s.reqid = .reply := by
  constructor
  · rintro ⟨t, u, ht, hpc, -, -⟩
    have hm := moves_of_step ht
    cases hm <;> simp_all [State.goto]
  · intro hd
    refine ⟨s.goto .rproc (.rStore b),
      { s.goto .rproc (.rStore b) with rsp := some b }.goto .rproc .rTop, ?_, ?_, ?_, ?_⟩
    · simp [step, runTask, h, hd]
    · simp [State.goto]
    · simp [step, runTask, State.goto]
    · rfl

/-- The reply to the last of n commands, with the id bytes that the command
wrote, is stored in `ctl->rsp` exactly when n modulo 65536 is below 32768. -/
theorem a_reply_is_stored_iff (txseq txwindow fcmask : Byte) (link : Link)
    (acts : List (Act T)) (s : State T) (p : Packet) (b : Block)
    (h : exec step (start T txseq txwindow fcmask link) acts = some s)
    (hp : (commandPackets (start T txseq txwindow fcmask link) acts).getLast? = some p)
    (hb : s.pc .rproc = .rSwitch b) (hchan : chanflgOf b.bytes &&& 0xF = 0)
    (hlen : sizeofSdpcm + sizeofCmd ≤ b.bytes.length) (hid : idOf b.bytes = idOf p) :
    StoresNext s b ↔
      (commandPackets (start T txseq txwindow fcmask link) acts).length % 65536 < 32768 := by
  have hids := hid.trans (idOf_last_command h hp)
  rw [storesNext_iff hb, deliver_channel_zero hchan hlen, idMatches_iff _ _ _ hids, reqid_run h]
  simp [start]

/-- The first command is answered. -/
theorem the_first_reply_is_stored :
    ∃ s p, exec step oneTask
        (manyCommands 0 ++ (call ++ readReply 1)) = some s ∧
      (commandPackets oneTask
        (manyCommands 0 ++ (call ++ readReply 1))).getLast? = some p ∧
      s.pc .rproc = .rSwitch (replyBlock 1) ∧ idOf (replyBlock 1).bytes = idOf p ∧
      StoresNext s (replyBlock 1) := by
  obtain ⟨s, p, hs, hp, hb, -, hid⟩ := next_reply_run 0 (by decide)
  refine ⟨s, p, hs, hp, hb, hid.symm, ?_⟩
  refine (a_reply_is_stored_iff 0 0 0 _ _ s p (replyBlock 1) hs hp hb rfl (by decide)
    hid.symm).mpr ?_
  decide +kernel

/-- The command after 32767 others loses its own reply. -/
theorem the_32768th_reply_is_lost :
    ∃ s p, exec step oneTask
        (manyCommands 32767 ++ (call ++ readReply (BitVec.ofNat 16 32768))) = some s ∧
      (commandPackets oneTask
        (manyCommands 32767 ++ (call ++ readReply (BitVec.ofNat 16 32768)))).getLast? = some p ∧
      s.pc .rproc = .rSwitch (replyBlock (BitVec.ofNat 16 32768)) ∧
      chanflgOf (replyBlock (BitVec.ofNat 16 32768)).bytes &&& 0xF = 0 ∧
      sizeofSdpcm + sizeofCmd ≤ (replyBlock (BitVec.ofNat 16 32768)).bytes.length ∧
      idOf (replyBlock (BitVec.ofNat 16 32768)).bytes = idOf p ∧
      ¬ StoresNext s (replyBlock (BitVec.ofNat 16 32768)) := by
  obtain ⟨s, p, hs, hp, hb, hreq, hid⟩ := next_reply_run 32767 (by decide)
  refine ⟨s, p, hs, hp, hb, rfl, by decide, hid.symm, ?_⟩
  rw [storesNext_iff hb, hreq]
  decide +kernel

/-! ## The reply that a command takes -/

/-- The packet of a command and the Block that it took out of `ctl->rsp`. -/
def Pc.taken : Pc → Option (Packet × Block)
  | .cmdClear p b | .cmdFree p b => some (p, b)
  | _ => none

/-- The Block that `rproc` has matched and is about to store. -/
def Pc.stores : Pc → Option Block
  | .rStore b => some b
  | _ => none

/-- No reply waits when a command takes its id: `ctl->rsp` is empty, and `rproc`
is not between the match of a reply and its store. -/
def NoStaleReply (s : State T) (a : Act T) : Prop :=
  s.runsAt Pc.isCmdEncode a = true → s.rsp = none ∧ (s.pc .rproc).stores = none

instance (s : State T) (a : Act T) : Decidable (NoStaleReply s a) :=
  inferInstanceAs (Decidable (_ → _))

/-- Each reply that an outstanding command may take, and each that a command
has taken, holds the id of that command. -/
structure Paired (s : State T) : Prop where
  asked : Asked s
  answered : ∀ b, s.rsp = some b ∨ s.pc .rproc = .rStore b →
    ∀ w p, (s.pc w).outstanding = some p → idOf b.bytes = idBytes s.reqid
  taken : ∀ w p b, (s.pc w).taken = some (p, b) → idOf b.bytes = idOf p

omit [DecidableEq T] in
theorem paired_start (txseq txwindow fcmask : Byte) (link : Link) :
    Paired (start T txseq txwindow fcmask link) := by
  refine ⟨asked_start _ _ _ _, ?_, ?_⟩
  · rintro b (hb | hb) <;> cases hb
  · intro w p b hw
    cases w <;> simp [start, Pc.taken] at hw

/-- A step that gives out no id keeps the pairs when what it stores and what it
takes has the id of the command. -/
theorem paired_goto {s t : State T} {w : Who T} {pc' : Pc} (h : Paired s) (ha : Asked t)
    (hpc : t.pc = Function.update s.pc w pc') (hr : t.reqid = s.reqid)
    (hrsp : ∀ b, t.rsp = some b → s.rsp = some b ∨ s.pc .rproc = .rStore b)
    (hstore : ∀ b, pc' = .rStore b → idOf b.bytes = idBytes s.reqid)
    (ho : ∀ p, pc'.outstanding = some p → (s.pc w).outstanding = some p)
    (ht : ∀ p b, pc'.taken = some (p, b) → idOf b.bytes = idOf p) : Paired t := by
  have hback : ∀ v p, (t.pc v).outstanding = some p → (s.pc v).outstanding = some p := by
    intro v p hv
    by_cases hvw : v = w
    · subst hvw
      rw [hpc, Function.update_self] at hv
      exact ho p hv
    · rwa [hpc, Function.update_of_ne hvw] at hv
  refine ⟨ha, ?_, ?_⟩
  · intro b hb v p hv
    rw [hr]
    rcases hb with hb | hb
    · exact h.answered b (hrsp b hb) v p (hback v p hv)
    · by_cases hw : Who.rproc = w
      · rw [hpc, hw, Function.update_self] at hb
        exact hstore b hb
      · rw [hpc, Function.update_of_ne hw] at hb
        exact h.answered b (.inr hb) v p (hback v p hv)
  · intro v p b hv
    by_cases hvw : v = w
    · subst hvw
      rw [hpc, Function.update_self] at hv
      exact ht p b hv
    · rw [hpc, Function.update_of_ne hvw] at hv
      exact h.taken v p b hv

/-- The encoding of a command keeps the pairs when no reply waits. -/
theorem paired_encode {s t : State T} {w : Who T} {p : Packet} (h : Paired s) (ha : Asked t)
    (hw : Who.rproc ≠ w) (hpc : t.pc = Function.update s.pc w (.cmdWrite p))
    (hrsp : t.rsp = none) (hstore : (s.pc .rproc).stores = none) : Paired t := by
  refine ⟨ha, ?_, ?_⟩
  · rintro b (hb | hb)
    · rw [hrsp] at hb
      cases hb
    · rw [hpc, Function.update_of_ne hw] at hb
      rw [hb] at hstore
      cases hstore
  · intro v q b hv
    by_cases hvw : v = w
    · subst hvw
      rw [hpc, Function.update_self] at hv
      cases hv
    · rw [hpc, Function.update_of_ne hvw] at hv
      exact h.taken v q b hv

theorem paired_step {s t : State T} {a : Act T} (h : Paired s) (hexclude : CommandsExclude s a)
    (hok : NoStaleReply s a) (hs : step s a = some t) : Paired t := by
  have ha := asked_step h.asked hexclude hs
  have hlocked := h.asked.locked
  have hm := moves_of_step hs
  cases hm
  case cmdEncode w c hpc =>
    obtain ⟨hrsp, hstore⟩ := hok (by simp [State.runsAt, hpc, Pc.isCmdEncode])
    exact paired_encode h ha (hlocked.not_reader (congrArg Pc.ofCaller hpc)).symm rfl hrsp hstore
  case cmdTake w p b hpc hrsp =>
    have hout : (s.pc w).outstanding = some p := congrArg Pc.outstanding hpc
    have hid : idOf b.bytes = idOf p := by
      rw [h.answered b (.inl hrsp) w p hout, h.asked.asked w p hout]
    refine paired_goto h ha rfl rfl (fun _ => .inl) (by simp) (by simp [Pc.outstanding]) ?_
    rintro _ _ ⟨⟩
    exact hid
  case cmdClear w p b hpc =>
    refine paired_goto h ha rfl rfl (by simp [State.goto]) (by simp) (by simp [Pc.outstanding]) ?_
    rintro _ _ ⟨⟩
    exact h.taken w p b (congrArg Pc.taken hpc)
  case rReply w b hpc hd =>
    refine paired_goto h ha rfl rfl (fun _ => .inl) ?_ (by simp [Pc.outstanding])
      (by simp [Pc.taken])
    rintro _ ⟨⟩
    exact idOf_of_idMatches _ _ (deliver_reply hd)
  case rStore w b hpc =>
    obtain rfl := hlocked.is_reader (congrArg Pc.ofReader hpc)
    refine paired_goto h ha rfl rfl ?_ (by simp) (by simp [Pc.outstanding]) (by simp [Pc.taken])
    rintro _ ⟨⟩
    exact .inr hpc
  all_goals
    have hpc := ‹s.pc _ = _›
    refine paired_goto h ha rfl rfl (fun _ => .inl) ?_ ?_ ?_
    · simp
    · rw [hpc]
      simp [Pc.outstanding]
    · simp [Pc.taken]

/-- In every run in which the mutex of the commands excludes and each command takes
its id while no reply waits, the Block that a call takes out of `ctl->rsp` holds the id that the call encoded. -/
theorem a_command_takes_its_own_reply (txseq txwindow fcmask : Byte) (link : Link)
    (acts : List (Act T)) (s : State T) (w : Who T) (p : Packet) (b : Block)
    (hok : Allowed step (fun s a => CommandsExclude s a ∧ NoStaleReply s a)
      (start T txseq txwindow fcmask link) acts)
    (h : exec step (start T txseq txwindow fcmask link) acts = some s)
    (hw : s.pc w = .cmdClear p b) : idOf b.bytes = idOf p := by
  have hpaired := exec_inv Paired (fun _ _ _ hi ho hs => paired_step hi ho.1 ho.2 hs)
    (paired_start txseq txwindow fcmask link) hok h
  exact hpaired.taken w p b (congrArg Pc.taken hw)

/-- A command with its reply, up to the clearing of `ctl->rsp`. -/
def answeredRun : List (Act Unit) :=
  call ++ readReply 1 ++ List.replicate 2 (.run .rproc) ++ List.replicate 2 (.run (.task ()))

theorem answeredRun_takes_its_own :
    Allowed step (fun s a => CommandsExclude s a ∧ NoStaleReply s a) oneTask answeredRun ∧
      ∃ s, exec step oneTask answeredRun = some s ∧
        s.pc (.task ()) = .cmdClear (commandPacket smallRequest 0 1) (replyBlock 1) ∧
        idOf (replyBlock 1).bytes = idOf (commandPacket smallRequest 0 1) := by
  have hok : Allowed step (fun s a => CommandsExclude s a ∧ NoStaleReply s a) oneTask
      answeredRun := by
    decide +kernel
  have hend : (exec step oneTask answeredRun).map (fun t => t.pc (.task ())) =
      some (.cmdClear (commandPacket smallRequest 0 1) (replyBlock 1)) := by
    decide +kernel
  obtain ⟨t, ht, hpc⟩ := Option.map_eq_some_iff.mp hend
  refine ⟨hok, t, ht, hpc, ?_⟩
  exact a_command_takes_its_own_reply 0 0 0 _ answeredRun t (.task ()) _ _ hok ht hpc

/-- The first command is answered twice, and the second command takes the second
answer to the first. -/
def staleRun : List (Act Unit) :=
  call ++ readReply 1 ++ takeReply ++ readReply 1 ++ List.replicate 2 (.run .rproc) ++ call ++
    List.replicate 2 (.run (.task ()))

/-- The mutex excludes in this run, and a command takes a reply with another id. -/
theorem a_late_reply_is_taken : Allowed step CommandsExclude oneTask staleRun ∧
    ∃ s, exec step oneTask staleRun = some s ∧
      s.pc (.task ()) = .cmdClear (commandPacket smallRequest 1 2) (replyBlock 1) ∧
      idOf (replyBlock 1).bytes ≠ idOf (commandPacket smallRequest 1 2) := by
  have hend : (exec step oneTask staleRun).map (fun t => t.pc (.task ())) =
      some (.cmdClear (commandPacket smallRequest 1 2) (replyBlock 1)) := by
    decide +kernel
  obtain ⟨t, ht, hpc⟩ := Option.map_eq_some_iff.mp hend
  exact ⟨by decide +kernel, t, ht, hpc, by decide⟩

end rpi_wifi.ether4330
