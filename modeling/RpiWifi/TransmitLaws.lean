-- The laws of the transmit path. While every store to `tlock` finds it clear, one
-- `txstart` at a time is between `qget` and `packetrw`, so the frames leave in the
-- order in which they were passed, and none is lost.
import RpiWifi.Transmit

namespace rpi_wifi.transmit

open runs exclusion chains etherif
open mutex (Mutex)
open ether4330 (Byte Packet dataPacket dataOffset)

/-! ## Places -/

/-- The task has returned from `mutex_acquire(&ctl->tlock)` and has not released it. -/
def Pc.inside : Pc → Bool
  | .outside | .passing _ | .tlockSchedule | .tlockTest | .tlockStore | .tlockReleased => false
  | _ => true

/-- The Block that a task has at this place. -/
def Pc.has : Pc → Option Addr
  | .passing b | .build b | .pktSchedule b | .pktTest b | .pktStore b | .write b | .count b
  | .pktRelease b | .pktReleased b | .free b => some b
  | _ => none

/-- The Block, where `padblock` is still to come. -/
def Pc.unpadded : Pc → Option Addr
  | .passing b | .build b => some b
  | _ => none

/-- From one place to another with the same Block and the same frame in hand. -/
structure Silent (p p' : Pc) : Prop where
  inHand : ∀ mem, inHand mem p' = inHand mem p
  has : p'.has = p.has
  unpadded : p'.unpadded = none
  not_null : p' ≠ .nullBlock

theorem inside_of_inHand {mem : Blocks} {p : Pc} (h : p.inside = false) : inHand mem p = none := by
  cases p <;> first | rfl | cases h

theorem has_of_unpadded {p : Pc} {b : Addr} (h : p.unpadded = some b) : p.has = some b := by
  cases p <;> first | exact h | cases h

/-- The frame in hand is read from the Block that the task has. -/
theorem inHand_congr {mem mem' : Blocks} {p : Pc}
    (h : ∀ b, p.has = some b → (mem' b).bytes = (mem b).bytes) : inHand mem' p = inHand mem p := by
  cases p <;> simp only [inHand] <;> rw [h _ rfl]

theorem payload_dataPacket (rp : Nat) (frame : Packet) (txseq : Byte) :
    payload (dataPacket rp frame txseq) = frame := by
  unfold payload
  rw [ether4330.doffsetOf_dataPacket, ether4330.drop_dataPacket]

section

variable {T : Type} [DecidableEq T]

/-! ## The cases of a step -/

/-- `Moves s a t`: the action `a` takes the driver from `s` to `t`. -/
inductive Moves (s : State T) : Act T → State T → Prop where
  | others {txseq txwindow fcmask pktlock} : Moves s (.others txseq txwindow fcmask pktlock)
      { s with ctl := { s.ctl with txseq, txwindow, fcmask, pktlock } }
  | sendFrame {w b rp front frame} (hpc : s.pc w = .outside) (hb : b ≠ NULL)
      (hfree : s.owner b = .allocator) (hfront : front.length = maxhdrsize) :
      Moves s (.send_frame w b rp front frame) (fill s w b ⟨NULL, rp, front, frame⟩)
  | txstart {w} (hpc : s.pc w = .outside) : Moves s (.txstart w) (s.goto w .tlockSchedule)
  | silent {w p p' ctl} (hpc : s.pc w = p) (hp : Silent p p')
      (hin : p'.inside = p.inside) (hlock : ctl.tlock = s.ctl.tlock) :
      Moves s (.run w) ({ s with ctl }.goto w p')
  | enter {w} (hpc : s.pc w = .tlockStore) :
      Moves s (.run w) ((s.setTlock 1).goto w .window)
  | leave {w} (hpc : s.pc w = .tlockRelease) :
      Moves s (.run w) ((s.setTlock 0).goto w .tlockReleased)
  | pass {w b} (hpc : s.pc w = .passing b) : Moves s (.run w) (pass s w b)
  | get {w} (hpc : s.pc w = .get) : Moves s (.run w) (get s w)
  | build {w b} (hpc : s.pc w = .build b) : Moves s (.run w) (build s w b)
  | write {w b} (hpc : s.pc w = .write b) :
      Moves s (.run w) ({ s with wire := s.wire ++ [(s.block b).bytes] }.goto w (.count b))
  | free {w b} (hpc : s.pc w = .free b) :
      Moves s (.run w) ((s.give b .allocator).goto w .window)

theorem moves_of_runTask {s t : State T} {w : T} (h : runTask s w = some t) :
    Moves s (.run w) t := by
  unfold runTask at h
  cases hpc : s.pc w with
  | outside | nullBlock => simp [hpc] at h
  | passing b | get | build b | write b | free b | tlockStore | tlockRelease =>
    simp only [hpc, Option.some.injEq] at h
    subst h
    first
      | exact .pass hpc
      | exact .get hpc
      | exact .build hpc
      | exact .write hpc
      | exact .free hpc
      | exact .enter hpc
      | exact .leave hpc
  | tlockTest | window | pktTest b =>
    simp only [hpc, Option.some.injEq] at h
    subst h
    refine .silent hpc ?_ ?_ rfl
    · split <;> exact ⟨fun _ => rfl, rfl, rfl, nofun⟩
    · split <;> rfl
  | tlockSchedule | tlockReleased | pktSchedule b | pktStore b | count b | pktRelease b
  | pktReleased b =>
    simp only [hpc, Option.some.injEq] at h
    subst h
    exact .silent hpc ⟨fun _ => rfl, rfl, rfl, nofun⟩ rfl rfl

theorem moves_of_step {s t : State T} {a : Act T} (h : step s a = some t) : Moves s a t := by
  cases a with
  | send_frame w b rp front frame =>
    simp only [step] at h
    split at h <;> cases h
    rename_i hok
    obtain ⟨hpc, hb, hfree, hfront⟩ := hok
    exact .sendFrame hpc hb hfree hfront
  | txstart w =>
    simp only [step] at h
    split at h <;> cases h
    exact .txstart ‹_›
  | run w => exact moves_of_runTask h
  | others txseq txwindow fcmask pktlock =>
    cases h
    exact .others

/-! ## The mutex -/

/-- The word is 1 exactly while a task is inside, and it is alone there. -/
def Guarded (s : State T) : Prop := Excludes Pc.inside s.pc (s.ctl.tlock.lock = 1)

theorem Guarded.goto {s t : State T} {w : T} {p : Pc} (h : Guarded s)
    (hpc : t.pc = Function.update s.pc w p) (hlock : t.ctl.tlock = s.ctl.tlock)
    (hp : p.inside = (s.pc w).inside) : Guarded t := by
  unfold Guarded
  rw [hpc, hlock]
  exact Excludes.goto h hp

/-- Behind `qget` a task is still inside, with a Block or without one. -/
theorem get_goes (s : State T) (w : T) :
    ∃ p, (get s w).pc = Function.update s.pc w p ∧ (get s w).ctl = s.ctl ∧ p.inside = true := by
  simp only [get]
  split
  · exact ⟨_, rfl, rfl, rfl⟩
  · exact ⟨_, rfl, rfl, rfl⟩

theorem build_goes (s : State T) (w : T) (b : Addr) :
    ∃ p, (build s w b).pc = Function.update s.pc w p ∧ (build s w b).ctl = s.ctl ∧
      p.inside = true := by
  unfold build
  split
  · exact ⟨_, rfl, rfl, rfl⟩
  · exact ⟨_, rfl, rfl, rfl⟩

theorem guarded_step {s t : State T} {a : Act T} (h : Guarded s) (hok : StoresFree s a)
    (hs : Moves s a t) : Guarded t := by
  cases hs with
  | others => exact h
  | sendFrame hpc => exact h.goto rfl rfl (by rw [hpc]; rfl)
  | txstart hpc => exact h.goto rfl rfl (by rw [hpc]; rfl)
  | silent hpc _ hin hlock => exact h.goto rfl hlock (by rw [hpc]; exact hin)
  | enter hpc => exact Excludes.enter h (hok hpc) rfl rfl
  | @leave w hpc =>
    have hin : (s.pc w).inside = true := by rw [hpc]; rfl
    exact Excludes.leave h hin rfl (show (0 : Int) ≠ 1 by decide)
  | pass hpc => exact h.goto rfl rfl (by rw [hpc]; rfl)
  | get hpc =>
    obtain ⟨p, hpc', hctl, hp⟩ := get_goes s _
    exact h.goto hpc' (congrArg Ctlr.tlock hctl) (by rw [hpc, hp]; rfl)
  | build hpc =>
    obtain ⟨p, hpc', hctl, hp⟩ := build_goes s _ _
    exact h.goto hpc' (congrArg Ctlr.tlock hctl) (by rw [hpc, hp]; rfl)
  | write hpc => exact h.goto rfl rfl (by rw [hpc]; rfl)
  | free hpc => exact h.goto rfl rfl (by rw [hpc]; rfl)

omit [DecidableEq T] in
/-- Where one task is inside, nobody else has a frame in hand. -/
theorem Guarded.others_empty {s : State T} {w : T} (h : Guarded s) (hw : (s.pc w).inside = true)
    (mem : Blocks) : ∀ v, v ≠ w → inHand mem (s.pc v) = none := by
  intro v hv
  apply inside_of_inHand
  by_contra hin
  exact hv (h.alone v w (by simpa using hin) hw)

/-! ## The frames on their way -/

/-- What holds of the task `v` at the place `p`: its Block belongs to it, and has the
whole room in front while `padblock` is to come. -/
structure Settled (owner : Addr → Owner T) (mem : Blocks) (v : T) (p : Pc) : Prop where
  has : ∀ b, p.has = some b → owner b = .task v
  unpadded : ∀ b, p.unpadded = some b → b ≠ NULL ∧ (mem b).front.length = maxhdrsize
  not_null : p ≠ .nullBlock

/-- The frame in hand, the Blocks of the queue and the tasks. -/
structure Pipe (s : State T) (held : List Packet) (l : List Addr) : Prop where
  hand : Holds (fun v => inHand s.block (s.pc v)) held
  queue : s.oq.Lists s.block l
  order : s.wire.map payload ++ held ++ l.map (fun b => (s.block b).bytes) = s.passed
  queued : ∀ b ∈ l, s.owner b = .queue ∧ (s.block b).front.length = maxhdrsize
  tasks : ∀ v, Settled s.owner s.block v (s.pc v)
  no_error : s.errors = 0

variable {owner owner' : Addr → Owner T} {mem mem' : Blocks} {v w : T} {p q : Pc} {b : Addr}

omit [DecidableEq T] in
/-- A step that leaves the Block of a task alone leaves the task settled. -/
theorem Settled.congr (h : Settled owner mem v p)
    (hsame : ∀ c, p.has = some c → owner' c = owner c ∧ (mem' c).front = (mem c).front) :
    Settled owner' mem' v p where
  has := by
    intro c hc
    rw [(hsame c hc).1]
    exact h.has c hc
  unpadded := by
    intro c hc
    rw [(hsame c (has_of_unpadded hc)).2]
    exact h.unpadded c hc
  not_null := h.not_null

omit [DecidableEq T] in
theorem Settled.silent (h : Settled owner mem v p) (hp : Silent p q) : Settled owner mem v q where
  has := by
    intro c hc
    exact h.has c (hp.has.symm.trans hc)
  unpadded := by
    intro c hc
    rw [hp.unpadded] at hc
    cases hc
  not_null := hp.not_null

/-- One task goes on, and the others stay where they are. -/
theorem settled_goto {pc : T → Pc} (hw : Settled owner mem w p)
    (hrest : ∀ v, v ≠ w → Settled owner mem v (pc v)) :
    ∀ v, Settled owner mem v (Function.update pc w p v) :=
  (Function.forall_update_iff pc (Settled owner mem)).mpr ⟨hw, hrest⟩

/-- One task goes on with the same frame in hand, or still without one. -/
theorem hand_goto {pc : T → Pc} {held : List Packet} (h : Holds (fun v => inHand mem (pc v)) held)
    (hw : inHand mem' p = inHand mem (pc w))
    (hrest : ∀ v, v ≠ w → inHand mem' (pc v) = inHand mem (pc v)) :
    Holds (fun v => inHand mem' (Function.update pc w p v)) held :=
  h.congr ((Function.forall_update_iff pc fun v q => inHand mem' q = inHand mem (pc v)).mpr
    ⟨hw, hrest⟩)

/-- One task goes on while nobody else has a frame in hand. -/
theorem hand_alone {pc : T → Pc} (hrest : ∀ v, v ≠ w → inHand mem (pc v) = none) :
    Holds (fun v => inHand mem (Function.update pc w p v)) (inHand mem p).toList := by
  have hw : inHand mem p = inHand mem (Function.update pc w p w) := by
    rw [Function.update_self]
  rw [hw]
  refine (holds_iff_alone ?_).mpr rfl
  intro v hv
  rw [Function.update_of_ne hv]
  exact hrest v hv

variable {s : State T} {held : List Packet} {l : List Addr} {ctl : Ctlr}

omit [DecidableEq T] in
/-- A Block that the queue does not have is not in it. -/
theorem Pipe.not_queued (h : Pipe s held l) (hb : s.owner b ≠ .queue) : b ∉ l :=
  fun hl => hb (h.queued b hl).1

omit [DecidableEq T] in
/-- A Block that no other task has is not the Block of another task. -/
theorem Pipe.ne_of_has (h : Pipe s held l) (hb : s.owner b ≠ .task v) :
    ∀ c, (s.pc v).has = some c → c ≠ b := by
  rintro c hc rfl
  exact hb ((h.tasks v).has c hc)

/-- A task goes on silently. -/
theorem Pipe.silent (h : Pipe s held l) (hp : Silent (s.pc w) p) :
    Pipe ({ s with ctl }.goto w p) held l where
  hand := h.hand.congr fun v => same_of_update (hp.inHand s.block) v
  queue := h.queue
  order := h.order
  queued := h.queued
  tasks := settled_goto ((h.tasks w).silent hp) fun v _ => h.tasks v
  no_error := h.no_error

/-- The task `w` goes on to `p`, and touches no Block but `b`. -/
structure Local (s t : State T) (w : T) (p : Pc) (b : Addr) : Prop where
  pc : t.pc = Function.update s.pc w p
  block : ∀ c, c ≠ b → t.block c = s.block c
  owner : ∀ c, c ≠ b → t.owner c = s.owner c
  oq : t.oq = s.oq
  passed : t.passed = s.passed
  errors : t.errors = s.errors

/-- A task works on a Block that belongs to nobody else. -/
theorem Pipe.local_step {t : State T} {held' : List Packet} (h : Pipe s held l)
    (ht : Local s t w p b) (hq : s.owner b ≠ .queue) (hmine : ∀ v, v ≠ w → s.owner b ≠ .task v)
    (hhand : Holds (fun v => inHand t.block (t.pc v)) held')
    (horder : t.wire.map payload ++ held' = s.wire.map payload ++ held)
    (hw : Settled t.owner t.block w p) : Pipe t held' l := by
  have hl : ∀ c ∈ l, c ≠ b := by
    rintro c hc rfl
    exact h.not_queued hq hc
  have hframes : l.map (fun c => (t.block c).bytes) = l.map (fun c => (s.block c).bytes) := by
    apply List.map_congr_left
    intro c hc
    rw [ht.block c (hl c hc)]
  refine ⟨?_, ?_, ?_, ?_, ?_, ?_⟩
  · exact hhand
  · rw [ht.oq]
    exact h.queue.congr fun c hc => ht.block c (hl c hc)
  · rw [horder, hframes, ht.passed]
    exact h.order
  · intro c hc
    rw [ht.owner c (hl c hc), ht.block c (hl c hc)]
    exact h.queued c hc
  · rw [ht.pc]
    apply settled_goto hw
    intro v hv
    apply (h.tasks v).congr
    intro c hc
    have hne := h.ne_of_has (hmine v hv) c hc
    rw [ht.owner c hne, ht.block c hne]
    exact ⟨rfl, rfl⟩
  · rw [ht.errors]
    exact h.no_error

omit [DecidableEq T] in
/-- The Block of a task belongs to no other task, and is not in the queue. -/
theorem Pipe.has_own (h : Pipe s held l) (hb : (s.pc w).has = some b) :
    s.owner b ≠ .queue ∧ ∀ v, v ≠ w → s.owner b ≠ .task v := by
  have hw := (h.tasks w).has b hb
  rw [hw]
  refine ⟨nofun, ?_⟩
  rintro v hv hvw
  cases hvw
  exact hv rfl

/-! ## The steps -/

/-- `send_frame` fills a Block that the allocator had. -/
theorem Pipe.fill {block : Block} (h : Pipe s held l) (hpc : s.pc w = .outside) (hb : b ≠ NULL)
    (hfree : s.owner b = .allocator) (hfront : block.front.length = maxhdrsize) :
    Pipe (fill s w b block) held l := by
  have hlocal : Local s (transmit.fill s w b block) w (.passing b) b :=
    ⟨rfl, fun _ hc => Function.update_of_ne hc _ _, fun _ hc => Function.update_of_ne hc _ _,
      rfl, rfl, rfl⟩
  have hmine : ∀ v, s.owner b ≠ .task v := by
    rw [hfree]
    exact fun _ => nofun
  have hnone : inHand s.block (s.pc w) = none := by rw [hpc]; rfl
  refine h.local_step hlocal (by rw [hfree]; nofun) (fun v _ => hmine v) ?_ rfl ?_
  · refine hand_goto h.hand hnone.symm ?_
    intro v _
    apply inHand_congr
    intro c hc
    exact congrArg Block.bytes (Function.update_of_ne (h.ne_of_has (hmine v) c hc) _ _)
  · constructor
    · rintro c ⟨⟩
      exact Function.update_self _ _ _
    · rintro c ⟨⟩
      refine ⟨hb, ?_⟩
      rw [show (transmit.fill s w b block).block b = block from Function.update_self _ _ _]
      exact hfront
    · nofun

/-- `qpass` puts the frame behind the ones that were passed before. -/
theorem Pipe.pass (h : Pipe s held l) (hpc : s.pc w = .passing b) :
    Pipe (pass s w b) held (l ++ [b]) := by
  have hhas : (s.pc w).has = some b := by rw [hpc]; rfl
  have hnone : inHand s.block (s.pc w) = none := by rw [hpc]; rfl
  have hroom := (h.tasks w).unpadded b (by rw [hpc]; rfl)
  obtain ⟨hq, hmine⟩ := h.has_own hhas
  have hnew := h.not_queued hq
  have hl : ∀ c ∈ l, c ≠ b := by
    rintro c hc rfl
    exact hnew hc
  refine ⟨?_, ?_, ?_, ?_, ?_, ?_⟩
  · exact hand_goto h.hand hnone.symm fun v _ => inHand_congr fun c _ => qpass_bytes _ _ _ _
  · exact qpass_lists h.queue hroom.1 hnew
  · have horder := h.order
    simp only [transmit.pass, State.goto, State.give, qpass_bytes, List.map_append, List.map_cons,
      List.map_nil, ← horder, List.append_assoc]
  · intro c hc
    refine ⟨?_, (congrArg List.length (qpass_front _ _ _ _)).trans ?_⟩
    · rcases List.mem_append.mp hc with hc | hc
      · exact (Function.update_of_ne (hl c hc) _ _).trans (h.queued c hc).1
      · rw [List.mem_singleton.mp hc]
        exact Function.update_self _ _ _
    · rcases List.mem_append.mp hc with hc | hc
      · exact (h.queued c hc).2
      · rw [List.mem_singleton.mp hc]
        exact hroom.2
  · refine settled_goto ⟨nofun, nofun, nofun⟩ ?_
    intro v hv
    apply (h.tasks v).congr
    intro c hc
    exact ⟨Function.update_of_ne (h.ne_of_has (hmine v hv) c hc) _ _, qpass_front _ _ _ _⟩
  · exact h.no_error

/-- An empty queue ends the loop. -/
theorem Pipe.get_empty (h : Pipe s held []) (hpc : s.pc w = .get) : Pipe (get s w) held [] := by
  have hget : transmit.get s w = s.goto w .tlockRelease := by
    simp only [transmit.get, qget_empty h.queue]
    rfl
  rw [hget]
  apply h.silent
  rw [hpc]
  exact ⟨fun _ => rfl, rfl, rfl, nofun⟩

/-- `qget` takes the frame that was passed first. -/
theorem Pipe.get_first (h : Pipe s [] (b :: l))
    (halone : ∀ v, v ≠ w → inHand s.block (s.pc v) = none) :
    Pipe (get s w) [(s.block b).bytes] l := by
  obtain ⟨hgot, hrest⟩ := qget_first h.queue
  have hb : b ≠ NULL := h.queue.linked.chain.ne_null List.mem_cons_self
  have hget : transmit.get s w =
      ({ s with oq := (qget s.block s.oq).1 }.give b (.task w)).goto w (.build b) := by
    simp only [transmit.get, hgot, Got.result, if_neg hb]
    rfl
  have hl : ∀ c ∈ l, c ≠ b := by
    rintro c hc rfl
    exact (List.nodup_cons.mp h.queue.linked.chain.nodup).1 hc
  obtain ⟨hown, hfront⟩ := h.queued b List.mem_cons_self
  rw [hget]
  refine ⟨?_, ?_, ?_, ?_, ?_, ?_⟩
  · exact hand_alone halone
  · exact hrest
  · have horder := h.order
    simpa [State.goto, State.give] using horder
  · intro c hc
    have hold := h.queued c (List.mem_cons_of_mem _ hc)
    exact ⟨(Function.update_of_ne (hl c hc) _ _).trans hold.1, hold.2⟩
  · refine settled_goto ⟨?_, ?_, nofun⟩ ?_
    · rintro c ⟨⟩
      exact Function.update_self _ _ _
    · rintro c ⟨⟩
      exact ⟨hb, hfront⟩
    · intro v _
      apply (h.tasks v).congr
      intro c hc
      have hne := h.ne_of_has (by rw [hown]; nofun) c hc
      exact ⟨Function.update_of_ne hne _ _, rfl⟩
  · exact h.no_error

theorem Pipe.get (h : Pipe s held l) (hpc : s.pc w = .get)
    (halone : ∀ v, v ≠ w → inHand s.block (s.pc v) = none) :
    ∃ held' l', Pipe (get s w) held' l' := by
  cases l with
  | nil => exact ⟨held, [], h.get_empty hpc⟩
  | cons b l =>
    -- Nobody holds a frame before the `qget`.
    have hheld := (holds_iff_alone halone).mp h.hand
    rw [hpc] at hheld
    subst hheld
    exact ⟨[(s.block b).bytes], l, h.get_first halone⟩

/-- `padblock` finds room, and the headers go in front of the frame. -/
theorem Pipe.build (h : Pipe s held l) (hpc : s.pc w = .build b)
    (halone : ∀ mem v, v ≠ w → inHand mem (s.pc v) = none) :
    Pipe (build s w b) held l := by
  have hhas : (s.pc w).has = some b := by rw [hpc]; rfl
  obtain ⟨hb, hfront⟩ := (h.tasks w).unpadded b (by rw [hpc]; rfl)
  obtain ⟨hq, hmine⟩ := h.has_own hhas
  have hroom : dataOffset (s.block b).rp + 4 ≤ (s.block b).front.length := by
    rw [hfront]
    unfold dataOffset ether4330.sizeofSdpcm maxhdrsize
    omega
  obtain ⟨mem, pad, hpad, hlen, hbytes, hmem⟩ := padblock_some (Nat.succ_pos _) hb hroom
  have hbuild : transmit.build s w b =
      { s with block := putHeaders mem b (s.block b).rp s.ctl.txseq }.goto w (.pktSchedule b) := by
    unfold transmit.build
    rw [hpad]
  have hframe : inHand (putHeaders mem b (s.block b).rp s.ctl.txseq) (.pktSchedule b) =
      inHand s.block (s.pc w) := by
    rw [hpc]
    apply congrArg some
    unfold putHeaders
    rw [Function.update_self, payload_dataPacket, hbytes, List.drop_left' hlen]
  rw [hbuild]
  refine h.local_step ⟨rfl, ?_, fun _ _ => rfl, rfl, rfl, rfl⟩ hq hmine ?_ rfl ?_
  · intro c hc
    exact (Function.update_of_ne hc _ _).trans (hmem c hc)
  · apply hand_goto h.hand hframe
    intro v hv
    rw [halone _ v hv, halone _ v hv]
  · exact ⟨fun c hc => (h.tasks w).has c (hhas.trans hc), nofun, nofun⟩

/-- `packetrw` writes the frame behind the ones that were written before. -/
theorem Pipe.write (h : Pipe s held l) (hpc : s.pc w = .write b)
    (halone : ∀ v, v ≠ w → inHand s.block (s.pc v) = none) :
    Pipe ({ s with wire := s.wire ++ [(s.block b).bytes] }.goto w (.count b)) [] l := by
  have hhas : (s.pc w).has = some b := by rw [hpc]; rfl
  obtain ⟨hq, hmine⟩ := h.has_own hhas
  have hheld := (holds_iff_alone halone).mp h.hand
  rw [hpc] at hheld
  refine h.local_step ⟨rfl, fun _ _ => rfl, fun _ _ => rfl, rfl, rfl, rfl⟩ hq hmine ?_ ?_ ?_
  · exact hand_alone halone
  · simp [hheld, inHand, State.goto]
  · exact ⟨fun c hc => (h.tasks w).has c (hhas.trans hc), nofun, nofun⟩

/-- `freeb` gives the Block back. -/
theorem Pipe.free (h : Pipe s held l) (hpc : s.pc w = .free b) :
    Pipe ((s.give b .allocator).goto w .window) held l := by
  have hhas : (s.pc w).has = some b := by rw [hpc]; rfl
  have hnone : inHand s.block (s.pc w) = none := by rw [hpc]; rfl
  obtain ⟨hq, hmine⟩ := h.has_own hhas
  refine h.local_step ⟨rfl, fun _ _ => rfl, ?_, rfl, rfl, rfl⟩ hq hmine ?_ rfl ⟨nofun, nofun, nofun⟩
  · exact fun c hc => Function.update_of_ne hc _ _
  · exact hand_goto h.hand hnone.symm fun _ _ => rfl

/-! ## Runs -/

/-- One `txstart` at a time is in the region of `tlock`, and the frames are on their way. -/
def Orderly (s : State T) : Prop := Guarded s ∧ ∃ held l, Pipe s held l

theorem orderly_step {t : State T} {a : Act T} (h : Orderly s) (hok : StoresFree s a)
    (hs : step s a = some t) : Orderly t := by
  have hm := moves_of_step hs
  refine ⟨guarded_step h.1 hok hm, ?_⟩
  obtain ⟨hg, held, l, hp⟩ := h
  have halone : ∀ w, (s.pc w).inside = true → ∀ mem v, v ≠ w → inHand mem (s.pc v) = none :=
    fun w hw mem => hg.others_empty hw mem
  cases hm with
  | others => exact ⟨held, l, ⟨hp.hand, hp.queue, hp.order, hp.queued, hp.tasks, hp.no_error⟩⟩
  | sendFrame hpc hb hfree hfront => exact ⟨held, l, hp.fill hpc hb hfree hfront⟩
  | silent hpc hsilent => exact ⟨held, l, hp.silent (hpc ▸ hsilent)⟩
  | txstart hpc | enter hpc | leave hpc =>
    refine ⟨held, l, hp.silent ?_⟩
    rw [hpc]
    exact ⟨fun _ => rfl, rfl, rfl, nofun⟩
  | pass hpc => exact ⟨held, _, hp.pass hpc⟩
  | @get w hpc => exact hp.get hpc (halone w (by rw [hpc]; rfl) _)
  | @build w b hpc => exact ⟨held, l, hp.build hpc (halone w (by rw [hpc]; rfl))⟩
  | @write w b hpc => exact ⟨[], l, hp.write hpc (halone w (by rw [hpc]; rfl) _)⟩
  | free hpc => exact ⟨held, l, hp.free hpc⟩

theorem orderly_start (T : Type) (txseq txwindow fcmask : Byte) (block : Blocks) :
    Orderly (start T txseq txwindow fcmask block) := by
  refine ⟨⟨nofun, ⟨nofun, ?_⟩⟩, [], [], ?_⟩
  · rintro ⟨w, hw⟩
    cases hw
  · constructor
    · exact .nobody fun _ => rfl
    · exact ⟨⟨chain_null _ _, rfl⟩, rfl⟩
    · rfl
    · nofun
    · exact fun _ => ⟨nofun, nofun, nofun⟩
    · rfl

omit [DecidableEq T] in
theorem Pipe.in_order (h : Pipe s held l) : InOrder s where
  order := ⟨held, l, h.hand, h.queue, h.order⟩
  no_error := h.no_error
  no_null := fun v => (h.tasks v).not_null

/-- The transmit path keeps order and loses nothing, whoever runs when, as long as each
store to `tlock` finds it clear. -/
theorem the_frames_stay_in_order (T : Type) [DecidableEq T] (txseq txwindow fcmask : Byte)
    (block : Blocks) (acts : List (Act T)) (s : State T)
    (hok : Allowed step StoresFree (start T txseq txwindow fcmask block) acts)
    (hrun : exec step (start T txseq txwindow fcmask block) acts = some s) : InOrder s := by
  obtain ⟨-, held, l, hp⟩ := exec_inv Orderly (fun _ _ _ h hok hs => orderly_step h hok hs)
    (orderly_start T txseq txwindow fcmask block) hok hrun
  exact hp.in_order

end

/-! ## Two tasks -/

/-- Memory before anything is in it. -/
def emptyBlocks : Blocks := fun _ => ⟨NULL, 0, [], []⟩

/-- A call of `send_frame`, with the Block at address `b`. -/
def call (w : Bool) (b : Addr) (frame : Packet) : Act Bool :=
  .send_frame w b 64 (List.replicate maxhdrsize 0) frame

/-- The second task passes its frame first. The first one passes its own and writes the
frame of the second one, which tests `tlock` in vain meanwhile. -/
def oneAtATime : List (Act Bool) :=
  [call false 16 [1], call true 32 [2]] ++ List.replicate 2 (.run true) ++
    List.replicate 12 (.run false) ++ List.replicate 3 (.run true)

theorem frames_in_turn :
    ∃ s, exec step (start Bool 0 9 0 emptyBlocks) oneAtATime = some s ∧ InOrder s ∧
      s.wire.map payload = [[2]] ∧ s.passed = [[2], [1]] := by
  have hend : (exec step (start Bool 0 9 0 emptyBlocks) oneAtATime).map
      (fun s => (s.wire.map payload, s.passed)) = some ([[2]], [[2], [1]]) := by
    decide +kernel
  have hok : Allowed step StoresFree (start Bool 0 9 0 emptyBlocks) oneAtATime := by
    decide +kernel
  obtain ⟨s, hs, he⟩ := Option.map_eq_some_iff.mp hend
  obtain ⟨hwire, hpassed⟩ := Prod.mk.inj he
  exact ⟨s, hs, the_frames_stay_in_order Bool 0 9 0 emptyBlocks oneAtATime s hok hs, hwire, hpassed⟩

/-- Both tasks read `tlock` before one of them sets it. The first one takes the frame that
was passed first, and the second one writes the other frame before it goes on. -/
def overtaking : List (Act Bool) :=
  [call false 16 [1], call true 32 [2]] ++ List.replicate 3 (.run false) ++
    List.replicate 3 (.run true) ++ List.replicate 3 (.run false) ++ List.replicate 8 (.run true)

/-- The frame that was passed second is written first. -/
theorem a_frame_overtakes :
    ∃ s, exec step (start Bool 0 9 0 emptyBlocks) overtaking = some s ∧
      s.wire.map payload = [[2]] ∧ s.passed = [[1], [2]] ∧ ¬ InOrder s := by
  have hend : (exec step (start Bool 0 9 0 emptyBlocks) overtaking).map
      (fun s => (s.wire.map payload, s.passed)) = some ([[2]], [[1], [2]]) := by
    decide +kernel
  obtain ⟨s, hs, he⟩ := Option.map_eq_some_iff.mp hend
  obtain ⟨hwire, hpassed⟩ := Prod.mk.inj he
  refine ⟨s, hs, hwire, hpassed, ?_⟩
  intro h
  obtain ⟨held, l, -, -, horder⟩ := h.order
  rw [hwire, hpassed] at horder
  simp at horder

end rpi_wifi.transmit
