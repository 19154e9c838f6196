-- The interrupts of the chip: how `rproc` waits for frames with `intwait` and
-- `sdiocardintr`, step by step, while the chip puts frames into its queue and raises
-- interrupts between the steps. No frame waits for an interrupt that was acknowledged already.
-- The commands on the bus succeed here, and `allocb` gets its Block.
import RpiWifi.Packets
import RpiWifi.Runs

namespace rpi_wifi.ether4330.interrupts

open runs

def Fcchange : BitVec 32 := 1 <<< 5

def FrameInt : BitVec 32 := 1 <<< 6

def MailboxInt : BitVec 32 := 1 <<< 7

/-- What `sbenable` writes to the mask. -/
def Intmask : BitVec 32 := FrameInt ||| MailboxInt ||| Fcchange

/-- A frame as it leaves the chip, with a header that is right or not. -/
structure Frame where
  bytes : List Byte
  good : Bool
  deriving DecidableEq

/-- The next step of `rproc`. Each looks once at what the chip and the controller change by
themselves, and takes with it what it does besides. -/
inductive Place where
  /-- a round of `wlreadpkt`: a frame is taken with its accesses, or thrown away with the loops
  over `Rfrmcnt`, or there is none -/
  | reading
  /-- with a Block, up to the next call of `wlreadpkt`, the one of `txstart` included -/
  | handling (f : Frame)
  /-- `sdiocardintr`: the interrupt of the card is cleared -/
  | clear
  /-- its loop -/
  | poll
  /-- the `sleep` in it, which tests `cardintready` -/
  | sleeping
  /-- the interrupt is cleared again, and `sbwindow` sets the window with its three writes -/
  | clearAgain
  /-- `Intpend` is read -/
  | pending
  /-- `Intstatus` is read -/
  | status
  /-- `Intstatus` is written -/
  | acknowledge (ints : BitVec 32)
  /-- the mailbox is read and acknowledged -/
  | mailbox (ints : BitVec 32)
  /-- `intwait` returns with a frame -/
  | decide_ (ints : BitVec 32)
  deriving DecidableEq

/-- The chip's queue of frames and its interrupts, the interrupt of the card that the
controller has noted, where `rproc` is, and the frames that were read so far. -/
structure State where
  queue : List Frame
  Intstatus : BitVec 32
  Cardintr : Bool
  place : Place
  read : List Frame

/-- The chip holds its line as long as an interrupt is pending. -/
def State.line (s : State) : Bool := s.Intstatus &&& Intmask != 0

/-- `r[Interrupt] & Cardintr`. The controller notes a line that is held. -/
def State.cardReady (s : State) : Bool := s.Cardintr || s.line

inductive Step where
  /-- `rproc` does its next step. -/
  | rproc
  /-- A frame comes into the queue. -/
  | arrive (f : Frame)
  /-- Other interrupts. -/
  | raise (ints : BitVec 32)
  /-- The controller notes the line. -/
  | note

/-- The next step of `rproc`. -/
def State.rproc (s : State) : State :=
  match s.place with
  | .reading => match s.queue with
    | [] => { s with place := .clear }
    -- A frame with a bad header is thrown away, and the next one is read.
    | f :: queue => { s with
        queue
        read := s.read ++ [f]
        place := if f.good then .handling f else .reading }
  | .handling _ => { s with place := .reading }
  | .clear => { s with Cardintr := false, place := .poll }
  | .poll => { s with place := if s.cardReady then .clearAgain else .sleeping }
  | .sleeping => if s.cardReady then { s with place := .poll } else s
  | .clearAgain => { s with Cardintr := false, place := .pending }
  | .pending => { s with place := if s.line then .status else .clear }
  | .status => { s with place := .acknowledge s.Intstatus }
  | .acknowledge ints => { s with Intstatus := s.Intstatus &&& ~~~ints, place := .mailbox ints }
  | .mailbox ints => { s with place := .decide_ ints }
  | .decide_ ints => { s with place := if ints &&& FrameInt != 0 then .reading else .clear }

def step (s : State) : Step → Option State
  | .rproc => some s.rproc
  | .arrive f => some { s with queue := s.queue ++ [f], Intstatus := s.Intstatus ||| FrameInt }
  | .raise ints => some { s with Intstatus := s.Intstatus ||| ints }
  | .note => some { s with Cardintr := s.Cardintr || s.line }

/-- `rproc` begins, with whatever the chip has by then. -/
def initial (queue : List Frame) (ints : BitVec 32) (card : Bool) : State :=
  ⟨queue, ints, card, .reading, []⟩

/-! ## Frames are noticed -/

/-- The interrupt of a frame is among these. -/
def hasFrame (ints : BitVec 32) : Prop := ints &&& FrameInt ≠ 0

instance (ints : BitVec 32) : Decidable (hasFrame ints) := inferInstanceAs (Decidable (_ ≠ _))

variable {s t : State} {ints more : BitVec 32}

theorem hasFrame_iff : hasFrame ints ↔ ints.getLsbD 6 = true := by
  have hbit : FrameInt = BitVec.twoPow 32 6 := by decide
  unfold hasFrame
  rw [hbit, BitVec.and_twoPow]
  cases ints.getLsbD 6 with
  | true => simp only [if_true, iff_true]; decide
  | false => simp

theorem hasFrame_or (h : hasFrame ints) : hasFrame (ints ||| more) := by
  rw [hasFrame_iff] at h ⊢
  rw [BitVec.getLsbD_or, h, Bool.true_or]

theorem hasFrame_new : hasFrame (ints ||| FrameInt) := by
  have hbit : FrameInt.getLsbD 6 = true := by decide
  rw [hasFrame_iff, BitVec.getLsbD_or, hbit, Bool.or_true]

/-- What is acknowledged does not hold an interrupt that was not read. -/
theorem hasFrame_acknowledged (h : hasFrame ints) (hread : ¬ hasFrame more) :
    hasFrame (ints &&& ~~~more) := by
  rw [hasFrame_iff] at h hread ⊢
  rw [BitVec.getLsbD_and, BitVec.getLsbD_not, h]
  simpa using hread

/-- The mask lets the interrupt of a frame through. -/
theorem line_of_hasFrame (h : hasFrame s.Intstatus) : s.line = true := by
  rw [hasFrame_iff] at h
  have hmask : Intmask.getLsbD 6 = true := by decide
  have hbit : (s.Intstatus &&& Intmask).getLsbD 6 = true := by
    rw [BitVec.getLsbD_and, h, hmask]
    rfl
  unfold State.line
  rw [bne_iff_ne]
  intro hzero
  rw [hzero] at hbit
  cases hbit

/-- The interrupt of a frame is pending. -/
def State.Pending (s : State) : Prop := hasFrame s.Intstatus

/-- When frames are in the queue then `rproc` reads the queue before it waits, or an
interrupt is pending. -/
def Noticed (s : State) : Prop :=
  s.queue ≠ [] → match s.place with
    | .reading | .handling _ => True
    | .acknowledge ints | .mailbox ints | .decide_ ints => hasFrame ints ∨ s.Pending
    | _ => s.Pending

/-- The steps of `rproc` up to the next one that reads the queue, when frames are in it. -/
def State.rank (s : State) : Nat :=
  match s.place with
  | .reading => 1
  | .handling _ => 2
  | .decide_ ints => if hasFrame ints then 2 else 10
  | .mailbox ints => if hasFrame ints then 3 else 11
  | .acknowledge ints => if hasFrame ints then 4 else 12
  | .status => 5
  | .pending => 6
  | .clearAgain => 7
  | .poll => 8
  | .sleeping => 9
  | .clear => 9

theorem rank_le (s : State) : s.rank ≤ 12 := by
  unfold State.rank
  split
  all_goals first
    | decide
    | split <;> decide

theorem cardReady_of_pending (h : s.Pending) : s.cardReady = true := by
  unfold State.cardReady
  rw [line_of_hasFrame h, Bool.or_true]

/-- Only `wlreadpkt` takes frames from the queue. -/
theorem rproc_other (hplace : s.place ≠ .reading) :
    s.rproc.queue = s.queue ∧ s.rproc.read = s.read := by
  obtain ⟨queue, status, card, place, read⟩ := s
  cases place with
  | reading => exact absurd rfl hplace
  | sleeping =>
    unfold State.rproc
    dsimp only
    split
    · exact ⟨rfl, rfl⟩
    · exact ⟨rfl, rfl⟩
  | _ => exact ⟨rfl, rfl⟩

/-- With frames in the queue, a step of `rproc` that reads none of them brings it nearer
to the one that does. -/
theorem rproc_nearer (h : Noticed s) (hwait : s.queue ≠ []) (hplace : s.place ≠ .reading) :
    Noticed s.rproc ∧ s.rproc.rank < s.rank := by
  obtain ⟨queue, status, card, place, read⟩ := s
  have hplaced := h hwait
  cases place with
  | reading => exact absurd rfl hplace
  | handling f => exact ⟨fun _ => trivial, Nat.lt_succ_self 1⟩
  | clear => exact ⟨fun _ => hplaced, Nat.lt_succ_self 8⟩
  | poll =>
    have hready := cardReady_of_pending hplaced
    have hnext : (State.mk queue status card .poll read).rproc =
        ⟨queue, status, card, .clearAgain, read⟩ := by simp [State.rproc, hready]
    rw [hnext]
    exact ⟨fun _ => hplaced, Nat.lt_succ_self 7⟩
  | sleeping =>
    have hready := cardReady_of_pending hplaced
    have hnext : (State.mk queue status card .sleeping read).rproc =
        ⟨queue, status, card, .poll, read⟩ := by simp [State.rproc, hready]
    rw [hnext]
    exact ⟨fun _ => hplaced, Nat.lt_succ_self 8⟩
  | clearAgain => exact ⟨fun _ => hplaced, Nat.lt_succ_self 6⟩
  | pending =>
    have hline := line_of_hasFrame hplaced
    have hnext : (State.mk queue status card .pending read).rproc =
        ⟨queue, status, card, .status, read⟩ := by simp [State.rproc, hline]
    rw [hnext]
    exact ⟨fun _ => hplaced, Nat.lt_succ_self 5⟩
  | status =>
    -- What is read holds the interrupt of the frame.
    have hread : hasFrame status := hplaced
    refine ⟨fun _ => .inl hread, ?_⟩
    simp [State.rproc, State.rank, hread]
  | acknowledge ints =>
    by_cases hread : hasFrame ints
    · refine ⟨fun _ => .inl hread, ?_⟩
      simp [State.rproc, State.rank, hread]
    · have hpending : hasFrame status := hplaced.resolve_left hread
      refine ⟨fun _ => .inr (hasFrame_acknowledged hpending hread), ?_⟩
      simp [State.rproc, State.rank, hread]
  | mailbox ints =>
    refine ⟨fun _ => hplaced, ?_⟩
    by_cases hread : hasFrame ints
    · simp [State.rproc, State.rank, hread]
    · simp [State.rproc, State.rank, hread]
  | decide_ ints =>
    by_cases hread : hasFrame ints
    · have hnext : (State.mk queue status card (.decide_ ints) read).rproc =
          ⟨queue, status, card, .reading, read⟩ := by
        simp [State.rproc, show ints &&& FrameInt ≠ 0#32 from hread]
      rw [hnext]
      refine ⟨fun _ => trivial, ?_⟩
      simp [State.rank, hread]
    · have hpending : hasFrame status := hplaced.resolve_left hread
      have hnext : (State.mk queue status card (.decide_ ints) read).rproc =
          ⟨queue, status, card, .clear, read⟩ := by
        simp [State.rproc, show ints &&& FrameInt = 0#32 from not_not.mp hread]
      rw [hnext]
      refine ⟨fun _ => hpending, ?_⟩
      simp [State.rank, hread]

/-- Without frames in the queue `rproc` reads none. -/
theorem rproc_empty (h : s.queue = []) : s.rproc.queue = [] ∧ s.rproc.read = s.read := by
  by_cases hplace : s.place = .reading
  · have hnext : s.rproc = { s with place := .clear } := by simp [State.rproc, hplace, h]
    rw [hnext]
    exact ⟨h, rfl⟩
  · obtain ⟨hqueue, hread⟩ := rproc_other hplace
    exact ⟨hqueue.trans h, hread⟩

/-- The first frame of the queue is the one that is read. -/
theorem rproc_reads {f : Frame} {queue : List Frame} (hqueue : s.queue = f :: queue)
    (hplace : s.place = .reading) :
    s.rproc.queue = queue ∧ s.rproc.read = s.read ++ [f] ∧ Noticed s.rproc := by
  unfold State.rproc
  rw [hplace, hqueue]
  refine ⟨rfl, rfl, ?_⟩
  intro _
  cases hgood : f.good <;> simp [hgood]

theorem noticed_of_empty (h : s.queue = []) : Noticed s := fun hne => absurd h hne

/-- More interrupts leave the place and what is pending. -/
theorem Noticed.raised (h : Noticed s) (more : BitVec 32) (card : Bool) :
    Noticed { s with Intstatus := s.Intstatus ||| more, Cardintr := card } := by
  have hpending : s.Pending → hasFrame (s.Intstatus ||| more) := hasFrame_or
  intro hwait
  have hplaced := h hwait
  obtain ⟨queue, status, _, place, read⟩ := s
  cases place with
  | reading | handling f => trivial
  | acknowledge ints | mailbox ints | decide_ ints => exact hplaced.imp_right hpending
  | _ => exact hpending hplaced

/-- A frame that comes brings its interrupt. -/
theorem noticed_arrive (f : Frame) : Noticed { s with
    queue := s.queue ++ [f], Intstatus := s.Intstatus ||| FrameInt } := by
  have hnew : hasFrame (s.Intstatus ||| FrameInt) := hasFrame_new
  intro _
  dsimp only
  split
  all_goals first
    | trivial
    | exact .inr hnew

/-! ## Runs -/

theorem rproc_noticed (h : Noticed s) : Noticed s.rproc := by
  by_cases hqueue : s.queue = []
  · exact noticed_of_empty (rproc_empty hqueue).1
  · by_cases hplace : s.place = .reading
    · obtain ⟨f, queue, hfs⟩ := List.exists_cons_of_ne_nil hqueue
      exact (rproc_reads hfs hplace).2.2
    · exact (rproc_nearer h hqueue hplace).1

theorem noticed_step {a : Step} (h : Noticed s) (hs : step s a = some t) : Noticed t := by
  cases a with
  | rproc =>
    cases hs
    exact rproc_noticed h
  | arrive f =>
    cases hs
    exact noticed_arrive f
  | raise ints =>
    cases hs
    exact h.raised ints s.Cardintr
  | note =>
    cases hs
    have hzero : s.Intstatus ||| 0 = s.Intstatus := BitVec.or_zero
    have hsame := h.raised 0 (s.Cardintr || s.line)
    rwa [hzero] at hsame

/-- The frame that comes with a step. -/
def Step.arrival : Step → List Frame
  | .arrive f => [f]
  | _ => []

/-- What is read goes to the end of what was read before, and what comes goes to the end of
the queue. -/
theorem step_keeps_order {a : Step} (hs : step s a = some t) : s.read <+: t.read ∧
    t.read ++ t.queue = s.read ++ s.queue ++ a.arrival := by
  cases a with
  | rproc =>
    cases hs
    show _ ∧ _ = s.read ++ s.queue ++ []
    rw [List.append_nil]
    by_cases hplace : s.place = .reading
    · rcases hqueue : s.queue with _ | ⟨f, queue⟩
      · obtain ⟨hq, hr⟩ := rproc_empty hqueue
        rw [hq, hr]
        exact ⟨List.prefix_refl _, rfl⟩
      · obtain ⟨hq, hr, -⟩ := rproc_reads hqueue hplace
        rw [hq, hr]
        exact ⟨List.prefix_append _ _, List.append_assoc ..⟩
    · obtain ⟨hq, hr⟩ := rproc_other hplace
      rw [hq, hr]
      exact ⟨List.prefix_refl _, rfl⟩
  | arrive f =>
    cases hs
    exact ⟨List.prefix_refl _, (List.append_assoc ..).symm⟩
  | raise ints | note =>
    cases hs
    exact ⟨List.prefix_refl _, (List.append_nil _).symm⟩

/-- The frames that come in a run. -/
def arrivals (acts : List Step) : List Frame := acts.flatMap Step.arrival

/-- The steps of `rproc` in a run. -/
def turns (acts : List Step) : Nat := acts.countP fun
  | .rproc => true
  | _ => false

theorem run_keeps_order {acts : List Step} (hrun : exec step s acts = some t) :
    s.read <+: t.read ∧ t.read ++ t.queue = s.read ++ s.queue ++ arrivals acts := by
  induction acts generalizing s with
  | nil =>
    cases hrun
    exact ⟨List.prefix_refl _, (List.append_nil _).symm⟩
  | cons a acts ih =>
    obtain ⟨r, hr, hrt⟩ := exec_cons_some hrun
    obtain ⟨hread, horder⟩ := step_keeps_order hr
    obtain ⟨hread', horder'⟩ := ih hrt
    refine ⟨hread.trans hread', ?_⟩
    rw [horder', horder, List.append_assoc]
    rfl

/-- The first frame of the queue is read when `rproc` takes as many steps as its rank,
whatever comes between them. -/
theorem reads_next {acts : List Step} {f : Frame} {queue : List Frame} (h : Noticed s)
    (hqueue : s.queue = f :: queue) (hrun : exec step s acts = some t)
    (hturns : s.rank ≤ turns acts) : s.read ++ [f] <+: t.read := by
  induction acts generalizing s queue with
  | nil =>
    have hpos : 0 < s.rank := by
      unfold State.rank
      split
      all_goals first
        | decide
        | split <;> decide
    exact absurd hturns (Nat.not_le.mpr hpos)
  | cons a acts ih =>
    obtain ⟨r, hr, hrt⟩ := exec_cons_some hrun
    cases a with
    | rproc =>
      cases hr
      have hcount : turns (.rproc :: acts) = turns acts + 1 := List.countP_cons_of_pos rfl
      by_cases hplace : s.place = .reading
      · rw [← (rproc_reads hqueue hplace).2.1]
        exact (run_keeps_order hrt).1
      · obtain ⟨hq, hread⟩ := rproc_other hplace
        obtain ⟨hnoticed, hrank⟩ := rproc_nearer h (by rw [hqueue]; simp) hplace
        rw [← hread]
        exact ih hnoticed (hq.trans hqueue) hrt (by omega)
    | arrive g =>
      cases hr
      have hqueue' : s.queue ++ [g] = f :: (queue ++ [g]) := by rw [hqueue]; rfl
      exact ih (s := { s with queue := s.queue ++ [g], Intstatus := s.Intstatus ||| FrameInt })
        (noticed_arrive g) hqueue' hrt hturns
    | raise ints =>
      cases hr
      exact ih (s := { s with Intstatus := s.Intstatus ||| ints })
        (h.raised ints s.Cardintr) hqueue hrt hturns
    | note =>
      have hnoticed := noticed_step h hr
      cases hr
      exact ih (s := { s with Cardintr := s.Cardintr || s.line }) hnoticed hqueue hrt hturns

/-- In every reachable state: when a frame is in the queue of the chip, then `rproc` reads
the first one within its next twelve steps, however many frames and interrupts come
between them, and frames are read in the order in which they came. A frame with a bad header is
read like the others, and thrown away. -/
theorem no_frame_is_left_waiting (queue : List Frame) (ints : BitVec 32) (card : Bool)
    (before after : List Step) {f : Frame} {fs : List Frame}
    (hbefore : exec step (initial queue ints card) before = some s) (hqueue : s.queue = f :: fs)
    (hafter : exec step s after = some t) (hturns : 12 ≤ turns after) :
    s.read ++ [f] <+: t.read ∧ t.read ++ t.queue = queue ++ arrivals before ++ arrivals after := by
  have hstart : Noticed (initial queue ints card) := fun _ => trivial
  have hnoticed : Noticed s :=
    exec_keeps Noticed (fun _ _ _ h hs => noticed_step h hs) hstart hbefore
  refine ⟨reads_next hnoticed hqueue hafter ((rank_le s).trans hturns), ?_⟩
  rw [(run_keeps_order hafter).2, (run_keeps_order hbefore).2]
  rfl

/-- The frame comes between the read of the status and its acknowledgement, with the
interrupt of the mailbox alone. -/
theorem a_frame_behind_the_status : ∃ s t : State, s.queue = [⟨[1, 2], true⟩] ∧
    s.place = .acknowledge MailboxInt ∧ [] ++ [⟨[1, 2], true⟩] <+: t.read ∧
      t.read ++ t.queue = [] ++ [⟨[1, 2], true⟩] ++ [] := by
  have hbefore : exec step (initial [] MailboxInt false) [.rproc, .rproc, .rproc, .rproc, .rproc,
      .rproc, .arrive ⟨[1, 2], true⟩] = some ⟨[⟨[1, 2], true⟩], MailboxInt ||| FrameInt, false,
        .acknowledge MailboxInt, []⟩ := rfl
  have hafter : exec step ⟨[⟨[1, 2], true⟩], MailboxInt ||| FrameInt, false,
      .acknowledge MailboxInt, []⟩ (List.replicate 12 .rproc) = some _ := rfl
  have hread := no_frame_is_left_waiting _ _ _ _ _ hbefore rfl hafter (by decide)
  exact ⟨⟨[⟨[1, 2], true⟩], MailboxInt ||| FrameInt, false, .acknowledge MailboxInt, []⟩, _, rfl,
    rfl, hread⟩

end rpi_wifi.ether4330.interrupts
