-- Tasks and their frames. `create_task` takes ten frames for a task, and
-- `delete_task` gives back the first one. The frames in use are the ones of the
-- tasks in the table as long as no task ends and each one that gets frames gets
-- a slot.
import RpiWifi.Preemption
import RpiWifi.FrameSafety

namespace rpi_wifi.fork

open runs scheduler preemption frame_alloc

/-! ## The system -/

/-- The scheduler and the frame allocator. -/
structure System where
  kernel : Kernel
  frames : FrameManager

/-- `create_task`. -/
def System.create_task (s : System) : System × Nat :=
  let (frames, p) := alloc_contiguous_frames s.frames 10
  let (kernel, pid) := s.kernel.create_task (if p = 0 then none else some p)
  ({ kernel, frames }, pid)

def delete_task (frames : FrameManager) (task_to_delete : Addr) : FrameManager :=
  dealloc_frame frames task_to_delete

/-- The state behind a step of the scheduler, which has called `delete_task` for the tasks
that are new in its list. -/
def System.after (s : System) (kernel : Kernel) : System where
  kernel
  frames := (kernel.sched.deleted.drop s.kernel.sched.deleted.length).foldl delete_task s.frames

/-- The frame is one of the range. -/
def holds (r : Range) (f : Nat) : Prop := r.frame ≤ f ∧ f < r.frame + r.count

instance (r : Range) (f : Nat) : Decidable (holds r f) := inferInstanceAs (Decidable (_ ∧ _))

/-- A task is created, the running task ends up to its call of `schedule`, the scheduler
runs up to `task_switch` or through it, a task blocks, sleeps or wakes, or a byte of frames
in use, such as one of a task record, takes any other value. -/
inductive Op where
  | create
  | terminate
  | schedule (ticks : List (BitVec 32))
  | tick (ticks : List (BitVec 32))
  | switch
  | mark (p : Addr) (state : TaskState) (wake_ticks : BitVec 32)
  | store (a : Nat) (v : BitVec 8)

def step (s : System) : Op → Option System
  | .create => if s.kernel.leaving = none then some s.create_task.1 else none
  | .terminate => (preemption.step s.kernel .terminate).map s.after
  | .schedule ticks => (preemption.step s.kernel (.schedule ticks)).map s.after
  | .tick ticks => (preemption.step s.kernel (.tick ticks)).map s.after
  | .switch => (preemption.step s.kernel .switch).map s.after
  | .mark p state wake_ticks =>
    -- Nothing in the source marks a task as terminated.
    if state = .Terminated then none
    else (preemption.step s.kernel (.mark p state wake_ticks)).map s.after
  | .store a v =>
    if ∃ r ∈ s.frames.live, holds r (a / PAGE_SIZE) then
      some { s with frames := { s.frames with mem := Function.update s.frames.mem a v } }
    else none

def start (init_task : Addr) (mem : Addr → Task) (frames : FrameManager) : System where
  kernel := preemption.initial init_task mem
  frames := frames

/-! ## The frames of the tasks -/

/-- The range of frames of the task `p`. -/
def taskRange (p : Addr) : Range := ⟨p, 10, PAGE_SIZE⟩

/-- The frame belongs to a task in a slot behind slot 0. -/
def System.taskFrame (s : System) (f : Nat) : Prop :=
  ∃ (i : Fin NR_TASKS) (p : Addr),
    0 < (i : Nat) ∧ s.kernel.sched.TASKS i = some p ∧ holds (taskRange p) f

/-- The frames in use are the ones in use at the start and the ten of each task in a slot
behind slot 0, and no frame is counted twice. -/
structure Conserved (before : FrameManager) (s : System) : Prop where
  used : ∀ f < 32 * before.words,
    s.frames.isFree f = false ↔ before.isFree f = false ∨ s.taskFrame f
  fresh : ∀ f, s.taskFrame f → f < 32 * before.words ∧ before.isFree f = true
  apart : ∀ (i j : Fin NR_TASKS) p q, 0 < (i : Nat) → 0 < (j : Nat) → i ≠ j →
    s.kernel.sched.TASKS i = some p → s.kernel.sched.TASKS j = some q →
      (taskRange p).Apart (taskRange q)

/-- A task that gets frames gets a slot, and its frames come from a sound search. Only
the init task calls `terminate_this_task`, which leaves it in the table. -/
def Tidy (s : System) : Op → Prop
  | .create =>
    (10 ≤ s.frames.available_frames → AllocSound s.frames 10 PAGE_SIZE) ∧
      ((alloc_contiguous_frames s.frames 10).2 ≠ 0 → s.kernel.sched.freeSlot.isSome = true)
  | .terminate => (s.kernel.sched.mem s.kernel.sched.current).pid = 0
  | _ => True

variable {s t : System} {before : FrameManager} {p : Addr}

/-! ## The frames that a call takes -/

/-- Without frames nothing changes, and the frames that a call takes were free. -/
theorem alloc_contiguous_spec {frames : FrameManager} {n : Nat} (hn : 0 < n)
    (hs : n ≤ frames.available_frames → AllocSound frames n PAGE_SIZE) :
    alloc_contiguous_frames frames n = (frames, 0) ∨
      ∃ start stop f, RealRun frames start stop n PAGE_SIZE f ∧
        alloc_contiguous_frames frames n =
          ((claimFrames frames (f * PAGE_SIZE) n).handOut (f * PAGE_SIZE) n PAGE_SIZE,
            f * PAGE_SIZE) := by
  unfold alloc_contiguous_frames alloc_cont_aligned_frames
  by_cases hav : frames.available_frames < n
  · exact .inl (if_pos hav)
  · rw [if_neg hav]
    dsimp only
    by_cases hnull : find_contiguous_frames frames n PAGE_SIZE = 0
    · exact .inl (if_pos hnull)
    · right
      obtain ⟨start, stop, f, hf, hreal⟩ :=
        find_contiguous_frames_sound hn (hs (by omega)) hnull
      refine ⟨start, stop, f, hreal, ?_⟩
      rw [if_neg hnull, hf, hreal.fits.addressOf hn]

/-! ## What the scheduler leaves as it was -/

/-- The table is the same, no task was deleted, and none was marked as terminated. -/
structure Keeps (s u : Sched) : Prop where
  table : u.TASKS = s.TASKS
  deleted : u.deleted = s.deleted
  alive : ∀ q, (s.mem q).state ≠ .Terminated → (u.mem q).state ≠ .Terminated

variable {c u v : Sched}

theorem Keeps.refl (c : Sched) : Keeps c c := ⟨rfl, rfl, fun _ h => h⟩

theorem Keeps.trans (h : Keeps c u) (h' : Keeps u v) : Keeps c v :=
  ⟨h'.table.trans h.table, h'.deleted.trans h.deleted, fun q hq => h'.alive q (h.alive q hq)⟩

theorem write_keeps (c : Sched) (p : Addr) {f : Task → Task}
    (hf : ∀ r, r.state ≠ .Terminated → (f r).state ≠ .Terminated) : Keeps c (c.write p f) := by
  refine ⟨rfl, rfl, ?_⟩
  intro q hq
  unfold Sched.write
  by_cases hqp : q = p
  · subst hqp
    simpa using hf _ hq
  · simpa [Function.update_of_ne hqp] using hq

theorem disable_keeps (k : Kernel) : Keeps k.sched k.preempt_disable.sched :=
  write_keeps _ _ (f := fun t => { t with preempt_count := t.preempt_count + 1 }) fun _ h => h

theorem enable_keeps (k : Kernel) : Keeps k.sched k.preempt_enable.sched :=
  write_keeps _ _ (f := fun t => { t with preempt_count := t.preempt_count - 1 }) fun _ h => h

theorem printf_keeps (k : Kernel) : Keeps k.sched k.printf.sched :=
  (disable_keeps k).trans (enable_keeps _)

/-- No task of the table is marked as terminated. -/
def AllAlive (c : Sched) : Prop := ∀ i p, c.TASKS i = some p → (c.mem p).state ≠ .Terminated

theorem Keeps.allAlive (h : Keeps c u) (hc : AllAlive c) : AllAlive u := by
  intro i p hp
  rw [h.table] at hp
  exact h.alive p (hc i p hp)

theorem searchNext_keeps (hc : AllAlive c) {nTicks : BitVec 32} {n nTask next : Nat}
    (h : searchNext nTicks n c nTask = some (u, next)) : Keeps c u := by
  induction n generalizing nTask with
  | zero =>
    cases h
    exact .refl _
  | succ n ih =>
    unfold searchNext at h
    dsimp only at h
    split at h
    · cases h
    · exact ih h
    · next p hslot =>
      split at h
      · cases h
        exact .refl _
      · exact ih h
      · split at h
        · exact ih h
        · cases h
          exact write_keeps _ _ fun _ _ => by simp
      · next hstate =>
        -- A task that is marked as terminated would be removed here.
        obtain ⟨hk, hp⟩ := slot_some hslot
        exact absurd hstate (hc _ p hp)
      · exact ih h

theorem searchReady_keeps (hc : AllAlive c) {ticks : List (BitVec 32)} {next : Nat}
    (h : searchReady ticks c = some (u, next)) : Keeps c u := by
  induction ticks generalizing c with
  | nil => cases h
  | cons nTicks ticks ih =>
    obtain ⟨⟨v, k⟩, hv, hu⟩ := Option.bind_eq_some_iff.mp h
    have hfirst : Keeps c v := searchNext_keeps hc hv
    dsimp only at hu
    split at hu
    · exact hfirst.trans (ih (hfirst.allAlive hc) hu)
    · cases hu
      exact hfirst

theorem switch_to_keeps (k : Kernel) (next : Addr) : Keeps k.sched (k.switch_to next).sched :=
  ⟨rfl, rfl, fun _ h => h⟩

theorem task_switch_keeps {k k' : Kernel} (h : k.task_switch = some k') :
    Keeps k.sched k'.sched := by
  obtain ⟨prev, -, h⟩ := Option.bind_eq_some_iff.mp h
  split at h
  · dsimp only at h
    split at h
    · cases h
      exact enable_keeps { k with leaving := none }
    · cases h
      exact .refl _
  · cases h

theorem schedule_keeps {k k' : Kernel} (hc : AllAlive k.sched) {ticks : List (BitVec 32)}
    (h : k._schedule ticks = some k') : Keeps k.sched k'.sched := by
  obtain ⟨⟨u, next⟩, hu, hs⟩ := Option.bind_eq_some_iff.mp h
  obtain ⟨pNext, hslot, ht⟩ := Option.map_eq_some_iff.mp hs
  have hsearch : Keeps k.sched u :=
    (disable_keeps k).trans (searchReady_keeps ((disable_keeps k).allAlive hc) hu)
  rcases pNext with _ | p
  · rw [← ht]
    exact hsearch.trans (enable_keeps { k.preempt_disable with sched := u })
  · dsimp only at ht
    split at ht
    · rw [← ht]
      exact hsearch.trans (enable_keeps { k.preempt_disable with sched := u })
    · rw [← ht]
      exact hsearch.trans (switch_to_keeps { k.preempt_disable with sched := u } p)

theorem tick_keeps {k k' : Kernel} (hc : AllAlive k.sched) {ticks : List (BitVec 32)}
    (h : k.schedule_tick ticks = some k') : Keeps k.sched k'.sched := by
  unfold Kernel.schedule_tick at h
  split at h
  · cases h
    exact .refl _
  · exact schedule_keeps hc h

/-- A step of the scheduler that marks and ends no task keeps the table. -/
theorem step_keeps {k k' : Kernel} (hc : AllAlive k.sched) {a : preemption.Op}
    (ha : a = .switch ∨ ∃ ticks, a = .schedule ticks ∨ a = .tick ticks)
    (h : preemption.step k a = some k') : Keeps k.sched k'.sched := by
  unfold preemption.step at h
  split at h
  · obtain rfl | ⟨ticks, rfl | rfl⟩ := ha
    · cases h
    · exact schedule_keeps hc h
    · exact tick_keeps hc h
  · obtain rfl | ⟨ticks, rfl | rfl⟩ := ha
    · exact task_switch_keeps h
    · cases h
    · exact tick_keeps hc h

theorem terminate_keeps {k k' : Kernel} (hpid : (k.sched.mem k.sched.current).pid = 0)
    (h : k.terminate_this_task = some k') : Keeps k.sched k'.sched := by
  obtain ⟨u, hu, rfl⟩ := Option.map_eq_some_iff.mp h
  have hpid' : (k.printf.sched.mem k.printf.sched.current).pid = 0 := by
    have hprint : ∀ q, (k.printf.sched.mem q).pid = (k.sched.mem q).pid := by
      intro q
      unfold Kernel.printf Kernel.preempt_enable Kernel.preempt_disable
        scheduler.preempt_enable scheduler.preempt_disable
      dsimp only
      rw [write_pid, write_pid] <;> rfl
    rw [hprint]
    exact hpid
  unfold remove_task at hu
  rw [if_pos hpid'] at hu
  cases hu
  exact printf_keeps k

/-! ## Creating a task -/

theorem write_state (c : Sched) (p q : Addr) {f : Task → Task} (hf : ∀ r, (f r).state = r.state) :
    ((c.write p f).mem q).state = (c.mem q).state := by
  unfold Sched.write
  by_cases hq : q = p
  · subst hq
    simpa using hf _
  · simp [Function.update_of_ne hq]

theorem disable_state (k : Kernel) (q : Addr) :
    (k.preempt_disable.sched.mem q).state = (k.sched.mem q).state :=
  write_state _ _ q (f := fun t => { t with preempt_count := t.preempt_count + 1 }) fun _ => rfl

theorem enable_state (k : Kernel) (q : Addr) :
    (k.preempt_enable.sched.mem q).state = (k.sched.mem q).state :=
  write_state _ _ q (f := fun t => { t with preempt_count := t.preempt_count - 1 }) fun _ => rfl

theorem install_state (c : Sched) (p : Addr) (i : Fin NR_TASKS) (q : Addr) :
    ((c.install p i).mem q).state = (c.mem q).state := by
  unfold Sched.install
  dsimp only
  rw [write_state, write_state, write_state] <;> intros <;> rfl

/-- A task that gets a slot is ready, and the other tasks keep their states. -/
theorem create_task_slot (k : Kernel) (p : Addr) {i : Fin NR_TASKS}
    (hi : k.sched.freeSlot = some i) :
    (k.create_task (some p)).1.sched.TASKS = Function.update k.sched.TASKS i (some p) ∧
      (k.create_task (some p)).1.sched.deleted = k.sched.deleted ∧
      ∀ q, ((k.create_task (some p)).1.sched.mem q).state =
        if q = p then .Ready else (k.sched.mem q).state := by
  have hslot : (k.preempt_disable.fill p).preempt_disable.sched.freeSlot = some i := hi
  unfold Kernel.create_task Kernel.add_task
  dsimp only
  rw [hslot]
  dsimp only
  refine ⟨rfl, rfl, ?_⟩
  intro q
  unfold Kernel.printf
  rw [enable_state, enable_state, disable_state, enable_state, enable_state, disable_state,
    install_state, disable_state]
  unfold Kernel.fill Sched.write
  dsimp only
  by_cases hq : q = p
  · simp [hq]
  · rw [Function.update_of_ne hq, if_neg hq, disable_state]

/-! ## The law of the frames -/

/-- What every step keeps that meets the condition. -/
structure Inv (before : FrameManager) (s : System) : Prop where
  conserved : Conserved before s
  framesOk : FramesOk s.frames
  same : Same before s.frames
  alive : AllAlive s.kernel.sched

/-- A step of the scheduler that keeps the table keeps the frames too. -/
theorem Inv.of_keeps (h : Inv before s) {k : Kernel} (hk : Keeps s.kernel.sched k.sched) :
    Inv before (s.after k) := by
  have hframes : (s.after k).frames = s.frames := by
    unfold System.after
    rw [hk.deleted, List.drop_length]
    rfl
  have htable : (s.after k).kernel.sched.TASKS = s.kernel.sched.TASKS := hk.table
  refine ⟨⟨?_, ?_, ?_⟩, ?_, ?_, hk.allAlive h.alive⟩
  · unfold System.taskFrame
    rw [hframes, htable]
    exact h.conserved.used
  · unfold System.taskFrame
    rw [htable]
    exact h.conserved.fresh
  · rw [htable]
    exact h.conserved.apart
  · rw [hframes]
    exact h.framesOk
  · rw [hframes]
    exact h.same

theorem holds_taskRange {f g : Nat} :
    holds (taskRange (f * PAGE_SIZE)) g ↔ f ≤ g ∧ g < f + 10 := by
  unfold holds taskRange Range.frame
  dsimp only
  rw [Nat.mul_div_cancel _ (by decide)]

/-- A range of ten frames that holds none of the frames of a task is apart from it. -/
theorem apart_of_not_holds {f : Nat} (h : ∀ g, f ≤ g → g < f + 10 → ¬ holds (taskRange p) g) :
    (taskRange (f * PAGE_SIZE)).Apart (taskRange p) := by
  have hframe : (taskRange (f * PAGE_SIZE)).frame = f := Nat.mul_div_cancel _ (by decide)
  have hf := h f le_rfl (by omega)
  have hp := h (taskRange p).frame
  unfold Range.Apart
  rw [hframe]
  unfold holds taskRange at *
  dsimp only at *
  omega

/-- A task in an empty slot adds its frames to the frames of the tasks. -/
theorem taskFrame_update {f : Nat} {i : Fin NR_TASKS} (hpos : 0 < (i : Nat))
    (hempty : s.kernel.sched.TASKS i = none)
    (htable : t.kernel.sched.TASKS = Function.update s.kernel.sched.TASKS i (some (f * PAGE_SIZE)))
    (g : Nat) : t.taskFrame g ↔ s.taskFrame g ∨ f ≤ g ∧ g < f + 10 := by
  unfold System.taskFrame
  rw [htable]
  constructor
  · rintro ⟨j, p, hj, hp, hg⟩
    by_cases hji : j = i
    · rw [hji, Function.update_self] at hp
      rw [← Option.some.inj hp] at hg
      exact .inr (holds_taskRange.mp hg)
    · rw [Function.update_of_ne hji] at hp
      exact .inl ⟨j, p, hj, hp, hg⟩
  · rintro (⟨j, p, hj, hp, hg⟩ | hg)
    · refine ⟨j, p, hj, ?_, hg⟩
      have hji : j ≠ i := by
        rintro rfl
        rw [hempty] at hp
        cases hp
      rw [Function.update_of_ne hji]
      exact hp
    · exact ⟨i, _, hpos, Function.update_self _ _ _, holds_taskRange.mpr hg⟩

/-- The frames of a run that the allocator finds were free, and were no task's frames. -/
theorem Inv.run_is_new (h : Inv before s) {f start stop : Nat}
    (hreal : RealRun s.frames start stop 10 PAGE_SIZE f) {g : Nat} (h1 : f ≤ g) (h2 : g < f + 10) :
    g < 32 * before.words ∧ before.isFree g = true ∧ ¬ s.taskFrame g := by
  have hhigh := hreal.fits.high
  have hfree := hreal.free (g - f) (by omega)
  rw [h.same.words] at hhigh
  rw [Nat.add_sub_cancel' h1] at hfree
  have hlt : g < 32 * before.words := by omega
  have hno : ¬ (before.isFree g = false ∨ s.taskFrame g) := by
    rw [← h.conserved.used g hlt, hfree]
    decide
  rw [not_or, Bool.not_eq_false] at hno
  exact ⟨hlt, hno⟩

/-- A new task takes ten frames that were free and were no task's frames. -/
theorem Inv.create_new (h : Inv before s) {f start stop : Nat} {i : Fin NR_TASKS}
    (hreal : RealRun s.frames start stop 10 PAGE_SIZE f)
    (hi : s.kernel.sched.freeSlot = some i) (hok : FramesOk t.frames)
    (hframes : t.frames =
      (claimFrames s.frames (f * PAGE_SIZE) 10).handOut (f * PAGE_SIZE) 10 PAGE_SIZE)
    (htable : t.kernel.sched.TASKS = Function.update s.kernel.sched.TASKS i (some (f * PAGE_SIZE)))
    (halive : AllAlive t.kernel.sched) : Inv before t := by
  obtain ⟨hpos, hempty, -⟩ := freeSlot_some hi
  have hplaced := h.framesOk.placed (by decide) hreal.fits
  have hbits : ∀ g < 32 * before.words,
      t.frames.isFree g = (s.frames.isFree g && decide (¬ (f ≤ g ∧ g < f + 10))) := by
    intro g hg
    rw [hframes, isFree_handOut]
    exact isFree_claimFrames hplaced 10 hreal.fits (by rw [h.same.words]; exact hg)
  have htask := taskFrame_update hpos hempty htable
  refine ⟨⟨?_, ?_, ?_⟩, hok, ?_, halive⟩
  · intro g hg
    rw [hbits g hg, htask, ← or_assoc, ← h.conserved.used g hg, Bool.and_eq_false_iff,
      decide_eq_false_iff_not, not_not]
  · intro g hg
    rcases (htask g).mp hg with hold | hin
    · exact h.conserved.fresh g hold
    · obtain ⟨hlt, hfree, -⟩ := h.run_is_new hreal hin.1 hin.2
      exact ⟨hlt, hfree⟩
  · have hapart : ∀ (j : Fin NR_TASKS) p, 0 < (j : Nat) → s.kernel.sched.TASKS j = some p →
        (taskRange (f * PAGE_SIZE)).Apart (taskRange p) := by
      intro j p hj hp
      apply apart_of_not_holds
      intro g h1 h2 hg
      obtain ⟨-, -, hno⟩ := h.run_is_new hreal h1 h2
      exact hno ⟨j, p, hj, hp, hg⟩
    intro j k p q hj hk hjk hp hq
    rw [htable] at hp hq
    by_cases hji : j = i
    · have hki : k ≠ i := fun hki => hjk (hji.trans hki.symm)
      rw [hji, Function.update_self] at hp
      rw [Function.update_of_ne hki] at hq
      rw [← Option.some.inj hp]
      exact hapart k q hk hq
    · rw [Function.update_of_ne hji] at hp
      by_cases hki : k = i
      · rw [hki, Function.update_self] at hq
        rw [← Option.some.inj hq]
        exact (hapart j p hj hp).symm
      · rw [Function.update_of_ne hki] at hq
        exact h.conserved.apart j k p q hj hk hjk hp hq
  · rw [hframes]
    exact h.same.trans ((same_claimFrames _ _ _).trans ⟨rfl, rfl, rfl, rfl⟩)

theorem Inv.create (h : Inv before s) (hok : Tidy s .create) : Inv before s.create_task.1 := by
  obtain ⟨hsound, hroom⟩ := hok
  have hframesOk : FramesOk s.create_task.1.frames :=
    framesOk_alloc_cont h.framesOk (by decide) (by decide) fun _ => hsound
  rcases alloc_contiguous_spec (by decide) hsound with hnone | ⟨start, stop, f, hreal, hsome⟩
  · have hfail : s.create_task.1 = s.after s.kernel.preempt_disable := by
      unfold System.create_task System.after
      rw [hnone, (disable_keeps _).deleted, List.drop_length]
      rfl
    rw [hfail]
    exact h.of_keeps (disable_keeps _)
  · have hne : f * PAGE_SIZE ≠ 0 := by
      have hlow := hreal.fits.low
      unfold FrameManager.lowest at hlow
      unfold PAGE_SIZE
      omega
    have hslot := hroom (by rw [hsome]; exact hne)
    obtain ⟨i, hi⟩ := Option.isSome_iff_exists.mp hslot
    obtain ⟨htable, -, hstate⟩ := create_task_slot s.kernel (f * PAGE_SIZE) hi
    have hkernel : s.create_task.1.kernel = (s.kernel.create_task (some (f * PAGE_SIZE))).1 := by
      unfold System.create_task
      rw [hsome]
      dsimp only
      rw [if_neg hne]
    have hframes : s.create_task.1.frames =
        (claimFrames s.frames (f * PAGE_SIZE) 10).handOut (f * PAGE_SIZE) 10 PAGE_SIZE := by
      unfold System.create_task
      rw [hsome]
    refine h.create_new hreal hi hframesOk hframes (by rw [hkernel, htable]) ?_
    intro j p hp
    rw [hkernel] at hp ⊢
    rw [hstate]
    by_cases hpf : p = f * PAGE_SIZE
    · rw [if_pos hpf]
      decide
    · rw [if_neg hpf]
      rw [htable] at hp
      by_cases hji : j = i
      · rw [hji, Function.update_self] at hp
        exact absurd (Option.some.inj hp).symm hpf
      · rw [Function.update_of_ne hji] at hp
        exact h.alive j p hp

theorem Inv.store (h : Inv before s) {a : Nat} {v : BitVec 8}
    (ha : ∃ r ∈ s.frames.live, holds r (a / PAGE_SIZE)) :
    Inv before { s with frames := { s.frames with mem := Function.update s.frames.mem a v } } := by
  obtain ⟨r, hr, hlow, -⟩ := ha
  obtain ⟨hcount, hfits⟩ := h.framesOk.fits r hr
  have hplaced := h.framesOk.placed hcount hfits
  -- The frames in use lie behind the bitmap.
  have hout : s.frames.frame_bits_array + 4 * s.frames.words ≤ a := by
    have h1 := hplaced.below
    have h2 := hfits.low
    unfold PAGE_SIZE at *
    omega
  have hbits : ∀ g < 32 * before.words, FrameManager.isFree
      { s.frames with mem := Function.update s.frames.mem a v } g = s.frames.isFree g := by
    intro g hg
    apply isFree_congr hplaced (by rw [h.same.words]; exact hg)
    intro b _ hb
    exact Function.update_of_ne (by omega) _ _
  refine ⟨⟨?_, h.conserved.fresh, h.conserved.apart⟩, ?_, ?_, h.alive⟩
  · intro g hg
    rw [hbits g hg]
    exact h.conserved.used g hg
  · exact framesOk_store h.framesOk (by omega)
  · exact h.same.trans ⟨rfl, rfl, rfl, rfl⟩

theorem Inv.step {a : Op} (h : Inv before s) (hok : Tidy s a) (hs : fork.step s a = some t) :
    Inv before t := by
  cases a with
  | create =>
    simp only [fork.step] at hs
    split at hs
    · cases hs
      exact h.create hok
    · cases hs
  | terminate =>
    obtain ⟨k, hk, rfl⟩ := Option.map_eq_some_iff.mp hs
    unfold preemption.step at hk
    split at hk
    · exact h.of_keeps (terminate_keeps hok hk)
    · cases hk
  | schedule ticks =>
    obtain ⟨k, hk, rfl⟩ := Option.map_eq_some_iff.mp hs
    exact h.of_keeps (step_keeps h.alive (.inr ⟨ticks, .inl rfl⟩) hk)
  | tick ticks =>
    obtain ⟨k, hk, rfl⟩ := Option.map_eq_some_iff.mp hs
    exact h.of_keeps (step_keeps h.alive (.inr ⟨ticks, .inr rfl⟩) hk)
  | switch =>
    obtain ⟨k, hk, rfl⟩ := Option.map_eq_some_iff.mp hs
    exact h.of_keeps (step_keeps h.alive (.inl rfl) hk)
  | mark p state wake_ticks =>
    simp only [fork.step] at hs
    split at hs
    · cases hs
    · next hstate =>
      obtain ⟨k, hk, rfl⟩ := Option.map_eq_some_iff.mp hs
      unfold preemption.step at hk
      split at hk
      · cases hk
        exact h.of_keeps
          (write_keeps _ p (f := fun t => { t with state, wake_ticks }) fun _ _ => hstate)
      · cases hk
  | store a v =>
    simp only [fork.step] at hs
    split at hs
    · next ha =>
      cases hs
      exact h.store ha
    · cases hs

theorem inv_start (init_task : Addr) (mem : Addr → Task) (h : FramesOk before) :
    Inv before (start init_task mem before) := by
  have hslots : ∀ (i : Fin NR_TASKS) p,
      (start init_task mem before).kernel.sched.TASKS i = some p → (i : Nat) = 0 ∧ p = init_task := by
    intro i p hp
    dsimp only [start, preemption.initial, scheduler.initial] at hp
    split at hp
    · next hi =>
      cases hp
      exact ⟨congrArg Fin.val hi, rfl⟩
    · cases hp
  have hnone : ∀ f, ¬ (start init_task mem before).taskFrame f := by
    rintro f ⟨i, p, hpos, hp, -⟩
    have := (hslots i p hp).1
    omega
  refine ⟨⟨?_, ?_, ?_⟩, h, ⟨rfl, rfl, rfl, rfl⟩, ?_⟩
  · exact fun f _ => ⟨fun hf => .inl hf, fun hf => hf.resolve_right (hnone f)⟩
  · exact fun f hf => absurd hf (hnone f)
  · intro i j p q hi _ _ hp
    have := (hslots i p hp).1
    omega
  · intro i p hp
    rw [(hslots i p hp).2]
    simp [start, preemption.initial, scheduler.initial, INIT_TASK]

/-- In every run in which each task that gets frames gets a slot, the searches are sound and
no task of the table ends, the frames in use are the ones in use at the start and the ten
frames of each task. -/
theorem the_frames_of_the_tasks_are_conserved (mem : memory.Mem)
    (total_memory kernel_end : BitVec 32) (earlier : List frame_alloc.Op) (before : FrameManager)
    (init_task : Addr) (records : Addr → Task) (ops : List Op) (t : System)
    (hbitmap : BitmapBelow total_memory kernel_end)
    (hsound : Allowed frame_alloc.step SearchesSoundly
      (init_frame_manager mem total_memory kernel_end) earlier)
    (hbefore : exec frame_alloc.step (init_frame_manager mem total_memory kernel_end) earlier =
      some before)
    (htidy : Allowed step Tidy (start init_task records before) ops)
    (h : exec step (start init_task records before) ops = some t) : Conserved before t := by
  have hframesOk : FramesOk before :=
    exec_inv FramesOk (fun _ _ _ hi ho hs => framesOk_step hi ho hs)
      (framesOk_init mem total_memory kernel_end hbitmap) hsound hbefore
  exact (exec_inv (Inv before) (fun _ _ _ hi ho hs => hi.step ho hs)
    (inv_start init_task records hframesOk) htidy h).conserved

/-- A machine with 128 frames and the init task. -/
def firstTask : System := start 9 (fun _ => INIT_TASK) clearMachine

/-- A first task takes ten frames. -/
theorem the_first_task_takes_ten_frames :
    ∃ t, exec step firstTask [.create] = some t ∧ t.taskFrame 41 ∧ Conserved clearMachine t := by
  have hlow : clearMachine.lowest = 32 := by decide +kernel
  have htotal : clearMachine.total_frames = 128 := by decide +kernel
  have hnext : clearMachine.next_idx = 1 := by decide +kernel
  have hfree : ∀ i < 10, clearMachine.isFree (32 + i) = true := by decide +kernel
  have hreal : RealRun clearMachine 1 128 10 PAGE_SIZE (32 * 1) := by
    refine ⟨⟨hlow.le, ?_, ?_⟩, by decide, by decide, by decide, hfree⟩
    · unfold FrameManager.words
      rw [htotal]
      decide
    · rw [htotal]
      decide
  have htidy : Allowed step Tidy firstTask [.create] := by
    refine ⟨⟨?_, fun _ => by decide⟩, trivial⟩
    intro _
    unfold AllocSound
    show SearchSound clearMachine clearMachine.next_idx clearMachine.total_frames 10 PAGE_SIZE ∧ _
    rw [htotal, hnext]
    exact ⟨searchSound_of_first hreal, fun hnone => absurd hreal (hnone _)⟩
  have hslot : firstTask.create_task.1.kernel.sched.TASKS ⟨1, by decide⟩ = some 0x20000 := by
    decide +kernel
  refine ⟨firstTask.create_task.1, rfl, ⟨⟨1, by decide⟩, 0x20000, by decide, hslot, by decide⟩, ?_⟩
  exact the_frames_of_the_tasks_are_conserved _ _ _ [] clearMachine 9 (fun _ => INIT_TASK)
    [.create] _ (by decide) trivial rfl htidy rfl

/-- A task is created, it runs, and it ends. -/
theorem a_task_that_ends_keeps_nine_frames :
    ∃ t, exec step firstTask [.create, .schedule [0], .switch, .terminate] = some t ∧
      (∀ f, ¬ t.taskFrame f) ∧ t.frames.isFree 32 = true ∧ t.frames.isFree 33 = false ∧
      clearMachine.isFree 33 = true ∧ ¬ Conserved clearMachine t := by
  have hend : (exec step firstTask [.create, .schedule [0], .switch, .terminate]).map
      (fun t => ((List.finRange NR_TASKS).all fun i =>
        (i : Nat) == 0 || (t.kernel.sched.TASKS i).isNone, t.frames.isFree 32,
          t.frames.isFree 33)) = some (true, true, false) := by
    decide +kernel
  have hbefore : clearMachine.isFree 33 = true := by
    decide +kernel
  obtain ⟨t, ht, hv⟩ := Option.map_eq_some_iff.mp hend
  simp only [Prod.mk.injEq] at hv
  obtain ⟨hempty, hfirst, hsecond⟩ := hv
  have hnone : ∀ f, ¬ t.taskFrame f := by
    rintro f ⟨i, p, hpos, hp, -⟩
    have hi := List.all_eq_true.mp hempty i (List.mem_finRange i)
    simp [hp, hpos.ne'] at hi
  refine ⟨t, ht, hnone, hfirst, hsecond, hbefore, ?_⟩
  intro h
  have hin : 33 < 32 * clearMachine.words := by
    decide +kernel
  rcases (h.used 33 hin).mp hsecond with hused | htask
  · rw [hbefore] at hused
    cases hused
  · exact hnone 33 htask

end rpi_wifi.fork
