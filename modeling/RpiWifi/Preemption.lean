-- The preemption counts. A task counts itself up when it enters the scheduler,
-- and the count comes down at whichever task runs behind the switch: a task
-- that was switched away has 1, and it takes that back when it goes on. Between the
-- choice of the next task and the load of its registers the count that keeps the
-- ticks off is the next task's.
import RpiWifi.TaskTable

namespace rpi_wifi.preemption

open runs scheduler

/-! ## The kernel -/

/-- The scheduler, the tasks that have run so far, and whether a count was taken
down from 0. `leaving` is the task that `switch_to` leaves: `current` is the next one
already, and its registers are not loaded yet. -/
structure Kernel where
  sched : Sched
  started : Addr → Bool
  underflow : Bool
  leaving : Option Addr

def Kernel.count (k : Kernel) (p : Addr) : BitVec 32 := (k.sched.mem p).preempt_count

def Kernel.preempt_disable (k : Kernel) : Kernel :=
  { k with sched := scheduler.preempt_disable k.sched }

def Kernel.preempt_enable (k : Kernel) : Kernel :=
  { k with
    sched := scheduler.preempt_enable k.sched
    underflow := k.underflow || k.count k.sched.current == 0 }

/-- `printf`. What it prints is not part of the model. -/
def Kernel.printf (k : Kernel) : Kernel := k.preempt_disable.preempt_enable

/-- `add_task`, with its result. A null task leaves the preemption off. -/
def Kernel.add_task (k : Kernel) (pTask : Option Addr) : Kernel × Nat :=
  let k := k.preempt_disable
  match pTask with
  | none => (k, 0)
  | some p =>
    match k.sched.freeSlot with
    | some i =>
      -- The source prints between the writes to the record.
      let k := { k with sched := k.sched.install p i }
      (k.printf.preempt_enable, i)
    | none => (k.printf.preempt_enable, 0)

/-- The writes to the record in `create_task`. The task starts with its function, whatever
was in the memory before. -/
def Kernel.fill (k : Kernel) (p : Addr) : Kernel :=
  { k with
    sched := k.sched.write p fun t => { t with state := .Ready, preempt_count := 0 }
    started := Function.update k.started p false }

/-- `create_task`, with the frames that the allocator gives it. Without frames it leaves
the preemption off. -/
def Kernel.create_task (k : Kernel) (frames : Option Addr) : Kernel × Nat :=
  let k := k.preempt_disable
  match frames with
  | none => (k, 0)
  | some p =>
    let (k, pid) := (k.fill p).add_task (some p)
    (k.printf.preempt_enable, pid)

/-- The loop of `_schedule`, with the tick count that each round reads. It goes on
until a task is ready. -/
def searchReady : List (BitVec 32) → Sched → Option (Sched × Nat)
  | [], _ => none
  | nTicks :: ticks, s => (get_next_task s nTicks).bind fun (s, next) =>
    if next = NR_TASKS then searchReady ticks s else some (s, next)

/-- `switch_to`, up to its call of `task_switch`. -/
def Kernel.switch_to (k : Kernel) (next : Addr) : Kernel :=
  { k with
    sched := { k.sched with current := next }
    leaving := some k.sched.current }

/-- `task_switch`, up to where the next task leaves `_schedule`: one that was switched
away takes its own count down there, and a new one begins with its function. When a task
is left that has not run, its record gets the registers of another one, and nothing is
known of what comes then. -/
def Kernel.task_switch (k : Kernel) : Option Kernel :=
  k.leaving.bind fun prev =>
    if k.started prev then
      let k := { k with leaving := none }
      if k.started k.sched.current then some k.preempt_enable
      else some { k with started := Function.update k.started k.sched.current true }
    else none

def Kernel._schedule (k : Kernel) (ticks : List (BitVec 32)) : Option Kernel :=
  let k := k.preempt_disable
  (searchReady ticks k.sched).bind fun (s, next) =>
    let k := { k with sched := s }
    (s.slot next).map fun pNext => match pNext with
      | none => k.preempt_enable
      | some p => if s.current = p then k.preempt_enable else k.switch_to p

def Kernel.schedule_tick (k : Kernel) (ticks : List (BitVec 32)) : Option Kernel :=
  if 0 < k.count k.sched.current then some k else k._schedule ticks

/-- `terminate_this_task`, up to its call of `schedule`. -/
def Kernel.terminate_this_task (k : Kernel) : Option Kernel :=
  let k := k.printf
  (remove_task k.sched k.sched.current).map fun s => { k with sched := s }

/-! ## The machine -/

/-- What the running task does, and what happens to it: `mark` is the part of
`task_us_sleep`, `block_this_task` and `wake_task` in front of their call of
`schedule`, `switch` is the rest of a switch, and `reuse` gives memory that holds no task
any other content. -/
inductive Op where
  | create (frames : Option Addr)
  | add (pTask : Option Addr)
  | schedule (ticks : List (BitVec 32))
  | tick (ticks : List (BitVec 32))
  | switch
  | printf
  | mark (p : Addr) (state : TaskState) (wake_ticks : BitVec 32)
  | terminate
  | reuse (p : Addr) (t : Task)

/-- What is done by code that runs outside of a switch. -/
def act (k : Kernel) : Op → Option Kernel
  | .create frames => some (k.create_task frames).1
  | .add pTask => some (k.add_task pTask).1
  | .schedule ticks => k._schedule ticks
  | .tick ticks => k.schedule_tick ticks
  | .switch => none
  | .printf => some k.printf
  | .mark p state wake_ticks =>
    some { k with sched := k.sched.write p fun t => { t with state, wake_ticks } }
  | .terminate => k.terminate_this_task
  | .reuse p t =>
    if k.sched.InTable p ∨ p = k.sched.current then none
    else some { k with
      sched := k.sched.write p fun _ => t
      started := Function.update k.started p false }

/-- In the middle of a switch only a tick can come. -/
def step (k : Kernel) (a : Op) : Option Kernel :=
  if k.leaving = none then act k a
  else match a with
    | .tick ticks => k.schedule_tick ticks
    | .switch => k.task_switch
    | _ => none

def initial (init_task : Addr) (mem : Addr → Task) : Kernel where
  sched := scheduler.initial init_task mem
  started := fun p => p = init_task
  underflow := false
  leaving := none

/-! ## The balance -/

/-- The count of a task: 0 when it runs outside the functions of the scheduler or has
never run, and 1 when it was switched away or is being switched away. -/
def Kernel.due (k : Kernel) (p : Addr) : BitVec 32 :=
  if k.leaving = none ∧ p = k.sched.current then 0 else if k.started p then 1 else 0

/-- The running task and the ones in the table have the counts that are due, and no
count was taken down from 0. -/
structure Balanced (k : Kernel) : Prop where
  running : k.leaving = none → k.count k.sched.current = 0
  table : ∀ p, k.sched.InTable p → k.count p = k.due p
  no_underflow : k.underflow = false

/-- `create_task` gets frames, and not the ones of the running task. `add_task` gets a
task, and if there is a slot for it, it has the count that is due. A tick in the middle of
a switch to a task that has never run finds no task but that one. -/
def KeepsCounts (k : Kernel) : Op → Prop
  | .create frames => k.leaving = none → ∃ p, frames = some p ∧ p ≠ k.sched.current
  | .add pTask => k.leaving = none →
    ∃ p, pTask = some p ∧ (k.sched.freeSlot.isSome = true → k.count p = k.due p)
  | .tick ticks => k.leaving ≠ none → k.started k.sched.current = false →
    ∀ s next p, searchReady ticks k.preempt_disable.sched = some (s, next) →
      s.slot next = some (some p) → p = k.sched.current
  | _ => True

variable {k t : Kernel} {p q : Addr}

/-! ## What a function leaves as it was -/

@[simp] theorem disable_current : k.preempt_disable.sched.current = k.sched.current := rfl

@[simp] theorem switch_to_current (k : Kernel) (next : Addr) :
    (k.switch_to next).sched.current = next := rfl

@[simp] theorem fill_current (k : Kernel) (p : Addr) :
    (k.fill p).sched.current = k.sched.current := rfl

theorem count_disable (k : Kernel) (q : Addr) : k.preempt_disable.count q =
    if q = k.sched.current then k.count q + 1 else k.count q := by
  unfold Kernel.count Kernel.preempt_disable scheduler.preempt_disable Sched.write
  by_cases hq : q = k.sched.current
  · simp [hq]
  · simp [hq]

theorem count_enable (k : Kernel) (q : Addr) : k.preempt_enable.count q =
    if q = k.sched.current then k.count q - 1 else k.count q := by
  unfold Kernel.count Kernel.preempt_enable scheduler.preempt_enable Sched.write
  by_cases hq : q = k.sched.current
  · simp [hq]
  · simp [hq]

/-- Two states that differ in the table at most, and not in the counts. -/
structure Like (k t : Kernel) : Prop where
  current : t.sched.current = k.sched.current
  started : t.started = k.started
  underflow : t.underflow = k.underflow
  leaving : t.leaving = k.leaving
  count : ∀ q, t.count q = k.count q

theorem Like.refl (k : Kernel) : Like k k := ⟨rfl, rfl, rfl, rfl, fun _ => rfl⟩

theorem Like.trans {u : Kernel} (h : Like k t) (h' : Like t u) : Like k u := by
  refine ⟨h'.current.trans h.current, h'.started.trans h.started,
    h'.underflow.trans h.underflow, h'.leaving.trans h.leaving, ?_⟩
  intro q
  rw [h'.count, h.count]

theorem Like.due (h : Like k t) (q : Addr) : t.due q = k.due q := by
  unfold Kernel.due
  rw [h.current, h.started, h.leaving]

/-- What leaves the counts alone between `preempt_disable` and `preempt_enable` leaves them
as they were before. -/
theorem Like.enable (h : Like k.preempt_disable t) (hroom : k.count k.sched.current + 1 ≠ 0) :
    Like k t.preempt_enable := by
  have hcur : t.sched.current = k.sched.current := h.current
  have hcount : ∀ q, t.count q = if q = k.sched.current then k.count q + 1 else k.count q := by
    intro q
    rw [h.count, count_disable]
  refine ⟨hcur, h.started, ?_, h.leaving, ?_⟩
  · have hone : t.count t.sched.current = k.count k.sched.current + 1 := by
      rw [hcount, hcur, if_pos rfl]
    simp only [Kernel.preempt_enable, hone, beq_false_of_ne hroom, Bool.or_false]
    exact h.underflow
  · intro q
    rw [count_enable, hcur, hcount]
    by_cases hq : q = k.sched.current
    · simp [hq]
    · simp [hq]

theorem printf_like (hroom : k.count k.sched.current + 1 ≠ 0) : Like k k.printf :=
  (Like.refl _).enable hroom

theorem install_like (k : Kernel) (p : Addr) (i : Fin NR_TASKS) :
    Like k { k with sched := k.sched.install p i } := by
  refine ⟨rfl, rfl, rfl, rfl, ?_⟩
  intro q
  unfold Kernel.count Sched.install Sched.write
  by_cases hq : q = p
  · subst hq
    simp
  · simp [Function.update_of_ne hq]

theorem add_task_like (hroom : k.count k.sched.current + 1 ≠ 0)
    (hroom' : k.count k.sched.current + 1 + 1 ≠ 0) (p : Addr) :
    Like k (k.add_task (some p)).1 := by
  have hdeep : k.preempt_disable.count k.preempt_disable.sched.current + 1 ≠ 0 := by
    rw [count_disable, disable_current, if_pos rfl]
    exact hroom'
  unfold Kernel.add_task
  dsimp only
  split
  · next i _ =>
    have hput := install_like k.preempt_disable p i
    refine (hput.trans (printf_like ?_)).enable hroom
    rw [hput.current, hput.count]
    exact hdeep
  · exact (printf_like hdeep).enable hroom

theorem add_printf_like (hroom : k.count k.sched.current + 1 ≠ 0)
    (hroom' : k.count k.sched.current + 1 + 1 ≠ 0) (p : Addr) :
    Like k (k.add_task (some p)).1.printf := by
  have hadd := add_task_like hroom hroom' p
  refine hadd.trans (printf_like ?_)
  rw [hadd.current, hadd.count]
  exact hroom

/-- The task is put into the table if there is a slot for it. -/
theorem add_task_table (k : Kernel) (p q : Addr) : (k.add_task (some p)).1.sched.InTable q ↔
    k.sched.InTable q ∨ q = p ∧ k.sched.freeSlot.isSome = true := by
  have hslot : k.preempt_disable.sched.freeSlot = k.sched.freeSlot := rfl
  unfold Kernel.add_task
  dsimp only
  rw [hslot]
  rcases hi : k.sched.freeSlot with _ | i
  · simp only [Option.isSome_none, Bool.false_eq_true, and_false, or_false]
    rfl
  · have hempty := (freeSlot_some hi).2.1
    have hput : (∃ j, Function.update k.sched.TASKS i (some p) j = some q) ↔
        k.sched.InTable q ∨ q = p := by
      constructor
      · rintro ⟨j, hj⟩
        by_cases hji : j = i
        · rw [hji, Function.update_self] at hj
          exact .inr (Option.some.inj hj).symm
        · rw [Function.update_of_ne hji] at hj
          exact .inl ⟨j, hj⟩
      · rintro (⟨j, hj⟩ | rfl)
        · refine ⟨j, ?_⟩
          rw [Function.update_of_ne]
          · exact hj
          · rintro rfl
            rw [hempty] at hj
            cases hj
        · exact ⟨i, Function.update_self _ _ _⟩
    simp only [Option.isSome_some, and_true]
    exact hput

/-! ## The search for the next task -/

/-- A search leaves the counts alone, and puts no task into the table. -/
structure Searched (s u : Sched) : Prop where
  current : u.current = s.current
  count : ∀ q, (u.mem q).preempt_count = (s.mem q).preempt_count
  table : ∀ q, u.InTable q → s.InTable q

theorem Searched.refl (s : Sched) : Searched s s := ⟨rfl, fun _ => rfl, fun _ h => h⟩

theorem Searched.trans {s u v : Sched} (h : Searched s u) (h' : Searched u v) : Searched s v := by
  refine ⟨h'.current.trans h.current, ?_, fun q hq => h.table q (h'.table q hq)⟩
  intro q
  rw [h'.count, h.count]

variable {s u : Sched}

theorem removeFrom_searched {n i : Nat} (h : removeFrom s p n i = some u) : Searched s u := by
  induction n generalizing i with
  | zero =>
    cases h
    exact .refl _
  | succ n ih =>
    unfold removeFrom at h
    split_ifs at h with hi hp
    · cases h
      refine ⟨rfl, fun _ => rfl, ?_⟩
      rintro q ⟨j, hj⟩
      dsimp only [Sched.clear] at hj
      by_cases hji : j = ⟨i, hi⟩
      · simp [hji] at hj
      · rw [Function.update_of_ne hji] at hj
        exact ⟨j, hj⟩
    · exact ih h

theorem remove_task_searched (h : remove_task s p = some u) : Searched s u := by
  unfold remove_task at h
  split at h
  · cases h
    exact .refl _
  · exact removeFrom_searched h

theorem searchNext_searched {nTicks : BitVec 32} {n nTask next : Nat}
    (h : searchNext nTicks n s nTask = some (u, next)) : Searched s u := by
  induction n generalizing s nTask with
  | zero =>
    cases h
    exact .refl _
  | succ n ih =>
    unfold searchNext at h
    dsimp only at h
    split at h
    · cases h
    · exact ih h
    · next p _ =>
      split at h
      · cases h
        exact .refl _
      · exact ih h
      · split at h
        · exact ih h
        · cases h
          refine ⟨rfl, ?_, fun _ hq => hq⟩
          intro q
          unfold Sched.write
          by_cases hq : q = p
          · simp [hq]
          · simp [Function.update_of_ne hq]
      · obtain ⟨v, hv, hu⟩ := Option.bind_eq_some_iff.mp h
        exact (remove_task_searched hv).trans (ih hu)
      · exact ih h

theorem searchReady_searched {ticks : List (BitVec 32)} {next : Nat}
    (h : searchReady ticks s = some (u, next)) : Searched s u := by
  induction ticks generalizing s with
  | nil => cases h
  | cons nTicks ticks ih =>
    obtain ⟨⟨v, k⟩, hv, hu⟩ := Option.bind_eq_some_iff.mp h
    have hfirst : Searched s v := searchNext_searched hv
    dsimp only at hu
    split at hu
    · exact hfirst.trans (ih hu)
    · cases hu
      exact hfirst

theorem Searched.like (h : Searched k.sched u) : Like k { k with sched := u } :=
  ⟨h.current, rfl, rfl, rfl, h.count⟩

/-! ## What the search leaves in the table -/

theorem removeFrom_stays {n i : Nat} (h : removeFrom s p n i = some u) (hq : q ≠ p)
    (hin : s.InTable q) : u.InTable q ∧ u.mem = s.mem := by
  induction n generalizing i with
  | zero =>
    cases h
    exact ⟨hin, rfl⟩
  | succ n ih =>
    unfold removeFrom at h
    split_ifs at h with hi hp
    · cases h
      obtain ⟨j, hj⟩ := hin
      refine ⟨⟨j, ?_⟩, rfl⟩
      dsimp only [Sched.clear]
      rw [Function.update_of_ne, hj]
      rintro rfl
      rw [hp] at hj
      exact hq (Option.some.inj hj).symm
    · exact ih h

/-- A task that has not ended stays in the table. -/
theorem searchNext_stays {nTicks : BitVec 32} {n nTask next : Nat}
    (h : searchNext nTicks n s nTask = some (u, next)) (hin : s.InTable q)
    (halive : (s.mem q).state ≠ .Terminated) :
    u.InTable q ∧ (u.mem q).state ≠ .Terminated := by
  induction n generalizing s nTask with
  | zero =>
    cases h
    exact ⟨hin, halive⟩
  | succ n ih =>
    unfold searchNext at h
    dsimp only at h
    split at h
    · cases h
    · exact ih h hin halive
    · next p _ =>
      split at h
      · cases h
        exact ⟨hin, halive⟩
      · exact ih h hin halive
      · split at h
        · exact ih h hin halive
        · cases h
          refine ⟨hin, ?_⟩
          unfold Sched.write
          by_cases hq : q = p
          · simp [hq]
          · simpa [Function.update_of_ne hq] using halive
      · next hstate =>
        obtain ⟨v, hv, hu⟩ := Option.bind_eq_some_iff.mp h
        have hq : q ≠ p := by
          rintro rfl
          exact halive hstate
        unfold remove_task at hv
        split at hv
        · cases hv
          exact ih hu hin halive
        · obtain ⟨hstay, hmem⟩ := removeFrom_stays hv hq hin
          exact ih hu hstay (by rw [hmem]; exact halive)
      · exact ih h hin halive

theorem searchReady_stays {ticks : List (BitVec 32)} {next : Nat}
    (h : searchReady ticks s = some (u, next)) (hin : s.InTable q)
    (halive : (s.mem q).state ≠ .Terminated) :
    u.InTable q ∧ (u.mem q).state ≠ .Terminated := by
  induction ticks generalizing s with
  | nil => cases h
  | cons nTicks ticks ih =>
    obtain ⟨⟨v, k⟩, hv, hu⟩ := Option.bind_eq_some_iff.mp h
    obtain ⟨hstay, hlive⟩ := searchNext_stays hv hin halive
    dsimp only at hu
    split at hu
    · exact ih hu hstay hlive
    · cases hu
      exact ⟨hstay, hlive⟩

/-- The task that the search finds is ready. -/
theorem searchNext_ready {nTicks : BitVec 32} {n nTask next : Nat}
    (h : searchNext nTicks n s nTask = some (u, next)) (hne : next ≠ NR_TASKS)
    (hp : u.slot next = some (some p)) : (u.mem p).state = .Ready := by
  induction n generalizing s nTask with
  | zero =>
    cases h
    exact absurd rfl hne
  | succ n ih =>
    unfold searchNext at h
    dsimp only at h
    split at h
    · cases h
    · exact ih h
    · next r hslot =>
      split at h
      · next hstate =>
        cases h
        rw [hslot] at hp
        cases hp
        exact hstate
      · exact ih h
      · split at h
        · exact ih h
        · cases h
          have hsame : (s.write r fun t => { t with state := .Ready }).slot
              (if s.nr_tasks ≤ nTask + 1 then 0 else nTask + 1) = some (some r) := hslot
          rw [hsame] at hp
          cases hp
          simp [Sched.write]
      · obtain ⟨v, -, hu⟩ := Option.bind_eq_some_iff.mp h
        exact ih hu
      · exact ih h

theorem searchReady_ready {ticks : List (BitVec 32)} {next : Nat}
    (h : searchReady ticks s = some (u, next)) (hp : u.slot next = some (some p)) :
    (u.mem p).state = .Ready := by
  induction ticks generalizing s with
  | nil => cases h
  | cons nTicks ticks ih =>
    obtain ⟨⟨v, k⟩, hv, hu⟩ := Option.bind_eq_some_iff.mp h
    dsimp only at hu
    split at hu
    · exact ih hu
    · next hne =>
      cases hu
      exact searchNext_ready hv hne hp

/-! ## The law of the counts -/

/-- The counts are balanced, and the running task is one that has started. In the middle of
a switch that is the task that is left, and the next one is ready in the table. -/
structure Inv (k : Kernel) : Prop where
  balanced : Balanced k
  started : ∀ p, k.leaving.getD k.sched.current = p → k.started p = true
  chosen : k.leaving ≠ none → k.sched.InTable k.sched.current ∧
    (k.sched.mem k.sched.current).state ≠ .Terminated

theorem due_of_none (h : k.leaving = none) (p : Addr) :
    k.due p = if p = k.sched.current then 0 else if k.started p then 1 else 0 := by
  simp [Kernel.due, h]

theorem due_of_leaving (h : k.leaving ≠ none) (p : Addr) :
    k.due p = if k.started p then 1 else 0 := by
  simp [Kernel.due, h]

/-- In the middle of a switch the next task has the count that is due. -/
theorem Inv.count_next (h : Inv k) (hmid : k.leaving ≠ none) :
    k.count k.sched.current = if k.started k.sched.current then 1 else 0 := by
  rw [h.balanced.table _ (h.chosen hmid).1, due_of_leaving hmid]

theorem Inv.room (h : Inv k) : k.count k.sched.current + 1 ≠ 0 := by
  by_cases hnone : k.leaving = none
  · simp [h.balanced.running hnone]
  · rw [h.count_next hnone]
    split <;> decide

/-- With the counts as they were, the tasks that are new in the table need the count that
is due. -/
theorem Inv.of_like (h : Inv k) (hl : Like k t)
    (htable : ∀ p, t.sched.InTable p → k.sched.InTable p ∨ k.count p = k.due p)
    (hchosen : k.leaving ≠ none → t.sched.InTable k.sched.current ∧
      (t.sched.mem k.sched.current).state ≠ .Terminated) : Inv t := by
  refine ⟨⟨?_, ?_, hl.underflow.trans h.balanced.no_underflow⟩, ?_, ?_⟩
  · intro hnone
    rw [hl.current, hl.count]
    exact h.balanced.running (hl.leaving ▸ hnone)
  · intro p hp
    rw [hl.count, hl.due]
    rcases htable p hp with hold | hnew
    · exact h.balanced.table p hold
    · exact hnew
  · rw [hl.leaving, hl.current, hl.started]
    exact h.started
  · rw [hl.leaving, hl.current]
    exact hchosen

/-- The task that is left keeps the count of 1, and the next one has its own. -/
theorem Inv.switch_to (h : Inv k) (hnone : k.leaving = none) (hl : Like k.preempt_disable t)
    (htable : ∀ p, t.sched.InTable p → k.sched.InTable p) {next : Addr}
    (hnext : t.sched.InTable next) (hready : (t.sched.mem next).state = .Ready) :
    Inv (t.switch_to next) := by
  have hcur : t.sched.current = k.sched.current := hl.current
  have hrun : k.started k.sched.current = true := h.started _ (by rw [hnone]; rfl)
  refine ⟨⟨fun h => (Option.some_ne_none _ h).elim, ?_,
    hl.underflow.trans h.balanced.no_underflow⟩, ?_, fun _ => ⟨hnext, ?_⟩⟩
  · intro p hp
    have hin := htable p hp
    rw [due_of_leaving (Option.some_ne_none _)]
    show t.count p = if t.started p then 1 else 0
    have hstart : t.started p = k.started p := congrFun hl.started p
    rw [hl.count, count_disable, h.balanced.table p hin, due_of_none hnone, hstart]
    by_cases hq : p = k.sched.current
    · rw [if_pos hq, if_pos hq, hq, if_pos hrun]
      rfl
    · rw [if_neg hq, if_neg hq]
  · rintro p rfl
    show t.started t.sched.current = true
    rw [hl.started, hcur]
    exact hrun
  · show (t.sched.mem next).state ≠ .Terminated
    rw [hready]
    decide

theorem Inv.schedule (h : Inv k) (hnone : k.leaving = none) {ticks : List (BitVec 32)}
    (hs : k._schedule ticks = some t) : Inv t := by
  obtain ⟨⟨u, next⟩, hu, hs⟩ := Option.bind_eq_some_iff.mp hs
  obtain ⟨pNext, hslot, ht⟩ := Option.map_eq_some_iff.mp hs
  have hsearch : Searched k.preempt_disable.sched u := searchReady_searched hu
  have hl := hsearch.like
  have hback : Inv ({ k.preempt_disable with sched := u } : Kernel).preempt_enable :=
    h.of_like (hl.enable h.room) (fun p hp => .inl (hsearch.table p hp))
      fun hmid => absurd hnone hmid
  rcases pNext with _ | p
  · rw [← ht]
    exact hback
  · dsimp only at ht
    have hin : u.InTable p := by
      obtain ⟨hlt, hp⟩ := slot_some hslot
      exact ⟨_, hp⟩
    split at ht
    · rw [← ht]
      exact hback
    · rw [← ht]
      exact h.switch_to hnone hl hsearch.table hin (searchReady_ready hu hslot)

/-- A tick in the middle of a switch changes no count when its search ends with the task
that was chosen. -/
theorem Inv.tick_inside (h : Inv k) (hmid : k.leaving ≠ none) {ticks : List (BitVec 32)}
    (ha : KeepsCounts k (.tick ticks)) (hs : k.schedule_tick ticks = some t) : Inv t := by
  unfold Kernel.schedule_tick at hs
  split at hs
  · cases hs
    exact h
  · next hzero =>
    have hfresh : k.started k.sched.current = false := by
      by_contra hstart
      rw [Bool.not_eq_false] at hstart
      rw [h.count_next hmid, if_pos hstart] at hzero
      exact hzero (by decide)
    obtain ⟨⟨u, next⟩, hu, hs⟩ := Option.bind_eq_some_iff.mp hs
    obtain ⟨pNext, hslot, ht⟩ := Option.map_eq_some_iff.mp hs
    have hsearch : Searched k.preempt_disable.sched u := searchReady_searched hu
    obtain ⟨hin, halive⟩ := h.chosen hmid
    have hstate : (k.preempt_disable.sched.mem k.sched.current).state ≠ .Terminated := by
      simpa [Kernel.preempt_disable, scheduler.preempt_disable, Sched.write] using halive
    have hstay := searchReady_stays hu hin hstate
    have hback : Inv ({ k.preempt_disable with sched := u } : Kernel).preempt_enable := by
      refine h.of_like (hsearch.like.enable h.room) (fun p hp => .inl (hsearch.table p hp))
        fun _ => ⟨hstay.1, ?_⟩
      have hcur : u.current = k.sched.current := hsearch.current
      simpa [Kernel.preempt_enable, scheduler.preempt_enable, Sched.write, hcur] using hstay.2
    rcases pNext with _ | p
    · rw [← ht]
      exact hback
    · obtain rfl := ha hmid hfresh u next p hu hslot
      have hcur : u.current = k.sched.current := hsearch.current
      dsimp only at ht
      rw [if_pos hcur] at ht
      rw [← ht]
      exact hback

/-- A task that leaves `_schedule` behind the switch takes its own count down. -/
theorem Inv.task_switch (h : Inv k) (hs : k.task_switch = some t) : Inv t := by
  obtain ⟨prev, hprev, hs⟩ := Option.bind_eq_some_iff.mp hs
  have hmid : k.leaving ≠ none := by simp [hprev]
  have hnew := h.count_next hmid
  have hdue : ∀ p, k.sched.InTable p → k.count p = if k.started p then 1 else 0 := by
    intro p hp
    rw [h.balanced.table p hp, due_of_leaving hmid]
  split at hs
  · dsimp only at hs
    split at hs
    · next hstart =>
      cases hs
      rw [if_pos hstart] at hnew
      set t : Kernel := { k with leaving := none } with ht
      have hback : t.preempt_enable.count k.sched.current = 0 := by
        rw [count_enable, if_pos rfl]
        show k.count k.sched.current - 1 = 0
        rw [hnew, sub_self]
      refine ⟨⟨fun _ => hback, ?_, ?_⟩, ?_, fun hne => absurd rfl hne⟩
      · intro p hp
        rw [due_of_none rfl]
        by_cases hq : p = k.sched.current
        · rw [hq, hback]
          exact (if_pos rfl).symm
        · rw [count_enable, if_neg hq]
          exact (hdue p hp).trans (if_neg hq).symm
      · show (k.underflow || k.count k.sched.current == 0) = false
        rw [hnew, h.balanced.no_underflow]
        decide
      · rintro p rfl
        exact hstart
    · next hstart =>
      cases hs
      rw [if_neg hstart] at hnew
      refine ⟨⟨fun _ => hnew, ?_, h.balanced.no_underflow⟩, ?_, fun hne => absurd rfl hne⟩
      · intro p hp
        rw [due_of_none rfl]
        dsimp only
        by_cases hq : p = k.sched.current
        · rw [if_pos hq, hq]
          exact hnew
        · simp only [if_neg hq, Function.update_of_ne hq]
          exact hdue p hp
      · rintro p rfl
        exact Function.update_self ..
  · cases hs

theorem count_fill (k : Kernel) (p q : Addr) :
    (k.fill p).count q = if q = p then 0 else k.count q := by
  unfold Kernel.count Kernel.fill Sched.write
  by_cases hq : q = p
  · simp [hq]
  · simp [hq]

/-- A new record leaves the balance, if it is not the one of the running task. -/
theorem Inv.fill (h : Inv k) (hnone : k.leaving = none) (hp : p ≠ k.sched.current) :
    Inv (k.fill p) := by
  have hfilled : (k.fill p).leaving = none := hnone
  refine ⟨⟨?_, ?_, h.balanced.no_underflow⟩, ?_, fun hmid => absurd hfilled hmid⟩
  · intro _
    rw [count_fill]
    exact (if_neg hp.symm).trans (h.balanced.running hnone)
  · intro q hq
    rw [count_fill, due_of_none hfilled]
    have hold := h.balanced.table q hq
    rw [due_of_none hnone] at hold
    unfold Kernel.fill
    by_cases hqp : q = p
    · subst hqp
      simp [hp]
    · simp only [Function.update_of_ne hqp, if_neg hqp]
      exact hold
  · rintro q rfl
    rw [hfilled]
    show Function.update k.started p false k.sched.current = true
    rw [Function.update_of_ne hp.symm]
    exact h.started _ (by rw [hnone]; rfl)

theorem Inv.create (h : Inv k) (hnone : k.leaving = none) (hp : p ≠ k.sched.current) :
    Inv (k.create_task (some p)).1 := by
  have hcount : (k.preempt_disable.fill p).count k.sched.current = 1 := by
    rw [count_fill, if_neg hp.symm, count_disable, if_pos rfl, h.balanced.running hnone, zero_add]
  -- The writes to the record and the first `preempt_disable` can change places.
  have hswap : Like (k.fill p).preempt_disable (k.preempt_disable.fill p) := by
    refine ⟨rfl, rfl, rfl, rfl, ?_⟩
    intro q
    rw [count_fill, count_disable, count_disable, count_fill]
    by_cases hq : q = p
    · subst hq
      rw [fill_current, if_pos rfl, if_neg hp, if_pos rfl]
    · rw [fill_current, if_neg hq, if_neg hq]
  have hadd : Like (k.preempt_disable.fill p)
      ((k.preempt_disable.fill p).add_task (some p)).1.printf := by
    apply add_printf_like
    · rw [fill_current, disable_current, hcount]
      decide
    · rw [fill_current, disable_current, hcount]
      decide
  have hfilled : (k.fill p).leaving = none := hnone
  have hfill := h.fill hnone hp
  have hall := (hswap.trans hadd).enable hfill.room
  refine hfill.of_like hall ?_ fun hmid => absurd hfilled hmid
  intro q hq
  rcases (add_task_table _ p q).mp hq with hold | ⟨rfl, -⟩
  · exact .inl hold
  · right
    rw [count_fill, if_pos rfl, due_of_none hfilled]
    simp [Kernel.fill]

/-- Each step outside of a switch that keeps the counts keeps the balance. -/
theorem Inv.act {a : Op} (h : Inv k) (hnone : k.leaving = none) (ha : KeepsCounts k a)
    (hs : preemption.act k a = some t) : Inv t := by
  have hout : ∀ {P : Prop}, k.leaving ≠ none → P := fun hmid => absurd hnone hmid
  cases a with
  | create frames =>
    obtain ⟨p, rfl, hp⟩ := ha hnone
    cases hs
    exact h.create hnone hp
  | add pTask =>
    obtain ⟨p, rfl, hp⟩ := ha hnone
    cases hs
    refine h.of_like (add_task_like h.room ?_ p) ?_ hout
    · simp [h.balanced.running hnone]
    · intro q hq
      rcases (add_task_table k p q).mp hq with hold | ⟨rfl, hslot⟩
      · exact .inl hold
      · exact .inr (hp hslot)
  | schedule ticks => exact h.schedule hnone hs
  | tick ticks =>
    simp only [preemption.act, Kernel.schedule_tick] at hs
    split at hs
    · cases hs
      exact h
    · exact h.schedule hnone hs
  | switch => cases hs
  | printf =>
    cases hs
    exact h.of_like (printf_like h.room) (fun p hp => .inl hp) hout
  | mark p state wake_ticks =>
    cases hs
    refine h.of_like ⟨rfl, rfl, rfl, rfl, ?_⟩ (fun p hp => .inl hp) hout
    intro q
    unfold Kernel.count Sched.write
    by_cases hq : q = p
    · simp [hq]
    · simp [Function.update_of_ne hq]
  | terminate =>
    obtain ⟨u, hu, rfl⟩ := Option.map_eq_some_iff.mp hs
    have hremove := remove_task_searched hu
    exact h.of_like ((printf_like h.room).trans hremove.like)
      (fun p hp => .inl (hremove.table p hp)) hout
  | reuse p r =>
    simp only [preemption.act] at hs
    split at hs
    · cases hs
    · next hfree =>
      push Not at hfree
      cases hs
      refine ⟨⟨?_, ?_, h.balanced.no_underflow⟩, ?_, hout⟩
      · intro _
        simpa [Kernel.count, Sched.write, Function.update_of_ne hfree.2.symm] using
          h.balanced.running hnone
      · intro q hq
        have hqp : q ≠ p := by
          rintro rfl
          exact hfree.1 hq
        simpa [Kernel.count, Kernel.due, Sched.write, Function.update_of_ne hqp] using
          h.balanced.table q hq
      · rintro q rfl
        have hrun := h.started k.sched.current (by rw [hnone]; rfl)
        simpa [hnone, Sched.write, Function.update_of_ne hfree.2.symm] using hrun

/-- Each step that keeps the counts keeps the balance. -/
theorem Inv.step {a : Op} (h : Inv k) (ha : KeepsCounts k a) (hs : step k a = some t) :
    Inv t := by
  unfold preemption.step at hs
  by_cases hnone : k.leaving = none
  · rw [if_pos hnone] at hs
    exact h.act hnone ha hs
  · rw [if_neg hnone] at hs
    cases a with
    | tick ticks => exact h.tick_inside hnone ha hs
    | switch => exact h.task_switch hs
    | _ => cases hs

/-- A tick in the middle of a switch that finds another task leaves the one that was chosen
with a count of 1, and it has never run. -/
theorem Inv.tick_away (h : Inv k) {ticks : List (BitVec 32)} (ha : ¬ KeepsCounts k (.tick ticks)) :
    ∃ t, k.schedule_tick ticks = some t ∧ ¬ Balanced t := by
  unfold KeepsCounts at ha
  push Not at ha
  obtain ⟨hmid, hfresh, u, next, p, hu, hslot, hp⟩ := ha
  have hzero := h.count_next hmid
  rw [if_neg (by simp [hfresh])] at hzero
  have hsearch : Searched k.preempt_disable.sched u := searchReady_searched hu
  have hcur : u.current = k.sched.current := hsearch.current
  have hne : u.current ≠ p := fun heq => hp (heq.symm.trans hcur)
  obtain ⟨hin, halive⟩ := h.chosen hmid
  have hstate : (k.preempt_disable.sched.mem k.sched.current).state ≠ .Terminated := by
    simpa [Kernel.preempt_disable, scheduler.preempt_disable, Sched.write] using halive
  have hstay := (searchReady_stays hu hin hstate).1
  refine ⟨({ k.preempt_disable with sched := u } : Kernel).switch_to p, ?_, ?_⟩
  · unfold Kernel.schedule_tick Kernel._schedule
    rw [hzero, if_neg (by decide)]
    dsimp only
    rw [hu, Option.bind_some]
    dsimp only
    rw [hslot, Option.map_some]
    dsimp only
    rw [if_neg hne]
  · intro hb
    have hcount := hb.table k.sched.current hstay
    rw [due_of_leaving (Option.some_ne_none _)] at hcount
    have hone : ({ k.preempt_disable with sched := u } : Kernel).count k.sched.current = 1 := by
      rw [hsearch.like.count, count_disable, if_pos rfl, hzero, zero_add]
    have hboth : (1 : BitVec 32) = if k.started k.sched.current then 1 else 0 :=
      hone.symm.trans hcount
    rw [hfresh] at hboth
    simp at hboth

/-- Each step that does not keep the counts leaves them out of balance. -/
theorem Inv.unbalanced {a : Op} (h : Inv k) (ha : ¬ KeepsCounts k a) :
    ∃ t, preemption.step k a = some t ∧ ¬ Balanced t := by
  unfold preemption.step
  cases a with
  | create frames =>
    have hnone : k.leaving = none := by
      by_contra hmid
      exact ha fun h0 => absurd h0 hmid
    have hone : k.preempt_disable.count k.preempt_disable.sched.current ≠ 0 := by
      simp [count_disable, h.balanced.running hnone]
    rw [if_pos hnone]
    refine ⟨_, rfl, ?_⟩
    rcases frames with _ | p
    · intro hb
      exact hone (hb.running hnone)
    · have hp : p = k.sched.current := by
        by_contra hne
        exact ha fun _ => ⟨p, rfl, hne⟩
      -- The count that was put to 0 is taken down in the end.
      have hcount : (k.preempt_disable.fill p).count p = 0 := by
        rw [count_fill, if_pos rfl]
      have hadd : Like (k.preempt_disable.fill p)
          ((k.preempt_disable.fill p).add_task (some p)).1.printf := by
        apply add_printf_like
        · rw [fill_current, disable_current, ← hp, hcount]
          decide
        · rw [fill_current, disable_current, ← hp, hcount]
          decide
      have hzero := hadd.count p
      rw [hcount] at hzero
      intro hb
      have hflag := hb.no_underflow
      simp only [Kernel.create_task, Kernel.preempt_enable, hadd.current, fill_current,
        disable_current, ← hp, hzero] at hflag
      simp at hflag
  | add pTask =>
    have hnone : k.leaving = none := by
      by_contra hmid
      exact ha fun h0 => absurd h0 hmid
    have hone : k.preempt_disable.count k.preempt_disable.sched.current ≠ 0 := by
      simp [count_disable, h.balanced.running hnone]
    rw [if_pos hnone]
    refine ⟨_, rfl, ?_⟩
    rcases pTask with _ | p
    · intro hb
      exact hone (hb.running hnone)
    · intro hb
      refine ha fun _ => ⟨p, rfl, ?_⟩
      intro hslot
      have hl := add_task_like h.room (by simp [h.balanced.running hnone]) p
      have hdue := hb.table p ((add_task_table k p p).mpr (.inr ⟨rfl, hslot⟩))
      rw [hl.count, hl.due] at hdue
      exact hdue
  | tick ticks =>
    have hmid : k.leaving ≠ none := fun hnone => ha fun h0 => absurd hnone h0
    rw [if_neg hmid]
    exact h.tick_away ha
  | _ => exact absurd trivial ha

theorem inv_initial (init_task : Addr) (mem : Addr → Task) : Inv (initial init_task mem) := by
  have hzero : (initial init_task mem).count init_task = 0 := by
    simp [Kernel.count, initial, scheduler.initial, INIT_TASK]
  refine ⟨⟨fun _ => hzero, ?_, rfl⟩, ?_, fun hmid => absurd rfl hmid⟩
  · rintro p ⟨i, hi⟩
    dsimp only [initial, scheduler.initial] at hi
    rw [due_of_none rfl]
    split at hi
    · cases hi
      rw [hzero]
      exact (if_pos rfl).symm
    · cases hi
  · rintro p rfl
    exact decide_eq_true rfl

/-- The counts are balanced in every state of a run exactly when `create_task` gets its
frames each time, `add_task` a task with the count that is due, and no tick in the middle
of a switch to a new task finds another one. -/
theorem the_counts_are_balanced_iff (init_task : Addr) (mem : Addr → Task) (ops : List Op) :
    (∀ pre t, pre <+: ops → exec step (initial init_task mem) pre = some t → Balanced t) ↔
      Allowed step KeepsCounts (initial init_task mem) ops :=
  exec_safe_iff Inv Balanced (fun _ h => h.balanced) (fun _ _ _ h ha hs => h.step ha hs)
    (fun _ _ h ha => h.unbalanced ha) (inv_initial init_task mem) ops

/-- A task that could not be created leaves the count of the init task at 1. A tick behind
`current = next` finds the count 0 of the task 64, which has never run, and goes on to the
task 0: the task 64 is left with the count 1. -/
theorem a_failed_create_task_leaves_the_preemption_off :
    (∃ t, exec step (initial 9 fun _ => INIT_TASK) [.create none] = some t ∧
      t.count t.sched.current = 1 ∧ ¬ Balanced t) ∧
    ∃ t, exec step (initial 9 fun _ => INIT_TASK)
        [.create (some 64), .schedule [5], .tick [5]] = some t ∧
      t.sched.InTable 64 ∧ t.started 64 = false ∧ t.count 64 = 1 ∧ ¬ Balanced t := by
  have hcount : ((initial 9 fun _ => INIT_TASK).create_task none).1.count 9 = 1 := by
    decide
  have hrun : (exec step (initial 9 fun _ => INIT_TASK)
      [.create (some 64), .schedule [5], .tick [5]]).map
        (fun t => (decide (t.sched.InTable 64), t.started 64, t.count 64, t.leaving)) =
          some (true, false, 1, some 64) := by
    decide +kernel
  obtain ⟨t, ht, hseen⟩ := Option.map_eq_some_iff.mp hrun
  simp only [Prod.mk.injEq, decide_eq_true_eq] at hseen
  obtain ⟨hin, hfresh, hone, hmid⟩ := hseen
  refine ⟨⟨_, rfl, hcount, ?_⟩, ⟨t, ht, hin, hfresh, hone, ?_⟩⟩
  · intro hb
    have hzero := hb.running rfl
    rw [show ((initial 9 fun _ => INIT_TASK).create_task none).1.sched.current = 9 from rfl,
      hcount] at hzero
    simp at hzero
  · intro hb
    have hnew := hb.table 64 hin
    rw [hone, due_of_leaving (by simp [hmid]), hfresh] at hnew
    simp at hnew

end rpi_wifi.preemption
