-- The laws of the task table: the init task stays in slot 0, each task stands
-- below `nr_tasks` at the index of its pid, and the loops of the scheduler stay
-- inside the table. `nr_tasks` goes up with each task that is added and down
-- only when the last slot is cleared, so it drifts past the table in the end.
import RpiWifi.Scheduler

namespace rpi_wifi.scheduler

open runs

/-! ## The invariant -/

/-- The table as the loops of the scheduler expect it. -/
structure TableOk (init_task : Addr) (s : Sched) : Prop where
  init : s.TASKS ⟨0, by decide⟩ = some init_task
  below : ∀ i p, s.TASKS i = some p → (i : Nat) < s.nr_tasks
  pids : ∀ i p, s.TASKS i = some p → (s.mem p).pid = i
  bound : s.nr_tasks ≤ NR_TASKS

/-- A step that adds a task to a free slot counts it below the size of the table,
and the task is not in the table yet. -/
def AddsSafely (s : Sched) : Op → Prop
  | .add (some p) => s.freeSlot.isSome = true → s.nr_tasks < NR_TASKS ∧ ¬ s.InTable p
  | _ => True

instance (s : Sched) (a : Op) : Decidable (AddsSafely s a) :=
  match a with
  | .add (some _) => inferInstanceAs (Decidable (_ → _ ∧ _))
  | .add none => isTrue trivial
  | .remove _ => isTrue trivial
  | .schedule _ => isTrue trivial
  | .mark _ _ _ => isTrue trivial
  | .reuse _ _ => isTrue trivial

variable {init_task : Addr} {s : Sched}

theorem tableOk_initial (init_task : Addr) (mem : Addr → Task) :
    TableOk init_task (initial init_task mem) := by
  refine ⟨rfl, ?_, ?_, show 1 ≤ NR_TASKS by decide⟩
  · intro i p hp
    dsimp only [initial] at hp ⊢
    split at hp
    · subst i
      simp
    · cases hp
  · intro i p hp
    dsimp only [initial] at hp ⊢
    split at hp
    · cases hp
      subst i
      simp [INIT_TASK]
    · cases hp

theorem TableOk.nr_pos (h : TableOk init_task s) : 0 < s.nr_tasks := h.below _ _ h.init

/-- A task stands at one index. -/
theorem TableOk.index_unique (h : TableOk init_task s) {i j : Fin NR_TASKS} {p : Addr}
    (hi : s.TASKS i = some p) (hj : s.TASKS j = some p) : i = j :=
  Fin.ext ((h.pids i p hi).symm.trans (h.pids j p hj))

theorem slot_of_lt (s : Sched) {k : Nat} (hk : k < NR_TASKS) : s.slot k = some (s.TASKS ⟨k, hk⟩) :=
  dif_pos hk

theorem slot_some {k : Nat} {p : Addr} (h : s.slot k = some (some p)) :
    ∃ hk : k < NR_TASKS, s.TASKS ⟨k, hk⟩ = some p := by
  unfold Sched.slot at h
  split_ifs at h with hk
  exact ⟨hk, Option.some.inj h⟩

/-! ## Writes to the task records -/

@[simp] theorem write_TASKS (s : Sched) (p : Addr) (f : Task → Task) :
    (s.write p f).TASKS = s.TASKS := rfl

@[simp] theorem write_nr_tasks (s : Sched) (p : Addr) (f : Task → Task) :
    (s.write p f).nr_tasks = s.nr_tasks := rfl

@[simp] theorem write_current (s : Sched) (p : Addr) (f : Task → Task) :
    (s.write p f).current = s.current := rfl

theorem write_pid (s : Sched) (p q : Addr) (f : Task → Task)
    (hf : (f (s.mem p)).pid = (s.mem p).pid) : ((s.write p f).mem q).pid = (s.mem q).pid := by
  unfold Sched.write
  by_cases hq : q = p
  · subst hq
    simpa using hf
  · simp [Function.update_of_ne hq]

/-- Two states with the same table, count and pids are in order together. -/
theorem tableOk_congr {t : Sched} (hT : t.TASKS = s.TASKS) (hn : t.nr_tasks = s.nr_tasks)
    (hp : ∀ q, s.InTable q → (t.mem q).pid = (s.mem q).pid) :
    TableOk init_task t ↔ TableOk init_task s := by
  constructor
  · intro h
    refine ⟨hT ▸ h.init, ?_, ?_, hn ▸ h.bound⟩
    · intro i p hi
      rw [← hn]
      exact h.below i p (hT ▸ hi)
    · intro i p hi
      rw [← hp p ⟨i, hi⟩]
      exact h.pids i p (hT ▸ hi)
  · intro h
    refine ⟨hT ▸ h.init, ?_, ?_, hn ▸ h.bound⟩
    · intro i p hi
      rw [hn]
      exact h.below i p (hT ▸ hi)
    · intro i p hi
      rw [hT] at hi
      rw [hp p ⟨i, hi⟩]
      exact h.pids i p hi

theorem tableOk_write {p : Addr} {f : Task → Task} (hf : (f (s.mem p)).pid = (s.mem p).pid) :
    TableOk init_task (s.write p f) ↔ TableOk init_task s :=
  tableOk_congr rfl rfl fun q _ => write_pid s p q f hf

theorem tableOk_reuse {p : Addr} {f : Task → Task} (hp : ¬ s.InTable p) :
    TableOk init_task (s.write p f) ↔ TableOk init_task s := by
  refine tableOk_congr rfl rfl ?_
  intro q hq
  have hne : q ≠ p := by
    rintro rfl
    exact hp hq
  simp [Sched.write, Function.update_of_ne hne]

/-! ## Adding a task -/

/-- The slot that `add_task` finds is the lowest empty one behind slot 0. -/
theorem freeSlot_some {i : Fin NR_TASKS} (h : s.freeSlot = some i) :
    0 < (i : Nat) ∧ s.TASKS i = none ∧
      ∀ j : Fin NR_TASKS, 0 < (j : Nat) → j < i → s.TASKS j ≠ none := by
  unfold Sched.freeSlot at h
  obtain ⟨hi, k, hk, hik, hlow⟩ := List.find?_eq_some_iff_getElem.mp h
  have hval : (i : Nat) = k + 1 := by
    rw [← hik]
    simp
  refine ⟨by omega, Option.isNone_iff_eq_none.mp hi, ?_⟩
  intro j hj hji hnone
  have hji' : (j : Nat) < i := hji
  have := hlow ((j : Nat) - 1) (by omega)
  have hj1 : (j : Nat) - 1 + 1 = j := by omega
  simp [hj1, hnone] at this

theorem freeSlot_le (h : TableOk init_task s) {i : Fin NR_TASKS} (hi : s.freeSlot = some i) :
    (i : Nat) ≤ s.nr_tasks := by
  obtain ⟨hpos, -, hlow⟩ := freeSlot_some hi
  by_cases h1 : (i : Nat) = 1
  · have := h.nr_pos
    omega
  · -- The slot below is full, and so it is below `nr_tasks`.
    have hlt : (i : Nat) - 1 < NR_TASKS := by
      have := i.isLt
      omega
    have hfull := hlow ⟨(i : Nat) - 1, hlt⟩ (by simp; omega) (by simp [Fin.lt_def]; omega)
    obtain ⟨p, hp⟩ := Option.ne_none_iff_exists'.mp hfull
    have := h.below _ p hp
    simp at this
    omega

theorem install_TASKS (s : Sched) (p : Addr) (i : Fin NR_TASKS) :
    (s.install p i).TASKS = Function.update s.TASKS i (some p) := rfl

theorem install_nr_tasks (s : Sched) (p : Addr) (i : Fin NR_TASKS) :
    (s.install p i).nr_tasks = (s.nr_tasks + 1) % 2 ^ 32 := rfl

theorem install_pid_self (s : Sched) (p : Addr) (i : Fin NR_TASKS) :
    ((s.install p i).mem p).pid = i := by
  simp [Sched.install, Sched.write]

theorem install_pid_other (s : Sched) {p q : Addr} (i : Fin NR_TASKS) (hq : q ≠ p) :
    ((s.install p i).mem q).pid = (s.mem q).pid := by
  simp [Sched.install, Sched.write, Function.update_of_ne hq]

/-- A task goes into a free slot in good order exactly when the table has room
for the count and the task is a new one. -/
theorem tableOk_install (h : TableOk init_task s) {p : Addr} {i : Fin NR_TASKS}
    (hi : s.freeSlot = some i) :
    TableOk init_task (s.install p i) ↔ s.nr_tasks < NR_TASKS ∧ ¬ s.InTable p := by
  obtain ⟨hpos, hfree, -⟩ := freeSlot_some hi
  have hle := freeSlot_le h hi
  have hbound := h.bound
  have hcount : (s.install p i).nr_tasks = s.nr_tasks + 1 := by
    rw [install_nr_tasks]
    apply Nat.mod_eq_of_lt
    unfold NR_TASKS at hbound
    omega
  constructor
  · intro ht
    have hb := ht.bound
    rw [hcount] at hb
    refine ⟨hb, ?_⟩
    -- A task that was in the table has its index overwritten with the new one.
    rintro ⟨j, hj⟩
    have hji : j ≠ i := by
      rintro rfl
      rw [hfree] at hj
      cases hj
    have hpid := ht.pids j p (by rw [install_TASKS, Function.update_of_ne hji]; exact hj)
    rw [install_pid_self] at hpid
    exact hji (Fin.ext hpid.symm)
  · rintro ⟨hlt, hnew⟩
    have h0 : (⟨0, by decide⟩ : Fin NR_TASKS) ≠ i := by
      rintro rfl
      simp at hpos
    refine ⟨?_, ?_, ?_, by rw [hcount]; exact hlt⟩
    · rw [install_TASKS, Function.update_of_ne h0]
      exact h.init
    · intro j q hj
      rw [hcount]
      rw [install_TASKS] at hj
      by_cases hji : j = i
      · subst hji
        omega
      · rw [Function.update_of_ne hji] at hj
        have := h.below j q hj
        omega
    · intro j q hj
      rw [install_TASKS] at hj
      by_cases hji : j = i
      · subst hji
        rw [Function.update_self] at hj
        cases hj
        exact install_pid_self s _ _
      · rw [Function.update_of_ne hji] at hj
        have hqp : q ≠ p := by
          rintro rfl
          exact hnew ⟨j, hj⟩
        rw [install_pid_other s i hqp]
        exact h.pids j q hj

theorem tableOk_preempt_disable : TableOk init_task (preempt_disable s) ↔ TableOk init_task s :=
  tableOk_write rfl

theorem tableOk_preempt_enable : TableOk init_task (preempt_enable s) ↔ TableOk init_task s :=
  tableOk_write rfl

theorem tableOk_add (h : TableOk init_task s) (p : Option Addr) :
    TableOk init_task (add_task s p).1 ↔ AddsSafely s (.add p) := by
  have hd := tableOk_preempt_disable.mpr h
  have hslot : (preempt_disable s).freeSlot = s.freeSlot := rfl
  rcases p with _ | p
  · simp only [add_task, AddsSafely, iff_true]
    exact hd
  · rcases hi : s.freeSlot with _ | i
    · simp only [add_task, AddsSafely, hslot, hi, Option.isSome_none, Bool.false_eq_true,
        false_implies, iff_true]
      exact tableOk_preempt_enable.mpr hd
    · simp only [add_task, AddsSafely, hslot, hi, Option.isSome_some, true_implies]
      rw [tableOk_preempt_enable, tableOk_install hd (hslot.trans hi)]
      rfl

/-! ## Removing a task -/

theorem tableOk_clear (h : TableOk init_task s) {p : Addr} {i : Fin NR_TASKS}
    (hpos : 0 < (i : Nat)) : TableOk init_task (s.clear i p) := by
  have h0 : (⟨0, by decide⟩ : Fin NR_TASKS) ≠ i := by
    rintro rfl
    simp at hpos
  have hnr := h.nr_pos
  have hbound := h.bound
  refine ⟨?_, ?_, ?_, ?_⟩
  · exact (Function.update_of_ne h0 _ _).trans h.init
  · intro j q hj
    dsimp only [Sched.clear] at hj ⊢
    by_cases hji : j = i
    · subst hji
      simp at hj
    · rw [Function.update_of_ne hji] at hj
      have hlt := h.below j q hj
      have hne : (j : Nat) ≠ i := fun he => hji (Fin.ext he)
      split <;> omega
  · intro j q hj
    dsimp only [Sched.clear] at hj ⊢
    by_cases hji : j = i
    · subst hji
      simp at hj
    · rw [Function.update_of_ne hji] at hj
      exact h.pids j q hj
  · dsimp only [Sched.clear]
    split <;> omega

/-- The loop finds the task at its index, before it could leave the table. -/
theorem removeFrom_found (h : TableOk init_task s) {p : Addr} {j : Fin NR_TASKS}
    (hj : s.TASKS j = some p) (n i : Nat) (hij : i ≤ j) (hn : (j : Nat) < i + n) :
    removeFrom s p n i = some (s.clear j p) := by
  induction n generalizing i with
  | zero => omega
  | succ n ih =>
    have hi : i < NR_TASKS := by
      have := j.isLt
      omega
    rw [removeFrom, dif_pos hi]
    by_cases hp : s.TASKS ⟨i, hi⟩ = some p
    · rw [if_pos hp, h.index_unique hp hj]
    · rw [if_neg hp]
      have hne : i ≠ j := by
        rintro rfl
        exact hp hj
      exact ih (i + 1) (by omega) (by omega)

/-- A task of the table is removed, and only the init task stays where it is. -/
theorem remove_task_spec (h : TableOk init_task s) {p : Addr} (hp : s.InTable p) :
    ∃ t, remove_task s p = some t ∧ TableOk init_task t := by
  obtain ⟨j, hj⟩ := hp
  unfold remove_task
  rw [h.pids j p hj]
  by_cases h0 : (j : Nat) = 0
  · exact ⟨s, if_pos h0, h⟩
  · refine ⟨s.clear j p, ?_, tableOk_clear h (by omega)⟩
    rw [if_neg h0]
    have := h.below j p hj
    exact removeFrom_found h hj s.nr_tasks 0 (by omega) (by omega)

/-! ## The search for the next task -/

/-- The search stays inside the table, and it leaves the table in order. -/
theorem searchNext_spec (nTicks : BitVec 32) (n nTask : Nat) (h : TableOk init_task s) :
    ∃ t k, searchNext nTicks n s nTask = some (t, k) ∧ TableOk init_task t ∧ k ≤ NR_TASKS := by
  induction n generalizing s nTask with
  | zero => exact ⟨s, NR_TASKS, rfl, h, le_refl _⟩
  | succ n ih =>
    unfold searchNext
    dsimp only
    set k := if s.nr_tasks ≤ nTask + 1 then 0 else nTask + 1 with hk
    have hlt : k < NR_TASKS := by
      have := h.bound
      have := h.nr_pos
      rw [hk]
      split <;> omega
    have hslot : s.slot k = some (s.TASKS ⟨k, hlt⟩) := slot_of_lt s hlt
    rw [hslot]
    rcases hp : s.TASKS ⟨k, hlt⟩ with _ | p
    · exact ih k h
    · dsimp only
      split
      · exact ⟨s, k, rfl, h, hlt.le⟩
      · exact ih k h
      · split
        · exact ih k h
        · exact ⟨_, k, rfl, (tableOk_write rfl).mpr h, hlt.le⟩
      · obtain ⟨t, ht, hok⟩ := remove_task_spec h ⟨_, hp⟩
        rw [ht]
        exact ih k hok
      · exact ih k h

theorem get_next_task_spec (h : TableOk init_task s) (nTicks : BitVec 32) :
    ∃ t k, get_next_task s nTicks = some (t, k) ∧ TableOk init_task t ∧ k ≤ NR_TASKS :=
  searchNext_spec nTicks NR_TASKS _ h

theorem schedule_spec (h : TableOk init_task s) (nTicks : BitVec 32) :
    ∃ t, _schedule s nTicks = some t ∧ TableOk init_task t := by
  obtain ⟨t, k, ht, hok, hle⟩ := get_next_task_spec h nTicks
  unfold _schedule
  rw [ht, Option.bind_some]
  dsimp only
  by_cases hk : k = NR_TASKS
  · exact ⟨t, if_pos hk, hok⟩
  · have hlt : k < NR_TASKS := by omega
    have hslot : t.slot k = some (t.TASKS ⟨k, hlt⟩) := slot_of_lt t hlt
    rw [if_neg hk, hslot, Option.map_some]
    refine ⟨_, rfl, ?_⟩
    split
    · exact hok
    · exact ⟨hok.init, hok.below, hok.pids, hok.bound⟩

/-! ## The law of the table -/

theorem tableOk_step {t : Sched} {a : Op} (h : TableOk init_task s) (hs : step s a = some t) :
    TableOk init_task t ↔ AddsSafely s a := by
  cases a with
  | add p =>
    cases hs
    exact tableOk_add h p
  | remove p =>
    simp only [step] at hs
    split at hs
    · obtain ⟨u, hu, hok⟩ := remove_task_spec h ‹_›
      rw [hu] at hs
      cases hs
      exact iff_of_true hok trivial
    · cases hs
  | schedule nTicks =>
    obtain ⟨u, hu, hok⟩ := schedule_spec h nTicks
    rw [step, hu] at hs
    cases hs
    exact iff_of_true hok trivial
  | mark p state wake_ticks =>
    cases hs
    exact iff_of_true ((tableOk_write rfl).mpr h) trivial
  | reuse p r =>
    simp only [step] at hs
    split at hs <;> cases hs
    exact iff_of_true ((tableOk_reuse ‹_›).mpr h) trivial

/-- The table is in order, and the loops of the scheduler stay inside it. -/
def TableSafe (init_task : Addr) (s : Sched) : Prop :=
  TableOk init_task s ∧ (∀ nTicks, (get_next_task s nTicks).isSome = true) ∧
    ∀ p, s.InTable p → (remove_task s p).isSome = true

theorem tableSafe_iff : TableSafe init_task s ↔ TableOk init_task s := by
  refine ⟨fun h => h.1, fun h => ⟨h, ?_, ?_⟩⟩
  · intro nTicks
    obtain ⟨t, k, ht, -, -⟩ := get_next_task_spec h nTicks
    rw [ht]
    rfl
  · intro p hp
    obtain ⟨t, ht, -⟩ := remove_task_spec h hp
    rw [ht]
    rfl

/-- The table is in order in every state of a run exactly when each task that the
run adds to a free slot is new and finds `nr_tasks` below the size of the table. -/
theorem the_task_table_is_kept_iff (init_task : Addr) (mem : Addr → Task) (ops : List Op) :
    (∀ pre t, pre <+: ops → exec step (initial init_task mem) pre = some t →
      TableSafe init_task t) ↔
    Allowed step AddsSafely (initial init_task mem) ops := by
  simp only [tableSafe_iff]
  refine exec_inv_iff (TableOk init_task) (fun _ _ _ h hs => tableOk_step h hs) ?_
    (tableOk_initial init_task mem) ops
  intro s a _ hs
  cases a with
  | add p => cases hs
  | remove p => trivial
  | schedule nTicks => trivial
  | mark p state wake_ticks => trivial
  | reuse p r => trivial

/-- Two tasks are added, and then the first one ends and another takes its slot,
62 times over. At the end both tasks wait. -/
def driftingRun : List Op :=
  [.add (some 1), .add (some 2)] ++ (List.replicate 62 [.remove 1, .add (some 1)]).flatten ++
    [.mark 1 .Blocked 0, .mark 2 .Blocked 0]

/-- `nr_tasks` is 65 with three tasks in the table, and the search for the next
task reads past the end of it. -/
theorem nr_tasks_drifts_past_the_table :
    ∃ t, exec step (initial 9 fun _ => INIT_TASK) driftingRun = some t ∧ t.nr_tasks = 65 ∧
      get_next_task t 0 = none ∧ ¬ TableSafe 9 t := by
  have hend : (exec step (initial 9 fun _ => INIT_TASK) driftingRun).map
      (fun t => (t.nr_tasks, (get_next_task t 0).isNone)) = some (65, true) := by
    decide +kernel
  obtain ⟨t, ht, he⟩ := Option.map_eq_some_iff.mp hend
  simp only [Prod.mk.injEq, Option.isNone_iff_eq_none] at he
  obtain ⟨hnr, hnext⟩ := he
  refine ⟨t, ht, hnr, hnext, ?_⟩
  intro hsafe
  have hsome := hsafe.2.1 0
  rw [hnext] at hsome
  cases hsome

end rpi_wifi.scheduler
