-- The choice of the next task. `get_next_task` goes round the table from the
-- slot behind the running task and takes the first task that can run, so a task
-- that stays ready is not passed over for more than one round.
import RpiWifi.TaskTable
import RpiWifi.Cyclic

namespace rpi_wifi.scheduler

open runs cyclic

/-! ## The choice -/

/-- The task in slot `k` can run: it is ready, or it sleeps and its time is over. -/
def Sched.runnable (s : Sched) (nTicks : BitVec 32) (k : Nat) : Bool :=
  match s.slot k with
  | some (some p) =>
    match (s.mem p).state with
    | .Ready => true
    | .Sleeping => decide (((s.mem p).wake_ticks - nTicks).toInt ≤ 0)
    | _ => false
  | _ => false

/-- A sleeping task that was chosen is ready. -/
def Sched.awaken (s : Sched) (k : Nat) : Sched :=
  match s.slot k with
  | some (some p) =>
    if (s.mem p).state = .Sleeping then s.write p fun t => { t with state := .Ready } else s
  | _ => s

/-- The slots behind the running task, and then the ones from 0 up to its own. -/
def Sched.fromCurrent (s : Sched) : List Nat :=
  let pid := (s.mem s.current).pid
  (List.range s.nr_tasks).drop (pid + 1) ++ List.range (pid + 1)

/-- The table, without a task that has ended. The running task has an index of the table. -/
structure Steady (s : Sched) : Prop where
  bound : s.nr_tasks ≤ NR_TASKS
  pids : ∀ i p, s.TASKS i = some p → (s.mem p).pid = i
  alive : ∀ i p, s.TASKS i = some p → (s.mem p).state ≠ .Terminated
  current : (s.mem s.current).pid < NR_TASKS

variable {s t : Sched} {nTicks : BitVec 32}

/-- The loop of `get_next_task` looks at the slots in turn, and stops at the first one
whose task can run. -/
theorem searchNext_eq (h : Steady s) (hpos : 0 < s.nr_tasks) (m c : Nat) :
    searchNext nTicks m s c =
      match (visits s.nr_tasks m c).find? (s.runnable nTicks) with
      | some k => some (s.awaken k, k)
      | none => some (s, NR_TASKS) := by
  induction m generalizing c with
  | zero => rfl
  | succ m ih =>
    have hk : next s.nr_tasks c < NR_TASKS := (next_lt hpos).trans_le h.bound
    have hslot : s.slot (next s.nr_tasks c) = some (s.TASKS ⟨next s.nr_tasks c, hk⟩) :=
      slot_of_lt s hk
    have hfold : (if s.nr_tasks ≤ c + 1 then 0 else c + 1) = next s.nr_tasks c := rfl
    rw [visits, List.find?_cons]
    unfold searchNext
    dsimp only
    rw [hfold, hslot]
    rcases hp : s.TASKS ⟨next s.nr_tasks c, hk⟩ with _ | p
    · have hno : s.runnable nTicks (next s.nr_tasks c) = false := by
        simp [Sched.runnable, hslot, hp]
      rw [hno]
      exact ih _
    · rw [hp] at hslot
      cases hstate : (s.mem p).state with
      | Ready => simp [Sched.runnable, Sched.awaken, hslot, hstate]
      | Blocked | Unknown =>
        have hno : s.runnable nTicks (next s.nr_tasks c) = false := by
          simp [Sched.runnable, hslot, hstate]
        rw [hno]
        simpa [hstate] using ih _
      | Sleeping =>
        by_cases hwait : 0 < ((s.mem p).wake_ticks - nTicks).toInt
        · have hno : s.runnable nTicks (next s.nr_tasks c) = false := by
            simpa [Sched.runnable, hslot, hstate] using hwait
          simp only [hno, hstate, if_pos hwait]
          exact ih _
        · have hyes : s.runnable nTicks (next s.nr_tasks c) = true := by
            simpa [Sched.runnable, hslot, hstate] using hwait
          simp only [hyes, hstate, if_neg hwait, Sched.awaken, hslot, if_true]
      | Terminated => exact absurd hstate (h.alive _ p hp)

/-- A slot that can run is found in one round. -/
theorem get_next_task_eq (h : Steady s) {k : Nat}
    (hk : (order s.nr_tasks (s.mem s.current).pid).find? (s.runnable nTicks) = some k) :
    get_next_task s nTicks = some (s.awaken k, k) := by
  have hpos : 0 < s.nr_tasks :=
    (Nat.zero_le k).trans_lt (mem_order.mp (List.mem_of_find?_eq_some hk))
  unfold get_next_task
  dsimp only
  have hrounds : NR_TASKS = s.nr_tasks + (NR_TASKS - s.nr_tasks) := by
    have := h.bound
    omega
  rw [if_pos h.current, searchNext_eq h hpos, hrounds, visits_append, visits_eq,
    List.find?_append, hk]
  rfl

/-- With the first task ready, the search from the running task on finds what one round finds. -/
theorem find_fromCurrent (hinit : s.runnable nTicks 0 = true) (hpos : 0 < s.nr_tasks) :
    s.fromCurrent.find? (s.runnable nTicks) =
      (order s.nr_tasks (s.mem s.current).pid).find? (s.runnable nTicks) := by
  have hzero : ∀ m, 0 < m → (List.range m).find? (s.runnable nTicks) = some 0 := by
    intro m hm
    obtain ⟨m, rfl⟩ := Nat.exists_eq_succ_of_ne_zero hm.ne'
    rw [List.range_succ_eq_map, List.find?_cons, hinit]
  unfold Sched.fromCurrent order
  dsimp only
  rw [List.find?_append, List.find?_append, List.take_range, hzero _ (Nat.succ_pos _),
    hzero _ (by omega)]

/-! ## Runs of decisions -/

/-- The table stays as it is, and the task `p` stays ready. -/
def KeepsReady (p : Addr) : Op → Prop
  | .schedule _ => True
  | .mark q state _ => state ≠ .Terminated ∧ (q = p → state = .Ready)
  | _ => False

def Op.decides : Op → Bool
  | .schedule _ => true
  | _ => false

/-- The task `p` stands in slot `i`, and it is ready. -/
structure Waits (s : Sched) (i : Fin NR_TASKS) (p : Addr) : Prop where
  steady : Steady s
  slot : s.TASKS i = some p
  below : (i : Nat) < s.nr_tasks
  ready : (s.mem p).state = .Ready

/-- How many slots the search looks at before it comes to slot `i`. -/
def Sched.gap (s : Sched) (i : Fin NR_TASKS) : Nat := between s.nr_tasks (s.mem s.current).pid i

variable {i : Fin NR_TASKS} {p q : Addr}

/-- A write that keeps the pids and ends no task. -/
theorem Waits.write (h : Waits s i p) {f : Task → Task} (hpid : (f (s.mem q)).pid = (s.mem q).pid)
    (halive : (f (s.mem q)).state ≠ .Terminated) (hready : q = p → (f (s.mem q)).state = .Ready) :
    Waits (s.write q f) i p := by
  have hstate : ∀ r, r ≠ q → ((s.write q f).mem r).state = (s.mem r).state := by
    intro r hr
    simp [Sched.write, Function.update_of_ne hr]
  have hself : (s.write q f).mem q = f (s.mem q) := Function.update_self _ _ _
  refine ⟨⟨h.steady.bound, ?_, ?_, ?_⟩, h.slot, h.below, ?_⟩
  · intro j r hr
    rw [write_pid s q r f hpid]
    exact h.steady.pids j r hr
  · intro j r hr
    by_cases hq : r = q
    · rw [hq, hself]
      exact halive
    · rw [hstate r hq]
      exact h.steady.alive j r hr
  · rw [write_pid s q _ f hpid]
    exact h.steady.current
  · by_cases hq : p = q
    · rw [hq, hself]
      exact hready hq.symm
    · rw [hstate p hq]
      exact h.ready

theorem gap_write {f : Task → Task} (hpid : (f (s.mem q)).pid = (s.mem q).pid) :
    (s.write q f).gap i = s.gap i := by
  unfold Sched.gap
  rw [write_pid s q _ f hpid]
  rfl

theorem Waits.awaken (h : Waits s i p) (k : Nat) : Waits (s.awaken k) i p := by
  unfold Sched.awaken
  split
  · split
    · exact h.write rfl nofun fun _ => rfl
    · exact h
  · exact h

theorem awaken_TASKS (s : Sched) (k : Nat) : (s.awaken k).TASKS = s.TASKS := by
  unfold Sched.awaken
  split
  · split <;> rfl
  · rfl

theorem awaken_nr_tasks (s : Sched) (k : Nat) : (s.awaken k).nr_tasks = s.nr_tasks := by
  unfold Sched.awaken
  split
  · split <;> rfl
  · rfl

/-- There is a task in a slot that can run. -/
theorem task_of_runnable {k : Nat} (hk : s.runnable nTicks k = true) :
    ∃ (h : k < NR_TASKS) (q : Addr), s.TASKS ⟨k, h⟩ = some q := by
  unfold Sched.runnable Sched.slot at hk
  split_ifs at hk with h
  · rcases hq : s.TASKS ⟨k, h⟩ with _ | q
    · simp [hq] at hk
    · exact ⟨h, q, hq⟩

/-- A decision takes the task in slot `i`, or one that stands between. -/
theorem Waits.schedule (h : Waits s i p) (nTicks : BitVec 32) :
    ∃ t, _schedule s nTicks = some t ∧ Waits t i p ∧ t.nr_tasks = s.nr_tasks ∧
      (t.current = p ∨ t.gap i < s.gap i) := by
  have hslot : s.slot i = some (some p) := by
    rw [← h.slot]
    exact slot_of_lt s i.isLt
  have hfits : s.runnable nTicks i = true := by
    simp [Sched.runnable, hslot, h.ready]
  obtain ⟨k, hk⟩ : ∃ k, (order s.nr_tasks (s.mem s.current).pid).find? (s.runnable nTicks) =
      some k := by
    rw [← Option.isSome_iff_exists, List.find?_isSome]
    exact ⟨i, mem_order.mpr h.below, hfits⟩
  obtain ⟨hlt, q, hq⟩ := task_of_runnable (List.find?_some hk)
  have hw := h.awaken k
  have hq' : (s.awaken k).TASKS ⟨k, hlt⟩ = some q := by
    rw [awaken_TASKS]
    exact hq
  have hpid : ((s.awaken k).mem q).pid = k := hw.steady.pids _ q hq'
  refine ⟨{ s.awaken k with current := q }, ?_, ?_, awaken_nr_tasks s k, ?_⟩
  · have hslot' : (s.awaken k).slot k = some (some q) := by
      rw [← hq']
      exact slot_of_lt _ hlt
    unfold _schedule
    rw [get_next_task_eq h.steady hk, Option.bind_some]
    dsimp only
    rw [if_neg hlt.ne, hslot', Option.map_some]
  · refine ⟨⟨hw.steady.bound, hw.steady.pids, hw.steady.alive, ?_⟩, hw.slot, hw.below, hw.ready⟩
    dsimp only
    rw [hpid]
    exact hlt
  · rcases found_or_nearer hk h.below hfits with rfl | hnear
    · left
      exact Option.some.inj (hq.symm.trans h.slot)
    · right
      unfold Sched.gap
      dsimp only
      rw [hpid, awaken_nr_tasks]
      exact hnear

theorem Waits.step (h : Waits s i p) {a : Op} (ha : KeepsReady p a) :
    ∃ t, step s a = some t ∧ Waits t i p ∧ t.nr_tasks = s.nr_tasks ∧
      (a.decides = true → t.current = p ∨ t.gap i < s.gap i) ∧
      (a.decides = false → t.gap i = s.gap i) := by
  cases a with
  | schedule nTicks =>
    obtain ⟨t, ht, hw, hn, hnear⟩ := h.schedule nTicks
    exact ⟨t, ht, hw, hn, fun _ => hnear, nofun⟩
  | mark q state wake_ticks =>
    obtain ⟨halive, hready⟩ := ha
    exact ⟨_, rfl, h.write rfl halive hready, rfl, nofun, fun _ => gap_write rfl⟩
  | add p => exact ha.elim
  | remove p => exact ha.elim
  | reuse p t => exact ha.elim

/-- The task is chosen before the search has come round. -/
theorem Waits.chosen (h : Waits s i p) {ops : List Op} (hops : ∀ a ∈ ops, KeepsReady p a)
    (hcount : s.gap i < ops.countP Op.decides) :
    ∃ before nTicks after t, ops = before ++ .schedule nTicks :: after ∧
      exec scheduler.step s (before ++ [.schedule nTicks]) = some t ∧ t.current = p := by
  induction ops generalizing s with
  | nil => simp at hcount
  | cons a ops ih =>
    obtain ⟨t, ht, hw, -, hyes, hno⟩ := h.step (hops a List.mem_cons_self)
    have hlater : t.gap i < ops.countP Op.decides →
        ∃ before nTicks after t, a :: ops = before ++ .schedule nTicks :: after ∧
          exec scheduler.step s (before ++ [.schedule nTicks]) = some t ∧ t.current = p := by
      intro hgap
      obtain ⟨before, nTicks, after, u, hsplit, hexec, hcur⟩ :=
        ih hw (fun b hb => hops b (List.mem_cons_of_mem _ hb)) hgap
      refine ⟨a :: before, nTicks, after, u, ?_, ?_, hcur⟩
      · rw [hsplit]
        rfl
      · rw [List.cons_append, exec, ht]
        exact hexec
    cases hd : a.decides with
    | false =>
      rw [List.countP_cons_of_neg (by simp [hd])] at hcount
      exact hlater (by rw [hno hd]; exact hcount)
    | true =>
      rw [List.countP_cons_of_pos hd] at hcount
      rcases hyes hd with hcur | hgap
      · cases a with
        | schedule nTicks =>
          refine ⟨[], nTicks, ops, t, rfl, ?_, hcur⟩
          rw [List.nil_append, exec, ht]
          rfl
        | _ => cases hd
      · exact hlater (by omega)

/-- `get_next_task` returns the first slot in the cyclic order whose task can run, and a
task that stays ready is chosen within any `nr_tasks` decisions. -/
theorem the_choice_goes_round (s : Sched) (h : Steady s)
    (hinit : ∃ p, s.TASKS ⟨0, by decide⟩ = some p ∧ (s.mem p).state = .Ready) :
    (∀ nTicks, ∃ k, s.fromCurrent.find? (s.runnable nTicks) = some k ∧
      get_next_task s nTicks = some (s.awaken k, k)) ∧
    ∀ (i : Fin NR_TASKS) (p : Addr) (ops : List Op), s.TASKS i = some p → (i : Nat) < s.nr_tasks →
      (s.mem p).state = .Ready → (∀ a ∈ ops, KeepsReady p a) →
      s.nr_tasks ≤ ops.countP Op.decides →
      ∃ before nTicks after t, ops = before ++ .schedule nTicks :: after ∧
        exec step s (before ++ [.schedule nTicks]) = some t ∧ t.current = p := by
  obtain ⟨q, hq, hready⟩ := hinit
  have hslot : s.slot 0 = some (some q) := hq ▸ slot_of_lt s (by decide)
  refine ⟨?_, ?_⟩
  · intro nTicks
    have hzero : s.runnable nTicks 0 = true := by
      simp [Sched.runnable, hslot, hready]
    rcases Nat.eq_zero_or_pos s.nr_tasks with hnone | hpos
    · -- With no task counted, the index stays at 0.
      refine ⟨0, ?_, ?_⟩
      · unfold Sched.fromCurrent
        dsimp only
        rw [hnone, List.range_succ_eq_map, List.range_zero, List.drop_nil, List.nil_append,
          List.find?_cons, hzero]
      · have hsame : s.awaken 0 = s := by
          simp [Sched.awaken, hslot, hready]
        have hnext : ∀ c, (if s.nr_tasks ≤ c + 1 then 0 else c + 1) = 0 := by
          intro c
          rw [hnone, if_pos (Nat.zero_le _)]
        unfold get_next_task NR_TASKS
        dsimp only
        unfold searchNext
        dsimp only
        rw [hnext, hslot, hsame]
        dsimp only
        rw [hready]
    · obtain ⟨k, hk⟩ : ∃ k, (order s.nr_tasks (s.mem s.current).pid).find? (s.runnable nTicks) =
          some k := by
        rw [← Option.isSome_iff_exists, List.find?_isSome]
        exact ⟨0, mem_order.mpr hpos, hzero⟩
      exact ⟨k, (find_fromCurrent hzero hpos).trans hk, get_next_task_eq h hk⟩
  · intro i p ops hp hbelow hstays hops hcount
    have hw : Waits s i p := ⟨h, hp, hbelow, hstays⟩
    exact hw.chosen hops ((between_lt hbelow).trans_le hcount)

/-- The init task runs, and a second task is ready. -/
def twoTasks : Sched :=
  { initial 9 fun _ => { INIT_TASK with pid := 1 } with
    TASKS := fun i => if (i : Nat) = 0 then some 9 else if (i : Nat) = 1 then some 1 else none
    nr_tasks := 2 }

theorem steady_twoTasks : Steady twoTasks := by
  have hslots : ∀ i p, twoTasks.TASKS i = some p → (i : Nat) = 0 ∧ p = 9 ∨ (i : Nat) = 1 ∧ p = 1 := by
    intro i p hp
    dsimp only [twoTasks] at hp
    split_ifs at hp with h0 h1
    · cases hp
      exact .inl ⟨h0, rfl⟩
    · cases hp
      exact .inr ⟨h1, rfl⟩
  refine ⟨by decide, ?_, ?_, by decide⟩
  · intro i p hp
    rcases hslots i p hp with ⟨hi, rfl⟩ | ⟨hi, rfl⟩
    · exact hi.symm
    · exact hi.symm
  · intro i p hp
    rcases hslots i p hp with ⟨-, rfl⟩ | ⟨-, rfl⟩
    · decide
    · decide

/-- The second task runs within two decisions. -/
theorem the_second_task_runs :
    (∃ k, twoTasks.fromCurrent.find? (twoTasks.runnable 0) = some k ∧
      get_next_task twoTasks 0 = some (twoTasks.awaken k, k)) ∧
    ∃ before nTicks after t, [Op.schedule 0, .schedule 5] = before ++ .schedule nTicks :: after ∧
      exec step twoTasks (before ++ [.schedule nTicks]) = some t ∧ t.current = 1 := by
  have hround := the_choice_goes_round twoTasks steady_twoTasks ⟨9, rfl, rfl⟩
  refine ⟨hround.1 0, ?_⟩
  apply hround.2 ⟨1, by decide⟩ 1 [.schedule 0, .schedule 5] rfl (by decide) rfl
  · intro a ha
    fin_cases ha <;> trivial
  · decide

/-- One task is counted, the init task that runs, and slot 5 has a second ready task. -/
def lateTask : Sched :=
  { initial 9 fun _ => { INIT_TASK with pid := 5 } with
    TASKS := fun i => if (i : Nat) = 0 then some 9 else if (i : Nat) = 5 then some 1 else none }

/-- The tasks of `twoTasks`, and a running task that is not in the table, with the pid 64. -/
def strayTask : Sched :=
  { twoTasks with mem := Function.update twoTasks.mem 2 { INIT_TASK with pid := 64 }, current := 2 }

theorem steady_lateTask : Steady lateTask := by
  have hslots : ∀ i p, lateTask.TASKS i = some p → (i : Nat) = 0 ∧ p = 9 ∨ (i : Nat) = 5 ∧ p = 1 := by
    intro i p hp
    dsimp only [lateTask] at hp
    split_ifs at hp with h0 h5
    · cases hp
      exact .inl ⟨h0, rfl⟩
    · cases hp
      exact .inr ⟨h5, rfl⟩
  refine ⟨by decide, ?_, ?_, by decide⟩
  · intro i p hp
    rcases hslots i p hp with ⟨hi, rfl⟩ | ⟨hi, rfl⟩
    · exact hi.symm
    · exact hi.symm
  · intro i p hp
    rcases hslots i p hp with ⟨-, rfl⟩ | ⟨-, rfl⟩
    · decide
    · decide

theorem lateTask_stays (n : Nat) :
    exec step lateTask (List.replicate n (.schedule 0)) = some lateTask := by
  have hstep : step lateTask (.schedule 0) = some lateTask := rfl
  induction n with
  | zero => rfl
  | succ n ih =>
    rw [List.replicate_succ, exec, hstep]
    exact ih

/-- The search does not come to a slot behind `nr_tasks`, so a ready task there is never
chosen; and from a pid of 64 on it starts behind slot 0, not at it. -/
theorem a_slot_behind_the_count_is_passed_over :
    (lateTask.nr_tasks ≤ NR_TASKS ∧
      (∀ i p, lateTask.TASKS i = some p →
        (lateTask.mem p).pid = i ∧ (lateTask.mem p).state ≠ .Terminated) ∧
      (∃ p, lateTask.TASKS ⟨0, by decide⟩ = some p ∧ (lateTask.mem p).state = .Ready) ∧
      (∃ p, lateTask.TASKS ⟨5, by decide⟩ = some p ∧ (lateTask.mem p).state = .Ready ∧
        ∀ n, ∃ t, exec step lateTask (List.replicate n (.schedule 0)) = some t ∧
          t.current ≠ p)) ∧
    (strayTask.nr_tasks ≤ NR_TASKS ∧
      (∀ i p, strayTask.TASKS i = some p →
        (strayTask.mem p).pid = i ∧ (strayTask.mem p).state ≠ .Terminated) ∧
      (∃ p, strayTask.TASKS ⟨0, by decide⟩ = some p ∧ (strayTask.mem p).state = .Ready) ∧
      strayTask.fromCurrent.find? (strayTask.runnable 0) = some 0 ∧
      (get_next_task strayTask 0).map Prod.snd = some 1) := by
  refine ⟨⟨by decide, ?_, ⟨9, rfl, rfl⟩, 1, rfl, rfl, ?_⟩, by decide, ?_, ⟨9, rfl, rfl⟩, by decide,
    by decide⟩
  · exact fun i p hp => ⟨steady_lateTask.pids i p hp, steady_lateTask.alive i p hp⟩
  · exact fun n => ⟨lateTask, lateTask_stays n, by decide⟩
  · intro i p hp
    have hne : p ≠ 2 := by
      rintro rfl
      dsimp only [strayTask, twoTasks] at hp
      split_ifs at hp <;> simp at hp
    have hmem : strayTask.mem p = twoTasks.mem p := Function.update_of_ne hne _ _
    rw [hmem]
    exact ⟨steady_twoTasks.pids i p hp, steady_twoTasks.alive i p hp⟩

end rpi_wifi.scheduler
