-- The sleeps that come to their end. In range they can be over when their ticks have
-- passed. With an argument out of range the wake ticks seem to be reached before they are,
-- and the next round of the scheduler lets the task go on.
import RpiWifi.SleepLaws

namespace rpi_wifi.sleeping

open runs scheduler

/-! ## Two tasks -/

/-- The kernel `k` comes to `k'`. -/
def Reaches (k k' : Kernel) : Prop := ∃ acts, exec step k acts = some k'

theorem Reaches.of_step {k k' : Kernel} (a : Act) (h : step k a = some k') : Reaches k k' :=
  ⟨[a], by simp [exec, h]⟩

theorem Reaches.trans {k k' k'' : Kernel} (h : Reaches k k') (h' : Reaches k' k'') :
    Reaches k k'' := by
  obtain ⟨acts, hacts⟩ := h
  obtain ⟨acts', hacts'⟩ := h'
  exact ⟨acts ++ acts', by rw [exec_append, hacts, Option.bind_some, hacts']⟩

/-- The init task at 0 is ready, and the task at 1 has the pid 1. -/
structure Duo (s : Sched) : Prop where
  init : s.slot 0 = some (some 0)
  task : s.slot 1 = some (some 1)
  count : s.nr_tasks = 2
  ready : (s.mem 0).state = .Ready
  pid0 : (s.mem 0).pid = 0
  pid1 : (s.mem 1).pid = 1

/-- From the task at 1 the search comes to the init task. -/
theorem Duo.search_init {s : Sched} (h : Duo s) (hcur : s.current = 1) (nTicks : BitVec 32) :
    get_next_task s nTicks = some (s, 0) := by
  have hnext : (if s.nr_tasks ≤ 1 + 1 then 0 else 1 + 1) = 0 := by simp [h.count]
  unfold get_next_task NR_TASKS
  rw [hcur, h.pid1]
  dsimp only
  rw [if_pos (by decide)]
  unfold searchNext
  dsimp only
  rw [hnext, h.init]
  dsimp only
  rw [h.ready]

/-- From the init task it comes to the task at 1 when that is due. -/
theorem Duo.search_task {s : Sched} (h : Duo s) (hcur : s.current = 0) {nTicks : BitVec 32}
    (hsleep : (s.mem 1).state = .Sleeping) (hdue : ((s.mem 1).wake_ticks - nTicks).toInt ≤ 0) :
    get_next_task s nTicks = some (s.write 1 fun t => { t with state := .Ready }, 1) := by
  have hnext : (if s.nr_tasks ≤ 0 + 1 then 0 else 0 + 1) = 1 := by simp [h.count]
  unfold get_next_task NR_TASKS
  rw [hcur, h.pid0]
  dsimp only
  rw [if_pos (by decide)]
  unfold searchNext
  dsimp only
  rw [hnext, h.task]
  dsimp only
  rw [hsleep]
  dsimp only
  rw [if_neg (not_lt.mpr hdue)]

theorem Duo.write {s : Sched} (h : Duo s) {f : Task → Task} (hpid : (f (s.mem 1)).pid = 1) :
    Duo (s.write 1 f) := by
  have h0 : (s.write 1 f).mem 0 = s.mem 0 := by simp [Sched.write]
  have h1 : (s.write 1 f).mem 1 = f (s.mem 1) := by simp [Sched.write]
  refine ⟨h.init, h.task, h.count, ?_, ?_, ?_⟩
  · rw [h0]
    exact h.ready
  · rw [h0]
    exact h.pid0
  · rw [h1]
    exact hpid

theorem Duo.goto {s : Sched} (h : Duo s) (q : Addr) : Duo { s with current := q } :=
  ⟨h.init, h.task, h.count, h.ready, h.pid0, h.pid1⟩

/-- The task at 1 runs, and it has still to do `c`. -/
structure Runs (k : Kernel) (c : Prog) : Prop where
  duo : Duo k.sched
  current : k.sched.current = 1
  running : k.searching = false
  prog : k.prog 1 = c

/-- A step of the task at 1. -/
theorem Runs.step {k k' : Kernel} {c : Prog} (h : Runs k c) (hrun : k.run = some k') :
    Reaches k k' := by
  apply Reaches.of_step .run
  dsimp only [sleeping.step]
  rw [h.running]
  exact hrun

theorem Runs.set {k : Kernel} {c : Prog} (h : Runs k c) (c' : Prog) : Runs (k.setProg 1 c') c' :=
  ⟨h.duo, h.current, h.running, prog_setProg k 1 c'⟩

theorem Runs.write {k : Kernel} {c : Prog} (h : Runs k c) {f : Task → Task}
    (hpid : (f (k.task 1)).pid = 1) (c' : Prog) : Runs ((k.write 1 f).setProg 1 c') c' :=
  ⟨h.duo.write hpid, h.current, h.running, prog_setProg _ 1 c'⟩

theorem Runs.clock {k : Kernel} {c : BitVec 32 → Prog} (h : Runs k (.timer_getTickCount32 c)) :
    Reaches k (k.setProg 1 (c k.ticks)) :=
  h.step (by simp [Kernel.run, h.current, h.prog])

theorem Runs.pid {k : Kernel} {c : Nat → Prog} (h : Runs k (.pid c)) :
    Reaches k (k.setProg 1 (c 1)) :=
  h.step (by simp [Kernel.run, Kernel.task, h.current, h.prog, h.duo.pid1])

theorem Runs.wake_ticks {k : Kernel} {v : BitVec 32} {c : Prog} (h : Runs k (.wake_ticks v c)) :
    Reaches k ((k.write 1 fun t => { t with wake_ticks := v }).setProg 1 c) :=
  h.step (by simp [Kernel.run, h.current, h.prog])

theorem Runs.state {k : Kernel} {v : TaskState} {c : Prog} (h : Runs k (.state v c)) :
    Reaches k ((k.write 1 fun t => { t with state := v }).setProg 1 c) :=
  h.step (by simp [Kernel.run, h.current, h.prog])

/-- A microsecond sleep comes to its call of the scheduler at once. -/
theorem Runs.us_sleeps {k : Kernel} {u : BitVec 32} {c : Prog} (h : Runs k (task_us_sleep u c))
    (hu : 0 < u) :
    ∃ k', Reaches k k' ∧ Runs k' (.schedule c) ∧ (k'.task 1).state = .Sleeping ∧
      (k'.task 1).wake_ticks = k.ticks + u ∧ k'.call = k.call ∧ k'.now = k.now := by
  unfold task_us_sleep at h
  rw [if_pos hu, one_tick] at h
  have h₁ := h.set (.pid fun pid =>
    if pid = 0 then c else .wake_ticks (k.ticks + u) (.state .Sleeping (.schedule c)))
  have h₂ := h₁.set (.wake_ticks (k.ticks + u) (.state .Sleeping (.schedule c)))
  have h₃ := @Runs.write _ _ h₂ (fun t => { t with wake_ticks := k.ticks + u }) h₂.duo.pid1
    (.state .Sleeping (.schedule c))
  have h₄ := @Runs.write _ _ h₃ (fun t => { t with state := .Sleeping }) h₃.duo.pid1
    (.schedule c)
  refine ⟨_, h.clock.trans (h₁.pid.trans (h₂.wake_ticks.trans h₃.state)), h₄, ?_, ?_, rfl, rfl⟩
  · rw [task_write]
  · rw [task_write, task_write]

/-- The kernel when the search has taken the task `q` in the table `s`. -/
def Kernel.taken (k : Kernel) (s : Sched) (q : Addr) : Kernel :=
  { k.setProg q (k.prog q).resumed with
    sched := { s with current := q }, searching := false }

theorem reaches_taken {k : Kernel} {s : Sched} {next : Nat} {q : Addr}
    (hsearching : k.searching = true) (hnext : get_next_task k.sched k.ticks = some (s, next))
    (hslot : s.slot next = some (some q)) : Reaches k (k.taken s q) := by
  obtain ⟨hlt, -⟩ := slot_some hslot
  apply Reaches.of_step .search
  dsimp only [sleeping.step]
  rw [if_pos hsearching]
  unfold Kernel.search
  rw [hnext, Option.bind_some]
  dsimp only
  rw [if_neg hlt.ne, hslot]
  rfl

/-- The timer takes the processor away from the running task. -/
def Kernel.preempted (k : Kernel) : Kernel := { k with searching := true }

theorem reaches_preempted {k : Kernel} (hrunning : k.searching = false) :
    Reaches k k.preempted := by
  apply Reaches.of_step .schedule_tick
  dsimp only [sleeping.step]
  rw [hrunning]
  rfl

/-- The scheduler takes the init task, and after `d` ticks the timer brings the task at 1 back
when it is due. -/
theorem Runs.comes_back {k : Kernel} {c : Prog} (h : Runs k (.schedule c))
    (hsleep : (k.task 1).state = .Sleeping) {d : Nat}
    (hdue : Due (k.task 1).wake_ticks (k.now + d)) :
    ∃ k', Reaches k k' ∧ Runs k' c ∧ k'.call = k.call ∧ k'.now = k.now + d := by
  have hcall : Reaches k { k.setProg 1 (.switched c) with searching := true } :=
    h.step (by simp [Kernel.run, h.current, h.prog])
  set k₁ : Kernel := { k.setProg 1 (.switched c) with searching := true } with hk₁
  have hinit : Reaches k₁ (k₁.taken k.sched 0) :=
    reaches_taken rfl (h.duo.search_init h.current k₁.ticks) h.duo.init
  set k₂ : Kernel := { k₁.taken k.sched 0 with now := k.now + d } with hk₂
  have htick : Reaches (k₁.taken k.sched 0) k₂ := .of_step (.tick d) rfl
  have hduo : Duo k₂.sched := h.duo.goto 0
  have htask := @Duo.search_task _ hduo rfl k₂.ticks hsleep hdue
  have hback : Reaches k₂.preempted (k₂.preempted.taken _ 1) :=
    reaches_taken rfl htask hduo.task
  have hprog : (k₂.prog 1).resumed = c := by
    simp [hk₂, hk₁, Kernel.taken, Kernel.setProg, Prog.resumed]
  refine ⟨_, hcall.trans (hinit.trans (htick.trans ((reaches_preempted rfl).trans hback))),
    ⟨?_, rfl, rfl, ?_⟩, rfl, rfl⟩
  · exact (hduo.write hduo.pid1).goto 1
  · exact (prog_setProg k₂.preempted 1 (k₂.prog 1).resumed).trans hprog

/-- A microsecond sleep is over after `d` ticks when its wake ticks seem to be reached then. -/
theorem Runs.us_over {k : Kernel} {u : BitVec 32} {c : Prog} (h : Runs k (task_us_sleep u c))
    (hu : 0 < u) {d : Nat} (hdue : Due (k.ticks + u) (k.now + d)) :
    ∃ k', Reaches k k' ∧ Runs k' c ∧ k'.call = k.call ∧ k'.now = k.now + d := by
  obtain ⟨k₁, hreach, hruns, hsleep, hwake, hcall, hnow⟩ := h.us_sleeps hu
  rw [← hwake, ← hnow] at hdue
  obtain ⟨k₂, hreach', hruns', hcall', hnow'⟩ := hruns.comes_back hsleep hdue
  exact ⟨k₂, hreach.trans hreach', hruns', hcall'.trans hcall, by rw [hnow', hnow]⟩

/-- The loop of `tsleep` is over after `d` ticks when its part of the milliseconds has passed. -/
theorem Runs.tsleep_over {k : Kernel} {msecs : BitVec 32} (h : Runs k (tsleep msecs)) {d : Nat}
    (hover : tsleepOver k.ticks msecs (BitVec.ofNat 32 (k.now + d))) :
    ∃ k', Reaches k k' ∧ Runs k' .ret ∧ k'.call = k.call ∧ k'.now = k.now + d := by
  have h₁ := h.set (.tsleepLoop k.ticks msecs)
  set k₁ : Kernel := { k.setProg 1 (.tsleepLoop k.ticks msecs) with now := k.now + d }
  have htick : Reaches (k.setProg 1 (.tsleepLoop k.ticks msecs)) k₁ := .of_step (.tick d) rfl
  have h₂ : Runs k₁ (.tsleepLoop k.ticks msecs) := ⟨h₁.duo, h₁.current, h₁.running, h₁.prog⟩
  have hover₂ : tsleepOver k.ticks msecs k₁.ticks := hover
  have hrun : Reaches k₁ (k₁.setProg 1 .ret) :=
    h₂.step (by simp [Kernel.run, h₂.current, h₂.prog, hover₂])
  exact ⟨_, h.clock.trans (htick.trans hrun), h₂.set .ret, rfl, rfl⟩

/-- The wake ticks are reached when the ticks have passed. -/
theorem due_in_time (n : Nat) (u : BitVec 32) :
    Due (BitVec.ofNat 32 n + u) (n + u.toNat) := by
  have hzero : BitVec.ofNat 32 n + u - BitVec.ofNat 32 (n + u.toNat) = 0 := by
    rw [BitVec.ofNat_add, BitVec.ofNat_toNat, BitVec.setWidth_eq]
    ring
  unfold Due
  rw [hzero]
  decide

/-- A microsecond sleep can be over when its ticks have passed. -/
theorem Runs.us_in_time {k : Kernel} {u : BitVec 32} {c : Prog}
    (h : Runs k (task_us_sleep u c)) :
    ∃ k', Reaches k k' ∧ Runs k' c ∧ k'.call = k.call ∧ k'.now = k.now + u.toNat := by
  by_cases hu : 0 < u
  · exact h.us_over hu (due_in_time k.now u)
  · have hzero : u = 0 := BitVec.le_zero_iff.mp (BitVec.not_lt.mp hu)
    subst hzero
    exact ⟨k, ⟨[], rfl⟩, h, rfl, rfl⟩

/-- So can a sleep of any number of seconds, piece by piece. -/
theorem Runs.sleep_in_time {k : Kernel} {v : BitVec 32} {c : Prog} (h : Runs k (task_sleep v c)) :
    ∃ k', Reaches k k' ∧ Runs k' c ∧ k'.call = k.call ∧ k'.now = k.now + v.toNat * 1000000 := by
  induction v using task_sleep.induct generalizing k with
  | case1 v hlong ih =>
    rw [task_sleep, if_pos hlong] at h
    obtain ⟨k₁, hreach, hruns, hcall, hnow⟩ := h.us_in_time
    obtain ⟨k₂, hreach', hruns', hcall', hnow'⟩ := ih hruns
    refine ⟨k₂, hreach.trans hreach', hruns', hcall'.trans hcall, ?_⟩
    have hlt : nSleepMax.toNat < v.toNat := hlong
    have hpiece : (nSleepMax * 1000000).toNat = nSleepMax.toNat * 1000000 := rfl
    rw [hnow', hnow, hpiece, BitVec.toNat_sub_of_le (Nat.le_of_lt hlt)]
    omega
  | case2 v hshort =>
    rw [task_sleep, if_neg hshort] at h
    obtain ⟨k₁, hreach, hruns, hcall, hnow⟩ := h.us_in_time
    exact ⟨k₁, hreach, hruns, hcall, by rw [hnow, toNat_seconds hshort]⟩

/-! ## The calls -/

/-- The task at 1 is made and comes to run. -/
theorem the_task_starts :
    ∃ k, Reaches (boot 0 (fun _ => INIT_TASK) 0) k ∧ Runs k .ret :=
  ⟨_, ⟨[.reuse 1 INIT_TASK, .add_task (some 1), .schedule_tick, .search], rfl⟩,
    ⟨rfl, rfl, rfl, rfl, rfl, rfl⟩, rfl, rfl, rfl⟩

/-- The task at 1 comes to call a sleep. -/
theorem the_task_sleeps (c : Sleep) :
    ∃ k, Reaches (boot 0 (fun _ => INIT_TASK) 0) k ∧ Runs k c.prog ∧
      k.call 1 = some (c, k.now) := by
  obtain ⟨k, hstart, hruns⟩ := the_task_starts
  have hfree : k.free = true := by
    unfold Kernel.free
    rw [hruns.current, hruns.prog, hruns.running]
    rfl
  have hpid : (k.task 1).pid ≠ 0 := by
    rw [Kernel.task, hruns.duo.pid1]
    decide
  have henter : k.enter c =
      { k.setProg 1 c.prog with call := Function.update k.call 1 (some (c, k.now)) } := by
    unfold Kernel.enter
    rw [hruns.current]
    exact if_neg hpid
  refine ⟨k.enter c, hstart.trans (.of_step (.enter c) (if_pos hfree)), ?_, ?_⟩
  · rw [henter]
    exact ⟨hruns.duo, hruns.current, hruns.running, prog_setProg k 1 _⟩
  · rw [henter]
    simp [Kernel.setProg]

/-- A sleep of any number of seconds comes to its end, and then no tick more than it asks
for need have passed. -/
theorem a_sleep_comes_to_its_end (nSeconds : BitVec 32) :
    ∃ k t, Reaches (boot 0 (fun _ => INIT_TASK) 0) k ∧ k.call 1 = some (.s nSeconds, t) ∧
      k.Returned 1 ∧ k.now = t + nSeconds.toNat * 1000000 := by
  obtain ⟨k, hreach, hruns, hcall⟩ := the_task_sleeps (.s nSeconds)
  obtain ⟨k', hreach', hruns', hkept, hnow⟩ := hruns.sleep_in_time
  exact ⟨k', k.now, hreach.trans hreach', hkept ▸ hcall, hruns'.prog, hnow⟩

/-! ## The early returns -/

/-- From any time on, the task at 1 can come out of the call before its ticks have passed. -/
def Early (c : Sleep) : Prop :=
  ∀ k, Runs k c.prog → ∃ k' d, Reaches k k' ∧ Runs k' .ret ∧ k'.call = k.call ∧
    k'.now = k.now + d ∧ d < c.asked

theorem early_returns {c : Sleep} (h : Early c) : ¬ NeverEarly c := by
  intro hnever
  obtain ⟨k, hreach, hruns, hcall⟩ := the_task_sleeps c
  obtain ⟨k', d, hreach', hret, hkept, hnow, hd⟩ := h k hruns
  obtain ⟨acts, hexec⟩ := hreach.trans hreach'
  have hlast : k'.call 1 = some (c, k.now) := by rw [hkept, hcall]
  have hlate := hnever _ _ _ _ _ hexec 1 k.now hlast hret.prog
  omega

/-- Wake ticks too far ahead seem to be reached at once, and the others are reached in time. -/
theorem due_within (n : Nat) (u : BitVec 32) :
    ∃ d, Due (BitVec.ofNat 32 n + u) (n + d) ∧ d < 2 ^ 31 := by
  by_cases hu : u.toNat < 2 ^ 31
  · exact ⟨u.toNat, due_in_time n u, hu⟩
  · refine ⟨0, ?_, by decide⟩
    have hself : BitVec.ofNat 32 n + u - BitVec.ofNat 32 (n + 0) = u := by
      rw [Nat.add_zero]
      ring
    have hlt := u.isLt
    unfold Due
    rw [hself, BitVec.toInt_eq_toNat_cond]
    split_ifs <;> omega

/-- Any microsecond sleep can be over within half the range of the counter. -/
theorem us_within {k : Kernel} {u : BitVec 32} (h : Runs k (task_us_sleep u .ret)) :
    ∃ k' d, Reaches k k' ∧ Runs k' .ret ∧ k'.call = k.call ∧ k'.now = k.now + d ∧ d < 2 ^ 31 := by
  by_cases hu : 0 < u
  · obtain ⟨d, hdue, hd⟩ := due_within k.now u
    obtain ⟨k', hreach, hruns, hcall, hnow⟩ := h.us_over hu hdue
    exact ⟨k', d, hreach, hruns, hcall, hnow, hd⟩
  · unfold task_us_sleep at h
    rw [if_neg hu] at h
    exact ⟨k, 0, ⟨[], rfl⟩, h, rfl, rfl, by decide⟩

theorem early_tsleep {n : BitVec 32} (hn : n ≠ 0) : Early (.t n) := by
  intro k h
  have hpos : 0 < n.toNat := by
    rw [Nat.pos_iff_ne_zero]
    intro hzero
    exact hn (BitVec.eq_of_toNat_eq hzero)
  have hpart : (n * 100 / 1000).toNat = n.toNat * 100 % 2 ^ 32 / 1000 := by
    rw [BitVec.toNat_udiv, BitVec.toNat_mul]
    rfl
  have hmost : n.toNat * 100 % 2 ^ 32 / 1000 ≤ n.toNat * 100 / 1000 :=
    Nat.div_le_div_right (Nat.mod_le _ _)
  have hover : tsleepOver k.ticks n (BitVec.ofNat 32 (k.now + ((n * 100 / 1000).toNat + 1))) := by
    have hdiff : BitVec.ofNat 32 (k.now + ((n * 100 / 1000).toNat + 1)) - k.ticks =
        BitVec.ofNat 32 ((n * 100 / 1000).toNat + 1) := by
      rw [BitVec.ofNat_add, Kernel.ticks]
      ring
    unfold tsleepOver
    rw [hdiff, BitVec.lt_def, BitVec.toNat_ofNat, Nat.mod_eq_of_lt (by omega)]
    omega
  obtain ⟨k', hreach, hruns, hcall, hnow⟩ := h.tsleep_over hover
  refine ⟨k', _, hreach, hruns, hcall, hnow, ?_⟩
  show _ < n.toNat * 1000
  omega

/-- A call out of range can return early. -/
theorem early_of_not_range {c : Sleep} (hc : ¬ c.InRange) : Early c := by
  cases c with
  | us n =>
    intro k h
    obtain ⟨k', d, hreach, hruns, hcall, hnow, hd⟩ := us_within h
    have hn : ¬ n.toNat < 2 ^ 31 := hc
    exact ⟨k', d, hreach, hruns, hcall, hnow, show d < n.toNat by omega⟩
  | s n => exact absurd trivial hc
  | ms n =>
    intro k h
    have hn : ¬ n.toNat * 1000 < 2 ^ 31 := hc
    have hpos : 0 < n := by
      rw [BitVec.lt_def]
      change 0 < n.toNat
      omega
    have hprog : Runs k (task_us_sleep (n * 1000) .ret) := by
      have hsleep : Runs k (task_ms_sleep n .ret) := h
      rwa [task_ms_sleep, if_pos hpos] at hsleep
    obtain ⟨k', d, hreach, hruns, hcall, hnow, hd⟩ := us_within hprog
    exact ⟨k', d, hreach, hruns, hcall, hnow, show d < n.toNat * 1000 by omega⟩
  | t n => exact early_tsleep hc

/-- A sleep never returns early exactly when its argument is in range: `task_us_sleep` below
half the range of the counter, `task_ms_sleep` where the microseconds are, and `tsleep` for
no time at all. -/
theorem a_sleep_is_never_early_iff (n : BitVec 32) :
    (NeverEarly (.us n) ↔ n.toNat < 2 ^ 31) ∧ (NeverEarly (.ms n) ↔ n.toNat * 1000 < 2 ^ 31) ∧
      (NeverEarly (.t n) ↔ n = 0) := by
  have hiff : ∀ c : Sleep, NeverEarly c ↔ c.InRange := by
    intro c
    refine ⟨?_, never_early_of_range⟩
    intro hnever
    by_contra hc
    exact early_returns (early_of_not_range hc) hnever
  exact ⟨hiff (.us n), hiff (.ms n), hiff (.t n)⟩

/-- The driver sleeps two seconds with `tsleep`, and it can go on after 201 ticks. -/
theorem tsleep_returns_early :
    ¬ ∀ n : BitVec 32, NeverEarly (.us n) ∧ NeverEarly (.ms n) ∧ NeverEarly (.t n) := by
  intro h
  exact early_returns (early_tsleep (by decide)) (h 2000).2.2

end rpi_wifi.sleeping
