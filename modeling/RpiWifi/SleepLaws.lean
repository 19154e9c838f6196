-- The laws of the sleeps. A sleep is followed through its program: whatever the other
-- tasks do between two of its accesses, the task goes on behind `_schedule` only when the
-- counter has reached its wake ticks, as an `int` reads the difference.
import RpiWifi.Sleeps

namespace rpi_wifi.sleeping

open runs scheduler

/-! ## The counter -/

/-- The difference to the wake ticks is not positive. -/
def Due (wake_ticks : BitVec 32) (m : Nat) : Prop := (wake_ticks - BitVec.ofNat 32 m).toInt ≤ 0

/-- Below half the range of the counter, wake ticks that are reached were reached in truth. -/
theorem passed_of_due {n m : Nat} {v : BitVec 32} (hv : v.toNat < 2 ^ 31) (hm : n ≤ m)
    (hdue : Due (BitVec.ofNat 32 n + v) m) : n + v.toNat ≤ m := by
  by_contra hearly
  have hdiff : BitVec.ofNat 32 n + v - BitVec.ofNat 32 m = v - BitVec.ofNat 32 (m - n) := by
    have hsum : BitVec.ofNat 32 m = BitVec.ofNat 32 n + BitVec.ofNat 32 (m - n) := by
      rw [← BitVec.ofNat_add, Nat.add_sub_cancel' hm]
    rw [hsum]
    ring
  have hnat : (BitVec.ofNat 32 (m - n)).toNat = m - n := by
    rw [BitVec.toNat_ofNat, Nat.mod_eq_of_lt (by omega)]
  have hleft : (v - BitVec.ofNat 32 (m - n)).toNat = v.toNat - (m - n) := by
    rw [BitVec.toNat_sub_of_le (by rw [BitVec.le_def]; omega), hnat]
  unfold Due at hdue
  rw [hdiff, BitVec.toInt_eq_toNat_of_lt (by omega)] at hdue
  omega

/-! ## What the others do to a sleep -/

/-- What can become of a task that does not run between two times: it keeps its wake ticks,
and it keeps its state or sleeps and is made ready at a time the wake ticks are reached. -/
structure Env (t : Task) (n : Nat) (t' : Task) (n' : Nat) : Prop where
  later : n ≤ n'
  pid : t.pid ≠ 0 → t'.pid ≠ 0
  wake_ticks : t'.wake_ticks = t.wake_ticks
  state : t'.state = t.state ∨
    t.state = .Sleeping ∧ t'.state = .Ready ∧ ∃ m, n ≤ m ∧ m ≤ n' ∧ Due t.wake_ticks m

theorem Env.tick (t : Task) {n n' : Nat} (h : n ≤ n') : Env t n t n' := ⟨h, id, rfl, .inl rfl⟩

theorem Env.refl (t : Task) (n : Nat) : Env t n t n := Env.tick t (le_refl n)

theorem Env.trans {t t' t'' : Task} {n n' n'' : Nat} (h : Env t n t' n') (h' : Env t' n' t'' n'') :
    Env t n t'' n'' := by
  have hlater := h.later
  have hlater' := h'.later
  refine ⟨hlater.trans hlater', h'.pid ∘ h.pid, h'.wake_ticks.trans h.wake_ticks, ?_⟩
  rcases h.state with hs | ⟨hs, hr, m, hnm, hmn, hdue⟩
  · rcases h'.state with hs' | ⟨hs', hr', m, hnm, hmn, hdue⟩
    · exact .inl (hs'.trans hs)
    · exact .inr ⟨hs.symm.trans hs', hr', m, hlater.trans hnm, hmn, h.wake_ticks ▸ hdue⟩
  · rcases h'.state with hs' | ⟨hs', -⟩
    · exact .inr ⟨hs, hs'.trans hr, m, hnm, hmn.trans hlater', hdue⟩
    · rw [hr] at hs'
      cases hs'

/-- A task that was put to sleep is ready because its wake ticks were reached. -/
theorem Env.woken {t t' : Task} {n n' : Nat} (h : Env t n t' n') (hs : t.state = .Sleeping)
    (hr : t'.state = .Ready) : ∃ m, n ≤ m ∧ m ≤ n' ∧ Due t.wake_ticks m := by
  rcases h.state with hsame | ⟨-, -, hdue⟩
  · rw [hr, hs] at hsame
    cases hsame
  · exact hdue

/-- The rest of a sleep is over at the time `D` at the earliest, whatever the others do. -/
def Safe (D : Nat) : Prog → Task → Nat → Prop
  | .ret, _, n => D ≤ n
  | .timer_getTickCount32 k, t, n =>
    ∀ t' n', Env t n t' n' → Safe D (k (BitVec.ofNat 32 n')) t' n'
  | .pid k, t, n => ∀ t' n', Env t n t' n' → Safe D (k t'.pid) t' n'
  | .wake_ticks v k, t, n =>
    ∀ t' n', Env t n t' n' → Safe D k { t' with wake_ticks := v } n'
  | .state v k, t, n => ∀ t' n', Env t n t' n' → Safe D k { t' with state := v } n'
  | .schedule k, t, n => ∀ t' n', Env t n t' n' → t'.state = .Ready → Safe D k t' n'
  | .switched k, t, n => ∀ t' n', Env t n t' n' → t'.state = .Ready → Safe D k t' n'
  | .tsleepLoop start msecs, _, n =>
    ∀ n', n ≤ n' → tsleepOver start msecs (BitVec.ofNat 32 n') → D ≤ n'

/-- The others do not make a sleep unsafe. -/
theorem Safe.env {D : Nat} {c : Prog} {t t' : Task} {n n' : Nat} (h : Safe D c t n)
    (henv : Env t n t' n') : Safe D c t' n' := by
  cases c with
  | ret => exact Nat.le_trans h henv.later
  | timer_getTickCount32 k => exact fun t'' n'' h' => h t'' n'' (henv.trans h')
  | pid k => exact fun t'' n'' h' => h t'' n'' (henv.trans h')
  | wake_ticks v k => exact fun t'' n'' h' => h t'' n'' (henv.trans h')
  | state v k => exact fun t'' n'' h' => h t'' n'' (henv.trans h')
  | schedule k => exact fun t'' n'' h' => h t'' n'' (henv.trans h')
  | switched k => exact fun t'' n'' h' => h t'' n'' (henv.trans h')
  | tsleepLoop start msecs => exact fun n'' h' => h n'' (henv.later.trans h')

/-! ## The programs -/

/-- What is left to do is safe at any time from `n` on, with any record that has a pid. -/
def SafeFrom (D : Nat) (c : Prog) (n : Nat) : Prop :=
  ∀ t' n', t'.pid ≠ 0 → n ≤ n' → Safe D c t' n'

theorem safeFrom_ret {D n : Nat} (h : D ≤ n) : SafeFrom D .ret n := fun _ _ _ hn => h.trans hn

theorem one_tick (v : BitVec 32) : v * BitVec.ofNat 32 (CLOCKHZ / 1000000) = v := by
  simp [CLOCKHZ]

/-- A sleep of less than half the range of the counter takes its microseconds. -/
theorem safeFrom_us {D n : Nat} {v : BitVec 32} {k : Prog} (hv : v.toNat < 2 ^ 31)
    (hk : SafeFrom D k (n + v.toNat)) : SafeFrom D (task_us_sleep v k) n := by
  intro t n₀ hpid hn₀
  unfold task_us_sleep
  split_ifs with hpos
  · intro t₁ n₁ henv₁ t₂ n₂ henv₂
    have hpid₂ : t₂.pid ≠ 0 := henv₂.pid (henv₁.pid hpid)
    dsimp only
    rw [if_neg hpid₂, one_tick]
    intro t₃ n₃ henv₃ t₄ n₄ henv₄ t₅ n₅ henv₅ hready
    have hpid₅ : t₅.pid ≠ 0 := henv₅.pid (henv₄.pid (henv₃.pid hpid₂))
    have hle₁ := henv₁.later
    have hle₂ := henv₂.later
    have hle₃ := henv₃.later
    have hle₄ := henv₄.later
    -- The task was asleep, so it is ready because its wake ticks were reached.
    obtain ⟨m, hm, hmn, hdue⟩ := henv₅.woken rfl hready
    have hpassed : n₁ + v.toNat ≤ m := by
      have hwake : t₄.wake_ticks = BitVec.ofNat 32 n₁ + v := henv₄.wake_ticks
      refine passed_of_due hv (by omega) ?_
      rw [← hwake]
      exact hdue
    exact hk t₅ n₅ hpid₅ (by omega)
  · have hzero : v.toNat = 0 := by
      have := BitVec.lt_def.not.mp hpos
      simpa using this
    rw [hzero] at hk
    exact hk t n₀ hpid hn₀

theorem toNat_seconds {n : BitVec 32} (hn : ¬ nSleepMax < n) :
    (n * 1000000).toNat = n.toNat * 1000000 := by
  have hmax : nSleepMax.toNat = 1800 := rfl
  rw [BitVec.lt_def] at hn
  rw [BitVec.toNat_mul]
  change n.toNat * 1000000 % 2 ^ 32 = _
  exact Nat.mod_eq_of_lt (by omega)

/-- A sleep of any number of seconds takes them. -/
theorem safeFrom_sleep {D n : Nat} {v : BitVec 32} {k : Prog}
    (hk : SafeFrom D k (n + v.toNat * 1000000)) : SafeFrom D (task_sleep v k) n := by
  induction v using task_sleep.induct generalizing n with
  | case1 v hlong ih =>
    rw [task_sleep, if_pos hlong]
    have hmax : nSleepMax.toNat = 1800 := rfl
    have hpiece : (nSleepMax * 1000000).toNat = 1800 * 1000000 := rfl
    have hrest : (v - nSleepMax).toNat = v.toNat - 1800 :=
      BitVec.toNat_sub_of_le (Nat.le_of_lt hlong)
    refine safeFrom_us (by omega) (ih ?_)
    rw [BitVec.lt_def] at hlong
    rw [hpiece, hrest]
    have hsum : n + 1800 * 1000000 + (v.toNat - 1800) * 1000000 = n + v.toNat * 1000000 := by
      omega
    rw [hsum]
    exact hk
  | case2 v hshort =>
    rw [task_sleep, if_neg hshort]
    have hmul := toNat_seconds hshort
    have hmax : nSleepMax.toNat = 1800 := rfl
    rw [BitVec.lt_def] at hshort
    refine safeFrom_us (by omega) ?_
    rw [hmul]
    exact hk

theorem safeFrom_ms {D n : Nat} {v : BitVec 32} {k : Prog} (hv : v.toNat * 1000 < 2 ^ 31)
    (hk : SafeFrom D k (n + v.toNat * 1000)) : SafeFrom D (task_ms_sleep v k) n := by
  have hmul : (v * 1000).toNat = v.toNat * 1000 := by
    rw [BitVec.toNat_mul]
    change v.toNat * 1000 % 2 ^ 32 = _
    exact Nat.mod_eq_of_lt (by omega)
  unfold task_ms_sleep
  split_ifs with hpos
  · refine safeFrom_us (by omega) ?_
    rw [hmul]
    exact hk
  · have hzero : v.toNat = 0 := by
      have := BitVec.lt_def.not.mp hpos
      simpa using this
    rw [hzero] at hk
    exact hk

/-- The calls whose arguments are in range. -/
def Sleep.InRange : Sleep → Prop
  | .us n => n.toNat < 2 ^ 31
  | .s _ => True
  | .ms n => n.toNat * 1000 < 2 ^ 31
  | .t n => n = 0

/-- A call in range is safe until the ticks that it asks for have passed. -/
theorem safeFrom_prog {c : Sleep} (hc : c.InRange) (n : Nat) :
    SafeFrom (n + c.asked) c.prog n := by
  cases c with
  | us v => exact safeFrom_us hc (safeFrom_ret (le_refl _))
  | s v => exact safeFrom_sleep (safeFrom_ret (le_refl _))
  | ms v => exact safeFrom_ms hc (safeFrom_ret (le_refl _))
  | t v =>
    obtain rfl : v = 0 := hc
    intro t₀ n₀ hpid hn₀ t₁ n₁ henv₁ n₂ hn₂ hover
    have hle₁ := henv₁.later
    show n + 0 * 1000 ≤ n₂
    omega

/-! ## The scheduler -/

theorem removeFrom_mem {s s' : Sched} {p : Addr} {n i : Nat} (h : removeFrom s p n i = some s') :
    s'.mem = s.mem := by
  induction n generalizing i with
  | zero =>
    cases h
    rfl
  | succ n ih =>
    unfold removeFrom at h
    split_ifs at h with hi hp
    · cases h
      rfl
    · exact ih h

theorem remove_task_mem {s s' : Sched} {p : Addr} (h : remove_task s p = some s') :
    s'.mem = s.mem := by
  unfold remove_task at h
  split_ifs at h
  · cases h
    rfl
  · exact removeFrom_mem h

/-- How a round of the search ends: with no task, or with one that was ready or that slept
and is due, and it is ready then. -/
inductive Picked (nTicks : BitVec 32) (s s' : Sched) (next : Nat) : Prop where
  | nothing (hnext : next = NR_TASKS) (hmem : s'.mem = s.mem)
  | task (p : Addr) (hnext : next < NR_TASKS) (hslot : s'.slot next = some (some p))
      (hmem : s'.mem = Function.update s.mem p { s.mem p with state := .Ready })
      (hfit : (s.mem p).state = .Ready ∨
        (s.mem p).state = .Sleeping ∧ ((s.mem p).wake_ticks - nTicks).toInt ≤ 0)

theorem Picked.congr {nTicks : BitVec 32} {s₀ s s' : Sched} {next : Nat}
    (h : Picked nTicks s s' next) (hmem : s.mem = s₀.mem) : Picked nTicks s₀ s' next := by
  cases h with
  | nothing hnext hsame => exact .nothing hnext (hsame.trans hmem)
  | task p hnext hslot hupd hfit =>
    rw [hmem] at hupd hfit
    exact .task p hnext hslot hupd hfit

theorem searchNext_picked {nTicks : BitVec 32} {s s' : Sched} {n nTask next : Nat}
    (h : searchNext nTicks n s nTask = some (s', next)) : Picked nTicks s s' next := by
  induction n generalizing s nTask with
  | zero =>
    cases h
    exact .nothing rfl rfl
  | succ n ih =>
    unfold searchNext at h
    dsimp only at h
    generalize (if s.nr_tasks ≤ nTask + 1 then 0 else nTask + 1) = k at h
    rcases hslot : s.slot k with _ | _ | p
    · rw [hslot] at h
      cases h
    · rw [hslot] at h
      exact ih h
    · obtain ⟨hk, -⟩ := slot_some hslot
      rw [hslot] at h
      dsimp only at h
      cases hstate : (s.mem p).state with
      | Ready =>
        rw [hstate] at h
        cases h
        refine .task p hk hslot ?_ (.inl hstate)
        rw [← hstate, Function.update_eq_self]
      | Blocked | Unknown =>
        rw [hstate] at h
        exact ih h
      | Sleeping =>
        rw [hstate] at h
        dsimp only at h
        split_ifs at h with hwait
        · exact ih h
        · cases h
          exact .task p hk hslot rfl (.inr ⟨hstate, not_lt.mp hwait⟩)
      | Terminated =>
        rw [hstate] at h
        obtain ⟨t, ht, h⟩ := Option.bind_eq_some_iff.mp h
        exact (ih h).congr (remove_task_mem ht)

/-- A write that keeps the state and the wake ticks, and leaves a task with a pid one. -/
theorem write_env (s : Sched) (p : Addr) {f : Task → Task}
    (hpid : (s.mem p).pid ≠ 0 → (f (s.mem p)).pid ≠ 0)
    (hwake : (f (s.mem p)).wake_ticks = (s.mem p).wake_ticks)
    (hstate : (f (s.mem p)).state = (s.mem p).state) (q : Addr) (n : Nat) :
    Env (s.mem q) n ((s.write p f).mem q) n := by
  unfold Sched.write
  by_cases hq : q = p
  · subst hq
    dsimp only
    rw [Function.update_self]
    exact ⟨le_refl n, hpid, hwake, .inl hstate⟩
  · dsimp only
    rw [Function.update_of_ne hq]
    exact Env.refl _ n

/-- A task that is added gets a pid, and no task is put to sleep or woken. -/
theorem install_env (s : Sched) (p : Addr) {i : Fin NR_TASKS} (hi : 0 < (i : Nat)) (q : Addr)
    (n : Nat) : Env (s.mem q) n ((s.install p i).mem q) n := by
  unfold Sched.install
  dsimp only
  refine Env.trans ?_ (write_env _ p id rfl rfl q n)
  refine Env.trans ?_ (write_env _ p id rfl rfl q n)
  exact write_env { s with TASKS := Function.update s.TASKS i (some p) } p (fun _ => hi.ne') rfl
    rfl q n

theorem add_task_env (s : Sched) (p : Option Addr) (q : Addr) (n : Nat) :
    Env (s.mem q) n ((add_task s p).1.mem q) n := by
  have hdisable : Env (s.mem q) n ((preempt_disable s).mem q) n := write_env s _ id rfl rfl q n
  unfold add_task
  dsimp only
  cases p with
  | none => exact hdisable
  | some p =>
    have henable : ∀ u : Sched, Env (u.mem q) n ((preempt_enable u).mem q) n :=
      fun u => write_env u _ id rfl rfl q n
    dsimp only
    rcases hfree : (preempt_disable s).freeSlot with _ | i
    · exact hdisable.trans (henable _)
    · obtain ⟨hi, -⟩ := freeSlot_some hfree
      exact (hdisable.trans (install_env _ p hi q n)).trans (henable _)

/-! ## The invariant -/

/-- Each call in range is safe until its ticks have passed, and its task has a pid. -/
def Inv (k : Kernel) : Prop :=
  ∀ p c t, k.call p = some (c, t) → c.InRange →
    (k.task p).pid ≠ 0 ∧ Safe (t + c.asked) (k.prog p) (k.task p) k.now

theorem inv_boot (init_task : Addr) (mem : Addr → Task) (now : Nat) :
    Inv (boot init_task mem now) := by
  intro p c t hcall
  cases hcall

/-- What a step leaves alone of a task: its last call and its program, and its record too
while the program is not over. -/
structure Left (k k' : Kernel) (p : Addr) : Prop where
  call : k'.call p = k.call p
  prog : k'.prog p = k.prog p
  later : k.now ≤ k'.now
  pid : (k.task p).pid ≠ 0 → (k'.task p).pid ≠ 0
  env : k.prog p = .ret ∨ Env (k.task p) k.now (k'.task p) k'.now

theorem Left.of_env {k k' : Kernel} {p : Addr} (hcall : k'.call p = k.call p)
    (hprog : k'.prog p = k.prog p) (henv : Env (k.task p) k.now (k'.task p) k'.now) :
    Left k k' p :=
  ⟨hcall, hprog, henv.later, henv.pid, .inr henv⟩

/-- A task that is left alone stays safe. -/
theorem Left.safe {k k' : Kernel} {p : Addr} (h : Left k k' p) {D : Nat}
    (hpid : (k.task p).pid ≠ 0) (hsafe : Safe D (k.prog p) (k.task p) k.now) :
    (k'.task p).pid ≠ 0 ∧ Safe D (k'.prog p) (k'.task p) k'.now := by
  refine ⟨h.pid hpid, ?_⟩
  rw [h.prog]
  rcases h.env with hret | henv
  · rw [hret] at hsafe ⊢
    exact Nat.le_trans hsafe h.later
  · exact hsafe.env henv

/-- The invariant is kept when each task is left alone, or forgotten, or safe again. -/
theorem Inv.of_left {k k' : Kernel} (h : Inv k)
    (hleft : ∀ p, Left k k' p ∨ k'.call p = none ∨
      ∀ c t, k'.call p = some (c, t) → c.InRange →
        (k'.task p).pid ≠ 0 ∧ Safe (t + c.asked) (k'.prog p) (k'.task p) k'.now) : Inv k' := by
  intro p c t hcall hc
  rcases hleft p with hp | hp | hp
  · rw [hp.call] at hcall
    obtain ⟨hpid, hsafe⟩ := h p c t hcall hc
    exact hp.safe hpid hsafe
  · rw [hp] at hcall
    cases hcall
  · exact hp c t hcall hc

/-- A step of the running task leaves the others alone. -/
theorem left_write {k : Kernel} {p q : Addr} (hq : q ≠ p) (f : Task → Task) (c : Prog) :
    Left k ((k.write p f).setProg p c) q := by
  refine .of_env rfl (Function.update_of_ne hq _ _) ?_
  have htask : ((k.write p f).setProg p c).task q = k.task q := Function.update_of_ne hq _ _
  rw [htask]
  exact Env.refl _ _

theorem left_setProg {k : Kernel} {p q : Addr} (hq : q ≠ p) (c : Prog) :
    Left k (k.setProg p c) q :=
  .of_env rfl (Function.update_of_ne hq _ _) (Env.refl _ _)

/-- A running task that is free is not in a sleep. -/
theorem ret_of_free {k : Kernel} (h : k.free = true) : k.prog k.sched.current = .ret := by
  unfold Kernel.free at h
  split at h
  · assumption
  · simp at h

theorem task_write (k : Kernel) (p : Addr) (f : Task → Task) (c : Prog) :
    ((k.write p f).setProg p c).task p = f (k.task p) := Function.update_self _ _ _

theorem prog_setProg (k : Kernel) (p : Addr) (c : Prog) : (k.setProg p c).prog p = c :=
  Function.update_self _ _ _

/-- The next access of a task keeps it safe. -/
theorem run_safe {k k' : Kernel} (hrun : k.run = some k') {D : Nat}
    (hpid : (k.task k.sched.current).pid ≠ 0)
    (hsafe : Safe D (k.prog k.sched.current) (k.task k.sched.current) k.now) :
    (k'.task k.sched.current).pid ≠ 0 ∧
      Safe D (k'.prog k.sched.current) (k'.task k.sched.current) k'.now := by
  have hrefl := Env.refl (k.task k.sched.current) k.now
  unfold Kernel.run at hrun
  dsimp only at hrun
  cases hprog : k.prog k.sched.current with
  | ret =>
    rw [hprog] at hrun
    cases hrun
  | timer_getTickCount32 c =>
    rw [hprog] at hrun hsafe
    cases hrun
    rw [prog_setProg]
    exact ⟨hpid, hsafe _ _ hrefl⟩
  | pid c =>
    rw [hprog] at hrun hsafe
    cases hrun
    rw [prog_setProg]
    exact ⟨hpid, hsafe _ _ hrefl⟩
  | wake_ticks v c =>
    rw [hprog] at hrun hsafe
    cases hrun
    rw [prog_setProg, task_write]
    exact ⟨hpid, hsafe _ _ hrefl⟩
  | state v c =>
    rw [hprog] at hrun hsafe
    cases hrun
    rw [prog_setProg, task_write]
    exact ⟨hpid, hsafe _ _ hrefl⟩
  | schedule c =>
    rw [hprog] at hrun hsafe
    cases hrun
    refine ⟨hpid, ?_⟩
    show Safe D ((k.setProg k.sched.current (.switched c)).prog k.sched.current) _ _
    rw [prog_setProg]
    exact hsafe
  | switched c =>
    rw [hprog] at hrun
    cases hrun
  | tsleepLoop start msecs =>
    rw [hprog] at hrun hsafe
    cases hrun
    rw [prog_setProg]
    refine ⟨hpid, ?_⟩
    split_ifs with hover
    · exact hsafe _ (le_refl _) hover
    · intro t' n' henv _ n'' hn''
      exact hsafe n'' (henv.later.trans hn'')

theorem inv_run {k k' : Kernel} (h : Inv k) (hrun : k.run = some k') : Inv k' := by
  have hcalls : k'.call = k.call := by
    unfold Kernel.run at hrun
    dsimp only at hrun
    split at hrun <;> cases hrun <;> rfl
  refine h.of_left ?_
  intro q
  by_cases hq : q = k.sched.current
  · subst hq
    refine .inr (.inr ?_)
    intro c t hcall hc
    rw [hcalls] at hcall
    obtain ⟨hpid, hsafe⟩ := h _ c t hcall hc
    exact run_safe hrun hpid hsafe
  · left
    unfold Kernel.run at hrun
    dsimp only at hrun
    split at hrun
    · cases hrun
    · cases hrun
      exact left_setProg hq _
    · cases hrun
      exact left_setProg hq _
    · cases hrun
      exact left_write hq _ _
    · cases hrun
      exact left_write hq _ _
    · cases hrun
      exact .of_env rfl (Function.update_of_ne hq _ _) (Env.refl _ _)
    · cases hrun
    · cases hrun
      exact left_setProg hq _

theorem safe_resumed {D : Nat} {c : Prog} {t : Task} {n : Nat} (h : Safe D c t n)
    (hready : t.state = .Ready) : Safe D c.resumed t n := by
  cases c with
  | switched c => exact h t n (Env.refl t n) hready
  | _ => exact h

/-- A round of the search leaves the tasks alone, and the one it takes is ready. -/
theorem inv_search {k k' : Kernel} (h : Inv k) (hsearch : k.search = some k') : Inv k' := by
  unfold Kernel.search at hsearch
  obtain ⟨⟨s, next⟩, hnext, hrest⟩ := Option.bind_eq_some_iff.mp hsearch
  have hpicked : Picked k.ticks k.sched s next := by
    unfold get_next_task at hnext
    exact searchNext_picked hnext
  dsimp only at hrest
  cases hpicked with
  | nothing hend hmem =>
    rw [if_pos hend] at hrest
    cases hrest
    refine h.of_left fun p => .inl (.of_env rfl rfl ?_)
    show Env (k.task p) k.now (s.mem p) k.now
    rw [hmem]
    exact Env.refl _ _
  | task q hlt hslot hmem hfit =>
    rw [if_neg hlt.ne, hslot] at hrest
    cases hrest
    -- What the search makes of the tasks.
    have henv : ∀ p, Env (k.task p) k.now (s.mem p) k.now := by
      intro p
      rw [hmem]
      by_cases hp : p = q
      · subst hp
        rw [Function.update_self]
        refine ⟨le_refl _, id, rfl, ?_⟩
        rcases hfit with hready | ⟨hsleep, hdue⟩
        · exact .inl hready.symm
        · exact .inr ⟨hsleep, rfl, k.now, le_refl _, le_refl _, hdue⟩
      · rw [Function.update_of_ne hp]
        exact Env.refl _ _
    refine h.of_left ?_
    intro p
    by_cases hp : p = q
    · subst hp
      refine .inr (.inr ?_)
      intro c t hcall hc
      obtain ⟨hpid, hsafe⟩ := h p c t hcall hc
      refine ⟨(henv p).pid hpid, ?_⟩
      have hprog : (Function.update k.prog p (k.prog p).resumed) p = (k.prog p).resumed :=
        Function.update_self _ _ _
      show Safe _ ((Function.update k.prog p (k.prog p).resumed) p) (s.mem p) k.now
      rw [hprog]
      refine safe_resumed (hsafe.env (henv p)) ?_
      rw [hmem, Function.update_self]
    · exact .inl (.of_env rfl (Function.update_of_ne hp _ _) (henv p))

theorem inv_enter {k : Kernel} (h : Inv k) (c : Sleep) : Inv (k.enter c) := by
  refine h.of_left ?_
  intro p
  unfold Kernel.enter
  dsimp only
  by_cases hp : p = k.sched.current
  · subst hp
    split_ifs with hpid
    · exact .inr (.inl (by simp [Kernel.forget]))
    · refine .inr (.inr ?_)
      intro c' t hcall hc
      have hsame : Function.update k.call k.sched.current (some (c, k.now)) k.sched.current =
          some (c', t) := hcall
      rw [Function.update_self] at hsame
      cases hsame
      refine ⟨hpid, ?_⟩
      show Safe _ ((k.setProg k.sched.current c.prog).prog k.sched.current) _ _
      rw [prog_setProg]
      exact safeFrom_prog hc k.now _ _ hpid (le_refl _)
  · split_ifs with hpid
    · exact .inl (.of_env (Function.update_of_ne hp _ _) (Function.update_of_ne hp _ _)
        (Env.refl _ _))
    · exact .inl (.of_env (Function.update_of_ne hp _ _) (Function.update_of_ne hp _ _)
        (Env.refl _ _))

theorem inv_step {k k' : Kernel} (a : Act) (h : Inv k) (hstep : step k a = some k') : Inv k' := by
  cases a with
  | tick d =>
    cases hstep
    refine h.of_left fun p => .inl (.of_env rfl rfl ?_)
    exact Env.tick _ (Nat.le_add_right _ _)
  | run =>
    dsimp only [step] at hstep
    split_ifs at hstep
    exact inv_run h hstep
  | enter c =>
    dsimp only [step] at hstep
    split_ifs at hstep
    cases hstep
    exact inv_enter h c
  | schedule_tick =>
    dsimp only [step] at hstep
    split_ifs at hstep
    cases hstep
    exact h.of_left fun p => .inl (.of_env rfl rfl (Env.refl _ _))
  | search =>
    dsimp only [step] at hstep
    split_ifs at hstep
    exact inv_search h hstep
  | wake_task q =>
    dsimp only [step] at hstep
    split_ifs at hstep
    · cases hstep
      exact h
    · cases hstep
      refine h.of_left ?_
      intro p
      by_cases hp : p = q
      · exact .inr (.inl (by simp [hp, Kernel.forget]))
      · refine .inl (.of_env (Function.update_of_ne hp _ _) rfl ?_)
        have htask : ((k.write q fun t => { t with state := .Ready }).forget q).task p =
            k.task p := Function.update_of_ne hp _ _
        rw [htask]
        exact Env.refl _ _
  | add_task p =>
    dsimp only [step] at hstep
    split_ifs at hstep
    cases hstep
    exact h.of_left fun q => .inl (.of_env rfl rfl (add_task_env _ p q _))
  | block_this_task =>
    dsimp only [step] at hstep
    split_ifs at hstep with hfree hpid
    · cases hstep
      exact h
    · cases hstep
      refine h.of_left ?_
      intro p
      by_cases hp : p = k.sched.current
      · -- The task that blocks is outside of a sleep.
        subst hp
        refine .inl ⟨rfl, rfl, le_refl _, ?_, .inl (ret_of_free hfree)⟩
        intro _
        simpa [Kernel.task, Kernel.write, Sched.write] using hpid
      · refine .inl (.of_env rfl rfl ?_)
        have htask : (k.write k.sched.current fun t => { t with state := .Blocked }).task p =
            k.task p := Function.update_of_ne hp _ _
        show Env (k.task p) k.now
          ((k.write k.sched.current fun t => { t with state := .Blocked }).task p) k.now
        rw [htask]
        exact Env.refl _ _
  | terminate_this_task =>
    dsimp only [step] at hstep
    split_ifs at hstep
    obtain ⟨s, hs, rfl⟩ := Option.map_eq_some_iff.mp hstep
    refine h.of_left fun q => .inl (.of_env rfl rfl ?_)
    have htask : s.mem q = k.task q := by rw [remove_task_mem hs, Kernel.task]
    show Env (k.task q) k.now (s.mem q) k.now
    rw [htask]
    exact Env.refl _ _
  | reuse p t =>
    dsimp only [step] at hstep
    split_ifs at hstep
    cases hstep
    refine h.of_left ?_
    intro q
    by_cases hq : q = p
    · exact .inr (.inl (by simp [hq, Kernel.forget]))
    · refine .inl (.of_env (Function.update_of_ne hq _ _) (Function.update_of_ne hq _ _) ?_)
      have htask : (((k.write p fun _ => t).setProg p .ret).forget p).task q = k.task q :=
        Function.update_of_ne hq _ _
      rw [htask]
      exact Env.refl _ _

/-! ## No early return -/

/-- A call in range does not return early. -/
theorem never_early_of_range {c : Sleep} (hc : c.InRange) : NeverEarly c := by
  intro init_task mem start acts k hexec p t hcall hret
  have hinv : Inv k :=
    exec_keeps Inv (fun s a u hs hu => inv_step a hs hu) (inv_boot init_task mem start) hexec
  have hsafe := (hinv p c t hcall hc).2
  rw [hret] at hsafe
  exact hsafe

/-- `task_sleep` never wakes early, for any number of seconds. -/
theorem task_sleep_is_never_early (nSeconds : BitVec 32) : NeverEarly (.s nSeconds) :=
  never_early_of_range trivial

end rpi_wifi.sleeping
