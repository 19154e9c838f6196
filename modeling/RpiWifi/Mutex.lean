-- The mutex of `lock.c`. `mutex_acquire` tests the word in a loop and sets it
-- with a store of its own. A task is switched out at every `schedule` and by
-- `schedule_tick` between any two accesses to the word, so a step of the
-- machine is one access of one task, and any task may be the next to run.
import RpiWifi.Runs
import RpiWifi.Exclusion

namespace rpi_wifi.mutex

open runs exclusion

/-! ## The machine -/

structure Mutex where
  lock : Int
  pid : Int
  deriving DecidableEq

def mutex_init : Mutex := ⟨0, -1⟩

/-- Where a task stands: the next thing it does. -/
inductive Pc where
  | outside
  -- mutex_acquire
  | acquireSchedule
  | acquireTest
  | acquireStore
  -- between the return of `mutex_acquire` and the store of `mutex_release`
  | critical
  | releaseStore
  | releaseSchedule
  deriving DecidableEq

structure State (T : Type) where
  m : Mutex
  pc : T → Pc

section

variable {T : Type} [DecidableEq T]

def State.goto (s : State T) (w : T) (pc : Pc) : State T :=
  { s with pc := Function.update s.pc w pc }

def State.setLock (s : State T) (v : Int) : State T := { s with m := { s.m with lock := v } }

/-- The task `w` runs on to its next access, call or return. -/
def step (s : State T) (w : T) : Option (State T) :=
  some (match s.pc w with
    | .outside => s.goto w .acquireSchedule
    | .acquireSchedule => s.goto w .acquireTest
    | .acquireTest => s.goto w (if s.m.lock = 1 then .acquireSchedule else .acquireStore)
    | .acquireStore => (s.setLock 1).goto w .critical
    | .critical => s.goto w .releaseStore
    | .releaseStore => (s.setLock 0).goto w .releaseSchedule
    | .releaseSchedule => s.goto w .outside)

/-- All tasks are outside, after `mutex_init`. -/
def start (T : Type) : State T := ⟨mutex_init, fun _ => .outside⟩

/-! ## Mutual exclusion -/

/-- The task has returned from `mutex_acquire` and has not released the mutex. -/
def Pc.inside : Pc → Bool
  | .critical | .releaseStore => true
  | _ => false

/-- At most one task is inside. -/
def MutualExclusion (s : State T) : Prop :=
  ∀ v w, (s.pc v).inside = true → (s.pc w).inside = true → v = w

/-- A task that sets the word finds it clear, as it was at its test. -/
def StoresFree (s : State T) (w : T) : Prop := s.pc w = .acquireStore → s.m.lock ≠ 1

instance (s : State T) (w : T) : Decidable (StoresFree s w) := inferInstanceAs (Decidable (_ → _))

/-- The word is 1 exactly while a task is inside, and it is alone there. -/
def Guarded (s : State T) : Prop := Excludes Pc.inside s.pc (s.m.lock = 1)

omit [DecidableEq T] in
theorem guarded_start : Guarded (start T) := by
  constructor
  · intro v _ hv
    cases hv
  · constructor
    · intro h
      cases h
    · rintro ⟨w, hw⟩
      cases hw

/-- A step keeps the word with the task inside when it stores on a clear word. -/
theorem guarded_step {s t : State T} {w : T} (h : Guarded s) (hok : StoresFree s w)
    (hs : step s w = some t) : Guarded t := by
  cases hs
  cases hpc : s.pc w with
  | outside => exact h.goto (by rw [hpc]; rfl)
  | acquireSchedule => exact h.goto (by rw [hpc]; rfl)
  | acquireTest =>
    refine h.goto ?_
    rw [hpc]
    split
    · rfl
    · rfl
  | acquireStore => exact h.enter (hok hpc) rfl rfl
  | critical => exact h.goto (by rw [hpc]; rfl)
  | releaseStore => exact h.leave (by rw [hpc]; rfl) rfl (show (0 : Int) ≠ 1 by decide)
  | releaseSchedule => exact h.goto (by rw [hpc]; rfl)

/-- A store on a word that is set puts two tasks inside. -/
theorem a_late_store_breaks_in {s : State T} {w : T} (h : Guarded s) (hbad : ¬ StoresFree s w) :
    ∃ t, step s w = some t ∧ ¬ MutualExclusion t := by
  unfold StoresFree at hbad
  rw [Classical.not_imp, not_not] at hbad
  obtain ⟨hpc, hlock⟩ := hbad
  refine ⟨(s.setLock 1).goto w .critical, ?_, ?_⟩
  · simp only [step, hpc]
  · exact h.not_alone hlock (by rw [hpc]; rfl) rfl

/-- The tasks of a schedule exclude each other in every state it reaches exactly
when each store of `mutex_acquire` finds the word still clear. -/
theorem the_tasks_exclude_each_other_iff (T : Type) [DecidableEq T] (schedule : List T) :
    (∀ sofar s, sofar <+: schedule → exec step (start T) sofar = some s → MutualExclusion s) ↔
      Allowed step StoresFree (start T) schedule :=
  exec_safe_iff Guarded MutualExclusion (fun _ h => h.alone)
    (fun _ _ _ h hok hs => guarded_step h hok hs) (fun _ _ h hbad => a_late_store_breaks_in h hbad)
    guarded_start schedule

end

/-- The first task is switched out by the timer between its test and its store, the
second one acquires the mutex, and the first one goes on. -/
def tickAfterTest : List Bool := [false, false, false] ++ List.replicate 4 true ++ [false]

/-- Both tasks have returned from `mutex_acquire`. -/
theorem two_tasks_are_inside :
    ∃ s, exec step (start Bool) tickAfterTest = some s ∧ s.pc false = .critical ∧
      s.pc true = .critical ∧ ¬ MutualExclusion s := by
  have hend : (exec step (start Bool) tickAfterTest).map (fun s => (s.pc false, s.pc true)) =
      some (.critical, .critical) := by
    decide +kernel
  obtain ⟨s, hs, he⟩ := Option.map_eq_some_iff.mp hend
  simp only [Prod.mk.injEq] at he
  obtain ⟨h1, h2⟩ := he
  refine ⟨s, hs, h1, h2, ?_⟩
  intro hm
  cases hm false true (by rw [h1]; rfl) (by rw [h2]; rfl)

end rpi_wifi.mutex
