-- The scheduler of the kernel: the table of tasks, `add_task`, `remove_task`
-- and the search for the next task to run. An index past the table is an
-- access out of bounds, and it gives no result.
import RpiWifi.Runs

namespace rpi_wifi.scheduler

abbrev Addr := Nat

def NR_TASKS : Nat := 64

inductive TaskState where
  | Ready
  | Blocked
  | Sleeping
  | Terminated
  | Unknown
  deriving DecidableEq

/-- The fields of `task_struct_t` that the scheduler reads and writes. -/
structure Task where
  state : TaskState
  counter : Nat
  priority : Nat
  preempt_count : BitVec 32
  pid : Nat
  wake_ticks : BitVec 32
  deriving DecidableEq

def INIT_TASK : Task := ⟨.Ready, 0, 1, 0, 0, 0⟩

/-- The globals of the scheduler and the memory of the task records. A null
pointer is `none`. `deleted` are the tasks that `delete_task` was called with. -/
structure Sched where
  TASKS : Fin NR_TASKS → Option Addr
  mem : Addr → Task
  nr_tasks : Nat
  current : Addr
  deleted : List Addr

/-- `TASKS[i]`. There is none past the end of the table. -/
def Sched.slot (s : Sched) (i : Nat) : Option (Option Addr) :=
  if h : i < NR_TASKS then some (s.TASKS ⟨i, h⟩) else none

def Sched.write (s : Sched) (p : Addr) (f : Task → Task) : Sched :=
  { s with mem := Function.update s.mem p (f (s.mem p)) }

def preempt_disable (s : Sched) : Sched :=
  s.write s.current fun t => { t with preempt_count := t.preempt_count + 1 }

def preempt_enable (s : Sched) : Sched :=
  s.write s.current fun t => { t with preempt_count := t.preempt_count - 1 }

/-! ## Adding and removing tasks -/

/-- The first index from 1 on with an empty slot. -/
def Sched.freeSlot (s : Sched) : Option (Fin NR_TASKS) :=
  ((List.finRange NR_TASKS).drop 1).find? fun i => (s.TASKS i).isNone

/-- The body of the loop of `add_task` at the slot it stops at. -/
def Sched.install (s : Sched) (p : Addr) (i : Fin NR_TASKS) : Sched :=
  let s := { s with TASKS := Function.update s.TASKS i (some p) }
  let s := s.write p fun t => { t with pid := i }
  let s := s.write p fun t => { t with priority := (s.mem s.current).priority }
  let s := s.write p fun t => { t with counter := (s.mem s.current).priority }
  { s with nr_tasks := (s.nr_tasks + 1) % 2 ^ 32 }

/-- `add_task`, with the state and the result. A null task leaves the preemption off. -/
def add_task (s : Sched) (pTask : Option Addr) : Sched × Nat :=
  let s := preempt_disable s
  match pTask with
  | none => (s, 0)
  | some p =>
    match s.freeSlot with
    | some i => (preempt_enable (s.install p i), i)
    | none => (preempt_enable s, 0)

/-- Slot `i` is cleared, and `delete_task` gives the frames back. -/
def Sched.clear (s : Sched) (i : Fin NR_TASKS) (p : Addr) : Sched :=
  { s with
    TASKS := Function.update s.TASKS i none
    nr_tasks := if (i : Nat) = s.nr_tasks - 1 then s.nr_tasks - 1 else s.nr_tasks
    deleted := s.deleted ++ [p] }

/-- The loop of `remove_task` from index `i` on, with `n` rounds to go. -/
def removeFrom (s : Sched) (p : Addr) : Nat → Nat → Option Sched
  | 0, _ => some s
  | n + 1, i =>
    if h : i < NR_TASKS then
      if s.TASKS ⟨i, h⟩ = some p then some (s.clear ⟨i, h⟩ p) else removeFrom s p n (i + 1)
    else none

def remove_task (s : Sched) (p : Addr) : Option Sched :=
  if (s.mem p).pid = 0 then some s else removeFrom s p s.nr_tasks 0

/-! ## The next task -/

/-- The loop of `get_next_task` with `n` rounds to go and its index at `nTask`. -/
def searchNext (nTicks : BitVec 32) : Nat → Sched → Nat → Option (Sched × Nat)
  | 0, s, _ => some (s, NR_TASKS)
  | n + 1, s, nTask =>
    let nTask := if s.nr_tasks ≤ nTask + 1 then 0 else nTask + 1
    match s.slot nTask with
    | none => none
    | some none => searchNext nTicks n s nTask
    | some (some p) =>
      match (s.mem p).state with
      | .Ready => some (s, nTask)
      | .Blocked => searchNext nTicks n s nTask
      | .Sleeping =>
        -- The difference of the ticks is read as an `int`.
        if 0 < ((s.mem p).wake_ticks - nTicks).toInt then searchNext nTicks n s nTask
        else some (s.write p fun t => { t with state := .Ready }, nTask)
      | .Terminated => (remove_task s p).bind fun s => searchNext nTicks n s nTask
      | .Unknown => searchNext nTicks n s nTask

def get_next_task (s : Sched) (nTicks : BitVec 32) : Option (Sched × Nat) :=
  let pid := (s.mem s.current).pid
  searchNext nTicks NR_TASKS s (if pid < NR_TASKS then pid else 0)

/-- One round of the loop of `_schedule`: with no task ready the loop goes on,
and an empty slot or the running task itself makes no switch. -/
def _schedule (s : Sched) (nTicks : BitVec 32) : Option Sched :=
  (get_next_task s nTicks).bind fun (s, next) =>
    if next = NR_TASKS then some s
    else (s.slot next).map fun q => match q with
      | none => s
      | some p => { s with current := p }

/-! ## The machine -/

/-- The task is in the table. -/
def Sched.InTable (s : Sched) (p : Addr) : Prop := ∃ i, s.TASKS i = some p

instance (s : Sched) (p : Addr) : Decidable (s.InTable p) :=
  inferInstanceAs (Decidable (∃ i, s.TASKS i = some p))

/-- What happens to the scheduler: a task is added, a task of the table ends, the
scheduler runs at some time, a task is blocked, woken or put to sleep, or the
memory of a task that is not in the table takes any other content. -/
inductive Op where
  | add (p : Option Addr)
  | remove (p : Addr)
  | schedule (nTicks : BitVec 32)
  | mark (p : Addr) (state : TaskState) (wake_ticks : BitVec 32)
  | reuse (p : Addr) (t : Task)

def step (s : Sched) : Op → Option Sched
  | .add p => some (add_task s p).1
  | .remove p => if s.InTable p then remove_task s p else none
  | .schedule nTicks => _schedule s nTicks
  | .mark p state wake_ticks => some (s.write p fun t => { t with state, wake_ticks })
  | .reuse p t => if s.InTable p then none else some (s.write p fun _ => t)

/-- The initial table, with the init task in slot 0. -/
def initial (init_task : Addr) (mem : Addr → Task) : Sched where
  TASKS := fun i => if i = ⟨0, by decide⟩ then some init_task else none
  mem := Function.update mem init_task INIT_TASK
  nr_tasks := 1
  current := init_task
  deleted := []

end rpi_wifi.scheduler
