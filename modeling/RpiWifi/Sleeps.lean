-- The sleeps of the scheduler. A task that sleeps runs a little program, one access to
-- the counter or to its record at a time, and between any two of them the other tasks
-- run, the timer takes the processor away and time passes.
import RpiWifi.TaskTable

namespace rpi_wifi.sleeping

open runs scheduler

def CLOCKHZ : Nat := 1000000

/-! ## The programs -/

/-- What a task has still to do of its sleep. `switched k` is a task inside `_schedule`,
and `tsleepLoop` the loop of `tsleep`, whose handler gives 0. -/
inductive Prog where
  | ret
  | timer_getTickCount32 (k : BitVec 32 → Prog)
  | pid (k : Nat → Prog)
  | wake_ticks (v : BitVec 32) (k : Prog)
  | state (v : TaskState) (k : Prog)
  | schedule (k : Prog)
  | switched (k : Prog)
  | tsleepLoop (start msecs : BitVec 32)

def task_us_sleep (nMicroSeconds : BitVec 32) (k : Prog) : Prog :=
  if 0 < nMicroSeconds then
    let nTicks := nMicroSeconds * BitVec.ofNat 32 (CLOCKHZ / 1000000)
    .timer_getTickCount32 fun nStartTicks =>
      .pid fun pid =>
        if pid = 0 then k
        else .wake_ticks (nStartTicks + nTicks) (.state .Sleeping (.schedule k))
  else k

def nSleepMax : BitVec 32 := 1800

/-- `task_sleep`. Each piece but the last one takes `nSleepMax` seconds off. -/
def task_sleep (nSeconds : BitVec 32) (k : Prog) : Prog :=
  if nSleepMax < nSeconds then
    task_us_sleep (nSleepMax * 1000000) (task_sleep (nSeconds - nSleepMax) k)
  else task_us_sleep (nSeconds * 1000000) k
termination_by nSeconds.toNat
decreasing_by
  rename_i h
  have hlt : nSleepMax.toNat < nSeconds.toNat := h
  rw [BitVec.toNat_sub_of_le (Nat.le_of_lt hlt)]
  have hmax : nSleepMax.toNat = 1800 := rfl
  omega

def task_ms_sleep (nMilliSeconds : BitVec 32) (k : Prog) : Prog :=
  if 0 < nMilliSeconds then task_us_sleep (nMilliSeconds * 1000) k else k

/-- `tsleep`, with a handler that gives 0 each time. -/
def tsleep (msecs : BitVec 32) : Prog := .timer_getTickCount32 fun start => .tsleepLoop start msecs

/-- The break of the loop of `tsleep`. -/
def tsleepOver (start msecs nTicks : BitVec 32) : Prop := msecs * 100 / 1000 < nTicks - start

instance (start msecs nTicks : BitVec 32) : Decidable (tsleepOver start msecs nTicks) :=
  inferInstanceAs (Decidable (msecs * 100 / 1000 < nTicks - start))

/-- A call of a sleep. -/
inductive Sleep where
  | us (nMicroSeconds : BitVec 32)
  | s (nSeconds : BitVec 32)
  | ms (nMilliSeconds : BitVec 32)
  | t (msecs : BitVec 32)
  deriving DecidableEq

def Sleep.prog : Sleep → Prog
  | .us n => task_us_sleep n .ret
  | .s n => task_sleep n .ret
  | .ms n => task_ms_sleep n .ret
  | .t n => tsleep n

/-- The ticks that the call asks for. -/
def Sleep.asked : Sleep → Nat
  | .us n => n.toNat
  | .s n => n.toNat * 1000000
  | .ms n => n.toNat * 1000
  | .t n => n.toNat * 1000

/-! ## The kernel -/

/-- The scheduler, the ticks since the counter was 0, whether the running task is in the
loop of `_schedule`, and for each task its program and its last call of a sleep, with the
time of the call. A call by a task with the pid 0 is not kept, nor one that was woken. -/
structure Kernel where
  sched : Sched
  now : Nat
  searching : Bool
  prog : Addr → Prog
  call : Addr → Option (Sleep × Nat)

/-- The free-running counter. -/
def Kernel.ticks (k : Kernel) : BitVec 32 := BitVec.ofNat 32 k.now

def Kernel.task (k : Kernel) (p : Addr) : Task := k.sched.mem p

def Kernel.setProg (k : Kernel) (p : Addr) (c : Prog) : Kernel :=
  { k with prog := Function.update k.prog p c }

def Kernel.write (k : Kernel) (p : Addr) (f : Task → Task) : Kernel :=
  { k with sched := k.sched.write p f }

def Kernel.forget (k : Kernel) (p : Addr) : Kernel :=
  { k with call := Function.update k.call p none }

/-- The next access of the running task. -/
def Kernel.run (k : Kernel) : Option Kernel :=
  let p := k.sched.current
  match k.prog p with
  | .ret => none
  | .timer_getTickCount32 c => some (k.setProg p (c k.ticks))
  | .pid c => some (k.setProg p (c (k.task p).pid))
  | .wake_ticks v c => some ((k.write p fun t => { t with wake_ticks := v }).setProg p c)
  | .state v c => some ((k.write p fun t => { t with state := v }).setProg p c)
  | .schedule c => some { k.setProg p (.switched c) with searching := true }
  | .switched _ => none
  | .tsleepLoop start msecs =>
    some (k.setProg p (if tsleepOver start msecs k.ticks then .ret
      else .schedule (.tsleepLoop start msecs)))

/-- A task that was switched to goes on behind its `_schedule`. -/
def Prog.resumed : Prog → Prog
  | .switched c => c
  | c => c

/-- One round of the loop of `_schedule`. With no task ready it goes on. -/
def Kernel.search (k : Kernel) : Option Kernel :=
  (get_next_task k.sched k.ticks).bind fun (s, next_pid) =>
    let k := { k with sched := s }
    if next_pid = NR_TASKS then some k
    else (s.slot next_pid).map fun pNext =>
      let q := pNext.getD s.current
      { k.setProg q (k.prog q).resumed with
        sched := { s with current := q }, searching := false }

/-- The running task calls a sleep. -/
def Kernel.enter (k : Kernel) (c : Sleep) : Kernel :=
  let p := k.sched.current
  let k := k.setProg p c.prog
  if (k.task p).pid = 0 then k.forget p
  else { k with call := Function.update k.call p (some (c, k.now)) }

/-- The running task is outside of a sleep and of the scheduler. -/
def Kernel.free (k : Kernel) : Bool :=
  !k.searching && match k.prog k.sched.current with
    | .ret => true
    | _ => false

/-- What happens in the kernel. Time passes, the running task takes the next access of its
sleep or calls one, the timer takes the processor away, the loop of `_schedule` goes
round, a task is woken by `wake_task`, and a task that does not sleep adds a task, blocks
or ends. Memory that holds no task takes any other content. -/
inductive Act where
  | tick (d : Nat)
  | run
  | enter (c : Sleep)
  | schedule_tick
  | search
  | wake_task (q : Addr)
  | add_task (p : Option Addr)
  | block_this_task
  | terminate_this_task
  | reuse (p : Addr) (t : Task)

def step (k : Kernel) : Act → Option Kernel
  | .tick d => some { k with now := k.now + d }
  | .run => if k.searching then none else k.run
  | .enter c => if k.free then some (k.enter c) else none
  | .schedule_tick => if k.searching then none else some { k with searching := true }
  | .search => if k.searching then k.search else none
  | .wake_task q =>
    if (k.task q).pid = 0 then some k
    else some ((k.write q fun t => { t with state := .Ready }).forget q)
  | .add_task p => if k.free then some { k with sched := (add_task k.sched p).1 } else none
  | .block_this_task =>
    if k.free then
      if (k.task k.sched.current).pid = 0 then some k
      else some { k.write k.sched.current fun t => { t with state := .Blocked } with
        searching := true }
    else none
  | .terminate_this_task =>
    if k.free then
      (remove_task k.sched k.sched.current).map fun s => { k with sched := s, searching := true }
    else none
  | .reuse p t =>
    if k.sched.InTable p ∨ p = k.sched.current then none
    else some (((k.write p fun _ => t).setProg p .ret).forget p)

/-- The kernel at its start, when the counter may have any value. -/
def boot (init_task : Addr) (mem : Addr → Task) (now : Nat) : Kernel where
  sched := initial init_task mem
  now := now
  searching := false
  prog := fun _ => .ret
  call := fun _ => none

/-- The task is behind the sleep that it called last. -/
def Kernel.Returned (k : Kernel) (p : Addr) : Prop := k.prog p = .ret

/-- In every run, a task that was not woken is behind the call only when the ticks that the
call asks for have passed. -/
def NeverEarly (c : Sleep) : Prop :=
  ∀ init_task mem start acts k, exec step (boot init_task mem start) acts = some k →
    ∀ p t, k.call p = some (c, t) → k.Returned p → t + c.asked ≤ k.now

end rpi_wifi.sleeping
