-- The tasks on the one processor: the running task and its interrupts, the tasks that wait in
-- `task_switch` with their registers in their records, the new ones of `create_task`, the
-- running one that has given up its frames and goes on in them up to its last switch, and the
-- one that `switch_to` has made `current` while the task before it still runs.
import RpiWifi.TaskSwitch
import RpiWifi.InterruptFrame

namespace rpi_wifi.contexts

open arm memory runs

variable {ι : Type} [DecidableEq ι]

/-- Where the record of a task and its stack are. -/
structure Area where
  record : Word
  bottom : Nat
  top : Nat

/-- `a` is a byte of the `cpu_context` of the record. -/
def Area.inContext (x : Area) (a : Nat) : Prop :=
  x.record.toNat ≤ a ∧ a < x.record.toNat + 4 * contextWords

def Area.inStack (x : Area) (a : Nat) : Prop := x.bottom ≤ a ∧ a < x.top

def Area.has (x : Area) (a : Nat) : Prop := x.inContext a ∨ x.inStack a

def THREAD_SIZE : Nat := 4096

/-- The words of `task_struct_t` take 216 bytes. -/
def sizeof_task_struct : Nat := 216

/-- The area of a task that `create_task` has made at `p`. -/
def taskArea (p : Word) : Area := ⟨p, p.toNat + sizeof_task_struct, p.toNat + 9 * THREAD_SIZE⟩

/-- An interrupt that is not over: the processor when it came, and when `irq_handler` was
called. -/
structure Entry where
  before : Cpu
  call : Cpu

/-- A task that does not run: what `task_switch`, or `create_task`, has left in its record,
and the memory at that time. -/
structure Waiting where
  context : List Word
  mem : Mem

/-- `init` is the task with the pid 0, and `current` the one whose code runs. `chosen` is the
next task, between `current = next` in `switch_to` and the switch to it: there it is what the
source calls `current`. `dying` is set between `remove_task` and the switch away from the
task. -/
structure Machine (ι : Type) where
  cpu : Cpu
  init : ι
  current : ι
  chosen : Option ι
  area : ι → Area
  waiting : ι → Option Waiting
  inside : ι → List Entry
  dying : Bool

inductive Step (ι : Type) where
  /-- The running task, or `irq_handler` in it, goes on to `t`. -/
  | work (t : Cpu)
  | interrupt
  /-- `irq_handler` returns. -/
  | leave
  /-- `switch_to`, up to `current = next`. -/
  | switch_to (next : ι)
  /-- `switch_to` calls `task_switch`, which is one step. -/
  | task_switch
  /-- `p` is what `alloc_contiguous_frames` gives. -/
  | create_task (j : ι) (p fn arg : Word)
  /-- `terminate_this_task`, up to `schedule`: the frames are free. -/
  | remove_task

/-- The processor when `switch_to` calls `task_switch`. -/
def calling (c : Cpu) (prev next : Word) : Cpu :=
  { c with r := Function.update (Function.update c.r 0 prev) 1 next }

/-- The registers that `create_task` writes into the record. -/
def create_context (m : Mem) (p : Word) (fn arg : Word) (top : Nat) : Mem :=
  writeWords (writeWords m p.toNat [arg]) (p.toNat + 40) [BitVec.ofNat 32 top, fn]

section machine

variable (vector irq_handler : Word)

def Machine.step (m : Machine ι) : Step ι → Option (Machine ι)
  | .work t => some { m with cpu := t }
  | .interrupt =>
    if m.cpu.cpsr.getLsbD 7 = true then none
    else (exec arm.step (arm.interrupt m.cpu vector) (entering irq_handler)).map fun t =>
      { m with
        cpu := t
        inside := Function.update m.inside m.current (⟨m.cpu, t⟩ :: m.inside m.current) }
  | .leave =>
    match m.inside m.current with
    | [] => none
    | _ :: rest => (exec arm.step m.cpu leaving).map fun t =>
      { m with cpu := t, inside := Function.update m.inside m.current rest }
  | .switch_to next =>
    if m.waiting next = none then none
    else some { m with chosen := some next }
  | .task_switch =>
    match m.chosen with
    | none => none
    | some next =>
      let c := calling m.cpu (m.area m.current).record (m.area next).record
      let left := if m.dying then none else some ⟨cpuContext c, c.mem⟩
      (exec arm.step c task_switch).map fun t =>
        { m with
          cpu := t
          current := next
          chosen := none
          waiting := Function.update (Function.update m.waiting m.current left) next none
          inside := if m.dying then Function.update m.inside m.current [] else m.inside
          dying := false }
  | .create_task j p fn arg =>
    if j = m.current ∨ m.waiting j ≠ none then none
    else
      let mem := create_context m.cpu.mem p fn arg (taskArea p).top
      some { m with
        cpu := { m.cpu with mem := mem }
        area := Function.update m.area j (taskArea p)
        waiting := Function.update m.waiting j
          (some ⟨readWords mem p.toNat contextWords, mem⟩) }
  | .remove_task =>
    if m.current = m.init then some m
    else some { m with dying := true }

end machine

/-- A task that runs or waits. -/
def Machine.live (m : Machine ι) (j : ι) : Prop := j = m.current ∨ m.waiting j ≠ none

/-- Below here the stack belongs to the code that runs: above is what the last interrupt has
put there. -/
def limit (x : Area) : List Entry → Nat
  | [] => x.top
  | e :: _ => (e.call.get .sp).toNat

/-- The running code keeps to its stack and leaves the areas of the other tasks, its record
and what is on the stack of an interrupt alone. -/
structure Works (m : Machine ι) (t : Cpu) : Prop where
  mode : t.mode = .svc
  aligned : (t.get .sp).toNat % 4 = 0
  bottom : (m.area m.current).bottom ≤ (t.get .sp).toNat
  limit : (t.get .sp).toNat ≤ limit (m.area m.current) (m.inside m.current)
  others : ∀ j, m.waiting j ≠ none → ∀ a, (m.area j).has a → t.mem a = m.cpu.mem a
  context : ∀ a, (m.area m.current).inContext a → t.mem a = m.cpu.mem a
  stack : ∀ a, contexts.limit (m.area m.current) (m.inside m.current) ≤ a →
    a < (m.area m.current).top → t.mem a = m.cpu.mem a

/-- `irq_handler` returns as a function does: with the stack and the registers `r4` to `r11`
as it found them. -/
structure Returns (m : Machine ι) : Prop where
  sp : ∀ e ∈ (m.inside m.current).head?, m.cpu.get .sp = e.call.get .sp
  regs : ∀ e ∈ (m.inside m.current).head?, ∀ i, .r i ∉ scratch → m.cpu.r i = e.call.r i

/-- The ten frames at `p` are no other task's, and no task gets frames while the running one
is about to give up its own. -/
structure Allocates (m : Machine ι) (p : Word) : Prop where
  aligned : p.toNat % 4 = 0
  word : p.toNat + 10 * THREAD_SIZE ≤ 2 ^ 32
  apart : ∀ j, m.live j → ∀ a, (m.area j).has a →
    a < p.toNat ∨ p.toNat + 10 * THREAD_SIZE ≤ a
  dying : m.dying = false

/-- What is taken for granted of the code between the steps. An interrupt that comes between
`current = next` and the switch does not switch tasks itself: `switch_to` would save the
registers into the record of the next task. -/
def Fair (m : Machine ι) : Step ι → Prop
  | .work t => Works m t
  | .interrupt => (m.area m.current).bottom + 40 ≤ (m.cpu.get .sp).toNat
  | .leave => Returns m
  | .switch_to _ => m.chosen = none
  | .task_switch => True
  | .create_task _ p _ _ => Allocates m p
  | .remove_task => m.chosen = none

/-- The record of a task and its stack. -/
structure Area.Ok (x : Area) : Prop where
  fits : Fits x.record contextWords
  top : x.top < 2 ^ 32 ∧ x.top % 4 = 0
  bottom : x.bottom ≤ x.top
  own : ∀ a, x.inContext a → ¬ x.inStack a

/-- The first task runs alone. -/
def Machine.start (init : ι) (x : Area) (cpu : Cpu) : Machine ι where
  cpu := cpu
  init := init
  current := init
  chosen := none
  area := fun _ => x
  waiting := fun _ => none
  inside := fun _ => []
  dying := false

/-- The first task is on its stack. -/
structure Starts (x : Area) (cpu : Cpu) : Prop where
  area : x.Ok
  mode : cpu.mode = .svc
  aligned : (cpu.get .sp).toNat % 4 = 0
  bottom : x.bottom ≤ (cpu.get .sp).toNat
  top : (cpu.get .sp).toNat ≤ x.top

end rpi_wifi.contexts
