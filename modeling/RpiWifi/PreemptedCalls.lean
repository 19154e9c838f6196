-- The functions that keep the preemption off, access by access, with ticks between the
-- accesses: `printf` with its characters on their way to the UART, `add_task` and
-- `create_task`. They run as if each were one step, and no two texts mix.
import RpiWifi.Preemption
import RpiWifi.PrintfOutput
import RpiWifi.Sections

namespace rpi_wifi.preemption

open runs scheduler sections
open plibc (CString cstr)
open plibc.doprnt (Strings _doprnt record)

/-! ## The functions in pieces -/

/-- What a `printf` with this format puts out. -/
def said (strings : Strings) (fmt : String) (ap : List (BitVec 32)) : CString :=
  (_doprnt record strings (cstr fmt) ap []).elim [] Prod.snd

abbrev KernelCode := Code Kernel (BitVec 8)

/-- An access to the scheduler's data. -/
def access (f : Sched → Sched) (rest : KernelCode) : KernelCode :=
  .act (fun k => { k with sched := f k.sched }) fun _ => rest

def disabled (rest : KernelCode) : KernelCode := .act Kernel.preempt_disable fun _ => rest

def enabled (rest : KernelCode) : KernelCode := .act Kernel.preempt_enable fun _ => rest

/-- `printf`, with the text that `_doprnt` makes. -/
def printfCode (text : CString) (rest : KernelCode) : KernelCode :=
  disabled (puts text (enabled rest))

/-- The loop of `add_task`, which reads the slots one by one. -/
def searchCode (found : Fin NR_TASKS → KernelCode) (full : KernelCode) :
    List (Fin NR_TASKS) → KernelCode
  | [] => full
  | i :: is => .act id fun k =>
    if (k.sched.TASKS i).isNone then found i else searchCode found full is

/-- The body of the loop at the slot it stops at. -/
def installCode (strings : Strings) (p : Addr) (i : Fin NR_TASKS) (rest : KernelCode) :
    KernelCode :=
  access (fun s => { s with TASKS := Function.update s.TASKS i (some p) }) <|
  access (fun s => s.write p fun t => { t with pid := i }) <|
  printfCode (said strings "new_task_pid:%d task_reg: %x \n"
    [BitVec.ofNat 32 i, BitVec.ofNat 32 p]) <|
  access (fun s => s.write p fun t => { t with priority := (s.mem s.current).priority }) <|
  access (fun s => s.write p fun t => { t with counter := (s.mem s.current).priority }) <|
  access (fun s => { s with nr_tasks := (s.nr_tasks + 1) % 2 ^ 32 }) rest

def addCode (strings : Strings) (p : Addr) (rest : KernelCode) : KernelCode :=
  disabled <| searchCode (fun i => installCode strings p i (enabled rest))
    (printfCode (said strings "System limit of tasks exceeded \n" []) (enabled rest))
    ((List.finRange NR_TASKS).drop 1)

def THREAD_SIZE : Nat := 4096

/-- The name in a task record, behind the registers and the other fields. -/
def nameOf (p : Addr) : BitVec 32 := BitVec.ofNat 32 (p + 208)

def createText (strings : Strings) (p : Addr) : CString :=
  said strings "NEw Task name: %s base: %x  sp: %x \n"
    [nameOf p, BitVec.ofNat 32 p, BitVec.ofNat 32 (p + 9 * THREAD_SIZE)]

def createCode (strings : Strings) (p : Addr) : KernelCode :=
  disabled <|
  .act (fun k => { k with
    sched := k.sched.write p fun t => { t with state := .Ready }
    started := Function.update k.started p false }) fun _ =>
  access (fun s => s.write p fun t => { t with preempt_count := 0 }) <|
  addCode strings p <|
  printfCode (createText strings p) <|
  enabled .done

/-! ## The system -/

/-- What the running task does, and what happens to it. `putc` is a character of a text
that is not put out by `printf`. `terminate_this_task` prints its text with `printf`; the
rest of it is `unlink`, `shorten` and `delete`, which have nothing to keep them together.
`schedule` and `tick` go up to `task_switch`, and `switch` goes through it. -/
inductive Call where
  | printf (text : CString)
  | add (pTask : Option Addr)
  | create (frames : Option Addr)
  | putc (c : BitVec 8)
  | schedule (ticks : List (BitVec 32))
  | tick (ticks : List (BitVec 32))
  | switch
  | mark (p : Addr) (state : TaskState) (wake_ticks : BitVec 32)
  | unlink (i : Fin NR_TASKS)
  | shorten
  | delete (p : Addr)
  | reuse (p : Addr) (t : Task)

/-- What the code that runs outside of a switch writes. -/
def Kernel.outside (k : Kernel) (sched : Sched) : Option Kernel :=
  if k.leaving = none then some { k with sched } else none

/-- What a call does as a whole. -/
def Call.step (k : Kernel) : Call → Option Kernel
  | .printf _ => preemption.step k .printf
  | .add pTask => preemption.step k (.add pTask)
  | .create frames => preemption.step k (.create frames)
  | .putc _ => k.outside k.sched
  | .schedule ticks => preemption.step k (.schedule ticks)
  | .tick ticks => preemption.step k (.tick ticks)
  | .switch => preemption.step k .switch
  | .mark p state wake_ticks => preemption.step k (.mark p state wake_ticks)
  | .unlink i => k.outside { k.sched with TASKS := Function.update k.sched.TASKS i none }
  | .shorten => k.outside { k.sched with nr_tasks := k.sched.nr_tasks - 1 }
  | .delete p => k.outside { k.sched with deleted := k.sched.deleted ++ [p] }
  | .reuse p t => preemption.step k (.reuse p t)

/-- What `add_task` prints. -/
def addText (strings : Strings) (k : Kernel) (p : Addr) : CString :=
  match k.sched.freeSlot with
  | some i => said strings "new_task_pid:%d task_reg: %x \n"
      [BitVec.ofNat 32 i, BitVec.ofNat 32 p]
  | none => said strings "System limit of tasks exceeded \n" []

/-- What a call prints. -/
def Call.text (strings : Strings) (k : Kernel) : Call → CString
  | .printf text => text
  | .add (some p) => addText strings k p
  | .create (some p) => addText strings k p ++ createText strings p
  | .putc c => [c]
  | _ => []

/-- The calls that take more than one access. Without a task or without frames the
preemption is switched off, and that is all. -/
def Call.code (strings : Strings) : Call → Option KernelCode
  | .printf text => some (printfCode text .done)
  | .add none => some (disabled .done)
  | .add (some p) => some (addCode strings p .done)
  | .create none => some (disabled .done)
  | .create (some p) => some (createCode strings p)
  | .putc c => some (.put c .done)
  | _ => none

def Call.isTick : Call → Bool
  | .tick _ => true
  | _ => false

def calls (strings : Strings) : System Kernel Addr Call (BitVec 8) where
  current := fun k => k.sched.current
  step := Call.step
  text := Call.text strings
  code := Call.code strings
  interrupt := Call.isTick

/-- As in `KeepsCounts`. -/
def Call.Keeps (k : Kernel) : Call → Prop
  | .add pTask => KeepsCounts k (.add pTask)
  | .create frames => KeepsCounts k (.create frames)
  | .tick ticks => KeepsCounts k (.tick ticks)
  | _ => True

/-! ## What the pieces are together -/

variable {k t : Kernel} {p : Addr} {strings : Strings} {rest : KernelCode}

/-- A `printf` leaves the kernel as it was. -/
theorem printf_eq (hroom : k.count k.sched.current + 1 ≠ 0) : k.printf = k := by
  have hlike := printf_like hroom
  have hmem : k.printf.sched.mem = k.sched.mem := by
    simp [Kernel.printf, Kernel.preempt_enable, Kernel.preempt_disable,
      scheduler.preempt_enable, scheduler.preempt_disable, Sched.write]
  have hsched : k.printf.sched = { k.sched with mem := k.printf.sched.mem } := rfl
  rw [hmem] at hsched
  have hall : k.printf = { k with sched := k.printf.sched, underflow := k.printf.underflow } := rfl
  rw [hall, hsched, hlike.underflow]

theorem finish_printf (text : CString) (hroom : k.count k.sched.current + 1 ≠ 0) :
    (printfCode text rest).finish k = ((rest.finish k).1, text ++ (rest.finish k).2) := by
  have hprintf : k.preempt_disable.preempt_enable = k := printf_eq hroom
  simp only [printfCode, disabled, enabled, finish_act, finish_puts, hprintf]

/-- The search stops at the first empty slot. -/
theorem finish_search (found : Fin NR_TASKS → KernelCode) (full : KernelCode)
    (is : List (Fin NR_TASKS)) : (searchCode found full is).finish k =
      (((is.find? fun i => (k.sched.TASKS i).isNone).elim full found).finish k) := by
  induction is with
  | nil => rfl
  | cons i is ih =>
    rw [searchCode, finish_act, List.find?_cons]
    cases hi : (k.sched.TASKS i).isNone with
    | true => rfl
    | false => exact ih

/-- The writes of the body of the loop, one after the other. -/
theorem finish_install (i : Fin NR_TASKS) (hroom : k.count k.sched.current + 1 ≠ 0) :
    (installCode strings p i rest).finish k =
      ((rest.finish { k with sched := k.sched.install p i }).1,
        said strings "new_task_pid:%d task_reg: %x \n" [BitVec.ofNat 32 i, BitVec.ofNat 32 p] ++
          (rest.finish { k with sched := k.sched.install p i }).2) := by
  have hcount : ∀ q, ({ k with sched := { k.sched with
      TASKS := Function.update k.sched.TASKS i (some p)
      mem := Function.update k.sched.mem p { k.sched.mem p with pid := i } } } : Kernel).count q =
        k.count q := by
    intro q
    unfold Kernel.count
    by_cases hq : q = p
    · simp [hq]
    · simp [hq]
  unfold installCode access
  simp only [finish_act]
  rw [finish_printf]
  · rfl
  · rw [← hcount] at hroom
    exact hroom

theorem finish_add (hroom : k.count k.sched.current + 1 + 1 ≠ 0) :
    (addCode strings p rest).finish k =
      ((rest.finish (k.add_task (some p)).1).1,
        addText strings k p ++ (rest.finish (k.add_task (some p)).1).2) := by
  have hslot : k.preempt_disable.sched.freeSlot = k.sched.freeSlot := rfl
  have hdeep : k.preempt_disable.count k.preempt_disable.sched.current + 1 ≠ 0 := by
    rw [count_disable, disable_current, if_pos rfl]
    exact hroom
  have hfree : ((List.finRange NR_TASKS).drop 1).find?
      (fun i => (k.preempt_disable.sched.TASKS i).isNone) = k.sched.freeSlot := rfl
  rw [addCode, disabled, finish_act, finish_search, hfree]
  unfold addText Kernel.add_task
  dsimp only
  rw [hslot]
  rcases k.sched.freeSlot with _ | i
  · rw [Option.elim_none, finish_printf _ hdeep]
    dsimp only
    rw [printf_eq hdeep]
    rfl
  · have hput := install_like k.preempt_disable p i
    rw [Option.elim_some, finish_install i hdeep]
    dsimp only
    rw [printf_eq]
    · rfl
    · rw [hput.current, hput.count]
      exact hdeep

/-- The new record in two writes. -/
theorem fill_eq (k : Kernel) (p : Addr) : k.fill p =
    { k with
      sched := (k.sched.write p fun t => { t with state := .Ready }).write p
        fun t => { t with preempt_count := 0 }
      started := Function.update k.started p false } := by
  simp [Kernel.fill, Sched.write]

theorem finish_create (hone : (k.preempt_disable.fill p).count k.sched.current = 1) :
    (createCode strings p).finish k =
      ((k.create_task (some p)).1, addText strings k p ++ createText strings p) := by
  have hfilled : (k.preempt_disable.fill p).count (k.preempt_disable.fill p).sched.current = 1 := by
    rw [fill_current, disable_current, hone]
  have hroom : (k.preempt_disable.fill p).count (k.preempt_disable.fill p).sched.current + 1 ≠
      0 := by
    rw [hfilled]
    decide
  have hroom' : (k.preempt_disable.fill p).count (k.preempt_disable.fill p).sched.current + 1 + 1 ≠
      0 := by
    rw [hfilled]
    decide
  have hadd := add_task_like hroom hroom' p
  have hroom'' : ((k.preempt_disable.fill p).add_task (some p)).1.count
      ((k.preempt_disable.fill p).add_task (some p)).1.sched.current + 1 ≠ 0 := by
    rw [hadd.current, hadd.count]
    exact hroom
  unfold createCode access disabled
  simp only [finish_act]
  rw [← fill_eq, finish_add hroom', finish_printf _ hroom'']
  rw [Kernel.create_task]
  dsimp only
  rw [printf_eq hroom'']
  have htext : addText strings (k.preempt_disable.fill p) p = addText strings k p := rfl
  rw [htext]
  simp [enabled]

/-! ## The pieces keep the ticks off -/

theorem tick_quiet (hcount : 0 < k.count k.sched.current) (a : Call)
    (ha : (calls strings).interrupt a = true) : (calls strings).step k a = some k := by
  cases a with
  | tick ticks =>
    have hquiet : k.schedule_tick ticks = some k := if_pos hcount
    show preemption.step k (.tick ticks) = some k
    unfold preemption.step
    split
    · exact hquiet
    · exact hquiet
  | _ => cases ha

theorem guarded_act {f : Kernel → Kernel} {next : Kernel → KernelCode}
    (hcount : 0 < k.count k.sched.current) (hcur : (f k).sched.current = k.sched.current)
    (hrest : (calls strings).Guarded (next k) (f k)) :
    (calls strings).Guarded (.act f next) k :=
  ⟨tick_quiet hcount, hcur, hrest⟩

/-- The code is guarded in every state with the counts of `k`. -/
def Steady (strings : Strings) (c : KernelCode) (k : Kernel) : Prop :=
  ∀ t, Like k t → (calls strings).Guarded c t

section Steady

variable (hcount : 0 < k.count k.sched.current) (hroom : 0 < k.count k.sched.current + 1)
include hcount

/-- Writes that leave the counts alone are part of a section. -/
theorem steady_access {f : Sched → Sched} (hf : ∀ t : Kernel, Like t { t with sched := f t.sched })
    (hrest : Steady strings rest k) : Steady strings (access f rest) k := by
  intro t ht
  refine guarded_act ?_ (hf t).current (hrest _ (ht.trans (hf t)))
  rw [ht.current, ht.count]
  exact hcount

theorem steady_search {found : Fin NR_TASKS → KernelCode} {full : KernelCode}
    (hfound : ∀ i, Steady strings (found i) k) (hfull : Steady strings full k)
    (is : List (Fin NR_TASKS)) : Steady strings (searchCode found full is) k := by
  intro t ht
  induction is with
  | nil => exact hfull t ht
  | cons i is ih =>
    have hheld : 0 < t.count t.sched.current := by
      rw [ht.current, ht.count]
      exact hcount
    refine guarded_act hheld rfl ?_
    by_cases hi : (t.sched.TASKS i).isNone = true
    · rw [if_pos hi]
      exact hfound i t ht
    · rw [if_neg hi]
      exact ih

include hroom

/-- Inside a section a `printf` is one too. -/
theorem steady_printf (text : CString) (hrest : Steady strings rest k) :
    Steady strings (printfCode text rest) k := by
  intro t ht
  have hheld : 0 < t.count t.sched.current := by
    rw [ht.current, ht.count]
    exact hcount
  have hmore : 0 < t.count t.sched.current + 1 := by
    rw [ht.current, ht.count]
    exact hroom
  have hdeep : 0 < t.preempt_disable.count t.preempt_disable.sched.current := by
    rw [count_disable, disable_current, if_pos rfl]
    exact hmore
  apply guarded_act hheld rfl
  apply guarded_puts (tick_quiet hdeep)
  apply guarded_act hdeep rfl
  have hback : t.preempt_disable.preempt_enable = t :=
    printf_eq ((BitVec.pos_iff_ne_zero _).mp hmore)
  rw [hback]
  exact hrest t ht

theorem steady_install (i : Fin NR_TASKS) (hrest : Steady strings rest k) :
    Steady strings (installCode strings p i rest) k := by
  have hwrite : ∀ f : Task → Task, (∀ t, (f t).preempt_count = t.preempt_count) →
      ∀ t : Kernel, Like t { t with sched := t.sched.write p f } := by
    intro f hf t
    refine ⟨rfl, rfl, rfl, rfl, ?_⟩
    intro q
    unfold Kernel.count Sched.write
    by_cases hq : q = p
    · subst hq
      simp [hf]
    · simp [hq]
  unfold installCode
  apply steady_access hcount fun _ => ⟨rfl, rfl, rfl, rfl, fun _ => rfl⟩
  apply steady_access hcount (hwrite (fun t => { t with pid := i }) fun _ => rfl)
  apply steady_printf hcount hroom
  apply steady_access hcount fun k =>
    hwrite (fun t => { t with priority := (k.sched.mem k.sched.current).priority })
      (fun _ => rfl) k
  apply steady_access hcount fun k =>
    hwrite (fun t => { t with counter := (k.sched.mem k.sched.current).priority }) (fun _ => rfl) k
  exact steady_access hcount (fun _ => ⟨rfl, rfl, rfl, rfl, fun _ => rfl⟩) hrest

/-- What `add_task` does behind its first access, with the preemption off. -/
theorem steady_slots (hrest : Steady strings (enabled rest) k) :
    Steady strings (searchCode (fun i => installCode strings p i (enabled rest))
      (printfCode (said strings "System limit of tasks exceeded \n" []) (enabled rest))
      ((List.finRange NR_TASKS).drop 1)) k := by
  apply steady_search hcount
  · intro i
    exact steady_install hcount hroom i hrest
  · exact steady_printf hcount hroom _ hrest

end Steady

/-- The counts are as before behind the `preempt_enable` that belongs to the last
`preempt_disable`. -/
theorem steady_enabled (hcount : 0 < k.preempt_disable.count k.preempt_disable.sched.current)
    (hrest : Steady strings rest k) : Steady strings (enabled rest) k.preempt_disable := by
  intro t ht
  have hroom : k.count k.sched.current + 1 ≠ 0 := by
    rw [count_disable, disable_current, if_pos rfl] at hcount
    exact (BitVec.pos_iff_ne_zero _).mp hcount
  refine guarded_act ?_ rfl (hrest _ (ht.enable hroom))
  rw [ht.current, ht.count]
  exact hcount

/-! ## Every call is a section -/

section Discipline

variable (h : Inv k) (hnone : k.leaving = none)
include h hnone

theorem Inv.count_disabled : k.preempt_disable.count k.sched.current = 1 := by
  rw [count_disable, if_pos rfl, h.balanced.running hnone, zero_add]

theorem Inv.printf_section (text : CString) :
    (calls strings).Section (printfCode text .done) k := by
  have hheld : 0 < k.preempt_disable.count k.preempt_disable.sched.current := by
    rw [disable_current, h.count_disabled hnone]
    decide
  exact ⟨rfl, guarded_puts (tick_quiet hheld) (guarded_act hheld rfl trivial)⟩

theorem Inv.add_section (p : Addr) : (calls strings).Section (addCode strings p .done) k := by
  have hone : k.preempt_disable.count k.preempt_disable.sched.current = 1 := by
    rw [disable_current, h.count_disabled hnone]
  have hdone : Steady strings (enabled .done) k.preempt_disable :=
    steady_enabled (by rw [hone]; decide) fun _ _ => trivial
  exact ⟨rfl, steady_slots (by rw [hone]; decide) (by rw [hone]; decide) hdone _ (Like.refl _)⟩

theorem Inv.count_filled (hp : p ≠ k.sched.current) :
    (k.preempt_disable.fill p).count k.sched.current = 1 := by
  rw [count_fill, if_neg hp.symm, h.count_disabled hnone]

theorem Inv.create_section (hp : p ≠ k.sched.current) :
    (calls strings).Section (createCode strings p) k := by
  have hone : k.preempt_disable.count k.preempt_disable.sched.current = 1 := by
    rw [disable_current, h.count_disabled hnone]
  have hfilled : (k.preempt_disable.fill p).count (k.preempt_disable.fill p).sched.current = 1 := by
    rw [fill_current, disable_current, h.count_filled hnone hp]
  have htwo : (k.preempt_disable.fill p).preempt_disable.count
      (k.preempt_disable.fill p).preempt_disable.sched.current = 2 := by
    rw [count_disable, disable_current, if_pos rfl, hfilled]
    rfl
  -- Behind `add_task` the count is 1 again.
  have hlast : Steady strings (printfCode (createText strings p) (enabled .done))
      (k.preempt_disable.fill p) := by
    apply steady_printf
    · rw [hfilled]
      decide
    · rw [hfilled]
      decide
    · intro t ht
      refine guarded_act ?_ rfl trivial
      rw [ht.current, ht.count, hfilled]
      decide
  refine ⟨rfl, guarded_act (by rw [hone]; decide) rfl (guarded_act ?_ rfl ?_)⟩
  · show 0 < (({ k.preempt_disable with
        sched := k.preempt_disable.sched.write p fun t => { t with state := .Ready }
        started := Function.update k.started p false } : Kernel).count k.sched.current)
    unfold Kernel.count Sched.write
    dsimp only
    rw [Function.update_of_ne hp.symm]
    have hcount : (k.preempt_disable.sched.mem k.sched.current).preempt_count = 1 :=
      h.count_disabled hnone
    rw [hcount]
    decide
  · have hfill := fill_eq k.preempt_disable p
    show (calls strings).Guarded (addCode strings p _) { k.preempt_disable with
      sched := (k.preempt_disable.sched.write p fun t => { t with state := .Ready }).write p
        fun t => { t with preempt_count := 0 }
      started := Function.update k.preempt_disable.started p false }
    rw [← hfill]
    refine guarded_act (by rw [hfilled]; decide) rfl ?_
    exact steady_slots (by rw [htwo]; decide) (by rw [htwo]; decide)
      (steady_enabled (by rw [htwo]; decide) hlast) _ (Like.refl _)

end Discipline

/-- Writes to the table outside of a switch that leave the records alone. -/
theorem Inv.outside (h : Inv k) {sched : Sched} (hs : k.outside sched = some t)
    (hcur : sched.current = k.sched.current) (hmem : sched.mem = k.sched.mem)
    (htable : ∀ p, sched.InTable p → k.sched.InTable p) : Inv t := by
  unfold Kernel.outside at hs
  split at hs
  · next hnone =>
    cases hs
    have hcount : ∀ q, ({ k with sched } : Kernel).count q = k.count q := by
      intro q
      unfold Kernel.count
      rw [hmem]
    exact h.of_like ⟨hcur, rfl, rfl, rfl, hcount⟩ (fun p hp => .inl (htable p hp))
      fun hmid => absurd hnone hmid
  · cases hs

/-- No call that keeps the counts leaves them out of balance. -/
theorem Inv.call (h : Inv k) {a : Call} (ha : Call.Keeps k a) (hs : Call.step k a = some t) :
    Inv t := by
  cases a with
  | printf text => exact h.step (a := .printf) trivial hs
  | add pTask => exact h.step (a := (.add pTask)) ha hs
  | create frames => exact h.step (a := (.create frames)) ha hs
  | putc c => exact h.outside hs rfl rfl fun _ hp => hp
  | schedule ticks => exact h.step (a := (.schedule ticks)) trivial hs
  | tick ticks => exact h.step (a := (.tick ticks)) ha hs
  | switch => exact h.step (a := .switch) trivial hs
  | mark p state wake_ticks => exact h.step (a := (.mark p state wake_ticks)) trivial hs
  | unlink i =>
    refine h.outside hs rfl rfl ?_
    rintro p ⟨j, hj⟩
    dsimp only at hj
    by_cases hji : j = i
    · simp [hji] at hj
    · rw [Function.update_of_ne hji] at hj
      exact ⟨j, hj⟩
  | shorten => exact h.outside hs rfl rfl fun _ hp => hp
  | delete p => exact h.outside hs rfl rfl fun _ hp => hp
  | reuse p r => exact h.step (a := (.reuse p r)) trivial hs

/-- A call that takes more than one access is one of code that runs outside of a switch. -/
theorem outside_of_code {a : Call} {c : KernelCode} (hc : Call.code strings a = some c)
    (hs : Call.step k a = some t) : k.leaving = none := by
  by_contra hmid
  cases a with
  | printf text | add pTask | create frames =>
    simp only [Call.step, preemption.step, if_neg hmid] at hs
    cases hs
  | putc ch =>
    simp only [Call.step, Kernel.outside, if_neg hmid] at hs
    cases hs
  | _ => cases hc

theorem calls_disciplined (strings : Strings) :
    (calls strings).Disciplined Inv Call.Keeps where
  interrupt a ha := by
    cases a with
    | tick ticks => rfl
    | _ => cases ha
  silent k a ha := by
    cases a with
    | printf | putc => cases ha
    | add pTask => cases pTask <;> cases ha
    | create frames => cases frames <;> cases ha
    | _ => rfl
  guarded k a c t h hok hc hs := by
    have hnone := outside_of_code hc hs
    cases a with
    | printf text =>
      cases hc
      exact h.printf_section hnone text
    | add pTask =>
      obtain ⟨p, rfl, -⟩ := hok hnone
      cases hc
      exact h.add_section hnone p
    | create frames =>
      obtain ⟨p, rfl, hp⟩ := hok hnone
      cases hc
      exact h.create_section hnone hp
    | putc c =>
      cases hc
      trivial
    | _ => cases hc
  finish k a c t h hok hc hs := by
    have hroom := h.room
    have hnone := outside_of_code hc hs
    have hact : ∀ op, preemption.step k op = preemption.act k op := fun op => if_pos hnone
    cases a with
    | printf text =>
      cases hc
      have hfinish : (printfCode text .done).finish k = _ := finish_printf text hroom
      have ht : t = k.printf := Option.some.inj (hs.symm.trans (hact .printf))
      rw [hfinish, ht, printf_eq hroom]
      exact ⟨rfl, (List.append_nil text).symm⟩
    | add pTask =>
      obtain ⟨p, rfl, -⟩ := hok hnone
      cases hc
      have hmore : k.count k.sched.current + 1 + 1 ≠ 0 := by
        rw [h.balanced.running hnone]
        decide
      have hfinish : (addCode strings p .done).finish k = _ := finish_add hmore
      have ht : t = (k.add_task (some p)).1 :=
        Option.some.inj (hs.symm.trans (hact (.add (some p))))
      rw [hfinish, ht]
      exact ⟨rfl, (List.append_nil _).symm⟩
    | create frames =>
      obtain ⟨p, rfl, hp⟩ := hok hnone
      cases hc
      have hfinish : (createCode strings p).finish k = _ :=
        finish_create (h.count_filled hnone hp)
      have ht : t = (k.create_task (some p)).1 :=
        Option.some.inj (hs.symm.trans (hact (.create (some p))))
      rw [hfinish, ht]
      exact ⟨rfl, rfl⟩
    | putc ch =>
      cases hc
      have ht : t = k := Option.some.inj (hs.symm.trans (if_pos hnone))
      rw [ht]
      exact ⟨rfl, rfl⟩
    | _ => cases hc
  keeps k a t h hok hs := h.call hok hs

/-- Whatever ticks come between the accesses of the functions and between the characters on
the UART, the calls come to what they do one after the other as whole calls, where each text
is put out at once, and the UART has been given the front part of it. Only ticks are lost.
The condition is that of the counts: `create_task` gets its frames, `add_task` a task with
the count that is due, and no tick in the middle of a switch to a new task finds another
one. -/
theorem the_calls_run_as_whole (strings : Strings) (init_task : Addr) (mem : Addr → Task)
    (acts : List (Act Call)) {m : Machine Kernel Addr (BitVec 8)}
    (hok : Allowed (calls strings).fine (okAct Call.Keeps)
      (Machine.idle (initial init_task mem)) acts)
    (hrun : exec (calls strings).fine (Machine.idle (initial init_task mem)) acts = some m) :
    ∃ as k out, as.Sublist (started acts) ∧
      as.filter (fun a => !a.isTick) = (started acts).filter (fun a => !a.isTick) ∧
      exec (calls strings).coarse (initial init_task mem, []) as = some (k, out) ∧
      (calls strings).Comes Inv m (k, out) ∧ m.out <+: out := by
  obtain ⟨as, ⟨k, out⟩, hsub, hcalls, -, hwhole, hcomes⟩ :=
    fine_runs (calls_disciplined strings) (comes_idle (inv_initial init_task mem)) hok hrun
  exact ⟨as, k, out, hsub, hcalls, hwhole, hcomes, _, hcomes.out⟩

/-- The tick between the two characters of a text finds the preemption off, and the one behind
the text finds no other task. -/
theorem a_tick_between_two_characters :
    ∃ m : Machine Kernel Addr (BitVec 8), m.out = cstr "ab" ∧
      ∃ as k out, as.Sublist [.printf (cstr "ab"), .tick [5], .tick [5]] ∧
        as.filter (fun a => !a.isTick) = [.printf (cstr "ab")] ∧
        exec (calls fun _ => []).coarse (initial 9 fun _ => INIT_TASK, []) as = some (k, out) ∧
        (calls fun _ => []).Comes Inv m (k, out) ∧ m.out <+: out :=
  ⟨_, rfl, the_calls_run_as_whole (fun _ => []) 9 (fun _ => INIT_TASK)
    [.start (.printf (cstr "ab")), .advance, .start (.tick [5]), .advance, .advance,
      .start (.tick [5])]
    ⟨trivial, trivial, fun hmid => absurd rfl hmid, trivial, trivial,
      fun hmid => absurd rfl hmid, trivial⟩ rfl⟩

end rpi_wifi.preemption
