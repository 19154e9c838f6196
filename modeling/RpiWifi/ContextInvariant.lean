-- What is kept of the tasks in every run: the records and the stacks of those that wait, and
-- under the running one what its interrupts have put on its stack.
import RpiWifi.Contexts

namespace rpi_wifi.contexts

open arm memory runs

variable {ι : Type} {vector irq_handler : Word}
variable {m m' : Machine ι} {x : Area} {mem mem' : Mem} {es : List Entry} {w : Waiting}

theorem has_taskArea {p : Word} {a : Nat} (h : (taskArea p).has a) :
    p.toNat ≤ a ∧ a < p.toNat + 10 * THREAD_SIZE := by
  rcases h with ⟨hlow, hhigh⟩ | ⟨hlow, hhigh⟩
  all_goals
    simp only [taskArea, contextWords, sizeof_task_struct, THREAD_SIZE] at hlow hhigh ⊢
    omega

theorem taskArea_ok {p : Word} (haligned : p.toNat % 4 = 0)
    (hword : p.toNat + 10 * THREAD_SIZE ≤ 2 ^ 32) : (taskArea p).Ok := by
  simp only [THREAD_SIZE] at hword
  refine ⟨⟨haligned, ?_⟩, ?_, ?_, ?_⟩
  · simp only [taskArea, contextWords]
    omega
  · simp only [taskArea, THREAD_SIZE]
    omega
  · simp only [taskArea, sizeof_task_struct, THREAD_SIZE]
    omega
  · rintro a ⟨-, hhigh⟩ ⟨hlow, -⟩
    simp only [taskArea, contextWords, sizeof_task_struct] at hlow hhigh
    omega

/-! ## What is kept of the tasks -/

/-- The stack pointer of a task that waits. -/
def Waiting.sp (w : Waiting) : Word := w.context.getD 10 0

/-- What a task that waits has left is there. -/
structure Parked (x : Area) (es : List Entry) (w : Waiting) (mem : Mem) : Prop where
  context : readWords mem x.record.toNat contextWords = w.context
  stack : ∀ a, w.sp.toNat ≤ a → a < x.top → mem a = w.mem a
  aligned : w.sp.toNat % 4 = 0
  bottom : x.bottom ≤ w.sp.toNat
  limit : w.sp.toNat ≤ limit x es

/-- What an interrupt has put on the stack is there, with what was on the stack above. -/
structure Entry.Kept (e : Entry) (x : Area) (irq_handler : Word) (above : Nat) (mem : Mem) :
    Prop where
  entered : Entered e.before e.call irq_handler
  mode : e.before.mode = .svc
  aligned : (e.before.get .sp).toNat % 4 = 0
  bottom : x.bottom + 40 ≤ (e.before.get .sp).toNat
  above : (e.before.get .sp).toNat ≤ above
  frame : readWords mem ((e.before.get .sp).toNat - 32) 8 = frameWords e.before
  pad : word mem (e.call.get .sp).toNat = padding e.before
  stack : ∀ a, (e.before.get .sp).toNat ≤ a → a < x.top → mem a = e.before.mem a

/-- The interrupts of a task are nested. -/
def Nested (x : Area) (irq_handler : Word) (mem : Mem) : List Entry → Prop
  | [] => True
  | e :: es => e.Kept x irq_handler (limit x es) mem ∧ Nested x irq_handler mem es

theorem Parked.congr (h : Parked x es w mem) (hm : ∀ a, x.has a → mem' a = mem a) :
    Parked x es w mem' where
  context := by
    rw [← h.context]
    exact readWords_congr fun a hlow hhigh => hm a (.inl ⟨hlow, hhigh⟩)
  stack := by
    intro a hlow hhigh
    rw [hm a (.inr ⟨h.bottom.trans hlow, hhigh⟩)]
    exact h.stack a hlow hhigh
  aligned := h.aligned
  bottom := h.bottom
  limit := h.limit

theorem Entry.Kept.call_le {e : Entry} {above : Nat} (h : e.Kept x irq_handler above mem) :
    (e.call.get .sp).toNat + 36 ≤ (e.before.get .sp).toNat := by
  have hsp := h.entered.sp
  omega

theorem Entry.Kept.congr {e : Entry} {above : Nat} (h : e.Kept x irq_handler above mem)
    (htop : above ≤ x.top) (hm : ∀ a, (e.call.get .sp).toNat ≤ a → a < x.top → mem' a = mem a) :
    e.Kept x irq_handler above mem' where
  entered := h.entered
  mode := h.mode
  aligned := h.aligned
  bottom := h.bottom
  above := h.above
  frame := by
    have hcall := h.call_le
    have habove := h.above
    rw [← h.frame]
    exact readWords_congr fun a hlow hhigh => hm a (by omega) (by omega)
  pad := by
    have hcall := h.call_le
    have habove := h.above
    rw [← h.pad]
    apply congrArg (BitVec.ofNat 32)
    apply read32_congr
    intro i hi
    exact hm _ (by omega) (by omega)
  stack := by
    intro a hlow hhigh
    have hcall := h.call_le
    rw [hm a (by omega) hhigh]
    exact h.stack a hlow hhigh

theorem Nested.limit_le (h : Nested x irq_handler mem es) : limit x es ≤ x.top := by
  induction es with
  | nil => exact le_rfl
  | cons e es ih =>
    have hcall := h.1.call_le
    have habove := h.1.above
    have hrest := ih h.2
    have hlimit : limit x (e :: es) = (e.call.get .sp).toNat := rfl
    omega

theorem Nested.congr (h : Nested x irq_handler mem es)
    (hm : ∀ a, limit x es ≤ a → a < x.top → mem' a = mem a) : Nested x irq_handler mem' es := by
  induction es with
  | nil => trivial
  | cons e es ih =>
    obtain ⟨hkept, hrest⟩ := h
    refine ⟨hkept.congr hrest.limit_le hm, ih hrest ?_⟩
    intro a hlow hhigh
    have hcall := hkept.call_le
    have habove := hkept.above
    have hlimit : limit x (e :: es) = (e.call.get .sp).toNat := rfl
    exact hm a (by omega) hhigh

/-- The invariant of the machine. -/
structure Inv (irq_handler : Word) (m : Machine ι) : Prop where
  areas : ∀ j, m.live j → (m.area j).Ok
  apart : ∀ i j, m.live i → m.live j → i ≠ j → ∀ a, (m.area i).has a → ¬ (m.area j).has a
  running : m.waiting m.current = none
  mode : m.cpu.mode = .svc
  aligned : (m.cpu.get .sp).toNat % 4 = 0
  bottom : (m.area m.current).bottom ≤ (m.cpu.get .sp).toNat
  limit : (m.cpu.get .sp).toNat ≤ limit (m.area m.current) (m.inside m.current)
  parked : ∀ j w, m.waiting j = some w → Parked (m.area j) (m.inside j) w m.cpu.mem
  nested : ∀ j, Nested (m.area j) irq_handler m.cpu.mem (m.inside j)
  fresh : ∀ j, m.waiting j = none → j ≠ m.current → m.inside j = []
  chosen : ∀ j, m.chosen = some j → m.waiting j ≠ none

theorem inv_start {init : ι} {x : Area} {cpu : Cpu} (h : Starts x cpu) :
    Inv irq_handler (.start init x cpu) where
  areas := fun _ _ => h.area
  apart := by
    rintro i j (rfl | hi) (rfl | hj) hij
    · exact absurd rfl hij
    · exact absurd rfl hj
    · exact absurd rfl hi
    · exact absurd rfl hi
  running := rfl
  mode := h.mode
  aligned := h.aligned
  bottom := h.bottom
  limit := h.top
  parked := nofun
  nested := fun _ => trivial
  fresh := fun _ _ _ => rfl
  chosen := nofun

/-- Where nothing is written but in what belongs to the code that runs, the other tasks
stay. -/
theorem Inv.others (hinv : Inv irq_handler m)
    (hm : ∀ j, m.waiting j ≠ none → ∀ a, (m.area j).has a → mem' a = m.cpu.mem a) :
    (∀ j w, m.waiting j = some w → Parked (m.area j) (m.inside j) w mem') ∧
      ∀ j, j ≠ m.current → Nested (m.area j) irq_handler mem' (m.inside j) := by
  have hsome : ∀ {j w}, m.waiting j = some w → m.waiting j ≠ none := by
    intro j w hw hnone
    rw [hw] at hnone
    cases hnone
  refine ⟨fun j w hw => (hinv.parked j w hw).congr (hm j (hsome hw)), ?_⟩
  intro j hj
  rcases hw : m.waiting j with _ | w
  · rw [hinv.fresh j hw hj]
    trivial
  · have hparked := hinv.parked j w hw
    apply (hinv.nested j).congr
    intro a hlow hhigh
    exact hm j (hsome hw) a (.inr ⟨hparked.bottom.trans (hparked.limit.trans hlow), hhigh⟩)

theorem Inv.work {t : Cpu} (hinv : Inv irq_handler m) (hworks : Works m t) :
    Inv irq_handler { m with cpu := t } := by
  obtain ⟨hparked, hnested⟩ := hinv.others hworks.others
  refine ⟨hinv.areas, hinv.apart, hinv.running, hworks.mode, hworks.aligned, hworks.bottom,
    hworks.limit, hparked, ?_, hinv.fresh, hinv.chosen⟩
  intro j
  by_cases hj : j = m.current
  · subst hj
    exact (hinv.nested m.current).congr hworks.stack
  · exact hnested j hj

/-- The memory of the areas of the other tasks, when a stretch of one of the running task
is written. -/
theorem apart_running (hinv : Inv irq_handler m)
    (hm : ∀ a, ¬ (m.area m.current).has a → mem' a = m.cpu.mem a) :
    ∀ j, m.waiting j ≠ none → ∀ a, (m.area j).has a → mem' a = m.cpu.mem a := by
  intro j hj a ha
  have hne : j ≠ m.current := by
    rintro rfl
    exact hj hinv.running
  exact hm a (hinv.apart j m.current (.inr hj) (.inl rfl) hne a ha)

/-- The record of the running task is no part of its stack, nor of the other areas. -/
theorem saved_mem (hinv : Inv irq_handler m) {ws : List Word} (hlen : ws.length = contextWords) :
    (∀ j, m.waiting j ≠ none → ∀ a, (m.area j).has a →
      writeWords m.cpu.mem (m.area m.current).record.toNat ws a = m.cpu.mem a) ∧
    ∀ a, (m.area m.current).inStack a →
      writeWords m.cpu.mem (m.area m.current).record.toNat ws a = m.cpu.mem a := by
  have hout : ∀ a, ¬ (m.area m.current).inContext a →
      writeWords m.cpu.mem (m.area m.current).record.toNat ws a = m.cpu.mem a := by
    intro a ha
    apply writeWords_of_out
    rw [hlen]
    by_contra hin
    exact ha ⟨by omega, by omega⟩
  constructor
  · exact apart_running hinv fun a ha => hout a fun hin => ha (.inl hin)
  · intro a ha
    exact hout a fun hin => (hinv.areas m.current (.inl rfl)).own a hin ha

variable [DecidableEq ι]

theorem Inv.interrupt (hinv : Inv irq_handler m)
    (hroom : (m.area m.current).bottom + 40 ≤ (m.cpu.get .sp).toNat)
    (hs : m.step vector irq_handler .interrupt = some m') : Inv irq_handler m' := by
  obtain ⟨-, heq⟩ := Option.ite_none_left_eq_some.mp hs
  obtain ⟨t, ht, rfl⟩ := Option.map_eq_some_iff.mp heq
  obtain ⟨u, hu, hentered⟩ :=
    enter_spec vector irq_handler hinv.mode hinv.aligned ((Nat.le_add_left _ _).trans hroom)
  obtain rfl : u = t := Option.some.inj (hu.symm.trans ht)
  have htop := (hinv.nested m.current).limit_le
  have hlimit := hinv.limit
  have hsp := hentered.sp
  have hout : ∀ a, ¬ (m.area m.current).has a → u.mem a = m.cpu.mem a := by
    intro a ha
    apply hentered.outside
    by_contra hin
    exact ha (.inr ⟨by omega, by omega⟩)
  obtain ⟨hparked, hnested⟩ := hinv.others (apart_running hinv hout)
  have hkept : Entry.Kept ⟨m.cpu, u⟩ (m.area m.current) irq_handler
      (contexts.limit (m.area m.current) (m.inside m.current)) u.mem := {
    entered := hentered
    mode := hinv.mode
    aligned := hinv.aligned
    bottom := hroom
    above := hlimit
    frame := hentered.frame
    pad := hentered.pad
    stack := fun a hlow _ => hentered.outside a (.inr hlow) }
  have hold : Nested (m.area m.current) irq_handler u.mem (m.inside m.current) :=
    (hinv.nested m.current).congr fun a hlow _ => hentered.outside a (.inr (hlimit.trans hlow))
  have hmod := hentered.sp_mod hinv.aligned ((Nat.le_add_left _ _).trans hroom)
  obtain ⟨hpad, -⟩ := padding_cases m.cpu (by omega)
  have haligned : (u.get .sp).toNat % 4 = 0 := by omega
  have hbottom : (m.area m.current).bottom ≤ (u.get .sp).toNat := by omega
  refine ⟨hinv.areas, hinv.apart, hinv.running, hentered.mode, haligned, hbottom, ?_, ?_, ?_, ?_,
    hinv.chosen⟩
  · dsimp only
    rw [Function.update_self]
    exact le_rfl
  · intro j w hw
    have hne : j ≠ m.current := by
      rintro rfl
      rw [hinv.running] at hw
      cases hw
    dsimp only
    rw [Function.update_of_ne hne]
    exact hparked j w hw
  · intro j
    dsimp only
    by_cases hj : j = m.current
    · subst hj
      rw [Function.update_self]
      exact ⟨hkept, hold⟩
    · rw [Function.update_of_ne hj]
      exact hnested j hj
  · intro j hw hj
    dsimp only
    rw [Function.update_of_ne hj]
    exact hinv.fresh j hw hj

theorem Inv.leave (vector : Word) (hinv : Inv irq_handler m) (hreturns : Returns m) {e : Entry}
    (hin : m.inside m.current = e :: es) :
    ∃ t, m.step vector irq_handler .leave =
        some { m with cpu := t, inside := Function.update m.inside m.current es } ∧
      Left e.before m.cpu t ∧
      Inv irq_handler { m with cpu := t, inside := Function.update m.inside m.current es } := by
  have hnested := hinv.nested m.current
  rw [hin] at hnested
  obtain ⟨hkept, hrest⟩ := hnested
  have hsp : m.cpu.get .sp = e.call.get .sp := hreturns.sp e (by rw [hin]; rfl)
  have hframed : Framed e.before m.cpu := {
    frame := hkept.frame
    pad := by
      rw [hsp]
      exact hkept.pad
    sp := by
      rw [hsp]
      exact hkept.entered.sp
    mode := hinv.mode }
  obtain ⟨t, ht, hleft⟩ := leave_spec hframed hkept.mode hkept.aligned
  refine ⟨t, ?_, hleft, ?_⟩
  · unfold Machine.step
    simp only [hin, ht, Option.map_some]
  · have htmode : t.mode = .svc := by
      rw [Cpu.mode, hleft.cpsr]
      exact hkept.mode
    refine ⟨hinv.areas, hinv.apart, hinv.running, htmode, ?_, ?_, ?_, ?_, ?_, ?_, hinv.chosen⟩
    · rw [hleft.sp]
      exact hkept.aligned
    · rw [hleft.sp]
      exact (Nat.le_add_right _ _).trans hkept.bottom
    · dsimp only
      rw [hleft.sp, Function.update_self]
      exact hkept.above
    · intro j w hw
      have hne : j ≠ m.current := by
        rintro rfl
        rw [hinv.running] at hw
        cases hw
      dsimp only
      rw [Function.update_of_ne hne, hleft.mem]
      exact hinv.parked j w hw
    · intro j
      dsimp only
      rw [hleft.mem]
      by_cases hj : j = m.current
      · subst hj
        rw [Function.update_self]
        exact hrest
      · rw [Function.update_of_ne hj]
        exact hinv.nested j
    · intro j hw hj
      dsimp only
      rw [Function.update_of_ne hj]
      exact hinv.fresh j hw hj

/-! ## A task is switched to -/

/-- The processor of a task that is switched to, behind `before`. -/
structure Resumed (x : Area) (w : Waiting) (before t : Cpu) : Prop where
  regs : cpuRegs.map t.get = w.context.take 12
  doubles : List.ofFn t.s = w.context.drop 14
  pc : t.pc = t.get .lr
  stack : ∀ a, (t.get .sp).toNat ≤ a → a < x.top → t.mem a = w.mem a
  fpexc : t.fpexc = before.fpexc
  fpscr : t.fpscr = before.fpscr

theorem get_of_regs {t : Cpu} {i : Nat} (h : cpuRegs.map t.get = w.context.take 12)
    (hi : i < 12) :
    (cpuRegs.map t.get).getD i 0 = w.context.getD i 0 := by
  rw [h]
  simp only [List.getD_eq_getElem?_getD, List.getElem?_take_of_lt hi]

theorem readWords_parts {a : Nat} (h : readWords mem a contextWords = w.context) :
    readWords mem a 12 = w.context.take 12 ∧ readWords mem (a + 56) 32 = w.context.drop 14 := by
  constructor
  · rw [← h, contextWords, readWords_add (n := 12) (k := 34), List.take_left' readWords_length]
  · rw [← h, contextWords, readWords_add (n := 14) (k := 32), List.drop_left' readWords_length]

/-- The machine behind `task_switch`. -/
def Machine.switched (m : Machine ι) (t : Cpu) (next : ι) : Machine ι :=
  { m with
    cpu := t
    current := next
    chosen := none
    waiting := Function.update (Function.update m.waiting m.current
      (if m.dying then none
        else some ⟨cpuContext (calling m.cpu (m.area m.current).record (m.area next).record),
          m.cpu.mem⟩)) next none
    inside := if m.dying then Function.update m.inside m.current [] else m.inside
    dying := false }

/-- A task that waits behind the switch is the one that was left, unless it has given up its
frames, or one that waited before it. -/
theorem waiting_switched {t : Cpu} {next j : ι}
    (hj : (m.switched t next).waiting j = some w) :
    j ≠ next ∧ (m.waiting j = some w ∨ m.dying = false ∧ j = m.current ∧
      w = ⟨cpuContext (calling m.cpu (m.area m.current).record (m.area next).record),
        m.cpu.mem⟩) := by
  have hnext : j ≠ next := by
    rintro rfl
    dsimp only [Machine.switched] at hj
    rw [Function.update_self] at hj
    cases hj
  refine ⟨hnext, ?_⟩
  dsimp only [Machine.switched] at hj
  rw [Function.update_of_ne hnext] at hj
  by_cases hcurrent : j = m.current
  · right
    rw [hcurrent, Function.update_self] at hj
    by_cases hdying : m.dying = true
    · rw [if_pos hdying] at hj
      cases hj
    · rw [if_neg hdying] at hj
      exact ⟨by simpa using hdying, hcurrent, (Option.some.inj hj).symm⟩
  · left
    rwa [Function.update_of_ne hcurrent] at hj

/-- Only the task that has given up its frames loses its interrupts. -/
theorem inside_switched {t : Cpu} {next j : ι} (hj : j ≠ m.current ∨ m.dying = false) :
    (m.switched t next).inside j = m.inside j := by
  dsimp only [Machine.switched]
  split
  · next hdying =>
    rcases hj with hj | hj
    · exact Function.update_of_ne hj _ _
    · rw [hj] at hdying
      cases hdying
  · rfl

/-- No task comes to life in the switch. -/
theorem live_switched {t : Cpu} {next j : ι} (hnext : m.live next)
    (hj : (m.switched t next).live j) : m.live j := by
  obtain rfl | hj := hj
  · exact hnext
  · obtain ⟨w, hw⟩ := Option.ne_none_iff_exists'.mp hj
    rcases (waiting_switched hw).2 with hold | ⟨-, rfl, -⟩
    · exact .inr (by rw [hold]; simp)
    · exact .inl rfl

/-- A task without frames has no interrupts behind it. -/
theorem Inv.fresh_switched (hinv : Inv irq_handler m) {t : Cpu} {next j : ι} (hnext : j ≠ next)
    (hj : (m.switched t next).waiting j = none) : (m.switched t next).inside j = [] := by
  dsimp only [Machine.switched] at hj ⊢
  rw [Function.update_of_ne hnext] at hj
  by_cases hcurrent : j = m.current
  · rw [hcurrent, Function.update_self] at hj
    have hdying : m.dying = true := by
      by_contra hno
      rw [if_neg hno] at hj
      cases hj
    rw [if_pos hdying, hcurrent, Function.update_self]
  · rw [Function.update_of_ne hcurrent] at hj
    split
    · rw [Function.update_of_ne hcurrent]
      exact hinv.fresh j hj hcurrent
    · exact hinv.fresh j hj hcurrent

theorem Inv.task_switch (vector : Word) (hinv : Inv irq_handler m) {next : ι}
    (hchosen : m.chosen = some next) (hw : m.waiting next = some w) :
    ∃ t, m.step vector irq_handler .task_switch = some (m.switched t next) ∧
      Resumed (m.area next) w m.cpu t ∧ Inv irq_handler (m.switched t next) := by
  let c := calling m.cpu (m.area m.current).record (m.area next).record
  have hlive : m.live next := .inr (by rw [hw]; simp)
  have hne : next ≠ m.current := by
    rintro rfl
    rw [hinv.running] at hw
    cases hw
  have h0 : c.r 0 = (m.area m.current).record := by simp [c, calling]
  have h1 : c.r 1 = (m.area next).record := by simp [c, calling]
  obtain ⟨t, ht, hswitched⟩ : ∃ t, exec step c contexts.task_switch = some t ∧ Switched c t :=
    task_switch_spec (by rw [h0]; exact (hinv.areas _ (.inl rfl)).fits)
      (by rw [h1]; exact (hinv.areas next hlive).fits)
  have hmem : t.mem = writeWords m.cpu.mem (m.area m.current).record.toNat (cpuContext c) := by
    rw [hswitched.mem, h0]
    rfl
  obtain ⟨hothers, hstack⟩ := saved_mem hinv (cpuContext_length c)
  rw [← hmem] at hothers hstack
  obtain ⟨hparked, hnested⟩ := hinv.others hothers
  have hnext := hparked next w hw
  obtain ⟨htake, hdrop⟩ := readWords_parts hnext.context
  have hregs : cpuRegs.map t.get = w.context.take 12 := by
    rw [hswitched.regs, h1, htake]
  have htsp : t.get .sp = w.sp := get_of_regs hregs (show 10 < 12 by decide)
  refine ⟨t, ?_, ?_, ?_⟩
  · unfold Machine.step
    simp only [hchosen]
    rw [ht]
    rfl
  · exact {
      regs := hregs
      doubles := by rw [hswitched.doubles, h1, hdrop]
      pc := hswitched.pc
      stack := by
        rw [htsp]
        exact hnext.stack
      fpexc := hswitched.fpexc
      fpscr := hswitched.fpscr }
  · have hinside : (m.switched t next).inside next = m.inside next := inside_switched (.inl hne)
    refine ⟨fun j hj => hinv.areas j (live_switched hlive hj),
      fun i j hi hj hij => hinv.apart i j (live_switched hlive hi) (live_switched hlive hj) hij,
      ?_, ?_, ?_, ?_, ?_, ?_, ?_, fun j hj hjnext => hinv.fresh_switched hjnext hj, ?_⟩
    · exact Function.update_self next _ _
    · have hcpsr : t.cpsr = m.cpu.cpsr := hswitched.cpsr
      exact (congrArg modeOf hcpsr).trans hinv.mode
    · have haligned := hnext.aligned
      rwa [← htsp] at haligned
    · have hbottom := hnext.bottom
      rwa [← htsp] at hbottom
    · have hlimit := hnext.limit
      rw [← htsp, ← hinside] at hlimit
      exact hlimit
    · intro j w' hj
      rcases (waiting_switched hj).2 with hold | ⟨hdying, rfl, rfl⟩
      · have hj' : j ≠ m.current := by
          rintro rfl
          rw [hinv.running] at hold
          cases hold
        have hkept : (m.switched t next).inside j = m.inside j := inside_switched (.inl hj')
        rw [hkept]
        exact hparked j w' hold
      · have hkept : (m.switched t next).inside m.current = m.inside m.current :=
          inside_switched (.inr hdying)
        rw [hkept]
        refine ⟨?_, ?_, hinv.aligned, hinv.bottom, hinv.limit⟩
        · have hcontext : readWords t.mem (m.area m.current).record.toNat contextWords =
              cpuContext c := by
            rw [hmem, ← cpuContext_length c, readWords_writeWords]
          exact hcontext
        · intro a hlow hhigh
          exact hstack a ⟨hinv.bottom.trans hlow, hhigh⟩
    · intro j
      by_cases hj : j = m.current
      · by_cases hdying : m.dying = true
        · have hnone : (m.switched t next).inside j = [] := by
            dsimp only [Machine.switched]
            rw [if_pos hdying, hj, Function.update_self]
          rw [hnone]
          trivial
        · have hkept : (m.switched t next).inside j = m.inside j :=
            inside_switched (.inr (by simpa using hdying))
          rw [hkept, hj]
          apply (hinv.nested m.current).congr
          intro a hlow hhigh
          exact hstack a ⟨hinv.bottom.trans (hinv.limit.trans hlow), hhigh⟩
      · have hkept : (m.switched t next).inside j = m.inside j := inside_switched (.inl hj)
        rw [hkept]
        exact hnested j hj
    · intro j hj
      cases hj

/-! ## A task is made -/

theorem create_context_of_out {p arg fn : Word} {top a : Nat}
    (h : a < p.toNat ∨ p.toNat + 4 * contextWords ≤ a) :
    create_context mem p fn arg top a = mem a := by
  unfold contextWords at h
  unfold create_context
  rw [writeWords_of_out (by simp; omega), writeWords_of_out (by simp; omega)]

theorem create_context_words {p arg fn : Word} {top : Nat} :
    word (create_context mem p fn arg top) p.toNat = arg ∧
      word (create_context mem p fn arg top) (p.toNat + 40) = BitVec.ofNat 32 top ∧
      word (create_context mem p fn arg top) (p.toNat + 44) = fn := by
  have hfirst : readWords (create_context mem p fn arg top) p.toNat 1 = [arg] := by
    unfold create_context
    rw [readWords_writeWords_of_apart (by simp)]
    exact readWords_writeWords
  have hread : readWords (create_context mem p fn arg top) (p.toNat + 40) 2 =
      [BitVec.ofNat 32 top, fn] := readWords_writeWords
  rw [readWords_succ] at hfirst hread
  rw [readWords_succ] at hread
  exact ⟨(List.cons.inj hfirst).1, (List.cons.inj hread).1,
    (List.cons.inj (List.cons.inj hread).2).1⟩

/-- A word of a record. -/
theorem readWords_getD {a i : Nat} (hi : i < contextWords) :
    (readWords mem a contextWords).getD i 0 = word mem (a + 4 * i) := by
  rw [List.getD_eq_getElem _ _ (by rw [readWords_length]; exact hi), readWords_getElem]

/-- The memory behind `create_task`, and what waits in it. -/
def created (mem : Mem) (p fn arg : Word) : Waiting :=
  let mem := create_context mem p fn arg (taskArea p).top
  ⟨readWords mem p.toNat contextWords, mem⟩

theorem created_sp {p fn arg : Word} (hp : (taskArea p).top < 2 ^ 32) :
    (created mem p fn arg).sp.toNat = (taskArea p).top := by
  have hsp : (created mem p fn arg).sp = BitVec.ofNat 32 (taskArea p).top :=
    (readWords_getD (by decide)).trans create_context_words.2.1
  rw [hsp, BitVec.toNat_ofNat, Nat.mod_eq_of_lt hp]

theorem create_task_eq {j : ι} {p fn arg : Word}
    (hs : m.step vector irq_handler (.create_task j p fn arg) = some m') :
    j ≠ m.current ∧ m.waiting j = none ∧ m' = { m with
      cpu := { m.cpu with mem := (created m.cpu.mem p fn arg).mem }
      area := Function.update m.area j (taskArea p)
      waiting := Function.update m.waiting j (some (created m.cpu.mem p fn arg)) } := by
  obtain ⟨hnew, heq⟩ := Option.ite_none_left_eq_some.mp hs
  push Not at hnew
  exact ⟨hnew.1, hnew.2, (Option.some.inj heq).symm⟩

theorem Inv.create_task (hinv : Inv irq_handler m) {j : ι} {p fn arg : Word}
    (hok : Allocates m p) (hs : m.step vector irq_handler (.create_task j p fn arg) = some m') :
    Inv irq_handler m' := by
  obtain ⟨hj, hwait, rfl⟩ := create_task_eq hs
  have hp : (taskArea p).Ok := taskArea_ok hok.aligned hok.word
  have hempty : m.inside j = [] := hinv.fresh j hwait hj
  have hold : ∀ {k}, m.live k → k ≠ j := by
    rintro k (rfl | hk) rfl
    · exact hj rfl
    · exact hk hwait
  have harea : ∀ {k}, k ≠ j → Function.update m.area j (taskArea p) k = m.area k :=
    fun hk => Function.update_of_ne hk _ _
  have hout : ∀ {k}, m.live k → ∀ a, (m.area k).has a → ¬ (taskArea p).has a := by
    intro k hk a ha hin
    have hbound := has_taskArea hin
    have hapart := hok.apart k hk a ha
    omega
  have hmem : ∀ {k}, m.live k → ∀ a, (m.area k).has a →
      (created m.cpu.mem p fn arg).mem a = m.cpu.mem a := by
    intro k hk a ha
    have hnot : ¬ (taskArea p).inContext a := fun hin => hout hk a ha (.inl hin)
    apply create_context_of_out
    by_contra hin
    exact hnot ⟨by simp only [taskArea]; omega, by simp only [taskArea]; omega⟩
  have hlive : ∀ k, k = m.current ∨ Function.update m.waiting j
      (some (created m.cpu.mem p fn arg)) k ≠ none → k = j ∨ m.live k := by
    rintro k (rfl | hk)
    · exact .inr (.inl rfl)
    · by_cases hkj : k = j
      · exact .inl hkj
      · rw [Function.update_of_ne hkj] at hk
        exact .inr (.inr hk)
  obtain ⟨hparked, hnested⟩ := hinv.others fun k hk => hmem (.inr hk)
  refine ⟨?_, ?_, ?_, hinv.mode, hinv.aligned, ?_, ?_, ?_, ?_, ?_, ?_⟩
  · intro k hk
    dsimp only
    rcases hlive k hk with rfl | hk'
    · rw [Function.update_self]
      exact hp
    · rw [harea (hold hk')]
      exact hinv.areas k hk'
  · intro k l hk hl hkl a hak hal
    dsimp only at hak hal
    rcases hlive k hk with hkj | hk'
    · rcases hlive l hl with hlj | hl'
      · exact hkl (hkj.trans hlj.symm)
      · rw [hkj, Function.update_self] at hak
        rw [harea (hold hl')] at hal
        exact hout hl' a hal hak
    · rw [harea (hold hk')] at hak
      rcases hlive l hl with hlj | hl'
      · rw [hlj, Function.update_self] at hal
        exact hout hk' a hak hal
      · rw [harea (hold hl')] at hal
        exact hinv.apart k l hk' hl' hkl a hak hal
  · dsimp only
    rw [Function.update_of_ne (Ne.symm hj)]
    exact hinv.running
  · dsimp only
    rw [harea (Ne.symm hj)]
    exact hinv.bottom
  · dsimp only
    rw [harea (Ne.symm hj)]
    exact hinv.limit
  · intro k w hk
    dsimp only at hk ⊢
    by_cases hkj : k = j
    · rw [hkj, Function.update_self] at hk
      cases hk
      rw [hkj, Function.update_self, hempty]
      have hsp : (created m.cpu.mem p fn arg).sp.toNat = (taskArea p).top := created_sp hp.top.1
      refine ⟨rfl, fun _ _ _ => rfl, ?_, ?_, ?_⟩
      · rw [hsp]
        exact hp.top.2
      · rw [hsp]
        exact hp.bottom
      · rw [hsp]
        exact le_rfl
    · rw [Function.update_of_ne hkj] at hk
      rw [harea hkj]
      exact hparked k w hk
  · intro k
    dsimp only
    by_cases hkj : k = j
    · rw [hkj, hempty]
      trivial
    · rw [harea hkj]
      by_cases hk : k = m.current
      · subst hk
        apply (hinv.nested m.current).congr
        intro a hlow hhigh
        exact hmem (.inl rfl) a (.inr ⟨hinv.bottom.trans (hinv.limit.trans hlow), hhigh⟩)
      · exact hnested k hk
  · intro k hk hkcurrent
    dsimp only at hk
    by_cases hkj : k = j
    · rw [hkj]
      exact hempty
    · rw [Function.update_of_ne hkj] at hk
      exact hinv.fresh k hk hkcurrent
  · intro k hk
    have hwaits := hinv.chosen k hk
    have hkj : k ≠ j := by
      rintro rfl
      exact hwaits hwait
    dsimp only
    rwa [Function.update_of_ne hkj]

/-! ## Runs -/

theorem switch_to_eq {next : ι} (hs : m.step vector irq_handler (.switch_to next) = some m') :
    m.waiting next ≠ none ∧ m' = { m with chosen := some next } := by
  obtain ⟨hwaits, heq⟩ := Option.ite_none_left_eq_some.mp hs
  exact ⟨hwaits, (Option.some.inj heq).symm⟩

theorem remove_task_eq (hs : m.step vector irq_handler .remove_task = some m') :
    m' = m ∨ m' = { m with dying := true } := by
  by_cases hinit : m.current = m.init
  · left
    exact (Option.some.inj ((if_pos hinit).symm.trans hs)).symm
  · right
    exact (Option.some.inj ((if_neg hinit).symm.trans hs)).symm

theorem Inv.step (hinv : Inv irq_handler m) {a : Step ι} (hok : Fair m a)
    (hs : m.step vector irq_handler a = some m') : Inv irq_handler m' := by
  cases a with
  | work t =>
    cases hs
    exact hinv.work hok
  | interrupt => exact hinv.interrupt hok hs
  | leave =>
    rcases hin : m.inside m.current with _ | ⟨e, es⟩
    · unfold Machine.step at hs
      simp only [hin] at hs
      cases hs
    · obtain ⟨t, ht, -, hleft⟩ := hinv.leave vector hok hin
      obtain rfl := Option.some.inj (ht.symm.trans hs)
      exact hleft
  | switch_to next =>
    obtain ⟨hwaits, rfl⟩ := switch_to_eq hs
    refine ⟨hinv.areas, hinv.apart, hinv.running, hinv.mode, hinv.aligned, hinv.bottom,
      hinv.limit, hinv.parked, hinv.nested, hinv.fresh, ?_⟩
    rintro j ⟨⟩
    exact hwaits
  | task_switch =>
    rcases hchosen : m.chosen with _ | next
    · unfold Machine.step at hs
      simp only [hchosen] at hs
      cases hs
    · obtain ⟨w, hw⟩ := Option.ne_none_iff_exists'.mp (hinv.chosen next hchosen)
      obtain ⟨t, ht, -, hswitched⟩ := hinv.task_switch vector hchosen hw
      obtain rfl := Option.some.inj (ht.symm.trans hs)
      exact hswitched
  | create_task j p fn arg => exact hinv.create_task hok hs
  | remove_task =>
    rcases remove_task_eq hs with rfl | rfl
    · exact hinv
    · exact ⟨hinv.areas, hinv.apart, hinv.running, hinv.mode, hinv.aligned, hinv.bottom,
        hinv.limit, hinv.parked, hinv.nested, hinv.fresh, hinv.chosen⟩

/-- What a task has left stays there until it is switched to. -/
theorem waiting_step (hinv : Inv irq_handler m) {i : ι} (hw : m.waiting i = some w) {a : Step ι}
    (hne : a = .task_switch → m.chosen ≠ some i) (hs : m.step vector irq_handler a = some m') :
    m'.waiting i = some w ∧ m'.inside i = m.inside i ∧ m'.area i = m.area i := by
  have hcurrent : i ≠ m.current := by
    rintro rfl
    rw [hinv.running] at hw
    cases hw
  cases a with
  | work t =>
    cases hs
    exact ⟨hw, rfl, rfl⟩
  | remove_task => rcases remove_task_eq hs with rfl | rfl <;> exact ⟨hw, rfl, rfl⟩
  | interrupt =>
    obtain ⟨-, heq⟩ := Option.ite_none_left_eq_some.mp hs
    obtain ⟨t, -, rfl⟩ := Option.map_eq_some_iff.mp heq
    exact ⟨hw, Function.update_of_ne hcurrent _ _, rfl⟩
  | leave =>
    unfold Machine.step at hs
    rcases hin : m.inside m.current with _ | ⟨e, es⟩
    · simp only [hin] at hs
      cases hs
    · simp only [hin] at hs
      obtain ⟨t, -, rfl⟩ := Option.map_eq_some_iff.mp hs
      exact ⟨hw, Function.update_of_ne hcurrent _ _, rfl⟩
  | switch_to next =>
    obtain ⟨-, rfl⟩ := switch_to_eq hs
    exact ⟨hw, rfl, rfl⟩
  | task_switch =>
    unfold Machine.step at hs
    rcases hchosen : m.chosen with _ | next
    · simp only [hchosen] at hs
      cases hs
    · simp only [hchosen] at hs
      obtain ⟨t, -, rfl⟩ := Option.map_eq_some_iff.mp hs
      have hnext : i ≠ next := by
        rintro rfl
        exact hne rfl hchosen
      refine ⟨?_, inside_switched (.inl hcurrent), rfl⟩
      dsimp only
      rw [Function.update_of_ne hnext, Function.update_of_ne hcurrent]
      exact hw
  | create_task j p fn arg =>
    obtain ⟨hj, hwait, rfl⟩ := create_task_eq hs
    have hij : i ≠ j := by
      rintro rfl
      rw [hwait] at hw
      cases hw
    refine ⟨?_, rfl, Function.update_of_ne hij _ _⟩
    dsimp only
    rw [Function.update_of_ne hij]
    exact hw

theorem waiting_run (hinv : Inv irq_handler m) {i : ι} (hw : m.waiting i = some w)
    {acts : List (Step ι)}
    (hok : Allowed (Machine.step vector irq_handler)
      (fun s a => Fair s a ∧ (a = .task_switch → s.chosen ≠ some i)) m acts)
    (hrun : exec (Machine.step vector irq_handler) m acts = some m') :
    Inv irq_handler m' ∧ m'.waiting i = some w ∧ m'.inside i = m.inside i ∧
      m'.area i = m.area i := by
  apply exec_inv (fun s => Inv irq_handler s ∧ s.waiting i = some w ∧ s.inside i = m.inside i ∧
    s.area i = m.area i) _ ⟨hinv, hw, rfl, rfl⟩ hok hrun
  rintro s a t ⟨hs, hwait, hinside, harea⟩ ⟨hfair, hne⟩ hstep
  obtain ⟨hwait', hinside', harea'⟩ := waiting_step hs hwait hne hstep
  exact ⟨hs.step hfair hstep, hwait', hinside'.trans hinside, harea'.trans harea⟩

theorem inv_run {init : ι} {x : Area} {cpu : Cpu} (hstart : Starts x cpu) {acts : List (Step ι)}
    (hok : Allowed (Machine.step vector irq_handler) Fair (.start init x cpu) acts)
    (hrun : exec (Machine.step vector irq_handler) (.start init x cpu) acts = some m) :
    Inv irq_handler m :=
  exec_inv (Inv irq_handler) (fun _ _ _ h hok hs => h.step hok hs) (inv_start hstart) hok hrun

end rpi_wifi.contexts
