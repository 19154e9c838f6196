-- The tables of interrupt handlers and their clearers. They have 72 entries each, and the
-- check of a number tells three banks apart but not the numbers behind the last one. As
-- long as the numbers are in the tables, the latest registration of each is what runs.
import RpiWifi.BitFields

namespace rpi_wifi.interrupts

universe u
variable {F : Type u}

def NUM_IRQS : Nat := 72

def IRQ_IS_BASIC (x : Nat) : Bool := 64 ≤ x

def IRQ_IS_GPU2 (x : Nat) : Bool := 32 ≤ x && x < 64

def IRQ_IS_GPU1 (x : Nat) : Bool := x < 32

/-! ## The tables -/

/-- The tables of function pointers, with what lies behind their 72 entries, and the interrupts
that the controller has enabled. -/
@[ext]
structure Irqs (F : Type u) where
  handlers : Nat → Option F
  clearers : Nat → Option F
  Enable_Basic_IRQs : BitVec 32
  Enable_IRQs_1 : BitVec 32
  Enable_IRQs_2 : BitVec 32

/-- What a call does to the tables, and what it prints. -/
inductive Event where
  | handlers (i : Nat)
  | clearers (i : Nat)
  | printf (text : String) (irq_num : Nat)
  deriving DecidableEq

def interrupts_init : Irqs F := ⟨fun _ => none, fun _ => none, 0, 0, 0⟩

/-- The two writes of a call, at the same index of both tables. -/
def Irqs.write (s : Irqs F) (irq_num : Nat) (handler clearer : Option F) : Irqs F :=
  { s with
    handlers := Function.update s.handlers irq_num handler
    clearers := Function.update s.clearers irq_num clearer }

def written (irq_num : Nat) : List Event := [.handlers irq_num, .clearers irq_num]

def register_irq_handler (s : Irqs F) (irq_num : Nat) (handler clearer : Option F) :
    Irqs F × List Event :=
  if IRQ_IS_BASIC irq_num then
    let irq_pos := irq_num - 64
    ({ s.write irq_num handler clearer with
       Enable_Basic_IRQs := s.Enable_Basic_IRQs ||| 1#32 <<< irq_pos }, written irq_num)
  else if IRQ_IS_GPU2 irq_num then
    ({ s.write irq_num handler clearer with
       Enable_IRQs_2 := s.Enable_IRQs_2 ||| 1#32 <<< (irq_num &&& (32 - 1)) }, written irq_num)
  else if IRQ_IS_GPU1 irq_num then
    let irq_pos := irq_num
    ({ s.write irq_num handler clearer with
       Enable_IRQs_1 := s.Enable_IRQs_1 ||| 1#32 <<< irq_pos }, written irq_num)
  else (s, [.printf "ERROR: CANNOT REGISTER IRQ HANDLER: INVALID IRQ NUMBER: %d" irq_num])

/-- `unregister_irq_handler`. Setting the disable bit clears the enabled bit. -/
def unregister_irq_handler (s : Irqs F) (irq_num : Nat) : Irqs F × List Event :=
  if IRQ_IS_BASIC irq_num then
    let irq_pos := irq_num - 64
    ({ s.write irq_num none none with
       Enable_Basic_IRQs := s.Enable_Basic_IRQs &&& ~~~(1#32 <<< irq_pos) }, written irq_num)
  else if IRQ_IS_GPU2 irq_num then
    let irq_pos := irq_num - 32
    ({ s.write irq_num none none with
       Enable_IRQs_2 := s.Enable_IRQs_2 &&& ~~~(1#32 <<< irq_pos) }, written irq_num)
  else if IRQ_IS_GPU1 irq_num then
    let irq_pos := irq_num
    ({ s.write irq_num none none with
       Enable_IRQs_1 := s.Enable_IRQs_1 &&& ~~~(1#32 <<< irq_pos) }, written irq_num)
  else (s, [.printf "ERROR: CANNOT UNREGISTER IRQ HANDLER: INVALID IRQ NUMBER: %d" irq_num])

/-! ## The handler of the processor -/

/-- The pending registers of the controller. -/
structure Pending where
  IRQ_basic_pending : BitVec 32
  IRQ_pending_1 : BitVec 32
  IRQ_pending_2 : BitVec 32

def IRQ_IS_PENDING (regs : Pending) (num : Nat) : Bool :=
  (IRQ_IS_BASIC num && 1#32 <<< (num - 64) &&& regs.IRQ_basic_pending != 0) ||
    (IRQ_IS_GPU2 num && 1#32 <<< (num - 32) &&& regs.IRQ_pending_2 != 0) ||
    (IRQ_IS_GPU1 num && 1#32 <<< num &&& regs.IRQ_pending_1 != 0)

/-- The loop of `irq_handler` with `left` numbers to go, from `j` on. The registers are read
for each number anew. -/
def irqLoop (s : Irqs F) (regs : Nat → Pending) : Nat → Nat → List (Option F)
  | 0, _ => []
  | left + 1, j =>
    if IRQ_IS_PENDING (regs j) j && (s.handlers j).isSome then [s.clearers j, s.handlers j]
    else irqLoop s regs left (j + 1)

/-- `irq_handler`: the function pointers that it calls, in order. -/
def irq_handler (s : Irqs F) (regs : Nat → Pending) : List (Option F) := irqLoop s regs NUM_IRQS 0

/-! ## Runs of calls -/

inductive Call (F : Type u) where
  | register (irq_num : Nat) (handler clearer : Option F)
  | unregister (irq_num : Nat)

namespace Call

def irq_num : Call F → Nat
  | register n _ _ => n
  | unregister n => n

/-- What the call puts into the two tables. -/
def entry : Call F → Option (Option F × Option F)
  | register _ handler clearer => some (handler, clearer)
  | unregister _ => none

end Call

def Irqs.step (s : Irqs F) : Call F → Irqs F × List Event
  | .register n handler clearer => register_irq_handler s n handler clearer
  | .unregister n => unregister_irq_handler s n

def run (calls : List (Call F)) : Irqs F := calls.foldl (fun s c => (s.step c).1) interrupts_init

/-- What the latest registration of a number gave, unless the number was unregistered since. -/
def latest (n : Nat) (calls : List (Call F)) : Option (Option F × Option F) :=
  calls.foldl (fun given c => if c.irq_num = n then c.entry else given) none

def Registered (n : Nat) (calls : List (Call F)) : Prop := ∃ h c, latest n calls = some (some h, c)

/-- The bit of a number in the pending registers. -/
def pendingBit (regs : Pending) (n : Nat) : Bool :=
  if 64 ≤ n then regs.IRQ_basic_pending.getLsbD (n - 64)
  else if 32 ≤ n then regs.IRQ_pending_2.getLsbD (n - 32)
  else regs.IRQ_pending_1.getLsbD n

/-- A call stays in the tables, and refuses a number that is none of theirs. -/
structure CallSafe (s : Irqs F) (c : Call F) : Prop where
  inside : ∀ i, Event.handlers i ∈ (s.step c).2 ∨ Event.clearers i ∈ (s.step c).2 → i < NUM_IRQS
  refused : NUM_IRQS ≤ c.irq_num →
    (s.step c).1 = s ∧ ∃ text, (s.step c).2 = [.printf text c.irq_num]

/-- `irq_handler` runs the pair of the lowest pending number that has a handler. -/
structure RunsLatest (s : Irqs F) (calls : List (Call F)) : Prop where
  found : ∀ (regs : Nat → Pending) n h c, n < NUM_IRQS → pendingBit (regs n) n = true →
    latest n calls = some (some h, c) →
    (∀ m < n, pendingBit (regs m) m = true → ¬ Registered m calls) →
      irq_handler s regs = [c, some h]
  nothing : ∀ (regs : Nat → Pending),
    (∀ m < NUM_IRQS, pendingBit (regs m) m = true → ¬ Registered m calls) →
      irq_handler s regs = []

/-- Every call of the run is safe, and in every state it reaches `irq_handler` runs what was
registered last. -/
structure Integrity (calls : List (Call F)) : Prop where
  safe : ∀ before c after, calls = before ++ c :: after → CallSafe (run before) c
  handled : ∀ before after, calls = before ++ after → RunsLatest (run before) before

/-! ## One call -/

@[simp] theorem write_handlers (s : Irqs F) (n : Nat) (h c : Option F) :
    (s.write n h c).handlers = Function.update s.handlers n h := rfl

@[simp] theorem write_clearers (s : Irqs F) (n : Nat) (h c : Option F) :
    (s.write n h c).clearers = Function.update s.clearers n c := rfl

theorem bank_cases (n : Nat) :
    IRQ_IS_BASIC n = true ∨ IRQ_IS_GPU2 n = true ∨ IRQ_IS_GPU1 n = true := by
  simp only [IRQ_IS_BASIC, IRQ_IS_GPU2, IRQ_IS_GPU1, decide_eq_true_eq, Bool.and_eq_true]
  omega

/-- Each call writes its number in both tables, whatever the number is. -/
theorem step_cases (s : Irqs F) (c : Call F) :
    (s.step c).1.handlers = Function.update s.handlers c.irq_num (c.entry.bind Prod.fst) ∧
      (s.step c).1.clearers = Function.update s.clearers c.irq_num (c.entry.bind Prod.snd) ∧
        (s.step c).2 = written c.irq_num := by
  cases c with
  | register n h c =>
    simp only [Irqs.step, Call.irq_num, Call.entry, Option.bind_some, register_irq_handler]
    rcases bank_cases n with hb | hb | hb <;> split_ifs <;> simp_all
  | unregister n =>
    simp only [Irqs.step, Call.irq_num, Call.entry, Option.bind_none, unregister_irq_handler]
    rcases bank_cases n with hb | hb | hb <;> split_ifs <;> simp_all

theorem callSafe_iff (s : Irqs F) (c : Call F) : CallSafe s c ↔ c.irq_num < NUM_IRQS := by
  obtain ⟨-, -, hevents⟩ := step_cases s c
  constructor
  · intro h
    refine h.inside c.irq_num (Or.inl ?_)
    simp [hevents, written]
  · intro h
    refine ⟨?_, fun hle => absurd h (Nat.not_lt.mpr hle)⟩
    intro i hi
    obtain rfl : i = c.irq_num := by simpa [hevents, written] using hi
    exact h

/-! ## The state after the calls -/

theorem run_append (calls : List (Call F)) (c : Call F) :
    run (calls ++ [c]) = ((run calls).step c).1 := by
  simp [run]

theorem latest_append (n : Nat) (calls : List (Call F)) (c : Call F) :
    latest n (calls ++ [c]) = if c.irq_num = n then c.entry else latest n calls := by
  simp [latest]

/-- The two tables hold the pairs that were registered last. -/
theorem tables_eq (calls : List (Call F)) (n : Nat) :
    (run calls).handlers n = (latest n calls).bind Prod.fst ∧
      (run calls).clearers n = (latest n calls).bind Prod.snd := by
  induction calls using List.reverseRecOn with
  | nil => exact ⟨rfl, rfl⟩
  | append_singleton calls c ih =>
    obtain ⟨hhandlers, hclearers, -⟩ := step_cases (run calls) c
    rw [run_append, latest_append, hhandlers, hclearers]
    by_cases hn : c.irq_num = n
    · subst hn
      simp
    · rw [Function.update_of_ne (Ne.symm hn), Function.update_of_ne (Ne.symm hn), if_neg hn]
      exact ih

theorem isSome_iff (calls : List (Call F)) (n : Nat) :
    ((run calls).handlers n).isSome = true ↔ Registered n calls := by
  rw [(tables_eq calls n).1, Option.isSome_iff_exists]
  constructor
  · rintro ⟨h, hbind⟩
    obtain ⟨⟨h', c⟩, hlatest, heq⟩ := Option.bind_eq_some_iff.mp hbind
    dsimp only at heq
    subst heq
    exact ⟨h, c, hlatest⟩
  · rintro ⟨h, c, hlatest⟩
    exact ⟨h, by simp [hlatest]⟩

/-! ## The search of a pending number -/

theorem bit_ne_zero (x : BitVec 32) {k : Nat} (hk : k < 32) :
    (1#32 <<< k &&& x != 0#32) = x.getLsbD k := by
  have hone : 1#32 <<< k = BitVec.twoPow 32 k := (BitVec.twoPow_eq 32 k).symm
  have hne : BitVec.twoPow 32 k ≠ 0#32 := by
    intro h
    have hbit := congrArg (fun v => BitVec.getLsbD v k) h
    simp [hk] at hbit
  rw [hone, BitVec.and_comm, BitVec.and_twoPow]
  cases x.getLsbD k
  · simp
  · simpa using hne

theorem IRQ_IS_PENDING_eq (regs : Pending) {n : Nat} (h : n < NUM_IRQS) :
    IRQ_IS_PENDING regs n = pendingBit regs n := by
  unfold NUM_IRQS at h
  unfold IRQ_IS_PENDING pendingBit IRQ_IS_BASIC IRQ_IS_GPU2 IRQ_IS_GPU1
  split_ifs with h64 h32
  · have hnot : ¬ n < 64 ∧ ¬ n < 32 := by omega
    simp [h64, hnot, bit_ne_zero regs.IRQ_basic_pending (show n - 64 < 32 by omega)]
  · have hbank : n < 64 ∧ ¬ n < 32 := by omega
    simp [h64, h32, hbank, bit_ne_zero regs.IRQ_pending_2 (show n - 32 < 32 by omega)]
  · have hbank : n < 32 := by omega
    simp [h64, h32, hbank, bit_ne_zero regs.IRQ_pending_1 hbank]

theorem irqLoop_found {s : Irqs F} {regs : Nat → Pending} {left j n : Nat} (hj : j ≤ n)
    (hn : n < j + left) (hhit : (IRQ_IS_PENDING (regs n) n && (s.handlers n).isSome) = true)
    (hmin : ∀ m, j ≤ m → m < n → (IRQ_IS_PENDING (regs m) m && (s.handlers m).isSome) = false) :
    irqLoop s regs left j = [s.clearers n, s.handlers n] := by
  induction left generalizing j with
  | zero => omega
  | succ left ih =>
    unfold irqLoop
    rcases Nat.eq_or_lt_of_le hj with rfl | hlt
    · rw [if_pos hhit]
    · rw [if_neg (ne_true_of_eq_false (hmin j le_rfl hlt))]
      exact ih hlt (by omega) fun m hm => hmin m (by omega)

theorem irqLoop_nothing {s : Irqs F} {regs : Nat → Pending} {left j : Nat}
    (h : ∀ m, j ≤ m → m < j + left →
      (IRQ_IS_PENDING (regs m) m && (s.handlers m).isSome) = false) :
    irqLoop s regs left j = [] := by
  induction left generalizing j with
  | zero => rfl
  | succ left ih =>
    unfold irqLoop
    rw [if_neg (ne_true_of_eq_false (h j le_rfl (by omega)))]
    exact ih fun m hm hlt => h m (by omega) (by omega)

/-- In every state that calls reach, `irq_handler` runs what was registered last. -/
theorem runsLatest (calls : List (Call F)) : RunsLatest (run calls) calls := by
  have hmiss : ∀ (regs : Nat → Pending) m, m < NUM_IRQS →
      (pendingBit (regs m) m = true → ¬ Registered m calls) →
        (IRQ_IS_PENDING (regs m) m && ((run calls).handlers m).isSome) = false := by
    intro regs m hm hno
    rw [IRQ_IS_PENDING_eq _ hm, Bool.and_eq_false_imp]
    intro hpending
    exact eq_false_of_ne_true (mt (isSome_iff calls m).mp (hno hpending))
  constructor
  · intro regs n h c hn hpending hlatest hmin
    obtain ⟨hhandler, hclearer⟩ := tables_eq calls n
    have hhit : (IRQ_IS_PENDING (regs n) n && ((run calls).handlers n).isSome) = true := by
      rw [IRQ_IS_PENDING_eq _ hn, hpending, (isSome_iff calls n).mpr ⟨h, c, hlatest⟩]
      rfl
    unfold irq_handler
    rw [irqLoop_found (Nat.zero_le n) (by omega) hhit fun m _ hm =>
      hmiss regs m (by omega) (hmin m hm), hhandler, hclearer, hlatest]
    rfl
  · intro regs hnone
    exact irqLoop_nothing fun m _ hm => hmiss regs m (by omega) (hnone m (by omega))

/-- The tables are sound in a run exactly when each of its numbers has an entry in them. -/
theorem the_tables_are_sound_iff (calls : List (Call F)) :
    Integrity calls ↔ ∀ c ∈ calls, c.irq_num < NUM_IRQS := by
  constructor
  · intro h c hc
    obtain ⟨before, after, hsplit⟩ := List.append_of_mem hc
    exact (callSafe_iff _ c).mp (h.safe before c after hsplit)
  · intro h
    refine ⟨?_, fun before _ _ => runsLatest before⟩
    rintro before c after rfl
    exact (callSafe_iff _ c).mpr (h c (by simp))

/-! ## The channels of the DMA controller -/

def ARM_IRQ1_BASE : Nat := 0

def ARM_IRQ0_BASE : Nat := 64

/-- `dma_ints` of `dma.c`. -/
def dma_ints : List Nat :=
  [ARM_IRQ1_BASE + 16, ARM_IRQ1_BASE + 17, ARM_IRQ0_BASE + 13, ARM_IRQ0_BASE + 14,
    ARM_IRQ1_BASE + 20, ARM_IRQ1_BASE + 21, ARM_IRQ1_BASE + 22, ARM_IRQ1_BASE + 23,
    ARM_IRQ1_BASE + 24, ARM_IRQ1_BASE + 25, ARM_IRQ1_BASE + 26, ARM_IRQ1_BASE + 27,
    ARM_IRQ1_BASE + 28]

/-- The registration that `init_channel` makes of the channel 2. -/
theorem the_channel_2_writes_behind_the_tables :
    ¬ ∀ calls : List (Call Unit), Integrity calls := by
  intro h
  have hsafe := (h [.register (dma_ints.getD 2 0) (some ()) (some ())]).safe [] _ [] rfl
  exact absurd ((callSafe_iff _ _).mp hsafe) (by decide)

end rpi_wifi.interrupts
