-- A part of the ARM instruction set, in the two modes of a kernel that takes interrupts:
-- the instructions that move several registers, those of the floating point unit and those
-- that enter and leave an exception. An access that is not aligned has no result.
import RpiWifi.Memory
import RpiWifi.Runs

namespace arm

open memory runs

abbrev Word := BitVec 32

/-! ## Words in the memory -/

def word (m : Mem) (a : Nat) : Word := BitVec.ofNat 32 (read32 m a)

/-- `n` words from `a` on. -/
def readWords (m : Mem) (a n : Nat) : List Word := (List.range n).map fun i => word m (a + 4 * i)

def writeWords (m : Mem) (a : Nat) : List Word → Mem
  | [] => m
  | w :: ws => writeWords (write32 m a w.toNat) (a + 4) ws

variable {m m' : Mem} {a b n : Nat} {ws : List Word}

@[simp]
theorem readWords_length : (readWords m a n).length = n := by
  simp [readWords]

theorem readWords_getElem {i : Nat} (h : i < (readWords m a n).length) :
    (readWords m a n)[i] = word m (a + 4 * i) := by
  simp [readWords]

theorem readWords_succ : readWords m a (n + 1) = word m a :: readWords m (a + 4) n := by
  simp only [readWords, List.range_succ_eq_map, List.map_cons, List.map_map, Nat.mul_zero,
    Nat.add_zero, List.cons.injEq, true_and]
  apply List.map_congr_left
  intro i _
  simp only [Function.comp_apply, Nat.succ_eq_add_one]
  congr 1
  omega

theorem readWords_add {k : Nat} :
    readWords m a (n + k) = readWords m a n ++ readWords m (a + 4 * n) k := by
  induction n generalizing a with
  | zero => simp [readWords]
  | succ n ih =>
    have hnext : a + 4 + 4 * n = a + 4 * (n + 1) := by omega
    rw [Nat.add_right_comm, readWords_succ, readWords_succ, ih, hnext, List.cons_append]

/-- Words depend on their bytes only. -/
theorem readWords_congr (h : ∀ b, a ≤ b → b < a + 4 * n → m' b = m b) :
    readWords m' a n = readWords m a n := by
  apply List.map_congr_left
  intro i hi
  have hlt : i < n := List.mem_range.mp hi
  apply congrArg (BitVec.ofNat 32)
  apply read32_congr
  intro j hj
  exact h _ (by omega) (by omega)

theorem writeWords_of_out (h : b < a ∨ a + 4 * ws.length ≤ b) : writeWords m a ws b = m b := by
  induction ws generalizing m a with
  | nil => rfl
  | cons w ws ih =>
    rw [List.length_cons] at h
    rw [writeWords, ih (by omega), write32_of_out (by omega)]

theorem writeWords_append {us : List Word} :
    writeWords m a (us ++ ws) = writeWords (writeWords m a us) (a + 4 * us.length) ws := by
  induction us generalizing m a with
  | nil => rfl
  | cons u us ih =>
    have hnext : a + 4 + 4 * us.length = a + 4 * (us.length + 1) := by omega
    rw [List.cons_append, writeWords, writeWords, ih, List.length_cons, hnext]

/-- Words that are written are read back. -/
theorem readWords_writeWords : readWords (writeWords m a ws) a ws.length = ws := by
  induction ws generalizing m a with
  | nil => rfl
  | cons w ws ih =>
    have hfirst : word (writeWords (write32 m a w.toNat) (a + 4) ws) a = w := by
      have hbytes : ∀ i < 4, writeWords (write32 m a w.toNat) (a + 4) ws (a + i) =
          write32 m a w.toNat (a + i) := by
        intro i hi
        exact writeWords_of_out (by omega)
      have hread : read32 (writeWords (write32 m a w.toNat) (a + 4) ws) a = w.toNat :=
        (read32_congr hbytes).trans (read32_write32 w.isLt)
      rw [word, hread, BitVec.ofNat_toNat, BitVec.setWidth_eq]
    rw [List.length_cons, readWords_succ, writeWords, hfirst, ih]

theorem word_writeWords {w : Word} : word (writeWords m a [w]) a = w := by
  have hread : readWords (writeWords m a [w]) a 1 = [w] := readWords_writeWords
  rw [readWords_succ] at hread
  exact (List.cons.inj hread).1

theorem readWords_writeWords_of_apart (h : b + 4 * n ≤ a ∨ a + 4 * ws.length ≤ b) :
    readWords (writeWords m a ws) b n = readWords m b n :=
  readWords_congr fun _ _ _ => writeWords_of_out (by omega)

/-! ## The processor -/

inductive Mode where
  | svc
  | irq
  deriving DecidableEq

def Mode.bits : Mode → Word
  | .svc => 0x13
  | .irq => 0x12

/-- The mode that a status word names. -/
def modeOf (psr : Word) : Mode := if psr.setWidth 5 = (0x12 : BitVec 5) then .irq else .svc

def withMode (psr : Word) (mode : Mode) : Word := psr &&& ~~~0x1F ||| mode.bits

def IRQ_INHIBIT : Word := 0x80

def FIQ_INHIBIT : Word := 0x40

@[simp]
theorem modeOf_withMode (psr : Word) (mode : Mode) : modeOf (withMode psr mode) = mode := by
  have hlow : (withMode psr mode).setWidth 5 = mode.bits.setWidth 5 := by
    have hmask : (~~~0x1F : Word).setWidth 5 = 0#5 := by decide
    rw [withMode, BitVec.setWidth_or, BitVec.setWidth_and, hmask, BitVec.and_zero, BitVec.zero_or]
  unfold modeOf
  rw [hlow]
  cases mode <;> decide

/-- The interrupt bits do not belong to the mode. -/
@[simp]
theorem modeOf_inhibit (psr : Word) {x : Word} (h : x.setWidth 5 = 0#5) :
    modeOf (psr ||| x) = modeOf psr := by
  unfold modeOf
  rw [BitVec.setWidth_or, h, BitVec.or_zero]

scoped instance registers_nonempty : NeZero 13 := ⟨by decide⟩

inductive Reg where
  | r (i : Fin 13)
  | sp
  | lr
  deriving DecidableEq

/-- The registers, with those of the two modes, the status words and the floating point
registers as single words, and the memory. -/
structure Cpu where
  r : Fin 13 → Word
  sp : Mode → Word
  lr : Mode → Word
  pc : Word
  cpsr : Word
  spsr : Word
  fpexc : Word
  fpscr : Word
  s : Fin 32 → Word
  mem : Mem

def Cpu.mode (c : Cpu) : Mode := modeOf c.cpsr

def Cpu.get (c : Cpu) : Reg → Word
  | .r i => c.r i
  | .sp => c.sp c.mode
  | .lr => c.lr c.mode

def Cpu.set (c : Cpu) (w : Word) : Reg → Cpu
  | .r i => { c with r := Function.update c.r i w }
  | .sp => { c with sp := Function.update c.sp c.mode w }
  | .lr => { c with lr := Function.update c.lr c.mode w }

/-- The registers get the words in order. -/
def Cpu.setAll (c : Cpu) : List Reg → List Word → Cpu
  | reg :: regs, w :: ws => (c.set w reg).setAll regs ws
  | _, _ => c

inductive Instr where
  /-- with write-back -/
  | stmia (base : Reg) (regs : List Reg)
  | ldmia (base : Reg) (regs : List Reg)
  | push (regs : List Reg)
  | pop (regs : List Reg)
  | sub_imm (rd rn : Reg) (imm : Word)
  | and_imm (rd rn : Reg) (imm : Word)
  | sub (rd rn rm : Reg)
  | add (rd rn rm : Reg)
  | fmrx_fpexc (rt : Reg)
  | fmrx_fpscr (rt : Reg)
  | fmxr_fpexc (rt : Reg)
  | fmxr_fpscr (rt : Reg)
  /-- `d0` to `d15`, without write-back -/
  | fstmiad (base : Reg)
  | fldmiad (base : Reg)
  | bx (rm : Reg)
  | bl (target : Word)
  /-- with write-back, on the stack of the mode -/
  | srsdb (mode : Mode)
  | cpsid_if (mode : Mode)
  | rfeia_sp

/-- Whether `n` words can be moved at `a`. -/
def Fits (a : Word) (n : Nat) : Prop := a.toNat % 4 = 0 ∧ a.toNat + 4 * n ≤ 2 ^ 32

instance (a : Word) (n : Nat) : Decidable (Fits a n) := inferInstanceAs (Decidable (_ ∧ _))

def Cpu.store (c : Cpu) (a : Word) (ws : List Word) : Option Cpu :=
  if Fits a ws.length then some { c with mem := writeWords c.mem a.toNat ws } else none

def Cpu.load (c : Cpu) (a : Word) (n : Nat) : Option (List Word) :=
  if Fits a n then some (readWords c.mem a.toNat n) else none

/-- What an instruction does, where `pc` is behind it. -/
def effect (c : Cpu) : Instr → Option Cpu
  | .stmia base regs =>
    -- A base in the list has to be its lowest register.
    if base ∈ regs.tail then none
    else (c.store (c.get base) (regs.map c.get)).map fun t =>
      t.set (c.get base + BitVec.ofNat 32 (4 * regs.length)) base
  | .ldmia base regs =>
    if base ∈ regs then none
    else (c.load (c.get base) regs.length).map fun ws =>
      (c.set (c.get base + BitVec.ofNat 32 (4 * regs.length)) base).setAll regs ws
  | .push regs =>
    let a := c.get .sp - BitVec.ofNat 32 (4 * regs.length)
    (c.store a (regs.map c.get)).map fun t => t.set a .sp
  | .pop regs =>
    (c.load (c.get .sp) regs.length).map fun ws =>
      (c.set (c.get .sp + BitVec.ofNat 32 (4 * regs.length)) .sp).setAll regs ws
  | .sub_imm rd rn imm => some (c.set (c.get rn - imm) rd)
  | .and_imm rd rn imm => some (c.set (c.get rn &&& imm) rd)
  | .sub rd rn rm => some (c.set (c.get rn - c.get rm) rd)
  | .add rd rn rm => some (c.set (c.get rn + c.get rm) rd)
  | .fmrx_fpexc rt => some (c.set c.fpexc rt)
  | .fmrx_fpscr rt => some (c.set c.fpscr rt)
  | .fmxr_fpexc rt => some { c with fpexc := c.get rt }
  | .fmxr_fpscr rt => some { c with fpscr := c.get rt }
  | .fstmiad base => c.store (c.get base) (List.ofFn c.s)
  | .fldmiad base =>
    (c.load (c.get base) 32).map fun ws => { c with s := fun i => ws.getD i 0 }
  | .bx rm => some { c with pc := c.get rm }
  | .bl target => some { c.set c.pc .lr with pc := target }
  | .srsdb mode =>
    let a := c.sp mode - 8
    (c.store a [c.get .lr, c.spsr]).map fun t => { t with sp := Function.update t.sp mode a }
  | .cpsid_if mode =>
    some { c with cpsr := withMode c.cpsr mode ||| (IRQ_INHIBIT ||| FIQ_INHIBIT) }
  | .rfeia_sp =>
    (c.load (c.get .sp) 2).map fun ws =>
      { c.set (c.get .sp + 8) .sp with pc := ws.getD 0 0, cpsr := ws.getD 1 0 }

def step (c : Cpu) (i : Instr) : Option Cpu := effect { c with pc := c.pc + 4 } i

/-- The processor takes an interrupt. -/
def interrupt (c : Cpu) (vector : Word) : Cpu :=
  { c with
    lr := Function.update c.lr .irq (c.pc + 4)
    spsr := c.cpsr
    cpsr := withMode c.cpsr .irq ||| IRQ_INHIBIT
    pc := vector }

/-! ## Registers that are set -/

section registers

variable {c : Cpu} {w : Word} {reg other : Reg} {regs : List Reg}

@[simp] theorem set_mem : (c.set w reg).mem = c.mem := by cases reg <;> rfl

@[simp] theorem set_cpsr : (c.set w reg).cpsr = c.cpsr := by cases reg <;> rfl

@[simp] theorem set_spsr : (c.set w reg).spsr = c.spsr := by cases reg <;> rfl

@[simp] theorem set_pc : (c.set w reg).pc = c.pc := by cases reg <;> rfl

@[simp] theorem set_fpexc : (c.set w reg).fpexc = c.fpexc := by cases reg <;> rfl

@[simp] theorem set_fpscr : (c.set w reg).fpscr = c.fpscr := by cases reg <;> rfl

@[simp] theorem set_s : (c.set w reg).s = c.s := by cases reg <;> rfl

@[simp] theorem set_mode : (c.set w reg).mode = c.mode := by simp [Cpu.mode]

@[simp] theorem get_pc {pc : Word} : ({ c with pc := pc } : Cpu).get reg = c.get reg := by
  cases reg <;> rfl

@[simp]
theorem get_set_self : (c.set w reg).get reg = w := by
  cases reg with
  | r i => exact Function.update_self i w c.r
  | sp => exact Function.update_self c.mode w c.sp
  | lr => exact Function.update_self c.mode w c.lr

theorem get_set_of_ne (h : other ≠ reg) : (c.set w reg).get other = c.get other := by
  cases reg with
  | r i =>
    cases other with
    | r j =>
      have hne : j ≠ i := fun heq => h (congrArg Reg.r heq)
      exact Function.update_of_ne hne w c.r
    | sp | lr => rfl
  | sp =>
    cases other with
    | sp => exact absurd rfl h
    | r j | lr => rfl
  | lr =>
    cases other with
    | lr => exact absurd rfl h
    | r j | sp => rfl

/-- Nothing but the registers of the list is set. -/
theorem setAll_induct {P : Cpu → Prop} (hset : ∀ d w, P d → ∀ reg ∈ regs, P (d.set w reg))
    (hc : P c) : P (c.setAll regs ws) := by
  induction regs generalizing c ws with
  | nil => exact hc
  | cons reg regs ih => cases ws with
    | nil => exact hc
    | cons w ws =>
      apply ih
      · intro d w hd other hother
        exact hset d w hd other (List.mem_cons_of_mem reg hother)
      · exact hset c w hc reg List.mem_cons_self

theorem get_setAll_of_notMem (h : other ∉ regs) : (c.setAll regs ws).get other = c.get other :=
  setAll_induct (P := fun d => d.get other = c.get other)
    (fun _ _ hd _ hreg => (get_set_of_ne (ne_of_mem_of_not_mem hreg h).symm).trans hd) rfl

/-- Words that are loaded are in the registers of the list. -/
theorem map_get_setAll (hlen : regs.length = ws.length) (hnodup : regs.Nodup) :
    regs.map (c.setAll regs ws).get = ws := by
  induction regs generalizing c ws with
  | nil => exact (List.length_eq_zero_iff.mp hlen.symm).symm
  | cons reg regs ih =>
    cases ws with
    | nil => cases hlen
    | cons w ws =>
      obtain ⟨hnot, hrest⟩ := List.nodup_cons.mp hnodup
      rw [List.map_cons, Cpu.setAll, get_setAll_of_notMem hnot, get_set_self,
        ih (Nat.succ.inj hlen) hrest]

end registers

/-! ## Addresses of words -/

theorem Fits.left {a : Word} {n k : Nat} (h : Fits a (n + k)) : Fits a n :=
  ⟨h.1, by have := h.2; omega⟩

/-- The words behind the first `n` of them. -/
theorem Fits.toNat_add {a : Word} {n k : Nat} (h : Fits a (n + (k + 1))) :
    (a + BitVec.ofNat 32 (4 * n)).toNat = a.toNat + 4 * n := by
  obtain ⟨-, hword⟩ := h
  rw [BitVec.toNat_add, BitVec.toNat_ofNat]
  omega

theorem Fits.right {a : Word} {n k : Nat} (h : Fits a (n + (k + 1))) :
    Fits (a + BitVec.ofNat 32 (4 * n)) (k + 1) := by
  have hnat := h.toNat_add
  obtain ⟨haligned, hword⟩ := h
  exact ⟨by omega, by omega⟩

/-! ## Instructions that move words -/

section instructions

variable {c : Cpu} {base : Reg} {regs : List Reg}

theorem step_stmia (hbase : base ∉ regs.tail) (h : Fits (c.get base) regs.length) :
    step c (.stmia base regs) = some ({ c with
      pc := c.pc + 4
      mem := writeWords c.mem (c.get base).toNat (regs.map c.get) }.set
        (c.get base + BitVec.ofNat 32 (4 * regs.length)) base) := by
  have hlen : Fits (c.get base) (regs.map c.get).length := by rwa [List.length_map]
  exact (if_neg hbase).trans (congrArg (Option.map _) (if_pos hlen))

/-- What a load of several registers does: the list has its words, the base is behind them,
and the rest is as it was. -/
structure Loaded (c t : Cpu) (base : Reg) (regs : List Reg) : Prop where
  loaded : regs.map t.get = readWords c.mem (c.get base).toNat regs.length
  behind : t.get base = c.get base + BitVec.ofNat 32 (4 * regs.length)
  others : ∀ reg, reg ∉ regs → reg ≠ base → t.get reg = c.get reg
  pc : t.pc = c.pc + 4
  mem : t.mem = c.mem
  cpsr : t.cpsr = c.cpsr
  fpexc : t.fpexc = c.fpexc
  fpscr : t.fpscr = c.fpscr
  s : t.s = c.s

theorem loaded_setAll (hbase : base ∉ regs) (hnodup : regs.Nodup) (w : Word)
    (hw : w = c.get base + BitVec.ofNat 32 (4 * regs.length)) :
    Loaded c (({ c with pc := c.pc + 4 }.set w base).setAll regs
      (readWords c.mem (c.get base).toNat regs.length)) base regs := by
  have hkeeps : ∀ {α : Type} (f : Cpu → α), (∀ d w reg, f (d.set w reg) = f d) →
      f (({ c with pc := c.pc + 4 }.set w base).setAll regs
        (readWords c.mem (c.get base).toNat regs.length)) = f { c with pc := c.pc + 4 } := by
    intro α f hf
    apply setAll_induct (P := fun d => f d = f { c with pc := c.pc + 4 })
    · intro d w hd reg _
      rw [hf, hd]
    · exact hf _ _ _
  exact {
    loaded := map_get_setAll readWords_length.symm hnodup
    behind := by rw [get_setAll_of_notMem hbase, get_set_self, hw]
    others := fun reg hnot hne => by
      rw [get_setAll_of_notMem hnot, get_set_of_ne hne, get_pc]
    pc := hkeeps Cpu.pc fun _ _ _ => set_pc
    mem := hkeeps Cpu.mem fun _ _ _ => set_mem
    cpsr := hkeeps Cpu.cpsr fun _ _ _ => set_cpsr
    fpexc := hkeeps Cpu.fpexc fun _ _ _ => set_fpexc
    fpscr := hkeeps Cpu.fpscr fun _ _ _ => set_fpscr
    s := hkeeps Cpu.s fun _ _ _ => set_s }

theorem ldmia_spec (hbase : base ∉ regs) (hnodup : regs.Nodup)
    (h : Fits (c.get base) regs.length) :
    ∃ t, step c (.ldmia base regs) = some t ∧ Loaded c t base regs :=
  have hget : ({ c with pc := c.pc + 4 } : Cpu).get base = c.get base := get_pc
  ⟨_, (if_neg hbase).trans (congrArg (Option.map _) (if_pos h)),
    loaded_setAll hbase hnodup _ (by rw [hget])⟩

theorem pop_spec (hsp : .sp ∉ regs) (hnodup : regs.Nodup) (h : Fits (c.get .sp) regs.length) :
    ∃ t, step c (.pop regs) = some t ∧ Loaded c t .sp regs :=
  ⟨_, congrArg (Option.map _) (if_pos h), loaded_setAll hsp hnodup _ rfl⟩

/-- What a push does. -/
structure Pushed (c t : Cpu) (regs : List Reg) : Prop where
  mem : t.mem = writeWords c.mem (c.get .sp - BitVec.ofNat 32 (4 * regs.length)).toNat
    (regs.map c.get)
  sp : t.get .sp = c.get .sp - BitVec.ofNat 32 (4 * regs.length)
  others : ∀ reg, reg ≠ .sp → t.get reg = c.get reg
  cpsr : t.cpsr = c.cpsr
  fpexc : t.fpexc = c.fpexc
  fpscr : t.fpscr = c.fpscr
  s : t.s = c.s

theorem push_spec (h : Fits (c.get .sp - BitVec.ofNat 32 (4 * regs.length)) regs.length) :
    ∃ t, step c (.push regs) = some t ∧ Pushed c t regs := by
  have hlen : Fits (c.get .sp - BitVec.ofNat 32 (4 * regs.length)) (regs.map c.get).length := by
    rwa [List.length_map]
  have hstep : step c (.push regs) = some ({ c with
      pc := c.pc + 4
      mem := writeWords c.mem (c.get .sp - BitVec.ofNat 32 (4 * regs.length)).toNat
        (regs.map c.get) }.set (c.get .sp - BitVec.ofNat 32 (4 * regs.length)) .sp) :=
    congrArg (Option.map _) (if_pos hlen)
  refine ⟨_, hstep, rfl, get_set_self, ?_, rfl, rfl, rfl, rfl⟩
  intro reg hne
  rw [get_set_of_ne hne]
  cases reg <;> rfl

theorem step_fstmiad (h : Fits (c.get base) 32) : step c (.fstmiad base) = some { c with
    pc := c.pc + 4
    mem := writeWords c.mem (c.get base).toNat (List.ofFn c.s) } := by
  have hlen : Fits (c.get base) (List.ofFn c.s).length := by rwa [List.length_ofFn]
  exact if_pos hlen

theorem step_fldmiad (h : Fits (c.get base) 32) : step c (.fldmiad base) = some { c with
    pc := c.pc + 4
    s := fun i => (readWords c.mem (c.get base).toNat 32).getD i 0 } :=
  congrArg (Option.map _) (if_pos h)

theorem step_srsdb {mode : Mode} (h : Fits (c.sp mode - 8) 2) :
    step c (.srsdb mode) = some { c with
      pc := c.pc + 4
      mem := writeWords c.mem (c.sp mode - 8).toNat [c.get .lr, c.spsr]
      sp := Function.update c.sp mode (c.sp mode - 8) } :=
  congrArg (Option.map _) (if_pos h)

theorem step_rfeia_sp (h : Fits (c.get .sp) 2) : step c .rfeia_sp = some { c.set
    (c.get .sp + 8) .sp with
      pc := word c.mem (c.get .sp).toNat
      cpsr := word c.mem ((c.get .sp).toNat + 4) } :=
  congrArg (Option.map _) (if_pos h)

end instructions

end arm
