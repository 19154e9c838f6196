-- `irq_handler_asm_wrapper`, instruction by instruction: what it puts on the stack of the
-- interrupted code before it calls `irq_handler`, and what it takes from there behind it.
import RpiWifi.Arm

namespace rpi_wifi.contexts

open arm memory runs

/-- The registers that `irq_handler` may change. -/
def scratch : List Reg := [.r 0, .r 1, .r 2, .r 3, .r 12, .lr]

/-- From the vector to `irq_handler`. -/
def entering (irq_handler : Word) : List Instr :=
  [.sub_imm .lr .lr 4, .srsdb .svc, .cpsid_if .svc, .push scratch, .and_imm (.r 1) .sp 4,
    .sub .sp .sp (.r 1), .push [.r 1], .bl irq_handler]

/-- Behind `irq_handler`. -/
def leaving : List Instr :=
  [.pop [.r 1], .add .sp .sp (.r 1), .pop scratch, .rfeia_sp]

variable {c t : Cpu}

/-- What an interrupt of `c` leaves on the stack. -/
def frameWords (c : Cpu) : List Word := scratch.map c.get ++ [c.pc, c.cpsr]

/-- What the stack is moved by, to a multiple of 8. -/
def padding (c : Cpu) : Word := (c.get .sp - 32) &&& 4

theorem padding_cases (c : Cpu) (h : 32 ≤ (c.get .sp).toNat) : (padding c).toNat ≤ 4 ∧
    ((c.get .sp).toNat - 32) / 4 % 2 * 4 = (padding c).toNat := by
  have hand : ∀ x : Nat, x &&& 4 = x / 4 % 2 * 4 := by
    intro x
    have hpow : x &&& 2 ^ 2 = (x.testBit 2).toNat * 2 ^ 2 := Nat.and_two_pow x 2
    rw [Nat.testBit_eq_decide_div_mod_eq] at hpow
    rcases Nat.mod_two_eq_zero_or_one (x / 4) with hbit | hbit
    all_goals simpa [hbit] using hpow
  have hnat : (padding c).toNat = ((c.get .sp).toNat - 32) / 4 % 2 * 4 := by
    have hsub : (c.get .sp - 32).toNat = (c.get .sp).toNat - 32 := BitVec.toNat_sub_of_le h
    rw [padding, BitVec.toNat_and, hsub]
    exact hand _
  exact ⟨by omega, hnat.symm⟩

theorem toNat_below {w : Word} {n : Nat} (h : n ≤ w.toNat) :
    (w - BitVec.ofNat 32 n).toNat = w.toNat - n := by
  have hlt := w.isLt
  rw [BitVec.toNat_sub, BitVec.toNat_ofNat]
  omega

/-- What `irq_handler` is called with. -/
structure Entered (c t : Cpu) (irq_handler : Word) : Prop where
  frame : readWords t.mem ((c.get .sp).toNat - 32) 8 = frameWords c
  pad : word t.mem (t.get .sp).toNat = padding c
  sp : (t.get .sp).toNat + 36 + (padding c).toNat = (c.get .sp).toNat
  outside : ∀ b, b < (c.get .sp).toNat - 40 ∨ (c.get .sp).toNat ≤ b → t.mem b = c.mem b
  regs : ∀ i, i ≠ 1 → t.r i = c.r i
  s : t.s = c.s
  fpexc : t.fpexc = c.fpexc
  fpscr : t.fpscr = c.fpscr
  mode : t.mode = .svc
  masked : t.cpsr.getLsbD 7 = true
  pc : t.pc = irq_handler

/-- The first three instructions run in the mode of the interrupt. -/
structure ModeEntered (c t : Cpu) : Prop where
  mem : t.mem = writeWords c.mem (c.get .sp - 8).toNat [c.pc, c.cpsr]
  sp : t.get .sp = c.get .sp - 8
  lr : t.get .lr = c.get .lr
  mode : t.mode = .svc
  masked : t.cpsr.getLsbD 7 = true
  r : t.r = c.r
  s : t.s = c.s
  fpexc : t.fpexc = c.fpexc
  fpscr : t.fpscr = c.fpscr

theorem enter_mode (vector : Word) (hmode : c.mode = .svc) (hfits : Fits (c.get .sp - 8) 2) :
    ∃ t, exec step (interrupt c vector) [.sub_imm .lr .lr 4, .srsdb .svc, .cpsid_if .svc] = some t ∧
      ModeEntered c t := by
  have hirq : (interrupt c vector).mode = .irq :=
    (modeOf_inhibit _ (by decide)).trans (modeOf_withMode c.cpsr .irq)
  have hsp : c.sp .svc = c.get .sp := by rw [Cpu.get, hmode]
  have hlr : c.lr .svc = c.get .lr := by rw [Cpu.get, hmode]
  let u : Cpu := { interrupt c vector with
    pc := vector + 4
    lr := Function.update (Function.update c.lr .irq (c.pc + 4)) .irq c.pc }
  have hu : step (interrupt c vector) (.sub_imm .lr .lr 4) = some u := by
    have hval : (interrupt c vector).get .lr - 4 = c.pc := by
      have hlr : (interrupt c vector).lr .irq = c.pc + 4 := Function.update_self Mode.irq _ c.lr
      rw [Cpu.get, hirq, hlr, BitVec.add_sub_cancel]
    have hstep : step (interrupt c vector) (.sub_imm .lr .lr 4) = some ({ interrupt c vector with
        pc := vector + 4 }.set ((interrupt c vector).get .lr - 4) .lr) := rfl
    rw [hstep, hval, Cpu.set]
    have hirq' : ({ interrupt c vector with pc := vector + 4 } : Cpu).mode = .irq := hirq
    rw [hirq']
    rfl
  have hulr : u.get .lr = c.pc := by
    have hirq' : u.mode = .irq := hirq
    rw [Cpu.get, hirq']
    exact Function.update_self Mode.irq c.pc (Function.update c.lr .irq (c.pc + 4))
  let v : Cpu := { u with
    pc := u.pc + 4
    mem := writeWords c.mem (c.get .sp - 8).toNat [c.pc, c.cpsr]
    sp := Function.update c.sp .svc (c.get .sp - 8) }
  have hv : step u (.srsdb .svc) = some v := by
    have hfits' : Fits (u.sp .svc - 8) 2 := by
      have heq : u.sp .svc = c.get .sp := hsp
      rw [heq]
      exact hfits
    rw [step_srsdb hfits', hulr]
    simp only [v, ← hsp]
    rfl
  let t : Cpu := { v with
    pc := v.pc + 4
    cpsr := withMode v.cpsr .svc ||| (IRQ_INHIBIT ||| FIQ_INHIBIT) }
  have htmode : t.mode = .svc :=
    (modeOf_inhibit _ (by decide)).trans (modeOf_withMode v.cpsr .svc)
  refine ⟨t, ?_, ?_⟩
  · have ht : step v (.cpsid_if .svc) = some t := rfl
    simp only [exec, hu, hv, ht, Option.bind_some]
  · exact {
      mem := rfl
      sp := by
        rw [Cpu.get, htmode]
        exact Function.update_self Mode.svc (c.get .sp - 8) c.sp
      lr := by
        rw [Cpu.get, htmode, ← hlr]
        rfl
      mode := htmode
      masked := by
        have hbit : (IRQ_INHIBIT ||| FIQ_INHIBIT).getLsbD 7 = true := by decide
        rw [BitVec.getLsbD_or, hbit, Bool.or_true]
      r := rfl
      s := rfl
      fpexc := rfl
      fpscr := rfl }

/-- The instructions behind them run in the mode of the interrupted code. -/
theorem enter_stack (irq_handler : Word) {u : Cpu} (hu : ModeEntered c u)
    (haligned : (c.get .sp).toNat % 4 = 0) (hroom : 40 ≤ (c.get .sp).toNat) :
    ∃ t, exec step u [.push scratch, .and_imm (.r 1) .sp 4, .sub .sp .sp (.r 1), .push [.r 1],
      .bl irq_handler] = some t ∧ Entered c t irq_handler := by
  have hbound := (c.get .sp).isLt
  obtain ⟨hpad, hpadding⟩ := padding_cases c (by omega)
  have h8 : (c.get .sp - 8).toNat = (c.get .sp).toNat - 8 :=
    toNat_below (n := 8) (by omega)
  have h32 : (c.get .sp - 8 - 24).toNat = (c.get .sp).toNat - 32 :=
    (toNat_below (n := 24) (by omega)).trans (by omega)
  have hfits : Fits (u.get .sp - 24) 6 := by
    rw [hu.sp]
    exact ⟨by omega, by omega⟩
  obtain ⟨v, hv, hpushed⟩ : ∃ v, step u (.push scratch) = some v ∧ Pushed u v scratch :=
    push_spec hfits
  have hvsp : v.get .sp = c.get .sp - 32 := by
    have hsum : c.get .sp - 8 - 24 = c.get .sp - 32 := by bv_omega
    rw [hpushed.sp, hu.sp]
    exact hsum
  have hvr : ∀ i, v.get (.r i) = c.r i := by
    intro i
    rw [hpushed.others _ (by simp), Cpu.get, hu.r]
  let w : Cpu := { v with pc := v.pc + 4 }.set (v.get .sp &&& 4) (.r 1)
  have hwsp : w.get .sp = c.get .sp - 32 := by
    rw [get_set_of_ne (by decide), get_pc, hvsp]
  have hw1 : w.get (.r 1) = padding c := by
    rw [get_set_self, hvsp, padding]
  let x : Cpu := { w with pc := w.pc + 4 }.set (w.get .sp - w.get (.r 1)) .sp
  have hxsp : x.get .sp = c.get .sp - 32 - padding c := by
    rw [get_set_self, hwsp, hw1]
  have hx1 : x.get (.r 1) = padding c := by
    rw [get_set_of_ne (by decide), get_pc, hw1]
  have hxr : ∀ i, i ≠ 1 → x.get (.r i) = c.r i := by
    intro i hi
    rw [get_set_of_ne (by simp), get_pc, get_set_of_ne (by simpa using hi), get_pc, hvr]
  have hlow : (c.get .sp - 32 - padding c - 4).toNat =
      (c.get .sp).toNat - 36 - (padding c).toNat := by
    bv_omega
  have hfits' : Fits (x.get .sp - 4) 1 := by
    rw [hxsp]
    exact ⟨by omega, by omega⟩
  obtain ⟨y, hy, hlast⟩ : ∃ y, step x (.push [.r 1]) = some y ∧ Pushed x y [.r 1] :=
    push_spec hfits'
  let t : Cpu := { { y with pc := y.pc + 4 }.set (y.pc + 4) .lr with pc := irq_handler }
  have ht : ∀ reg, reg ≠ .lr → t.get reg = y.get reg := by
    intro reg hne
    have hset : ({ y with pc := y.pc + 4 }.set (y.pc + 4) .lr).get reg = y.get reg :=
      (get_set_of_ne hne).trans get_pc
    rw [← hset]
    exact get_pc
  refine ⟨t, ?_, ?_⟩
  · have hw : step v (.and_imm (.r 1) .sp 4) = some w := rfl
    have hx : step w (.sub .sp .sp (.r 1)) = some x := rfl
    have hbl : step y (.bl irq_handler) = some t := rfl
    simp only [exec, hv, hw, hx, hy, hbl, Option.bind_some]
  have hscratch : scratch.map u.get = scratch.map c.get := by
    simp only [scratch, List.map_cons, List.map_nil, Cpu.get, hu.r]
    have hlr : u.lr u.mode = c.lr c.mode := hu.lr
    rw [hlr]
  have hmem : t.mem = writeWords (writeWords (writeWords c.mem ((c.get .sp).toNat - 8)
      [c.pc, c.cpsr]) ((c.get .sp).toNat - 32) (scratch.map c.get))
        ((c.get .sp).toNat - 36 - (padding c).toNat) [padding c] := by
    have hv : v.mem = writeWords u.mem (u.get .sp - 24).toNat (scratch.map u.get) := hpushed.mem
    have hy : y.mem = writeWords v.mem (x.get .sp - 4).toNat [x.get (.r 1)] := hlast.mem
    have ht : t.mem = y.mem := rfl
    rw [ht, hy, hxsp, hlow, hx1, hv, hscratch, hu.sp, h32, hu.mem, h8]
  have hysp : y.get .sp = c.get .sp - 32 - padding c - 4 := by
    rw [hlast.sp, hxsp]
    rfl
  exact {
    frame := by
      have hlen : (scratch.map c.get).length = 6 := rfl
      have hbehind : (c.get .sp).toNat - 32 + 4 * 6 = (c.get .sp).toNat - 8 := by omega
      rw [hmem, readWords_writeWords_of_apart (by simp; omega), readWords_add (n := 6) (k := 2),
        ← hlen, readWords_writeWords, readWords_writeWords_of_apart (by rw [hlen]; omega), hlen,
        hbehind]
      exact congrArg _ readWords_writeWords
    pad := by
      rw [ht .sp (by decide), hysp, hlow, hmem]
      exact word_writeWords
    sp := by
      rw [ht .sp (by decide), hysp, hlow]
      omega
    outside := by
      intro b hb
      rw [hmem, writeWords_of_out (by simp; omega), writeWords_of_out (by simp [scratch]; omega),
        writeWords_of_out (by simp; omega)]
    regs := by
      intro i hi
      have hti : t.get (.r i) = y.get (.r i) := ht _ (by simp)
      exact hti.trans ((hlast.others _ (by simp)).trans (hxr i hi))
    s := hlast.s.trans (hpushed.s.trans hu.s)
    fpexc := hlast.fpexc.trans (hpushed.fpexc.trans hu.fpexc)
    fpscr := hlast.fpscr.trans (hpushed.fpscr.trans hu.fpscr)
    mode := by
      have hcpsr : t.cpsr = u.cpsr := hlast.cpsr.trans hpushed.cpsr
      rw [Cpu.mode, hcpsr]
      exact hu.mode
    masked := by
      have hcpsr : t.cpsr = u.cpsr := hlast.cpsr.trans hpushed.cpsr
      rw [hcpsr]
      exact hu.masked
    pc := rfl }

theorem enter_spec (vector irq_handler : Word) (hmode : c.mode = .svc)
    (haligned : (c.get .sp).toNat % 4 = 0) (hroom : 40 ≤ (c.get .sp).toNat) :
    ∃ t, exec step (interrupt c vector) (entering irq_handler) = some t ∧
      Entered c t irq_handler := by
  have h8 : (c.get .sp - 8).toNat = (c.get .sp).toNat - 8 := toNat_below (n := 8) (by omega)
  have hbound := (c.get .sp).isLt
  have hfits : Fits (c.get .sp - 8) 2 := ⟨by omega, by omega⟩
  obtain ⟨u, hu, hentered⟩ := enter_mode vector hmode hfits
  obtain ⟨t, ht, hspec⟩ := enter_stack irq_handler hentered haligned hroom
  refine ⟨t, ?_, hspec⟩
  have hsplit : entering irq_handler = [.sub_imm .lr .lr 4, .srsdb .svc, .cpsid_if .svc] ++
      [.push scratch, .and_imm (.r 1) .sp 4, .sub .sp .sp (.r 1), .push [.r 1],
        .bl irq_handler] := rfl
  rw [hsplit, exec_append, hu, Option.bind_some, ht]

/-- The stack pointer that `irq_handler` gets is never a multiple of 8. -/
theorem Entered.sp_mod {irq_handler : Word} (h : Entered c t irq_handler)
    (haligned : (c.get .sp).toNat % 4 = 0) (hroom : 40 ≤ (c.get .sp).toNat) :
    (t.get .sp).toNat % 8 = 4 := by
  obtain ⟨-, hpadding⟩ := padding_cases c (by omega)
  have hsp := h.sp
  omega

/-- What the code behind `irq_handler` needs: the frame of `c` as it was put there. -/
structure Framed (c u : Cpu) : Prop where
  frame : readWords u.mem ((c.get .sp).toNat - 32) 8 = frameWords c
  pad : word u.mem (u.get .sp).toNat = padding c
  sp : (u.get .sp).toNat + 36 + (padding c).toNat = (c.get .sp).toNat
  mode : u.mode = .svc

/-- What is as it was at the interrupt, and what is left as `irq_handler` leaves it. -/
structure Left (c u t : Cpu) : Prop where
  scratch : scratch.map t.get = scratch.map c.get
  sp : t.get .sp = c.get .sp
  pc : t.pc = c.pc
  cpsr : t.cpsr = c.cpsr
  others : ∀ i, .r i ∉ contexts.scratch → t.r i = u.r i
  mem : t.mem = u.mem
  s : t.s = u.s
  fpexc : t.fpexc = u.fpexc
  fpscr : t.fpscr = u.fpscr

theorem leave_spec {u : Cpu} (h : Framed c u) (hmode : c.mode = .svc)
    (haligned : (c.get .sp).toNat % 4 = 0) :
    ∃ t, exec step u leaving = some t ∧ Left c u t := by
  have hbound := (c.get .sp).isLt
  have hsp := h.sp
  have hroom : 32 ≤ (c.get .sp).toNat := by omega
  obtain ⟨hpad, hpadding⟩ := padding_cases c hroom
  have hfits : Fits (u.get .sp) 1 := ⟨by omega, by omega⟩
  obtain ⟨v, hv, hpop⟩ : ∃ v, step u (.pop [.r 1]) = some v ∧ Loaded u v .sp [.r 1] :=
    pop_spec (by decide) (by decide) hfits
  have hv1 : v.get (.r 1) = padding c := by
    have hloaded := hpop.loaded
    rw [List.length_singleton, readWords_succ, h.pad] at hloaded
    exact (List.cons.inj hloaded).1
  let w : Cpu := { v with pc := v.pc + 4 }.set (v.get .sp + v.get (.r 1)) .sp
  have hwsp : w.get .sp = c.get .sp - 32 := by
    have hsum : u.get .sp + 4 + padding c = c.get .sp - 32 := by bv_omega
    rw [get_set_self, hpop.behind, hv1]
    exact hsum
  have hw32 : (w.get .sp).toNat = (c.get .sp).toNat - 32 := by
    rw [hwsp]
    exact toNat_below (n := 32) hroom
  have hwmem : w.mem = u.mem := hpop.mem
  have hfits' : Fits (w.get .sp) 6 := ⟨by omega, by omega⟩
  obtain ⟨x, hx, hpops⟩ : ∃ x, step w (.pop scratch) = some x ∧ Loaded w x .sp scratch :=
    pop_spec (by decide) (by decide) hfits'
  have hxsp : x.get .sp = c.get .sp - 8 := by
    have hsum : c.get .sp - 32 + 24 = c.get .sp - 8 := by bv_omega
    rw [hpops.behind, hwsp]
    exact hsum
  have hxmem : x.mem = u.mem := hpops.mem.trans hwmem
  have hx8 : (x.get .sp).toNat = (c.get .sp).toNat - 8 := by
    rw [hxsp]
    exact toNat_below (n := 8) (by omega)
  have hfits'' : Fits (x.get .sp) 2 := ⟨by omega, by omega⟩
  obtain ⟨hsix, htwo⟩ : readWords u.mem ((c.get .sp).toNat - 32) 6 = scratch.map c.get ∧
      readWords u.mem ((c.get .sp).toNat - 8) 2 = [c.pc, c.cpsr] := by
    have hframe := h.frame
    have hbehind : (c.get .sp).toNat - 32 + 4 * 6 = (c.get .sp).toNat - 8 := by omega
    rw [readWords_add (n := 6) (k := 2), hbehind, frameWords] at hframe
    exact List.append_inj hframe readWords_length
  let t : Cpu := { x.set (x.get .sp + 8) .sp with
    pc := word x.mem (x.get .sp).toNat
    cpsr := word x.mem ((x.get .sp).toNat + 4) }
  have hrfe : step x .rfeia_sp = some t := step_rfeia_sp hfits''
  have htpc : t.pc = c.pc := by
    have hword : word x.mem (x.get .sp).toNat = c.pc := by
      rw [hxmem, hx8]
      exact (List.cons.inj htwo).1
    exact hword
  have htcpsr : t.cpsr = c.cpsr := by
    have hword : word x.mem ((x.get .sp).toNat + 4) = c.cpsr := by
      rw [hxmem, hx8]
      exact (List.cons.inj (List.cons.inj htwo).2).1
    exact hword
  have hxmode : x.mode = .svc := by
    have hcpsr : x.cpsr = u.cpsr := hpops.cpsr.trans hpop.cpsr
    rw [Cpu.mode, hcpsr]
    exact h.mode
  have htmode : t.mode = x.mode := by
    rw [hxmode, Cpu.mode, htcpsr]
    exact hmode
  have htget : ∀ reg, reg ≠ .sp → t.get reg = x.get reg := by
    intro reg hne
    cases reg with
    | r i => rfl
    | sp => exact absurd rfl hne
    | lr =>
      rw [Cpu.get, Cpu.get, htmode]
      rfl
  refine ⟨t, ?_, ?_⟩
  · have hw : step v (.add .sp .sp (.r 1)) = some w := rfl
    simp only [leaving, exec, hv, hw, hx, hrfe, Option.bind_some]
  · exact {
      scratch := by
        have hkept : ∀ reg ∈ contexts.scratch, t.get reg = x.get reg := by
          intro reg hreg
          apply htget
          rintro rfl
          exact absurd hreg (by decide)
        rw [List.map_congr_left hkept, hpops.loaded, hw32, hwmem]
        exact hsix
      sp := by
        have hset : t.get .sp = x.get .sp + 8 := by
          rw [Cpu.get, htmode]
          exact Function.update_self x.mode _ x.sp
        rw [hset, hxsp]
        exact BitVec.sub_add_cancel (c.get .sp) 8
      pc := htpc
      cpsr := htcpsr
      others := by
        intro i hi
        have hti : t.get (.r i) = x.get (.r i) := htget _ (by simp)
        have h1 : Reg.r i ≠ Reg.r 1 := by
          intro heq
          rw [heq] at hi
          exact hi (by decide)
        have hwi : w.get (.r i) = v.get (.r i) := (get_set_of_ne (by simp)).trans get_pc
        have hvi : v.get (.r i) = u.get (.r i) := hpop.others _ (by simpa using h1) (by simp)
        exact hti.trans ((hpops.others _ hi (by simp)).trans (hwi.trans hvi))
      mem := hxmem
      s := hpops.s.trans hpop.s
      fpexc := hpops.fpexc.trans hpop.fpexc
      fpscr := hpops.fpscr.trans hpop.fpscr }

end rpi_wifi.contexts
