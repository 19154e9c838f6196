-- `task_switch`, instruction by instruction: what it saves of the task that is left, what it
-- loads of the one that is entered, and what it does not switch.
import RpiWifi.Arm

namespace rpi_wifi.contexts

open arm memory runs

/-- The registers in the order of `cpu_context_t`. -/
def cpuRegs : List Reg :=
  [.r 0, .r 4, .r 5, .r 6, .r 7, .r 8, .r 9, .r 10, .r 11, .r 12, .sp, .lr]

def saving : List Instr :=
  [.stmia (.r 0) cpuRegs, .fmrx_fpexc (.r 2), .fmrx_fpscr (.r 3), .stmia (.r 0) [.r 2, .r 3],
    .fstmiad (.r 0)]

def loading : List Instr :=
  [.ldmia (.r 1) cpuRegs, .fmxr_fpexc (.r 2), .fmxr_fpscr (.r 3), .ldmia (.r 1) [.r 2, .r 3],
    .fldmiad (.r 1), .bx .lr]

def task_switch : List Instr := saving ++ loading

/-- The words of `cpu_context_t`. -/
def contextWords : Nat := 46

/-- What of the processor is put into a `cpu_context_t`. -/
def cpuContext (c : Cpu) : List Word :=
  cpuRegs.map c.get ++ ([c.fpexc, c.fpscr] ++ List.ofFn c.s)

theorem cpuContext_length (c : Cpu) : (cpuContext c).length = contextWords := by
  simp [cpuContext, cpuRegs, contextWords]

variable {c t : Cpu}

/-- Behind the first half `r2` and `r3` have the status of the floating point unit. -/
structure Saved (c t : Cpu) : Prop where
  mem : t.mem = writeWords c.mem (c.r 0).toNat (cpuContext c)
  r1 : t.r 1 = c.r 1
  r2 : t.r 2 = c.fpexc
  r3 : t.r 3 = c.fpscr
  fpexc : t.fpexc = c.fpexc
  fpscr : t.fpscr = c.fpscr
  cpsr : t.cpsr = c.cpsr

theorem save_spec (h : Fits (c.r 0) contextWords) :
    ∃ t, exec step c saving = some t ∧ Saved c t := by
  have hregs : Fits (c.r 0) 12 := h.left (k := 34)
  have hstatus : Fits (c.r 0 + 48) 2 := (h.right (n := 12) (k := 33)).left (k := 32)
  have hdoubles : Fits (c.r 0 + 48 + 8) 32 := (h.right (n := 12) (k := 33)).right (n := 2) (k := 31)
  have hnat : (c.r 0 + 48).toNat = (c.r 0).toNat + 48 := h.toNat_add (n := 12) (k := 33)
  have hnat' : (c.r 0 + 48 + 8).toNat = (c.r 0).toNat + 48 + 8 :=
    ((h.right (n := 12) (k := 33)).toNat_add (n := 2) (k := 31)).trans (by rw [← hnat]; rfl)
  let c1 : Cpu := { c with
    pc := c.pc + 4
    mem := writeWords c.mem (c.r 0).toNat (cpuRegs.map c.get)
    r := Function.update c.r 0 (c.r 0 + 48) }
  let c2 : Cpu := { c1 with pc := c1.pc + 4, r := Function.update c1.r 2 c.fpexc }
  let c3 : Cpu := { c2 with pc := c2.pc + 4, r := Function.update c2.r 3 c.fpscr }
  have h3 : c3.r 0 = c.r 0 + 48 ∧ c3.r 1 = c.r 1 ∧ c3.r 2 = c.fpexc ∧ c3.r 3 = c.fpscr := by
    simp [c3, c2, c1]
  let c4 : Cpu := { c3 with
    pc := c3.pc + 4
    mem := writeWords c1.mem (c.r 0 + 48).toNat [c.fpexc, c.fpscr]
    r := Function.update c3.r 0 (c.r 0 + 48 + 8) }
  have e1 : step c (.stmia (.r 0) cpuRegs) = some c1 := step_stmia (by decide) hregs
  have e4 : step c3 (.stmia (.r 0) [.r 2, .r 3]) = some c4 := by
    rw [step_stmia (by decide) (by rw [Cpu.get, h3.1]; exact hstatus)]
    simp only [Cpu.get, Cpu.set, h3, List.map_cons, List.map_nil]
    rfl
  let c5 : Cpu := { c4 with
    pc := c4.pc + 4
    mem := writeWords c4.mem (c.r 0 + 48 + 8).toNat (List.ofFn c.s) }
  have e5 : step c4 (.fstmiad (.r 0)) = some c5 := step_fstmiad hdoubles
  have hrun : exec step c saving = some c5 := by
    have e2 : step c1 (.fmrx_fpexc (.r 2)) = some c2 := rfl
    have e3 : step c2 (.fmrx_fpscr (.r 3)) = some c3 := rfl
    simp only [saving, exec, e1, e2, e3, e4, e5, Option.bind_some]
  have hmem : c5.mem = writeWords c.mem (c.r 0).toNat (cpuContext c) := by
    rw [cpuContext, writeWords_append, writeWords_append]
    simp only [c5, c4, c1, hnat, hnat']
    rfl
  have h5 : c5.r 1 = c.r 1 ∧ c5.r 2 = c.fpexc ∧ c5.r 3 = c.fpscr := by
    simp [c5, c4, h3]
  exact ⟨c5, hrun, hmem, h5.1, h5.2.1, h5.2.2, rfl, rfl, rfl⟩

/-- What `task_switch` leaves: the task that is entered has its registers, and the floating
point unit the status that the other task has left in it. -/
structure Switched (c t : Cpu) : Prop where
  mem : t.mem = writeWords c.mem (c.r 0).toNat (cpuContext c)
  regs : cpuRegs.map t.get = readWords t.mem (c.r 1).toNat 12
  r2 : t.r 2 = word t.mem ((c.r 1).toNat + 48)
  r3 : t.r 3 = word t.mem ((c.r 1).toNat + 52)
  doubles : List.ofFn t.s = readWords t.mem ((c.r 1).toNat + 56) 32
  pc : t.pc = t.get .lr
  cpsr : t.cpsr = c.cpsr
  fpexc : t.fpexc = c.fpexc
  fpscr : t.fpscr = c.fpscr

theorem ofFn_getD {n : Nat} {ws : List Word} (h : ws.length = n) :
    List.ofFn (fun i : Fin n => ws.getD i 0) = ws := by
  subst h
  simp

theorem load_spec {u : Cpu} (hs : Saved c u) (h : Fits (c.r 1) contextWords) :
    ∃ t, exec step u loading = some t ∧ Switched c t := by
  have hregs : Fits (u.get (.r 1)) 12 := by
    have hr1 : u.get (.r 1) = c.r 1 := hs.r1
    rw [hr1]
    exact h.left (k := 34)
  have hstatus : Fits (c.r 1 + 48) 2 := (h.right (n := 12) (k := 33)).left (k := 32)
  have hdoubles : Fits (c.r 1 + 48 + 8) 32 := (h.right (n := 12) (k := 33)).right (n := 2) (k := 31)
  have hnat : (c.r 1 + 48).toNat = (c.r 1).toNat + 48 := h.toNat_add (n := 12) (k := 33)
  have hnat' : (c.r 1 + 48 + 8).toNat = (c.r 1).toNat + 48 + 8 :=
    ((h.right (n := 12) (k := 33)).toNat_add (n := 2) (k := 31)).trans (by rw [← hnat]; rfl)
  obtain ⟨v, hv, hload⟩ : ∃ v, step u (.ldmia (.r 1) cpuRegs) = some v ∧
      Loaded u v (.r 1) cpuRegs := ldmia_spec (by decide) (by decide) hregs
  have hv1 : v.get (.r 1) = c.r 1 + 48 := by
    rw [hload.behind, Cpu.get, hs.r1]
    rfl
  have hv2 : v.get (.r 2) = c.fpexc := (hload.others _ (by decide) (by decide)).trans hs.r2
  have hv3 : v.get (.r 3) = c.fpscr := (hload.others _ (by decide) (by decide)).trans hs.r3
  -- The status that is moved is the one that was saved: the other task's.
  let w : Cpu := { v with pc := v.pc + 4 + 4, fpexc := v.get (.r 2), fpscr := v.get (.r 3) }
  have hw : ∀ reg, w.get reg = v.get reg := by
    intro reg
    cases reg <;> rfl
  have hwfits : Fits (w.get (.r 1)) 2 := by rw [hw, hv1]; exact hstatus
  obtain ⟨x, hx, hpair⟩ : ∃ x, step w (.ldmia (.r 1) [.r 2, .r 3]) = some x ∧
      Loaded w x (.r 1) [.r 2, .r 3] := ldmia_spec (by decide) (by decide) hwfits
  have hx1 : x.get (.r 1) = c.r 1 + 48 + 8 := by
    rw [hpair.behind, hw, hv1]
    rfl
  have hxmem : x.mem = u.mem := hpair.mem.trans hload.mem
  have hxfits : Fits (x.get (.r 1)) 32 := by rw [hx1]; exact hdoubles
  let y : Cpu := { x with
    pc := x.pc + 4
    s := fun i => (readWords x.mem (x.get (.r 1)).toNat 32).getD i 0 }
  have hy : step x (.fldmiad (.r 1)) = some y := step_fldmiad hxfits
  let t : Cpu := { y with pc := y.get .lr }
  have ht : ∀ reg, t.get reg = x.get reg := by
    intro reg
    cases reg <;> rfl
  have hrun : exec step u loading = some t := by
    have e2 : step v (.fmxr_fpexc (.r 2)) = some { v with pc := v.pc + 4, fpexc := v.get (.r 2) } :=
      rfl
    have e3 : step { v with pc := v.pc + 4, fpexc := v.get (.r 2) } (.fmxr_fpscr (.r 3)) = some w :=
      rfl
    have e6 : step y (.bx .lr) = some t := rfl
    simp only [loading, exec, hv, e2, e3, hx, hy, e6, Option.bind_some]
  have hkept : ∀ reg ∈ cpuRegs, t.get reg = v.get reg := by
    intro reg hreg
    have hnot : reg ∉ [Reg.r 2, Reg.r 3] ∧ reg ≠ Reg.r 1 := by
      revert reg
      decide
    rw [ht, hpair.others reg hnot.1 hnot.2, hw]
  have hpairs : [t.get (.r 2), t.get (.r 3)] = readWords u.mem (c.r 1 + 48).toNat 2 := by
    have hloaded := hpair.loaded
    rw [hw, hv1] at hloaded
    have hwmem : w.mem = u.mem := hload.mem
    rw [hwmem] at hloaded
    exact hloaded
  have htmem : t.mem = u.mem := hxmem
  refine ⟨t, hrun, ?_⟩
  rw [hnat] at hpairs
  exact {
    mem := htmem.trans hs.mem
    regs := by
      rw [List.map_congr_left hkept, hload.loaded, htmem, Cpu.get, hs.r1]
      rfl
    r2 := by
      rw [htmem]
      exact (List.cons.inj hpairs).1
    r3 := by
      rw [htmem]
      exact (List.cons.inj (List.cons.inj hpairs).2).1
    doubles := by
      have hs' : t.s = fun i : Fin 32 => (readWords t.mem ((c.r 1).toNat + 56) 32).getD i 0 := by
        rw [htmem, ← hxmem, ← hnat', ← hx1]
      rw [hs']
      exact ofFn_getD readWords_length
    pc := (ht .lr).symm
    cpsr := hpair.cpsr.trans (hload.cpsr.trans hs.cpsr)
    fpexc := hpair.fpexc.trans hv2
    fpscr := hpair.fpscr.trans hv3 }

theorem task_switch_spec (ha : Fits (c.r 0) contextWords) (hb : Fits (c.r 1) contextWords) :
    ∃ t, exec step c task_switch = some t ∧ Switched c t := by
  obtain ⟨u, hu, hs⟩ := save_spec ha
  obtain ⟨t, ht, hswitched⟩ := load_spec hs hb
  refine ⟨t, ?_, hswitched⟩
  rw [task_switch, exec_append, hu, Option.bind_some, ht]

end rpi_wifi.contexts
