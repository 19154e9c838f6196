-- A task that is switched to goes on as it was left, and one that is interrupted does not
-- notice it, whatever the other tasks and their interrupts do: the registers come from its
-- record and from its stack, and these are left alone. The status of the floating point unit
-- is not switched.
import RpiWifi.ContextInvariant

namespace rpi_wifi.contexts

open arm memory runs

variable {ι : Type} {vector irq_handler : Word}
variable {m m' : Machine ι} {es : List Entry}
variable [DecidableEq ι]

theorem calling_get {c : Cpu} {prev next : Word} {reg : Reg} (h0 : reg ≠ .r 0) (h1 : reg ≠ .r 1) :
    (calling c prev next).get reg = c.get reg := by
  cases reg with
  | r i =>
    have hi0 : i ≠ 0 := fun heq => h0 (congrArg Reg.r heq)
    have hi1 : i ≠ 1 := fun heq => h1 (congrArg Reg.r heq)
    exact (Function.update_of_ne hi1 _ _).trans (Function.update_of_ne hi0 _ _)
  | sp | lr => rfl

/-- When a task is switched to again, however many tasks and interrupts have run since it
called `task_switch`, that call returns with the registers and the stack as it had them; the
status of the floating point unit is the one of the task that ran last. An interrupt may come
between `current = next` and the call, but it does not switch tasks there. -/
theorem a_task_goes_on_as_it_was {init : ι} {x : Area} {cpu : Cpu} (hstart : Starts x cpu)
    (before between : List (Step ι)) {m m1 m2 : Machine ι} {k : ι}
    (hok : Allowed (Machine.step vector irq_handler) Fair (.start init x cpu) before)
    (hbefore : exec (Machine.step vector irq_handler) (.start init x cpu) before = some m)
    (hlives : m.dying = false) (hchosen : m.chosen = some k)
    (hswitch : m.step vector irq_handler .task_switch = some m1)
    (hok1 : Allowed (Machine.step vector irq_handler)
      (fun s a => Fair s a ∧ (a = .task_switch → s.chosen ≠ some m.current)) m1 between)
    (hbetween : exec (Machine.step vector irq_handler) m1 between = some m2)
    (hagain : m2.chosen = some m.current) :
    ∃ m3, m2.step vector irq_handler .task_switch = some m3 ∧
      m3.current = m.current ∧ (∀ reg ∈ cpuRegs.tail, m3.cpu.get reg = m.cpu.get reg) ∧
      m3.cpu.s = m.cpu.s ∧ m3.cpu.pc = m.cpu.get .lr ∧
      (∀ a, (m.cpu.get .sp).toNat ≤ a → a < (m.area m.current).top →
        m3.cpu.mem a = m.cpu.mem a) ∧
      m3.cpu.fpexc = m2.cpu.fpexc ∧ m3.cpu.fpscr = m2.cpu.fpscr := by
  have hinv : Inv irq_handler m := inv_run hstart hok hbefore
  obtain ⟨w, hk⟩ : ∃ w, m.waiting k = some w :=
    Option.ne_none_iff_exists'.mp (hinv.chosen k hchosen)
  obtain ⟨t, ht, -, hinv1⟩ := hinv.task_switch vector hchosen hk
  obtain rfl := Option.some.inj (ht.symm.trans hswitch)
  let c := calling m.cpu (m.area m.current).record (m.area k).record
  have hne : m.current ≠ k := by
    rintro rfl
    rw [hinv.running] at hk
    cases hk
  have hwait1 : (m.switched t k).waiting m.current = some ⟨cpuContext c, m.cpu.mem⟩ := by
    dsimp only [Machine.switched]
    rw [Function.update_of_ne hne, Function.update_self, if_neg (by simp [hlives])]
  obtain ⟨hinv2, hwait2, -, harea⟩ := waiting_run hinv1 hwait1 hok1 hbetween
  obtain ⟨u, hu, hresumed, -⟩ := hinv2.task_switch vector hagain hwait2
  have hregs : ∀ reg ∈ cpuRegs, u.get reg = c.get reg := by
    have hmap : cpuRegs.map u.get = cpuRegs.map c.get := by
      rw [hresumed.regs, cpuContext, List.take_left' (by simp [cpuRegs])]
    exact List.map_inj_left.mp hmap
  have hc : ∀ reg ∈ cpuRegs.tail, u.get reg = m.cpu.get reg := by
    intro reg hreg
    obtain ⟨h0, h1⟩ : reg ≠ .r 0 ∧ reg ≠ .r 1 := by
      revert reg
      decide
    rw [hregs reg (List.mem_of_mem_tail hreg)]
    exact calling_get h0 h1
  have hsp : u.get .sp = m.cpu.get .sp := hc .sp (by decide)
  refine ⟨_, hu, rfl, hc, ?_, ?_, ?_, hresumed.fpexc, hresumed.fpscr⟩
  · have hdoubles : List.ofFn u.s = List.ofFn c.s := by
      have hdrop : (cpuContext c).drop 14 = List.ofFn c.s := by
        rw [cpuContext, ← List.append_assoc]
        exact List.drop_left' (by simp [cpuRegs])
      rw [hresumed.doubles, hdrop]
    exact List.ofFn_injective hdoubles
  · exact hresumed.pc.trans (hc .lr (by decide))
  · have hstack := hresumed.stack
    rw [hsp, harea] at hstack
    exact hstack

/-- The first task behind a call. -/
def atCall : Cpu where
  r := fun _ => 0
  sp := fun _ => 0x108F00
  lr := fun _ => 0x8124
  pc := 0x9000
  cpsr := 0x13
  spsr := 0
  fpexc := 0x40000000
  fpscr := 0
  s := fun _ => 0
  mem := fun _ => 0

theorem atCall_starts : Starts (taskArea 0x100000) atCall :=
  ⟨taskArea_ok (by decide) (by decide), by decide, by decide, by decide, by decide⟩

theorem atCall_allocates :
    Allocates (Machine.start (0 : Fin 2) (taskArea 0x100000) atCall) 0x110000 := by
  refine ⟨by decide, by decide, ?_, rfl⟩
  intro j _ a ha
  left
  have hbound := (has_taskArea ha).2
  simp only [THREAD_SIZE] at hbound
  exact hbound.trans_le (by decide)

/-- The second task sets the rounding mode, and the first one goes on with it. -/
theorem the_rounding_mode_of_the_other_task : ∃ m m2 m3 : Machine (Fin 2), m.cpu.fpscr = 0 ∧
    m2.step 0x18 0x8800 .task_switch = some m3 ∧
      m3.current = m.current ∧ (∀ reg ∈ cpuRegs.tail, m3.cpu.get reg = m.cpu.get reg) ∧
      m3.cpu.s = m.cpu.s ∧ m3.cpu.pc = m.cpu.get .lr ∧
      (∀ a, (m.cpu.get .sp).toNat ≤ a → a < (m.area m.current).top →
        m3.cpu.mem a = m.cpu.mem a) ∧
      m3.cpu.fpexc = m2.cpu.fpexc ∧ m3.cpu.fpscr = m2.cpu.fpscr ∧ m2.cpu.fpscr = 0x400000 := by
  have hinv0 : Inv 0x8800 (Machine.start (0 : Fin 2) (taskArea 0x100000) atCall) :=
    inv_start atCall_starts
  obtain ⟨m0, hm0, hfree, hzero, hfpscr, hlives, w, hw⟩ :
      ∃ m, (Machine.start (0 : Fin 2) (taskArea 0x100000) atCall).step 0x18 0x8800
        (.create_task 1 0x110000 0x8400 7) = some m ∧ m.chosen = none ∧ m.current = 0 ∧
        m.cpu.fpscr = 0 ∧ m.dying = false ∧ ∃ w, m.waiting 1 = some w :=
    ⟨_, rfl, rfl, rfl, rfl, rfl, _, rfl⟩
  let m : Machine (Fin 2) := { m0 with chosen := some 1 }
  have hm : m0.step 0x18 0x8800 (.switch_to 1) = some m := by
    unfold Machine.step
    simp only [hw, reduceCtorEq, if_false, m]
  have hfair : Fair m0 (.switch_to 1) := hfree
  have hinv : Inv 0x8800 m := (hinv0.create_task atCall_allocates hm0).step hfair hm
  obtain ⟨m1, hm1, hinv1, hnext, hwait⟩ : ∃ m1, m.step 0x18 0x8800 .task_switch = some m1 ∧
      Inv 0x8800 m1 ∧ m1.chosen = none ∧ m1.waiting 0 ≠ none := by
    obtain ⟨t, ht, -, hinv1⟩ := hinv.task_switch 0x18 rfl hw
    refine ⟨_, ht, hinv1, rfl, ?_⟩
    simp [Machine.switched, m, hzero, hlives]
  let t : Cpu := { m1.cpu with fpscr := 0x400000 }
  have hworks : Works m1 t :=
    ⟨hinv1.mode, hinv1.aligned, hinv1.bottom, hinv1.limit, fun _ _ _ _ => rfl, fun _ _ => rfl,
      fun _ _ _ => rfl⟩
  have hok : Allowed (Machine.step 0x18 0x8800) Fair
      (.start (0 : Fin 2) (taskArea 0x100000) atCall)
      [.create_task 1 0x110000 0x8400 7, .switch_to 1] := by
    refine ⟨atCall_allocates, ?_⟩
    rw [hm0]
    refine ⟨hfree, ?_⟩
    rw [hm]
    trivial
  have hbefore : exec (Machine.step 0x18 0x8800) (.start (0 : Fin 2) (taskArea 0x100000) atCall)
      [.create_task 1 0x110000 0x8400 7, .switch_to 1] = some m := by
    simp only [exec, hm0, hm, Option.bind_some]
  have hback : { m1 with cpu := t }.step 0x18 0x8800 (.switch_to 0) =
      some { m1 with cpu := t, chosen := some 0 } := by
    unfold Machine.step
    simp only [hwait, if_false]
  have hok1 : Allowed (Machine.step 0x18 0x8800)
      (fun s a => Fair s a ∧ (a = .task_switch → s.chosen ≠ some m.current)) m1
      [.work t, .switch_to 0] := by
    refine ⟨⟨hworks, fun heq => by cases heq⟩, ⟨hnext, fun heq => by cases heq⟩, ?_⟩
    rw [hback]
    trivial
  have hbetween : exec (Machine.step 0x18 0x8800) m1 [.work t, .switch_to 0] =
      some { m1 with cpu := t, chosen := some 0 } := by
    have hwork : m1.step 0x18 0x8800 (.work t) = some { m1 with cpu := t } := rfl
    simp only [exec, hwork, hback, Option.bind_some]
  obtain ⟨m3, hm3, hrest⟩ := a_task_goes_on_as_it_was atCall_starts _ _ hok hbefore hlives rfl hm1
    hok1 hbetween (congrArg some hzero.symm)
  exact ⟨m, _, m3, hfpscr, hm3, hrest.1, hrest.2.1, hrest.2.2.1, hrest.2.2.2.1,
    hrest.2.2.2.2.1, hrest.2.2.2.2.2.1, hrest.2.2.2.2.2.2, rfl⟩

/-- A task that `create_task` has made starts at its function, with its argument and an empty
stack, whatever has run before it, and whatever ran before in its frames, when no interrupt
between `current = next` and the switch to it switches tasks. -/
theorem a_new_task_starts_at_its_function {init : ι} {x : Area} {cpu : Cpu}
    (hstart : Starts x cpu) (before between : List (Step ι)) {m m1 m2 : Machine ι}
    {j : ι} {p fn arg : Word}
    (hok : Allowed (Machine.step vector irq_handler) Fair (.start init x cpu) before)
    (hbefore : exec (Machine.step vector irq_handler) (.start init x cpu) before = some m)
    (hallocates : Allocates m p)
    (hcreate : m.step vector irq_handler (.create_task j p fn arg) = some m1)
    (hok1 : Allowed (Machine.step vector irq_handler)
      (fun s a => Fair s a ∧ (a = .task_switch → s.chosen ≠ some j)) m1 between)
    (hbetween : exec (Machine.step vector irq_handler) m1 between = some m2)
    (hchosen : m2.chosen = some j) :
    ∃ m3, m2.step vector irq_handler .task_switch = some m3 ∧ m3.current = j ∧
      m3.cpu.pc = fn ∧ m3.cpu.r 0 = arg ∧ (m3.cpu.get .sp).toNat = (taskArea p).top ∧
      m3.inside j = [] := by
  have hinv : Inv irq_handler m := inv_run hstart hok hbefore
  have hinv1 := hinv.create_task hallocates hcreate
  obtain ⟨hj, hnone, rfl⟩ := create_task_eq hcreate
  have hwait1 : Function.update m.waiting j (some (created m.cpu.mem p fn arg)) j =
      some (created m.cpu.mem p fn arg) := Function.update_self j _ _
  obtain ⟨hinv2, hwait2, hinside, -⟩ := waiting_run hinv1 hwait1 hok1 hbetween
  obtain ⟨u, hu, hresumed, -⟩ := hinv2.task_switch vector hchosen hwait2
  let mem := create_context m.cpu.mem p fn arg (taskArea p).top
  have hget : ∀ {i}, i < 12 → (cpuRegs.map u.get).getD i 0 = word mem (p.toNat + 4 * i) := by
    intro i hi
    exact (get_of_regs hresumed.regs hi).trans (readWords_getD (hi.trans (by decide)))
  obtain ⟨harg, htop, hfn⟩ : word mem p.toNat = arg ∧
      word mem (p.toNat + 40) = BitVec.ofNat 32 (taskArea p).top ∧
      word mem (p.toNat + 44) = fn := create_context_words
  refine ⟨_, hu, rfl, ?_, ?_, ?_, ?_⟩
  · exact hresumed.pc.trans ((hget (show 11 < 12 by decide)).trans hfn)
  · exact (hget (show 0 < 12 by decide)).trans harg
  · have hsp : u.get .sp = BitVec.ofNat 32 (taskArea p).top :=
      (hget (show 10 < 12 by decide)).trans htop
    have htop32 : (taskArea p).top < 2 ^ 32 :=
      (taskArea_ok hallocates.aligned hallocates.word).top.1
    dsimp only [Machine.switched]
    rw [hsp, BitVec.toNat_ofNat, Nat.mod_eq_of_lt htop32]
  · have hne : j ≠ m2.current := by
      rintro rfl
      rw [hinv2.running] at hwait2
      cases hwait2
    rw [inside_switched (.inl hne)]
    exact hinside.trans (hinv.fresh j hnone hj)

/-- The second task is made, and the first one switches to it. -/
theorem the_second_task_starts : ∃ m1 m3 : Machine (Fin 2),
    m1.step 0x18 0x8800 .task_switch = some m3 ∧ m3.current = 1 ∧
      m3.cpu.pc = 0x8400 ∧ m3.cpu.r 0 = 7 ∧
      (m3.cpu.get .sp).toNat = (taskArea 0x110000).top ∧ m3.inside 1 = [] := by
  obtain ⟨m1, hm1, hfree, w, hw⟩ : ∃ m1, (Machine.start (0 : Fin 2) (taskArea 0x100000) atCall).step
      0x18 0x8800 (.create_task 1 0x110000 0x8400 7) = some m1 ∧ m1.chosen = none ∧
      ∃ w, m1.waiting 1 = some w := ⟨_, rfl, rfl, _, rfl⟩
  have hchosen : m1.step 0x18 0x8800 (.switch_to 1) = some { m1 with chosen := some 1 } := by
    unfold Machine.step
    simp only [hw, reduceCtorEq, if_false]
  have hok : Allowed (Machine.step 0x18 0x8800)
      (fun s a => Fair s a ∧ (a = .task_switch → s.chosen ≠ some 1)) m1 [.switch_to 1] := by
    refine ⟨⟨hfree, fun heq => by cases heq⟩, ?_⟩
    rw [hchosen]
    trivial
  have hrun : exec (Machine.step 0x18 0x8800) m1 [.switch_to 1] =
      some { m1 with chosen := some 1 } := by
    simp only [exec, hchosen, Option.bind_some]
  obtain ⟨m3, hm3⟩ := a_new_task_starts_at_its_function atCall_starts [] [.switch_to 1] trivial rfl
    atCall_allocates hm1 hok hrun rfl
  exact ⟨_, m3, hm3⟩

/-- When `irq_handler` returns, in whatever the tasks have done in the meantime: the code that
was interrupted goes on with all its registers, with its stack and at its place; but what is in
the floating point registers is what `irq_handler` leaves there. It had been called with a
stack that is not aligned to 8. `switch_to` too is interrupted, up to its call of `task_switch`,
by an interrupt that does not switch tasks there. -/
theorem an_interrupt_is_not_noticed {init : ι} {x : Area} {cpu : Cpu}
    (hstart : Starts x cpu) (acts : List (Step ι))
    (hok : Allowed (Machine.step vector irq_handler) Fair (.start init x cpu) acts)
    (hrun : exec (Machine.step vector irq_handler) (.start init x cpu) acts = some m)
    {e : Entry} (hin : m.inside m.current = e :: es) (hreturns : Returns m) :
    ∃ m', m.step vector irq_handler .leave = some m' ∧
      (∀ reg, m'.cpu.get reg = e.before.get reg) ∧ m'.cpu.pc = e.before.pc ∧
      m'.cpu.cpsr = e.before.cpsr ∧
      (∀ a, (e.before.get .sp).toNat ≤ a → a < (m.area m.current).top →
        m'.cpu.mem a = e.before.mem a) ∧
      m'.cpu.s = m.cpu.s ∧ m'.cpu.fpscr = m.cpu.fpscr ∧ (e.call.get .sp).toNat % 8 = 4 := by
  have hinv : Inv irq_handler m := inv_run hstart hok hrun
  obtain ⟨t, ht, hleft, -⟩ := hinv.leave vector hreturns hin
  have hkept : e.Kept (m.area m.current) irq_handler (limit (m.area m.current) es) m.cpu.mem := by
    have hnested := hinv.nested m.current
    rw [hin] at hnested
    exact hnested.1
  have hroom : 40 ≤ (e.before.get .sp).toNat := (Nat.le_add_left _ _).trans hkept.bottom
  refine ⟨_, ht, ?_, hleft.pc, hleft.cpsr, ?_, hleft.s, hleft.fpscr,
    hkept.entered.sp_mod hkept.aligned hroom⟩
  · intro reg
    by_cases hreg : reg ∈ scratch
    · exact List.map_inj_left.mp hleft.scratch reg hreg
    · cases reg with
      | r i =>
        have hi : i ≠ 1 := by
          rintro rfl
          exact hreg (by decide)
        have hreturned : m.cpu.r i = e.call.r i := hreturns.regs e (by rw [hin]; rfl) i hreg
        exact (hleft.others i hreg).trans (hreturned.trans (hkept.entered.regs i hi))
      | sp => exact hleft.sp
      | lr => exact absurd (by decide) hreg
  · intro a hlow hhigh
    dsimp only
    rw [hleft.mem]
    exact hkept.stack a hlow hhigh

/-- An interrupt of the first task. -/
theorem an_interrupt_at_a_call : ∃ m m' : Machine (Fin 2),
    m.step 0x18 0x8800 .leave = some m' ∧
      (∀ reg, m'.cpu.get reg = atCall.get reg) ∧ m'.cpu.pc = atCall.pc ∧
      m'.cpu.cpsr = atCall.cpsr ∧
      (∀ a, (atCall.get .sp).toNat ≤ a → a < (m.area m.current).top →
        m'.cpu.mem a = atCall.mem a) ∧
      m'.cpu.s = m.cpu.s ∧ m'.cpu.fpscr = m.cpu.fpscr ∧ (m.cpu.get .sp).toNat % 8 = 4 := by
  obtain ⟨t, ht, -⟩ := enter_spec (c := atCall) 0x18 0x8800 (by decide) (by decide) (by decide)
  let x := taskArea 0x100000
  let m : Machine (Fin 2) :=
    { Machine.start 0 x atCall with
      cpu := t
      inside := Function.update (fun _ => []) 0 [⟨atCall, t⟩] }
  have hstep : (Machine.start 0 x atCall).step 0x18 0x8800 .interrupt = some m := by
    have hcpu : (Machine.start (0 : Fin 2) x atCall).cpu = atCall := rfl
    unfold Machine.step
    simp only [hcpu, ht, Option.map_some]
    rfl
  have hok : Allowed (Machine.step 0x18 0x8800) Fair (.start (0 : Fin 2) x atCall)
      [.interrupt] := by
    refine ⟨?_, ?_⟩
    · change x.bottom + 40 ≤ (atCall.get .sp).toNat
      decide
    · rw [hstep]
      trivial
  have hrun : exec (Machine.step 0x18 0x8800) (.start 0 x atCall) [.interrupt] = some m := by
    simp only [exec, hstep, Option.bind_some]
  have hreturns : Returns m := by
    refine ⟨?_, ?_⟩
    · rintro e he
      cases he
      rfl
    · rintro e he i -
      cases he
      rfl
  have hin : m.inside m.current = [⟨atCall, t⟩] := rfl
  obtain ⟨m', hm', hrest⟩ := an_interrupt_is_not_noticed atCall_starts _ hok hrun hin hreturns
  exact ⟨m, m', hm', hrest⟩

end rpi_wifi.contexts
