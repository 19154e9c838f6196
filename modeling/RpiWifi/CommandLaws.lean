-- The law of the command results: what the stack holds plays no part exactly as long as
-- every command whose response is tested is answered. The array of `sdiocmd_locked` is
-- not set before the command, and its value is not asked for.
import RpiWifi.CommandResults

namespace rpi_wifi.ether4330.results

open emmc two_runs

/-- A stack of zeros. -/
def zeros : Stack := fun _ _ => 0

/-- A stack of ones. -/
def ones : Stack := fun _ _ => 0xFFFFFFFF

/-- The runs of a program from `s`, which part for the two stacks after a test of a
response that did not come. -/
abbrev Follows {α : Type} (p : Stack → Host → Host × α) (s : Host) : Prop :=
  Tracked Host.branches Host.lost zeros ones p s

/-! ## Single commands -/

theorem after_branches (s : Host) (cmd arg : Word) : (s.after cmd arg).branches = s.branches := by
  unfold Host.after
  split <;> rfl

theorem after_lost (s : Host) (cmd arg : Word) : (s.after cmd arg).lost = s.lost := by
  unfold Host.after
  split <;> rfl

theorem test_grows (s : Host) (b : Bool) : s.branches <+: (s.test b).branches := by
  unfold Host.test
  split
  · exact List.prefix_rfl
  · exact List.prefix_append _ _

theorem test_keeps (s : Host) (b : Bool) (h : s.lost = true) : (s.test b).lost = true := by
  unfold Host.test
  split
  · exact h
  · simp [h]

theorem test_failed (s : Host) (b : Bool) : (s.test b).failed = s.failed := by
  unfold Host.test
  split <;> rfl

theorem test_appcmd (s : Host) (b : Bool) : (s.test b).appcmd = s.appcmd := by
  unfold Host.test
  split <;> rfl

/-- A command whose response is tested at once. -/
def probe (cmd arg : Word) (P : Word → Bool) (stack : Stack) (s : Host) : Host × Word :=
  let q := sdiocmd stack s cmd arg
  (q.1.test (P q.2), q.2)

/-- The test of a response that did not come is noted, and marks the run. -/
theorem probe_fails {cmd arg : Word} {P : Word → Bool} {s : Host} (h : s.next cmd arg = .fails)
    (f : Stack) :
    (probe cmd arg P f s).1.branches = s.branches ++ [P (f s.calls 0)] ∧
      (probe cmd arg P f s).1.lost = true := by
  have hwait : s.waiting = false := by
    by_contra hw
    rw [Bool.not_eq_false] at hw
    unfold Host.next at h
    rw [if_pos hw] at h
    cases h
  unfold probe Host.test
  rw [sdiocmd_eq, h]
  simp [Host.after, h, hwait]

theorem probe_same {cmd arg : Word} {P : Word → Bool} {s : Host} (h : s.next cmd arg ≠ .fails)
    (f g : Stack) : probe cmd arg P f s = probe cmd arg P g s := by
  unfold probe
  rw [sdiocmd_eq, sdiocmd_eq]
  rcases hn : s.next cmd arg with _ | _ | v
  · rfl
  · exact absurd hn h
  · rfl

theorem probe_lost {cmd arg : Word} {P : Word → Bool} {s : Host} (h : s.next cmd arg ≠ .fails)
    (f : Stack) : (probe cmd arg P f s).1.lost = s.lost := by
  unfold probe Host.test
  rw [sdiocmd_eq]
  rcases hn : s.next cmd arg with _ | _ | v
  · simp [Host.after, hn]
  · exact absurd hn h
  · dsimp only
    split
    · exact after_lost s cmd arg
    · simp [Host.after, hn]

theorem probe_follows (cmd arg : Word) {P : Word → Bool} (hP : P 0 ≠ P 0xFFFFFFFF) (s : Host) :
    Follows (probe cmd arg P) s := by
  constructor
  · intro f
    unfold probe
    rw [sdiocmd_eq]
    dsimp only
    rw [← after_branches s cmd arg]
    exact test_grows _ _
  · intro f h
    unfold probe
    rw [sdiocmd_eq]
    apply test_keeps
    rw [after_lost]
    exact h
  · intro f g h
    apply probe_same
    intro hn
    rw [(probe_fails hn f).2] at h
    cases h
  · intro h h'
    have hn : s.next cmd arg = .fails := by
      by_contra hn
      rw [probe_lost hn, h] at h'
      cases h'
    refine ⟨s.branches, P 0, P 0xFFFFFFFF, hP, ?_, ?_⟩
    · rw [(probe_fails hn zeros).1]
      exact List.prefix_rfl
    · rw [(probe_fails hn ones).1]
      exact List.prefix_rfl

/-- A command whose response is not tested. -/
theorem sdiocmd_follows (cmd arg : Word) (s : Host) :
    Follows (fun f s => ((sdiocmd f s cmd arg).1, ())) s := by
  refine Tracked.congr (Tracked.of_const (q := fun s : Host => (s.after cmd arg, ())) ?_ ?_) ?_
  · rw [after_branches]
  · exact after_lost s cmd arg
  · intro f
    rw [sdiocmd_eq]

/-- A value is worked out of the value of a program. -/
theorem Follows.map {α β : Type} {p : Stack → Host → Host × α} {s : Host} (h : Follows p s)
    (f : α → β) : Follows (fun x s => ((p x s).1, f (p x s).2)) s :=
  h.bind (q := fun a _ s => (s, f a)) fun _ _ =>
    Tracked.of_const (q := fun s => (s, _)) List.prefix_rfl rfl

/-! ## The functions of the driver -/

/-- The test of a response for errors. -/
def bad (r : Word) : Bool := r &&& 0xCF00 ≠ 0

theorem sdiord_follows (fn addr : Word) (s : Host) :
    Follows (fun f s => sdiord f s fn addr) s :=
  Follows.map (probe_follows IO_RW_DIRECT _ (P := bad) (by decide) s)
    fun r => if r &&& 0xCF00 ≠ 0 then 0 else r &&& 0xFF

/-- A response without an error, as the loop of `sdiowr` tests it. -/
def good (r : Word) : Bool := r &&& 0xCF00 = 0

/-- What the loop of `sdiowr` does after an attempt. -/
def afterTry (arg : Word) (n : Nat) (r : Word) (f : Stack) (s : Host) : Host × Nat :=
  if r &&& 0xCF00 = 0 then (s, 1)
  else ((sdiowrTry f s arg n).1, (sdiowrTry f s arg n).2 + 1)

theorem sdiowrTry_succ (arg : Word) (n : Nat) (f : Stack) (s : Host) :
    sdiowrTry f s arg (n + 1) =
      afterTry arg n (probe IO_RW_DIRECT arg good f s).2 f (probe IO_RW_DIRECT arg good f s).1 :=
  rfl

theorem sdiowrTry_follows (arg : Word) (n : Nat) (s : Host) :
    Follows (fun f s => sdiowrTry f s arg n) s := by
  induction n generalizing s with
  | zero => exact Tracked.of_const (q := fun s => (s, 0)) List.prefix_rfl rfl
  | succ n ih =>
    have hprobe := probe_follows IO_RW_DIRECT arg (P := good) (by decide) s
    simp only [sdiowrTry_succ]
    refine hprobe.bind (q := afterTry arg n) ?_
    intro f r
    unfold afterTry
    by_cases hr : r &&& 0xCF00 = 0
    · simp only [if_pos hr]
      exact Tracked.of_const (q := fun s => (s, 1)) List.prefix_rfl rfl
    · simp only [if_neg hr]
      exact (ih _).map (· + 1)

theorem sdiowr_follows (fn addr data : Word) (s : Host) :
    Follows (fun f s => sdiowr f s fn addr data) s := sdiowrTry_follows _ 10 s

theorem sdioset_follows (fn addr bits : Word) (s : Host) :
    Follows (fun f s => (sdioset f s fn addr bits, ())) s :=
  (sdiord_follows fn addr s).bind (q := fun v f s => ((sdiowr f s fn addr (v ||| bits)).1, ()))
    fun _ v => (sdiowr_follows fn addr (v ||| bits) _).map fun _ => ()

/-- The operating conditions say that the card is not ready yet. -/
def notReady (ocr : Word) : Bool := ocr &&& 1 <<< 31 = 0

/-- The operating conditions are asked for, and looked at in the loop of `sdioinit`. -/
def askOcr (arg : Word) (i : Nat) (f : Stack) (s : Host) : Host × Bool :=
  waitOcr f (trysdiocmd f s IO_SEND_OP_COND arg).1 (trysdiocmd f s IO_SEND_OP_COND arg).2 i

/-- What the loop does after a look. -/
def afterLook (i : Nat) (ocr : Word) (f : Stack) (s : Host) : Host × Bool :=
  match i with
  | 0 => (s, ocr &&& 1 <<< 31 ≠ 0)
  | i + 1 => if ocr &&& 1 <<< 31 = 0 then askOcr V3_3 i f s else (s, true)

theorem askOcr_eq (arg : Word) (i : Nat) (f : Stack) (s : Host) :
    askOcr arg i f s = afterLook i (probe IO_SEND_OP_COND arg notReady f s).2 f
      (probe IO_SEND_OP_COND arg notReady f s).1 := by
  cases i <;> rfl

theorem askOcr_follows (arg : Word) (i : Nat) (s : Host) : Follows (askOcr arg i) s := by
  induction i generalizing arg s with
  | zero =>
    have hprobe := probe_follows IO_SEND_OP_COND arg (P := notReady) (by decide) s
    refine (hprobe.bind (q := afterLook 0) ?_).congr fun f => askOcr_eq arg 0 f s
    intro f ocr
    exact Tracked.of_const (q := fun s => (s, _)) List.prefix_rfl rfl
  | succ i ih =>
    have hprobe := probe_follows IO_SEND_OP_COND arg (P := notReady) (by decide) s
    refine (hprobe.bind (q := afterLook (i + 1)) ?_).congr fun f => askOcr_eq arg (i + 1) f s
    intro f ocr
    unfold afterLook
    by_cases hocr : ocr &&& 1 <<< 31 = 0
    · simp only [if_pos hocr]
      exact ih V3_3 _
    · simp only [if_neg hocr]
      exact Tracked.of_const (q := fun s => (s, true)) List.prefix_rfl rfl

/-- The card is given an address and selected by it. -/
def select (f : Stack) (s : Host) : Host :=
  let rca := sdiocmd f s SEND_RELATIVE_ADDR 0
  (sdiocmd f rca.1 SELECT_CARD (rca.2 >>> Rcashift <<< Rcashift)).1

theorem select_follows (s : Host) : Follows (fun f s => (select f s, ())) s := by
  refine Tracked.congr (Tracked.of_const
    (q := fun s : Host => ((s.after SEND_RELATIVE_ADDR 0).after SELECT_CARD 0, ())) ?_ ?_) ?_
  · rw [after_branches, after_branches]
  · dsimp only
    rw [after_lost, after_lost]
  · intro f
    unfold select
    rw [sdiocmd_eq]
    dsimp only
    rw [sdiocmd_eq, after_arg _ (by decide) _ 0]

/-- Behind the test of a response, another test of it marks nothing that is not marked. -/
theorem probe_marked (cmd arg : Word) (P : Word → Bool) (f : Stack) (s : Host) (b : Bool) :
    ((probe cmd arg P f s).1.test b).lost = (probe cmd arg P f s).1.lost := by
  by_cases hn : s.next cmd arg = .fails
  · rw [(probe_fails hn f).2]
    exact test_keeps _ _ (probe_fails hn f).2
  · have hclear : (probe cmd arg P f s).1.waiting = true ∨
        (probe cmd arg P f s).1.failed = false := by
      unfold probe
      rw [sdiocmd_eq]
      rcases ho : s.next cmd arg with _ | _ | v
      · exact .inl (by simp [Host.after, ho])
      · exact absurd ho hn
      · refine .inr ?_
        rw [test_failed]
        simp [Host.after, ho]
    rcases hclear with hw | hf
    · conv_lhs => unfold Host.test
      rw [if_pos hw]
    · conv_lhs => unfold Host.test
      rw [hf]
      split <;> simp

/-- The value of a register, and a look at it. -/
def lookAt (fn addr : Word) (P : Word → Bool) (f : Stack) (s : Host) : Host × Word :=
  ((sdiord f s fn addr).1.test (P (sdiord f s fn addr).2), (sdiord f s fn addr).2)

theorem lookAt_follows (fn addr : Word) (P : Word → Bool) (s : Host) :
    Follows (lookAt fn addr P) s := by
  refine (sdiord_follows fn addr s).bind (q := fun v _ s => (s.test (P v), v)) ?_
  intro f v
  refine Tracked.of_const (q := fun s : Host => (s.test (P v), v)) ?_ ?_
  · exact test_grows _ _
  · exact probe_marked IO_RW_DIRECT _ bad f s _

/-- What the loop that waits for function 1 does after a look. -/
def afterReady (v : Word) (f : Stack) (s : Host) : Host × Unit :=
  if v &&& 1 <<< 1 ≠ 0 ∨ s.waiting then (s, ()) else (waitReady f s, ())

theorem waitReady_eq (f : Stack) (s : Host) :
    (waitReady f s, ()) = afterReady (lookAt Fn0 Ioready (fun v => v &&& 1 <<< 1 = 0) f s).2 f
      (lookAt Fn0 Ioready (fun v => v &&& 1 <<< 1 = 0) f s).1 := by
  unfold waitReady afterReady lookAt
  dsimp only
  split <;> rfl

theorem lookAt_readings {fn addr : Word} {P : Word → Bool} {f : Stack} {s : Host}
    (h : (lookAt fn addr P f s).1.waiting = false) :
    (lookAt fn addr P f s).1.readings.length < s.readings.length := by
  unfold lookAt sdiord at *
  dsimp only at *
  rw [test_waiting, test_waiting] at h
  rw [test_readings, test_readings]
  exact sdiocmd_readings f h

theorem waitReady_follows (s : Host) : Follows (fun f s => (waitReady f s, ())) s := by
  induction hk : s.readings.length using Nat.strong_induction_on generalizing s with
  | _ k ih =>
    refine Tracked.congr ((lookAt_follows Fn0 Ioready _ s).bind (q := afterReady) ?_)
      fun f => waitReady_eq f s
    intro f v
    generalize hs : (lookAt Fn0 Ioready (fun v => v &&& 1 <<< 1 = 0) f s).1 = t
    by_cases hend : v &&& 1 <<< 1 ≠ 0 ∨ t.waiting = true
    · refine (Tracked.of_const (q := fun s : Host => (s, ())) List.prefix_rfl rfl).congr ?_
      intro g
      unfold afterReady
      rw [if_pos hend]
    · have hlt : t.readings.length < k := by
        rw [← hk, ← hs]
        apply lookAt_readings
        rw [hs]
        exact Bool.eq_false_of_not_eq_true (not_or.mp hend).2
      refine (ih t.readings.length hlt t rfl).congr ?_
      intro g
      unfold afterReady
      rw [if_neg hend]

/-- What `sdioinit` does with the card that is ready. -/
def setUp (f : Stack) (s : Host) : Host :=
  let s := select f s
  let s := sdioset f s Fn0 Highspeed 2
  let s := sdioset f s Fn0 Busifc 2
  let s := (sdiowr f s Fn0 (Fbr1 + Blksize) 64).1
  let s := (sdiowr f s Fn0 (Fbr1 + Blksize + 1) (64 >>> 8)).1
  let s := (sdiowr f s Fn0 (Fbr2 + Blksize) 512).1
  let s := (sdiowr f s Fn0 (Fbr2 + Blksize + 1) (512 >>> 8)).1
  let s := sdioset f s Fn0 Ioenable (1 <<< 1)
  let s := (sdiowr f s Fn0 Intenable 0).1
  waitReady f s

/-- One step of a set-up after the other. -/
theorem Follows.step {p q : Stack → Host → Host} {s : Host} (hp : Follows (fun f s => (p f s, ())) s)
    (hq : ∀ s, Follows (fun f s => (q f s, ())) s) : Follows (fun f s => (q f (p f s), ())) s :=
  hp.bind (q := fun _ f s => (q f s, ())) fun _ _ => hq _

theorem sdiowr_step (fn addr data : Word) (s : Host) :
    Follows (fun f s => ((sdiowr f s fn addr data).1, ())) s :=
  (sdiowr_follows fn addr data s).map fun _ => ()

theorem setUp_follows (s : Host) : Follows (fun f s => (setUp f s, ())) s := by
  apply Follows.step (q := waitReady) ?_ waitReady_follows
  apply Follows.step (q := fun f s => (sdiowr f s Fn0 Intenable 0).1) ?_ (sdiowr_step _ _ _)
  apply Follows.step (q := fun f s => sdioset f s Fn0 Ioenable (1 <<< 1)) ?_ (sdioset_follows _ _ _)
  apply Follows.step (q := fun f s => (sdiowr f s Fn0 (Fbr2 + Blksize + 1) (512 >>> 8)).1) ?_
    (sdiowr_step _ _ _)
  apply Follows.step (q := fun f s => (sdiowr f s Fn0 (Fbr2 + Blksize) 512).1) ?_
    (sdiowr_step _ _ _)
  apply Follows.step (q := fun f s => (sdiowr f s Fn0 (Fbr1 + Blksize + 1) (64 >>> 8)).1) ?_
    (sdiowr_step _ _ _)
  apply Follows.step (q := fun f s => (sdiowr f s Fn0 (Fbr1 + Blksize) 64).1) ?_ (sdiowr_step _ _ _)
  apply Follows.step (q := fun f s => sdioset f s Fn0 Busifc 2) ?_ (sdioset_follows _ _ _)
  apply Follows.step (q := fun f s => sdioset f s Fn0 Highspeed 2) ?_ (sdioset_follows _ _ _)
  exact select_follows s

/-- What `sdioinit` does when it knows whether the card is ready. -/
def goOn (ready : Bool) (f : Stack) (s : Host) : Host := if ready = false then s else setUp f s

theorem sdioinit_follows (s : Host) : Follows (fun f s => (sdioinit f s, ())) s := by
  have hidle := sdiocmd_follows GO_IDLE_STATE 0 s
  have hask := hidle.bind (q := fun _ => askOcr 0 5) fun _ _ => askOcr_follows 0 5 _
  refine hask.bind (q := fun ready f s => (goOn ready f s, ())) ?_
  intro f ready
  unfold goOn
  cases ready with
  | false => exact Tracked.of_const (q := fun s => (s, ())) List.prefix_rfl rfl
  | true => exact setUp_follows _

/-! ## The number of attempts -/

/-- No attempt that is followed by another one fails. -/
def Settled (appcmd : Bool) : Nat → List Reading → Prop
  | n + 2, ρ :: rest =>
    match outcome appcmd IO_RW_DIRECT 0 ρ with
    | .waits => True
    | .fails => False
    | .answers v => v &&& 0xCF00 = 0 ∨ Settled false (n + 1) rest
  | _, _ => True

theorem sdiowrTry_pos (f : Stack) (s : Host) (arg : Word) (n : Nat) :
    0 < (sdiowrTry f s arg (n + 1)).2 := by
  rw [sdiowrTry_succ]
  unfold afterTry
  split
  · exact Nat.zero_lt_one
  · exact Nat.succ_pos _

/-- The attempts when the next command gives the word `r`. -/
theorem attempts_word {f : Stack} {s : Host} {arg r : Word} (n : Nat)
    (hr : (sdiocmd f s IO_RW_DIRECT arg).2 = r) :
    (sdiowrTry f s arg (n + 1)).2 =
      if r &&& 0xCF00 = 0 then 1
      else (sdiowrTry f ((s.after IO_RW_DIRECT arg).test (good r)) arg n).2 + 1 := by
  rw [sdiocmd_eq] at hr
  rw [sdiowrTry_succ]
  unfold probe afterTry
  rw [sdiocmd_eq]
  dsimp only at hr ⊢
  rw [hr]
  split <;> rfl

/-- A command that waits, or that is answered well, ends the attempts. -/
theorem attempts_one {s : Host} {arg : Word} (n : Nat)
    (h : s.next IO_RW_DIRECT arg = .waits ∨
      ∃ v, s.next IO_RW_DIRECT arg = .answers v ∧ v &&& 0xCF00 = 0) (f : Stack) :
    (sdiowrTry f s arg (n + 1)).2 = 1 := by
  rcases h with h | ⟨v, h, hv⟩
  · have hword : (sdiocmd f s IO_RW_DIRECT arg).2 = 0 := by
      rw [sdiocmd_eq, h]
    rw [attempts_word n hword]
    rfl
  · have hword : (sdiocmd f s IO_RW_DIRECT arg).2 = v := by
      rw [sdiocmd_eq, h]
    rw [attempts_word n hword, if_pos hv]

theorem attempts_iff {s : Host} (hw : s.waiting = false) (arg : Word) (n : Nat) :
    (∀ f g, (sdiowrTry f s arg n).2 = (sdiowrTry g s arg n).2) ↔
      Settled s.appcmd n s.readings := by
  induction n using Nat.twoStepInduction generalizing s with
  | zero => exact ⟨fun _ => trivial, fun _ _ _ => rfl⟩
  | one =>
    have hone : ∀ f, (sdiowrTry f s arg 1).2 = 1 := by
      intro f
      rw [attempts_word 0 rfl]
      split <;> rfl
    refine ⟨fun _ => trivial, fun _ f g => ?_⟩
    rw [hone, hone]
  | more n _ ih =>
    have hnext : s.next IO_RW_DIRECT arg =
        s.readings.head?.elim .waits (outcome s.appcmd IO_RW_DIRECT 0) := by
      rw [next_arg s (by decide) arg 0]
      unfold Host.next
      rw [hw]
      cases s.readings <;> rfl
    rcases hr : s.readings with _ | ⟨ρ, rest⟩
    · rw [hr] at hnext
      simp only [List.head?_nil, Option.elim_none] at hnext
      refine ⟨fun _ => trivial, fun _ f g => ?_⟩
      rw [attempts_one _ (.inl hnext), attempts_one _ (.inl hnext)]
    · rw [hr] at hnext
      simp only [List.head?_cons, Option.elim_some] at hnext
      unfold Settled
      rcases ho : outcome s.appcmd IO_RW_DIRECT 0 ρ with _ | _ | v
      · rw [ho] at hnext
        refine ⟨fun _ => trivial, fun _ f g => ?_⟩
        rw [attempts_one _ (.inl hnext), attempts_one _ (.inl hnext)]
      · -- The zeros end the attempts here, and the ones go on.
        rw [ho] at hnext
        have hword : ∀ f, (sdiocmd f s IO_RW_DIRECT arg).2 = f s.calls 0 := by
          intro f
          rw [sdiocmd_eq, hnext]
        refine ⟨fun hall => ?_, False.elim⟩
        have h := hall zeros ones
        have hgood : zeros s.calls 0 &&& 0xCF00 = 0 := BitVec.zero_and
        have hbad : ¬ ones s.calls 0 &&& 0xCF00 = 0 := by
          unfold ones
          decide
        have hpos := sdiowrTry_pos ones
          ((s.after IO_RW_DIRECT arg).test (good (ones s.calls 0))) arg n
        rw [attempts_word (n + 1) (hword zeros), attempts_word (n + 1) (hword ones),
          if_pos hgood, if_neg hbad] at h
        omega
      · rw [ho] at hnext
        have hword : ∀ f, (sdiocmd f s IO_RW_DIRECT arg).2 = v := by
          intro f
          rw [sdiocmd_eq, hnext]
        by_cases hv : v &&& 0xCF00 = 0
        · refine ⟨fun _ => .inl hv, fun _ f g => ?_⟩
          rw [attempts_one _ (.inr ⟨v, hnext, hv⟩), attempts_one _ (.inr ⟨v, hnext, hv⟩)]
        · set t := (s.after IO_RW_DIRECT arg).test (good v) with ht
          have hstep : ∀ f, (sdiowrTry f s arg (n + 2)).2 = (sdiowrTry f t arg (n + 1)).2 + 1 := by
            intro f
            rw [attempts_word (n + 1) (hword f), if_neg hv]
          have htw : t.waiting = false := by
            rw [ht, test_waiting]
            simp [Host.after, hnext, hw]
          have htr : t.readings = rest := by
            rw [ht, test_readings]
            simp [Host.after, hnext, hr]
          have hta : t.appcmd = false := by
            rw [ht, test_appcmd]
            unfold Host.after
            rw [hnext]
            rfl
          have hiff := ih htw
          rw [htr, hta] at hiff
          simp only [hstep, Nat.add_right_cancel_iff]
          rw [hiff]
          exact ⟨fun h => .inr h, fun h => h.resolve_left hv⟩

/-! ## The law of the command results -/

theorem sdiord_iff (s : Host) (fn addr : Word) :
    (∀ f g, (sdiord f s fn addr).2 = (sdiord g s fn addr).2) ↔ s.next IO_RW_DIRECT 0 ≠ .fails := by
  set arg := (fn &&& 7) <<< 28 ||| (addr &&& 0x1FFFF) <<< 9 with harg
  rw [next_arg s (by decide) 0 arg]
  have hvalue : ∀ f, (sdiord f s fn addr).2 =
      if bad (sdiocmd f s IO_RW_DIRECT arg).2 then 0
      else (sdiocmd f s IO_RW_DIRECT arg).2 &&& 0xFF := by
    intro f
    simp [sdiord, bad, harg]
  constructor
  · intro hall hn
    have h := hall zeros fun _ _ => 1
    rw [hvalue, hvalue, sdiocmd_eq, sdiocmd_eq, hn] at h
    have h01 : (if bad 0 then (0 : Word) else 0 &&& 0xFF) =
      if bad 1 then (0 : Word) else 1 &&& 0xFF := h
    revert h01
    decide
  · intro hn f g
    rw [hvalue, hvalue, sdiocmd_eq, sdiocmd_eq]
    rcases ho : s.next IO_RW_DIRECT arg with _ | _ | v
    · rfl
    · exact absurd ho hn
    · rfl

/-- A run before its first command. -/
def Host.start (readings : List Reading) (appcmd : Bool) : Host :=
  ⟨readings, appcmd, 0, false, [], false, false⟩

/-- The stack plays no part in what `sdiord` returns exactly when its command does not fail,
in the number of attempts of `sdiowr` exactly when no attempt but the tenth fails, and in
the branches of `sdioinit` exactly when no command whose response it tests fails. -/
theorem the_stack_plays_no_part_iff (readings : List Reading) (appcmd : Bool)
    (fn addr data : Word) :
    ((∀ f g, (sdiord f (Host.start readings appcmd) fn addr).2 =
        (sdiord g (Host.start readings appcmd) fn addr).2) ↔
      (Host.start readings appcmd).next IO_RW_DIRECT 0 ≠ .fails) ∧
    ((∀ f g, (sdiowr f (Host.start readings appcmd) fn addr data).2 =
        (sdiowr g (Host.start readings appcmd) fn addr data).2) ↔ Settled appcmd 10 readings) ∧
    ((∀ f g, (sdioinit f (Host.start readings appcmd)).branches =
        (sdioinit g (Host.start readings appcmd)).branches) ↔
      ∀ f, (sdioinit f (Host.start readings appcmd)).lost = false) := by
  refine ⟨?_, attempts_iff rfl _ 10, (sdioinit_follows _).iff rfl⟩
  exact sdiord_iff _ fn addr

/-- A command that the card answers with a time-out: `Ctoerr` and `Err`. -/
def timedOut : Reading := ⟨[0, 0, 0, 0x18000, 0], [0]⟩

/-- A command without a response that ends well. -/
def ended : Reading := ⟨[0, 0, 0, 1], [0]⟩

/-- What the stack holds decides what a time-out means: a value that is read, the end of
the attempts, and whether the card is ready. -/
theorem the_stack_decides_after_a_timeout :
    (sdiord (fun _ _ => 0x42) (Host.start [timedOut] false) 0 0x03).2 ≠
      (sdiord (fun _ _ => 0) (Host.start [timedOut] false) 0 0x03).2 ∧
    (sdiowr (fun _ _ => 0) (Host.start [timedOut, timedOut] false) 0 0x04 0).2 ≠
      (sdiowr (fun _ _ => 0xFFFFFFFF) (Host.start [timedOut, timedOut] false) 0 0x04 0).2 ∧
    (sdioinit (fun _ _ => 0) (Host.start [ended, timedOut] false)).branches ≠
      (sdioinit (fun _ _ => 0xFFFFFFFF) (Host.start [ended, timedOut] false)).branches := by
  decide +kernel

end rpi_wifi.ether4330.results
