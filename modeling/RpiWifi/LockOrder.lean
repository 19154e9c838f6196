-- Programs that take and release locks. Where each lock ranks above the ones that are
-- held when it is taken, and each function gives back what it takes on all its ways out,
-- the tasks never wait for each other in a circle.
import RpiWifi.Runs

namespace lock_order

open runs

universe u v
variable {L : Type u} {T : Type v}

/-! ## Programs -/

/-- What a program does with locks. Conditions are left open, and what touches no lock is
`skip`. `wait` waits for something that only a server brings about, and a `loop` ends only
with a `break` or a `return` inside it. -/
inductive Stmt (L : Type u) where
  | skip
  | acquire (l : L)
  | release (l : L)
  | wait
  | seq (a b : Stmt L)
  | choice (a b : Stmt L)
  | loop (body : Stmt L)
  | call (body : Stmt L)
  | ret
  | brk
  | cont

/-- One statement after the other. -/
def block : List (Stmt L) → Stmt L
  | [] => .skip
  | a :: rest => .seq a (block rest)

/-- `if (...) a`. -/
def when (a : Stmt L) : Stmt L := .choice a .skip

/-- One of the branches of a `switch`. -/
def oneOf : List (Stmt L) → Stmt L
  | [] => .skip
  | a :: rest => .choice a (oneOf rest)

/-- `while (cond) body`, where `cond` is what happens on the way to the condition. -/
def whileDo (cond body : Stmt L) : Stmt L := .loop (block [cond, .choice .skip .brk, body])

/-- What a task still has to do: run a statement, go on with a loop, or come back from a
call. With the call stands what the task held when it began, which the code does not keep. -/
inductive Item (L : Type u) where
  | run (a : Stmt L)
  | again (body : Stmt L)
  | back (entered : Finset L)

/-- `return`: the rest of the call is left out. -/
def returns : List (Item L) → Option (List (Item L))
  | [] => none
  | .back _ :: k => some k
  | .run _ :: k | .again _ :: k => returns k

/-- What the task held when the call began that it is in. -/
def entered : List (Item L) → Option (Finset L)
  | [] => none
  | .back H :: _ => some H
  | .run _ :: k | .again _ :: k => entered k

/-- `break`: the rest of the loop is left out. -/
def breaks : List (Item L) → Option (List (Item L))
  | [] | .back _ :: _ => none
  | .again _ :: k => some k
  | .run _ :: k => breaks k

/-- `continue`: the rest of the turn is left out. -/
def continues : List (Item L) → Option (List (Item L))
  | [] | .back _ :: _ => none
  | .again body :: k => some (.again body :: k)
  | .run _ :: k => continues k

/-- The tasks, and who holds each lock. -/
structure State (L : Type u) (T : Type v) where
  control : T → List (Item L)
  holder : L → Option T

section

variable [DecidableEq L] [Fintype L] [DecidableEq T]

def State.held (s : State L T) (t : T) : Finset L := Finset.univ.filter fun l => s.holder l = some t

def State.goto (s : State L T) (t : T) (k : List (Item L)) : State L T :=
  { s with control := Function.update s.control t k }

def State.hold (s : State L T) (l : L) (o : Option T) : State L T :=
  { s with holder := Function.update s.holder l o }

/-- The task `t` does its next thing; `b` decides where the program leaves it open. A lock
that is held stops it, and a wait lets it go on at any time. -/
def step (s : State L T) : T × Bool → Option (State L T)
  | (t, b) =>
    match s.control t with
    | [] => none
    | .back _ :: k => some (s.goto t k)
    | .again body :: k => some (s.goto t (.run (.loop body) :: k))
    | .run .skip :: k => some (s.goto t k)
    | .run (.acquire l) :: k =>
      if s.holder l = none then some ((s.hold l (some t)).goto t k) else none
    | .run (.release l) :: k => some ((s.hold l none).goto t k)
    | .run .wait :: k => some (s.goto t k)
    | .run (.seq a c) :: k => some (s.goto t (.run a :: .run c :: k))
    | .run (.choice a c) :: k => some (s.goto t (.run (if b then a else c) :: k))
    | .run (.loop body) :: k => some (s.goto t (.run body :: .again body :: k))
    | .run (.call body) :: k => some (s.goto t (.run body :: .back (s.held t) :: k))
    | .run .ret :: k => (returns k).map (s.goto t)
    | .run .brk :: k => (breaks k).map (s.goto t)
    | .run .cont :: k => (continues k).map (s.goto t)

end

/-- The tasks that begin with these programs. -/
def begin (program : T → Stmt L) : State L T := ⟨fun t => [.run (program t)], fun _ => none⟩

/-- The lock that comes next. -/
def standsAt : List (Item L) → Option L
  | .run (.acquire l) :: _ => some l
  | _ => none

theorem standsAt_some {k : List (Item L)} {l : L} (h : standsAt k = some l) :
    ∃ k', k = .run (.acquire l) :: k' := by
  unfold standsAt at h
  split at h
  · next m k' =>
    cases h
    exact ⟨k', rfl⟩
  · cases h

/-- The task stands at a lock that `u` holds, or it waits for something and `u` is a server. -/
def WaitsFor (server : T → Prop) (s : State L T) (t u : T) : Prop :=
  (∃ l, standsAt (s.control t) = some l ∧ s.holder l = some u) ∨
    (∃ k, s.control t = .run .wait :: k) ∧ server u

/-! ## The order -/

/-- The rank of each lock, and of a wait. -/
structure Order (L : Type u) where
  rank : L → Nat
  wait : Nat

/-- What has to hold of the locks held, at each way out of a statement. -/
structure Ways (L : Type u) where
  normal : Finset L → Prop
  ret : Finset L → Prop
  brk : Finset L → Prop
  cont : Finset L → Prop

variable [DecidableEq L] {o : Order L} {floor : Nat}

/-- The statement keeps to the order from `floor` on, when it begins with the locks `H`, and
each way out finds what it needs. -/
def Safe (o : Order L) (floor : Nat) : Stmt L → Ways L → Finset L → Prop
  | .skip, w, H => w.normal H
  | .acquire l, w, H =>
    floor ≤ o.rank l ∧ (∀ m ∈ H, o.rank m < o.rank l) ∧ w.normal (insert l H)
  | .release l, w, H => l ∈ H ∧ w.normal (H.erase l)
  | .wait, w, H => floor ≤ o.wait ∧ (∀ m ∈ H, o.rank m < o.wait) ∧ w.normal H
  | .seq a b, w, H => Safe o floor a { w with normal := Safe o floor b w } H
  | .choice a b, w, H => Safe o floor a w H ∧ Safe o floor b w H
  | .loop body, w, H => Safe o floor body ⟨(· = H), w.ret, w.normal, (· = H)⟩ H
  | .call body, w, H =>
    Safe o floor body ⟨(· = H), (· = H), fun _ => False, fun _ => False⟩ H ∧ w.normal H
  | .ret, w, H => w.ret H
  | .brk, w, H => w.brk H
  | .cont, w, H => w.cont H

/-- Ways out that ask for less. -/
structure Ways.Le (w w' : Ways L) : Prop where
  normal : ∀ H, w.normal H → w'.normal H
  ret : ∀ H, w.ret H → w'.ret H
  brk : ∀ H, w.brk H → w'.brk H
  cont : ∀ H, w.cont H → w'.cont H

theorem Safe.mono {a : Stmt L} {w w' : Ways L} {H : Finset L} (h : Safe o floor a w H)
    (hw : w.Le w') : Safe o floor a w' H := by
  induction a generalizing w w' H with
  | skip => exact hw.normal _ h
  | acquire l => exact ⟨h.1, h.2.1, hw.normal _ h.2.2⟩
  | release l => exact ⟨h.1, hw.normal _ h.2⟩
  | wait => exact ⟨h.1, h.2.1, hw.normal _ h.2.2⟩
  | seq a b iha ihb => exact iha h ⟨fun _ hb => ihb hb hw, hw.ret, hw.brk, hw.cont⟩
  | choice a b iha ihb => exact ⟨iha h.1 hw, ihb h.2 hw⟩
  | loop body ih =>
    exact ih h ⟨fun _ he => he, hw.ret, hw.normal, fun _ he => he⟩
  | call body _ => exact ⟨h.1, hw.normal _ h.2⟩
  | ret => exact hw.ret _ h
  | brk => exact hw.brk _ h
  | cont => exact hw.cont _ h

/-- What the rest of a task needs at each way out of what it does now. A call comes back
with what it began with. -/
def ways (o : Order L) (floor : Nat) : List (Item L) → Ways L
  | [] => ⟨(· = ∅), fun _ => False, fun _ => False, fun _ => False⟩
  | .run a :: k => { ways o floor k with normal := Safe o floor a (ways o floor k) }
  | .again body :: k =>
    ⟨Safe o floor (.loop body) (ways o floor k), (ways o floor k).ret, (ways o floor k).normal,
      Safe o floor (.loop body) (ways o floor k)⟩
  | .back E :: k =>
    ⟨fun H => H = E ∧ (ways o floor k).normal H, fun H => H = E ∧ (ways o floor k).normal H,
      fun _ => False, fun _ => False⟩

/-- The rest of a task keeps to the order when it holds `H`. -/
def Fits (o : Order L) (floor : Nat) (k : List (Item L)) (H : Finset L) : Prop :=
  (ways o floor k).normal H

theorem returns_of_ret {k : List (Item L)} {H : Finset L} (h : (ways o floor k).ret H) :
    entered k = some H ∧ ∃ k', returns k = some k' ∧ Fits o floor k' H := by
  induction k with
  | nil => exact h.elim
  | cons i k ih =>
    cases i with
    | run a => exact ih h
    | again body => exact ih h
    | back E => exact ⟨congrArg some h.1.symm, k, rfl, h.2⟩

theorem breaks_of_brk {k : List (Item L)} {H : Finset L} (h : (ways o floor k).brk H) :
    ∃ k', breaks k = some k' ∧ Fits o floor k' H := by
  induction k with
  | nil => exact h.elim
  | cons i k ih =>
    cases i with
    | run a => exact ih h
    | again body => exact ⟨k, rfl, h⟩
    | back E => exact h.elim

theorem continues_of_cont {k : List (Item L)} {H : Finset L} (h : (ways o floor k).cont H) :
    ∃ k', continues k = some k' ∧ Fits o floor k' H := by
  induction k with
  | nil => exact h.elim
  | cons i k ih =>
    cases i with
    | run a => exact ih h
    | again body => exact ⟨_, rfl, h⟩
    | back E => exact h.elim

/-- A turn of a loop ends with what it began with. -/
theorem fits_turn {body : Stmt L} {k : List (Item L)} {H : Finset L}
    (h : Safe o floor (.loop body) (ways o floor k) H) :
    Fits o floor (.run body :: .again body :: k) H := by
  have hbody : Safe o floor body ⟨(· = H), (ways o floor k).ret, (ways o floor k).normal,
    (· = H)⟩ H := h
  refine hbody.mono ⟨?_, fun _ h => h, fun _ h => h, ?_⟩
  · rintro _ rfl
    exact h
  · rintro _ rfl
    exact h

theorem fits_call {body : Stmt L} {k : List (Item L)} {H : Finset L}
    (h : Safe o floor (.call body) (ways o floor k) H) :
    Fits o floor (.run body :: .back H :: k) H := by
  refine h.1.mono ⟨?_, ?_, fun _ h => h, fun _ h => h⟩
  · rintro _ rfl
    exact ⟨rfl, h.2⟩
  · rintro _ rfl
    exact ⟨rfl, h.2⟩

/-! ## Runs -/

section

variable [Fintype L] [DecidableEq T] {s s' : State L T} {t : T} {l : L} {floors : T → Nat}

/-- Every task keeps to the order. -/
def Ordered (o : Order L) (floors : T → Nat) (s : State L T) : Prop :=
  ∀ t, Fits o (floors t) (s.control t) (s.held t)

omit [DecidableEq L] in
theorem mem_held : l ∈ s.held t ↔ s.holder l = some t := by simp [State.held]

omit [DecidableEq L] in
@[simp] theorem held_goto (s : State L T) (t u : T) (k : List (Item L)) :
    (s.goto t k).held u = s.held u := rfl

/-- One task goes on, with the locks it holds. -/
theorem ordered_goto {k : List (Item L)} (h : Ordered o floors s)
    (hk : Fits o (floors t) k (s.held t)) : Ordered o floors (s.goto t k) := by
  intro u
  by_cases hu : u = t
  · subst hu
    have hcontrol : (s.goto u k).control u = k := Function.update_self _ _ _
    rw [hcontrol]
    exact hk
  · have hcontrol : (s.goto t k).control u = s.control u := Function.update_of_ne hu _ _
    rw [hcontrol]
    exact h u

/-- Taking a free lock, or giving back one's own, is nothing to the others. -/
theorem held_hold_other {u : T} {x : Option T} (hl : s.holder l ≠ some u) (hx : x ≠ some u) :
    (s.hold l x).held u = s.held u := by
  ext m
  rw [mem_held, mem_held]
  by_cases hm : m = l
  · subst hm
    simp [State.hold, hl, hx]
  · simp [State.hold, hm]

theorem held_acquire (s : State L T) (t : T) (l : L) :
    (s.hold l (some t)).held t = insert l (s.held t) := by
  ext m
  rw [mem_held, Finset.mem_insert, mem_held]
  by_cases hm : m = l
  · simp [State.hold, hm]
  · simp [State.hold, hm]

theorem held_release (s : State L T) (t : T) (l : L) :
    (s.hold l none).held t = (s.held t).erase l := by
  ext m
  rw [mem_held, Finset.mem_erase, mem_held]
  by_cases hm : m = l
  · simp [State.hold, hm]
  · simp [State.hold, hm]

/-- One task changes one lock that no other task holds. -/
theorem ordered_hold {k : List (Item L)} {x : Option T} (h : Ordered o floors s)
    (hl : ∀ u, u ≠ t → s.holder l ≠ some u) (hx : ∀ u, u ≠ t → x ≠ some u)
    (hk : Fits o (floors t) k ((s.hold l x).held t)) :
    Ordered o floors ((s.hold l x).goto t k) := by
  intro u
  by_cases hu : u = t
  · subst hu
    have hcontrol : ((s.hold l x).goto u k).control u = k := Function.update_self _ _ _
    rw [hcontrol]
    exact hk
  · have hcontrol : ((s.hold l x).goto t k).control u = s.control u :=
      Function.update_of_ne hu _ _
    rw [hcontrol, held_goto, held_hold_other (hl u hu) (hx u hu)]
    exact h u

theorem ordered_step {a : T × Bool} (h : Ordered o floors s) (hs : step s a = some s') :
    Ordered o floors s' := by
  obtain ⟨t, b⟩ := a
  have ht := h t
  unfold step at hs
  dsimp only at hs
  split at hs
  · cases hs
  · next E k hk =>
    cases hs
    rw [hk] at ht
    exact ordered_goto h ht.2
  · next body k hk =>
    cases hs
    rw [hk] at ht
    exact ordered_goto h ht
  · next k hk =>
    cases hs
    rw [hk] at ht
    exact ordered_goto h ht
  · next l k hk =>
    rw [hk] at ht
    split at hs
    · next hfree =>
      cases hs
      apply ordered_hold h
      · intro u _
        simp [hfree]
      · intro u hu heq
        exact hu (Option.some.inj heq).symm
      · rw [held_acquire]
        exact ht.2.2
    · cases hs
  · next l k hk =>
    cases hs
    rw [hk] at ht
    have hheld : s.holder l = some t := mem_held.mp ht.1
    apply ordered_hold h
    · intro u hu heq
      exact hu (Option.some.inj (heq.symm.trans hheld))
    · exact fun _ _ => nofun
    · rw [held_release]
      exact ht.2
  · next k hk =>
    cases hs
    rw [hk] at ht
    exact ordered_goto h ht.2.2
  · next a c k hk =>
    cases hs
    rw [hk] at ht
    exact ordered_goto h ht
  · next a c k hk =>
    cases hs
    rw [hk] at ht
    apply ordered_goto h
    cases b with
    | true => exact ht.1
    | false => exact ht.2
  · next body k hk =>
    cases hs
    rw [hk] at ht
    exact ordered_goto h (fits_turn ht)
  · next body k hk =>
    cases hs
    rw [hk] at ht
    exact ordered_goto h (fits_call ht)
  · next k hk =>
    rw [hk] at ht
    obtain ⟨-, k', hret, hfits⟩ := returns_of_ret ht
    rw [hret] at hs
    cases hs
    exact ordered_goto h hfits
  · next k hk =>
    rw [hk] at ht
    obtain ⟨k', hbrk, hfits⟩ := breaks_of_brk ht
    rw [hbrk] at hs
    cases hs
    exact ordered_goto h hfits
  · next k hk =>
    rw [hk] at ht
    obtain ⟨k', hcont, hfits⟩ := continues_of_cont ht
    rw [hcont] at hs
    cases hs
    exact ordered_goto h hfits

/-- Every program that keeps to the order, from its own floor on. -/
theorem ordered_exec {program : T → Stmt L} {acts : List (T × Bool)}
    (h0 : ∀ t, Safe o (floors t) (program t) (ways o (floors t) []) ∅)
    (h : exec step (begin program) acts = some s) : Ordered o floors s := by
  have hbegin : Ordered o floors (begin program) := by
    intro t
    have hnone : (begin program).held t = ∅ := by simp [State.held, begin]
    rw [hnone]
    exact h0 t
  have hok : Allowed step (fun _ _ => True) (begin program) acts :=
    allowed_of_forall (fun _ _ => trivial) _ _
  exact exec_inv (Ordered o floors) (fun _ _ _ hs _ hstep => ordered_step hs hstep) hbegin hok h

/-- No task stands at a lock that it holds. -/
theorem Ordered.not_again (h : Ordered o floors s) (ht : standsAt (s.control t) = some l) :
    s.holder l ≠ some t := by
  intro hl
  have hfits := h t
  obtain ⟨k, hk⟩ := standsAt_some ht
  rw [hk] at hfits
  exact Nat.lt_irrefl _ (hfits.2.1 l (mem_held.mpr hl))

/-- A call comes back with the locks that it began with, at its end and at each `return`. -/
theorem Ordered.gives_back (h : Ordered o floors s) (t : T) :
    (∀ E k, s.control t = .back E :: k → s.held t = E) ∧
      (∀ k, s.control t = .run .ret :: k → entered k = some (s.held t)) ∧
      (s.control t = [] → s.held t = ∅) := by
  have hfits := h t
  refine ⟨?_, ?_, ?_⟩
  · intro E k hk
    rw [hk] at hfits
    exact hfits.1
  · intro k hk
    rw [hk] at hfits
    exact (returns_of_ret hfits).1
  · intro hk
    rw [hk] at hfits
    exact hfits

/-! ## Circles -/

/-- How high a task stands that waits. -/
def level (o : Order L) (s : State L T) (t : T) : Nat :=
  match s.control t with
  | .run (.acquire l) :: _ => o.rank l
  | .run .wait :: _ => o.wait
  | _ => 0

/-- One waits for somebody who waits higher up. -/
theorem Ordered.level_lt {server : T → Prop} {u v : T} (h : Ordered o floors s)
    (hserver : ∀ t, server t → o.wait < floors t) (htu : WaitsFor server s t u)
    (huv : WaitsFor server s u v) : level o s t < level o s u := by
  have hu := h u
  rcases htu with ⟨l, ht, hl⟩ | ⟨⟨k, ht⟩, hu_server⟩
  · obtain ⟨k, ht⟩ := standsAt_some ht
    have hmem : l ∈ s.held u := mem_held.mpr hl
    rcases huv with ⟨m, hm, -⟩ | ⟨⟨k', hk'⟩, -⟩
    · obtain ⟨k', hk'⟩ := standsAt_some hm
      rw [hk'] at hu
      simpa [level, ht, hk'] using hu.2.1 l hmem
    · rw [hk'] at hu
      simpa [level, ht, hk'] using hu.2.1 l hmem
  · have hfloor := hserver u hu_server
    rcases huv with ⟨m, hm, -⟩ | ⟨⟨k', hk'⟩, -⟩
    · obtain ⟨k', hk'⟩ := standsAt_some hm
      rw [hk'] at hu
      simpa [level, ht, hk'] using Nat.lt_of_lt_of_le hfloor hu.1
    · rw [hk'] at hu
      exact absurd hu.1 (Nat.not_le.mpr hfloor)

/-- Nobody waits for himself, over any number of others. -/
theorem Ordered.acyclic {server : T → Prop} (h : Ordered o floors s)
    (hserver : ∀ t, server t → o.wait < floors t) (t : T) :
    ¬ Relation.TransGen (WaitsFor server s) t t := by
  have hup : ∀ u, Relation.TransGen (WaitsFor server s) t u →
      ∀ v, WaitsFor server s u v → level o s t < level o s u := by
    intro u htu
    induction htu with
    | single htu => exact fun v huv => h.level_lt hserver htu huv
    | tail _ hbc ih => exact fun v hcv => (ih _ hbc).trans (h.level_lt hserver hbc hcv)
  intro hcycle
  obtain ⟨u, htu, -⟩ := Relation.TransGen.head'_iff.mp hcycle
  exact Nat.lt_irrefl _ (hup t hcycle u htu)

end

/-! ## Checking a program -/

/-- The locks that have to be held at a `return`, a `break` and a `continue`. -/
structure Jumps (L : Type u) where
  ret : Option (Finset L)
  brk : Option (Finset L)
  cont : Option (Finset L)

/-- The same locks as before, or no way on. -/
def same (H : Finset L) : Option (Option (Finset L)) → Option (Option (Finset L))
  | none => none
  | some none => some (some H)
  | some (some H') => if H' = H then some (some H) else none

/-- What two branches agree on. -/
def agree : Option (Option (Finset L)) → Option (Option (Finset L)) → Option (Option (Finset L))
  | some none, r => r
  | r, some none => r
  | some (some H), some (some H') => if H = H' then some (some H) else none
  | _, _ => none

/-- The locks held after the statement, if there is a way on. There is no result where the
statement leaves the order. -/
def check (o : Order L) (floor : Nat) : Stmt L → Jumps L → Finset L → Option (Option (Finset L))
  | .skip, _, H => some (some H)
  | .acquire l, _, H =>
    if floor ≤ o.rank l ∧ ∀ m ∈ H, o.rank m < o.rank l then some (some (insert l H)) else none
  | .release l, _, H => if l ∈ H then some (some (H.erase l)) else none
  | .wait, _, H =>
    if floor ≤ o.wait ∧ ∀ m ∈ H, o.rank m < o.wait then some (some H) else none
  | .seq a b, j, H =>
    match check o floor a j H with
    | some (some H') => check o floor b j H'
    | r => r
  | .choice a b, j, H => agree (check o floor a j H) (check o floor b j H)
  | .loop body, j, H => same H (check o floor body ⟨j.ret, some H, some H⟩ H)
  | .call body, _, H => same H (check o floor body ⟨some H, none, none⟩ H)
  | .ret, j, H => if j.ret = some H then some none else none
  | .brk, j, H => if j.brk = some H then some none else none
  | .cont, j, H => if j.cont = some H then some none else none

/-- The ways out find what the check has found. -/
structure Agrees (j : Jumps L) (r : Option (Finset L)) (w : Ways L) : Prop where
  normal : ∀ H, r = some H → w.normal H
  ret : ∀ H, j.ret = some H → w.ret H
  brk : ∀ H, j.brk = some H → w.brk H
  cont : ∀ H, j.cont = some H → w.cont H

theorem same_some {H : Finset L} {c : Option (Option (Finset L))} {r : Option (Finset L)}
    (h : same H c = some r) : r = some H ∧ (c = some none ∨ c = some (some H)) := by
  unfold same at h
  split at h
  · cases h
  · cases h
    exact ⟨rfl, .inl rfl⟩
  · next H' =>
    split at h
    · next heq =>
      cases h
      exact ⟨rfl, .inr (by rw [heq])⟩
    · cases h

theorem agree_some {c d : Option (Option (Finset L))} {r : Option (Finset L)}
    (h : agree c d = some r) :
    (c = some none ∨ c = some r) ∧ (d = some none ∨ d = some r) := by
  unfold agree at h
  split at h
  · exact ⟨.inl rfl, .inr h⟩
  · exact ⟨.inr h, .inl rfl⟩
  · split at h
    · next heq =>
      cases h
      exact ⟨.inr rfl, .inr (by rw [heq])⟩
    · cases h
  · cases h

omit [DecidableEq L] in
/-- Where the check finds no way on, any way on will do. -/
theorem Agrees.of_way {j : Jumps L} {r r' : Option (Finset L)} {w : Ways L}
    (h : Agrees j r w) (hr : r' = none ∨ r' = r) : Agrees j r' w := by
  refine ⟨?_, h.ret, h.brk, h.cont⟩
  rcases hr with rfl | rfl
  · exact nofun
  · exact h.normal

/-- What the check accepts keeps to the order. -/
theorem safe_of_check {a : Stmt L} {j : Jumps L} {H : Finset L} {r : Option (Finset L)}
    {w : Ways L} (h : check o floor a j H = some r) (hw : Agrees j r w) :
    Safe o floor a w H := by
  induction a generalizing j H r w with
  | skip =>
    cases h
    exact hw.normal H rfl
  | acquire l =>
    simp only [check] at h
    split at h
    · next hl =>
      cases h
      exact ⟨hl.1, hl.2, hw.normal _ rfl⟩
    · cases h
  | release l =>
    simp only [check] at h
    split at h
    · next hl =>
      cases h
      exact ⟨hl, hw.normal _ rfl⟩
    · cases h
  | wait =>
    simp only [check] at h
    split at h
    · next hl =>
      cases h
      exact ⟨hl.1, hl.2, hw.normal _ rfl⟩
    · cases h
  | seq a b iha ihb =>
    simp only [check] at h
    split at h
    · next H' ha =>
      apply iha ha
      refine ⟨?_, hw.ret, hw.brk, hw.cont⟩
      intro _ heq
      cases heq
      exact ihb h hw
    · next hnone =>
      cases r with
      | some H' => exact absurd h (hnone H')
      | none => exact iha h ⟨nofun, hw.ret, hw.brk, hw.cont⟩
  | choice a b iha ihb =>
    obtain ⟨ha, hb⟩ := agree_some h
    constructor
    · rcases ha with ha | ha
      · exact iha ha (hw.of_way (.inl rfl))
      · exact iha ha (hw.of_way (.inr rfl))
    · rcases hb with hb | hb
      · exact ihb hb (hw.of_way (.inl rfl))
      · exact ihb hb (hw.of_way (.inr rfl))
  | loop body ih =>
    obtain ⟨rfl, hbody⟩ := same_some h
    have hend : ∀ H', some H = some H' → w.normal H' := hw.normal
    have hturn : ∀ H', some H = some H' → H' = H := fun _ he => (Option.some.inj he).symm
    rcases hbody with hbody | hbody
    · exact ih hbody ⟨nofun, hw.ret, hend, hturn⟩
    · exact ih hbody ⟨hturn, hw.ret, hend, hturn⟩
  | call body ih =>
    obtain ⟨rfl, hbody⟩ := same_some h
    have hback : ∀ H', some H = some H' → H' = H := fun _ he => (Option.some.inj he).symm
    refine ⟨?_, hw.normal H rfl⟩
    rcases hbody with hbody | hbody
    · exact ih hbody ⟨nofun, hback, nofun, nofun⟩
    · exact ih hbody ⟨hback, hback, nofun, nofun⟩
  | ret =>
    simp only [check] at h
    split at h
    · next hj => exact hw.ret H hj
    · cases h
  | brk =>
    simp only [check] at h
    split at h
    · next hj => exact hw.brk H hj
    · cases h
  | cont =>
    simp only [check] at h
    split at h
    · next hj => exact hw.cont H hj
    · cases h

end lock_order
