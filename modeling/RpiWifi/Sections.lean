-- Calls that run in pieces, with interrupts between them. A call whose pieces keep
-- the interrupts from doing anything runs as if it were one step: every run in pieces
-- is a run of whole calls, up to what is left of the last of them.
import RpiWifi.Runs

namespace sections

open runs

universe u

/-! ## Calls in pieces -/

/-- What is left of a call. An access changes the state, what comes behind it may go by
the state that it found, and `put` gives something out. -/
inductive Code (σ : Type u) (ε : Type) where
  | done
  | act (f : σ → σ) (rest : σ → Code σ ε)
  | put (e : ε) (rest : Code σ ε)

variable {σ : Type u} {τ α ε : Type}

/-- The state after the whole call, and what it gives out. -/
def Code.finish : Code σ ε → σ → σ × List ε
  | .done, s => (s, [])
  | .act f rest, s => (rest s).finish (f s)
  | .put e rest, s => ((rest.finish s).1, e :: (rest.finish s).2)

/-- `rest` behind everything of `es`. -/
def puts (es : List ε) (rest : Code σ ε) : Code σ ε := es.foldr .put rest

@[simp] theorem finish_done (s : σ) : (.done : Code σ ε).finish s = (s, []) := rfl

@[simp] theorem finish_act (f : σ → σ) (rest : σ → Code σ ε) (s : σ) :
    (Code.act f rest).finish s = (rest s).finish (f s) := rfl

@[simp] theorem finish_put (e : ε) (rest : Code σ ε) (s : σ) :
    (Code.put e rest).finish s = ((rest.finish s).1, e :: (rest.finish s).2) := rfl

@[simp] theorem finish_puts (es : List ε) (rest : Code σ ε) (s : σ) :
    (puts es rest).finish s = ((rest.finish s).1, es ++ (rest.finish s).2) := by
  induction es with
  | nil => rfl
  | cons e es ih =>
    show (Code.put e (puts es rest)).finish s = _
    rw [finish_put, ih]
    rfl

/-- A system: whose turn it is, what each action does and gives out as a whole, which
actions are calls that run in pieces, and which may come between the pieces. -/
structure System (σ : Type u) (τ α ε : Type) where
  current : σ → τ
  step : σ → α → Option σ
  text : σ → α → List ε
  code : α → Option (Code σ ε)
  interrupt : α → Bool

/-! ## Sections -/

variable {S : System σ τ α ε}

/-- As long as something is left the turn does not change, and no interrupt does
anything. -/
def System.Guarded (S : System σ τ α ε) : Code σ ε → σ → Prop
  | .done, _ => True
  | .act f rest, s =>
    (∀ a, S.interrupt a = true → S.step s a = some s) ∧
      S.current (f s) = S.current s ∧ S.Guarded (rest s) (f s)
  | .put _ rest, s =>
    (∀ a, S.interrupt a = true → S.step s a = some s) ∧ S.Guarded rest s

/-- The same behind the first piece. -/
def System.Section (S : System σ τ α ε) : Code σ ε → σ → Prop
  | .done, _ => False
  | .act f rest, s => S.current (f s) = S.current s ∧ S.Guarded (rest s) (f s)
  | .put _ rest, s => S.Guarded rest s

theorem section_of_guarded {c : Code σ ε} {s : σ} (h : S.Guarded c s) (hc : c ≠ .done) :
    S.Section c s := by
  cases c with
  | done => exact absurd rfl hc
  | act f rest => exact h.2
  | put e rest => exact h.2

theorem quiet_of_guarded {c : Code σ ε} {s : σ} (h : S.Guarded c s) (hc : c ≠ .done) {a : α}
    (ha : S.interrupt a = true) : S.step s a = some s := by
  cases c with
  | done => exact absurd rfl hc
  | act f rest => exact h.1 a ha
  | put e rest => exact h.1 a ha

theorem guarded_puts {s : σ} {es : List ε} {rest : Code σ ε}
    (hquiet : ∀ a, S.interrupt a = true → S.step s a = some s) (h : S.Guarded rest s) :
    S.Guarded (puts es rest) s := by
  induction es with
  | nil => exact h
  | cons e es ih => exact ⟨hquiet, ih⟩

/-! ## The two machines -/

/-- What each of them has to do yet, and everything that was given out. -/
structure Machine (σ : Type u) (τ ε : Type) where
  state : σ
  left : τ → Code σ ε
  out : List ε

inductive Act (α : Type) where
  | start (a : α)
  | advance

variable [DecidableEq τ]

/-- The one whose turn it is does the next piece of `c`. -/
def System.piece (S : System σ τ α ε) (m : Machine σ τ ε) : Code σ ε → Option (Machine σ τ ε)
  | .done => none
  | .act f rest => some { m with
      state := f m.state
      left := Function.update m.left (S.current m.state) (rest m.state) }
  | .put e rest => some { m with
      left := Function.update m.left (S.current m.state) rest
      out := m.out ++ [e] }

/-- An action that is one step. -/
def System.whole (S : System σ τ α ε) (m : Machine σ τ ε) (a : α) : Option (Machine σ τ ε) :=
  (S.step m.state a).map fun s => { m with state := s }

/-- The machine in pieces. A call starts with its first piece, where it could be done as a
whole, and when nothing is left of the call before; an interrupt comes at any time. -/
def System.fine (S : System σ τ α ε) (m : Machine σ τ ε) : Act α → Option (Machine σ τ ε)
  | .advance => S.piece m (m.left (S.current m.state))
  | .start a =>
    if S.interrupt a then S.whole m a
    else match m.left (S.current m.state) with
      | .done => match S.code a with
        | none => S.whole m a
        | some c => (S.step m.state a).bind fun _ => S.piece m c
      | _ => none

/-- The machine of whole calls: its state, and what was given out. -/
def System.coarse (S : System σ τ α ε) (x : σ × List ε) (a : α) : Option (σ × List ε) :=
  (S.step x.1 a).map fun s => (s, x.2 ++ S.text x.1 a)

/-- Nothing is left of any call, and nothing was given out. -/
def Machine.idle (s : σ) : Machine σ τ ε := ⟨s, fun _ => .done, []⟩

/-- The actions that a run starts. -/
def started (acts : List (Act α)) : List α :=
  acts.filterMap fun
    | .start a => some a
    | .advance => none

/-- What the machine in pieces comes to, once what is left is done. -/
structure System.Comes (S : System σ τ α ε) (Inv : σ → Prop) (m : Machine σ τ ε)
    (x : σ × List ε) : Prop where
  others : ∀ p, p ≠ S.current m.state → m.left p = .done
  guarded : S.Guarded (m.left (S.current m.state)) m.state
  state : ((m.left (S.current m.state)).finish m.state).1 = x.1
  out : m.out ++ ((m.left (S.current m.state)).finish m.state).2 = x.2
  inv : Inv x.1

/-- The next piece of a section comes to what the whole section comes to. -/
theorem piece_comes {Inv : σ → Prop} {m t : Machine σ τ ε} {c : Code σ ε}
    (hothers : ∀ p, p ≠ S.current m.state → m.left p = .done) (hc : S.Section c m.state)
    (hinv : Inv (c.finish m.state).1) (h : S.piece m c = some t) :
    S.Comes Inv t ((c.finish m.state).1, m.out ++ (c.finish m.state).2) := by
  cases c with
  | done => cases h
  | act f rest =>
    obtain ⟨hturn, hrest⟩ := hc
    cases h
    have hself : Function.update m.left (S.current m.state) (rest m.state)
        (S.current (f m.state)) = rest m.state := by
      rw [hturn]
      exact Function.update_self ..
    refine ⟨?_, ?_, ?_, ?_, hinv⟩
    · intro p hp
      rw [hturn] at hp
      dsimp only
      rw [Function.update_of_ne hp]
      exact hothers p hp
    · dsimp only
      rw [hself]
      exact hrest
    · dsimp only
      rw [hself, finish_act]
    · dsimp only
      rw [hself, finish_act]
  | put e rest =>
    cases h
    have hself : Function.update m.left (S.current m.state) rest (S.current m.state) = rest :=
      Function.update_self ..
    refine ⟨?_, ?_, ?_, ?_, hinv⟩
    · intro p hp
      dsimp only
      rw [Function.update_of_ne hp]
      exact hothers p hp
    · dsimp only
      rw [hself]
      exact hc
    · dsimp only
      rw [hself, finish_put]
    · dsimp only
      rw [hself, finish_put, List.append_assoc]
      rfl

/-! ## The refinement -/

section Refinement

variable (S : System σ τ α ε) (Inv : σ → Prop) (ok : σ → α → Prop)

/-- Every call that starts where the invariant holds is a section, and its pieces are
together what the call does as a whole. Every action keeps the invariant. -/
structure System.Disciplined : Prop where
  interrupt : ∀ a, S.interrupt a = true → S.code a = none
  silent : ∀ s a, S.code a = none → S.text s a = []
  guarded : ∀ s a c t, Inv s → ok s a → S.code a = some c → S.step s a = some t → S.Section c s
  finish : ∀ s a c t, Inv s → ok s a → S.code a = some c → S.step s a = some t →
    t = (c.finish s).1 ∧ S.text s a = (c.finish s).2
  keeps : ∀ s a t, Inv s → ok s a → S.step s a = some t → Inv t

/-- A call is allowed where it starts. -/
def okAct (ok : σ → α → Prop) (m : Machine σ τ ε) : Act α → Prop
  | .start a => ok m.state a
  | .advance => True

variable {S Inv ok}

/-- One step in pieces is no step of the machine of whole calls, or it is the one of the
call that starts. -/
theorem fine_step (hS : S.Disciplined Inv ok) {m t : Machine σ τ ε} {x : σ × List ε} {b : Act α}
    (h : S.Comes Inv m x) (hok : okAct ok m b) (hstep : S.fine m b = some t) :
    S.Comes Inv t x ∧ (∀ a, b = .start a → S.interrupt a = true) ∨
      ∃ a y, b = .start a ∧ ok x.1 a ∧ S.coarse x a = some y ∧ S.Comes Inv t y := by
  obtain ⟨hothers, hguarded, hstate, hout, hinv⟩ := h
  -- Where nothing is left the two machines are in the same state.
  have hidle : m.left (S.current m.state) = .done → x = (m.state, m.out) := by
    intro hdone
    rw [hdone, finish_done] at hstate hout
    rw [List.append_nil] at hout
    exact Prod.ext hstate.symm hout.symm
  -- A step of the state alone, where nothing is left, leaves nothing.
  have hwhole : ∀ a, m.left (S.current m.state) = .done → S.code a = none →
      ok m.state a → S.whole m a = some t →
        ∃ y, ok x.1 a ∧ S.coarse x a = some y ∧ S.Comes Inv t y := by
    intro a hdone hcode hoka hw
    obtain ⟨s, hs, rfl⟩ := Option.map_eq_some_iff.mp hw
    have hnone : ∀ p, m.left p = .done := by
      intro p
      by_cases hp : p = S.current m.state
      · rw [hp, hdone]
      · exact hothers p hp
    obtain rfl := hidle hdone
    refine ⟨(s, m.out), hoka, ?_, fun p _ => hnone p, ?_, ?_, ?_, ?_⟩
    · rw [System.coarse, hs, hS.silent _ a hcode, Option.map_some, List.append_nil]
    · dsimp only
      rw [hnone]
      trivial
    · dsimp only
      rw [hnone, finish_done]
    · dsimp only
      rw [hnone, finish_done, List.append_nil]
    · exact hS.keeps _ a s hinv hoka hs
  cases b with
  | advance =>
    have hne : m.left (S.current m.state) ≠ .done := by
      intro hdone
      simp only [System.fine, hdone, System.piece] at hstep
      cases hstep
    left
    refine ⟨?_, fun a ha => nomatch ha⟩
    have hnext : S.Comes Inv t _ := piece_comes hothers (section_of_guarded hguarded hne)
      (by rw [hstate]; exact hinv) hstep
    rw [hstate, hout] at hnext
    exact hnext
  | start a =>
    unfold System.fine at hstep
    by_cases ha : S.interrupt a = true
    · dsimp only at hstep
      rw [if_pos ha] at hstep
      by_cases hdone : m.left (S.current m.state) = .done
      · right
        obtain ⟨y, hy⟩ := hwhole a hdone (hS.interrupt a ha) hok hstep
        exact ⟨a, y, rfl, hy⟩
      · left
        -- An interrupt inside a section does nothing.
        have hquiet := quiet_of_guarded hguarded hdone ha
        rw [System.whole, hquiet] at hstep
        cases hstep
        refine ⟨⟨hothers, hguarded, hstate, hout, hinv⟩, ?_⟩
        rintro _ ⟨⟩
        exact ha
    · dsimp only at hstep
      rw [if_neg ha] at hstep
      right
      split at hstep
      · next hdone =>
        split at hstep
        · next hcode =>
          obtain ⟨y, hy⟩ := hwhole a hdone hcode hok hstep
          exact ⟨a, y, rfl, hy⟩
        · next c hcode =>
          obtain rfl := hidle hdone
          obtain ⟨s, hs, hstep⟩ := Option.bind_eq_some_iff.mp hstep
          obtain ⟨rfl, htext⟩ := hS.finish _ a c s hinv hok hcode hs
          refine ⟨a, _, rfl, hok, ?_, piece_comes hothers (hS.guarded _ a c _ hinv hok hcode hs)
            (hS.keeps _ a _ hinv hok hs) hstep⟩
          rw [System.coarse, hs, htext]
          rfl
      · cases hstep

/-- Every run in pieces is a run of whole calls: the calls that it starts, without some of
its interrupts. -/
theorem fine_runs (hS : S.Disciplined Inv ok) {m t : Machine σ τ ε} {x : σ × List ε}
    {acts : List (Act α)} (h : S.Comes Inv m x) (hok : Allowed S.fine (okAct ok) m acts)
    (hrun : exec S.fine m acts = some t) :
    ∃ as y, as.Sublist (started acts) ∧
      as.filter (fun a => !S.interrupt a) = (started acts).filter (fun a => !S.interrupt a) ∧
      Allowed S.coarse (fun x => ok x.1) x as ∧ exec S.coarse x as = some y ∧
      S.Comes Inv t y := by
  induction acts generalizing m x with
  | nil =>
    cases hrun
    exact ⟨[], x, List.Sublist.refl _, rfl, trivial, rfl, h⟩
  | cons b acts ih =>
    obtain ⟨r, hr, hrt⟩ := exec_cons_some hrun
    obtain ⟨hokb, hrest⟩ := hok
    rw [hr] at hrest
    rcases fine_step hS h hokb hr with ⟨hcomes, hint⟩ | ⟨a, y, rfl, hoka, hy, hcomes⟩
    · obtain ⟨as, z, hsub, hcalls, hrun'⟩ := ih hcomes hrest hrt
      refine ⟨as, z, ?_, ?_, hrun'⟩
      · cases b with
        | advance => exact hsub
        | start a => exact hsub.cons a
      · cases b with
        | advance => exact hcalls
        | start a =>
          have ha := hint a rfl
          rw [hcalls]
          show _ = (a :: started acts).filter _
          rw [List.filter_cons_of_neg (by simp [ha])]
    · obtain ⟨as, z, hsub, hcalls, hallowed, hrun', hz⟩ := ih hcomes hrest hrt
      refine ⟨a :: as, z, hsub.cons_cons a, ?_, ⟨hoka, ?_⟩, ?_, hz⟩
      · show (a :: as).filter _ = (a :: started acts).filter _
        simp only [List.filter_cons, hcalls]
      · rw [hy]
        exact hallowed
      · rw [exec, hy]
        exact hrun'

omit [DecidableEq τ] in
theorem comes_idle {s : σ} (hs : Inv s) : S.Comes Inv (Machine.idle s) (s, []) :=
  ⟨fun _ _ => rfl, trivial, rfl, rfl, hs⟩

end Refinement

end sections
