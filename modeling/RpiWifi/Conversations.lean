-- Programs that talk to a device: they read its values one after another, and note what
-- they do. A program that needs more values than there are has no result. What a run of
-- a program is follows its parts, and a loop whose every turn reads a value runs as its
-- turns do.
import Mathlib

namespace conversations

variable {V E α β σ : Type}

/-! ## Programs and their runs -/

/-- A program: from the values to come, its result, what it noted, and the values left. -/
def Talk (V E α : Type) : Type := List V → Option (α × List E × List V)

instance talkMonad : Monad (Talk V E) where
  pure a := fun ρ => some (a, [], ρ)
  bind x f := fun ρ =>
    (x ρ).bind fun r => (f r.1 r.2.2).map fun r' => (r'.1, r.2.1 ++ r'.2.1, r'.2.2)

/-- The next value of the device. -/
def ask : Talk V E V
  | [] => none
  | a :: ρ => some (a, [], ρ)

def note (e : E) : Talk V E Unit := fun ρ => some ((), [e], ρ)

/-- The program with what it notes as a second result. -/
def heard (x : Talk V E α) : Talk V E (α × List E) := fun ρ =>
  (x ρ).map fun r => ((r.1, r.2.1), r.2.1, r.2.2)

/-- From the values `ρ` the program gives `a` and notes `es`, and the values `ρ'` are left. -/
def Runs (x : Talk V E α) (ρ : List V) (a : α) (es : List E) (ρ' : List V) : Prop :=
  x ρ = some (a, es, ρ')

theorem Runs.unique {x : Talk V E α} {ρ ρ' ρ'' : List V} {a b : α} {es fs : List E}
    (h : Runs x ρ a es ρ') (h' : Runs x ρ b fs ρ'') : a = b ∧ es = fs ∧ ρ' = ρ'' := by
  have heq := Option.some.inj (h.symm.trans h')
  simpa using heq

@[simp]
theorem runs_pure {a b : α} {es : List E} {ρ ρ' : List V} :
    Runs (pure a : Talk V E α) ρ b es ρ' ↔ b = a ∧ es = [] ∧ ρ' = ρ := by
  simp [Runs, pure, eq_comm]

theorem runs_bind {x : Talk V E α} {f : α → Talk V E β} {b : β} {es : List E} {ρ ρ' : List V} :
    Runs (x >>= f) ρ b es ρ' ↔ ∃ a es₁ ρ₁ es₂,
      Runs x ρ a es₁ ρ₁ ∧ Runs (f a) ρ₁ b es₂ ρ' ∧ es = es₁ ++ es₂ := by
  simp only [Runs, bind, Option.bind_eq_some_iff, Option.map_eq_some_iff]
  constructor
  · rintro ⟨⟨a, es₁, ρ₁⟩, hx, ⟨b', es₂, ρ₂⟩, hf, heq⟩
    cases heq
    exact ⟨a, es₁, ρ₁, es₂, hx, hf, rfl⟩
  · rintro ⟨a, es₁, ρ₁, es₂, hx, hf, rfl⟩
    exact ⟨(a, es₁, ρ₁), hx, (b, es₂, ρ'), hf, rfl⟩

@[simp]
theorem runs_ask {a : V} {es : List E} {ρ ρ' : List V} :
    Runs (ask : Talk V E V) ρ a es ρ' ↔ ρ = a :: ρ' ∧ es = [] := by
  cases ρ with
  | nil => simp [Runs, ask]
  | cons v ρ =>
    simp only [Runs, ask, Option.some.injEq, Prod.mk.injEq, List.cons.injEq]
    constructor
    · rintro ⟨rfl, rfl, rfl⟩
      exact ⟨⟨rfl, rfl⟩, rfl⟩
    · rintro ⟨⟨rfl, rfl⟩, rfl⟩
      exact ⟨rfl, rfl, rfl⟩

@[simp]
theorem runs_note {e : E} {b : Unit} {es : List E} {ρ ρ' : List V} :
    Runs (note e : Talk V E Unit) ρ b es ρ' ↔ es = [e] ∧ ρ' = ρ := by
  simp [Runs, note, eq_comm]

@[simp]
theorem runs_pure_bind {a : α} {f : α → Talk V E β} {b : β} {es : List E} {ρ ρ' : List V} :
    Runs (pure a >>= f) ρ b es ρ' ↔ Runs (f a) ρ b es ρ' := by
  simp [runs_bind]

theorem runs_bind_bind {γ : Type} {x : Talk V E α} {f : α → Talk V E β} {g : β → Talk V E γ}
    {c : γ} {es : List E} {ρ ρ' : List V} :
    Runs (x >>= f >>= g) ρ c es ρ' ↔ Runs (x >>= fun a => f a >>= g) ρ c es ρ' := by
  simp only [runs_bind]
  constructor
  · rintro ⟨b, _, ρ₂, es₃, ⟨a, es₁, ρ₁, es₂, hx, hf, rfl⟩, hg, rfl⟩
    exact ⟨a, es₁, ρ₁, es₂ ++ es₃, hx, ⟨b, es₂, ρ₂, es₃, hf, hg, rfl⟩, List.append_assoc ..⟩
  · rintro ⟨a, es₁, ρ₁, _, hx, ⟨b, es₂, ρ₂, es₃, hf, hg, rfl⟩, rfl⟩
    exact ⟨b, es₁ ++ es₂, ρ₂, es₃, ⟨a, es₁, ρ₁, es₂, hx, hf, rfl⟩, hg,
      (List.append_assoc ..).symm⟩

/-- A program that begins with a reading. -/
theorem runs_ask_bind {f : V → Talk V E β} {b : β} {es : List E} {ρ ρ' : List V} :
    Runs (ask >>= f) ρ b es ρ' ↔ ∃ a ρ₁, ρ = a :: ρ₁ ∧ Runs (f a) ρ₁ b es ρ' := by
  simp only [runs_bind, runs_ask]
  constructor
  · rintro ⟨a, es₁, ρ₁, es₂, ⟨hρ, rfl⟩, hf, rfl⟩
    exact ⟨a, ρ₁, hρ, hf⟩
  · rintro ⟨a, ρ₁, hρ, hf⟩
    exact ⟨a, [], ρ₁, es, ⟨hρ, rfl⟩, hf, rfl⟩

/-- A program that begins with a note. -/
theorem runs_note_bind {e : E} {f : Unit → Talk V E β} {b : β} {es : List E}
    {ρ ρ' : List V} :
    Runs (note e >>= f) ρ b es ρ' ↔ ∃ es₁, es = e :: es₁ ∧ Runs (f ()) ρ b es₁ ρ' := by
  simp only [runs_bind, runs_note]
  constructor
  · rintro ⟨a, es₁, ρ₁, es₂, ⟨rfl, rfl⟩, hf, rfl⟩
    exact ⟨es₂, rfl, hf⟩
  · rintro ⟨es₁, rfl, hf⟩
    exact ⟨(), [e], ρ, es₁, ⟨rfl, rfl⟩, hf, rfl⟩

theorem runs_ite {c : Prop} [Decidable c] {x y : Talk V E α} {a : α} {es : List E}
    {ρ ρ' : List V} :
    Runs (if c then x else y) ρ a es ρ' ↔ c ∧ Runs x ρ a es ρ' ∨ ¬ c ∧ Runs y ρ a es ρ' := by
  split_ifs with hc <;> simp [hc]

theorem runs_heard {x : Talk V E α} {a : α} {fs es : List E} {ρ ρ' : List V} :
    Runs (heard x) ρ (a, fs) es ρ' ↔ Runs x ρ a es ρ' ∧ fs = es := by
  simp only [Runs, heard, Option.map_eq_some_iff]
  constructor
  · rintro ⟨r, hr, heq⟩
    cases heq
    exact ⟨hr, rfl⟩
  · rintro ⟨hr, rfl⟩
    exact ⟨_, hr, rfl⟩

/-! ## Values are only taken -/

/-- No run leaves more values than there were. -/
def Shrinks (x : Talk V E α) : Prop :=
  ∀ ρ a es ρ', Runs x ρ a es ρ' → ρ'.length ≤ ρ.length

theorem shrinks_pure (a : α) : Shrinks (pure a : Talk V E α) := by
  intro ρ b es ρ' h
  rw [(runs_pure.mp h).2.2]

theorem shrinks_ask : Shrinks (ask : Talk V E V) := by
  intro ρ a es ρ' h
  rw [(runs_ask.mp h).1]
  exact Nat.le_succ _

theorem shrinks_note (e : E) : Shrinks (note e : Talk V E Unit) := by
  intro ρ a es ρ' h
  rw [(runs_note.mp h).2]

theorem Shrinks.bind {x : Talk V E α} {f : α → Talk V E β} (hx : Shrinks x)
    (hf : ∀ a, Shrinks (f a)) : Shrinks (x >>= f) := by
  intro ρ b es ρ' h
  obtain ⟨a, es₁, ρ₁, es₂, hrun, hrest, -⟩ := runs_bind.mp h
  exact (hf a _ _ _ _ hrest).trans (hx _ _ _ _ hrun)

theorem Shrinks.ite {c : Prop} [Decidable c] {x y : Talk V E α} (hx : Shrinks x)
    (hy : Shrinks y) : Shrinks (if c then x else y) := by
  split_ifs
  · exact hx
  · exact hy

/-! ## Loops -/

/-- At most `fuel` turns of a loop. A turn goes on with a state or ends with a result. -/
def loopFor (body : σ → Talk V E (σ ⊕ α)) : Nat → σ → Talk V E α
  | 0, _ => fun _ => none
  | fuel + 1, s => body s >>= Sum.elim (loopFor body fuel) pure

/-- The loop. When every turn that goes on reads a value, it has one turn more than values
at most. -/
def loop (body : σ → Talk V E (σ ⊕ α)) (s : σ) : Talk V E α := fun ρ =>
  loopFor body (ρ.length + 1) s ρ

/-- The runs of a loop, turn by turn. -/
inductive Turns (body : σ → Talk V E (σ ⊕ α)) : σ → List V → α → List E → List V → Prop
  | last {s : σ} {ρ ρ' : List V} {a : α} {es : List E} :
      Runs (body s) ρ (.inr a) es ρ' → Turns body s ρ a es ρ'
  | next {s s' : σ} {ρ ρ₁ ρ' : List V} {a : α} {es es' : List E} :
      Runs (body s) ρ (.inl s') es ρ₁ → Turns body s' ρ₁ a es' ρ' →
      Turns body s ρ a (es ++ es') ρ'

/-- Every turn that goes on reads a value. -/
def Reads (body : σ → Talk V E (σ ⊕ α)) : Prop :=
  ∀ s s' ρ es ρ', Runs (body s) ρ (.inl s') es ρ' → ρ'.length < ρ.length

theorem turns_of_loopFor {body : σ → Talk V E (σ ⊕ α)} {fuel : Nat} {s : σ} {ρ ρ' : List V}
    {a : α} {es : List E} (h : Runs (loopFor body fuel s) ρ a es ρ') :
    Turns body s ρ a es ρ' := by
  induction fuel generalizing s ρ es with
  | zero => cases h
  | succ fuel ih =>
    obtain ⟨r, es₁, ρ₁, es₂, hbody, hrest, rfl⟩ := runs_bind.mp h
    cases r with
    | inl s' => exact .next hbody (ih hrest)
    | inr b =>
      obtain ⟨rfl, rfl, rfl⟩ := runs_pure.mp hrest
      rw [List.append_nil]
      exact .last hbody

theorem Turns.loopFor {body : σ → Talk V E (σ ⊕ α)} (hreads : Reads body) {s : σ}
    {ρ ρ' : List V} {a : α} {es : List E} (h : Turns body s ρ a es ρ') {fuel : Nat}
    (hfuel : ρ.length < fuel) : Runs (loopFor body fuel s) ρ a es ρ' := by
  induction h generalizing fuel with
  | @last s ρ ρ' a es hbody =>
    obtain ⟨fuel, rfl⟩ : ∃ k, fuel = k + 1 := ⟨fuel - 1, by omega⟩
    exact runs_bind.mpr ⟨.inr a, es, ρ', [], hbody, runs_pure.mpr ⟨rfl, rfl, rfl⟩, by simp⟩
  | @next s s' ρ ρ₁ ρ' a es es' hbody _ ih =>
    have hlt : ρ₁.length < ρ.length := hreads _ _ _ _ _ hbody
    obtain ⟨fuel, rfl⟩ : ∃ k, fuel = k + 1 := ⟨fuel - 1, by omega⟩
    exact runs_bind.mpr ⟨.inl s', es, ρ₁, es', hbody, ih (by omega), rfl⟩

/-- A loop runs as its turns do. -/
theorem runs_loop {body : σ → Talk V E (σ ⊕ α)} (hreads : Reads body) {s : σ}
    {ρ ρ' : List V} {a : α} {es : List E} :
    Runs (loop body s) ρ a es ρ' ↔ Turns body s ρ a es ρ' :=
  ⟨fun h => turns_of_loopFor h, fun h => h.loopFor hreads (by omega)⟩

theorem shrinks_loop {body : σ → Talk V E (σ ⊕ α)} (hbody : ∀ s, Shrinks (body s)) (s : σ) :
    Shrinks (loop body s) := by
  intro ρ a es ρ' h
  have hturns := turns_of_loopFor h
  clear h
  induction hturns with
  | last hturn => exact hbody _ _ _ _ _ hturn
  | next hturn _ ih => exact ih.trans (hbody _ _ _ _ _ hturn)

/-- What every turn keeps to, the loop keeps to. -/
theorem Turns.notes {body : σ → Talk V E (σ ⊕ α)} {P : E → Prop}
    (hP : ∀ s ρ r es ρ', Runs (body s) ρ r es ρ' → ∀ e ∈ es, P e) {s : σ} {ρ ρ' : List V}
    {a : α} {es : List E} (h : Turns body s ρ a es ρ') : ∀ e ∈ es, P e := by
  induction h with
  | last hbody => exact hP _ _ _ _ _ hbody
  | next hbody _ ih =>
    intro e he
    rcases List.mem_append.mp he with he | he
    · exact hP _ _ _ _ _ hbody e he
    · exact ih e he

end conversations
