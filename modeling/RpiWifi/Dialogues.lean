-- Programs that ask another party, whose answers come from a state of its own. What such a
-- program does follows its parts. When its questions are put by a driver that reads values
-- from a device, it does there what it does with the answers, as long as the driver gets
-- these out of the values.
import RpiWifi.Conversations

namespace dialogues

open conversations

variable {Q R V E α β σ τ : Type}

/-! ## Programs and what they end with -/

/-- A program: its result, or a question and what it does with the answer. -/
inductive Dialogue (Q R α : Type) : Type where
  | done (a : α)
  | say (q : Q) (next : R → Dialogue Q R α)

def Dialogue.bind : Dialogue Q R α → (α → Dialogue Q R β) → Dialogue Q R β
  | done a, f => f a
  | say q next, f => say q fun r => (next r).bind f

instance dialogueMonad : Monad (Dialogue Q R) where
  pure := .done
  bind := Dialogue.bind

def question (q : Q) : Dialogue Q R R := .say q .done

section party

variable {answers : σ → Q → R → σ → Prop}

/-- `answers s q r s'`: the party, in the state `s`, may answer `q` with `r` and is in the
state `s'` then. With the party in the state `s` the program ends with `a`, and the party
in `s'`. -/
inductive Ends (answers : σ → Q → R → σ → Prop) : σ → Dialogue Q R α → α → σ → Prop
  | done (s : σ) (a : α) : Ends answers s (.done a) a s
  | say {s s₁ s' : σ} {q : Q} {r : R} {next : R → Dialogue Q R α} {a : α} :
      answers s q r s₁ → Ends answers s₁ (next r) a s' → Ends answers s (.say q next) a s'

@[simp]
theorem ends_pure {s s' : σ} {a b : α} :
    Ends answers s (pure a : Dialogue Q R α) b s' ↔ b = a ∧ s' = s := by
  constructor
  · intro h
    cases h
    exact ⟨rfl, rfl⟩
  · rintro ⟨rfl, rfl⟩
    exact .done s' b

theorem ends_bind {x : Dialogue Q R α} {f : α → Dialogue Q R β} {s s' : σ} {b : β} :
    Ends answers s (x >>= f) b s' ↔ ∃ a s₁, Ends answers s x a s₁ ∧ Ends answers s₁ (f a) b s' := by
  induction x generalizing s with
  | done a =>
    constructor
    · intro h
      exact ⟨a, s, .done s a, h⟩
    · rintro ⟨a', s₁, hdone, h⟩
      cases hdone
      exact h
  | say q next ih =>
    constructor
    · intro h
      cases h with
      | say hq hrest =>
        obtain ⟨a, s₂, hnext, hf⟩ := (ih _).mp hrest
        exact ⟨a, s₂, .say hq hnext, hf⟩
    · rintro ⟨a, s₂, hsay, hf⟩
      cases hsay with
      | say hq hnext => exact .say hq ((ih _).mpr ⟨a, s₂, hnext, hf⟩)

/-- A program that begins with a question. -/
theorem ends_question_bind {q : Q} {f : R → Dialogue Q R β} {s s' : σ} {b : β} :
    Ends answers s (question q >>= f) b s' ↔
      ∃ r s₁, answers s q r s₁ ∧ Ends answers s₁ (f r) b s' := by
  constructor
  · intro h
    cases h with
    | say hq hf => exact ⟨_, _, hq, hf⟩
  · rintro ⟨r, s₁, hq, hf⟩
    exact .say hq hf

theorem ends_ite {c : Prop} [Decidable c] {x y : Dialogue Q R α} {s s' : σ} {a : α} :
    Ends answers s (if c then x else y) a s' ↔
      c ∧ Ends answers s x a s' ∨ ¬ c ∧ Ends answers s y a s' := by
  split_ifs with hc <;> simp [hc]

/-- What every answer keeps is kept. -/
theorem Ends.keeps {P : σ → Prop} (hP : ∀ s q r s', P s → answers s q r s' → P s') {s s' : σ}
    {x : Dialogue Q R α} {a : α} (h : Ends answers s x a s') (hs : P s) : P s' := by
  induction h with
  | done => exact hs
  | say hq _ ih => exact ih (hP _ _ _ _ hs hq)

end party

/-! ## Questions that a driver puts -/

/-- The program with its questions put by `send`, which has a state of its own. -/
def Dialogue.via (send : Q → τ → Talk V E (R × τ)) : Dialogue Q R α → τ → Talk V E (α × τ)
  | .done a, t => pure (a, t)
  | .say q next, t => send q t >>= fun r => (next r.1).via send r.2

/-- `gives s q ρ r s' ρ'`: the party, in the state `s`, answers `q` with `r` through the values
`ρ` of the device, up to `ρ'`. The program ends on `ρ` when each of its questions is answered
through the values that are next. -/
inductive EndsOn (gives : σ → Q → List V → R → σ → List V → Prop) :
    σ → Dialogue Q R α → List V → α → σ → List V → Prop
  | done (s : σ) (a : α) (ρ : List V) : EndsOn gives s (.done a) ρ a s ρ
  | say {s s₁ s' : σ} {q : Q} {r : R} {next : R → Dialogue Q R α} {a : α} {ρ ρ₁ ρ' : List V} :
      gives s q ρ r s₁ ρ₁ → EndsOn gives s₁ (next r) ρ₁ a s' ρ' →
      EndsOn gives s (.say q next) ρ a s' ρ'

variable {gives : σ → Q → List V → R → σ → List V → Prop}

/-- What the program ends with on the values is what it ends with when the party answers. -/
theorem EndsOn.ends {answers : σ → Q → R → σ → Prop}
    (hanswers : ∀ s q ρ r s' ρ', gives s q ρ r s' ρ' → answers s q r s') {s s' : σ}
    {x : Dialogue Q R α} {a : α} {ρ ρ' : List V} (h : EndsOn gives s x ρ a s' ρ') :
    Ends answers s x a s' := by
  induction h with
  | done s a => exact .done s a
  | say hgives _ ih => exact .say (hanswers _ _ _ _ _ _ hgives) ih

/-- A driver that gets each answer out of the values, and is ready for the next question then,
runs the program. -/
theorem EndsOn.runs {send : Q → τ → Talk V E (R × τ)} {Ready : τ → Prop}
    (hsend : ∀ s q ρ r s' ρ' t, Ready t → gives s q ρ r s' ρ' →
      ∃ t' es, Ready t' ∧ Runs (send q t) ρ (r, t') es ρ') {s s' : σ}
    {x : Dialogue Q R α} {a : α} {ρ ρ' : List V} (h : EndsOn gives s x ρ a s' ρ') {t : τ}
    (ht : Ready t) : ∃ t' es, Ready t' ∧ Runs (x.via send t) ρ (a, t') es ρ' := by
  induction h generalizing t with
  | done s a ρ => exact ⟨t, [], ht, runs_pure.mpr ⟨rfl, rfl, rfl⟩⟩
  | say hgives _ ih =>
    obtain ⟨t₁, es₁, ht₁, hrun⟩ := hsend _ _ _ _ _ _ _ ht hgives
    obtain ⟨t', es₂, ht', hrest⟩ := ih ht₁
    exact ⟨t', es₁ ++ es₂, ht', runs_bind.mpr ⟨_, es₁, _, es₂, hrun, hrest, rfl⟩⟩

/-! ## Programs that are played -/

/-- The program with a party that gives values, an answer and its next state for each question:
all the values, what the program ends with, and the last state. -/
def Dialogue.play (reply : σ → Q → List V × R × σ) : Dialogue Q R α → σ → List V × α × σ
  | .done a, s => ([], a, s)
  | .say q next, s =>
    let given := reply s q
    let rest := (next given.2.1).play reply given.2.2
    (given.1 ++ rest.1, rest.2)

/-- The questions of the program that is played. -/
def Dialogue.asked (reply : σ → Q → List V × R × σ) : Dialogue Q R α → σ → List Q
  | .done _, _ => []
  | .say q next, s => q :: (next (reply s q).2.1).asked reply (reply s q).2.2

theorem endsOn_play {reply : σ → Q → List V × R × σ} {P : Q → Prop}
    (hgives : ∀ s q ρ', P q → gives s q ((reply s q).1 ++ ρ') (reply s q).2.1 (reply s q).2.2 ρ')
    (x : Dialogue Q R α) (s : σ) (ρ' : List V) (hasked : ∀ q ∈ x.asked reply s, P q) :
    EndsOn gives s x ((x.play reply s).1 ++ ρ') (x.play reply s).2.1 (x.play reply s).2.2 ρ' := by
  induction x generalizing s with
  | done a => exact .done s a ρ'
  | say q next ih =>
    have hq : P q := hasked q List.mem_cons_self
    have hrest := ih (reply s q).2.1 (reply s q).2.2 fun q' hq' =>
      hasked q' (List.mem_cons_of_mem _ hq')
    have hplay : ((Dialogue.say q next).play reply s).1 ++ ρ' =
        (reply s q).1 ++ (((next (reply s q).2.1).play reply (reply s q).2.2).1 ++ ρ') :=
      List.append_assoc ..
    rw [hplay]
    exact .say (hgives s q _ hq) hrest

end dialogues
