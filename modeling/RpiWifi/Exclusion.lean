-- Tasks that go in and out of a region behind a lock word. The word is set
-- exactly while somebody is inside, and then nobody else is.
import Mathlib

namespace exclusion

universe u v
variable {W : Type u} {P : Type v} {β : Type*}

/-- The lock is taken exactly while a task stands at one of the places `inside`,
and no two tasks stand there. -/
structure Excludes (inside : P → Bool) (pc : W → P) (locked : Prop) : Prop where
  alone : ∀ v w, inside (pc v) = true → inside (pc w) = true → v = w
  held : locked ↔ ∃ w, inside (pc w) = true

/-- A place that looks the same to `f` leaves what `f` sees of every task. -/
theorem same_of_update {γ : Type*} [DecidableEq W] {f : P → γ} {pc : W → P} {w : W} {p : P}
    (hp : f p = f (pc w)) (v : W) : f (Function.update pc w p v) = f (pc v) := by
  by_cases hv : v = w
  · subst hv
    rw [Function.update_self, hp]
  · rw [Function.update_of_ne hv]

variable [DecidableEq W] {inside : P → Bool} {pc : W → P} {locked locked' : Prop} {w : W} {p : P}

/-- A task that goes on outside, or inside, leaves the lock as it was. -/
theorem Excludes.goto (h : Excludes inside pc locked) (hp : inside p = inside (pc w)) :
    Excludes inside (Function.update pc w p) locked := by
  have hsame := same_of_update hp
  constructor
  · intro v v' hv hv'
    rw [hsame] at hv hv'
    exact h.alone v v' hv hv'
  · simp only [hsame]
    exact h.held

/-- A task that goes in while nobody is inside. -/
theorem Excludes.enter (h : Excludes inside pc locked) (hfree : ¬ locked) (hp : inside p = true)
    (hlocked : locked') : Excludes inside (Function.update pc w p) locked' := by
  have hnone : ∀ v, inside (pc v) = false := by
    intro v
    by_contra hv
    exact hfree (h.held.mpr ⟨v, by simpa using hv⟩)
  have honly : ∀ v, inside (Function.update pc w p v) = true → v = w := by
    intro v hv
    by_contra hne
    rw [Function.update_of_ne hne, hnone v] at hv
    cases hv
  constructor
  · intro v v' hv hv'
    rw [honly v hv, honly v' hv']
  · refine ⟨fun _ => ⟨w, ?_⟩, fun _ => hlocked⟩
    rw [Function.update_self]
    exact hp

/-- The task that is inside goes out. -/
theorem Excludes.leave (h : Excludes inside pc locked) (hw : inside (pc w) = true)
    (hp : inside p = false) (hfree : ¬ locked') :
    Excludes inside (Function.update pc w p) locked' := by
  have hnone : ∀ v, inside (Function.update pc w p v) = false := by
    intro v
    by_cases hv : v = w
    · subst hv
      rw [Function.update_self, hp]
    · rw [Function.update_of_ne hv]
      by_contra hin
      exact hv (h.alone v w (by simpa using hin) hw)
  constructor
  · intro v _ hv _
    rw [hnone v] at hv
    cases hv
  · refine ⟨fun hl => absurd hl hfree, ?_⟩
    rintro ⟨v, hv⟩
    rw [hnone v] at hv
    cases hv

/-- A task that goes in while the lock is taken is not alone. -/
theorem Excludes.not_alone (h : Excludes inside pc locked) (hlocked : locked)
    (hw : inside (pc w) = false) (hp : inside p = true) :
    ¬ ∀ v v', inside (Function.update pc w p v) = true →
      inside (Function.update pc w p v') = true → v = v' := by
  intro halone
  obtain ⟨v, hv⟩ := h.held.mp hlocked
  have hne : v ≠ w := by
    rintro rfl
    rw [hw] at hv
    cases hv
  refine hne (halone v w ?_ ?_)
  · rw [Function.update_of_ne hne]
    exact hv
  · rw [Function.update_self]
    exact hp

/-! ## What the tasks have in hand -/

/-- At most one task has something in hand, and it is `held`. -/
inductive Holds (hand : W → Option β) : List β → Prop where
  | nobody (h : ∀ w, hand w = none) : Holds hand []
  | one {w : W} {x : β} (hw : hand w = some x) (hrest : ∀ v, v ≠ w → hand v = none) :
      Holds hand [x]

variable {hand hand' : W → Option β} {held : List β}

omit [DecidableEq W] in
theorem Holds.congr (h : Holds hand held) (heq : ∀ v, hand' v = hand v) : Holds hand' held := by
  cases h with
  | nobody hnone => exact .nobody fun v => (heq v).trans (hnone v)
  | one hw hrest => exact .one ((heq _).trans hw) fun v hv => (heq v).trans (hrest v hv)

/-- Where nobody else has anything in hand, all that is held is what `w` holds. -/
theorem holds_iff_alone (halone : ∀ v, v ≠ w → hand v = none) :
    Holds hand held ↔ held = (hand w).toList := by
  constructor
  · intro h
    cases h with
    | nobody hnone =>
      rw [hnone w]
      rfl
    | @one v x hv _ =>
      have hvw : v = w := by
        by_contra hne
        rw [halone v hne] at hv
        cases hv
      rw [← hvw, hv]
      rfl
  · rintro rfl
    rcases hw : hand w with _ | x
    · refine .nobody fun v => ?_
      by_cases hv : v = w
      · rw [hv, hw]
      · exact halone v hv
    · exact .one hw halone

end exclusion
