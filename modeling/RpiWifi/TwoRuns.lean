-- Two runs of one program that differ in a filler: what a read gives when nothing
-- was written. A program keeps a log of its branches and a mark that says that a
-- branch looked at the filler. Without the mark the filler plays no part, and with it
-- two fillers can be told apart in the log.
import Mathlib

namespace two_runs

universe u v w x
variable {F : Type u} {S : Type v} {B : Type w} {α β : Type x}

/-- The logs part: behind a common beginning they go on differently. -/
def Parted (l m : List B) : Prop :=
  ∃ p b b', b ≠ b' ∧ p ++ [b] <+: l ∧ p ++ [b'] <+: m

theorem Parted.ne {l m : List B} (h : Parted l m) : l ≠ m := by
  obtain ⟨p, b, b', hne, hl, hm⟩ := h
  rintro rfl
  have heq := List.prefix_of_prefix_length_le hl hm (by simp)
  have hsame := List.IsPrefix.eq_of_length heq (by simp)
  exact hne (by simpa using hsame)

/-- Logs that part stay apart. -/
theorem Parted.mono {l m l' m' : List B} (h : Parted l m) (hl : l <+: l') (hm : m <+: m') :
    Parted l' m' := by
  obtain ⟨p, b, b', hne, hpl, hpm⟩ := h
  exact ⟨p, b, b', hne, hpl.trans hl, hpm.trans hm⟩

section

variable (log : S → List B) (lost : S → Bool) (f₀ f₁ : F)

/-- A program that is tracked from state `s`: it adds to its log, it keeps the mark, its
filler plays no part without the mark, and with it the fillers `f₀` and `f₁` part. -/
structure Tracked (p : F → S → S × α) (s : S) : Prop where
  grows : ∀ f, log s <+: log (p f s).1
  keeps : ∀ f, lost s = true → lost (p f s).1 = true
  same : ∀ f g, lost (p f s).1 = false → p g s = p f s
  parts : lost s = false → lost (p f₀ s).1 = true → Parted (log (p f₀ s).1) (log (p f₁ s).1)

variable {log lost f₀ f₁}

/-- Only what a program does from the state matters. -/
theorem Tracked.congr {p q : F → S → S × α} {s : S} (hq : Tracked log lost f₀ f₁ q s)
    (h : ∀ f, p f s = q f s) : Tracked log lost f₀ f₁ p s where
  grows := fun f => by
    rw [h]
    exact hq.grows f
  keeps := fun f => by
    rw [h]
    exact hq.keeps f
  same := fun f g => by
    rw [h, h]
    exact hq.same f g
  parts := by
    rw [h, h]
    exact hq.parts

/-- A program that uses no filler, and sets no mark. -/
theorem Tracked.of_const {q : S → S × α} {s : S} (hlog : log s <+: log (q s).1)
    (hlost : lost (q s).1 = lost s) : Tracked log lost f₀ f₁ (fun _ => q) s where
  grows := fun _ => hlog
  keeps := fun _ h => hlost.trans h
  same := fun _ _ _ => rfl
  parts := fun h h' => by
    rw [hlost, h] at h'
    cases h'

/-- One program after the other, with the value of the first one. -/
theorem Tracked.bind {p : F → S → S × α} {q : α → F → S → S × β} {s : S}
    (hp : Tracked log lost f₀ f₁ p s) (hq : ∀ f a, Tracked log lost f₀ f₁ (q a) (p f s).1) :
    Tracked log lost f₀ f₁ (fun f s => q (p f s).2 f (p f s).1) s where
  grows := fun f => (hp.grows f).trans ((hq f _).grows f)
  keeps := fun f h => (hq f _).keeps f (hp.keeps f h)
  same := by
    intro f g h
    have hmid : lost (p f s).1 = false := by
      by_contra hset
      rw [(hq f _).keeps f (Bool.eq_true_of_not_eq_false hset)] at h
      cases h
    rw [hp.same f g hmid]
    exact (hq f _).same f g h
  parts := by
    intro h h'
    by_cases hmid : lost (p f₀ s).1 = true
    · exact (hp.parts h hmid).mono ((hq f₀ _).grows f₀) ((hq f₁ _).grows f₁)
    · have hmid' := Bool.eq_false_of_not_eq_true hmid
      rw [hp.same f₀ f₁ hmid']
      exact (hq f₀ _).parts hmid' h'

/-- All runs take the same branches exactly when none of them sets the mark. -/
theorem Tracked.iff {p : F → S → S × α} {s : S} (hp : Tracked log lost f₀ f₁ p s)
    (hs : lost s = false) :
    (∀ f g, log (p f s).1 = log (p g s).1) ↔ ∀ f, lost (p f s).1 = false := by
  constructor
  · intro hsame f
    by_contra hset
    have h₀ : lost (p f₀ s).1 = true := by
      by_contra h₀
      rw [hp.same f₀ f (Bool.eq_false_of_not_eq_true h₀)] at hset
      exact hset (Bool.eq_false_of_not_eq_true h₀)
    exact (hp.parts hs h₀).ne (hsame f₀ f₁)
  · intro hclear f g
    rw [hp.same g f (hclear g)]

end

end two_runs
