-- Tasks that ask for memory, take locks and follow pointers. A request can be refused,
-- and a pointer that is null has nothing behind it. A task holds what it was given until
-- it hands it back, and one that gives up should hold nothing.
import Mathlib

namespace holdings

/-! ## Tasks -/

/-- What answers the requests for memory: with a block, or with none. -/
structure Supply (H S P : Type) where
  request : H → S → H × Option P
  takeBack : H → P → H

variable {H S P L α β : Type}

/-- A request is answered with a block. -/
def Supply.Grants (M : Supply H S P) (h : H) (n : S) : Prop := (M.request h n).2 ≠ none

instance (M : Supply H S P) (h : H) (n : S) : Decidable (M.Grants h n) :=
  inferInstanceAs (Decidable (¬ _ = none))

/-- The memory after a request. -/
def Supply.after (M : Supply H S P) (h : H) (n : S) : H := (M.request h n).1

/-- The memory, with what the task holds of it and the locks that it holds. -/
structure World (H P L : Type) where
  heap : H
  own : List P
  held : List L

/-- The work of a task. There is no result when the task follows a null pointer. -/
abbrev Work (H P L α : Type) := StateT (World H P L) Option α

def ask (M : Supply H S P) (n : S) : Work H P L (Option P) := fun w =>
  let r := M.request w.heap n
  some (r.2, { w with heap := r.1, own := r.2.toList ++ w.own })

/-- A block is handed back; with a null pointer nothing is done. -/
def handBack [DecidableEq P] (M : Supply H S P) (p : Option P) : Work H P L Unit := fun w =>
  some ((), p.elim w fun p => { w with heap := M.takeBack w.heap p, own := w.own.erase p })

/-- What is behind a pointer. -/
def follow (p : Option β) : Work H P L β := fun w => p.map fun b => (b, w)

def acquireLock (l : L) : Work H P L Unit := fun w => some ((), { w with held := l :: w.held })

def releaseLock [DecidableEq L] (l : L) : Work H P L Unit := fun w =>
  some ((), { w with held := w.held.erase l })

/-- How a task is left: it has done its work, it gives up, or it still waits. -/
inductive Ending where
  | finished
  | gaveUp
  | waiting
  deriving DecidableEq

/-- A task that starts with nothing follows no null pointer, and when it gives up it holds
nothing. -/
def Sound (t : Work H P L Ending) (h : H) : Prop :=
  ∃ o w, t.run ⟨h, [], []⟩ = some (o, w) ∧ (o = .gaveUp → w.own = [] ∧ w.held = [])

/-! ## The rules -/

section
variable {M : Supply H S P} {w : World H P L}

theorem run_ask (n : S) :
    (ask M n : Work H P L (Option P)).run w =
      some ((M.request w.heap n).2,
        { w with heap := (M.request w.heap n).1, own := (M.request w.heap n).2.toList ++ w.own }) :=
  rfl

@[simp] theorem run_handBack_none [DecidableEq P] :
    (handBack M none : Work H P L Unit).run w = some ((), w) := rfl

@[simp] theorem run_handBack_some [DecidableEq P] (p : P) :
    (handBack M (some p) : Work H P L Unit).run w =
      some ((), { w with heap := M.takeBack w.heap p, own := w.own.erase p }) := rfl

@[simp] theorem run_follow_none : (follow none : Work H P L β).run w = none := rfl

@[simp] theorem run_follow_some (b : β) :
    (follow (some b) : Work H P L β).run w = some (b, w) := rfl

@[simp] theorem run_acquireLock (l : L) :
    (acquireLock l : Work H P L Unit).run w = some ((), { w with held := l :: w.held }) := rfl

@[simp] theorem run_releaseLock [DecidableEq L] (l : L) :
    (releaseLock l : Work H P L Unit).run w = some ((), { w with held := w.held.erase l }) := rfl

/-- What comes after a step that has a result. -/
theorem run_bind_of_some {t : Work H P L α} {f : α → Work H P L β} {w' : World H P L} {a : α}
    (h : t.run w = some (a, w')) : (t >>= f).run w = (f a).run w' := by
  simp [StateT.run_bind, h]

/-- Nothing comes after a null pointer. -/
theorem run_bind_of_none {t : Work H P L α} {f : α → Work H P L β} (h : t.run w = none) :
    (t >>= f).run w = none := by
  simp [StateT.run_bind, h]

end

section
variable {t : Work H P L Ending} {h : H} {w : World H P L} {o : Ending}

theorem not_sound_of_null (hrun : t.run ⟨h, [], []⟩ = none) : ¬ Sound t h := by
  rintro ⟨o, w, hsome, -⟩
  rw [hrun] at hsome
  cases hsome

theorem sound_iff_of_run (hrun : t.run ⟨h, [], []⟩ = some (o, w)) :
    Sound t h ↔ (o = .gaveUp → w.own = [] ∧ w.held = []) := by
  constructor
  · rintro ⟨o', w', hrun', hfree⟩
    rw [hrun] at hrun'
    cases hrun'
    exact hfree
  · exact fun hfree => ⟨o, w, hrun, hfree⟩

/-- A task that has a result and does not give up is sound. -/
theorem sound_of_end (hend : ∃ o w, t.run ⟨h, [], []⟩ = some (o, w) ∧ o ≠ .gaveUp) : Sound t h := by
  obtain ⟨o, w, hrun, ho⟩ := hend
  exact (sound_iff_of_run hrun).mpr fun hgave => absurd hgave ho

end

/-! ## Scripts -/

/-- The supply that refuses the requests that the script names. It counts the requests, and
the number of a request is its block. -/
def scripted (refused : Nat → Bool) : Supply Nat S Nat where
  request k _ := (k + 1, if refused k then none else some k)
  takeBack k _ := k

end holdings
