-- Devices with a memory and a history of what was written to it. A program that
-- replays does the same on every memory: its history says what it leaves there. So
-- the cells that it may change are those of its history, and no others.
import Mathlib

namespace write_logs

universe u v w x
variable {S : Type u} {α : Type v} {β : Type w} {γ δ : Type x} [DecidableEq α]

/-! ## Histories -/

/-- The memory after the writes of a history. -/
def replay (m : α → β) (ws : List (α × β)) : α → β :=
  ws.foldl (fun m w => Function.update m w.1 w.2) m

theorem replay_append (m : α → β) (ws vs : List (α × β)) :
    replay m (ws ++ vs) = replay (replay m ws) vs :=
  List.foldl_append

theorem replay_other (m : α → β) {ws : List (α × β)} {a : α} (h : ∀ w ∈ ws, w.1 ≠ a) :
    replay m ws a = m a := by
  induction ws generalizing m with
  | nil => rfl
  | cons w ws ih =>
    have hrest : replay (Function.update m w.1 w.2) ws a = Function.update m w.1 w.2 a :=
      ih _ fun v hv => h v (List.mem_cons_of_mem _ hv)
    have hne : a ≠ w.1 := (h w List.mem_cons_self).symm
    exact hrest.trans (Function.update_of_ne hne _ _)

/-- What a cell holds in the end does not depend on the memory, once it is written. -/
theorem replay_congr {m k : α → β} {ws : List (α × β)} {a : α}
    (h : m a = k a ∨ ∃ w ∈ ws, w.1 = a) : replay m ws a = replay k ws a := by
  induction ws generalizing m k with
  | nil =>
    rcases h with h | ⟨w, hw, -⟩
    · exact h
    · cases hw
  | cons w ws ih =>
    refine ih (m := Function.update m w.1 w.2) (k := Function.update k w.1 w.2) ?_
    by_cases ha : w.1 = a
    · left
      rw [← ha, Function.update_self, Function.update_self]
    · rcases h with h | ⟨v, hv, rfl⟩
      · left
        rw [Function.update_of_ne (Ne.symm ha), Function.update_of_ne (Ne.symm ha)]
        exact h
      · rcases List.mem_cons.mp hv with rfl | hv
        · exact absurd rfl ha
        · exact .inr ⟨v, hv, rfl⟩

/-! ## Devices -/

/-- A state with a memory in it, and the history of the writes to the memory. -/
structure Device (S : Type u) (α : Type v) (β : Type w) where
  mem : S → α → β
  withMem : S → (α → β) → S
  wrote : S → List (α × β)
  mem_withMem : ∀ s m, mem (withMem s m) = m

variable {D : Device S α β}

/-- From state `s` the program writes `new`, on every memory. -/
structure Replays (D : Device S α β) (f : S → S × γ) (s : S) (new : List (α × β)) : Prop where
  logs : D.wrote (f s).1 = D.wrote s ++ new
  runs : ∀ m, f (D.withMem s m) = (D.withMem (f s).1 (replay m new), (f s).2)

/-- Only what a program does from the states that differ in memory matters. -/
theorem Replays.congr {f g : S → S × γ} {s : S} {new : List (α × β)} (hg : Replays D g s new)
    (hs : f s = g s) (hm : ∀ m, f (D.withMem s m) = g (D.withMem s m)) : Replays D f s new where
  logs := by
    rw [hs]
    exact hg.logs
  runs := fun m => by
    rw [hs, hm]
    exact hg.runs m

theorem Replays.bind {f : S → S × γ} {g : γ → S → S × δ} {s : S} {new new' : List (α × β)}
    (hf : Replays D f s new) (hg : Replays D (g (f s).2) (f s).1 new') :
    Replays D (fun s => g (f s).2 (f s).1) s (new ++ new') where
  logs := by rw [hg.logs, hf.logs, List.append_assoc]
  runs := fun m => by rw [hf.runs m, hg.runs, replay_append]

/-- On no memory a cell outside `P` changes, exactly when all that is written is in `P`. -/
theorem Replays.stays_iff [Nontrivial β] {f : S → S × γ} {s : S} {new : List (α × β)}
    (h : Replays D f s new) (P : α → Prop) :
    (∀ m a, ¬ P a → D.mem (f (D.withMem s m)).1 a = m a) ↔ ∀ w ∈ new, P w.1 := by
  constructor
  · intro hstay w hw
    by_contra hP
    -- A memory whose cell differs from what the cell holds in the end.
    obtain ⟨b, hb⟩ := exists_ne (replay (fun _ => w.2) new w.1)
    have hkeep := hstay (fun _ => b) w.1 hP
    rw [h.runs, D.mem_withMem] at hkeep
    rw [replay_congr (k := fun _ => w.2) (.inr ⟨w, hw, rfl⟩)] at hkeep
    exact hb hkeep.symm
  · intro hall m a ha
    rw [h.runs, D.mem_withMem]
    apply replay_other
    rintro w hw rfl
    exact ha (hall w hw)

end write_logs
