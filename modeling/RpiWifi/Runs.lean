-- Runs of a machine whose step is a partial function of its state and an
-- action. What every allowed step keeps holds after every allowed run, of
-- any length.
import Mathlib

namespace runs

universe u v
variable {σ : Type u} {α : Type v}

/-- The state after the actions, in order. There is none when one of the
actions is not enabled. -/
def exec (step : σ → α → Option σ) : σ → List α → Option σ
  | s, [] => some s
  | s, a :: as => (step s a).bind fun t => exec step t as

/-- Every action of the run is allowed by `ok` in the state it is taken from. -/
def Allowed (step : σ → α → Option σ) (ok : σ → α → Prop) : σ → List α → Prop
  | _, [] => True
  | s, a :: as => ok s a ∧ (step s a).elim True fun t => Allowed step ok t as

def decideAllowed (step : σ → α → Option σ) (ok : σ → α → Prop)
    [∀ s a, Decidable (ok s a)] : ∀ s as, Decidable (Allowed step ok s as)
  | _, [] => isTrue trivial
  | s, a :: as =>
    have : Decidable ((step s a).elim True fun t => Allowed step ok t as) :=
      match step s a with
      | none => isTrue trivial
      | some t => decideAllowed step ok t as
    inferInstanceAs (Decidable (ok s a ∧ _))

instance (step : σ → α → Option σ) (ok : σ → α → Prop) [∀ s a, Decidable (ok s a)]
    (s : σ) (as : List α) : Decidable (Allowed step ok s as) := decideAllowed step ok s as

variable {step : σ → α → Option σ} {ok : σ → α → Prop}

theorem exec_cons_some {s u : σ} {a : α} {as : List α} (h : exec step s (a :: as) = some u) :
    ∃ t, step s a = some t ∧ exec step t as = some u := by
  simpa [exec, Option.bind_eq_some_iff] using h

theorem exec_append (s : σ) (as bs : List α) :
    exec step s (as ++ bs) = (exec step s as).bind fun t => exec step t bs := by
  induction as generalizing s with
  | nil => rfl
  | cons a as ih =>
    simp only [List.cons_append, exec]
    rcases step s a with _ | t
    · rfl
    · exact ih t

/-- The rule of invariants: what each allowed step keeps holds after every
allowed run. -/
theorem exec_inv (Inv : σ → Prop)
    (hstep : ∀ s a t, Inv s → ok s a → step s a = some t → Inv t)
    {s t : σ} {as : List α} (h0 : Inv s) (hok : Allowed step ok s as)
    (h : exec step s as = some t) : Inv t := by
  induction as generalizing s with
  | nil =>
    cases h
    exact h0
  | cons a as ih =>
    obtain ⟨r, hr, hrt⟩ := exec_cons_some h
    obtain ⟨hoka, hrest⟩ := hok
    rw [hr] at hrest
    exact ih (hstep s a r h0 hoka hr) hrest hrt

theorem allowed_of_forall (hok : ∀ s a, ok s a) (s : σ) (as : List α) : Allowed step ok s as := by
  induction as generalizing s with
  | nil => trivial
  | cons a as ih =>
    refine ⟨hok s a, ?_⟩
    rcases step s a with _ | t
    · trivial
    · exact ih t

/-- A run whose actions are allowed in every state. -/
theorem allowed_of_mem {as : List α} (hok : ∀ a ∈ as, ∀ s, ok s a) (s : σ) :
    Allowed step ok s as := by
  induction as generalizing s with
  | nil => trivial
  | cons a as ih =>
    refine ⟨hok a List.mem_cons_self s, ?_⟩
    rcases step s a with _ | t
    · trivial
    · exact ih (fun b hb => hok b (List.mem_cons_of_mem a hb)) t

/-- The rule of invariants, where every step keeps them. -/
theorem exec_keeps (Inv : σ → Prop) (hstep : ∀ s a t, Inv s → step s a = some t → Inv t)
    {s t : σ} {as : List α} (h0 : Inv s) (h : exec step s as = some t) : Inv t :=
  have hok : Allowed step (fun _ _ => True) s as := allowed_of_forall (fun _ _ => trivial) s as
  exec_inv Inv (fun s a t hi _ ht => hstep s a t hi ht) h0 hok h

/-- When a step that is not allowed leaves the safe states at once, the runs that
stay in them are exactly the allowed ones. -/
theorem exec_safe_iff (Inv Safe : σ → Prop) (hsafe : ∀ s, Inv s → Safe s)
    (hgood : ∀ s a t, Inv s → ok s a → step s a = some t → Inv t)
    (hbad : ∀ s a, Inv s → ¬ ok s a → ∃ t, step s a = some t ∧ ¬ Safe t) {s : σ} (h0 : Inv s)
    (as : List α) :
    (∀ bs t, bs <+: as → exec step s bs = some t → Safe t) ↔ Allowed step ok s as := by
  induction as generalizing s with
  | nil =>
    refine ⟨fun _ => trivial, ?_⟩
    intro _ bs t hbs he
    cases List.prefix_nil.mp hbs
    cases he
    exact hsafe s h0
  | cons a as ih =>
    constructor
    · intro h
      have hok : ok s a := by
        by_contra hno
        obtain ⟨t, ht, hout⟩ := hbad s a h0 hno
        exact hout (h [a] t (by simp) (by simp [exec, ht]))
      refine ⟨hok, ?_⟩
      rcases hr : step s a with _ | r
      · trivial
      · refine (ih (hgood s a r h0 hok hr)).mp ?_
        intro bs t hbs he
        exact h (a :: bs) t (List.cons_prefix_cons.mpr ⟨rfl, hbs⟩) (by simp [exec, hr, he])
    · rintro ⟨hok, hrest⟩ bs t hbs he
      rcases List.prefix_cons_iff.mp hbs with rfl | ⟨cs, rfl, hcs⟩
      · cases he
        exact hsafe s h0
      · obtain ⟨r, hr, hrt⟩ := exec_cons_some he
        rw [hr] at hrest
        exact (ih (hgood s a r h0 hok hr)).mpr hrest cs t hcs hrt

/-- When an allowed step is exactly one that keeps the invariant, the runs that
keep it in every state they reach are exactly the allowed ones. -/
theorem exec_inv_iff (Inv : σ → Prop)
    (hstep : ∀ s a t, Inv s → step s a = some t → (Inv t ↔ ok s a))
    (hstop : ∀ s a, Inv s → step s a = none → ok s a) {s : σ} (h0 : Inv s) (as : List α) :
    (∀ bs t, bs <+: as → exec step s bs = some t → Inv t) ↔ Allowed step ok s as := by
  refine exec_safe_iff Inv Inv (fun _ h => h) ?_ ?_ h0 as
  · intro s a t hi hok ht
    exact (hstep s a t hi ht).mpr hok
  · intro s a hi hno
    rcases ht : step s a with _ | t
    · exact absurd (hstop s a hi ht) hno
    · exact ⟨t, rfl, fun h => hno ((hstep s a t hi ht).mp h)⟩

end runs
