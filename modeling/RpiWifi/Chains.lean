-- Chains of nodes: a pointer to the first node, in each node the pointer to the
-- next one, and the null pointer at the end. What a chain holds is determined
-- by its first pointer, so no node stands in it twice.
import Mathlib

namespace chains

universe u
variable {α : Type u}

/-- From `p` on, up to the null pointer, the nodes are `l`, in order. -/
def Chain (next : α → α) (null : α) : α → List α → Prop
  | p, [] => p = null
  | p, a :: l => p = a ∧ a ≠ null ∧ Chain next null (next a) l

variable {next next' : α → α} {null p a b : α} {l l' l₁ l₂ : List α}

/-- A chain reads the `next` fields of its own nodes only. -/
theorem Chain.congr (h : Chain next null p l) (hnext : ∀ c ∈ l, next' c = next c) :
    Chain next' null p l := by
  induction l generalizing p with
  | nil => exact h
  | cons c l ih =>
    obtain ⟨hp, hc, hrest⟩ := h
    refine ⟨hp, hc, ?_⟩
    rw [hnext c List.mem_cons_self]
    exact ih hrest fun d hd => hnext d (List.mem_cons_of_mem _ hd)

theorem chain_null (next : α → α) (null : α) : Chain next null null [] := rfl

/-- One pointer starts one chain. -/
theorem Chain.unique (h : Chain next null p l) (h' : Chain next null p l') : l = l' := by
  induction l generalizing p l' with
  | nil =>
    cases l' with
    | nil => rfl
    | cons c l' => exact absurd (h'.1.symm.trans h) h'.2.1
  | cons c l ih =>
    cases l' with
    | nil => exact absurd (h.1.symm.trans h') h.2.1
    | cons d l' =>
      obtain rfl : c = d := h.1.symm.trans h'.1
      rw [ih h.2.2 h'.2.2]

theorem Chain.ne_null (h : Chain next null p l) (ha : a ∈ l) : a ≠ null := by
  induction l generalizing p with
  | nil => cases ha
  | cons c l ih =>
    rcases List.mem_cons.mp ha with rfl | ha
    · exact h.2.1
    · exact ih h.2.2 ha

/-- From each of its nodes on, a chain is a chain. -/
theorem Chain.from_node (h : Chain next null p (l₁ ++ a :: l₂)) :
    Chain next null a (a :: l₂) := by
  induction l₁ generalizing p with
  | nil =>
    obtain ⟨-, ha, hrest⟩ := h
    exact ⟨rfl, ha, hrest⟩
  | cons c l₁ ih => exact ih h.2.2

/-- No node stands twice in a chain: from both places on, the rest would be the same. -/
theorem Chain.nodup (h : Chain next null p l) : l.Nodup := by
  induction l generalizing p with
  | nil => exact List.nodup_nil
  | cons c l ih =>
    refine List.nodup_cons.mpr ⟨?_, ih h.2.2⟩
    intro hc
    obtain ⟨l₁, l₂, rfl⟩ := List.append_of_mem hc
    have hlong : Chain next null c (c :: (l₁ ++ c :: l₂)) := ⟨rfl, h.2⟩
    have hshort : Chain next null c (c :: l₂) := h.2.2.from_node
    have heq := congrArg List.length (hlong.unique hshort)
    simp only [List.length_cons, List.length_append] at heq
    omega

/-- A node is put in front. -/
theorem Chain.push (h : Chain next null p l) (ha : a ≠ null) (hp : next' a = p)
    (hnext : ∀ c ∈ l, next' c = next c) : Chain next' null a (a :: l) := by
  refine ⟨rfl, ha, ?_⟩
  rw [hp]
  exact h.congr hnext

/-- The first node is taken off. -/
theorem Chain.pop (h : Chain next null p l) (hp : p ≠ null) :
    ∃ l', l = p :: l' ∧ Chain next null (next p) l' := by
  cases l with
  | nil => exact absurd h hp
  | cons c l =>
    obtain ⟨rfl, -, hrest⟩ := h
    exact ⟨l, rfl, hrest⟩

/-- A node is put behind the last one. -/
theorem Chain.extend (h : Chain next null p (l ++ [b])) (ha : a ≠ null) (hb : next' b = a)
    (hend : next' a = null) (hnext : ∀ c ∈ l, next' c = next c) :
    Chain next' null p (l ++ [b] ++ [a]) := by
  induction l generalizing p with
  | nil =>
    obtain ⟨hp, hnull, -⟩ := h
    exact ⟨hp, hnull, hb, ha, hend⟩
  | cons c l ih =>
    obtain ⟨hp, hc, hrest⟩ := h
    refine ⟨hp, hc, ?_⟩
    rw [hnext c List.mem_cons_self]
    exact ih hrest fun d hd => hnext d (List.mem_cons_of_mem _ hd)

/-! ## Queues -/

/-- A chain with a second pointer, to its last node. The pointer is null when
there is no node. -/
structure LinkedQueue (next : α → α) (null first last : α) (l : List α) : Prop where
  chain : Chain next null first l
  last : last = l.getLast?.getD null

variable {first last : α}

/-- The queue is empty exactly when the pointer to the first node is null. -/
theorem LinkedQueue.first_eq_null (h : LinkedQueue next null first last l) :
    first = null ↔ l = [] := by
  constructor
  · intro hf
    exact (hf ▸ h.chain).unique (chain_null next null)
  · rintro rfl
    exact h.chain

theorem LinkedQueue.last_mem (h : LinkedQueue next null first last l) (hne : first ≠ null) :
    last ∈ l := by
  have hl : l ≠ [] := fun hl => hne (h.first_eq_null.mpr hl)
  rw [h.last, List.getLast?_eq_some_getLast hl]
  exact List.getLast_mem hl

/-- The first node of a queue, with what stands behind it. -/
theorem LinkedQueue.remove [DecidableEq α] (h : LinkedQueue next null first last (a :: l)) :
    first = a ∧ (next a = null → last = a) ∧
      LinkedQueue next null (next a) (if next a = null then null else last) l := by
  obtain ⟨hfirst, -, hrest⟩ := h.chain
  have hlast := h.last
  refine ⟨hfirst, ?_, hrest, ?_⟩
  · intro hend
    obtain rfl : l = [] := (hend ▸ hrest).unique (chain_null next null)
    exact hlast
  · cases l with
    | nil => exact if_pos hrest
    | cons c l =>
      have hne : next a ≠ null := hrest.1 ▸ hrest.2.1
      rw [if_neg hne, hlast, List.getLast?_cons_cons]

/-- A new node goes behind the last one, or becomes the first one. -/
theorem LinkedQueue.insert [DecidableEq α] (h : LinkedQueue next null first last l) (ha : a ≠ null)
    (hend : next' a = null) (hlast : first ≠ null → next' last = a)
    (hnext : ∀ c ∈ l, c ≠ last → next' c = next c) :
    LinkedQueue next' null (if first = null then a else first) a (l ++ [a]) := by
  refine ⟨?_, by simp⟩
  rcases l.eq_nil_or_concat' with rfl | ⟨l, b, rfl⟩
  · rw [if_pos (h.first_eq_null.mpr rfl)]
    exact ⟨rfl, ha, hend⟩
  · have hne : first ≠ null := by
      intro hf
      simpa using h.first_eq_null.mp hf
    have hb : last = b := by simpa using h.last
    subst hb
    rw [if_neg hne]
    apply h.chain.extend ha (hlast hne) hend
    intro c hc
    apply hnext c (List.mem_append_left _ hc)
    rintro rfl
    exact (List.nodup_append.mp h.chain.nodup).2.2 c hc c List.mem_cons_self rfl

/-! ## Lists that are linked both ways -/

/-- A chain whose nodes point back to the ones before them, with a second pointer to
its last node. -/
structure DoublyLinked (next prev : α → α) (null first last : α) (l : List α) : Prop where
  forward : Chain next null first l
  backward : Chain prev null last l.reverse

variable {prev prev' : α → α}

theorem DoublyLinked.last_eq_null (h : DoublyLinked next prev null first last l) :
    last = null ↔ l = [] := by
  constructor
  · intro hlast
    have hnil := (hlast ▸ h.backward).unique (chain_null prev null)
    exact List.reverse_eq_nil_iff.mp hnil
  · rintro rfl
    exact h.backward

theorem DoublyLinked.linkedQueue (h : DoublyLinked next prev null first last l) :
    LinkedQueue next null first last l := by
  refine ⟨h.forward, ?_⟩
  rcases l.eq_nil_or_concat' with rfl | ⟨l, b, rfl⟩
  · exact h.backward
  · have hback := h.backward
    rw [List.reverse_append] at hback
    simpa using hback.1

/-- A list is left as it is by writes to other nodes. -/
theorem DoublyLinked.congr (h : DoublyLinked next prev null first last l)
    (hnext : ∀ c ∈ l, next' c = next c) (hprev : ∀ c ∈ l, prev' c = prev c) :
    DoublyLinked next' prev' null first last l :=
  ⟨h.forward.congr hnext, h.backward.congr fun c hc => hprev c (List.mem_reverse.mp hc)⟩

/-- A chain ends at a node whose pointer is cleared. -/
theorem Chain.truncate (h : Chain next null p (l ++ [b, a])) (hb : next' b = null)
    (hnext : ∀ c ∈ l, next' c = next c) : Chain next' null p (l ++ [b]) := by
  induction l generalizing p with
  | nil =>
    obtain ⟨hp, hne, -⟩ := h
    exact ⟨hp, hne, hb⟩
  | cons c l ih =>
    obtain ⟨hp, hne, hrest⟩ := h
    refine ⟨hp, hne, ?_⟩
    rw [hnext c List.mem_cons_self]
    exact ih hrest fun d hd => hnext d (List.mem_cons_of_mem _ hd)

/-- A new node goes behind the last one, and points back to it. -/
theorem DoublyLinked.insert [DecidableEq α] (h : DoublyLinked next prev null first last l)
    (ha : a ≠ null) (hend : next' a = null) (hlast : last ≠ null → next' last = a)
    (hnext : ∀ c ∈ l, c ≠ last → next' c = next c) (hback : prev' a = last)
    (hprev : ∀ c ∈ l, prev' c = prev c) :
    DoublyLinked next' prev' null (if last = null then a else first) a (l ++ [a]) := by
  have hempty : first = null ↔ last = null := by
    rw [h.linkedQueue.first_eq_null, h.last_eq_null]
  refine ⟨?_, ?_⟩
  · have hq := h.linkedQueue.insert ha hend (fun hne => hlast (mt hempty.mpr hne)) hnext
    simp only [← hempty]
    exact hq.chain
  · rw [List.reverse_append]
    exact h.backward.push ha hback fun c hc => hprev c (List.mem_reverse.mp hc)

/-- The first node is taken off, and the one behind it no longer points back. -/
theorem DoublyLinked.remove [DecidableEq α] (h : DoublyLinked next prev null first last (a :: l))
    (hback : next a ≠ null → prev' (next a) = null)
    (hprev : ∀ c ∈ l, c ≠ next a → prev' c = prev c) :
    DoublyLinked next prev' null (next a) (if next a = null then null else last) l := by
  obtain ⟨-, -, hq⟩ := h.linkedQueue.remove
  refine ⟨hq.chain, ?_⟩
  cases l with
  | nil => exact if_pos hq.chain
  | cons b l =>
    obtain ⟨hb, hbnull, -⟩ := hq.chain
    have hnodup := hq.chain.nodup
    have hback' := h.backward
    rw [List.reverse_cons, List.reverse_cons, List.append_assoc] at hback'
    rw [if_neg (hb ▸ hbnull), List.reverse_cons]
    refine hback'.truncate ?_ ?_
    · rw [← hb]
      exact hback (hb ▸ hbnull)
    · intro c hc
      have hmem : c ∈ l := List.mem_reverse.mp hc
      apply hprev c (List.mem_cons_of_mem _ hmem)
      rw [hb]
      rintro rfl
      exact (List.nodup_cons.mp hnodup).1 hmem

/-! ## A node in the middle -/

theorem Chain.head_eq (h : Chain next null p l) : p = l.head?.getD null := by
  cases l with
  | nil => exact h
  | cons a l => exact h.1

theorem Chain.next_eq (h : Chain next null p (l₁ ++ a :: l₂)) : next a = l₂.head?.getD null :=
  h.from_node.2.2.head_eq

/-- A node is taken out: the one in front of it comes to point to the one behind. -/
theorem Chain.bypass (h : Chain next null p (l₁ ++ a :: l₂))
    (hlast : ∀ b ∈ l₁.getLast?, next' b = next a)
    (hnext : ∀ c ∈ l₁ ++ l₂, c ∉ l₁.getLast? → next' c = next c) :
    Chain next' null (if l₁ = [] then next a else p) (l₁ ++ l₂) := by
  induction l₁ generalizing p with
  | nil => exact h.2.2.congr fun c hc => hnext c hc (by simp)
  | cons c l₁ ih =>
    have hnodup := h.nodup
    obtain ⟨hp, hc, hrest⟩ := h
    have hfront : next' c = if l₁ = [] then next a else next c := by
      cases l₁ with
      | nil => exact hlast c (by simp)
      | cons d l₁ =>
        refine hnext c (by simp) ?_
        intro hmem
        rw [List.getLast?_cons_cons] at hmem
        exact (List.nodup_cons.mp hnodup).1 (List.mem_append_left _ (List.mem_of_getLast? hmem))
    rw [if_neg (List.cons_ne_nil c l₁)]
    refine ⟨hp, hc, ?_⟩
    rw [hfront]
    refine ih hrest (fun b hb => hlast b ?_) fun d hd hlastd => hnext d (by simp [hd]) ?_
    · cases l₁ with
      | nil => simp at hb
      | cons e l₁ => rwa [List.getLast?_cons_cons]
    · cases l₁ with
      | nil =>
        intro hmem
        obtain rfl : c = d := by simpa using hmem
        exact (List.nodup_cons.mp hnodup).1 (by simpa using Or.inr hd)
      | cons e l₁ => rwa [List.getLast?_cons_cons]

theorem DoublyLinked.symm (h : DoublyLinked next prev null first last l) :
    DoublyLinked prev next null last first l.reverse :=
  ⟨h.backward, by rw [List.reverse_reverse]; exact h.forward⟩

theorem Chain.first_eq_iff (h : Chain next null p (l₁ ++ a :: l₂)) : p = a ↔ l₁ = [] := by
  cases l₁ with
  | nil => exact iff_of_true h.1 rfl
  | cons c l₁ =>
    refine iff_of_false ?_ (List.cons_ne_nil c l₁)
    rintro rfl
    obtain rfl : p = c := h.1
    exact (List.nodup_cons.mp h.nodup).1 (by simp)

/-- A node is taken out of a list that is linked both ways. -/
theorem DoublyLinked.delete [DecidableEq α]
    (h : DoublyLinked next prev null first last (l₁ ++ a :: l₂))
    (hlast : ∀ b ∈ l₁.getLast?, next' b = next a)
    (hnext : ∀ c ∈ l₁ ++ l₂, c ∉ l₁.getLast? → next' c = next c)
    (hhead : ∀ b ∈ l₂.head?, prev' b = prev a)
    (hprev : ∀ c ∈ l₁ ++ l₂, c ∉ l₂.head? → prev' c = prev c) :
    DoublyLinked next' prev' null (if first = a then next a else first)
      (if last = a then prev a else last) (l₁ ++ l₂) := by
  have hback : Chain prev null last (l₂.reverse ++ a :: l₁.reverse) := by
    have hrev := h.backward
    rw [List.reverse_append, List.reverse_cons, List.append_assoc] at hrev
    exact hrev
  constructor
  · simp only [h.forward.first_eq_iff]
    exact h.forward.bypass hlast hnext
  · simp only [hback.first_eq_iff]
    rw [List.reverse_append]
    refine hback.bypass ?_ ?_
    · intro b hb
      rw [List.getLast?_reverse] at hb
      exact hhead b hb
    · intro c hc hno
      rw [List.getLast?_reverse] at hno
      exact hprev c (by simpa [or_comm] using hc) hno

/-- The pointer back from a node is to the one in front of it, or null. -/
theorem DoublyLinked.prev_eq (h : DoublyLinked next prev null first last (l₁ ++ a :: l₂)) :
    prev a = l₁.getLast?.getD null := by
  have hback := h.backward
  rw [List.reverse_append, List.reverse_cons, List.append_assoc] at hback
  have heq : prev a = l₁.reverse.head?.getD null := hback.next_eq
  rwa [List.head?_reverse] at heq

/-- The nodes around `a` come to point to each other, where there are any. -/
theorem DoublyLinked.unlink [DecidableEq α]
    (h : DoublyLinked next prev null first last (l₁ ++ a :: l₂))
    (hnext : ∀ c, next' c = if prev a ≠ null ∧ c = prev a then next a else next c)
    (hprev : ∀ c, prev' c = if next a ≠ null ∧ c = next a then prev a else prev c) :
    DoublyLinked next' prev' null (if first = a then next a else first)
      (if last = a then prev a else last) (l₁ ++ l₂) := by
  have hbehind : next a = l₂.head?.getD null := h.forward.next_eq
  have hfront : prev a = l₁.getLast?.getD null := h.prev_eq
  have hne : ∀ c ∈ l₁ ++ l₂, c ≠ null := fun c hc =>
    h.forward.ne_null (by simp at hc ⊢; tauto)
  refine h.delete ?_ ?_ ?_ ?_
  · intro b hb
    have hmem : b ∈ l₁ ++ l₂ := List.mem_append_left _ (List.mem_of_getLast? hb)
    rw [Option.mem_def.mp hb, Option.getD_some] at hfront
    rw [hnext, hfront, if_pos ⟨hne b hmem, rfl⟩]
  · intro c hc hno
    rw [hnext, if_neg]
    rintro ⟨hsome, rfl⟩
    cases hlast : l₁.getLast? with
    | none => exact hsome (by rw [hfront, hlast]; rfl)
    | some b => exact hno (by rw [hfront, hlast]; rfl)
  · intro b hb
    have hmem : b ∈ l₁ ++ l₂ := List.mem_append_right _ (List.mem_of_head? hb)
    rw [Option.mem_def.mp hb, Option.getD_some] at hbehind
    rw [hprev, hbehind, if_pos ⟨hne b hmem, rfl⟩]
  · intro c hc hno
    rw [hprev, if_neg]
    rintro ⟨hsome, rfl⟩
    cases hfirst : l₂.head? with
    | none => exact hsome (by rw [hbehind, hfirst]; rfl)
    | some b => exact hno (by rw [hbehind, hfirst]; rfl)

end chains
