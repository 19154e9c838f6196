-- The list of `list.c` and the queue over it, against the sequence of their elements.
-- Whatever calls are made, the nodes are linked both ways in the order of the sequence;
-- but `list_tail` returns the head.
import RpiWifi.Chains

namespace rpi_wifi.kernel_list

open chains

universe u
variable {α : Type u}

abbrev Addr := Nat

def NULL : Addr := 0

/-! ## The functions -/

/-- `l_node` -/
structure Node where
  data : Addr
  next : Addr
  prev : Addr

/-- The list, with the nodes and the blocks of data in the memory, and the blocks that
`kernel_allocate` has given and not got back. The nodes that fit in the memory are too few for
`list_size` to overflow. -/
structure KList (α : Type u) where
  nodes : Addr → Node
  blocks : Addr → α
  live : Finset Addr
  list_size : Int
  head : Addr
  tail : Addr

namespace KList

def setNext (s : KList α) (p next : Addr) : KList α :=
  { s with nodes := Function.update s.nodes p { s.nodes p with next } }

def setPrev (s : KList α) (p prev : Addr) : KList α :=
  { s with nodes := Function.update s.nodes p { s.nodes p with prev } }

/-- A new node, and a block with a copy of the data. -/
def allocate (s : KList α) (node data : Addr) (x : α) (next prev : Addr) : KList α :=
  { s with
    nodes := Function.update s.nodes node { data, next, prev }
    blocks := Function.update s.blocks data x
    live := insert node (insert data s.live) }

def kernel_deallocate (s : KList α) (p : Addr) : KList α := { s with live := s.live.erase p }

end KList

section
variable (s : KList α)

/-- `list_push_front`, with the addresses that its two calls of `kernel_allocate` return. -/
def list_push_front (node data : Addr) (x : α) : KList α :=
  let s := s.allocate node data x s.head NULL
  let s := if s.head ≠ NULL then s.setPrev s.head node else s
  let s := { s with head := node }
  { s with
    tail := if s.tail = NULL then s.head else s.tail
    list_size := s.list_size + 1 }

def list_push_back (node data : Addr) (x : α) : KList α :=
  let s := s.allocate node data x NULL s.tail
  let s := if s.tail ≠ NULL then s.setNext s.tail node else s
  let s := { s with tail := node }
  { s with
    head := if s.head = NULL then s.tail else s.head
    list_size := s.list_size + 1 }

def list_delete_head : KList α :=
  if s.head ≠ NULL then
    let node := s.head
    let next := (s.nodes node).next
    let s := { s with head := next }
    let s := if next ≠ NULL then s.setPrev next NULL else s
    let s := { s with tail := if s.tail = node then NULL else s.tail }
    let s := (s.kernel_deallocate (s.nodes node).data).kernel_deallocate node
    { s with list_size := s.list_size - 1 }
  else s

def list_delete_tail : KList α :=
  if s.tail ≠ NULL then
    let node := s.tail
    let prev := (s.nodes node).prev
    let s := { s with tail := prev }
    let s := if prev ≠ NULL then s.setNext prev NULL else s
    let s := { s with head := if s.head = node then NULL else s.head }
    let s := (s.kernel_deallocate (s.nodes node).data).kernel_deallocate node
    { s with list_size := s.list_size - 1 }
  else s

def list_delete_node (node : Addr) : KList α :=
  let prev := (s.nodes node).prev
  let next := (s.nodes node).next
  let s := if prev ≠ NULL then s.setNext prev next else s
  let s := if next ≠ NULL then s.setPrev next prev else s
  let s := { s with head := if s.head = node then next else s.head }
  let s := { s with tail := if s.tail = node then prev else s.tail }
  let s := (s.kernel_deallocate (s.nodes node).data).kernel_deallocate node
  { s with list_size := s.list_size - 1 }

def list_head : Addr := if s.head = NULL then NULL else s.head

def list_tail : Addr := if s.head = NULL then NULL else s.head

/-- The loop of `list_for_each`: the nodes that are visited. The iterator answers its call `k`
for a node with `iterator k`. -/
def forEachLoop (iterator : Nat → Addr → Bool) : Nat → Nat → Addr → Option (List Addr)
  | 0, _, _ => none
  | fuel + 1, k, node =>
    if node = NULL then some []
    else if iterator k node then
      (forEachLoop iterator fuel (k + 1) (s.nodes node).next).map (node :: ·)
    else some [node]

/-- `list_for_each`. There may be no iterator. -/
def list_for_each (iterator : Option (Nat → Addr → Bool)) (fuel : Nat) : Option (List Addr) :=
  match iterator with
  | none => some []
  | some iterator => forEachLoop s iterator fuel 0 s.head

def enqueue (node data : Addr) (x : α) : KList α := list_push_back s node data x

/-- `dequeue`, with what it copies to the buffer. -/
def dequeue : KList α × Option α :=
  if s.list_size = 0 then (s, none)
  else
    let head := list_head s
    (list_delete_head s, some (s.blocks (s.nodes head).data))

end

/-! ## The sequence -/

inductive Op (α : Type u) where
  | list_push_front (node data : Addr) (x : α)
  | list_push_back (node data : Addr) (x : α)
  | list_delete_head
  | list_delete_tail
  | list_delete_node (node : Addr)
  | enqueue (node data : Addr) (x : α)
  | dequeue

/-- What a call does to the list, and what it returns of its elements. -/
def KList.step (s : KList α) : Op α → KList α × Option α
  | .list_push_front node data x => (kernel_list.list_push_front s node data x, none)
  | .list_push_back node data x => (kernel_list.list_push_back s node data x, none)
  | .list_delete_head => (kernel_list.list_delete_head s, none)
  | .list_delete_tail => (kernel_list.list_delete_tail s, none)
  | .list_delete_node node => (kernel_list.list_delete_node s node, none)
  | .enqueue node data x => (kernel_list.enqueue s node data x, none)
  | .dequeue => kernel_list.dequeue s

/-- An element: the address of its node, and its value. -/
abbrev Element (α : Type u) := Addr × α

/-- What the call does to the sequence. -/
def seqStep (l : List (Element α)) : Op α → List (Element α)
  | .list_push_front node _ x => (node, x) :: l
  | .list_push_back node _ x => l ++ [(node, x)]
  | .list_delete_head => l.tail
  | .list_delete_tail => l.dropLast
  | .list_delete_node node => l.filter fun e => e.1 ≠ node
  | .enqueue node _ x => l ++ [(node, x)]
  | .dequeue => l.tail

/-- The two blocks of an allocation are new ones. -/
structure Fresh (s : KList α) (node data : Addr) : Prop where
  node_ne : node ≠ NULL
  node_new : node ∉ s.live
  data_new : data ∉ s.live
  ne : node ≠ data

/-- The calls that can be made: allocations succeed, and a node that is deleted is one of the
list. -/
def Allowed (s : KList α) (l : List (Element α)) : Op α → Prop
  | .list_push_front node data _ => Fresh s node data
  | .list_push_back node data _ => Fresh s node data
  | .list_delete_node node => node ∈ l.map Prod.fst
  | .enqueue node data _ => Fresh s node data
  | _ => True

/-- A list that `new_list` has made, in a memory where other blocks may be in use. -/
def new_list (nodes : Addr → Node) (blocks : Addr → α) (live : Finset Addr) :
    KList α :=
  ⟨nodes, blocks, live, 0, NULL, NULL⟩

/-- After the calls `ops` the list is `s`, its sequence is `l`, and the elements `out` have
been returned. -/
inductive Run (start : KList α) : List (Op α) → KList α → List (Element α) → List α → Prop
  | nil : Run start [] start [] []
  | snoc {ops : List (Op α)} {s : KList α} {l : List (Element α)} {out : List α} {op : Op α}
    (h : Run start ops s l out) (hop : Allowed s l op) :
    Run start (ops ++ [op]) (s.step op).1 (seqStep l op) (out ++ (s.step op).2.toList)

/-- The nodes that are visited until the iterator answers with false. -/
def visits (iterator : Nat → Addr → Bool) : Nat → List Addr → List Addr
  | _, [] => []
  | k, p :: l => if iterator k p then p :: visits iterator (k + 1) l else [p]

/-- What a call of `enqueue` brings in. -/
def enqueued : Op α → Option α
  | .enqueue _ _ x => some x
  | _ => none

def IsQueueOp : Op α → Prop
  | .enqueue _ _ _ => True
  | .dequeue => True
  | _ => False

/-- The blocks of the elements. -/
def held (s : KList α) (l : List (Element α)) : List Addr :=
  l.flatMap fun e => [e.1, (s.nodes e.1).data]

/-- The memory holds the sequence. -/
structure Represents (s : KList α) (l : List (Element α)) : Prop where
  linked : DoublyLinked (fun p => (s.nodes p).next) (fun p => (s.nodes p).prev) NULL s.head s.tail
    (l.map Prod.fst)
  values : ∀ e ∈ l, s.blocks (s.nodes e.1).data = e.2
  size : s.list_size = l.length
  nodup : (held s l).Nodup
  live : ∀ p ∈ held s l, p ∈ s.live

/-- What is expected of the list after calls, of its functions but for `list_tail`. -/
structure Refines (ops : List (Op α)) (s : KList α) (l : List (Element α)) (out : List α) :
    Prop where
  represents : Represents s l
  head : list_head s = (l.map Prod.fst).head?.getD NULL
  each : ∀ iterator fuel, l.length < fuel →
    list_for_each s (some iterator) fuel = some (visits iterator 0 (l.map Prod.fst))
  first : (dequeue s).2 = l.head?.map Prod.snd
  order : (∀ op ∈ ops, IsQueueOp op) → out ++ l.map Prod.snd = ops.filterMap enqueued

/-- What is expected of all of them. -/
structure Right (ops : List (Op α)) (s : KList α) (l : List (Element α)) (out : List α) :
    Prop extends Refines ops s l out where
  tail : list_tail s = (l.map Prod.fst).getLast?.getD NULL

variable {s start : KList α} {l l₁ l₂ : List (Element α)} {out : List α} {ops : List (Op α)}
  {a node data : Addr} {x : α}

/-! ## The fields after a write -/

@[simp] theorem setNext_rest (s : KList α) (p v : Addr) :
    (s.setNext p v).blocks = s.blocks ∧ (s.setNext p v).live = s.live ∧
      (s.setNext p v).list_size = s.list_size ∧ (s.setNext p v).head = s.head ∧
      (s.setNext p v).tail = s.tail := ⟨rfl, rfl, rfl, rfl, rfl⟩

@[simp] theorem setPrev_rest (s : KList α) (p v : Addr) :
    (s.setPrev p v).blocks = s.blocks ∧ (s.setPrev p v).live = s.live ∧
      (s.setPrev p v).list_size = s.list_size ∧ (s.setPrev p v).head = s.head ∧
      (s.setPrev p v).tail = s.tail := ⟨rfl, rfl, rfl, rfl, rfl⟩

@[simp] theorem setNext_next (s : KList α) (p v c : Addr) :
    ((s.setNext p v).nodes c).next = if c = p then v else (s.nodes c).next := by
  unfold KList.setNext
  simp only [Function.update_apply]
  split <;> rfl

@[simp] theorem setNext_prev (s : KList α) (p v c : Addr) :
    ((s.setNext p v).nodes c).prev = (s.nodes c).prev := by
  unfold KList.setNext
  simp only [Function.update_apply]
  split
  · next h => rw [h]
  · rfl

@[simp] theorem setNext_data (s : KList α) (p v c : Addr) :
    ((s.setNext p v).nodes c).data = (s.nodes c).data := by
  unfold KList.setNext
  simp only [Function.update_apply]
  split
  · next h => rw [h]
  · rfl

@[simp] theorem setPrev_next (s : KList α) (p v c : Addr) :
    ((s.setPrev p v).nodes c).next = (s.nodes c).next := by
  unfold KList.setPrev
  simp only [Function.update_apply]
  split
  · next h => rw [h]
  · rfl

@[simp] theorem setPrev_prev (s : KList α) (p v c : Addr) :
    ((s.setPrev p v).nodes c).prev = if c = p then v else (s.nodes c).prev := by
  unfold KList.setPrev
  simp only [Function.update_apply]
  split <;> rfl

@[simp] theorem setPrev_data (s : KList α) (p v c : Addr) :
    ((s.setPrev p v).nodes c).data = (s.nodes c).data := by
  unfold KList.setPrev
  simp only [Function.update_apply]
  split
  · next h => rw [h]
  · rfl

/-! ## Taking a node out -/

/-- The nodes after `list_delete_node`. -/
theorem delete_nodes (s : KList α) (a c : Addr) :
    ((list_delete_node s a).nodes c).next =
        (if (s.nodes a).prev ≠ NULL ∧ c = (s.nodes a).prev then (s.nodes a).next
        else (s.nodes c).next) ∧
      ((list_delete_node s a).nodes c).prev =
        (if (s.nodes a).next ≠ NULL ∧ c = (s.nodes a).next then (s.nodes a).prev
        else (s.nodes c).prev) ∧
      ((list_delete_node s a).nodes c).data = (s.nodes c).data := by
  unfold list_delete_node KList.kernel_deallocate
  dsimp only
  by_cases hprev : (s.nodes a).prev = NULL <;> by_cases hnext : (s.nodes a).next = NULL <;>
    simp [hprev, hnext]

/-- The rest of the list after `list_delete_node`. -/
theorem delete_rest (s : KList α) (a : Addr) :
    (list_delete_node s a).head = (if s.head = a then (s.nodes a).next else s.head) ∧
      (list_delete_node s a).tail = (if s.tail = a then (s.nodes a).prev else s.tail) ∧
      (list_delete_node s a).blocks = s.blocks ∧
      (list_delete_node s a).list_size = s.list_size - 1 ∧
      (list_delete_node s a).live = (s.live.erase (s.nodes a).data).erase a := by
  unfold list_delete_node KList.kernel_deallocate
  dsimp only
  by_cases hprev : (s.nodes a).prev = NULL <;> by_cases hnext : (s.nodes a).next = NULL <;>
    simp [hprev, hnext]

theorem held_cons (s : KList α) (e : Element α) (l : List (Element α)) :
    held s (e :: l) = e.1 :: (s.nodes e.1).data :: held s l := rfl

theorem mem_held {e : Element α} (he : e ∈ l) :
    e.1 ∈ held s l ∧ (s.nodes e.1).data ∈ held s l := by
  unfold held
  constructor <;> exact List.mem_flatMap.mpr ⟨e, he, by simp⟩

theorem held_congr {s' : KList α} (h : ∀ e ∈ l, (s'.nodes e.1).data = (s.nodes e.1).data) :
    held s' l = held s l := by
  induction l with
  | nil => rfl
  | cons e l ih =>
    rw [held_cons, held_cons, h e List.mem_cons_self,
      ih fun d hd => h d (List.mem_cons_of_mem _ hd)]

/-- The two blocks of an element, apart from those of the others. -/
theorem Represents.apart (h : Represents s (l₁ ++ (a, x) :: l₂)) :
    a ∉ held s (l₁ ++ l₂) ∧ (s.nodes a).data ∉ held s (l₁ ++ l₂) ∧
      (held s (l₁ ++ l₂)).Nodup ∧ ∀ p ∈ held s (l₁ ++ l₂), p ∈ s.live := by
  have hperm : (held s (l₁ ++ (a, x) :: l₂)).Perm (held s ((a, x) :: (l₁ ++ l₂))) :=
    List.perm_middle.flatMap_right _
  have hnodup := hperm.nodup_iff.mp h.nodup
  rw [held_cons, List.nodup_cons, List.nodup_cons] at hnodup
  obtain ⟨ha, hdata, hrest⟩ := hnodup
  refine ⟨fun hmem => ha (List.mem_cons_of_mem _ hmem), hdata, hrest, fun p hp => ?_⟩
  refine h.live p (hperm.mem_iff.mpr ?_)
  rw [held_cons]
  simp [hp]

theorem represents_delete_node (h : Represents s (l₁ ++ (a, x) :: l₂)) :
    Represents (list_delete_node s a) (l₁ ++ l₂) := by
  obtain ⟨ha, hdata, hnodup, hlive⟩ := h.apart
  obtain ⟨hhead, htail, hblocks, hsize, hfreed⟩ := delete_rest s a
  have hnodes := delete_nodes s a
  have hheld : held (list_delete_node s a) (l₁ ++ l₂) = held s (l₁ ++ l₂) :=
    held_congr fun e _ => (hnodes e.1).2.2
  have hlinked := h.linked
  rw [List.map_append, List.map_cons] at hlinked
  refine ⟨?_, ?_, ?_, hheld ▸ hnodup, ?_⟩
  · rw [hhead, htail, List.map_append]
    exact hlinked.unlink (fun c => (hnodes c).1) fun c => (hnodes c).2.1
  · intro e he
    rw [hblocks, (hnodes e.1).2.2]
    exact h.values e (by simp at he ⊢; tauto)
  · rw [hsize, h.size]
    simp
    omega
  · intro p hp
    rw [hheld] at hp
    rw [hfreed, Finset.mem_erase, Finset.mem_erase]
    exact ⟨fun heq => ha (heq ▸ hp), fun heq => hdata (heq ▸ hp), hlive p hp⟩

/-- The first node is deleted as any other: nothing is in front of it. -/
theorem delete_head_eq (hne : s.head ≠ NULL) (hprev : (s.nodes s.head).prev = NULL) :
    list_delete_head s = list_delete_node s s.head := by
  unfold list_delete_head list_delete_node KList.kernel_deallocate
  dsimp only
  rw [if_pos hne]
  by_cases hnext : (s.nodes s.head).next = NULL <;> simp [hprev, hnext, KList.setPrev]

theorem delete_tail_eq (hne : s.tail ≠ NULL) (hnext : (s.nodes s.tail).next = NULL) :
    list_delete_tail s = list_delete_node s s.tail := by
  unfold list_delete_tail list_delete_node KList.kernel_deallocate
  dsimp only
  rw [if_pos hne]
  by_cases hprev : (s.nodes s.tail).prev = NULL <;> simp [hprev, hnext, KList.setNext]

theorem represents_delete_head (h : Represents s l) :
    Represents (list_delete_head s) l.tail := by
  have hlinked := h.linked
  cases l with
  | nil =>
    have hhead : s.head = NULL := hlinked.forward
    unfold list_delete_head
    rw [if_neg (not_not_intro hhead)]
    exact h
  | cons e l =>
    obtain ⟨a, x⟩ := e
    obtain ⟨hhead, hne, -⟩ := hlinked.forward
    have hhead : s.head = a := hhead
    have hfront : DoublyLinked (fun p => (s.nodes p).next) (fun p => (s.nodes p).prev) NULL s.head
        s.tail ([] ++ a :: l.map Prod.fst) := hlinked
    have hfirst : Represents s ([] ++ (a, x) :: l) := h
    rw [delete_head_eq (hhead ▸ hne) (hhead ▸ hfront.prev_eq), hhead]
    exact represents_delete_node hfirst

theorem represents_delete_tail (h : Represents s l) :
    Represents (list_delete_tail s) l.dropLast := by
  have hlinked := h.linked
  rcases l.eq_nil_or_concat' with rfl | ⟨l, ⟨a, x⟩, rfl⟩
  · have htail : s.tail = NULL := hlinked.backward
    unfold list_delete_tail
    rw [if_neg (not_not_intro htail)]
    exact h
  · rw [List.map_append, List.map_singleton] at hlinked
    have htail : s.tail = a := by simpa using hlinked.linkedQueue.last
    have hne : a ≠ NULL := hlinked.forward.ne_null (by simp)
    have hnext : (s.nodes a).next = NULL := hlinked.forward.next_eq
    rw [delete_tail_eq (htail ▸ hne) (htail ▸ hnext), htail, List.dropLast_concat]
    have hback : Represents s (l ++ (a, x) :: []) := h
    have hrest := represents_delete_node hback
    rwa [List.append_nil] at hrest

/-! ## Putting a node in -/

@[simp] theorem allocate_rest (s : KList α) (a data next prev : Addr) (x : α) :
    (s.allocate a data x next prev).blocks = Function.update s.blocks data x ∧
      (s.allocate a data x next prev).live = insert a (insert data s.live) ∧
      (s.allocate a data x next prev).list_size = s.list_size ∧
      (s.allocate a data x next prev).head = s.head ∧
      (s.allocate a data x next prev).tail = s.tail := ⟨rfl, rfl, rfl, rfl, rfl⟩

@[simp] theorem allocate_nodes (s : KList α) (a data next prev c : Addr) (x : α) :
    (s.allocate a data x next prev).nodes c =
      if c = a then ⟨data, next, prev⟩ else s.nodes c := by
  unfold KList.allocate
  simp only [Function.update_apply]

/-- The list after `list_push_back`. -/
theorem push_back_nodes (s : KList α) (a data c : Addr) (x : α) :
    ((list_push_back s a data x).nodes c).next =
        (if s.tail ≠ NULL ∧ c = s.tail then a else if c = a then NULL else (s.nodes c).next) ∧
      ((list_push_back s a data x).nodes c).prev =
        (if c = a then s.tail else (s.nodes c).prev) ∧
      ((list_push_back s a data x).nodes c).data =
        (if c = a then data else (s.nodes c).data) := by
  unfold list_push_back
  dsimp only
  by_cases htail : s.tail = NULL <;> by_cases hc : c = a <;> simp [htail, hc]

theorem push_back_rest (s : KList α) (a data : Addr) (x : α) :
    (list_push_back s a data x).head = (if s.head = NULL then a else s.head) ∧
      (list_push_back s a data x).tail = a ∧
      (list_push_back s a data x).blocks = Function.update s.blocks data x ∧
      (list_push_back s a data x).list_size = s.list_size + 1 ∧
      (list_push_back s a data x).live = insert a (insert data s.live) := by
  unfold list_push_back
  dsimp only
  by_cases htail : s.tail = NULL <;> simp [htail]

/-- The list after `list_push_front`. -/
theorem push_front_nodes (s : KList α) (a data c : Addr) (x : α) :
    ((list_push_front s a data x).nodes c).next =
        (if c = a then s.head else (s.nodes c).next) ∧
      ((list_push_front s a data x).nodes c).prev =
        (if s.head ≠ NULL ∧ c = s.head then a else if c = a then NULL else (s.nodes c).prev) ∧
      ((list_push_front s a data x).nodes c).data =
        (if c = a then data else (s.nodes c).data) := by
  unfold list_push_front
  dsimp only
  by_cases hhead : s.head = NULL <;> by_cases hc : c = a <;> simp [hhead, hc]

theorem push_front_rest (s : KList α) (a data : Addr) (x : α) :
    (list_push_front s a data x).head = a ∧
      (list_push_front s a data x).tail = (if s.tail = NULL then a else s.tail) ∧
      (list_push_front s a data x).blocks = Function.update s.blocks data x ∧
      (list_push_front s a data x).list_size = s.list_size + 1 ∧
      (list_push_front s a data x).live = insert a (insert data s.live) := by
  unfold list_push_front
  dsimp only
  by_cases hhead : s.head = NULL <;> simp [hhead]

/-- A new element among the others, wherever its node is linked in. -/
theorem Represents.put {s' : KList α} {l' : List (Element α)} (h : Represents s l)
    (hfresh : Fresh s a data)
    (hdata : ∀ c, (s'.nodes c).data = if c = a then data else (s.nodes c).data)
    (hblocks : s'.blocks = Function.update s.blocks data x)
    (hsize : s'.list_size = s.list_size + 1) (hlive : s'.live = insert a (insert data s.live))
    (hperm : l'.Perm ((a, x) :: l))
    (hlinked : DoublyLinked (fun p => (s'.nodes p).next) (fun p => (s'.nodes p).prev) NULL
      s'.head s'.tail (l'.map Prod.fst)) : Represents s' l' := by
  have hother : ∀ e ∈ l, e.1 ≠ a ∧ (s.nodes e.1).data ≠ data := by
    intro e he
    obtain ⟨hnode, hblock⟩ := mem_held (s := s) he
    exact ⟨fun heq => hfresh.node_new (heq ▸ h.live _ hnode),
      fun heq => hfresh.data_new (heq ▸ h.live _ hblock)⟩
  have hold : held s' l = held s l := by
    apply held_congr
    intro e he
    rw [hdata, if_neg (hother e he).1]
  have hnew : held s' ((a, x) :: l) = a :: data :: held s l := by
    rw [held_cons, hold, hdata, if_pos rfl]
  have hheld : (held s' l').Perm (a :: data :: held s l) := hnew ▸ hperm.flatMap_right _
  refine ⟨hlinked, ?_, ?_, ?_, ?_⟩
  · intro e he
    rw [hdata, hblocks]
    rcases List.mem_cons.mp (hperm.mem_iff.mp he) with rfl | he
    · simp
    · rw [if_neg (hother e he).1, Function.update_of_ne (hother e he).2]
      exact h.values e he
  · rw [hsize, h.size, hperm.length_eq]
    simp
  · rw [hheld.nodup_iff, List.nodup_cons, List.nodup_cons, List.mem_cons]
    refine ⟨?_, fun hmem => hfresh.data_new (h.live _ hmem), h.nodup⟩
    rintro (heq | hmem)
    · exact hfresh.ne heq
    · exact hfresh.node_new (h.live _ hmem)
  · intro p hp
    rw [hlive]
    have hp := hheld.mem_iff.mp hp
    simp only [List.mem_cons, Finset.mem_insert] at hp ⊢
    exact hp.imp_right fun hp => hp.imp_right (h.live p)

/-- A new node is none of the list. -/
theorem Represents.node_ne (h : Represents s l) (hfresh : Fresh s a data) :
    ∀ c ∈ l.map Prod.fst, c ≠ a := by
  rintro c hc rfl
  obtain ⟨e, he, rfl⟩ := List.mem_map.mp hc
  exact hfresh.node_new (h.live _ (mem_held he).1)

theorem Represents.tail_ne (h : Represents s l) (hfresh : Fresh s a data) : a ≠ s.tail := by
  intro heq
  have hne : s.tail ≠ NULL := heq ▸ hfresh.node_ne
  have hfirst : s.head ≠ NULL := fun hhead =>
    hne (h.linked.last_eq_null.mpr (h.linked.linkedQueue.first_eq_null.mp hhead))
  exact h.node_ne hfresh s.tail (h.linked.linkedQueue.last_mem hfirst) heq.symm

theorem represents_push_back (h : Represents s l) (hfresh : Fresh s a data) :
    Represents (list_push_back s a data x) (l ++ [(a, x)]) := by
  have hnodes := fun c => push_back_nodes s a data c x
  obtain ⟨hhead, htail, hblocks, hsize, hlive⟩ := push_back_rest s a data x
  have hempty : s.head = NULL ↔ s.tail = NULL := by
    rw [h.linked.linkedQueue.first_eq_null, h.linked.last_eq_null]
  refine h.put hfresh (fun c => (hnodes c).2.2) hblocks hsize hlive (List.perm_append_singleton _ _)
    ?_
  rw [hhead, htail, List.map_append, List.map_singleton]
  simp only [hempty]
  refine h.linked.insert hfresh.node_ne ?_ ?_ ?_ ?_ ?_
  · simp [(hnodes a).1, h.tail_ne hfresh]
  · intro hne
    simp [(hnodes s.tail).1, hne]
  · intro c hc hlast
    simp [(hnodes c).1, hlast, h.node_ne hfresh c hc]
  · simp [(hnodes a).2.1]
  · intro c hc
    simp [(hnodes c).2.1, h.node_ne hfresh c hc]

theorem represents_push_front (h : Represents s l) (hfresh : Fresh s a data) :
    Represents (list_push_front s a data x) ((a, x) :: l) := by
  have hnodes := fun c => push_front_nodes s a data c x
  obtain ⟨hhead, htail, hblocks, hsize, hlive⟩ := push_front_rest s a data x
  have hempty : s.tail = NULL ↔ s.head = NULL := by
    rw [h.linked.linkedQueue.first_eq_null, h.linked.last_eq_null]
  refine h.put hfresh (fun c => (hnodes c).2.2) hblocks hsize hlive (List.Perm.refl _) ?_
  rw [hhead, htail, List.map_cons]
  simp only [hempty]
  -- read from its end, the list gets the node behind its last one
  have hback : DoublyLinked (fun p => ((list_push_front s a data x).nodes p).prev)
      (fun p => ((list_push_front s a data x).nodes p).next) NULL
      (if s.head = NULL then a else s.tail) a ((l.map Prod.fst).reverse ++ [a]) := by
    have hfirst : a ≠ s.head := by
      intro heq
      have hne : l.map Prod.fst ≠ [] := fun hl =>
        hfresh.node_ne (heq.trans (h.linked.linkedQueue.first_eq_null.mpr hl))
      obtain ⟨c, rest, hl⟩ := List.exists_cons_of_ne_nil hne
      have hlinked := h.linked
      rw [hl] at hlinked
      exact h.node_ne hfresh c (by simp [hl]) (hlinked.forward.1.symm.trans heq.symm)
    refine h.linked.symm.insert hfresh.node_ne ?_ ?_ ?_ ?_ ?_
    · simp [(hnodes a).2.1, hfirst]
    · intro hne
      simp [(hnodes s.head).2.1, hne]
    · intro c hc hlast
      simp [(hnodes c).2.1, hlast, h.node_ne hfresh c (List.mem_reverse.mp hc)]
    · simp [(hnodes a).1]
    · intro c hc
      simp [(hnodes c).1, h.node_ne hfresh c (List.mem_reverse.mp hc)]
  simpa using hback.symm

/-! ## Runs -/

theorem represents_new (nodes : Addr → Node) (blocks : Addr → α) (live : Finset Addr) :
    Represents (new_list nodes blocks live) [] :=
  ⟨⟨rfl, rfl⟩, by simp, rfl, List.nodup_nil, by simp [held]⟩

/-- The sequence without one of its nodes. -/
theorem filter_node (h : Represents s (l₁ ++ (a, x) :: l₂)) :
    (l₁ ++ (a, x) :: l₂).filter (fun e => e.1 ≠ a) = l₁ ++ l₂ := by
  have hne : ∀ e ∈ l₁ ++ l₂, e.1 ≠ a := by
    rintro e he rfl
    exact h.apart.1 (mem_held he).1
  rw [List.filter_append, List.filter_cons_of_neg (by simp), ← List.filter_append]
  apply List.filter_eq_self.mpr
  intro e he
  simpa using hne e he

theorem represents_step (h : Represents s l) {op : Op α} (hop : Allowed s l op) :
    Represents (s.step op).1 (seqStep l op) := by
  cases op with
  | list_push_front node data x => exact represents_push_front h hop
  | list_push_back node data x => exact represents_push_back h hop
  | list_delete_head => exact represents_delete_head h
  | list_delete_tail => exact represents_delete_tail h
  | list_delete_node node =>
    obtain ⟨⟨a, x⟩, he, rfl⟩ := List.mem_map.mp hop
    obtain ⟨l₁, l₂, rfl⟩ := List.append_of_mem he
    have hseq : seqStep (l₁ ++ (a, x) :: l₂) (.list_delete_node a) = l₁ ++ l₂ := filter_node h
    rw [hseq]
    exact represents_delete_node h
  | enqueue node data x => exact represents_push_back h hop
  | dequeue =>
    simp only [KList.step, seqStep, dequeue]
    split
    · next hsize =>
      rw [h.size] at hsize
      obtain rfl : l = [] := List.length_eq_zero_iff.mp (by exact_mod_cast hsize)
      exact h
    · exact represents_delete_head h

theorem represents_run (h : Run start ops s l out) (hstart : Represents start []) :
    Represents s l := by
  induction h with
  | nil => exact hstart
  | snoc _ hop ih => exact represents_step ih hop

/-! ## The functions that look at the list -/

theorem list_head_eq (h : Represents s l) : list_head s = (l.map Prod.fst).head?.getD NULL := by
  rw [← h.linked.forward.head_eq]
  unfold list_head
  split
  · next hhead => exact hhead.symm
  · rfl

theorem list_tail_eq_head (s : KList α) : list_tail s = list_head s := rfl

/-- Of two nodes or more, the first one is not the last one. -/
theorem first_ne_last {p q : Addr} {ps : List Addr} (h : (p :: q :: ps).Nodup) :
    p ≠ (p :: q :: ps).getLast?.getD NULL := by
  have hlast : (p :: q :: ps).getLast?.getD NULL ∈ q :: ps := by
    rw [List.getLast?_cons_cons, List.getLast?_eq_some_getLast (List.cons_ne_nil q ps)]
    exact List.getLast_mem _
  intro heq
  rw [← heq] at hlast
  exact (List.nodup_cons.mp h).1 hlast

/-- The head is the last node in a list of up to one element only. -/
theorem list_tail_iff (h : Represents s l) :
    list_tail s = (l.map Prod.fst).getLast?.getD NULL ↔ l.length ≤ 1 := by
  rw [list_tail_eq_head, list_head_eq h]
  match l, h with
  | [], _ => simp
  | [e], _ => simp
  | e :: d :: l, h =>
    have hne := first_ne_last h.linked.forward.nodup
    exact iff_of_false hne (by simp)

theorem forEachLoop_chain (iterator : Nat → Addr → Bool) {fuel k : Nat} {p : Addr}
    {ps : List Addr} (h : Chain (fun p => (s.nodes p).next) NULL p ps) (hfuel : ps.length < fuel) :
    forEachLoop s iterator fuel k p = some (visits iterator k ps) := by
  induction ps generalizing fuel k p with
  | nil =>
    obtain ⟨fuel, rfl⟩ := Nat.exists_eq_succ_of_ne_zero (Nat.ne_zero_of_lt hfuel)
    obtain rfl : p = NULL := h
    simp [forEachLoop, visits]
  | cons a ps ih =>
    obtain ⟨fuel, rfl⟩ := Nat.exists_eq_succ_of_ne_zero (Nat.ne_zero_of_lt hfuel)
    obtain ⟨rfl, hne, hrest⟩ := h
    simp only [List.length_cons] at hfuel
    unfold forEachLoop visits
    rw [if_neg hne, ih hrest (by omega)]
    split <;> rfl

theorem dequeue_first (h : Represents s l) : (dequeue s).2 = l.head?.map Prod.snd := by
  unfold dequeue
  cases l with
  | nil => simp [h.size]
  | cons e l =>
    have hsize : s.list_size ≠ 0 := by
      rw [h.size, List.length_cons]
      omega
    have hhead : list_head s = e.1 := list_head_eq h
    rw [if_neg hsize, hhead]
    exact congrArg some (h.values e List.mem_cons_self)

/-- What has come out and what is still in the queue, in the order in which it went in. -/
theorem queue_order (h : Run start ops s l out) (hstart : Represents start [])
    (hops : ∀ op ∈ ops, IsQueueOp op) : out ++ l.map Prod.snd = ops.filterMap enqueued := by
  induction h with
  | nil => rfl
  | @snoc ops s l out op hrun hop ih =>
    have ih := ih fun op hop => hops op (List.mem_append_left _ hop)
    have hone := hops op (by simp)
    rw [List.filterMap_append, ← ih]
    cases op with
    | enqueue node data x => simp [KList.step, seqStep, enqueued]
    | dequeue =>
      have hfirst : (s.step Op.dequeue).2 = l.head?.map Prod.snd :=
        dequeue_first (represents_run hrun hstart)
      rw [hfirst]
      cases l with
      | nil => simp [seqStep, enqueued]
      | cons e l => simp [seqStep, enqueued]
    | _ => exact hone.elim

/-- Whatever calls are made, the list is its sequence; but `list_tail` returns the last node of
a list of up to one element only. -/
theorem the_list_is_its_sequence (nodes : Addr → Node) (blocks : Addr → α)
    (live : Finset Addr) (ops : List (Op α)) (s : KList α) (l : List (Element α)) (out : List α)
    (h : Run (new_list nodes blocks live) ops s l out) :
    Refines ops s l out ∧ (Right ops s l out ↔ l.length ≤ 1) := by
  have hnew := represents_new nodes blocks live
  have hrep := represents_run h hnew
  have hrefines : Refines ops s l out := by
    refine ⟨hrep, list_head_eq hrep, ?_, dequeue_first hrep, queue_order h hnew⟩
    intro iterator fuel hfuel
    exact forEachLoop_chain iterator hrep.linked.forward (by simpa using hfuel)
  refine ⟨hrefines, ?_⟩
  rw [← list_tail_iff hrep]
  exact ⟨fun hright => hright.tail, fun htail => ⟨hrefines, htail⟩⟩

/-- An empty list in an empty memory. -/
def emptyList : KList Nat := new_list (fun _ => ⟨0, 0, 0⟩) (fun _ => 0) ∅

theorem one_element_is_its_sequence :
    Refines [.enqueue 16 32 7] (emptyList.step (.enqueue 16 32 7)).1 [(16, 7)] [] ∧
      (Right [.enqueue 16 32 7] (emptyList.step (.enqueue 16 32 7)).1 [(16, 7)] [] ↔
        [((16 : Addr), 7)].length ≤ 1) := by
  apply the_list_is_its_sequence (fun _ => ⟨0, 0, 0⟩) (fun _ => 0) ∅
  exact Run.nil.snoc ⟨by decide, by decide, by decide, by decide⟩

/-- Of two elements, `list_tail` returns the first one. -/
theorem list_tail_returns_the_head :
    ∃ s : KList Nat, Run emptyList [.list_push_back 16 32 7, .list_push_back 48 64 8] s
      [(16, 7), (48, 8)] [] ∧ list_tail s = 16 ∧
      ¬ Right [.list_push_back 16 32 7, .list_push_back 48 64 8] s [(16, 7), (48, 8)] [] := by
  refine ⟨_, (Run.nil.snoc ?_).snoc ?_, rfl, ?_⟩
  · exact ⟨by decide, by decide, by decide, by decide⟩
  · exact ⟨by decide, by decide, by decide, by decide⟩
  · intro hright
    have hlast := hright.tail
    revert hlast
    decide

end rpi_wifi.kernel_list
