-- The Blocks of `etherif.c` and the queue that links them through their own
-- `next` pointers. `qpass` puts a Block behind the last one, `qget` takes the
-- first one, and `padblock` opens room in front of what a Block holds.
import RpiWifi.Chains
import RpiWifi.Packets

namespace rpi_wifi.etherif

open chains ether4330

/-! ## The model -/

/-- An address of the 32-bit machine. -/
abbrev Addr := BitVec 32

def NULL : Addr := 0

/-- A Block: `front` is what stands from `buf` to `rp`, and `bytes` from `rp` to `wp`. -/
structure Block where
  next : Addr
  rp : Nat
  front : Packet
  bytes : Packet
  deriving DecidableEq

structure Queue where
  first : Addr
  last : Addr
  nelem : BitVec 32
  deriving DecidableEq

abbrev Blocks := Addr → Block

/-- The write to `b->next`. -/
def setNext (mem : Blocks) (b next : Addr) : Blocks :=
  Function.update mem b { mem b with next }

/-- The room that `allocb` leaves in front of `rp`. -/
def maxhdrsize : Nat := 64

/-- `padblock`: the Block starts `size` bytes earlier. The result is NULL when there is
no Block, or no room in front of `rp`. -/
def padblock (mem : Blocks) (b : Addr) (size : Nat) : Option Blocks :=
  if size = 0 ∨ b = NULL ∨ (mem b).front.length < size then none
  else
    let kept := (mem b).front.length - size
    some (Function.update mem b { mem b with
      rp := (mem b).rp - size
      front := (mem b).front.take kept
      bytes := (mem b).front.drop kept ++ (mem b).bytes })

/-- How a call of `qget` ends: with a Block, with NULL for an empty queue, or with NULL
in one of its two error branches. -/
inductive Got where
  | block (b : Addr)
  | empty
  | lastDiffers
  | noElements
  deriving DecidableEq

/-- The pointer that `qget` returns. -/
def Got.result : Got → Addr
  | .block b => b
  | _ => NULL

def Got.isError : Got → Bool
  | .lastDiffers | .noElements => true
  | _ => false

def qget (mem : Blocks) (q : Queue) : Queue × Got :=
  if q.first = NULL then (q, .empty)
  else
    let b := q.first
    let next := (mem b).next
    if next = NULL ∧ q.last ≠ b then ({ q with first := next }, .lastDiffers)
    else
      let q := { q with first := next, last := if next = NULL then NULL else q.last }
      -- `nelem` is unsigned
      if q.nelem = 0 then (q, .noElements) else ({ q with nelem := q.nelem - 1 }, .block b)

def qpass (mem : Blocks) (q : Queue) (b : Addr) : Blocks × Queue :=
  let mem := setNext mem b NULL
  if q.first = NULL then (mem, { q with first := b, last := b, nelem := q.nelem + 1 })
  else (setNext mem q.last b, { q with last := b, nelem := q.nelem + 1 })

/-! ## The queue as a list -/

/-- The Blocks in the queue are `l`, from first to last, and `nelem` counts them. -/
structure Queue.Lists (q : Queue) (mem : Blocks) (l : List Addr) : Prop where
  linked : LinkedQueue (fun b => (mem b).next) NULL q.first q.last l
  nelem_eq : q.nelem.toNat = l.length

variable {mem mem' : Blocks} {q : Queue} {l : List Addr} {b c : Addr}

@[simp] theorem setNext_bytes (mem : Blocks) (b next c : Addr) :
    (setNext mem b next c).bytes = (mem c).bytes := by
  unfold setNext
  by_cases hc : c = b
  · rw [hc, Function.update_self]
  · rw [Function.update_of_ne hc]

@[simp] theorem setNext_front (mem : Blocks) (b next c : Addr) :
    (setNext mem b next c).front = (mem c).front := by
  unfold setNext
  by_cases hc : c = b
  · rw [hc, Function.update_self]
  · rw [Function.update_of_ne hc]

theorem setNext_next_self (mem : Blocks) (b next : Addr) : (setNext mem b next b).next = next := by
  unfold setNext
  rw [Function.update_self]

theorem setNext_of_ne (mem : Blocks) {b c : Addr} (next : Addr) (h : c ≠ b) :
    setNext mem b next c = mem c :=
  Function.update_of_ne h _ _

/-- A write to a Block that is not in the queue leaves the queue as it is. -/
theorem Queue.Lists.congr (h : q.Lists mem l) (hmem : ∀ c ∈ l, mem' c = mem c) :
    q.Lists mem' l := by
  refine ⟨⟨h.linked.chain.congr ?_, h.linked.last⟩, h.nelem_eq⟩
  intro c hc
  exact congrArg Block.next (hmem c hc)

/-- The Blocks of a queue, a further one and NULL are different addresses, so the
counter does not wrap. -/
theorem Queue.Lists.length_lt (h : q.Lists mem l) (hb : b ≠ NULL) (hnew : b ∉ l) :
    l.length + 1 < 2 ^ 32 := by
  have hnull : NULL ∉ l := fun hn => h.linked.chain.ne_null hn rfl
  have hnodup : (NULL :: b :: l).Nodup := by
    refine List.nodup_cons.mpr ⟨?_, List.nodup_cons.mpr ⟨hnew, h.linked.chain.nodup⟩⟩
    rintro (_ | ⟨_, hn⟩)
    · exact hb rfl
    · exact hnull hn
  have hcard := hnodup.length_le_card
  rw [← FinEnum.card_eq_fintypeCard, FinEnum.card_bitVec] at hcard
  simp only [List.length_cons] at hcard
  omega

/-- A fresh Block goes to the end of the queue. -/
theorem qpass_lists (h : q.Lists mem l) (hb : b ≠ NULL) (hnew : b ∉ l) :
    (qpass mem q b).2.Lists (qpass mem q b).1 (l ++ [b]) := by
  have hcount : (q.nelem + 1).toNat = (l ++ [b]).length := by
    have hlt := h.length_lt hb hnew
    rw [List.length_append, List.length_singleton, BitVec.toNat_add, h.nelem_eq]
    exact Nat.mod_eq_of_lt hlt
  have hlink : ∀ mem' : Blocks, (mem' b).next = NULL → (q.first ≠ NULL → (mem' q.last).next = b) →
      (∀ c ∈ l, c ≠ q.last → (mem' c).next = (mem c).next) →
      LinkedQueue (fun c => (mem' c).next) NULL (if q.first = NULL then b else q.first) b
        (l ++ [b]) :=
    fun _ hend hlast hnext => h.linked.insert hb hend hlast hnext
  have hold : ∀ c ∈ l, setNext mem b NULL c = mem c := by
    intro c hc
    apply setNext_of_ne mem NULL
    rintro rfl
    exact hnew hc
  unfold qpass
  by_cases hfirst : q.first = NULL
  · rw [if_pos hfirst] at hlink ⊢
    refine ⟨hlink _ (setNext_next_self _ _ _) (fun hne => absurd hfirst hne) ?_, hcount⟩
    intro c hc _
    exact congrArg Block.next (hold c hc)
  · rw [if_neg hfirst] at hlink ⊢
    have hlast : q.last ∈ l := h.linked.last_mem hfirst
    have hne : b ≠ q.last := by
      rintro rfl
      exact hnew hlast
    refine ⟨hlink _ ?_ (fun _ => setNext_next_self _ _ _) ?_, hcount⟩
    · dsimp only
      rw [setNext_of_ne _ _ hne]
      exact setNext_next_self _ _ _
    · intro c hc hc'
      dsimp only
      rw [setNext_of_ne _ _ hc', hold c hc]

/-- `qpass` writes `next` fields only. -/
theorem qpass_bytes (mem : Blocks) (q : Queue) (b c : Addr) :
    ((qpass mem q b).1 c).bytes = (mem c).bytes := by
  unfold qpass
  split <;> simp

theorem qpass_front (mem : Blocks) (q : Queue) (b c : Addr) :
    ((qpass mem q b).1 c).front = (mem c).front := by
  unfold qpass
  split <;> simp

theorem qget_empty (h : q.Lists mem []) : qget mem q = (q, .empty) := by
  unfold qget
  rw [if_pos (h.linked.first_eq_null.mpr rfl)]

/-- The first Block leaves the queue, and no error branch is taken. -/
theorem qget_first (h : q.Lists mem (b :: l)) :
    (qget mem q).2 = .block b ∧ (qget mem q).1.Lists mem l := by
  have hne : q.first ≠ NULL := by
    intro hf
    cases h.linked.first_eq_null.mp hf
  have hcount := h.nelem_eq
  rw [List.length_cons] at hcount
  have hnelem : q.nelem ≠ 0 := by
    intro hz
    rw [hz] at hcount
    cases hcount
  obtain ⟨hfirst, hlast, hrest⟩ := h.linked.remove
  have hok : ¬ ((mem b).next = NULL ∧ q.last ≠ b) := fun hbad => hbad.2 (hlast hbad.1)
  rw [hfirst] at hne
  unfold qget
  simp only [hfirst, hne, hok, hnelem, if_false]
  refine ⟨trivial, hrest, ?_⟩
  have hone : (1 : BitVec 32) ≤ q.nelem := by
    rw [BitVec.le_def, hcount]
    exact Nat.le_add_left 1 _
  rw [BitVec.toNat_sub_of_le hone, hcount]
  exact Nat.add_sub_cancel _ 1

/-- `padblock` puts the last bytes in front of `rp` before the ones behind it. -/
theorem padblock_some {size : Nat} (hsize : 0 < size) (hb : b ≠ NULL)
    (hroom : size ≤ (mem b).front.length) :
    ∃ mem' pad, padblock mem b size = some mem' ∧ pad.length = size ∧
      (mem' b).bytes = pad ++ (mem b).bytes ∧ ∀ c, c ≠ b → mem' c = mem c := by
  have hok : ¬ (size = 0 ∨ b = NULL ∨ (mem b).front.length < size) := by
    rintro (h | h | h)
    · omega
    · exact hb h
    · omega
  unfold padblock
  rw [if_neg hok]
  refine ⟨_, (mem b).front.drop ((mem b).front.length - size), rfl, ?_, ?_, ?_⟩
  · rw [List.length_drop]
    omega
  · rw [Function.update_self]
  · intro c hc
    exact Function.update_of_ne hc _ _

end rpi_wifi.etherif
