-- The packet queues of `net_queue.c`: entries that hold a packet each and are
-- linked both ways. The parts of the calls between `lock` and `unlock` are
-- definitions of their own.
import RpiWifi.Chains

namespace rpi_wifi.net_queue

open chains

/-! ## The model -/

abbrev Addr := Nat

def NULL : Addr := 0

abbrev Byte := BitVec 8

/-- The bytes that a pointer points to. -/
abbrev Bytes := Nat → Byte

def FRAME_BUFFER_SIZE : Nat := 1600

structure Entry where
  prev : Addr
  next : Addr
  nLength : Nat
  Buffer : Bytes
  pParam : Addr

abbrev Entries := Addr → Entry

structure Queue where
  head : Addr
  tail : Addr
  deriving DecidableEq

def setPrev (mem : Entries) (p prev : Addr) : Entries :=
  Function.update mem p { mem p with prev }

def setNext (mem : Entries) (p next : Addr) : Entries :=
  Function.update mem p { mem p with next }

/-- `memcpy`: the first `size` bytes. -/
def memcpy (dst src : Bytes) (size : Nat) : Bytes := fun i => if i < size then src i else dst i

/-- `enqueue_nqueue`, from `lock` to `unlock`. -/
def link (mem : Entries) (nqueue : Queue) (pEntry : Addr) : Entries × Queue :=
  if nqueue.tail = NULL then (mem, { head := pEntry, tail := pEntry })
  else
    let mem := setPrev mem pEntry nqueue.tail
    let mem := setNext mem nqueue.tail pEntry
    (mem, { nqueue with tail := pEntry })

/-- `dequeue_nqueue`, from `lock` to `unlock`. The entry that was the head is freed. -/
def unlink (mem : Entries) (nqueue : Queue) (pEntry : Addr) : Entries × Queue :=
  if (mem pEntry).next ≠ NULL then
    let pEntry := (mem pEntry).next
    (setPrev mem pEntry NULL, { nqueue with head := pEntry })
  else (mem, { head := NULL, tail := NULL })

/-- `flush_nqueue`, from `lock` to `unlock`. The entry is freed behind it. -/
def unlinkHead (mem : Entries) (nqueue : Queue) : Entries × Queue :=
  let pEntry := nqueue.head
  let head := (mem pEntry).next
  if head ≠ NULL then (setPrev mem head NULL, { nqueue with head })
  else (mem, { head, tail := NULL })

/-! ## The queue as a list -/

/-- What an entry holds: the bytes, the length and the parameter. -/
structure Packet where
  bytes : List Byte
  length : Nat
  param : Addr
  deriving DecidableEq

/-- The first `n` bytes. -/
def firstBytes (b : Bytes) (n : Nat) : List Byte := (List.range n).map b

def packetAt (mem : Entries) (p : Addr) : Packet where
  bytes := firstBytes (mem p).Buffer (mem p).nLength
  length := (mem p).nLength
  param := (mem p).pParam

/-- From the head on, the entries are `l`; the tail is the last of them, and each one
points back to the one before it. -/
def Queue.Lists (q : Queue) (mem : Entries) (l : List Addr) : Prop :=
  DoublyLinked (fun p => (mem p).next) (fun p => (mem p).prev) NULL q.head q.tail l

variable {mem mem' : Entries} {q : Queue} {l : List Addr} {p c : Addr}

theorem setPrev_of_ne (mem : Entries) (v : Addr) (h : c ≠ p) : setPrev mem p v c = mem c :=
  Function.update_of_ne h _ _

theorem setNext_of_ne (mem : Entries) (v : Addr) (h : c ≠ p) : setNext mem p v c = mem c :=
  Function.update_of_ne h _ _

@[simp] theorem setPrev_next (mem : Entries) (p v c : Addr) :
    (setPrev mem p v c).next = (mem c).next := by
  unfold setPrev
  by_cases hc : c = p
  · simp [hc]
  · simp [hc]

@[simp] theorem setNext_prev (mem : Entries) (p v c : Addr) :
    (setNext mem p v c).prev = (mem c).prev := by
  unfold setNext
  by_cases hc : c = p
  · simp [hc]
  · simp [hc]

@[simp] theorem setPrev_prev_self (mem : Entries) (p v : Addr) : (setPrev mem p v p).prev = v := by
  simp [setPrev]

@[simp] theorem setNext_next_self (mem : Entries) (p v : Addr) : (setNext mem p v p).next = v := by
  simp [setNext]

/-- The links are no part of what an entry holds. -/
@[simp] theorem packetAt_setPrev (mem : Entries) (p v c : Addr) :
    packetAt (setPrev mem p v) c = packetAt mem c := by
  unfold packetAt setPrev
  by_cases hc : c = p
  · simp [hc]
  · simp [hc]

@[simp] theorem packetAt_setNext (mem : Entries) (p v c : Addr) :
    packetAt (setNext mem p v) c = packetAt mem c := by
  unfold packetAt setNext
  by_cases hc : c = p
  · simp [hc]
  · simp [hc]

theorem Queue.Lists.congr (h : q.Lists mem l) (hmem : ∀ c ∈ l, mem' c = mem c) :
    q.Lists mem' l :=
  DoublyLinked.congr h (fun c hc => congrArg Entry.next (hmem c hc))
    fun c hc => congrArg Entry.prev (hmem c hc)

theorem Queue.Lists.head_eq_null (h : q.Lists mem l) : q.head = NULL ↔ l = [] :=
  h.linkedQueue.first_eq_null

theorem lists_empty (mem : Entries) : Queue.Lists ⟨NULL, NULL⟩ mem [] := ⟨rfl, rfl⟩

/-! ## Bytes -/

@[simp] theorem firstBytes_length (b : Bytes) (n : Nat) : (firstBytes b n).length = n := by
  simp [firstBytes]

theorem firstBytes_succ (b : Bytes) (n : Nat) : firstBytes b (n + 1) = firstBytes b n ++ [b n] := by
  simp [firstBytes, List.range_succ]

theorem take_firstBytes (b : Bytes) {i n : Nat} (h : i ≤ n) :
    (firstBytes b n).take i = firstBytes b i := by
  unfold firstBytes
  rw [← List.map_take, List.take_range, Nat.min_eq_left h]

/-- `memcpy` goes on by one byte. -/
theorem firstBytes_update (b : Bytes) (i : Nat) (v : Byte) :
    firstBytes (Function.update b i v) (i + 1) = firstBytes b i ++ [v] := by
  rw [firstBytes_succ, Function.update_self]
  congr 1
  apply List.map_congr_left
  intro j hj
  exact Function.update_of_ne (List.mem_range.mp hj).ne _ _

theorem firstBytes_congr {b b' : Bytes} {n : Nat} (h : ∀ i < n, b' i = b i) :
    firstBytes b' n = firstBytes b n :=
  List.map_congr_left fun i hi => h i (List.mem_range.mp hi)

/-- What was copied is there. -/
theorem firstBytes_memcpy (dst src : Bytes) (n : Nat) :
    firstBytes (memcpy dst src n) n = firstBytes src n :=
  firstBytes_congr fun _ hi => if_pos hi

/-! ## The locked parts -/

/-- A fresh entry, whose links are null, goes to the end. -/
theorem link_lists (h : q.Lists mem l) (hp : p ≠ NULL) (hnew : p ∉ l)
    (hprev : (mem p).prev = NULL) (hnext : (mem p).next = NULL) :
    (link mem q p).2.Lists (link mem q p).1 (l ++ [p]) := by
  have htail : q.tail = NULL ↔ l = [] := h.last_eq_null
  have hmem : q.tail ≠ NULL → q.tail ∈ l := fun hne =>
    h.linkedQueue.last_mem fun hf => hne (htail.mpr (h.head_eq_null.mp hf))
  have hput : ∀ mem' : Entries, (mem' p).next = NULL → (mem' p).prev = q.tail →
      (q.tail ≠ NULL → (mem' q.tail).next = p) →
      (∀ c ∈ l, c ≠ q.tail → (mem' c).next = (mem c).next) →
      (∀ c ∈ l, (mem' c).prev = (mem c).prev) →
      Queue.Lists ⟨if q.tail = NULL then p else q.head, p⟩ mem' (l ++ [p]) :=
    fun mem' h1 h2 h3 h4 h5 => DoublyLinked.insert h hp h1 h3 h4 h2 h5
  unfold link
  by_cases hnull : q.tail = NULL
  · rw [if_pos hnull] at hput ⊢
    apply hput mem hnext (hprev.trans hnull.symm) (fun hne => absurd hnull hne)
    · exact fun c _ _ => rfl
    · exact fun c _ => rfl
  · rw [if_neg hnull] at hput ⊢
    have hne : p ≠ q.tail := fun he => hnew (he ▸ hmem hnull)
    dsimp only
    apply hput
    · rw [setNext_of_ne _ _ hne, setPrev_next]
      exact hnext
    · rw [setNext_prev, setPrev_prev_self]
    · exact fun _ => setNext_next_self _ _ _
    · intro c hc hct
      rw [setNext_of_ne _ _ hct, setPrev_next]
    · intro c hc
      have hcp : c ≠ p := by
        rintro rfl
        exact hnew hc
      rw [setNext_prev, setPrev_of_ne _ _ hcp]

@[simp] theorem packetAt_link (mem : Entries) (q : Queue) (p c : Addr) :
    packetAt (link mem q p).1 c = packetAt mem c := by
  unfold link
  split <;> simp

/-- Entries outside the queue are left alone. -/
theorem link_other (h : q.Lists mem l) (hc : c ∉ l) (hcp : c ≠ p) :
    (link mem q p).1 c = mem c := by
  unfold link
  split
  · rfl
  · next hne =>
    have htail : q.tail ∈ l :=
      h.linkedQueue.last_mem fun hf => hne (h.last_eq_null.mpr (h.head_eq_null.mp hf))
    have hct : c ≠ q.tail := by
      rintro rfl
      exact hc htail
    dsimp only
    rw [setNext_of_ne _ _ hct, setPrev_of_ne _ _ hcp]

/-- The head leaves the queue. -/
theorem unlinkHead_lists (h : q.Lists mem (p :: l)) :
    q.head = p ∧ (unlinkHead mem q).2.Lists (unlinkHead mem q).1 l := by
  obtain ⟨hhead, -, -⟩ := h.linkedQueue.remove
  refine ⟨hhead, ?_⟩
  have hcut : ∀ mem' : Entries, (∀ c, (mem' c).next = (mem c).next) →
      ((mem p).next ≠ NULL → (mem' (mem p).next).prev = NULL) →
      (∀ c ∈ l, c ≠ (mem p).next → (mem' c).prev = (mem c).prev) →
      Queue.Lists ⟨(mem p).next, if (mem p).next = NULL then NULL else q.tail⟩ mem' l := by
    intro mem' h1 h2 h3
    have hcut : DoublyLinked (fun c => (mem c).next) (fun c => (mem' c).prev) NULL
        (mem p).next (if (mem p).next = NULL then NULL else q.tail) l :=
      DoublyLinked.remove h h2 h3
    exact DoublyLinked.congr hcut (fun c _ => h1 c) fun _ _ => rfl
  unfold unlinkHead
  dsimp only
  rw [hhead]
  by_cases hnull : (mem p).next = NULL
  · rw [if_pos hnull, hnull] at hcut
    rw [if_neg (not_not.mpr hnull), hnull]
    exact hcut mem (fun _ => rfl) (fun hne => absurd rfl hne) fun _ _ _ => rfl
  · rw [if_neg hnull] at hcut
    rw [if_pos hnull]
    apply hcut
    · exact fun c => setPrev_next _ _ _ _
    · exact fun _ => setPrev_prev_self _ _ _
    · exact fun c _ hc => congrArg Entry.prev (setPrev_of_ne _ _ hc)

/-- At the head, the locked parts of `dequeue_nqueue` and `flush_nqueue` do the same. -/
theorem unlink_head (mem : Entries) (q : Queue) : unlink mem q q.head = unlinkHead mem q := by
  unfold unlink unlinkHead
  by_cases hnull : (mem q.head).next = NULL
  · simp [hnull]
  · simp [hnull]

@[simp] theorem packetAt_unlinkHead (mem : Entries) (q : Queue) (c : Addr) :
    packetAt (unlinkHead mem q).1 c = packetAt mem c := by
  unfold unlinkHead
  dsimp only
  split <;> simp

theorem unlinkHead_other (h : q.Lists mem (p :: l)) (hc : c ∉ l) :
    (unlinkHead mem q).1 c = mem c := by
  obtain ⟨hhead, -, hrest⟩ := h.linkedQueue.remove
  unfold unlinkHead
  dsimp only
  rw [hhead]
  split
  · next hne =>
    refine setPrev_of_ne _ _ ?_
    rintro rfl
    obtain ⟨l', rfl, -⟩ := hrest.chain.pop hne
    exact hc List.mem_cons_self
  · rfl

end rpi_wifi.net_queue
