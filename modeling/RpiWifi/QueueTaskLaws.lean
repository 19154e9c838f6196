-- The laws of a packet queue between tasks. An entry belongs to one task until it is
-- linked, and the head stays the head until the consumer takes it off, so what the
-- consumer reads outside the lock does not change under it.
import RpiWifi.QueueTasks

namespace rpi_wifi.net_queue

open runs chains

/-! ## What a task has done so far -/

/-- What an entry holds when `enqueue_nqueue` stands at this place. -/
def Filled (e : Entry) (call : Call) : Place → Prop
  | .check | .prev => True
  | .next => e.prev = NULL
  | .length => e.prev = NULL ∧ e.next = NULL
  | .buffer => e.prev = NULL ∧ e.next = NULL ∧ e.nLength = call.nLength
  | .copy src i => e.prev = NULL ∧ e.next = NULL ∧ e.nLength = call.nLength ∧
      call.pBuffer = some src ∧ i ≤ call.nLength ∧ firstBytes e.Buffer i = firstBytes src i
  | .param => e.prev = NULL ∧ e.next = NULL ∧ e.nLength = call.nLength ∧
      firstBytes e.Buffer call.nLength = call.packet.bytes
  | .link => e.prev = NULL ∧ e.next = NULL ∧ e.nLength = call.nLength ∧
      firstBytes e.Buffer call.nLength = call.packet.bytes ∧ e.pParam = call.pParam

/-- What the consumer has read from the head when it stands at this place. -/
def Read (mem : Entries) (l : List Addr) (taken : List Result) : Consumer → Prop
  | .idle | .test _ _ | .flushTest | .flushFree _ => True
  | .head _ _ | .flushLock => l ≠ []
  | .length _ _ p => l.head? = some p
  | .copy pBuffer _ p nResult i => l.head? = some p ∧ nResult = (packetAt mem p).length ∧
      i ≤ nResult ∧ firstBytes pBuffer i = (packetAt mem p).bytes.take i
  | .param pBuffer _ p nResult => l.head? = some p ∧ nResult = (packetAt mem p).length ∧
      firstBytes pBuffer nResult = (packetAt mem p).bytes
  | .remove p r => l.head? = some p ∧ Returns (packetAt mem p) r
  | .returning r => taken.getLast? = some r

variable {mem mem' : Entries} {l l' : List Addr} {taken : List Result} {c : Consumer}

/-- Packets behind the others are nothing to the consumer. -/
theorem Read.grows (h : Read mem l taken c) (hl : l <+: l')
    (hmem : ∀ p ∈ l, packetAt mem' p = packetAt mem p) : Read mem' l' taken c := by
  obtain ⟨l₂, rfl⟩ := hl
  have hhead : ∀ {p}, l.head? = some p →
      (l ++ l₂).head? = some p ∧ packetAt mem' p = packetAt mem p := by
    intro p hp
    refine ⟨?_, hmem p (List.mem_of_mem_head? hp)⟩
    rw [List.head?_append, hp]
    rfl
  cases c with
  | idle | test pBuffer ppParam | flushTest | flushFree p | returning r => exact h
  | head pBuffer ppParam | flushLock => exact List.append_ne_nil_of_left_ne_nil h l₂
  | length pBuffer ppParam p => exact (hhead h).1
  | copy pBuffer ppParam p nResult i =>
    obtain ⟨hp, hrest⟩ := h
    obtain ⟨hp', hpacket⟩ := hhead hp
    exact ⟨hp', hpacket.symm ▸ hrest⟩
  | param pBuffer ppParam p nResult =>
    obtain ⟨hp, hrest⟩ := h
    obtain ⟨hp', hpacket⟩ := hhead hp
    exact ⟨hp', hpacket.symm ▸ hrest⟩
  | remove p r =>
    obtain ⟨hp, hrest⟩ := h
    obtain ⟨hp', hpacket⟩ := hhead hp
    exact ⟨hp', hpacket.symm ▸ hrest⟩

section

variable {W : Type} [DecidableEq W]

/-! ## The queue between two steps -/

/-- The producer `w` has its entry, and has filled it up to its place. -/
structure Has (s : State W) (w : W) (e : Producer) : Prop where
  owner : s.owner e.pEntry = .producer w
  not_null : e.pEntry ≠ NULL
  filled : Filled (s.mem e.pEntry) e.call e.place

/-- The queue lists the entries of the packets that were accepted and have not left. -/
structure Fifo (s : State W) (l : List Addr) (gone : List Packet) : Prop where
  lists : s.nqueue.Lists s.mem l
  order : s.accepted = gone ++ l.map (packetAt s.mem)
  returned : List.Forall₂ Returns gone s.taken
  queued : ∀ p ∈ l, s.owner p = .queue
  has : ∀ w e, s.producers w = some e → Has s w e
  read : Read s.mem l s.taken s.consumer
  freed : ∀ p, s.consumer = .flushFree p → s.owner p = .consumer

omit [DecidableEq W] in
theorem fifo_start (mem : Entries) : Fifo (start W mem) [] [] where
  lists := lists_empty mem
  order := rfl
  returned := .nil
  queued := by simp
  has := by
    intro w e he
    cases he
  read := trivial
  freed := by
    intro p hp
    cases hp

variable {s t : State W} {gone : List Packet} {w : W} {p : Addr}

omit [DecidableEq W] in
/-- What somebody else has is not in the queue. -/
theorem Fifo.not_queued (h : Fifo s l gone) (hp : s.owner p ≠ .queue) : p ∉ l :=
  fun hl => hp (h.queued p hl)

/-- A step that touches one entry, which is not in the queue before and after it. -/
structure Outside (s t : State W) (p : Addr) : Prop where
  nqueue : t.nqueue = s.nqueue
  accepted : t.accepted = s.accepted
  taken : t.taken = s.taken
  consumer : t.consumer = s.consumer
  mem : ∀ c, c ≠ p → t.mem c = s.mem c
  owner : ∀ c, c ≠ p → t.owner c = s.owner c

omit [DecidableEq W] in
/-- The producers that have another entry are where they were. -/
theorem Fifo.outside (h : Fifo s l gone) (ht : Outside s t p) (hp : s.owner p ≠ .queue)
    (hflush : s.owner p ≠ .consumer)
    (hw : ∀ v e, t.producers v = some e →
      s.producers v = some e ∧ s.owner p ≠ .producer v ∨ Has t v e) : Fifo t l gone := by
  have hne : ∀ c ∈ l, c ≠ p := by
    rintro c hc rfl
    exact h.not_queued hp hc
  have hpackets : ∀ c ∈ l, packetAt t.mem c = packetAt s.mem c := by
    intro c hc
    unfold packetAt
    rw [ht.mem c (hne c hc)]
  refine ⟨?_, ?_, ?_, ?_, ?_, ?_, ?_⟩
  · rw [ht.nqueue]
    exact h.lists.congr fun c hc => ht.mem c (hne c hc)
  · rw [ht.accepted, h.order, List.map_congr_left hpackets]
  · rw [ht.taken]
    exact h.returned
  · intro c hc
    rw [ht.owner c (hne c hc)]
    exact h.queued c hc
  · intro v e he
    rcases hw v e he with ⟨hs, hv⟩ | hhas
    · obtain ⟨howner, hnull, hfilled⟩ := h.has v e hs
      have hep : e.pEntry ≠ p := by
        intro heq
        exact hv (heq ▸ howner)
      refine ⟨?_, hnull, ?_⟩
      · rw [ht.owner _ hep]
        exact howner
      · rw [ht.mem _ hep]
        exact hfilled
    · exact hhas
  · rw [ht.taken, ht.consumer]
    exact h.read.grows (List.prefix_refl l) hpackets
  · intro c hc
    rw [ht.consumer] at hc
    have howner := h.freed c hc
    have hcp : c ≠ p := by
      rintro rfl
      exact hflush howner
    rw [ht.owner c hcp]
    exact howner

/-! ## The producers -/

variable {call : Call} {place place' : Place} {e : Entry}

/-- One producer goes on with the entry `p`, which no other producer has. -/
theorem has_goto {q : Option Producer} (howner : ∀ v, v ≠ w → s.owner p ≠ .producer v)
    (ht : t.producers = Function.update s.producers w q) (hw : ∀ e, q = some e → Has t w e) :
    ∀ v e, t.producers v = some e →
      s.producers v = some e ∧ s.owner p ≠ .producer v ∨ Has t v e := by
  intro v e he
  rw [ht] at he
  by_cases hv : v = w
  · subst hv
    rw [Function.update_self] at he
    exact .inr (hw e he)
  · rw [Function.update_of_ne hv] at he
    exact .inl ⟨he, howner v hv⟩

omit [DecidableEq W] in
/-- An entry of one producer is the entry of no other. -/
theorem owner_ne (h : s.owner p = .producer w) : ∀ v, v ≠ w → s.owner p ≠ .producer v := by
  intro v hv heq
  exact hv (Owner.producer.inj (h.symm.trans heq)).symm

/-- A producer works on its own entry. -/
theorem Fifo.work (h : Fifo s l gone) (hw : s.producers w = some ⟨call, p, place⟩)
    (he : Filled e call place') : Fifo ((s.write p e).goto w (some ⟨call, p, place'⟩)) l gone := by
  obtain ⟨howner, hnull, -⟩ := h.has w _ hw
  have ht : Outside s ((s.write p e).goto w (some ⟨call, p, place'⟩)) p :=
    ⟨rfl, rfl, rfl, rfl, fun c hc => Function.update_of_ne hc _ _, fun _ _ => rfl⟩
  refine h.outside ht (by simp [howner]) (by simp [howner]) ?_
  apply has_goto (owner_ne howner) rfl
  rintro _ ⟨⟩
  exact ⟨howner, hnull, by simpa [State.write, State.goto] using he⟩

omit [DecidableEq W] in
theorem write_self (s : State W) (p : Addr) : s.write p (s.mem p) = s := by
  simp [State.write]

/-- A producer goes on without a write. -/
theorem Fifo.move (h : Fifo s l gone) (hw : s.producers w = some ⟨call, p, place⟩)
    (he : Filled (s.mem p) call place') : Fifo (s.goto w (some ⟨call, p, place'⟩)) l gone := by
  have hwork := h.work hw he
  rwa [write_self] at hwork

/-- A rejected call leaves its entry behind. -/
theorem Fifo.reject (h : Fifo s l gone) (hw : s.producers w = some ⟨call, p, place⟩) :
    Fifo ((s.give p .lost).goto w none) l gone := by
  obtain ⟨howner, -, -⟩ := h.has w _ hw
  have ht : Outside s ((s.give p .lost).goto w none) p :=
    ⟨rfl, rfl, rfl, rfl, fun _ _ => rfl, fun c hc => Function.update_of_ne hc _ _⟩
  refine h.outside ht (by simp [howner]) (by simp [howner]) ?_
  exact has_goto (owner_ne howner) rfl nofun

/-- A call begins with an entry that nobody has. -/
theorem Fifo.allocate (h : Fifo s l gone) (hp : p ≠ NULL) (hfree : s.owner p = .heap) :
    Fifo (((s.write p e).give p (.producer w)).goto w (some ⟨call, p, .check⟩)) l gone := by
  have ht : Outside s (((s.write p e).give p (.producer w)).goto w (some ⟨call, p, .check⟩)) p :=
    ⟨rfl, rfl, rfl, rfl, fun c hc => Function.update_of_ne hc _ _,
      fun c hc => Function.update_of_ne hc _ _⟩
  refine h.outside ht (by simp [hfree]) (by simp [hfree]) ?_
  apply has_goto (fun v _ => by simp [hfree]) rfl
  rintro _ ⟨⟩
  exact ⟨by simp [State.give, State.goto], hp, trivial⟩

theorem packetAt_of_filled (h : Filled (mem p) call .link) : packetAt mem p = call.packet := by
  obtain ⟨-, -, hlength, hbytes, hparam⟩ := h
  unfold packetAt
  rw [hlength, hbytes, hparam]
  rfl

/-- The entry of a call goes to the end of the queue. -/
theorem Fifo.link (h : Fifo s l gone) (hw : s.producers w = some ⟨call, p, .link⟩) :
    Fifo (s.link w call p) (l ++ [p]) gone := by
  obtain ⟨howner, hnull, hfilled⟩ := h.has w _ hw
  have hnew : p ∉ l := h.not_queued (by simp [howner])
  have hpackets : ∀ c, packetAt (s.link w call p).mem c = packetAt s.mem c :=
    fun c => packetAt_link s.mem s.nqueue p c
  have hself : ∀ c, c ≠ p → (s.link w call p).owner c = s.owner c :=
    fun c hc => Function.update_of_ne hc _ _
  refine ⟨?_, ?_, ?_, ?_, ?_, ?_, ?_⟩
  · exact link_lists h.lists hnull hnew hfilled.1 hfilled.2.1
  · have hmap : (l ++ [p]).map (packetAt (s.link w call p).mem)
        = l.map (packetAt s.mem) ++ [call.packet] := by
      rw [List.map_congr_left fun c _ => hpackets c, List.map_append]
      simp [packetAt_of_filled hfilled]
    rw [hmap, ← List.append_assoc, ← h.order]
    rfl
  · exact h.returned
  · intro c hc
    by_cases hcp : c = p
    · simp [State.link, State.give, State.goto, hcp]
    · rw [hself c hcp]
      exact h.queued c (by simpa [hcp] using hc)
  · intro v e he
    have hv : v ≠ w := by
      rintro rfl
      simp [State.link, State.goto] at he
    have he' : s.producers v = some e := by simpa [State.link, State.goto, State.give, hv] using he
    obtain ⟨howner', hnull', hfilled'⟩ := h.has v e he'
    have hne : e.pEntry ≠ p := by
      intro heq
      rw [heq] at howner'
      exact owner_ne howner v hv howner'
    have hmem : (s.link w call p).mem e.pEntry = s.mem e.pEntry :=
      link_other h.lists (h.not_queued (by simp [howner'])) hne
    refine ⟨(hself _ hne).trans howner', hnull', ?_⟩
    rw [hmem]
    exact hfilled'
  · exact h.read.grows (List.prefix_append l [p]) fun c _ => hpackets c
  · intro c hc
    have howner' := h.freed c hc
    have hcp : c ≠ p := by
      rintro rfl
      rw [howner] at howner'
      cases howner'
    rw [hself c hcp]
    exact howner'

theorem fifo_runProducer (h : Fifo s l gone) {q : Producer} (hw : s.producers w = some q) :
    ∃ l', Fifo (runProducer s w q) l' gone := by
  obtain ⟨call, p, place⟩ := q
  have hfilled : Filled (s.mem p) call place := (h.has w _ hw).filled
  cases place with
  | check =>
    simp only [runProducer]
    split
    · exact ⟨l, h.reject hw⟩
    · exact ⟨l, h.move hw trivial⟩
  | prev => exact ⟨l, h.work hw rfl⟩
  | next => exact ⟨l, h.work hw ⟨hfilled, rfl⟩⟩
  | length => exact ⟨l, h.work hw ⟨hfilled.1, hfilled.2, rfl⟩⟩
  | buffer =>
    obtain ⟨hprev, hnext, hlength⟩ := hfilled
    simp only [runProducer]
    split
    · exact ⟨l, h.reject hw⟩
    · next src hsrc =>
      exact ⟨l, h.move hw ⟨hprev, hnext, hlength, hsrc, Nat.zero_le _, rfl⟩⟩
  | copy src i =>
    obtain ⟨hprev, hnext, hlength, hsrc, hi, hbytes⟩ := hfilled
    simp only [runProducer]
    split
    · next hlt =>
      refine ⟨l, h.work hw ⟨hprev, hnext, hlength, hsrc, hlt, ?_⟩⟩
      rw [firstBytes_update, hbytes, ← firstBytes_succ]
    · next hlt =>
      obtain rfl : i = call.nLength := by omega
      refine ⟨l, h.move hw ⟨hprev, hnext, hlength, ?_⟩⟩
      rw [hbytes]
      simp [Call.packet, hsrc]
  | param =>
    obtain ⟨hprev, hnext, hlength, hbytes⟩ := hfilled
    exact ⟨l, h.work hw ⟨hprev, hnext, hlength, hbytes, rfl⟩⟩
  | link => exact ⟨l ++ [p], h.link hw⟩

/-! ## The consumer -/

variable {c' : Consumer}

omit [DecidableEq W] in
/-- The consumer goes on without a write. -/
theorem Fifo.reads (h : Fifo s l gone) (hc : Read s.mem l s.taken c')
    (hfree : ∀ p, c' ≠ .flushFree p) : Fifo { s with consumer := c' } l gone where
  lists := h.lists
  order := h.order
  returned := h.returned
  queued := h.queued
  has := fun v e he => ⟨(h.has v e he).owner, (h.has v e he).not_null, (h.has v e he).filled⟩
  read := hc
  freed := fun p hp => absurd hp (hfree p)

theorem returns_flushed (k : Packet) : Returns k k.flushed :=
  ⟨rfl, rfl, fun _ ha => (Option.some.inj ha).symm⟩

theorem take_packetAt_succ {i : Nat} (h : i < (packetAt mem p).length) :
    (packetAt mem p).bytes.take (i + 1)
      = (packetAt mem p).bytes.take i ++ [(mem p).Buffer i] := by
  have htake : ∀ j, j ≤ (packetAt mem p).length →
      (packetAt mem p).bytes.take j = firstBytes (mem p).Buffer j := fun _ => take_firstBytes _
  rw [htake i (Nat.le_of_lt h), htake (i + 1) h, firstBytes_succ]

omit [DecidableEq W] in
/-- The head is not null exactly when there is something in the queue. -/
theorem Fifo.ne_nil (h : Fifo s l gone) (hhead : s.nqueue.head ≠ NULL) : l ≠ [] :=
  fun hl => hhead (h.lists.head_eq_null.mpr hl)

omit [DecidableEq W] in
/-- The head leaves the queue. -/
theorem Fifo.take {r : Result} {o : Owner W} (h : Fifo s (p :: l) gone)
    (hr : Returns (packetAt s.mem p) r) (ho : o ≠ .queue)
    (hread : Read (unlinkHead s.mem s.nqueue).1 l (s.taken ++ [r]) c')
    (hfree : ∀ q, c' = .flushFree q → q = p ∧ o = .consumer) :
    Fifo ({ s with mem := (unlinkHead s.mem s.nqueue).1, nqueue := (unlinkHead s.mem s.nqueue).2,
                   taken := s.taken ++ [r], consumer := c' }.give p o) l
      (gone ++ [packetAt s.mem p]) := by
  obtain ⟨hhead, hlists⟩ := unlinkHead_lists h.lists
  have hp : p ∉ l := (List.nodup_cons.mp h.lists.forward.nodup).1
  have howner : s.owner p = .queue := h.queued p List.mem_cons_self
  have hself : ∀ c, c ≠ p → Function.update s.owner p o c = s.owner c :=
    fun c hc => Function.update_of_ne hc _ _
  refine ⟨hlists, ?_, ?_, ?_, ?_, hread, ?_⟩
  · have hmap : l.map (packetAt (unlinkHead s.mem s.nqueue).1) = l.map (packetAt s.mem) :=
      List.map_congr_left fun c _ => packetAt_unlinkHead s.mem s.nqueue c
    change s.accepted = _ ++ l.map (packetAt (unlinkHead s.mem s.nqueue).1)
    rw [hmap, List.append_assoc, h.order]
    rfl
  · exact List.rel_append h.returned (.cons hr .nil)
  · intro c hc
    have hcp : c ≠ p := by
      rintro rfl
      exact hp hc
    exact (hself c hcp).trans (h.queued c (List.mem_cons_of_mem _ hc))
  · intro v e he
    obtain ⟨howner', hnull, hfilled⟩ := h.has v e he
    have hout : e.pEntry ∉ p :: l := h.not_queued (by simp [howner'])
    have hne : e.pEntry ≠ p := List.ne_of_not_mem_cons hout
    have hl : e.pEntry ∉ l := List.not_mem_of_not_mem_cons hout
    refine ⟨(hself _ hne).trans howner', hnull, ?_⟩
    change Filled ((unlinkHead s.mem s.nqueue).1 e.pEntry) e.call e.place
    rw [unlinkHead_other h.lists hl]
    exact hfilled
  · intro q hq
    obtain ⟨rfl, rfl⟩ := hfree q hq
    exact Function.update_self _ _ _

omit [DecidableEq W] in
/-- The consumer gives an entry back that the queue no longer has. -/
theorem Fifo.free (h : Fifo s l gone) (hc : s.consumer = .flushFree p) :
    Fifo ({ s with consumer := .flushTest }.give p .heap) l gone := by
  have howner := h.freed p hc
  have hself : ∀ c, s.owner c ≠ .consumer → Function.update s.owner p .heap c = s.owner c := by
    intro c hne
    apply Function.update_of_ne
    rintro rfl
    exact hne howner
  refine ⟨h.lists, h.order, h.returned, ?_, ?_, trivial, nofun⟩
  · intro c hcl
    have hqueue := h.queued c hcl
    exact (hself c (by simp [hqueue])).trans hqueue
  · intro v e he
    obtain ⟨howner', hnull, hfilled⟩ := h.has v e he
    exact ⟨(hself _ (by simp [howner'])).trans howner', hnull, hfilled⟩

omit [DecidableEq W] in
theorem fifo_runConsumer (h : Fifo s l gone) (hs : runConsumer s = some t) :
    ∃ l' gone', Fifo t l' gone' := by
  have hread := h.read
  unfold runConsumer at hs
  cases hc : s.consumer with
  | idle => simp [hc] at hs
  | test pBuffer ppParam =>
    simp only [hc, Option.some.injEq] at hs
    subst hs
    refine ⟨l, gone, h.reads ?_ ?_⟩
    · split
      · trivial
      · exact h.ne_nil ‹_›
    · split <;> exact nofun
  | head pBuffer ppParam =>
    simp only [hc, Option.some.injEq] at hs
    subst hs
    rw [hc] at hread
    obtain ⟨p, l', rfl⟩ := List.exists_cons_of_ne_nil hread
    refine ⟨_, gone, h.reads ?_ nofun⟩
    exact congrArg some h.lists.forward.1.symm
  | length pBuffer ppParam p =>
    simp only [hc, Option.some.injEq] at hs
    subst hs
    rw [hc] at hread
    exact ⟨l, gone, h.reads ⟨hread, rfl, Nat.zero_le _, rfl⟩ nofun⟩
  | copy pBuffer ppParam p nResult i =>
    simp only [hc] at hs
    rw [hc] at hread
    obtain ⟨hhead, rfl, hi, hbytes⟩ := hread
    have hlength : (packetAt s.mem p).bytes.length = (packetAt s.mem p).length :=
      firstBytes_length _ _
    split at hs
    · next hlt =>
      cases hs
      refine ⟨l, gone, h.reads ⟨hhead, rfl, hlt, ?_⟩ nofun⟩
      rw [firstBytes_update, hbytes]
      exact (take_packetAt_succ hlt).symm
    · next hlt =>
      cases hs
      refine ⟨l, gone, h.reads ⟨hhead, rfl, ?_⟩ nofun⟩
      obtain rfl : i = (packetAt s.mem p).length := by omega
      rw [hbytes, ← hlength, List.take_length]
  | param pBuffer ppParam p nResult =>
    simp only [hc, Option.some.injEq] at hs
    subst hs
    rw [hc] at hread
    obtain ⟨hhead, rfl, hbytes⟩ := hread
    refine ⟨l, gone, h.reads ⟨hhead, hbytes, rfl, ?_⟩ nofun⟩
    intro a ha
    split at ha
    · exact (Option.some.inj ha).symm
    · cases ha
  | remove p r =>
    simp only [hc, Option.some.injEq] at hs
    subst hs
    rw [hc] at hread
    obtain ⟨hhead, hr⟩ := hread
    obtain ⟨l', rfl⟩ := List.head?_eq_some_iff.mp hhead
    obtain rfl : s.nqueue.head = p := h.lists.forward.1
    refine ⟨l', gone ++ [packetAt s.mem s.nqueue.head], ?_⟩
    unfold State.remove
    rw [unlink_head]
    exact h.take hr nofun (by simp [Read]) nofun
  | returning r =>
    simp only [hc, Option.some.injEq] at hs
    subst hs
    exact ⟨l, gone, h.reads trivial nofun⟩
  | flushTest =>
    simp only [hc, Option.some.injEq] at hs
    subst hs
    refine ⟨l, gone, h.reads ?_ ?_⟩
    · split
      · trivial
      · exact h.ne_nil ‹_›
    · split <;> exact nofun
  | flushLock =>
    simp only [hc, Option.some.injEq] at hs
    subst hs
    rw [hc] at hread
    obtain ⟨p, l', rfl⟩ := List.exists_cons_of_ne_nil hread
    obtain rfl : s.nqueue.head = p := h.lists.forward.1
    refine ⟨l', gone ++ [packetAt s.mem s.nqueue.head], ?_⟩
    have hr := returns_flushed (packetAt s.mem s.nqueue.head)
    have hfree : ∀ q, Consumer.flushFree s.nqueue.head = .flushFree q →
        q = s.nqueue.head ∧ Owner.consumer = (.consumer : Owner W) :=
      fun q hq => ⟨(Consumer.flushFree.inj hq).symm, rfl⟩
    exact h.take hr nofun trivial hfree
  | flushFree p =>
    simp only [hc, Option.some.injEq] at hs
    subst hs
    exact ⟨l, gone, h.free hc⟩

/-! ## Every run -/

omit [DecidableEq W] in
/-- Somebody else writes what the heap has. -/
theorem Fifo.others (h : Fifo s l gone) (hfree : s.owner p = .heap) : Fifo (s.write p e) l gone := by
  have ht : Outside s (s.write p e) p :=
    ⟨rfl, rfl, rfl, rfl, fun c hc => Function.update_of_ne hc _ _, fun _ _ => rfl⟩
  apply h.outside ht (by simp [hfree]) (by simp [hfree])
  intro v e he
  exact .inl ⟨he, by simp [hfree]⟩

theorem fifo_step {a : Act W} (h : Fifo s l gone) (hs : step s a = some t) :
    ∃ l' gone', Fifo t l' gone' := by
  cases a with
  | enqueue_nqueue w call p content =>
    simp only [step] at hs
    split at hs
    · next hok =>
      cases hs
      exact ⟨l, gone, h.allocate hok.2.1 hok.2.2⟩
    · cases hs
  | dequeue_nqueue pBuffer ppParam =>
    simp only [step] at hs
    split at hs
    · cases hs
      exact ⟨l, gone, h.reads trivial nofun⟩
    · cases hs
  | flush_nqueue =>
    simp only [step] at hs
    split at hs
    · cases hs
      exact ⟨l, gone, h.reads trivial nofun⟩
    · cases hs
  | producer w =>
    obtain ⟨q, hq, rfl⟩ := Option.map_eq_some_iff.mp hs
    obtain ⟨l', h'⟩ := fifo_runProducer h hq
    exact ⟨l', gone, h'⟩
  | consumer => exact fifo_runConsumer h hs
  | others p content =>
    simp only [step] at hs
    split at hs
    · cases hs
      exact ⟨l, gone, h.others ‹_›⟩
    · cases hs

theorem fifo_exec {mem : Entries} {acts : List (Act W)}
    (h : exec step (start W mem) acts = some s) : ∃ l gone, Fifo s l gone := by
  refine exec_keeps (fun s => ∃ l gone, Fifo s l gone) ?_ ⟨[], [], fifo_start mem⟩ h
  rintro s a t ⟨l, gone, hf⟩ hs
  exact fifo_step hf hs

/-- What was taken out is, in order, what was accepted first, and the rest is the list
from the head on, linked both ways. What a call of `dequeue_nqueue` returns is what it
is recorded with. -/
theorem the_queue_is_first_in_first_out (mem : Entries) (acts : List (Act W)) (s : State W)
    (h : exec step (start W mem) acts = some s) :
    (∃ l gone, s.accepted = gone ++ l.map (packetAt s.mem) ∧
      List.Forall₂ Returns gone s.taken ∧ s.nqueue.Lists s.mem l) ∧
      ∀ r, s.consumer = .returning r → s.taken.getLast? = some r := by
  obtain ⟨l, gone, hf⟩ := fifo_exec h
  refine ⟨⟨l, gone, hf.order, hf.returned, hf.lists⟩, ?_⟩
  intro r hr
  have hread := hf.read
  rwa [hr] at hread

end

/-- Two calls that cross: the first producer is still copying when the second one links
its entry, and links its own while the consumer is copying. -/
def crossing : List (Act Bool) :=
  let first : Call := ⟨some fun _ => 1#8, 2, 5⟩
  let second : Call := ⟨some fun _ => 2#8, 1, 6⟩
  List.flatten [
    [.enqueue_nqueue true first 64 ⟨3, 3, 3, fun _ => 3#8, 3⟩], List.replicate 6 (.producer true),
    [.enqueue_nqueue false second 32 ⟨4, 4, 4, fun _ => 4#8, 4⟩],
    List.replicate 9 (.producer false), [.dequeue_nqueue (fun _ => 0#8) true],
    List.replicate 3 .consumer, List.replicate 4 (.producer true), List.replicate 4 .consumer]

theorem the_second_producer_is_first :
    ∃ s, exec step (start Bool fun _ => ⟨7, 7, 7, fun _ => 7#8, 7⟩) crossing = some s ∧
      s.accepted = [⟨[2#8], 1, 6⟩, ⟨[1#8, 1#8], 2, 5⟩] ∧ s.taken = [⟨[2#8], 1, some 6⟩] ∧
      (∃ l gone, s.accepted = gone ++ l.map (packetAt s.mem) ∧
        List.Forall₂ Returns gone s.taken ∧ s.nqueue.Lists s.mem l) ∧
      ∀ r, s.consumer = .returning r → s.taken.getLast? = some r := by
  have hrun : (exec step (start Bool fun _ => ⟨7, 7, 7, fun _ => 7#8, 7⟩) crossing).map
      (fun s => (s.accepted, s.taken))
        = some ([⟨[2#8], 1, 6⟩, ⟨[1#8, 1#8], 2, 5⟩], [⟨[2#8], 1, some 6⟩]) := by decide +kernel
  obtain ⟨s, hs, hfields⟩ := Option.map_eq_some_iff.mp hrun
  have hrest := the_queue_is_first_in_first_out _ _ s hs
  exact ⟨s, hs, congrArg Prod.fst hfields, congrArg Prod.snd hfields, hrest⟩

end rpi_wifi.net_queue
