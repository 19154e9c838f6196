-- The frames that `alloc_frame` finds. The hint moves with each call, the first
-- search goes on behind the end of the bitmap, and the second one takes the
-- number of the first frame that can be handed out for the number of a word. A
-- free frame between them is found by neither.
import RpiWifi.FrameSearch

namespace rpi_wifi.frame_alloc

open runs

variable {s t : FrameManager} {start stop f : Nat}

/-! ## The property and its condition -/

/-- A frame behind the reserved ones is free. -/
def FrameManager.hasFree (s : FrameManager) : Prop :=
  ∃ f, s.reserved ≤ f ∧ f < s.total_frames ∧ s.isFree f = true

/-- `alloc_frame` returns a frame of the memory that is free, and not the null pointer. -/
def FrameManager.supplies (s : FrameManager) : Prop :=
  ∃ f, 0 < f ∧ f < s.total_frames ∧ s.isFree f = true ∧ (alloc_frame s).2 = f * PAGE_SIZE

/-- A frame of the memory in the words from `start` up to `stop` is free, and the search
does not meet frame 0 free, whose address is the null pointer. -/
def FrameManager.hits (s : FrameManager) (start stop : Nat) : Prop :=
  (start = 0 → s.isFree 0 = false) ∧
    ∃ f, 32 * start ≤ f ∧ f < 32 * stop ∧ f < s.total_frames ∧ s.isFree f = true

/-- Frames are left by the count, and a frame in the words from the hint on is free; or no
bit of these words is clear, also behind the bitmap, and a frame in the words of the second
search is free. -/
def FrameManager.inReach (s : FrameManager) : Prop :=
  s.available_frames ≠ 0 ∧
    (s.hits s.next_idx s.total_frames ∨
      (∀ f, 32 * s.next_idx ≤ f → f < 32 * s.total_frames → s.isFree f = false) ∧
        s.hits s.reserved s.beforeNext)

/-! ## One search -/

/-- A word with a clear bit is never skipped. -/
theorem searched_find (s : FrameManager) (start stop : Nat) :
    (s.searched start stop).find? s.isFree =
      (List.range' (32 * start) (32 * (stop - start))).find? s.isFree := by
  unfold FrameManager.searched
  rw [List.find?_filter]
  congr 1
  funext f
  cases hf : s.isFree f with
  | false => simp
  | true => simp [word_ne_full hf]

/-- With no clear bit in its words a search finds nothing. -/
theorem find_free_frame_none
    (h : ∀ f, 32 * start ≤ f → f < 32 * stop → s.isFree f = false) :
    find_free_frame_in_rage s start stop = 0 := by
  have hnone : (s.searched start stop).find? s.isFree = none := by
    rw [searched_find, List.find?_eq_none]
    intro f hf
    rw [List.mem_range'_1] at hf
    rw [h f hf.1 (by omega)]
    decide
  unfold find_free_frame_in_rage
  rw [hnone]
  rfl

/-- A search that comes to a free frame of the memory stops at that one or at one before
it, which is a free frame of the memory too. -/
theorem find_free_frame_some (hmemory : s.total_frames < 2 ^ 20) (h : s.hits start stop) :
    ∃ x, 0 < x ∧ x < s.total_frames ∧ s.isFree x = true ∧
      find_free_frame_in_rage s start stop = x * PAGE_SIZE := by
  obtain ⟨hzero, f, hlow, hhigh, hf, hfree⟩ := h
  obtain ⟨x, hx⟩ : ∃ x, (s.searched start stop).find? s.isFree = some x := by
    rw [searched_find, ← Option.isSome_iff_exists, List.find?_isSome]
    exact ⟨f, List.mem_range'_1.mpr ⟨hlow, by omega⟩, hfree⟩
  have hfind := hx
  rw [searched_find, List.find?_range'_eq_some] at hx
  obtain ⟨hxfree, hxin, hxlow⟩ := hx
  have hxf : x ≤ f := by
    by_contra hlt
    have hno := hxlow f hlow (by omega)
    rw [hfree] at hno
    cases hno
  have hpos : 0 < x := by
    apply Nat.pos_of_ne_zero
    rintro rfl
    rw [List.mem_range'_1] at hxin
    rw [hzero (by omega)] at hxfree
    cases hxfree
  refine ⟨x, hpos, by omega, hxfree, ?_⟩
  unfold find_free_frame_in_rage
  rw [hfind]
  simp only [Option.map_some, Option.getD_some]
  unfold addressOf PAGE_SIZE
  omega

/-! ## The call -/

theorem find_free_frame_of_inReach (hmemory : s.total_frames < 2 ^ 20) (h : s.inReach) :
    ∃ x, 0 < x ∧ x < s.total_frames ∧ s.isFree x = true ∧ find_free_frame s = x * PAGE_SIZE := by
  obtain ⟨havailable, hfirst | ⟨hnone, hsecond⟩⟩ := h
  · obtain ⟨x, hpos, hx, hxfree, hfind⟩ := find_free_frame_some hmemory hfirst
    refine ⟨x, hpos, hx, hxfree, ?_⟩
    have hne : find_free_frame_in_rage s s.next_idx s.total_frames ≠ 0 := by
      rw [hfind]
      unfold PAGE_SIZE
      omega
    unfold find_free_frame
    dsimp only
    rw [if_neg fun hc => hne hc.1]
    exact hfind
  · obtain ⟨x, hpos, hx, hxfree, hfind⟩ := find_free_frame_some hmemory hsecond
    refine ⟨x, hpos, hx, hxfree, ?_⟩
    unfold find_free_frame
    dsimp only
    rw [if_pos ⟨find_free_frame_none hnone, havailable⟩]
    exact hfind

theorem supplies_of_inReach (hmemory : s.total_frames < 2 ^ 20) (h : s.inReach) :
    s.supplies := by
  obtain ⟨x, hpos, hx, hxfree, hfind⟩ := find_free_frame_of_inReach hmemory h
  have hne : find_free_frame s ≠ 0 := by
    rw [hfind]
    unfold PAGE_SIZE
    omega
  refine ⟨x, hpos, hx, hxfree, ?_⟩
  unfold alloc_frame
  rw [if_neg h.1]
  dsimp only
  rw [if_neg hne]
  exact hfind

/-! ## The size of the memory -/

theorem same_alloc_frame (s : FrameManager) : Same s (alloc_frame s).1 := by
  unfold alloc_frame
  split
  · exact ⟨rfl, rfl, rfl, rfl⟩
  · dsimp only
    split <;> exact ⟨rfl, rfl, rfl, rfl⟩

theorem same_alloc_cont (s : FrameManager) (n align : Nat) :
    Same s (alloc_cont_aligned_frames s n align).1 := by
  unfold alloc_cont_aligned_frames
  split
  · exact ⟨rfl, rfl, rfl, rfl⟩
  · dsimp only
    split
    · exact ⟨rfl, rfl, rfl, rfl⟩
    · exact (same_claimFrames s _ n).trans ⟨rfl, rfl, rfl, rfl⟩

theorem same_step {a : Op} (h : step s a = some t) : Same s t := by
  cases a with
  | alloc_frame =>
    cases h
    exact same_alloc_frame s
  | alloc_cont_aligned_frames n align =>
    simp only [step] at h
    split at h <;> cases h
    exact same_alloc_cont s n align
  | dealloc r =>
    simp only [step] at h
    split at h <;> cases h
    exact (same_dealloc_cont_frames s r.ptr r.count).trans ⟨rfl, rfl, rfl, rfl⟩
  | store b v =>
    simp only [step] at h
    split at h <;> cases h
    exact ⟨rfl, rfl, rfl, rfl⟩

theorem total_frames_init (mem : memory.Mem) (total_memory kernel_end : BitVec 32) :
    (init_frame_manager mem total_memory kernel_end).total_frames < 2 ^ 20 := by
  unfold init_frame_manager
  dsimp only
  rw [(same_marks _ _).1.total]
  have := total_memory.isLt
  unfold bzero PAGE_SIZE
  dsimp only
  omega

/-- In every state of every run whose free frames are in reach of the searches,
`alloc_frame` returns one when there is one. -/
theorem a_frame_in_reach_is_supplied (mem : memory.Mem) (total_memory kernel_end : BitVec 32)
    (ops : List Op) (t : FrameManager)
    (h : exec step (init_frame_manager mem total_memory kernel_end) ops = some t)
    (hreach : t.hasFree → t.inReach) : t.hasFree → t.supplies := by
  have hmemory : t.total_frames < 2 ^ 20 := by
    refine exec_keeps (fun s => s.total_frames < 2 ^ 20) ?_
      (total_frames_init mem total_memory kernel_end) h
    intro s a t hs ht
    rw [(same_step ht).total]
    exact hs
  exact fun hfree => supplies_of_inReach hmemory (hreach hfree)

/-- The second frame behind the ones of a small machine is free, and it is returned. -/
theorem the_second_frame_is_supplied :
    ∃ t, exec step (init_frame_manager (fun _ => 0) 0x80000 0x1000) [.alloc_frame] = some t ∧
      t.supplies := by
  have hhint : (alloc_frame (init_frame_manager (fun _ => 0) 0x80000 0x1000)).1.next_idx = 1 := by
    decide +kernel
  have htotal : (alloc_frame (init_frame_manager (fun _ => 0) 0x80000 0x1000)).1.total_frames =
      128 := by
    decide +kernel
  have hreserved : (alloc_frame (init_frame_manager (fun _ => 0) 0x80000 0x1000)).1.reserved =
      2 := by
    decide +kernel
  have hfree : (alloc_frame (init_frame_manager (fun _ => 0) 0x80000 0x1000)).1.isFree 33 = true := by
    decide +kernel
  have hcount : (alloc_frame (init_frame_manager (fun _ => 0) 0x80000 0x1000)).1.available_frames ≠
      0 := by
    decide +kernel
  refine ⟨_, rfl, ?_⟩
  apply a_frame_in_reach_is_supplied (fun _ => 0) 0x80000 0x1000 [.alloc_frame] _ rfl
  · intro _
    refine ⟨hcount, .inl ⟨?_, 33, ?_, ?_, ?_, hfree⟩⟩
    · intro h
      rw [hhint] at h
      cases h
    · rw [hhint]
      decide
    · rw [htotal]
      decide
    · rw [htotal]
      decide
  · exact ⟨33, by rw [hreserved]; decide, by rw [htotal]; decide, hfree⟩

/-- A memory of 32 frames, with a bitmap of one word at 0x1000. The bytes behind it are set. -/
def smallMachine : FrameManager :=
  init_frame_manager (fun a => if a < 0x1004 then 0 else 0xFF) 0x20000 0x1000

/-- Thirty frames are free from the start, and `alloc_frame` returns the null pointer. -/
theorem free_frames_are_not_found :
    ∃ t, exec step smallMachine [] = some t ∧ t.hasFree ∧ t.available_frames = 30 ∧
      (alloc_frame t).2 = 0 ∧ ¬ t.supplies := by
  have hfree : smallMachine.isFree 2 = true := by
    decide +kernel
  have hcount : smallMachine.available_frames = 30 := by
    decide +kernel
  have hnull : (alloc_frame smallMachine).2 = 0 := by
    decide +kernel
  refine ⟨_, rfl, ⟨2, by decide +kernel, by decide +kernel, hfree⟩, hcount, hnull, ?_⟩
  rintro ⟨f, hpos, -, -, hf⟩
  rw [hnull] at hf
  unfold PAGE_SIZE at hf
  omega

end rpi_wifi.frame_alloc
