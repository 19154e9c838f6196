-- The start of the frame allocator. The size of the bitmap is one time counted
-- in words and another time in bytes, so that the frames which are marked, the
-- count of the others and the frames that `dealloc_frame` refuses agree only
-- when no frame is left.
import RpiWifi.FrameBits

namespace rpi_wifi.frame_alloc

variable {s : FrameManager} {mem : memory.Mem} {total_memory kernel_end : BitVec 32}

/-! ## What the start should give -/

/-- The frame has a byte in front of the end of the bitmap, which starts at `kernel_end`. -/
def FrameManager.overlaps (s : FrameManager) (kernel_end frame : Nat) : Prop :=
  frame * PAGE_SIZE < kernel_end + 4 * s.words

/-- The bitmap covers all frames, the frames of the kernel and of the bitmap are the ones
that are marked and that `dealloc_frame` refuses, and the count is the one of the others. -/
structure Consistent (s : FrameManager) (kernel_end : Nat) : Prop where
  covers : s.total_frames ≤ 32 * s.words
  marked : ∀ f < s.total_frames, s.isFree f = false ↔ s.overlaps kernel_end f
  available : s.available_frames = (List.range s.total_frames).countP s.isFree
  refused : ∀ f < s.total_frames,
    dealloc_frame s (f * PAGE_SIZE) = s ↔ s.overlaps kernel_end f

/-! ## Marking frames -/

theorem Placed.mark_as_used (h : Placed s) (idx : Nat) : Placed (mark_as_used s idx) :=
  ⟨h.below, h.nowrap⟩

/-- The frames that are marked are used, and no other bit changes. -/
theorem isFree_marks (h : Placed s) (frames : List Nat) (hin : ∀ f ∈ frames, f < 32 * s.words)
    {g : Nat} (hg : g < 32 * s.words) :
    (frames.foldl mark_as_used s).isFree g = (s.isFree g && decide (g ∉ frames)) := by
  induction frames generalizing s with
  | nil => simp
  | cons f fs ih =>
    have hf := hin f List.mem_cons_self
    have hrest := fun g hg => hin g (List.mem_cons_of_mem f hg)
    rw [List.foldl_cons, ih (h.mark_as_used f) hrest hg, isFree_mark_as_used h hg hf]
    by_cases hgf : g = f
    · simp [hgf]
    · simp [hgf]

/-- The count goes down once for each frame, in 32 bits. -/
theorem available_marks (s : FrameManager) (frames : List Nat)
    (hlt : s.available_frames < 2 ^ 32) (hlen : frames.length < 2 ^ 32) :
    (frames.foldl mark_as_used s).available_frames =
      if frames.length ≤ s.available_frames then s.available_frames - frames.length
      else s.available_frames + 2 ^ 32 - frames.length := by
  induction frames generalizing s with
  | nil => simp
  | cons f fs ih =>
    have hone : (mark_as_used s f).available_frames =
        (s.available_frames + 2 ^ 32 - 1) % 2 ^ 32 := rfl
    rw [List.length_cons] at hlen ⊢
    rw [List.foldl_cons, ih _ (by rw [hone]; omega) (by omega), hone]
    split_ifs <;> omega

theorem countP_range_from (n p : Nat) :
    (List.range n).countP (fun f => decide (p ≤ f)) = n - p := by
  induction n with
  | zero => rw [List.range_zero, List.countP_nil, Nat.zero_sub]
  | succ n ih =>
    rw [List.range_succ, List.countP_append, ih, List.countP_singleton]
    by_cases h : p ≤ n
    · simp only [h, decide_true, if_true]
      omega
    · simp only [h, decide_false, Bool.false_eq_true, if_false]
      omega

/-! ## What the start gives -/

/-- The frames that are counted for a bitmap of so many words: one page for each 4096 of
its words, which have four bytes each. -/
def managerPages (words : Nat) : Nat :=
  words / PAGE_SIZE + if words % PAGE_SIZE ≠ 0 then 1 else 0

/-- `dealloc_frame` does nothing exactly for the frames up to the end of the reserved
ones, and for the one behind it. -/
theorem dealloc_frame_refuses (s : FrameManager) (f : Nat) :
    dealloc_frame s (f * PAGE_SIZE) = s ↔ f ≤ s.reserved := by
  have hdiv : f * PAGE_SIZE / PAGE_SIZE = f := Nat.mul_div_cancel _ (by decide)
  unfold dealloc_frame
  dsimp only
  rw [hdiv]
  constructor
  · intro h
    by_contra hlt
    rw [if_neg hlt] at h
    have hcount : (s.available_frames + 1) % 2 ^ 32 = s.available_frames :=
      congrArg FrameManager.available_frames h
    omega
  · exact fun h => if_pos h

/-- The hint has no part in the bits. -/
theorem isFree_next (s : FrameManager) (n : Nat) :
    FrameManager.isFree { s with next_idx := n } = s.isFree := rfl

/-- The state `s` in which the frames are marked, and what the marks leave. -/
theorem init_spec (mem : memory.Mem) (total_memory kernel_end : BitVec 32) :
    ∃ s : FrameManager, s.available_frames = total_memory.toNat / PAGE_SIZE ∧
      s.total_frames = total_memory.toNat / PAGE_SIZE ∧
      s.frame_bits_array = kernel_end.toNat ∧
      s.reserved = kernel_end.toNat / PAGE_SIZE +
        managerPages (total_memory.toNat / PAGE_SIZE / 32) ∧
      Same s (init_frame_manager mem total_memory kernel_end) ∧
      (init_frame_manager mem total_memory kernel_end).available_frames =
        ((List.range s.reserved).foldl mark_as_used s).available_frames ∧
      (init_frame_manager mem total_memory kernel_end).isFree =
        ((List.range s.reserved).foldl mark_as_used s).isFree := by
  refine ⟨_, rfl, rfl, rfl, rfl, ?_, rfl, isFree_next _ _⟩
  exact Same.trans (same_marks _ _).1 ⟨rfl, rfl, rfl, rfl⟩

theorem managerPages_bounds (words : Nat) :
    words ≤ managerPages words * PAGE_SIZE ∧
      managerPages words * PAGE_SIZE < words + PAGE_SIZE := by
  unfold managerPages PAGE_SIZE
  constructor <;> split <;> omega

/-- The count, which is one of 32 bits. -/
theorem init_available (mem : memory.Mem) (total_memory kernel_end : BitVec 32) :
    let reserved :=
      kernel_end.toNat / PAGE_SIZE + managerPages (total_memory.toNat / PAGE_SIZE / 32)
    (init_frame_manager mem total_memory kernel_end).available_frames =
      if reserved ≤ total_memory.toNat / PAGE_SIZE then total_memory.toNat / PAGE_SIZE - reserved
      else total_memory.toNat / PAGE_SIZE + 2 ^ 32 - reserved := by
  obtain ⟨s, havailable, -, -, hreserved, -, hcount, -⟩ := init_spec mem total_memory kernel_end
  obtain ⟨-, hpages⟩ := managerPages_bounds (total_memory.toNat / PAGE_SIZE / 32)
  have hlt := total_memory.isLt
  have hlt' := kernel_end.isLt
  have hfew : s.available_frames < 2 ^ 32 := by
    rw [havailable]
    exact lt_of_le_of_lt (Nat.div_le_self _ _) hlt
  have hlen : (List.range s.reserved).length < 2 ^ 32 := by
    rw [List.length_range, hreserved]
    unfold PAGE_SIZE at *
    omega
  rw [hcount, available_marks s _ hfew hlen, List.length_range, hreserved, havailable]

/-- The frames that overlap are the ones below some frame. -/
theorem overlaps_below (t : FrameManager) (kernel_end : Nat) :
    ∃ p, ∀ f, t.overlaps kernel_end f ↔ f < p := by
  refine ⟨(kernel_end + 4 * t.words + (PAGE_SIZE - 1)) / PAGE_SIZE, ?_⟩
  intro f
  unfold FrameManager.overlaps PAGE_SIZE
  omega

theorem Consistent.available_eq {t : FrameManager} {kernel_end p : Nat}
    (h : Consistent t kernel_end) (hp : ∀ f, t.overlaps kernel_end f ↔ f < p) :
    t.available_frames = t.total_frames - p := by
  rw [h.available, ← countP_range_from]
  apply List.countP_congr
  intro f hf
  have hmark := h.marked f (List.mem_range.mp hf)
  rw [hp] at hmark
  rw [decide_eq_true_iff, ← not_lt, ← hmark, Bool.not_eq_false]

/-- With all frames reserved the bits, the count and the refusals agree. -/
theorem consistent_of_full (htotal : total_memory.toNat % 0x20000 = 0)
    (hpage : kernel_end.toNat % PAGE_SIZE = 0)
    (hfull : kernel_end.toNat / PAGE_SIZE + managerPages (total_memory.toNat / PAGE_SIZE / 32) =
      total_memory.toNat / PAGE_SIZE) :
    Consistent (init_frame_manager mem total_memory kernel_end) kernel_end.toNat := by
  have hcount := init_available mem total_memory kernel_end
  obtain ⟨s, -, hframes, harray, hreserved, hsame, -, hbits⟩ :=
    init_spec mem total_memory kernel_end
  generalize init_frame_manager mem total_memory kernel_end = t at *
  obtain ⟨hpages, hpages'⟩ := managerPages_bounds (total_memory.toNat / PAGE_SIZE / 32)
  have hlt := total_memory.isLt
  have hwords : s.words = total_memory.toNat / PAGE_SIZE / 32 := by
    unfold FrameManager.words
    rw [hframes]
  have hall : s.reserved = s.total_frames := by
    rw [hreserved, hfull, hframes]
  have hwhole : s.total_frames = 32 * s.words := by
    rw [hwords, hframes]
    unfold PAGE_SIZE
    omega
  have hplaced : Placed s := by
    refine ⟨?_, ?_⟩
    · unfold FrameManager.lowest
      rw [harray, hwords, hall, hframes]
      unfold PAGE_SIZE at *
      omega
    · rw [harray, hwords]
      unfold PAGE_SIZE at *
      omega
  have hused : ∀ f < s.total_frames,
      t.isFree f = false := by
    intro f hf
    rw [hbits, isFree_marks hplaced _ ?_ (by omega)]
    · have hin : f ∈ List.range s.reserved := List.mem_range.mpr (by omega)
      simp [hin]
    · intro g hg
      rw [List.mem_range] at hg
      omega
  have hover : ∀ f < s.total_frames,
      t.overlaps kernel_end.toNat f := by
    intro f hf
    unfold FrameManager.overlaps
    rw [hsame.words]
    -- The frame lies in front of the pages that are counted for the bitmap.
    have hlast : (f + 1) * PAGE_SIZE ≤ kernel_end.toNat + managerPages s.words * PAGE_SIZE := by
      have hend : kernel_end.toNat = kernel_end.toNat / PAGE_SIZE * PAGE_SIZE := by
        rw [Nat.div_mul_cancel (Nat.dvd_of_mod_eq_zero hpage)]
      rw [hend, ← Nat.add_mul, hwords, hfull, ← hframes]
      exact Nat.mul_le_mul_right _ hf
    rw [← hwords] at hpages'
    rw [Nat.add_mul, Nat.one_mul] at hlast
    omega
  refine ⟨?_, ?_, ?_, ?_⟩
  · rw [hsame.total, hsame.words]
    exact hwhole.le
  · rw [hsame.total]
    exact fun f hf => iff_of_true (hused f hf) (hover f hf)
  · have hnone : (List.range s.total_frames).countP
        t.isFree = 0 := by
      rw [List.countP_eq_zero]
      intro f hf
      rw [hused f (List.mem_range.mp hf)]
      decide
    dsimp only at hcount
    rw [hsame.total, hnone, hcount, hfull, if_pos le_rfl, Nat.sub_self]
  · rw [hsame.total]
    intro f hf
    rw [dealloc_frame_refuses, hsame.reserved]
    exact iff_of_true (by omega) (hover f hf)

/-- When they agree, all frames are reserved: the count is the one of all frames but the
reserved ones, and `dealloc_frame` refuses one more. -/
theorem full_of_consistent
    (h : Consistent (init_frame_manager mem total_memory kernel_end) kernel_end.toNat) :
    kernel_end.toNat / PAGE_SIZE + managerPages (total_memory.toNat / PAGE_SIZE / 32) =
      total_memory.toNat / PAGE_SIZE := by
  have hcount := init_available mem total_memory kernel_end
  obtain ⟨s, -, hframes, -, hreserved, hsame, -, -⟩ := init_spec mem total_memory kernel_end
  obtain ⟨p, hp⟩ :=
    overlaps_below (init_frame_manager mem total_memory kernel_end) kernel_end.toNat
  have hcountP := h.available_eq hp
  dsimp only at hcount
  rw [hsame.total, hframes, hcount, ← hreserved] at hcountP
  have hrefuse : ∀ f < total_memory.toNat / PAGE_SIZE, f ≤ s.reserved ↔ f < p := by
    intro f hf
    have := h.refused f (by rw [hsame.total, hframes]; exact hf)
    rwa [dealloc_frame_refuses, hsame.reserved, hp] at this
  obtain ⟨-, hpages⟩ := managerPages_bounds (total_memory.toNat / PAGE_SIZE / 32)
  have hlt := total_memory.isLt
  have hlt' := kernel_end.isLt
  have hbound : s.reserved < 2 ^ 32 := by
    rw [hreserved]
    unfold PAGE_SIZE at *
    omega
  rw [← hreserved]
  rcases lt_trichotomy s.reserved (total_memory.toNat / PAGE_SIZE) with hless | heq | hmore
  · have hedge := (hrefuse s.reserved hless).mp le_rfl
    rw [if_pos hless.le] at hcountP
    omega
  · exact heq
  · rw [if_neg (not_le.mpr hmore)] at hcountP
    omega

/-- The start gives a consistent state exactly when the frames of the kernel and the ones
that are counted for the bitmap are all frames of the memory. -/
theorem the_start_is_consistent_iff (mem : memory.Mem) (total_memory kernel_end : BitVec 32)
    (htotal : total_memory.toNat % 0x20000 = 0) (hpage : kernel_end.toNat % PAGE_SIZE = 0) :
    Consistent (init_frame_manager mem total_memory kernel_end) kernel_end.toNat ↔
      kernel_end.toNat / PAGE_SIZE + managerPages (total_memory.toNat / PAGE_SIZE / 32) =
        total_memory.toNat / PAGE_SIZE :=
  ⟨full_of_consistent, consistent_of_full htotal hpage⟩

/-- A memory of 128 frames, of which the kernel takes all but one. -/
theorem the_start_of_a_full_memory :
    Consistent (init_frame_manager (fun _ => 0xFF) 0x80000 0x7F000) 0x7F000 :=
  (the_start_is_consistent_iff (fun _ => 0xFF) 0x80000 0x7F000 (by decide) (by decide)).mpr
    (by decide)

/-- The bits of a memory of 128 frames in which every bit was set: the kernel has one frame
and the bitmap another, but only the first 32 bits of the bitmap are cleared, and
`dealloc_frame` refuses frame 2. -/
theorem the_start_is_not_always_consistent :
    ¬ Consistent (init_frame_manager (fun _ => 0xFF) 0x80000 0x1000) 0x1000 := by
  have hused : (init_frame_manager (fun _ => 0xFF) 0x80000 0x1000).isFree 40 = false := by
    decide +kernel
  have hin : 40 < (init_frame_manager (fun _ => 0xFF) 0x80000 0x1000).total_frames := by
    decide +kernel
  have hbehind : ¬ (init_frame_manager (fun _ => 0xFF) 0x80000 0x1000).overlaps 0x1000 40 := by
    unfold FrameManager.overlaps
    decide +kernel
  intro h
  exact hbehind ((h.marked 40 hin).mp hused)

end rpi_wifi.frame_alloc
