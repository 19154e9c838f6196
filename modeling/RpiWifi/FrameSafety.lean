-- The laws of the frame allocator: a range that is handed out lies behind the
-- reserved frames and inside the memory, is aligned, and meets no range that is
-- still in use. They hold in the runs whose searches are sound, when the bitmap
-- lies below the frames that are handed out.
import RpiWifi.FrameSearch

namespace rpi_wifi.frame_alloc

open runs run_search

variable {s t : FrameManager}

/-! ## The condition -/

/-- The search that a request makes is sound: from the hint on, and in the words
before it when there is no run behind it. -/
def AllocSound (s : FrameManager) (n align : Nat) : Prop :=
  SearchSound s s.next_idx s.total_frames n align ∧
    ((∀ g, ¬ RealRun s s.next_idx s.total_frames n align g) →
      SearchSound s s.reserved s.beforeNext n align)

/-- A step that searches makes a sound search. -/
def SearchesSoundly (s : FrameManager) : Op → Prop
  | .alloc_frame => s.available_frames ≠ 0 → AllocSound s 1 PAGE_SIZE
  | .alloc_cont_aligned_frames n align =>
    0 < n → n ≤ s.available_frames → AllocSound s n align
  | _ => True

/-! ## The invariant -/

/-- Two ranges share no frame. -/
def Range.Apart (r q : Range) : Prop := r.frame + r.count ≤ q.frame ∨ q.frame + q.count ≤ r.frame

/-- The ranges in use lie in the memory behind the reserved frames, are aligned
as they were asked for, and share no frame. -/
structure LiveOk (s : FrameManager) : Prop where
  within : ∀ r ∈ s.live, s.reserved ≤ r.frame ∧ r.frame + r.count ≤ s.total_frames
  aligned : ∀ r ∈ s.live, r.ptr % r.align = 0
  apart : s.live.Pairwise Range.Apart

/-- The bits of the frames in use are set, and the hint is behind the reserved
frames, where the ranges in use are too. -/
structure FramesOk (s : FrameManager) : Prop where
  memory : s.total_frames < 2 ^ 20
  below : s.frame_bits_array + 4 * s.words ≤ PAGE_SIZE * s.lowest
  hint : s.lowest ≤ 32 * s.next_idx
  fits : ∀ r ∈ s.live, 0 < r.count ∧ Fits s r.frame r.count
  whole : ∀ r ∈ s.live, r.ptr = r.frame * PAGE_SIZE
  used : ∀ r ∈ s.live, ∀ i < r.count, s.isFree (r.frame + i) = false
  aligned : ∀ r ∈ s.live, r.ptr % r.align = 0
  apart : s.live.Pairwise Range.Apart

theorem FramesOk.liveOk (h : FramesOk s) : LiveOk s := by
  refine ⟨?_, h.aligned, h.apart⟩
  intro r hr
  obtain ⟨-, hf⟩ := h.fits r hr
  have h1 := hf.low
  have h2 := hf.high
  unfold FrameManager.lowest at h1
  unfold FrameManager.words at h2
  omega

theorem FramesOk.placed (h : FramesOk s) {frame n : Nat} (hn : 0 < n) (hf : Fits s frame n) :
    Placed s := by
  have h1 := h.below
  have h2 := hf.low
  have h3 := hf.high
  have h4 := h.memory
  refine ⟨h1, ?_⟩
  unfold FrameManager.words at *
  unfold PAGE_SIZE at h1
  omega

/-! ## Handing a range out -/

theorem aligned_address {frame align : Nat} (h0 : 0 < align) (hp : align % PAGE_SIZE = 0)
    (h : is_aligned frame align = true) : frame * PAGE_SIZE % align = 0 := by
  obtain ⟨k, rfl⟩ : ∃ k, align = k * PAGE_SIZE := by
    refine ⟨align / PAGE_SIZE, ?_⟩
    unfold PAGE_SIZE at *
    omega
  rw [Nat.mul_mod_mul_right]
  unfold is_aligned at h
  split at h
  · rename_i hc
    rcases hc with h1 | rfl
    · have : k = 1 := by
        unfold PAGE_SIZE at h1
        omega
      subst this
      rw [Nat.mod_one, Nat.zero_mul]
    · simp
  · rw [Nat.mul_div_cancel _ (by decide)] at h
    rw [beq_iff_eq.mp h, Nat.zero_mul]

/-- A new history over bits that leave its frames set. -/
theorem framesOk_of_same (h : FramesOk s) (hsame : Same s t) (hint : s.lowest ≤ 32 * t.next_idx)
    (hfits : ∀ r ∈ t.live, 0 < r.count ∧ Fits s r.frame r.count)
    (hwhole : ∀ r ∈ t.live, r.ptr = r.frame * PAGE_SIZE)
    (hused : ∀ r ∈ t.live, ∀ i < r.count, t.isFree (r.frame + i) = false)
    (haligned : ∀ r ∈ t.live, r.ptr % r.align = 0)
    (hapart : t.live.Pairwise Range.Apart) : FramesOk t := by
  refine ⟨?_, ?_, ?_, ?_, hwhole, hused, haligned, hapart⟩
  · rw [hsame.total]
    exact h.memory
  · rw [hsame.array, hsame.words, hsame.lowest]
    exact h.below
  · rw [hsame.lowest]
    exact hint
  · intro r hr
    exact ⟨(hfits r hr).1, hsame.fits (hfits r hr).2⟩

/-- A real run meets no range in use. -/
theorem apart_of_real (h : FramesOk s) {start stop n align f : Nat} (hn : 0 < n)
    (hr : RealRun s start stop n align f) {r : Range} (hm : r ∈ s.live) :
    f + n ≤ r.frame ∨ r.frame + r.count ≤ f := by
  by_contra hc
  obtain ⟨h1, h2⟩ := not_or.mp hc
  have hpos := (h.fits r hm).1
  -- The larger of the two first frames is in both.
  rcases Nat.le_total f r.frame with hle | hle
  · have hused := h.used r hm 0 hpos
    have hfree := hr.free (r.frame - f) (by omega)
    rw [show f + (r.frame - f) = r.frame + 0 by omega, hused] at hfree
    cases hfree
  · have hused := h.used r hm (f - r.frame) (by omega)
    have hfree := hr.free 0 hn
    rw [show r.frame + (f - r.frame) = f + 0 by omega, hfree] at hused
    cases hused

theorem isFree_handOut (s : FrameManager) (frame_addr n align g : Nat) :
    (s.handOut frame_addr n align).isFree g = s.isFree g := rfl

/-- A real run is handed out: it is claimed, and it joins the ranges in use. -/
theorem framesOk_handOut (h : FramesOk s) {start stop n align f : Nat} (hn : 0 < n)
    (h0 : 0 < align) (hp : align % PAGE_SIZE = 0) (hr : RealRun s start stop n align f) :
    FramesOk ((claimFrames s (f * PAGE_SIZE) n).handOut (f * PAGE_SIZE) n align) := by
  have hplaced := h.placed hn hr.fits
  have hsame : Same s ((claimFrames s (f * PAGE_SIZE) n).handOut (f * PAGE_SIZE) n align) :=
    (same_claimFrames s (f * PAGE_SIZE) n).trans ⟨rfl, rfl, rfl, rfl⟩
  have hbits : ∀ g < 32 * s.words,
      ((claimFrames s (f * PAGE_SIZE) n).handOut (f * PAGE_SIZE) n align).isFree g =
        (s.isFree g && decide (¬ (f ≤ g ∧ g < f + n))) := by
    intro g hg
    rw [isFree_handOut]
    exact isFree_claimFrames hplaced n hr.fits hg
  have hlive : ((claimFrames s (f * PAGE_SIZE) n).handOut (f * PAGE_SIZE) n align).live =
      ⟨f * PAGE_SIZE, n, align⟩ :: s.live := by
    unfold FrameManager.handOut
    dsimp only
    rw [claimFrames_live]
  have hframe : Range.frame ⟨f * PAGE_SIZE, n, align⟩ = f := Nat.mul_div_cancel _ (by decide)
  refine framesOk_of_same h hsame ?_ ?_ ?_ ?_ ?_ ?_
  · unfold FrameManager.handOut FRAME_BYTE_IDX
    dsimp only
    have := hr.fits.low
    rw [hr.fits.address (by omega), Nat.mul_div_cancel _ (by decide)]
    unfold FrameManager.lowest at *
    omega
  · rw [hlive]
    intro r hm
    rcases List.mem_cons.mp hm with rfl | hm
    · rw [hframe]
      exact ⟨hn, hr.fits⟩
    · exact h.fits r hm
  · rw [hlive]
    intro r hm
    rcases List.mem_cons.mp hm with rfl | hm
    · rw [hframe]
    · exact h.whole r hm
  · rw [hlive]
    intro r hm i hi
    rcases List.mem_cons.mp hm with rfl | hm
    · dsimp only at hi
      rw [hframe, hbits _ (by have := hr.fits.high; omega)]
      have : f ≤ f + i ∧ f + i < f + n := by omega
      simp [this]
    · have hhigh := (h.fits r hm).2.high
      rw [hbits _ (by omega), h.used r hm i hi]
      rfl
  · rw [hlive]
    intro r hm
    rcases List.mem_cons.mp hm with rfl | hm
    · exact aligned_address h0 hp hr.aligned
    · exact h.aligned r hm
  · rw [hlive, List.pairwise_cons]
    refine ⟨?_, h.apart⟩
    intro r hm
    unfold Range.Apart
    rw [hframe]
    exact apart_of_real h hn hr hm

/-! ## The calls -/

theorem Fits.addressOf {frame count : Nat} (h : Fits s frame count) (hc : 0 < count) :
    addressOf frame = frame * PAGE_SIZE := by
  have h1 := h.high
  have h2 := h.memory
  unfold FrameManager.words at h1
  unfold frame_alloc.addressOf PAGE_SIZE
  omega

theorem FramesOk.hint_pos (h : FramesOk s) : 0 < s.next_idx := by
  have := h.hint
  unfold FrameManager.lowest at this
  omega

theorem find_contiguous_frames_sound {n align : Nat} (hn : 0 < n) (hs : AllocSound s n align)
    (ha : find_contiguous_frames s n align ≠ 0) :
    ∃ start stop f, find_contiguous_frames s n align = addressOf f ∧
      RealRun s start stop n align f := by
  unfold find_contiguous_frames at ha ⊢
  dsimp only at ha ⊢
  split at ha
  · rename_i hc
    rw [if_pos hc]
    have hnone : ∀ g, ¬ RealRun s s.next_idx s.total_frames n align g :=
      fun g hg => find_contiguous_complete hn hg hc.1
    obtain ⟨f, hf, hreal⟩ := find_contiguous_sound hn (hs.2 hnone) ha
    exact ⟨_, _, f, hf, hreal⟩
  · rename_i hc
    rw [if_neg hc]
    obtain ⟨f, hf, hreal⟩ := find_contiguous_sound hn hs.1 ha
    exact ⟨_, _, f, hf, hreal⟩

theorem find_free_frame_real (h : FramesOk s) (hs : AllocSound s 1 PAGE_SIZE)
    (ha : find_free_frame s ≠ 0) :
    ∃ start stop f, find_free_frame s = addressOf f ∧ RealRun s start stop 1 PAGE_SIZE f := by
  unfold find_free_frame at ha ⊢
  dsimp only at ha ⊢
  split at ha
  · rename_i hc
    rw [if_pos hc]
    have hnone : ∀ g, ¬ RealRun s s.next_idx s.total_frames 1 PAGE_SIZE g :=
      fun g hg => find_free_frame_complete h.hint_pos hg hc.1
    obtain ⟨f, hf, hreal⟩ := find_free_frame_sound (hs.2 hnone) ha
    exact ⟨_, _, f, hf, hreal⟩
  · rename_i hc
    rw [if_neg hc]
    obtain ⟨f, hf, hreal⟩ := find_free_frame_sound hs.1 ha
    exact ⟨_, _, f, hf, hreal⟩

/-- No frames are asked for, and none are found. -/
theorem scanFrames_zero {align : Nat} (frames : List Nat) (start count : Nat)
    (h : start ≠ 0 → 0 < count) : scanFrames s 0 align frames start count = 0 := by
  induction frames generalizing start count with
  | nil => rfl
  | cons f fs ih =>
    unfold scanFrames
    dsimp only
    split
    · set a := if start = 0 ∧ is_aligned (f % 2 ^ 32) align = true then addressOf f else start
      by_cases ha : a = 0
      · rw [ha, ite_eq_left_iff]
        intro _
        exact ih 0 _ (by simp)
      · rw [if_pos ha, if_neg (by omega)]
        exact ih a _ (by omega)
    · rw [ite_eq_left_iff]
      intro _
      exact ih 0 _ (by simp)

theorem find_contiguous_frames_zero (s : FrameManager) (align : Nat) :
    find_contiguous_frames s 0 align = 0 := by
  unfold find_contiguous_frames find_contiguous_frames_in_ranges
  dsimp only
  rw [scanFrames_zero _ _ _ (by simp), scanFrames_zero _ _ _ (by simp)]
  split <;> rfl

theorem framesOk_alloc_frame (h : FramesOk s)
    (hs : s.available_frames ≠ 0 → AllocSound s 1 PAGE_SIZE) : FramesOk (alloc_frame s).1 := by
  unfold alloc_frame
  split
  · exact h
  · rename_i hav
    dsimp only
    split
    · exact h
    · rename_i hne
      obtain ⟨start, stop, f, hf, hreal⟩ := find_free_frame_real h (hs hav) hne
      have hone := hreal.fits.address (i := 0) (by decide)
      have hclaim : claimFrame s (f * PAGE_SIZE) = claimFrames s (f * PAGE_SIZE) 1 := by
        rw [claimFrames, hone, Nat.add_zero]
        rfl
      dsimp only
      rw [hf, hreal.fits.addressOf (by decide), hclaim]
      exact framesOk_handOut h (by decide) (by decide) (by decide) hreal

theorem framesOk_alloc_cont {n align : Nat} (h : FramesOk s) (h0 : 0 < align)
    (hp : align % PAGE_SIZE = 0) (hs : 0 < n → n ≤ s.available_frames → AllocSound s n align) :
    FramesOk (alloc_cont_aligned_frames s n align).1 := by
  unfold alloc_cont_aligned_frames
  split
  · exact h
  · rename_i hav
    dsimp only
    split
    · exact h
    · rename_i hne
      have hn : 0 < n := by
        apply Nat.pos_of_ne_zero
        rintro rfl
        exact hne (find_contiguous_frames_zero s align)
      obtain ⟨start, stop, f, hf, hreal⟩ :=
        find_contiguous_frames_sound hn (hs hn (by omega)) hne
      dsimp only
      rw [hf, hreal.fits.addressOf hn]
      exact framesOk_handOut h hn h0 hp hreal

/-! ## Giving a range back -/

theorem hint_dealloc_cont_frames {frame : Nat} (n : Nat) (hr : Fits s frame n)
    (hint : s.lowest ≤ 32 * s.next_idx) :
    s.lowest ≤ 32 * (dealloc_cont_frames s (frame * PAGE_SIZE) n).next_idx := by
  induction n generalizing s with
  | zero => exact hint
  | succ n ih =>
    have hlow := hr.low
    have hhigh := hr.high
    have hsame := same_dealloc_frame s ((frame + n) * PAGE_SIZE)
    rw [dealloc_cont_frames, hr.address (by omega), ← hsame.lowest]
    apply ih (hsame.fits ⟨hlow, by omega, hr.memory⟩)
    rw [hsame.lowest]
    unfold dealloc_frame
    dsimp only
    rw [Nat.mul_div_cancel _ (by decide)]
    split
    · exact hint
    · have : (mark_as_free { s with next_idx := FRAME_BYTE_IDX (frame + n) } (frame + n)).next_idx =
          (frame + n) / 32 := rfl
      rw [this]
      unfold FrameManager.lowest at *
      omega

theorem Range.Apart.symm {r q : Range} (h : r.Apart q) : q.Apart r := Or.symm h

theorem framesOk_dealloc (h : FramesOk s) {r : Range} (hr : r ∈ s.live) :
    FramesOk { dealloc_cont_frames s r.ptr r.count with live := s.live.erase r } := by
  obtain ⟨hpos, hfits⟩ := h.fits r hr
  have hplaced := h.placed hpos hfits
  have hsame : Same s { dealloc_cont_frames s r.ptr r.count with live := s.live.erase r } :=
    (same_dealloc_cont_frames s r.ptr r.count).trans ⟨rfl, rfl, rfl, rfl⟩
  have hperm : (r :: s.live.erase r).Pairwise Range.Apart :=
    ((List.perm_cons_erase hr).pairwise_iff Range.Apart.symm).mp h.apart
  rw [List.pairwise_cons] at hperm
  have hmem : ∀ q ∈ s.live.erase r, q ∈ s.live := fun q hq => List.mem_of_mem_erase hq
  refine framesOk_of_same h hsame ?_ (fun q hq => h.fits q (hmem q hq))
    (fun q hq => h.whole q (hmem q hq)) ?_ (fun q hq => h.aligned q (hmem q hq)) hperm.2
  · dsimp only
    rw [h.whole r hr]
    exact hint_dealloc_cont_frames r.count hfits h.hint
  · intro q hq i hi
    have hapart := hperm.1 q hq
    have hhigh := (h.fits q (hmem q hq)).2.high
    have hbit : (dealloc_cont_frames s r.ptr r.count).isFree (q.frame + i) = false := by
      rw [h.whole r hr, isFree_dealloc_cont_frames hplaced r.count hfits (by omega),
        h.used q (hmem q hq) i hi]
      unfold Range.Apart at hapart
      have : ¬ (r.frame ≤ q.frame + i ∧ q.frame + i < r.frame + r.count) := by omega
      simp [this]
    exact hbit

theorem framesOk_store (h : FramesOk s) {a : Nat} {v : BitVec 8}
    (ha : ¬ (s.frame_bits_array ≤ a ∧ a < s.frame_bits_array + 4 * s.words)) :
    FramesOk { s with mem := Function.update s.mem a v } := by
  refine framesOk_of_same h ⟨rfl, rfl, rfl, rfl⟩ h.hint h.fits h.whole ?_ h.aligned h.apart
  intro r hr i hi
  obtain ⟨hpos, hfits⟩ := h.fits r hr
  have hhigh := hfits.high
  rw [isFree_congr (h.placed hpos hfits) (by omega)]
  · exact h.used r hr i hi
  · intro b h1 h2
    exact Function.update_of_ne (by rintro rfl; exact ha ⟨h1, h2⟩) _ _

theorem framesOk_step {a : Op} (h : FramesOk s) (hok : SearchesSoundly s a)
    (hs : step s a = some t) : FramesOk t := by
  cases a with
  | alloc_frame =>
    cases hs
    exact framesOk_alloc_frame h hok
  | alloc_cont_aligned_frames n align =>
    simp only [step] at hs
    split at hs <;> cases hs
    rename_i hc
    exact framesOk_alloc_cont h hc.2.2.1 hc.2.2.2 hok
  | dealloc r =>
    simp only [step] at hs
    split at hs <;> cases hs
    exact framesOk_dealloc h ‹_›
  | store b v =>
    simp only [step] at hs
    split at hs <;> cases hs
    exact framesOk_store h ‹_›

/-! ## The law of the frames -/

/-- The bitmap, which starts at the end of the kernel, ends below the frames that
can be handed out. -/
def BitmapBelow (total_memory kernel_end : BitVec 32) : Prop :=
  let words := total_memory.toNat / PAGE_SIZE / 32
  let reserved := kernel_end.toNat / PAGE_SIZE +
    (words / PAGE_SIZE + if words % PAGE_SIZE ≠ 0 then 1 else 0)
  kernel_end.toNat + 4 * words ≤ PAGE_SIZE * (32 * (reserved / 32 + 1))

instance (total_memory kernel_end : BitVec 32) : Decidable (BitmapBelow total_memory kernel_end) :=
  inferInstanceAs (Decidable (_ ≤ _))

theorem framesOk_init (mem : memory.Mem) (total_memory kernel_end : BitVec 32)
    (h : BitmapBelow total_memory kernel_end) :
    FramesOk (init_frame_manager mem total_memory kernel_end) := by
  unfold init_frame_manager
  dsimp only
  set s₀ : FrameManager := bzero _ _ _ with hs₀
  obtain ⟨hsame, hlive⟩ := same_marks s₀ (List.range s₀.reserved)
  have htotal : s₀.total_frames = total_memory.toNat / PAGE_SIZE := rfl
  have hempty : ∀ r, r ∉ (List.foldl mark_as_used s₀ (List.range s₀.reserved)).live := by
    rw [hlive]
    exact fun _ => List.not_mem_nil
  refine ⟨?_, ?_, ?_, ?_, ?_, ?_, ?_, ?_⟩
  · dsimp only
    rw [hsame.total, htotal]
    have := total_memory.isLt
    unfold PAGE_SIZE
    omega
  · have h1 := hsame.array
    have h2 := hsame.words
    have h3 := hsame.lowest
    change (List.foldl mark_as_used s₀ (List.range s₀.reserved)).frame_bits_array +
      4 * (List.foldl mark_as_used s₀ (List.range s₀.reserved)).words ≤
        PAGE_SIZE * (List.foldl mark_as_used s₀ (List.range s₀.reserved)).lowest
    rw [h1, h2, h3]
    exact h
  · change (List.foldl mark_as_used s₀ (List.range s₀.reserved)).lowest ≤ _
    rw [hsame.lowest]
    exact le_refl _
  · exact fun r hr => absurd hr (hempty r)
  · exact fun r hr => absurd hr (hempty r)
  · exact fun r hr => absurd hr (hempty r)
  · exact fun r hr => absurd hr (hempty r)
  · dsimp only
    rw [hlive]
    exact List.Pairwise.nil

/-- In every run whose searches are sound, from a bitmap that lies below the
frames that can be handed out, the ranges in use lie in the memory behind the
reserved frames, are aligned as they were asked for, and share no frame. -/
theorem the_frames_in_use_are_apart (mem : memory.Mem) (total_memory kernel_end : BitVec 32)
    (ops : List Op) (t : FrameManager) (hbitmap : BitmapBelow total_memory kernel_end)
    (hok : Allowed step SearchesSoundly (init_frame_manager mem total_memory kernel_end) ops)
    (h : exec step (init_frame_manager mem total_memory kernel_end) ops = some t) : LiveOk t :=
  (exec_inv FramesOk (fun _ _ _ hi ho hs => framesOk_step hi ho hs)
    (framesOk_init mem total_memory kernel_end hbitmap) hok h).liveOk

/-- A real run at the very first frame of the search makes the search sound. -/
theorem searchSound_of_first {start stop n align : Nat}
    (h : RealRun s start stop n align (32 * start)) : SearchSound s start stop n align := by
  rintro f ⟨pre, suf, hL, -, -⟩
  refine ⟨32 * start, ?_, h⟩
  have hmem : f ∈ s.searched start stop := by
    rw [hL]
    simp
  unfold FrameManager.searched at hmem
  exact (List.mem_range'_1.mp (List.mem_filter.mp hmem).1).1

/-- A memory of 128 frames with clear RAM and a kernel that ends at 0x1000. -/
def clearMachine : FrameManager := init_frame_manager (fun _ => 0) 0x80000 0x1000

/-- The first two frames behind the reserved ones are asked for. -/
theorem the_first_frames_are_apart :
    BitmapBelow 0x80000 0x1000 ∧
      Allowed step SearchesSoundly clearMachine [.alloc_cont_aligned_frames 2 PAGE_SIZE] ∧
      ∃ t, exec step clearMachine [.alloc_cont_aligned_frames 2 PAGE_SIZE] = some t ∧
        t.live = [⟨0x20000, 2, PAGE_SIZE⟩] ∧ LiveOk t := by
  have hbitmap : BitmapBelow 0x80000 0x1000 := by decide
  have hlow : clearMachine.lowest = 32 := by decide +kernel
  have htotal : clearMachine.total_frames = 128 := by decide +kernel
  have hnext : clearMachine.next_idx = 1 := by decide +kernel
  have hfree : ∀ i < 2, clearMachine.isFree (32 + i) = true := by decide +kernel
  have hreal : RealRun clearMachine 1 128 2 PAGE_SIZE (32 * 1) := by
    refine ⟨⟨hlow.le, ?_, ?_⟩, by decide, by decide, by decide, hfree⟩
    · unfold FrameManager.words
      rw [htotal]
      decide
    · rw [htotal]
      decide
  have hok : Allowed step SearchesSoundly clearMachine
      [.alloc_cont_aligned_frames 2 PAGE_SIZE] := by
    refine ⟨?_, ?_⟩
    · intro _ _
      unfold AllocSound
      rw [htotal, hnext]
      exact ⟨searchSound_of_first hreal, fun hnone => absurd hreal (hnone _)⟩
    · unfold step
      trivial
  have hend : (exec step clearMachine [.alloc_cont_aligned_frames 2 PAGE_SIZE]).map
      (fun t => t.live) = some [⟨0x20000, 2, PAGE_SIZE⟩] := by
    decide +kernel
  obtain ⟨t, ht, hlive⟩ := Option.map_eq_some_iff.mp hend
  exact ⟨hbitmap, hok, t, ht, hlive,
    the_frames_in_use_are_apart _ _ _ _ t hbitmap hok ht⟩

/-- The last frame before a word that is fully used is free, and two frames are
asked for. -/
def skippedWord : List Op :=
  [.alloc_cont_aligned_frames 31 PAGE_SIZE, .alloc_frame, .alloc_cont_aligned_frames 32 PAGE_SIZE,
    .dealloc ⟨0x3F000, 1, PAGE_SIZE⟩, .alloc_cont_aligned_frames 2 PAGE_SIZE]

/-- A range of 97 frames from frame 32 on ends past the memory of 128 frames, and
a range of two frames from frame 63 on shares frame 64 with one in use. -/
theorem frames_in_use_are_not_always_apart :
    (∃ t, exec step clearMachine [.alloc_cont_aligned_frames 97 PAGE_SIZE] = some t ∧
      t.live = [⟨0x20000, 97, PAGE_SIZE⟩] ∧ ¬ LiveOk t) ∧
    ∃ t, exec step clearMachine skippedWord = some t ∧
      t.live = [⟨0x3F000, 2, PAGE_SIZE⟩, ⟨0x40000, 32, PAGE_SIZE⟩, ⟨0x20000, 31, PAGE_SIZE⟩] ∧
      ¬ LiveOk t := by
  have h1 : (exec step clearMachine [.alloc_cont_aligned_frames 97 PAGE_SIZE]).map
      (fun t => (t.live, t.total_frames)) = some ([⟨0x20000, 97, PAGE_SIZE⟩], 128) := by
    decide +kernel
  have h2 : (exec step clearMachine skippedWord).map (fun t => t.live) =
      some [⟨0x3F000, 2, PAGE_SIZE⟩, ⟨0x40000, 32, PAGE_SIZE⟩, ⟨0x20000, 31, PAGE_SIZE⟩] := by
    decide +kernel
  obtain ⟨t, ht, hl⟩ := Option.map_eq_some_iff.mp h1
  obtain ⟨u, hu, hk⟩ := Option.map_eq_some_iff.mp h2
  simp only [Prod.mk.injEq] at hl
  refine ⟨⟨t, ht, hl.1, ?_⟩, u, hu, hk, ?_⟩
  · intro hok
    have hin := (hok.within ⟨0x20000, 97, PAGE_SIZE⟩ (by rw [hl.1]; simp)).2
    rw [hl.2] at hin
    revert hin
    decide
  · intro hok
    have hap := hok.apart
    rw [hk] at hap
    have hfirst := (List.pairwise_cons.mp hap).1 ⟨0x40000, 32, PAGE_SIZE⟩ (by simp)
    revert hfirst
    unfold Range.Apart
    decide

end rpi_wifi.frame_alloc
