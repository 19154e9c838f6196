-- The bits of the frame allocator: what marking, freeing and clearing frames
-- does to the bitmap, as long as the bitmap ends below the frames that can be
-- handed out.
import RpiWifi.FrameAlloc

namespace rpi_wifi.frame_alloc

open memory

variable {s t : FrameManager} {frame count : Nat}

/-! ## The bits of the bitmap -/

/-- The first frame that the searches can hand out. -/
def FrameManager.lowest (s : FrameManager) : Nat := 32 * (s.reserved / 32 + 1)

/-- The bitmap ends below the frames that can be handed out, and its addresses
do not wrap. -/
structure Placed (s : FrameManager) : Prop where
  below : s.frame_bits_array + 4 * s.words ≤ PAGE_SIZE * s.lowest
  nowrap : s.frame_bits_array + 4 * s.words ≤ 2 ^ 32

theorem wordAddr_eq (h : Placed s) {i : Nat} (hi : i < s.words) :
    s.wordAddr i = s.frame_bits_array + 4 * i := by
  have := h.nowrap
  unfold FrameManager.wordAddr
  omega

/-- Two states with the same bytes in the bitmap have the same bits. -/
theorem isFree_congr {m : Mem} (h : Placed s) {frame : Nat} (hf : frame < 32 * s.words)
    (hm : ∀ b, s.frame_bits_array ≤ b → b < s.frame_bits_array + 4 * s.words → m b = s.mem b) :
    FrameManager.isFree { s with mem := m } frame = s.isFree frame := by
  have hi : FRAME_BYTE_IDX frame < s.words := by
    unfold FRAME_BYTE_IDX
    omega
  have haddr := wordAddr_eq h hi
  have hread : read32 m (s.wordAddr (FRAME_BYTE_IDX frame)) =
      read32 s.mem (s.wordAddr (FRAME_BYTE_IDX frame)) := by
    apply read32_congr
    intro k hk
    apply hm <;> omega
  unfold FrameManager.isFree FrameManager.word
  have hsame : FrameManager.wordAddr { s with mem := m } (FRAME_BYTE_IDX frame) =
      s.wordAddr (FRAME_BYTE_IDX frame) := rfl
  rw [hsame, hread]

theorem isFree_bzero (h : Placed s) {frame a n : Nat} (hf : frame < 32 * s.words)
    (ha : s.frame_bits_array + 4 * s.words ≤ a) :
    (bzero s a n).isFree frame = s.isFree frame := by
  apply isFree_congr h hf
  intro b _ hb
  exact zero_of_out (by omega)

theorem word_setWord (h : Placed s) {i j : Nat} (hi : i < s.words) (hj : j < s.words)
    (v : BitVec 32) : (s.setWord i v).word j = if j = i then v else s.word j := by
  have hai := wordAddr_eq h hi
  have haj := wordAddr_eq h hj
  have hsame : (s.setWord i v).wordAddr j = s.wordAddr j := rfl
  unfold FrameManager.word
  rw [hsame]
  by_cases hji : j = i
  · subst hji
    rw [if_pos rfl]
    unfold FrameManager.setWord
    dsimp only
    rw [read32_write32 v.isLt, BitVec.ofNat_toNat, BitVec.setWidth_eq]
  · rw [if_neg hji]
    unfold FrameManager.setWord
    dsimp only
    rw [read32_write32_of_apart (by omega)]

/-- The count of the frames that are left has no part in the bits. -/
theorem word_available (s : FrameManager) (n j : Nat) :
    FrameManager.word { s with available_frames := n } j = s.word j := rfl

theorem word_mark_as_used (s : FrameManager) (idx j : Nat) :
    (mark_as_used s idx).word j =
      (s.setWord (FRAME_BYTE_IDX idx)
        (s.word (FRAME_BYTE_IDX idx) ||| 1#32 <<< FRAME_BIT_OFFSET idx)).word j :=
  word_available (s.setWord _ _) _ j

theorem word_mark_as_free (s : FrameManager) (idx j : Nat) :
    (mark_as_free s idx).word j =
      (s.setWord (FRAME_BYTE_IDX idx)
        (s.word (FRAME_BYTE_IDX idx) &&& ~~~ (1#32 <<< FRAME_BIT_OFFSET idx))).word j :=
  word_available (s.setWord _ _) _ j

theorem getLsbD_bit {k i : Nat} (hk : k < 32) (hi : i < 32) :
    (1#32 <<< k).getLsbD i = decide (i = k) := by
  rw [BitVec.getLsbD_shiftLeft]
  by_cases h : i = k
  · subst h
    simp [hi]
  · by_cases hlt : i < k
    · simp [h, hlt]
    · have : ¬ i - k = 0 := by omega
      simp [h, hlt, hi, this]

/-- Marking a frame takes its bit, and no other bit of the bitmap. -/
theorem isFree_mark_as_used (h : Placed s) {frame idx : Nat} (hf : frame < 32 * s.words)
    (hidx : idx < 32 * s.words) :
    (mark_as_used s idx).isFree frame = (s.isFree frame && decide (frame ≠ idx)) := by
  unfold FrameManager.isFree
  rw [word_mark_as_used, word_setWord h (by unfold FRAME_BYTE_IDX; omega)
    (by unfold FRAME_BYTE_IDX; omega)]
  have hb1 : FRAME_BIT_OFFSET idx < 32 := Nat.mod_lt _ (by decide)
  have hb2 : FRAME_BIT_OFFSET frame < 32 := Nat.mod_lt _ (by decide)
  by_cases hi : FRAME_BYTE_IDX frame = FRAME_BYTE_IDX idx
  · have hoff : FRAME_BIT_OFFSET frame = FRAME_BIT_OFFSET idx ↔ frame = idx := by
      unfold FRAME_BYTE_IDX at hi
      unfold FRAME_BIT_OFFSET
      omega
    rw [if_pos hi, BitVec.getLsbD_or, getLsbD_bit hb1 hb2, hi]
    simp [hoff]
  · have hne : frame ≠ idx := by
      rintro rfl
      exact hi rfl
    rw [if_neg hi]
    simp [hne]

/-- Freeing a frame gives its bit back, and no other bit of the bitmap. -/
theorem isFree_mark_as_free (h : Placed s) {frame idx : Nat} (hf : frame < 32 * s.words)
    (hidx : idx < 32 * s.words) :
    (mark_as_free s idx).isFree frame = (s.isFree frame || decide (frame = idx)) := by
  unfold FrameManager.isFree
  rw [word_mark_as_free, word_setWord h (by unfold FRAME_BYTE_IDX; omega)
    (by unfold FRAME_BYTE_IDX; omega)]
  have hb1 : FRAME_BIT_OFFSET idx < 32 := Nat.mod_lt _ (by decide)
  have hb2 : FRAME_BIT_OFFSET frame < 32 := Nat.mod_lt _ (by decide)
  by_cases hi : FRAME_BYTE_IDX frame = FRAME_BYTE_IDX idx
  · have hoff : FRAME_BIT_OFFSET frame = FRAME_BIT_OFFSET idx ↔ frame = idx := by
      unfold FRAME_BYTE_IDX at hi
      unfold FRAME_BIT_OFFSET
      omega
    rw [if_pos hi, BitVec.getLsbD_and, BitVec.getLsbD_not, getLsbD_bit hb1 hb2, hi]
    simp [hoff, hb2]
  · have hne : frame ≠ idx := by
      rintro rfl
      exact hi rfl
    rw [if_neg hi]
    simp [hne]

/-! ## Claiming and releasing a range -/

/-- What no call of the allocator changes: the sizes and the place of the bitmap. -/
structure Same (s t : FrameManager) : Prop where
  total : t.total_frames = s.total_frames
  kernel : t.kernel_usage = s.kernel_usage
  manager : t.frame_manager_usage = s.frame_manager_usage
  array : t.frame_bits_array = s.frame_bits_array

theorem Same.trans {u : FrameManager} (h : Same s t) (h' : Same t u) : Same s u :=
  ⟨h'.total.trans h.total, h'.kernel.trans h.kernel, h'.manager.trans h.manager,
    h'.array.trans h.array⟩

theorem Same.words (h : Same s t) : t.words = s.words := by
  unfold FrameManager.words
  rw [h.total]

theorem Same.reserved (h : Same s t) : t.reserved = s.reserved := by
  unfold FrameManager.reserved
  rw [h.kernel, h.manager]

theorem Same.lowest (h : Same s t) : t.lowest = s.lowest := by
  unfold FrameManager.lowest
  rw [h.reserved]

theorem Same.placed (h : Same s t) (hp : Placed s) : Placed t := by
  refine ⟨?_, ?_⟩
  · rw [h.array, h.words, h.lowest]
    exact hp.below
  · rw [h.array, h.words]
    exact hp.nowrap

theorem same_claimFrame (s : FrameManager) (a : Nat) : Same s (claimFrame s a) :=
  ⟨rfl, rfl, rfl, rfl⟩

theorem same_claimFrames (s : FrameManager) (a n : Nat) : Same s (claimFrames s a n) := by
  induction n with
  | zero => exact ⟨rfl, rfl, rfl, rfl⟩
  | succ n ih => exact ih.trans (same_claimFrame _ _)

theorem claimFrames_live (s : FrameManager) (a n : Nat) : (claimFrames s a n).live = s.live := by
  induction n with
  | zero => rfl
  | succ n ih => exact ih

theorem same_dealloc_frame (s : FrameManager) (a : Nat) : Same s (dealloc_frame s a) := by
  unfold dealloc_frame
  dsimp only
  split <;> exact ⟨rfl, rfl, rfl, rfl⟩

theorem same_dealloc_cont_frames (s : FrameManager) (a n : Nat) :
    Same s (dealloc_cont_frames s a n) := by
  induction n generalizing s with
  | zero => exact ⟨rfl, rfl, rfl, rfl⟩
  | succ n ih => exact (same_dealloc_frame s _).trans (ih _)

theorem same_marks (s : FrameManager) (frames : List Nat) :
    Same s (frames.foldl mark_as_used s) ∧ (frames.foldl mark_as_used s).live = s.live := by
  induction frames generalizing s with
  | nil => exact ⟨⟨rfl, rfl, rfl, rfl⟩, rfl⟩
  | cons f fs ih =>
    obtain ⟨h1, h2⟩ := ih (mark_as_used s f)
    exact ⟨Same.trans (t := mark_as_used s f) ⟨rfl, rfl, rfl, rfl⟩ h1, h2⟩

/-- A run of frames that the allocator may hand out. -/
structure Fits (s : FrameManager) (frame count : Nat) : Prop where
  low : s.lowest ≤ frame
  high : frame + count ≤ 32 * s.words
  memory : s.total_frames < 2 ^ 20

theorem Same.fits (h : Same s t) (hf : Fits s frame count) : Fits t frame count := by
  refine ⟨?_, ?_, ?_⟩
  · rw [h.lowest]
    exact hf.low
  · rw [h.words]
    exact hf.high
  · rw [h.total]
    exact hf.memory

theorem Fits.address (h : Fits s frame count) {i : Nat} (hi : i < count) :
    (frame * PAGE_SIZE + i * PAGE_SIZE) % 2 ^ 32 = (frame + i) * PAGE_SIZE := by
  have h1 := h.high
  have h2 := h.memory
  unfold FrameManager.words at h1
  unfold PAGE_SIZE
  omega

/-- The frames of a range that is claimed are taken, and no other bit changes. -/
theorem isFree_claimFrames (hp : Placed s) {frame : Nat} (n : Nat) (hr : Fits s frame n) {g : Nat}
    (hg : g < 32 * s.words) :
    (claimFrames s (frame * PAGE_SIZE) n).isFree g =
      (s.isFree g && decide (¬ (frame ≤ g ∧ g < frame + n))) := by
  induction n with
  | zero =>
    simp [claimFrames]
  | succ n ih =>
    have hrn : Fits s frame n := ⟨hr.low, by have := hr.high; omega, hr.memory⟩
    have hsame := same_claimFrames s (frame * PAGE_SIZE) n
    have hpn := hsame.placed hp
    have hlow := hr.low
    have hhigh := hr.high
    have hbelow := hp.below
    rw [claimFrames, hr.address (by omega)]
    unfold claimFrame
    have hdiv : (frame + n) * PAGE_SIZE / PAGE_SIZE = frame + n := by
      unfold PAGE_SIZE
      omega
    have hsame' : Same s (bzero (claimFrames s (frame * PAGE_SIZE) n) ((frame + n) * PAGE_SIZE)
        PAGE_SIZE) := hsame.trans ⟨rfl, rfl, rfl, rfl⟩
    rw [hdiv, isFree_mark_as_used (hsame'.placed hp) (by rw [hsame'.words]; exact hg)
      (by rw [hsame'.words]; omega), isFree_bzero hpn (by rw [hsame.words]; exact hg) ?_, ih hrn]
    · by_cases h1 : g = frame + n
      · subst h1
        simp
      · have hiff : (frame ≤ g ∧ g < frame + (n + 1)) ↔ frame ≤ g ∧ g < frame + n := by omega
        simp [h1, hiff]
    · rw [hsame.array, hsame.words]
      unfold PAGE_SIZE at *
      omega

/-- The frames of a range that is given back are free, and no other bit changes. -/
theorem isFree_dealloc_cont_frames (hp : Placed s) {frame : Nat} (n : Nat) (hr : Fits s frame n)
    {g : Nat} (hg : g < 32 * s.words) :
    (dealloc_cont_frames s (frame * PAGE_SIZE) n).isFree g =
      (s.isFree g || decide (frame ≤ g ∧ g < frame + n)) := by
  induction n generalizing s with
  | zero =>
    have hnone : ¬ (frame ≤ g ∧ g < frame + 0) := by omega
    rw [dealloc_cont_frames, decide_eq_false hnone, Bool.or_false]
  | succ n ih =>
    have hlow := hr.low
    have hhigh := hr.high
    have hsame := same_dealloc_frame s ((frame + n) * PAGE_SIZE)
    have hdiv : (frame + n) * PAGE_SIZE / PAGE_SIZE = frame + n := by
      unfold PAGE_SIZE
      omega
    have hnot : ¬ frame + n ≤ s.reserved := by
      unfold FrameManager.lowest at hlow
      omega
    rw [dealloc_cont_frames, hr.address (by omega),
      ih (hsame.placed hp) (hsame.fits ⟨hr.low, by omega, hr.memory⟩)
        (by rw [hsame.words]; exact hg)]
    have hone : (dealloc_frame s ((frame + n) * PAGE_SIZE)).isFree g =
        (s.isFree g || decide (g = frame + n)) := by
      unfold dealloc_frame
      dsimp only
      rw [hdiv, if_neg hnot]
      have hp' : Placed { s with next_idx := FRAME_BYTE_IDX (frame + n) } := ⟨hp.below, hp.nowrap⟩
      rw [isFree_mark_as_free hp' hg (by
        have : FrameManager.words { s with next_idx := FRAME_BYTE_IDX (frame + n) } = s.words := rfl
        rw [this]
        omega)]
      rfl
    rw [hone]
    by_cases h1 : g = frame + n
    · subst h1
      simp
    · have hiff : (frame ≤ g ∧ g < frame + (n + 1)) ↔ frame ≤ g ∧ g < frame + n := by omega
      simp [h1, hiff]

end rpi_wifi.frame_alloc
