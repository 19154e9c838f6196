-- The searches of the frame allocator. The loops run past the end of the
-- bitmap, and they skip a word that is fully used without ending the run they
-- are in. They find a real run of frames when one stands at or before each run
-- that they see.
import RpiWifi.FrameBits

namespace rpi_wifi.frame_alloc

open run_search

variable {s : FrameManager} {frame count : Nat}

/-! ## The searches -/

/-- A run may start at the frame: it is aligned, and its address is not the null one. -/
def startOk (align frame : Nat) : Bool :=
  is_aligned (frame % 2 ^ 32) align && addressOf frame != 0

/-- The loops of the code are the search in one pass, with 0 for no start. -/
theorem scanFrames_eq {n align : Nat} (hn : 0 < n) (frames : List Nat) (start : Option Nat)
    (count : Nat) (hs : ∀ x, start = some x → addressOf x ≠ 0) (hc : start = none → count = 0) :
    scanFrames s n align frames ((start.map addressOf).getD 0) count =
      ((scan s.isFree (startOk align) n frames start count).map addressOf).getD 0 := by
  induction frames generalizing start count with
  | nil => rfl
  | cons f fs ih =>
    by_cases hf : s.isFree f = true
    · rcases start with _ | x
      · obtain rfl := hc rfl
        by_cases hok : startOk align f = true
        · have hok' := hok
          unfold startOk at hok'
          simp only [Bool.and_eq_true, bne_iff_ne, ne_eq] at hok'
          simp only [scanFrames, scan, hf, hok, hok'.1, hok'.2, if_true, Option.map_none,
            Option.getD_none, and_self, ne_eq, not_false_eq_true]
          by_cases h1 : 0 + 1 = n
          · simp [h1]
          · rw [if_neg h1, if_neg h1]
            exact ih (some f) (0 + 1) (by rintro x ⟨⟩; exact hok'.2) (by simp)
        · have hstart : (if is_aligned (f % 2 ^ 32) align = true then addressOf f else 0) = 0 := by
            unfold startOk at hok
            simp only [Bool.and_eq_true, bne_iff_ne, ne_eq, not_and, not_not] at hok
            split
            · exact hok ‹_›
            · rfl
          simp only [scanFrames, scan, hf, if_true, Option.map_none, Option.getD_none, true_and,
            hstart, hok, Bool.false_eq_true, if_false, ne_eq, not_true_eq_false]
          rw [if_neg (by omega)]
          exact ih none 0 (by simp) (by simp)
      · have hx := hs x rfl
        simp only [scanFrames, scan, hf, if_true, Option.map_some, Option.getD_some, hx, false_and,
          if_false, ne_eq, not_false_eq_true]
        by_cases h1 : count + 1 = n
        · simp [h1]
        · rw [if_neg h1, if_neg h1]
          exact ih (some x) (count + 1) hs (by simp)
    · have hcount : (if ¬ (start.map addressOf).getD 0 = 0 then 0 else count) = 0 := by
        rcases start with _ | x
        · simp [hc rfl]
        · simp [hs x rfl]
      simp only [scanFrames, scan, hf, Bool.false_eq_true, if_false, ne_eq, hcount]
      rw [if_neg (by omega)]
      exact ih none 0 (by simp) (by simp)

theorem find_contiguous_eq {n align : Nat} (hn : 0 < n) (start stop : Nat) :
    find_contiguous_frames_in_ranges s start stop n align =
      ((first s.isFree (startOk align) n (s.searched start stop)).map addressOf).getD 0 := by
  rw [← scan_eq_first hn]
  exact scanFrames_eq hn _ none 0 (by simp) (by simp)

theorem searched_sorted (s : FrameManager) (start stop : Nat) :
    (s.searched start stop).Pairwise (· < ·) :=
  List.Pairwise.filter _ List.pairwise_lt_range'

theorem word_ne_full {f : Nat} (h : s.isFree f = true) :
    (s.word (FRAME_BYTE_IDX f) != 0xFFFFFFFF#32) = true := by
  rw [bne_iff_ne]
  intro hw
  have hb : FRAME_BIT_OFFSET f < 32 := Nat.mod_lt _ (by decide)
  have hall : ∀ i < 32, (0xFFFFFFFF#32).getLsbD i = true := by decide
  unfold FrameManager.isFree at h
  rw [hw, hall _ hb] at h
  cases h

/-- Free frames in a row stand in a row in what the loops look at. -/
theorem searched_of_free {start stop n g : Nat} (h1 : 32 * start ≤ g) (h2 : g + n ≤ 32 * stop)
    (hfree : ∀ i < n, s.isFree (g + i) = true) :
    ∃ pre suf, s.searched start stop = pre ++ (List.range' g n ++ suf) := by
  have hsplit : List.range' (32 * start) (32 * (stop - start)) =
      List.range' (32 * start) (g - 32 * start) ++
        (List.range' g n ++ List.range' (g + n) (32 * stop - (g + n))) := by
    have e1 : 32 * (stop - start) = (g - 32 * start) + (n + (32 * stop - (g + n))) := by omega
    have e2 : g = 32 * start + (g - 32 * start) := by omega
    rw [e1, ← List.range'_append_1, ← e2, ← List.range'_append_1]
  have hkeep : (List.range' g n).filter (fun f => s.word (FRAME_BYTE_IDX f) != 0xFFFFFFFF#32) =
      List.range' g n := by
    rw [List.filter_eq_self]
    intro f hf
    rw [List.mem_range'_1] at hf
    have := hfree (f - g) (by omega)
    rw [show g + (f - g) = f by omega] at this
    exact word_ne_full this
  unfold FrameManager.searched
  rw [hsplit, List.filter_append, List.filter_append, hkeep]
  exact ⟨_, _, rfl⟩

/-- A run of frames that is really free and lies in the bitmap, in the words from
`start` up to `stop`. -/
structure RealRun (s : FrameManager) (start stop n align g : Nat) : Prop where
  fits : Fits s g n
  first : 32 * start ≤ g
  last : g + n ≤ 32 * stop
  aligned : is_aligned g align = true
  free : ∀ i < n, s.isFree (g + i) = true

/-- Where the loops see a run: a word that is fully used does not break it, and
the words behind the bitmap count too. -/
def SeenRun (s : FrameManager) (start stop n align f : Nat) : Prop :=
  StartsRun s.isFree (startOk align) n (s.searched start stop) f

/-- The frame has an address of its own. -/
theorem Fits.startOk (h : Fits s frame count) (hc : 0 < count) {align : Nat}
    (ha : is_aligned frame align = true) : startOk align frame = true := by
  have h1 := h.low
  have h2 := h.high
  have h3 := h.memory
  unfold FrameManager.words at h2
  unfold FrameManager.lowest at h1
  have hmod : frame % 2 ^ 32 = frame := by omega
  have haddr : addressOf frame ≠ 0 := by
    unfold addressOf PAGE_SIZE
    omega
  unfold frame_alloc.startOk
  rw [hmod, ha]
  simpa using haddr

/-- Free frames in a row are seen as a run when one may start there. -/
theorem seenRun_of_free {start stop n align g : Nat} (hn : 0 < n) (h1 : 32 * start ≤ g)
    (h2 : g + n ≤ 32 * stop) (hfree : ∀ i < n, s.isFree (g + i) = true)
    (hok : startOk align g = true) : SeenRun s start stop n align g := by
  obtain ⟨pre, suf, hL⟩ := searched_of_free h1 h2 hfree
  obtain ⟨m, rfl⟩ : ∃ m, n = m + 1 := ⟨n - 1, by omega⟩
  refine ⟨pre, List.range' (g + 1) m ++ suf, ?_, hok, ?_⟩
  · rw [hL, List.range'_succ, List.cons_append]
  · have hall : ∀ f ∈ List.range' g (m + 1), s.isFree f = true := by
      intro f hf
      rw [List.mem_range'_1] at hf
      have := hfree (f - g) (by omega)
      rwa [show g + (f - g) = f by omega] at this
    rw [← List.cons_append, ← List.range'_succ, List.takeWhile_append_of_pos hall]
    simp

theorem seenRun_of_real {start stop n align g : Nat} (hn : 0 < n)
    (h : RealRun s start stop n align g) : SeenRun s start stop n align g :=
  seenRun_of_free hn h.first h.last h.free (h.fits.startOk hn h.aligned)

/-- Each run that the loops see has a real run at or before it. -/
def SearchSound (s : FrameManager) (start stop n align : Nat) : Prop :=
  ∀ f, SeenRun s start stop n align f → ∃ g ≤ f, RealRun s start stop n align g

/-- A sound search finds a real run. -/
theorem find_contiguous_sound {start stop n align : Nat} (hn : 0 < n)
    (hsound : SearchSound s start stop n align)
    (ha : find_contiguous_frames_in_ranges s start stop n align ≠ 0) :
    ∃ f, find_contiguous_frames_in_ranges s start stop n align = addressOf f ∧
      RealRun s start stop n align f := by
  rw [find_contiguous_eq hn] at ha ⊢
  rcases hf : first s.isFree (startOk align) n (s.searched start stop) with _ | f
  · rw [hf] at ha
    exact absurd rfl ha
  · obtain ⟨g, hgf, hg⟩ := hsound f (first_some hf)
    obtain ⟨x, hx, hxg⟩ := first_le (searched_sorted s start stop) (seenRun_of_real hn hg)
    rw [hf] at hx
    cases hx
    obtain rfl : f = g := by omega
    exact ⟨f, rfl, hg⟩

/-- A search misses no real run. -/
theorem find_contiguous_complete {start stop n align g : Nat} (hn : 0 < n)
    (hg : RealRun s start stop n align g) :
    find_contiguous_frames_in_ranges s start stop n align ≠ 0 := by
  obtain ⟨x, hx, -⟩ := first_le (searched_sorted s start stop) (seenRun_of_real hn hg)
  obtain ⟨-, -, -, hok, -⟩ := first_some hx
  rw [find_contiguous_eq hn, hx]
  unfold startOk at hok
  simp only [Bool.and_eq_true, bne_iff_ne, ne_eq] at hok
  exact hok.2

theorem startsRun_one_of_real {start stop g : Nat} (hg : RealRun s start stop 1 PAGE_SIZE g) :
    StartsRun s.isFree (fun _ => true) 1 (s.searched start stop) g := by
  obtain ⟨pre, suf, hL, -, hrun⟩ := seenRun_of_real (by decide) hg
  exact ⟨pre, suf, hL, rfl, hrun⟩

theorem find_free_frame_sound {start stop : Nat} (hsound : SearchSound s start stop 1 PAGE_SIZE)
    (ha : find_free_frame_in_rage s start stop ≠ 0) :
    ∃ f, find_free_frame_in_rage s start stop = addressOf f ∧
      RealRun s start stop 1 PAGE_SIZE f := by
  unfold find_free_frame_in_rage at ha ⊢
  rw [← first_one] at ha ⊢
  rcases hf : first s.isFree (fun _ => true) 1 (s.searched start stop) with _ | f
  · rw [hf] at ha
    exact absurd rfl ha
  · rw [hf] at ha
    obtain ⟨pre, suf, hL, -, hrun⟩ := first_some hf
    have hseen : SeenRun s start stop 1 PAGE_SIZE f := by
      refine ⟨pre, suf, hL, ?_, hrun⟩
      unfold startOk is_aligned
      simpa using ha
    obtain ⟨g, hgf, hg⟩ := hsound f hseen
    obtain ⟨x, hx, hxg⟩ := first_le (searched_sorted s start stop) (startsRun_one_of_real hg)
    rw [hf] at hx
    cases hx
    obtain rfl : f = g := by omega
    exact ⟨f, rfl, hg⟩

theorem find_free_frame_complete {start stop g : Nat} (h0 : 0 < start)
    (hg : RealRun s start stop 1 PAGE_SIZE g) : find_free_frame_in_rage s start stop ≠ 0 := by
  obtain ⟨x, hx, hxg⟩ := first_le (searched_sorted s start stop) (startsRun_one_of_real hg)
  obtain ⟨pre, suf, hL, -, -⟩ := first_some hx
  have hmem : x ∈ s.searched start stop := by
    rw [hL]
    simp
  have hlow : 32 * start ≤ x := by
    unfold FrameManager.searched at hmem
    have := (List.mem_filter.mp hmem).1
    rw [List.mem_range'_1] at this
    exact this.1
  have hhigh := hg.fits.high
  have hmemory := hg.fits.memory
  unfold FrameManager.words at hhigh
  unfold find_free_frame_in_rage
  rw [← first_one, hx]
  simp only [Option.map_some, Option.getD_some]
  unfold addressOf PAGE_SIZE
  omega

/-! ## The address that is found -/

/-- Where the search ends, it gives the address of a frame or none. -/
theorem scanFrames_aligned {n align : Nat} (frames : List Nat)
    (start count : Nat) (h : start % PAGE_SIZE = 0) :
    scanFrames s n align frames start count % PAGE_SIZE = 0 := by
  induction frames generalizing start count with
  | nil => rfl
  | cons frame frames ih =>
    have hnew : (if start = 0 ∧ is_aligned (frame % 2 ^ 32) align then addressOf frame
        else start) % PAGE_SIZE = 0 := by
      split
      · unfold addressOf PAGE_SIZE
        omega
      · exact h
    have hgo : ∀ start count, start % PAGE_SIZE = 0 →
        (if count = n then start else scanFrames s n align frames start count) % PAGE_SIZE = 0 := by
      intro start count h
      split
      · exact h
      · exact ih start count h
    unfold scanFrames
    dsimp only
    by_cases hfree : s.isFree frame = true
    · rw [if_pos hfree]
      exact hgo _ _ hnew
    · rw [if_neg hfree]
      exact hgo _ _ (Nat.zero_mod _)

/-- Frames start at a frame. -/
theorem alloc_contiguous_frames_aligned (s : FrameManager) (n : Nat) :
    (alloc_contiguous_frames s n).2 % PAGE_SIZE = 0 := by
  unfold alloc_contiguous_frames alloc_cont_aligned_frames
  split
  · rfl
  · dsimp only
    split
    · rfl
    · dsimp only
      unfold find_contiguous_frames find_contiguous_frames_in_ranges
      dsimp only
      split
      · exact scanFrames_aligned _ _ _ rfl
      · exact scanFrames_aligned _ _ _ rfl

end rpi_wifi.frame_alloc
