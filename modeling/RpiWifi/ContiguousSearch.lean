-- The search for frames in a row, against the plain one that looks at every frame of the
-- words. A word that is fully used is left out of the count of the run it stands in, so a
-- run that goes on behind it is taken for one, and frames from 2^20 on have no address.
import RpiWifi.FrameSafety

namespace rpi_wifi.frame_alloc

open run_search

variable {s : FrameManager} {start stop n align f g : Nat}

/-! ## The plain search -/

/-- `n` frames in a row that are all free, in the words from `start` up to `stop`. The
address of the first one is aligned. -/
structure FreeRun (s : FrameManager) (start stop n align f : Nat) : Prop where
  first : 32 * start ≤ f
  last : f + n ≤ 32 * stop
  aligned : align ∣ f * PAGE_SIZE
  free : ∀ i < n, s.isFree (f + i) = true

/-- The lowest run is found, and there is no result exactly when there is no run. -/
structure SearchExact (s : FrameManager) (start stop n align : Nat) : Prop where
  lowest : find_contiguous_frames_in_ranges s start stop n align ≠ 0 →
    ∃ f, find_contiguous_frames_in_ranges s start stop n align = f * PAGE_SIZE ∧
      FreeRun s start stop n align f ∧ ∀ g, FreeRun s start stop n align g → f ≤ g
  none : find_contiguous_frames_in_ranges s start stop n align = 0 ↔
    ∀ f, ¬ FreeRun s start stop n align f

/-! ## The frames with an address -/

theorem addressOf_low (hf : f < 2 ^ 20) : addressOf f = f * PAGE_SIZE := by
  unfold addressOf PAGE_SIZE
  omega

theorem is_aligned_iff (ha : 0 < align) (hpage : align % PAGE_SIZE = 0) (f : Nat) :
    is_aligned f align = true ↔ align ∣ f * PAGE_SIZE := by
  obtain ⟨k, rfl⟩ := Nat.dvd_of_mod_eq_zero hpage
  have hpos : 0 < PAGE_SIZE := by decide
  have hk : PAGE_SIZE * k / PAGE_SIZE = k := Nat.mul_div_cancel_left k hpos
  have hdvd : PAGE_SIZE * k ∣ f * PAGE_SIZE ↔ k ∣ f := by
    rw [Nat.mul_comm f]
    exact Nat.mul_dvd_mul_iff_left hpos
  unfold is_aligned
  rw [hdvd, hk]
  split
  · next hone =>
    refine iff_of_true rfl ?_
    rcases hone with hone | rfl
    · rw [Nat.mul_eq_left hpos.ne'] at hone
      rw [hone]
      exact Nat.one_dvd f
    · exact Nat.dvd_zero k
  · rw [beq_iff_eq, Nat.dvd_iff_mod_eq_zero]

theorem startOk_iff (ha : 0 < align) (hpage : align % PAGE_SIZE = 0) (hf : f < 2 ^ 20) :
    startOk align f = true ↔ align ∣ f * PAGE_SIZE ∧ 0 < f := by
  have hmod : f % 2 ^ 32 = f := Nat.mod_eq_of_lt (by omega)
  unfold startOk
  rw [Bool.and_eq_true, hmod, is_aligned_iff ha hpage, addressOf_low hf, bne_iff_ne]
  unfold PAGE_SIZE
  exact and_congr_right fun _ => by omega

/-- The loops see a run where there is one. -/
theorem FreeRun.seen (h : FreeRun s start stop n align f) (hstart : 0 < start) (hn : 0 < n)
    (ha : 0 < align) (hpage : align % PAGE_SIZE = 0) (hf : f < 2 ^ 20) :
    SeenRun s start stop n align f := by
  apply seenRun_of_free hn h.first h.last h.free
  have hfirst := h.first
  exact (startOk_iff ha hpage hf).mpr ⟨h.aligned, by omega⟩

/-! ## The search of the code -/

/-- Each run that the loops see has a run at or before it, and where there is a run, there
is one with an address. -/
def SeesRuns (s : FrameManager) (start stop n align : Nat) : Prop :=
  (∀ f, SeenRun s start stop n align f → ∃ g ≤ f, FreeRun s start stop n align g) ∧
    ∀ f, FreeRun s start stop n align f → ∃ g ≤ f, FreeRun s start stop n align g ∧ g < 2 ^ 20

/-- The first run that the loops see is the one that is returned. -/
theorem find_of_seen (hn : 0 < n) (h : SeenRun s start stop n align f) :
    ∃ x ≤ f, SeenRun s start stop n align x ∧ addressOf x ≠ 0 ∧
      find_contiguous_frames_in_ranges s start stop n align = addressOf x ∧
      ∀ g, SeenRun s start stop n align g → x ≤ g := by
  obtain ⟨x, hx, hle⟩ := first_le (searched_sorted s start stop) h
  have hseen : SeenRun s start stop n align x := first_some hx
  obtain ⟨-, -, -, hok, -⟩ := id hseen
  unfold startOk at hok
  rw [Bool.and_eq_true, bne_iff_ne] at hok
  refine ⟨x, hle, hseen, hok.2, ?_, ?_⟩
  · rw [find_contiguous_eq hn, hx]
    rfl
  · intro g hg
    obtain ⟨y, hy, hyg⟩ := first_le (searched_sorted s start stop) hg
    rw [hx] at hy
    cases hy
    exact hyg

theorem seen_of_find (hn : 0 < n) (h : find_contiguous_frames_in_ranges s start stop n align ≠ 0) :
    ∃ f, SeenRun s start stop n align f := by
  rw [find_contiguous_eq hn] at h
  rcases hx : first s.isFree (startOk align) n (s.searched start stop) with _ | x
  · rw [hx] at h
    exact absurd rfl h
  · exact ⟨x, first_some hx⟩

section

variable (hstart : 0 < start) (hn : 0 < n) (ha : 0 < align) (hpage : align % PAGE_SIZE = 0)
include hstart hn ha hpage

theorem exact_of_seesRuns (h : SeesRuns s start stop n align) :
    SearchExact s start stop n align := by
  obtain ⟨hreal, hlow⟩ := h
  constructor
  · intro hne
    obtain ⟨f, hf⟩ := seen_of_find hn hne
    obtain ⟨x, -, hx, -, heq, hfirst⟩ := find_of_seen hn hf
    -- The lowest run with an address is seen, so the first one that is seen is it.
    obtain ⟨g, hgx, hg⟩ := hreal x hx
    obtain ⟨k, hkg, hk, hk20⟩ := hlow g hg
    have hxk : x ≤ k := hfirst k (hk.seen hstart hn ha hpage hk20)
    obtain rfl : x = k := by omega
    refine ⟨x, by rw [heq, addressOf_low hk20], hk, ?_⟩
    intro y hy
    obtain ⟨z, hzy, hz, hz20⟩ := hlow y hy
    exact (hfirst z (hz.seen hstart hn ha hpage hz20)).trans hzy
  · constructor
    · intro h0 f hf
      obtain ⟨g, -, hg, hg20⟩ := hlow f hf
      obtain ⟨x, -, -, hne, heq, -⟩ := find_of_seen hn (hg.seen hstart hn ha hpage hg20)
      exact hne (heq.symm.trans h0)
    · intro hnone
      by_contra hne
      obtain ⟨f, hf⟩ := seen_of_find hn hne
      obtain ⟨g, -, hg⟩ := hreal f hf
      exact hnone g hg

theorem seesRuns_of_exact (h : SearchExact s start stop n align) :
    SeesRuns s start stop n align := by
  have hword : find_contiguous_frames_in_ranges s start stop n align < 2 ^ 32 := by
    rw [find_contiguous_eq hn]
    rcases first s.isFree (startOk align) n (s.searched start stop) with _ | x
    · exact Nat.zero_lt_succ _
    · exact Nat.mod_lt _ (by decide)
  -- What is found is the lowest run, and it has an address of 32 bits.
  have hfound : find_contiguous_frames_in_ranges s start stop n align ≠ 0 →
      ∃ g, FreeRun s start stop n align g ∧ g < 2 ^ 20 ∧
        find_contiguous_frames_in_ranges s start stop n align = g * PAGE_SIZE ∧
        ∀ f, FreeRun s start stop n align f → g ≤ f := by
    intro hne
    obtain ⟨g, heq, hg, hlowest⟩ := h.lowest hne
    refine ⟨g, hg, ?_, heq, hlowest⟩
    rw [heq] at hword
    unfold PAGE_SIZE at hword
    omega
  constructor
  · intro f hf
    obtain ⟨x, hxf, hx, hne, heq, hfirst⟩ := find_of_seen hn hf
    obtain ⟨g, hg, hg20, hpos, -⟩ := hfound (by rw [heq]; exact hne)
    have hxg : x ≤ g := hfirst g (hg.seen hstart hn ha hpage hg20)
    have hsame : x * PAGE_SIZE = g * PAGE_SIZE := by
      rw [← hpos, heq, addressOf_low (by omega)]
    obtain rfl : x = g := Nat.eq_of_mul_eq_mul_right (by decide) hsame
    exact ⟨x, hxf, hg⟩
  · intro f hf
    have hne : find_contiguous_frames_in_ranges s start stop n align ≠ 0 :=
      fun h0 => h.none.mp h0 f hf
    obtain ⟨g, hg, hg20, -, hlowest⟩ := hfound hne
    exact ⟨g, hlowest f hf, hg, hg20⟩

end

theorem free_of_takeWhile {m : Nat} (h : n ≤ ((List.range' f m).takeWhile s.isFree).length) :
    n ≤ m ∧ ∀ i < n, s.isFree (f + i) = true := by
  have hprefix := List.takeWhile_prefix (l := List.range' f m) s.isFree
  have hlen := hprefix.length_le
  rw [List.length_range'] at hlen
  refine ⟨h.trans hlen, ?_⟩
  intro i hi
  have hlt : i < ((List.range' f m).takeWhile s.isFree).length := Nat.lt_of_lt_of_le hi h
  have hget : ((List.range' f m).takeWhile s.isFree)[i] = f + i := by
    rw [List.IsPrefix.getElem hprefix hlt, List.getElem_range', Nat.one_mul]
  rw [← hget]
  exact List.mem_takeWhile_imp (List.getElem_mem hlt)

/-- Where no word is fully used, the loops see the runs as they are. -/
theorem seesRuns_of_no_full_word (hn : 0 < n) (ha : 0 < align) (hpage : align % PAGE_SIZE = 0)
    (hfree : ∀ i, start ≤ i → i < stop → s.word i ≠ 0xFFFFFFFF#32) (hstop : stop ≤ 2 ^ 15) :
    SeesRuns s start stop n align := by
  have hall : s.searched start stop = List.range' (32 * start) (32 * (stop - start)) := by
    apply List.filter_eq_self.mpr
    intro f hf
    rw [List.mem_range'_1] at hf
    rw [bne_iff_ne]
    apply hfree
    · unfold FRAME_BYTE_IDX
      omega
    · unfold FRAME_BYTE_IDX
      omega
  constructor
  · rintro f ⟨pre, suf, hL, hok, hrun⟩
    refine ⟨f, le_rfl, ?_⟩
    rw [hall] at hL
    obtain ⟨k, hk, rfl, hsuf⟩ := List.range'_eq_append_iff.mp hL
    obtain ⟨rfl, -, -⟩ := List.range'_eq_cons_iff.mp hsuf.symm
    rw [hsuf, Nat.mul_one] at hrun
    obtain ⟨hroom, hfree⟩ := free_of_takeWhile hrun
    have hf20 : 32 * start + k < 2 ^ 20 := by omega
    have halign := (startOk_iff ha hpage (f := 32 * start + k) hf20).mp (by simpa using hok)
    refine ⟨by omega, by omega, ?_, ?_⟩
    · simpa using halign.1
    · simpa using hfree
  · intro f hf
    have hlast := hf.last
    exact ⟨f, le_rfl, hf, by omega⟩

/-- The search is exact exactly when every run that it sees has a run at or before it. -/
theorem the_contiguous_search_is_exact_iff (s : FrameManager) (start stop n align : Nat)
    (hstart : 0 < start) (hn : 0 < n) (ha : 0 < align) (hpage : align % PAGE_SIZE = 0) :
    SearchExact s start stop n align ↔ SeesRuns s start stop n align :=
  ⟨seesRuns_of_exact hstart hn ha hpage, exact_of_seesRuns hstart hn ha hpage⟩

/-- In a memory of 128 frames of which 32 are reserved, the search finds the lowest two frames
whose address is a multiple of 0x2000. -/
theorem the_search_of_a_clear_bitmap_is_exact :
    SearchExact clearMachine 1 4 2 0x2000 := by
  apply (the_contiguous_search_is_exact_iff clearMachine 1 4 2 0x2000 (by decide) (by decide)
    (by decide) (by decide)).mpr
  apply seesRuns_of_no_full_word
  · decide
  · decide
  · decide
  · intro i hi hi4
    interval_cases i <;> decide +kernel
  · decide

/-- Four words of a bitmap at 0x1000: the last frame of the second word and the first one of
the fourth word are free, and the third word is fully used. -/
def brokenRun : FrameManager :=
  { init_frame_manager (fun _ => 0) 0x80000 0x1000 with
    mem := fun a => if a = 0x1007 then 0x7F else if a = 0x100C then 0xFE else 0xFF }

/-- The two frames are taken for a run of two frames. -/
theorem a_full_word_does_not_break_a_run : ¬ SearchExact brokenRun 1 4 2 PAGE_SIZE := by
  have hfound : find_contiguous_frames_in_ranges brokenRun 1 4 2 PAGE_SIZE = 63 * PAGE_SIZE := by
    decide +kernel
  have hused : brokenRun.isFree 64 = false := by decide +kernel
  intro h
  obtain ⟨f, heq, hf, -⟩ := h.lowest (by rw [hfound]; decide)
  rw [hfound] at heq
  obtain rfl : 63 = f := Nat.eq_of_mul_eq_mul_right (by decide) heq
  have hfree := hf.free 1 (by decide)
  rw [hused] at hfree
  cases hfree

end rpi_wifi.frame_alloc
