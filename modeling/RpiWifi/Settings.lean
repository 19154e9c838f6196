-- The law of the settings: `condense` against what it is for. The loop has read a part of
-- the text; the lines that are closed there are written, the open line is written as far
-- as it goes, and nothing is written where the loop has not read yet.
import RpiWifi.Pieces
import RpiWifi.UploadLaws

namespace rpi_wifi.ether4330.settings

open pieces

/-! ## What the settings are -/

/-- The end of a line. -/
def isBreak (c : Byte) : Bool := c == 0 || c == 10

/-- A line without its comment and without carriage returns. -/
def clean (line : List Byte) : List Byte := (line.takeWhile (· != 35)).filter (· != 13)

/-- The lines that are not empty, each with a NUL behind it. -/
def entries (text : List Byte) : List Byte :=
  (((text.splitOnP isBreak).map clean).filter (· ≠ [])).flatMap (· ++ [0])

/-- The list that the firmware takes: the lines, a NUL, and NULs up to a multiple of 4. -/
def condensed (text : List Byte) : List Byte := pad4 (entries text ++ [0])

/-- The line at the end of the text, which has no newline and no NUL behind it. -/
def lastLine (text : List Byte) : List Byte := opened isBreak text

/-- The loop of `condense` in front of byte `p`. -/
def scanned (buf : Buf) (p : Nat) : Condense :=
  (List.range p).foldl (fun s p => s.next (s.buf p)) ⟨buf, 0, 0, false⟩

/-- The buffer becomes what it should be, and each byte is read before it is written. -/
structure Meets (buf : Buf) (n : Nat) : Prop where
  length : (condense buf n).2 = (condensed (buf.first n)).length
  bytes : (condense buf n).1.first (condense buf n).2 = condensed (buf.first n)
  behind : ∀ p < n, (scanned buf p).op ≤ p ∧ (scanned buf p).buf p = buf p

/-! ## One line -/

/-- A line that was cleaned, with its NUL. -/
def entry (line : List Byte) : List Byte := if line = [] then [] else line ++ [0]

theorem entries_lines (ls : List (List Byte)) :
    (ls.filter (· ≠ [])).flatMap (· ++ [0]) = ls.flatMap entry := by
  induction ls with
  | nil => rfl
  | cons l ls ih =>
    by_cases h : l = []
    · rw [List.filter_cons_of_neg (by simpa using h), List.flatMap_cons, ih, h]
      rfl
    · rw [List.filter_cons_of_pos (by simpa using h), List.flatMap_cons, List.flatMap_cons, ih,
        entry, if_neg h]

/-- The lines that are closed, and the open one. -/
theorem entries_eq (text : List Byte) :
    entries text = ((closed isBreak text).map clean).flatMap entry ++ entry (clean (lastLine text)) := by
  unfold entries lastLine
  rw [entries_lines, splitOnP_eq, List.map_append, List.flatMap_append]
  simp

theorem clean_whole {line : List Byte} (h : 35 ∉ line) : clean line = line.filter (· != 13) := by
  have hall : ∀ c ∈ line, (c != 35) = true := by
    intro c hc
    rw [bne_iff_ne]
    rintro rfl
    exact h hc
  unfold clean
  rw [List.takeWhile_eq_self_iff.mpr hall]

/-- A line without a comment is kept, but for the carriage returns. -/
theorem clean_append {line : List Byte} (h : 35 ∉ line) (c : Byte) :
    clean (line ++ [c]) = clean line ++ if c = 35 ∨ c = 13 then [] else [c] := by
  by_cases hc : c = 35
  · have hstop : (line ++ [c]).takeWhile (· != 35) = line := by
      rw [List.takeWhile_append_of_pos]
      · simp [hc]
      · intro d hd
        rw [bne_iff_ne]
        rintro rfl
        exact h hd
    rw [clean_whole h, if_pos (.inl hc), List.append_nil]
    unfold clean
    rw [hstop]
  · have hnot : 35 ∉ line ++ [c] := by
      rw [List.mem_append, List.mem_singleton]
      exact not_or.mpr ⟨h, Ne.symm hc⟩
    rw [clean_whole h, clean_whole hnot, List.filter_append]
    by_cases hr : c = 13
    · simp [hr]
    · rw [if_neg (not_or.mpr ⟨hc, hr⟩), List.filter_cons_of_pos (by simpa using hr), List.filter_nil]

/-- Behind the start of a comment nothing is kept. -/
theorem clean_skipped {line : List Byte} (h : 35 ∈ line) (c : Byte) :
    clean (line ++ [c]) = clean line := by
  have hstop : (line.takeWhile (· != 35)).length ≠ line.length := by
    intro hlen
    have hall := List.takeWhile_eq_self_iff.mp
      ((List.takeWhile_prefix (p := (· != 35)) (l := line)).eq_of_length hlen)
    exact absurd (hall 35 h) (by decide)
  unfold clean
  rw [List.takeWhile_append, if_neg hstop]

/-! ## The loop -/

/-- What the loop leaves alone: the write position stays behind the read position. -/
structure Behind (buf : Buf) (s : Condense) (p : Nat) : Prop where
  start : s.lp ≤ s.op
  op : s.op ≤ p
  rest : ∀ i, p ≤ i → s.buf i = buf i

theorem behind_put {buf : Buf} {s : Condense} {p : Nat} (h : Behind buf s p) (c : Byte) :
    Behind buf (s.put c) (p + 1) where
  start := Nat.le_succ_of_le h.start
  op := Nat.succ_le_succ h.op
  rest := by
    intro i hi
    have hne : i ≠ s.op := by
      have := h.op
      omega
    exact (Function.update_of_ne hne _ _).trans (h.rest i (by omega))

theorem Behind.more {buf : Buf} {s : Condense} {p : Nat} (h : Behind buf s p) :
    Behind buf s (p + 1) where
  start := h.start
  op := Nat.le_succ_of_le h.op
  rest := fun i hi => h.rest i (by omega)

theorem behind_next {buf : Buf} {s : Condense} {p : Nat} (h : Behind buf s p) (c : Byte) :
    Behind buf (s.next c) (p + 1) := by
  have hmore := h.more
  unfold Condense.next
  split
  · exact ⟨hmore.start, hmore.op, hmore.rest⟩
  · split
    · dsimp only
      split
      · have hput := behind_put h 0
        exact ⟨Nat.le_refl _, hput.op, hput.rest⟩
      · exact ⟨hmore.start, hmore.op, hmore.rest⟩
    · split
      · exact hmore
      · exact behind_put h c

theorem scanned_succ (buf : Buf) (p : Nat) :
    scanned buf (p + 1) = (scanned buf p).next ((scanned buf p).buf p) := by
  unfold scanned
  rw [List.range_succ, List.foldl_append]
  rfl

theorem scanned_behind (buf : Buf) (p : Nat) : Behind buf (scanned buf p) p := by
  induction p with
  | zero => exact ⟨Nat.le_refl 0, Nat.le_refl 0, fun _ _ => rfl⟩
  | succ p ih =>
    rw [scanned_succ]
    exact behind_next ih _

/-- The lines in front of the read position: those that are closed are written, and the
open one as far as it goes. -/
structure Reached (text : List Byte) (s : Condense) : Prop where
  written : s.buf.first s.op =
    ((closed isBreak text).map clean).flatMap entry ++ clean (lastLine text)
  lp : s.lp = (((closed isBreak text).map clean).flatMap entry).length
  skipping : s.skipping = true ↔ 35 ∈ lastLine text

theorem Reached.op {text : List Byte} {s : Condense} (h : Reached text s) :
    s.op = s.lp + (clean (lastLine text)).length := by
  have hlen := congrArg List.length h.written
  rw [first_length, List.length_append] at hlen
  rw [hlen, h.lp]

theorem first_put (s : Condense) (c : Byte) :
    (s.put c).buf.first (s.put c).op = s.buf.first s.op ++ [c] :=
  first_succ _ _ _

theorem isBreak_iff (c : Byte) : isBreak c = true ↔ c = 0 ∨ c = 10 := by
  unfold isBreak
  rw [Bool.or_eq_true, beq_iff_eq, beq_iff_eq]

/-- The end of a line closes it. -/
theorem Reached.next_break {text : List Byte} {s : Condense} (h : Reached text s) {c : Byte}
    (hc : c = 0 ∨ c = 10) : Reached (text ++ [c]) (s.next c) := by
  have hop := h.op
  have hcut := (isBreak_iff c).mpr hc
  have hne : c ≠ 35 := by
    rintro rfl
    revert hc
    decide
  have hclosed : ((closed isBreak (text ++ [c])).map clean).flatMap entry =
      ((closed isBreak text).map clean).flatMap entry ++ entry (clean (lastLine text)) := by
    rw [closed_cut hcut, List.map_append, List.flatMap_append]
    simp [lastLine]
  have hopen : lastLine (text ++ [c]) = [] := opened_cut hcut
  have hempty : clean [] = [] := rfl
  unfold Condense.next
  rw [if_neg hne, if_pos hc]
  dsimp only
  by_cases hline : clean (lastLine text) = []
  · rw [hline, List.length_nil, Nat.add_zero] at hop
    rw [if_neg (by simpa using hop)]
    have hsame : entry (clean (lastLine text)) = [] := by rw [hline]; rfl
    have hwritten := h.written
    rw [hline, List.append_nil] at hwritten
    refine ⟨?_, ?_, ?_⟩
    · rw [hclosed, hsame, hopen, hempty, List.append_nil, List.append_nil]
      exact hwritten
    · rw [hclosed, hsame, List.append_nil]
      exact h.lp
    · rw [hopen]
      simp
  · have hpos := List.length_pos_iff.mpr hline
    rw [if_pos (show s.op ≠ s.lp by omega)]
    have hnew : entry (clean (lastLine text)) = clean (lastLine text) ++ [0] := if_neg hline
    have hput := first_put { s with skipping := false } 0
    have hwritten : (({ s with skipping := false } : Condense).put 0).buf.first (s.op + 1) =
        ((closed isBreak (text ++ [c])).map clean).flatMap entry := by
      rw [hclosed, hnew, ← List.append_assoc, ← h.written]
      exact hput
    refine ⟨?_, ?_, ?_⟩
    · rw [hopen, hempty, List.append_nil]
      exact hwritten
    · rw [← hwritten, first_length]
    · rw [hopen]
      simp [Condense.put]

/-- Any other character belongs to the open line. -/
theorem Reached.next_more {text : List Byte} {s : Condense} (h : Reached text s) {c : Byte}
    (hc : ¬ (c = 0 ∨ c = 10)) : Reached (text ++ [c]) (s.next c) := by
  have hmore : isBreak c = false := eq_false_of_ne_true (mt (isBreak_iff c).mp hc)
  have hopen : lastLine (text ++ [c]) = lastLine text ++ [c] := opened_more hmore
  have hclosed : closed isBreak (text ++ [c]) = closed isBreak text := closed_more hmore
  have hwritten := h.written
  unfold Condense.next
  rw [if_neg hc]
  by_cases h35 : c = 35
  · rw [if_pos h35]
    have hkept : clean (lastLine text ++ [c]) = clean (lastLine text) := by
      by_cases hskip : 35 ∈ lastLine text
      · exact clean_skipped hskip c
      · rw [clean_append hskip, if_pos (.inl h35), List.append_nil]
    refine ⟨?_, ?_, ?_⟩
    · rw [hclosed, hopen, hkept]
      exact hwritten
    · rw [hclosed]
      exact h.lp
    · rw [hopen, h35]
      simp
  · rw [if_neg h35]
    have hmem : 35 ∈ lastLine (text ++ [c]) ↔ 35 ∈ lastLine text := by
      rw [hopen, List.mem_append, List.mem_singleton]
      exact or_iff_left (Ne.symm h35)
    by_cases hlost : c = 13 ∨ s.skipping = true
    · rw [if_pos hlost]
      have hkept : clean (lastLine text ++ [c]) = clean (lastLine text) := by
        by_cases hskip : 35 ∈ lastLine text
        · exact clean_skipped hskip c
        · have h13 := hlost.resolve_right (mt h.skipping.mp hskip)
          rw [clean_append hskip, if_pos (.inr h13), List.append_nil]
      refine ⟨?_, ?_, h.skipping.trans hmem.symm⟩
      · rw [hclosed, hopen, hkept]
        exact hwritten
      · rw [hclosed]
        exact h.lp
    · rw [if_neg hlost]
      obtain ⟨h13, hskip⟩ := not_or.mp hlost
      have hkept : clean (lastLine text ++ [c]) = clean (lastLine text) ++ [c] := by
        rw [clean_append (mt h.skipping.mpr hskip), if_neg (not_or.mpr ⟨h35, h13⟩)]
      refine ⟨?_, ?_, h.skipping.trans hmem.symm⟩
      · rw [hclosed, hopen, hkept, ← List.append_assoc, ← hwritten]
        exact first_put s c
      · rw [hclosed]
        exact h.lp

/-- One character more. -/
theorem Reached.next {text : List Byte} {s : Condense} (h : Reached text s) (c : Byte) :
    Reached (text ++ [c]) (s.next c) := by
  by_cases hc : c = 0 ∨ c = 10
  · exact h.next_break hc
  · exact h.next_more hc

theorem scanned_reached (buf : Buf) (p : Nat) : Reached (buf.first p) (scanned buf p) := by
  induction p with
  | zero => exact ⟨rfl, rfl, by simp [scanned, lastLine, Buf.first]⟩
  | succ p ih =>
    have hread : (scanned buf p).buf p = buf p := (scanned_behind buf p).rest p (Nat.le_refl p)
    have hfirst : buf.first (p + 1) = buf.first p ++ [buf p] := by
      unfold Buf.first
      rw [List.range_succ, List.map_append]
      rfl
    rw [scanned_succ, hread, hfirst]
    exact ih.next _

/-! ## The end of the text -/

/-- The end of the last line. -/
def Condense.close (s : Condense) : Condense := if !s.skipping ∧ s.op ≠ s.lp then s.put 0 else s

/-- In a comment the open line gets no NUL of its own. -/
theorem close_first {text : List Byte} {s : Condense} (h : Reached text s) :
    (Condense.close s).buf.first (Condense.close s).op =
      ((closed isBreak text).map clean).flatMap entry ++
        if 35 ∈ lastLine text then clean (lastLine text) else entry (clean (lastLine text)) := by
  have hop := h.op
  have hwritten := h.written
  unfold Condense.close
  by_cases hskip : 35 ∈ lastLine text
  · rw [if_pos hskip, if_neg (by simp [h.skipping.mpr hskip])]
    exact hwritten
  · have hnot : (!s.skipping) = true := by
      rw [Bool.not_eq_true', ← Bool.not_eq_true]
      exact mt h.skipping.mp hskip
    rw [if_neg hskip]
    by_cases hline : clean (lastLine text) = []
    · rw [hline, List.length_nil, Nat.add_zero] at hop
      rw [hline] at hwritten ⊢
      rw [if_neg (fun hmore => hmore.2 hop)]
      exact hwritten
    · have hpos := List.length_pos_iff.mpr hline
      have hentry : entry (clean (lastLine text)) = clean (lastLine text) ++ [0] := if_neg hline
      rw [if_pos ⟨hnot, by omega⟩, first_put, hwritten, hentry, List.append_assoc]

/-- What the loop has written, and what is put behind it. -/
theorem condense_first (buf : Buf) (n : Nat) :
    (condense buf n).1.first (condense buf n).2 =
      pad4 (((closed isBreak (buf.first n)).map clean).flatMap entry ++
        (if 35 ∈ lastLine (buf.first n) then clean (lastLine (buf.first n))
        else entry (clean (lastLine (buf.first n)))) ++ [0]) := by
  have hend : condense buf n =
      zeroPad ((Condense.close (scanned buf n)).put 0).buf
        ((Condense.close (scanned buf n)).put 0).op := rfl
  rw [hend, zeroPad_first, first_put, close_first (scanned_reached buf n)]

/-- A NUL more is seen only where the padding does not bring it. -/
theorem pad4_null (l : List Byte) :
    pad4 (l ++ [0]) = pad4 (l ++ [0] ++ [0]) ↔ (l ++ [0]).length % 4 ≠ 0 := by
  constructor
  · intro h
    have hlen := congrArg List.length h
    simp only [pad4_length, List.length_append, List.length_singleton] at hlen ⊢
    omega
  · intro h
    unfold pad4
    rw [List.append_assoc (l ++ [0])]
    congr 1
    rw [@List.length_append _ (l ++ [0]), List.length_singleton]
    have hpad : (4 - (l ++ [0]).length % 4) % 4 =
        (4 - ((l ++ [0]).length + 1) % 4) % 4 + 1 := by omega
    rw [hpad, List.replicate_succ]
    rfl

/-! ## The law -/

/-- `condense` does what it is for, unless the text ends in a comment behind some text, and
the lines with their NULs make a multiple of 4. -/
theorem condense_meets_its_specification_iff (buf : Buf) (n : Nat) :
    Meets buf n ↔
      ¬ (35 ∈ lastLine (buf.first n) ∧ clean (lastLine (buf.first n)) ≠ [] ∧
        (entries (buf.first n)).length % 4 = 0) := by
  have hfirst := condense_first buf n
  have hspec : condensed (buf.first n) =
      pad4 (((closed isBreak (buf.first n)).map clean).flatMap entry ++
        entry (clean (lastLine (buf.first n))) ++ [0]) := by
    unfold condensed
    rw [entries_eq]
  have hbytes : Meets buf n ↔
      (condense buf n).1.first (condense buf n).2 = condensed (buf.first n) := by
    refine ⟨Meets.bytes, fun h => ⟨?_, h, fun p _ => ?_⟩⟩
    · rw [← h, first_length]
    · have hbehind := scanned_behind buf p
      exact ⟨hbehind.op, hbehind.rest p (Nat.le_refl p)⟩
  rw [hbytes, hfirst, hspec, entries_eq]
  generalize ((closed isBreak (buf.first n)).map clean).flatMap entry = done
  by_cases hskip : 35 ∈ lastLine (buf.first n)
  · rw [if_pos hskip]
    by_cases hline : clean (lastLine (buf.first n)) = []
    · rw [hline]
      exact iff_of_true rfl fun h => h.2.1 rfl
    · have hentry : entry (clean (lastLine (buf.first n))) = clean (lastLine (buf.first n)) ++ [0] :=
        if_neg hline
      rw [hentry, ← List.append_assoc, pad4_null]
      exact ⟨fun h hend => h hend.2.2, fun h h0 => h ⟨hskip, hline, h0⟩⟩
  · rw [if_neg hskip]
    exact iff_of_true rfl fun h => hskip h.1

/-- A text whose last line ends in a comment, and whose line makes four bytes with its NUL. -/
theorem a_comment_at_the_end_loses_the_end_mark :
    ¬ ∀ (buf : Buf) (n : Nat), Meets buf n := by
  intro h
  have hmeets := (h (fun i => [97, 61, 49, 35].getD i 0) 4).length
  revert hmeets
  decide +kernel

end rpi_wifi.ether4330.settings
