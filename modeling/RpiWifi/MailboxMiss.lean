-- The lookup of a tag that is not in the buffer. The loop does not look for the
-- NULL tag: it goes on by the word behind it, which an earlier message left there.
import RpiWifi.Mailbox

namespace rpi_wifi.mailbox

/-! ## The reads of the loop -/

/-- The indices that the loop of `findTag` reads in so many rounds. -/
def walkReads (pt : Nat → BitVec 32) (tag : BitVec 32) : Nat → Int → List Int
  | 0, _ => []
  | n + 1, index =>
    if index < (pt PT_OSIZE).toInt >>> (2 : Nat) then
      index :: match readWord pt index with
        | none => []
        | some word =>
          if word = tag then []
          else (index + T_OVALUE_SIZE) :: match readWord pt (index + T_OVALUE_SIZE) with
            | none => []
            | some size => walkReads pt tag n (index + ((size.toInt >>> (2 : Nat)) + 3))
    else []

/-- The bytes that `memcpy` copies from the record at the index. -/
def copiedBytes (pt : Nat → BitVec 32) (index : Nat) : Nat :=
  (pt (index + T_ORESPONSE) &&& 0xFFFF).toNat

/-- The bytes of the union of `rpi_mailbox_property_t`. -/
def PROPERTY_BYTES : Nat := 256

/-- A tag that is not in the message is not found, and nothing outside of the message is
read for it. Whatever is found fits the property. -/
structure SafeLookup (pt : Nat → BitVec 32) (tags : List Tag) (tag : Tag) : Prop where
  absent : tag ∉ tags → ∃ n, findTag pt tag.ident n 2 = some none ∧
    ∀ j ∈ walkReads pt tag.ident n 2, 0 ≤ j ∧ j < (pt PT_OSIZE).toInt >>> (2 : Nat)
  copies : ∀ n index, findTag pt tag.ident n 2 = some (some index) →
    copiedBytes pt index ≤ PROPERTY_BYTES

/-- The firmware keeps the size of the buffer, the number and the size of each tag, and the
NULL tag. The responses and the values are its own. -/
structure Keeps (firmware : (Nat → BitVec 32) → Nat → BitVec 32) (b : Buffer)
    (tags : List Tag) : Prop where
  size : (RPI_PropertyProcess b firmware).pt PT_OSIZE = (RPI_PropertyProcess b id).pt PT_OSIZE
  records : Holds (RPI_PropertyProcess b id).pt 2 tags →
    Holds (RPI_PropertyProcess b firmware).pt 2 tags
  last : (RPI_PropertyProcess b firmware).pt b.pt_index = (RPI_PropertyProcess b id).pt b.pt_index

variable {b c : Buffer} {tag : Tag} {pt : Nat → BitVec 32} {i : Nat}

/-! ## The walk over the records -/

/-- No tag has the number of the NULL tag. -/
theorem ident_ne_zero (t : Tag) : t.ident ≠ 0 := by
  cases t <;> decide

theorem findTag_succ {id : BitVec 32} {n : Nat} {index : Int} {r : Option Nat}
    (h : findTag pt id n index = some r) : findTag pt id (n + 1) index = some r := by
  induction n generalizing index with
  | zero => cases h
  | succ n ih =>
    rw [findTag] at h ⊢
    by_cases hin : index < (pt PT_OSIZE).toInt >>> (2 : Nat)
    · rw [if_pos hin] at h ⊢
      obtain ⟨word, hword, h⟩ := Option.bind_eq_some_iff.mp h
      rw [hword, Option.bind_some]
      by_cases he : word = id
      · rw [if_pos he] at h ⊢
        exact h
      · rw [if_neg he] at h ⊢
        obtain ⟨size, hsize, h⟩ := Option.bind_eq_some_iff.mp h
        rw [hsize, Option.bind_some]
        exact ih h
    · rw [if_neg hin] at h ⊢
      exact h

/-- More rounds do not change what is found. -/
theorem findTag_le {id : BitVec 32} {n m : Nat} {index : Int} {r : Option Nat}
    (h : findTag pt id n index = some r) (hle : n ≤ m) : findTag pt id m index = some r := by
  induction hle with
  | refl => exact h
  | step _ ih => exact findTag_succ ih

/-- One round over the record of another tag. -/
theorem findTag_other {t : Tag} {n : Nat} (ht : t ≠ tag) (hident : pt i = t.ident)
    (hsize : pt (i + 1) = BitVec.ofNat 32 (t.valueSize.getD 0)) (hfits : i + 1 < PT_WORDS)
    (hin : (i : Int) < (pt PT_OSIZE).toInt >>> (2 : Nat)) :
    findTag pt tag.ident (n + 1) i = findTag pt tag.ident n (i + Tag.words t : Nat) ∧
      ∀ j ∈ walkReads pt tag.ident n (i + Tag.words t : Nat),
        j ∈ walkReads pt tag.ident (n + 1) i := by
  have hne : ¬ t.ident = tag.ident := fun he => ht (ident_injective he)
  have hread : readWord pt (i + T_OVALUE_SIZE) = some (pt (i + 1)) :=
    readWord_some (j := i + 1) hfits
  have hstep := valueSize_step t i
  constructor
  · rw [findTag, if_pos hin, readWord_some (by omega), Option.bind_some, hident, if_neg hne, hread,
      Option.bind_some, hsize, hstep]
  · intro j hj
    rw [walkReads, if_pos hin, readWord_some (by omega)]
    dsimp only
    rw [hident, if_neg hne, hread]
    dsimp only
    rw [hsize, hstep]
    exact List.mem_cons_of_mem _ (List.mem_cons_of_mem _ hj)

/-- The walk passes the records of the other tags. -/
theorem findTag_to_end {ts : List Tag} (n : Nat) (habsent : tag ∉ ts) (hh : Holds pt i ts)
    (hend : endOf i ts < PT_WORDS) (hin : (endOf i ts : Int) < (pt PT_OSIZE).toInt >>> (2 : Nat)) :
    findTag pt tag.ident (ts.length + n) i = findTag pt tag.ident n (endOf i ts : Nat) := by
  induction ts generalizing i with
  | nil => rw [List.length_nil, Nat.zero_add, endOf]
  | cons t ts ih =>
    obtain ⟨hident, hsize, hrest⟩ := hh
    have hle := le_endOf ts (i + Tag.words t)
    have hwords : Tag.words t = 3 + t.valueSize.getD 0 / 4 := rfl
    obtain ⟨hne, hnot⟩ := not_or.mp (List.mem_cons.not.mp habsent)
    rw [endOf] at hend hin ⊢
    have hround := (findTag_other (n := ts.length + n) (Ne.symm hne) hident hsize (by omega)
      (by omega)).1
    rw [List.length_cons, Nat.add_right_comm, hround]
    exact ih hnot hrest hend hin

/-- A walk that ends without a tag has read the word behind the NULL tag. -/
theorem absent_reads_behind {ts : List Tag} {n : Nat} (habsent : tag ∉ ts) (hh : Holds pt i ts)
    (hnull : pt (endOf i ts) = 0) (hend : endOf i ts < PT_WORDS)
    (hin : (endOf i ts : Int) < (pt PT_OSIZE).toInt >>> (2 : Nat))
    (hfind : findTag pt tag.ident n i = some none) :
    (endOf i ts : Int) + 1 ∈ walkReads pt tag.ident n i := by
  induction ts generalizing i n with
  | nil =>
    cases n with
    | zero => cases hfind
    | succ n =>
      rw [endOf] at hnull hend hin
      have hne : ¬ (0 : BitVec 32) = tag.ident := fun he => ident_ne_zero tag he.symm
      rw [walkReads, if_pos hin, readWord_some hend]
      dsimp only
      rw [hnull, if_neg hne]
      exact List.mem_cons_of_mem _ List.mem_cons_self
  | cons t ts ih =>
    cases n with
    | zero => cases hfind
    | succ n =>
      obtain ⟨hident, hsize, hrest⟩ := hh
      have hle := le_endOf ts (i + Tag.words t)
      have hwords : Tag.words t = 3 + t.valueSize.getD 0 / 4 := rfl
      obtain ⟨hne, hnot⟩ := not_or.mp (List.mem_cons.not.mp habsent)
      rw [endOf] at hnull hend hin ⊢
      obtain ⟨hround, hreads⟩ := findTag_other (n := n) (Ne.symm hne) hident hsize (by omega)
        (by omega)
      rw [hround] at hfind
      exact hreads _ (ih hnot hrest hnull hend hin hfind)

/-! ## The word behind the NULL tag -/

/-- A word of 0, or of more, or a little below, leads out of the message. -/
theorem findTag_behind {n : Nat} (hword : pt i ≠ tag.ident) (hfits : i + 1 < PT_WORDS)
    (hsize : (pt PT_OSIZE).toInt >>> (2 : Nat) = (i : Int) + 1)
    (hlow : -8 ≤ (pt (i + 1)).toInt) : findTag pt tag.ident (n + 2) i = some none := by
  have hread : readWord pt (i + T_OVALUE_SIZE) = some (pt (i + 1)) :=
    readWord_some (j := i + 1) hfits
  have hstep : ¬ (i : Int) + (((pt (i + 1)).toInt >>> (2 : Nat)) + 3) < (i : Int) + 1 := by
    rw [Int.shiftRight_eq_div_pow]
    push_cast
    omega
  rw [findTag, if_pos (by omega), readWord_some (by omega), Option.bind_some, if_neg hword, hread,
    Option.bind_some, findTag, hsize, if_neg hstep]

/-- A word of three records less is a step of nothing: the loop does not end. -/
theorem findTag_circle {id : BitVec 32} (n : Nat) (hword : pt i ≠ id) (hfits : i + 1 < PT_WORDS)
    (hin : (i : Int) < (pt PT_OSIZE).toInt >>> (2 : Nat))
    (hback : (pt (i + 1)).toInt >>> (2 : Nat) = -3) : findTag pt id n i = none := by
  have hread : readWord pt (i + T_OVALUE_SIZE) = some (pt (i + 1)) :=
    readWord_some (j := i + 1) hfits
  induction n with
  | zero => rfl
  | succ n ih =>
    rw [findTag, if_pos hin, readWord_some (by omega), Option.bind_some, if_neg hword, hread,
      Option.bind_some, hback, neg_add_cancel, Int.add_zero]
    exact ih

/-! ## The message with its NULL tag -/

theorem terminate_null (b : Buffer) : b.terminate.pt b.terminate.pt_index = 0 :=
  Function.update_self _ _ _

theorem add_null (b : Buffer) (tag : Tag) (va_arg : Nat → BitVec 32) :
    (RPI_PropertyAddTag b tag va_arg).pt (RPI_PropertyAddTag b tag va_arg).pt_index = 0 := by
  unfold RPI_PropertyAddTag
  apply terminate_null

/-- The NULL tag stands behind the last tag of a request. -/
theorem request_null (b : Buffer) (calls : List (Tag × (Nat → BitVec 32))) :
    (request b calls).pt (request b calls).pt_index = 0 := by
  have hadd : ∀ c : Buffer, c.pt c.pt_index = 0 →
      (addAll c calls).pt (addAll c calls).pt_index = 0 := by
    induction calls with
    | nil => exact fun _ h => h
    | cons call calls ih => exact fun c _ => ih _ (add_null c call.1 call.2)
  exact hadd _ (terminate_null _)

/-- What the reader finds in the answer of such a firmware. -/
theorem answer_of_keeps {calls : List (Tag × (Nat → BitVec 32))}
    {firmware : (Nat → BitVec 32) → Nat → BitVec 32} (hfits : endOf 2 (tagsOf calls) < PT_WORDS)
    (hfirmware : Keeps firmware (request b calls) (tagsOf calls)) :
    Holds (RPI_PropertyProcess (request b calls) firmware).pt 2 (tagsOf calls) ∧
      (RPI_PropertyProcess (request b calls) firmware).pt (endOf 2 (tagsOf calls)) = 0 ∧
      ((RPI_PropertyProcess (request b calls) firmware).pt PT_OSIZE).toInt >>> (2 : Nat) =
        (endOf 2 (tagsOf calls) : Int) + 1 := by
  obtain ⟨hindex, hholds, -⟩ := addAll_holds (RPI_PropertyInit b) calls
  have hlast : (request b calls).pt_index = endOf 2 (tagsOf calls) := hindex
  have hlow := le_endOf (tagsOf calls) 2
  refine ⟨?_, ?_, ?_⟩
  · apply hfirmware.records
    exact holds_congr hholds fun j hj => process_words _ hj
  · have hnull := request_null b calls
    have hkeep := hfirmware.last
    rw [hlast] at hnull hkeep
    rw [hkeep, process_words _ (by omega), hnull]
  · rw [hfirmware.size, process_size, hlast, size_word hfits]

/-! ## The law of the lookup -/

theorem copiedBytes_mod (pt : Nat → BitVec 32) (index : Nat) :
    copiedBytes pt index = (pt (index + T_ORESPONSE)).toNat % 2 ^ 16 := by
  unfold copiedBytes
  rw [BitVec.toNat_and]
  exact Nat.and_two_pow_sub_one_eq_mod _ 16

/-- A tag that is not in the message, with a word of at least -8 behind the NULL tag, comes
back as NULL. -/
theorem the_miss_is_null (b : Buffer) (calls : List (Tag × (Nat → BitVec 32)))
    (firmware : (Nat → BitVec 32) → Nat → BitVec 32) (property : Property) (tag : Tag)
    (habsent : tag ∉ tagsOf calls) (hfits : endOf 2 (tagsOf calls) + 1 < PT_WORDS)
    (hfirmware : Keeps firmware (request b calls) (tagsOf calls)) :
    let answer := RPI_PropertyProcess (request b calls) firmware
    (-8 : Int) ≤ (answer.pt (endOf 2 (tagsOf calls) + 1)).toInt →
      RPI_PropertyGet answer property tag = some ({ property with tag := tag.ident }, false) := by
  intro answer hlow
  obtain ⟨hholds, hnull, hwords⟩ := answer_of_keeps (Nat.lt_of_succ_lt hfits) hfirmware
  have hsize : (answer.pt PT_OSIZE).toInt >>> (2 : Nat) = (endOf 2 (tagsOf calls) : Int) + 1 :=
    hwords
  have hle := le_endOf (tagsOf calls) 2
  obtain ⟨n, hn⟩ : ∃ n, PT_WORDS = (tagsOf calls).length + (n + 2) :=
    ⟨PT_WORDS - (tagsOf calls).length - 2, by omega⟩
  have hend := findTag_to_end (n + 2) habsent hholds (Nat.lt_of_succ_lt hfits) (by omega)
  have hword : answer.pt (endOf 2 (tagsOf calls)) ≠ tag.ident := by
    rw [hnull]
    exact (ident_ne_zero tag).symm
  have hfind : findTag answer.pt tag.ident PT_WORDS 2 = some none := by
    rw [hn]
    exact hend.trans (findTag_behind hword hfits hsize hlow)
  unfold RPI_PropertyGet
  dsimp only
  rw [hfind, Option.bind_some]

/-- The lookup is safe exactly for a tag of the message whose response has room in the
property. For every other tag the word behind the message is read. -/
theorem the_lookup_is_safe_iff (b : Buffer) (calls : List (Tag × (Nat → BitVec 32)))
    (firmware : (Nat → BitVec 32) → Nat → BitVec 32) (tag : Tag)
    (hfits : endOf 2 (tagsOf calls) < PT_WORDS)
    (hfirmware : Keeps firmware (request b calls) (tagsOf calls)) :
    let answer := RPI_PropertyProcess (request b calls) firmware
    SafeLookup answer.pt (tagsOf calls) tag ↔
      tag ∈ tagsOf calls ∧
        (answer.pt (startOf tag 2 (tagsOf calls) + T_ORESPONSE)).toNat % 2 ^ 16 ≤
          PROPERTY_BYTES := by
  intro answer
  obtain ⟨hholds, hnull, hwords⟩ := answer_of_keeps hfits hfirmware
  have hsize : (answer.pt PT_OSIZE).toInt >>> (2 : Nat) = (endOf 2 (tagsOf calls) : Int) + 1 :=
    hwords
  have hin : (endOf 2 (tagsOf calls) : Int) < (answer.pt PT_OSIZE).toInt >>> (2 : Nat) := by
    omega
  have hfirst : ∀ h : tag ∈ tagsOf calls, findTag answer.pt tag.ident
      ((tagsOf calls).length + 1) 2 = some (some (startOf tag 2 (tagsOf calls))) :=
    fun h => findTag_first h hholds hfits hin (Nat.lt_succ_self _)
  constructor
  · intro hsafe
    by_cases htag : tag ∈ tagsOf calls
    · have hcopy := hsafe.copies _ _ (hfirst htag)
      rw [copiedBytes_mod] at hcopy
      exact ⟨htag, hcopy⟩
    · obtain ⟨n, hfind, hreads⟩ := hsafe.absent htag
      obtain ⟨-, hbehind⟩ := hreads _ (absent_reads_behind htag hholds hnull hfits hin hfind)
      rw [hsize] at hbehind
      exact absurd hbehind (lt_irrefl _)
  · rintro ⟨htag, hcopy⟩
    refine ⟨fun habsent => absurd htag habsent, ?_⟩
    intro n index hfind
    have hsame := findTag_le hfind (Nat.le_max_left n ((tagsOf calls).length + 1))
    have hfirst' := findTag_le (hfirst htag) (Nat.le_max_right n ((tagsOf calls).length + 1))
    have hindex : index = startOf tag 2 (tagsOf calls) := by
      have heq := hsame.symm.trans hfirst'
      exact Option.some.inj (Option.some.inj heq)
    rw [hindex, copiedBytes_mod]
    exact hcopy

/-- The memory is asked for. The third value lies where the word behind a short message
will be. -/
def earlierCalls : List (Tag × (Nat → BitVec 32)) :=
  [(.TAG_ALLOCATE_MEMORY, fun k => if k = 2 then 0xFFFFFFF4 else 4096)]

def laterCalls : List (Tag × (Nat → BitVec 32)) := [(.TAG_GET_DEPTH, fun _ => 0)]

/-- The firmware answers the first tag with four bytes. -/
def depthFirmware (pt : Nat → BitVec 32) : Nat → BitVec 32 :=
  Function.update (Function.update pt 4 0x80000004) 5 32

/-- The buffer after both messages. -/
def staleAnswer : Buffer :=
  RPI_PropertyProcess (request (RPI_PropertyProcess (request ⟨fun _ => 0, 0⟩ earlierCalls)
    depthFirmware) laterCalls) depthFirmware

/-- The lookup of a tag that was not asked for does not end. -/
theorem the_lookup_of_an_absent_tag_hangs :
    ¬ SafeLookup staleAnswer.pt (tagsOf laterCalls) .TAG_GET_PITCH ∧
      ∀ n, findTag staleAnswer.pt rpi_mailbox_tag_t.TAG_GET_PITCH.ident n 2 = none := by
  have hangs : ∀ n, findTag staleAnswer.pt rpi_mailbox_tag_t.TAG_GET_PITCH.ident n 2 = none := by
    intro n
    cases h : findTag staleAnswer.pt rpi_mailbox_tag_t.TAG_GET_PITCH.ident n 2 with
    | none => rfl
    | some r =>
      have hmore := findTag_succ h
      have hround : findTag staleAnswer.pt rpi_mailbox_tag_t.TAG_GET_PITCH.ident (n + 1) 2 =
          findTag staleAnswer.pt rpi_mailbox_tag_t.TAG_GET_PITCH.ident n 6 :=
        (findTag_other (i := 2) (t := .TAG_GET_DEPTH) (by decide) (by decide) (by decide)
          (by decide) (by decide)).1
      have hcircle : findTag staleAnswer.pt rpi_mailbox_tag_t.TAG_GET_PITCH.ident n 6 = none :=
        findTag_circle n (by decide) (by decide) (by decide) (by decide)
      rw [hround] at hmore
      exact absurd (hcircle.symm.trans hmore) (Option.some_ne_none _).symm
  refine ⟨?_, hangs⟩
  intro hsafe
  obtain ⟨n, hfind, -⟩ := hsafe.absent (by decide)
  rw [hangs n] at hfind
  cases hfind

/-- The depth itself is found. -/
theorem the_lookup_of_the_depth_is_safe :
    SafeLookup staleAnswer.pt (tagsOf laterCalls) .TAG_GET_DEPTH := by
  have hkeeps : Keeps depthFirmware
      (request (RPI_PropertyProcess (request ⟨fun _ => 0, 0⟩ earlierCalls) depthFirmware)
        laterCalls) (tagsOf laterCalls) := by
    refine ⟨by decide, ?_, by decide⟩
    intro _
    exact ⟨by decide, by decide, trivial⟩
  exact (the_lookup_is_safe_iff _ laterCalls depthFirmware .TAG_GET_DEPTH (by decide) hkeeps).mpr
    ⟨by decide, by decide⟩

end rpi_wifi.mailbox
