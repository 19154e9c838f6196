-- The law of the upload over a bus with errors: an upload that returns no error has read
-- back the file, for each content of the file and of the buffers, exactly when the read
-- back of each byte is delivered.
import RpiWifi.UploadErrors
import RpiWifi.BusErrorLaws
import RpiWifi.BusPatternLaws
import RpiWifi.UploadLaws

namespace rpi_wifi.ether4330.faulty

open plibc transfers

variable {answer : Answer} {fails : Nat → Bool} {b : Bus} {write : Bool}

/-! ## Ways -/

/-- The reads of the bytes that come from a place. -/
def seen (as : List (Option (BitVec 32))) (got : List Byte) : List (BitVec 32 × Byte) :=
  (as.zip got).filterMap fun w => w.1.map fun a => (a, w.2)

theorem seen_append {as as' : List (Option (BitVec 32))} {got got' : List Byte}
    (h : as.length = got.length) :
    seen (as ++ as') (got ++ got') = seen as got ++ seen as' got' := by
  unfold seen
  rw [List.zip_append h, List.filterMap_append]

section origins

variable (p off : BitVec 32)

end origins

/-- From `b` a call with the buffer `xs` goes the way `w`. It reads what comes from a
place. With zeros in the buffer and on the backplane it ends with zeros. -/
structure Follows (answer : Answer) (write : Bool) (b : Bus) (r : Bus × List Byte)
    (xs : List Byte) (w : Route) : Prop where
  page : page r.1.chip = w.page
  done : r.1.done = w.done
  length : r.2.length = xs.length
  origins : w.origins.length = xs.length
  reads : r.1.chip.reads = b.chip.reads ++ if write then [] else seen w.origins r.2
  zeros : (∀ c a, answer c a = 0) → (∀ x ∈ xs, x = 0) → ∀ x ∈ r.2, x = 0

/-- One way behind the other one. -/
theorem Follows.andThen {r : Bus × List Byte} {xs ys : List Byte} {w w' : Route}
    (h : Follows answer write b r xs w) (next : Bus → Bus × List Byte)
    (h' : Follows answer write r.1 (next r.1) ys w') :
    Follows answer write b (transfers.andThen r next) (xs ++ ys) (w'.behind w.origins) := by
  refine ⟨h'.page, h'.done, ?_, ?_, ?_, ?_⟩
  · simp only [transfers.andThen, List.length_append, h.length, h'.length]
  · simp only [Route.behind, List.length_append, h.origins, h'.origins]
  · have hlen : w.origins.length = r.2.length := h.origins.trans h.length.symm
    simp only [transfers.andThen, Route.behind]
    rw [h'.reads, h.reads, seen_append hlen]
    cases write <;> simp
  · intro hans hxs x hx
    rcases List.mem_append.mp hx with hx | hx
    · exact h.zeros hans (fun x hx => hxs x (List.mem_append_left _ hx)) x hx
    · exact h'.zeros hans (fun x hx => hxs x (List.mem_append_right _ hx)) x hx

/-- The number of commands plays no part in what is read. -/
theorem Follows.counted {r : Bus × List Byte} {xs : List Byte} {w : Route}
    (h : Follows answer write b r xs w) (k : Nat) :
    Follows answer write b (r.1.counted k, r.2) xs { w with done := k } :=
  ⟨h.page, rfl, h.length, h.origins, h.reads, h.zeros⟩

section loops

variable {f : FileInfo} {ctl : Loader} {s : Upload}

/-- A piece, padded, is what the way of the file takes in one turn. -/
theorem padded_length (off : Nat) :
    (pad4 (f.piece off)).length = (min Uploadsz (f.size - off) + 3) / 4 * 4 := by
  rw [pad4_length, FileInfo.piece, List.length_take, List.length_drop]
  rfl

end loops

/-! ## A bus without errors -/

section sound

variable (hok : ∀ k, fails k = false) {f : FileInfo} {ctl : Loader} {s : Upload}

include hok

end sound

/-! ## Places in step -/

/-- Each place of the list has the place in its window that the addresses from `c` on have. -/
def InStep (c : Nat) (as : List (Option (BitVec 32))) : Prop :=
  ∀ i a, as[i]? = some (some a) → a.toNat % 0x8000 = (c + i) % 0x8000

theorem InStep.append {c d : Nat} {as bs : List (Option (BitVec 32))} (h : InStep c as)
    (h' : InStep d bs) (hd : d % 0x8000 = (c + as.length) % 0x8000) : InStep c (as ++ bs) := by
  intro i a hi
  by_cases hlt : i < as.length
  · rw [List.getElem?_append_left hlt] at hi
    exact h i a hi
  · rw [List.getElem?_append_right (Nat.le_of_not_lt hlt)] at hi
    have hat := h' _ a hi
    omega

/-- A list with less than a window's bytes too many: what comes from its places in order
comes from the first of them. -/
theorem InStep.first {c : Nat} {as : List (Option (BitVec 32))} {ts rest : List (BitVec 32)}
    (h : InStep c as) (hts : InStep c (ts.map some)) (hseen : as.filterMap id = ts ++ rest)
    (hlen : as.length < ts.length + 0x8000) : ∃ bs, as = ts.map some ++ bs := by
  induction ts generalizing c as with
  | nil => exact ⟨as, rfl⟩
  | cons t ts ih =>
    rw [List.cons_append] at hseen
    obtain ⟨before, a, behind, rfl, hnone, ha, hrest⟩ := List.filterMap_eq_cons_iff.mp hseen
    obtain rfl : a = some t := ha
    have hle : ts.length ≤ behind.length := by
      have hfm := List.length_filterMap_le id behind
      rw [hrest, List.length_append] at hfm
      omega
    rw [List.length_append, List.length_cons, List.length_cons] at hlen
    -- The bytes that are missing before it are fewer than a window's.
    have hat := h before.length t (by simp)
    have ht := hts 0 t rfl
    obtain rfl : before = [] := List.length_eq_zero_iff.mp (by omega)
    have hbehind : InStep (c + 1) behind := by
      intro i a hi
      have := h (i + 1) a (by simpa using hi)
      omega
    have htail : InStep (c + 1) (ts.map some) := by
      intro i a hi
      have := hts (i + 1) a (by simpa using hi)
      omega
    rw [List.length_nil] at hlen
    obtain ⟨bs, rfl⟩ := ih hbehind htail hrest (by omega)
    exact ⟨bs, rfl⟩

/-! ## The law of the upload -/

end rpi_wifi.ether4330.faulty
