-- The law of the loading: each failure is printed, and the next step is taken. So
-- the core is let go without its firmware, and a chip that is not known is looked
-- for behind the end of the table.
import RpiWifi.Firmware
import RpiWifi.BackplaneLaws

namespace rpi_wifi.ether4330

open plibc

variable {answer : Answer}

/-! ## The loading -/

/-- The entry is for the chip that was found. -/
def Loader.isFor (ctl : Loader) (e : Firmware) : Bool :=
  e.chipid == ctl.chipid && e.chiprev == ctl.chiprev

theorem isFor_iff (ctl : Loader) (e : Firmware) :
    ctl.isFor e = true ↔ ¬ (e.chipid ≠ ctl.chipid ∨ e.chiprev ≠ ctl.chiprev) := by
  simp [Loader.isFor]

/-- A search that finds an entry reads the table only. -/
theorem searchTable_some (ctl : Loader) (i : Nat) {table : List Firmware} {e : Firmware}
    (h : table.find? ctl.isFor = some e) :
    (searchTable ctl i table).2 = some e ∧
      ∀ d ∈ (searchTable ctl i table).1, ∃ j < i + table.length, d = .entry j := by
  induction table generalizing i with
  | nil => cases h
  | cons e' rest ih =>
    unfold searchTable
    by_cases hfor : ctl.isFor e' = true
    · rw [List.find?_cons_of_pos hfor] at h
      rw [if_neg ((isFor_iff ctl e').mp hfor)]
      refine ⟨h, ?_⟩
      intro d hd
      exact ⟨i, by simp, List.mem_singleton.mp hd⟩
    · rw [List.find?_cons_of_neg hfor] at h
      rw [if_pos (not_not.mp (mt (isFor_iff ctl e').mpr hfor))]
      obtain ⟨hfound, hread⟩ := ih (i + 1) h
      refine ⟨hfound, ?_⟩
      intro d hd
      rcases List.mem_cons.mp hd with rfl | hd
      · exact ⟨i, by simp, rfl⟩
      · obtain ⟨j, hj, rfl⟩ := hread d hd
        refine ⟨j, ?_, rfl⟩
        rw [List.length_cons]
        omega

/-- A search that finds nothing reads the entry behind the last one. -/
theorem searchTable_none (ctl : Loader) (i : Nat) {table : List Firmware}
    (h : table.find? ctl.isFor = none) :
    (searchTable ctl i table).2 = none ∧
      .entry (i + table.length) ∈ (searchTable ctl i table).1 := by
  induction table generalizing i with
  | nil => exact ⟨rfl, List.mem_singleton.mpr rfl⟩
  | cons e' rest ih =>
    have hne : ¬ ctl.isFor e' = true := List.find?_eq_none.mp h e' List.mem_cons_self
    rw [List.find?_cons_of_neg hne] at h
    unfold searchTable
    rw [if_pos (not_not.mp (mt (isFor_iff ctl e').mpr hne))]
    obtain ⟨hnone, hread⟩ := ih (i + 1) h
    refine ⟨hnone, List.mem_cons_of_mem _ ?_⟩
    have hlen : i + (e' :: rest).length = i + 1 + rest.length := by
      rw [List.length_cons]
      omega
    rw [hlen]
    exact hread

/-- The core is let go, or the token is written that lets it find the settings. -/
def Deed.lets : Deed → Bool
  | .token _ => true
  | .sbreset _ _ => true
  | _ => false

/-- No entry behind the table is read, and the token is written and the core let go
only for a chip in the table and after two uploads that succeeded. -/
structure FailsClosed (ctl : Loader) (deeds : List Deed) : Prop where
  within : ∀ i, .entry i ∈ deeds → i < firmware.length
  closed : ∀ d ∈ deeds, d.lets = true →
    (∃ e ∈ firmware, ctl.isFor e = true) ∧
      ∃ a b, .uploaded false a ∈ deeds ∧ .uploaded true b ∈ deeds ∧ 0 ≤ a ∧ 0 ≤ b

/-- The outcomes of the two uploads of `fwload`. -/
def outcomes (answer : Answer) (up : Loader → CString → Bool → Loader × Int) (ctl : Loader)
    (e : Firmware) : Int × Int :=
  let fw := up (prepare answer ctl e) (cstr e.fwfile) false
  (fw.2, (up fw.1 (cstr e.cfgfile) true).2)

/-- The token is written and the core let go, whatever the uploads return. -/
theorem loadEntry_deeds (up : Loader → CString → Bool → Loader × Int) (ctl : Loader)
    (e : Firmware) :
    ∃ n regs pre, (loadEntry answer up ctl e).2 =
      [.uploaded false (outcomes answer up ctl e).1, .uploaded true (outcomes answer up ctl e).2,
        .token n, .sbreset regs pre] := by
  unfold loadEntry outcomes
  exact ⟨_, _, _, rfl⟩

theorem deeds_of_found (up : Loader → CString → Bool → Loader × Int) (ctl : Loader)
    {e : Firmware} (h : firmware.find? ctl.isFor = some e) :
    (fwload answer up ctl).2 = (searchTable ctl 0 firmware).1 ++ (loadEntry answer up ctl e).2 := by
  obtain ⟨hfound, -⟩ := searchTable_some ctl 0 h
  unfold fwload
  dsimp only
  rw [hfound]

theorem deeds_of_missing (up : Loader → CString → Bool → Loader × Int) (ctl : Loader)
    (h : firmware.find? ctl.isFor = none) :
    .entry firmware.length ∈ (fwload answer up ctl).2 := by
  obtain ⟨hnone, hread⟩ := searchTable_none ctl 0 h
  rw [Nat.zero_add] at hread
  unfold fwload
  dsimp only
  rw [hnone]
  exact hread

/-- The uploads of a loading are the two of the entry: the search uploads nothing. -/
theorem uploaded_of_found (up : Loader → CString → Bool → Loader × Int) (ctl : Loader)
    {e : Firmware} (h : firmware.find? ctl.isFor = some e) {config : Bool} {r : Int}
    (hr : .uploaded config r ∈ (fwload answer up ctl).2) :
    r = if config then (outcomes answer up ctl e).2 else (outcomes answer up ctl e).1 := by
  obtain ⟨n, regs, pre, hentry⟩ := @loadEntry_deeds answer up ctl e
  obtain ⟨-, hread⟩ := searchTable_some ctl 0 h
  rw [deeds_of_found up ctl h, hentry] at hr
  rcases List.mem_append.mp hr with hr | hr
  · obtain ⟨j, -, hj⟩ := hread _ hr
    cases hj
  · cases config
    · simpa using hr
    · simpa using hr

/-- The loading fails closed exactly when the chip is in the table and both uploads
succeed, so that nothing fails. -/
theorem the_loading_fails_closed_iff (answer : Answer)
    (up : Loader → CString → Bool → Loader × Int) (ctl : Loader) :
    FailsClosed ctl (fwload answer up ctl).2 ↔
      ∃ e, firmware.find? ctl.isFor = some e ∧
        0 ≤ (outcomes answer up ctl e).1 ∧ 0 ≤ (outcomes answer up ctl e).2 := by
  rcases hfind : firmware.find? ctl.isFor with _ | e
  · constructor
    · rintro ⟨hwithin, -⟩
      exact absurd (hwithin _ (deeds_of_missing up ctl hfind)) (lt_irrefl _)
    · rintro ⟨e, he, -⟩
      cases he
  · have hdeeds := @deeds_of_found answer up ctl e hfind
    obtain ⟨n, regs, pre, hentry⟩ := @loadEntry_deeds answer up ctl e
    rw [hentry] at hdeeds
    obtain ⟨-, hread⟩ := searchTable_some ctl 0 hfind
    rw [Nat.zero_add] at hread
    constructor
    · rintro ⟨-, hclosed⟩
      obtain ⟨-, a, b, ha, hb, ha0, hb0⟩ := hclosed (.token n) (by simp [hdeeds]) rfl
      obtain rfl := uploaded_of_found up ctl hfind ha
      obtain rfl := uploaded_of_found up ctl hfind hb
      exact ⟨e, rfl, ha0, hb0⟩
    · rintro ⟨e', he', ha0, hb0⟩
      cases he'
      refine ⟨?_, ?_⟩
      · intro i hi
        rw [hdeeds] at hi
        rcases List.mem_append.mp hi with hi | hi
        · obtain ⟨j, hj, heq⟩ := hread _ hi
          cases heq
          exact hj
        · simp at hi
      · intro d hd hlets
        refine ⟨⟨e, List.mem_of_find?_eq_some hfind, List.find?_some hfind⟩, _, _, ?_, ?_, ha0,
          hb0⟩
        · rw [hdeeds]
          simp
        · rw [hdeeds]
          simp

/-- A chip of the kind, with the loader in front of it. -/
def loaderOf (chipid chiprev : BitVec 32) : Loader :=
  ⟨blankChip, chipid, chiprev, 0, 0x18002000, 0, 0, 0x80000, [0, 0, 0, 0], none⟩

def emptyFile : FileInfo := ⟨[], by decide⟩

/-- Without memory for the buffer nothing is uploaded. -/
theorem upload_without_memory (files : Files) (cbuf : Buf) (ctl : Loader) (file : CString)
    (isconfig : Bool) : upload answer files none cbuf ctl file isconfig = (ctl, -1) := by
  unfold upload
  rcases findfirmware files file with _ | f <;> rfl

/-- A chip of an unknown revision is searched for behind the table, and the core of a
known one is let go after two uploads that found no memory. -/
theorem the_loading_does_not_fail_closed :
    .entry 6 ∈ (fwload honest (upload honest ⟨emptyFile, emptyFile⟩ none (fun _ => 0))
      (loaderOf 0x4330 9)).2 ∧
    ¬ FailsClosed (loaderOf 0x4330 9) (fwload honest
      (upload honest ⟨emptyFile, emptyFile⟩ none (fun _ => 0)) (loaderOf 0x4330 9)).2 ∧
    (∃ n regs pre, (fwload honest (upload honest ⟨emptyFile, emptyFile⟩ none (fun _ => 0))
        (loaderOf 43430 1)).2 = (searchTable (loaderOf 43430 1) 0 firmware).1 ++
      [Deed.uploaded false (-1), Deed.uploaded true (-1), Deed.token n, Deed.sbreset regs pre]) ∧
    ¬ FailsClosed (loaderOf 43430 1) (fwload honest
      (upload honest ⟨emptyFile, emptyFile⟩ none (fun _ => 0)) (loaderOf 43430 1)).2 := by
  have hpast : .entry 6 ∈ (fwload honest (upload honest ⟨emptyFile, emptyFile⟩ none (fun _ => 0))
      (loaderOf 0x4330 9)).2 := deeds_of_missing _ _ (by decide)
  obtain ⟨e, he⟩ : ∃ e, firmware.find? (loaderOf 43430 1).isFor = some e := ⟨_, rfl⟩
  have hsearch : (searchTable (loaderOf 43430 1) 0 firmware).1 =
      [.entry 0, .entry 1, .entry 2, .entry 3, .entry 4] := rfl
  have hdone := @deeds_of_found honest (upload honest ⟨emptyFile, emptyFile⟩ none (fun _ => 0))
    (loaderOf 43430 1) e he
  obtain ⟨n, regs, pre, hentry⟩ := @loadEntry_deeds honest
    (upload honest ⟨emptyFile, emptyFile⟩ none (fun _ => 0)) (loaderOf 43430 1) e
  rw [hentry] at hdone
  simp only [outcomes, upload_without_memory] at hdone
  refine ⟨hpast, ?_, ⟨n, regs, pre, hdone⟩, ?_⟩
  · rintro ⟨hwithin, -⟩
    exact absurd (hwithin 6 hpast) (by decide)
  · rw [hdone, hsearch]
    rintro ⟨-, hclosed⟩
    obtain ⟨-, a, b, ha, hb, ha0, hb0⟩ := hclosed (.token n) (by simp) rfl
    have : a = -1 := by simpa using ha
    omega

end rpi_wifi.ether4330
