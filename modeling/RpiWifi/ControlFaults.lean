-- The null pointers of `etherbcmctl`. `lookupcmd` returns a null entry for a
-- word that it does not know, and `parsecmd` leaves a null pointer in the slot
-- behind the last word. The switch uses both without a look at `argc`.
import RpiWifi.ControlLaws

namespace rpi_wifi.ether4330

open plibc

/-! ## The slots of a command -/

/-- The last argument slot that the case of the command reads. -/
def lastSlot : CM → Nat
  | .debug | .disassoc | .create => 0
  | .wpakey _ => 2
  | .join => 4
  | _ => 1

/-- The line names no command, or it has too few words for its command. -/
def TooShort (f : List CString) : Prop :=
  lookupcmd f = none ∨ ∃ cm ∈ lookupcmd f, f.length ≤ lastSlot cm

/-- The call did not use a null pointer. -/
def NoNull (o : Outcome) : Prop := ∀ why, o = .fault why → why = .badLength

/-- The call uses no null pointer, and a line that is too short makes it return 0. -/
def TotalOn (f : List CString) (o : Outcome) : Prop := NoNull o ∧ (TooShort f → ReturnsZero o)

/-- Each slot that the command reads holds a word, or a word in front of the
missing one does not pass its check. -/
def Complete (ctl : Ctlr) (f : List CString) : Prop :=
  ∃ cm ∈ lookupcmd f, lastSlot cm < f.length ∨ ¬ ArgumentsOk ctl f cm

/-! ## The ways a command ends -/

section Ends

variable {n : Nat} {ctl : Ctlr} {sent : List Request}

theorem noNull_returned {value : Int} {released : Bool} :
    NoNull (.returned value ctl sent released) := by
  intro why h
  cases h

theorem noNull_of_zero {o : Outcome} (h : ReturnsZero o) : NoNull o := by
  obtain ⟨ctl', sent, released, rfl⟩ := h
  exact noNull_returned

theorem noNull_badLength : NoNull (.fault .badLength) := by
  intro why h
  cases h
  rfl

theorem noNull_joinAndReturn (joinstatus : BitVec 32) (bssid : Option (List Byte)) :
    NoNull (joinAndReturn n ctl sent joinstatus bssid) := by
  unfold joinAndReturn
  split
  · intro why h
    cases h
  · exact noNull_returned

theorem noNull_joinIfEssid (joinstatus : BitVec 32) (bssid : Option (List Byte)) :
    NoNull (joinIfEssid n ctl sent joinstatus bssid) := by
  unfold joinIfEssid
  split
  · exact noNull_joinAndReturn joinstatus bssid
  · exact noNull_returned

end Ends

/-! ## Lines with all their words -/

/-- A slot below the number of words holds one of them. -/
theorem slot_some {f : List CString} {k : Nat} (h : k < f.length) : ∃ a, f[k]? = some a :=
  ⟨f[k], List.getElem?_eq_getElem h⟩

theorem noNull_cmJoin (n : Nat) (ctl : Ctlr) {f : List CString} (h : 4 < f.length)
    (stack : List Byte) (joinstatus : BitVec 32) :
    NoNull (cmJoin n ctl f stack joinstatus) := by
  obtain ⟨name, hname⟩ := slot_some (show 1 < f.length by omega)
  obtain ⟨addr, haddr⟩ := slot_some (show 2 < f.length by omega)
  obtain ⟨chan, hchan⟩ := slot_some (show 3 < f.length by omega)
  obtain ⟨a, ha⟩ := slot_some h
  simp only [cmJoin, hname, haddr, hchan, ha]
  split
  · exact noNull_returned
  · split
    · exact noNull_returned
    · split
      · split
        · exact noNull_joinIfEssid joinstatus _
        · split
          · exact noNull_badLength
          · exact noNull_joinIfEssid joinstatus _
      · exact noNull_returned

theorem noNull_withArg {f : List CString} (h : 1 < f.length) {why : Fault} {k : CString → Outcome}
    (hk : ∀ a, NoNull (k a)) : NoNull ((f[1]?).elim (.fault why) k) := by
  obtain ⟨a, ha⟩ := slot_some h
  rw [ha]
  exact hk a

/-- A command with a word in each of its slots uses no null pointer. -/
theorem noNull_of_slots (ctl : Ctlr) {str : CString} {cm : CM}
    (hcm : lookupcmd (parsecmd str) = some cm) (hslots : lastSlot cm < (parsecmd str).length)
    (stack : List Byte) (joinstatus : BitVec 32) :
    NoNull (etherbcmctl ctl str stack joinstatus) := by
  unfold etherbcmctl
  dsimp only
  rw [hcm]
  cases cm with
  | debug => exact noNull_returned
  | disassoc => exact noNull_returned
  | create => exact noNull_returned
  | join => exact noNull_cmJoin _ ctl hslots stack joinstatus
  | wpakey slot =>
    have htwo : 2 < (parsecmd str).length := hslots
    apply noNull_withArg (by omega)
    intro a
    obtain ⟨b, hb⟩ := slot_some htwo
    simp only [hb]
    split
    · exact noNull_returned
    · split
      · exact noNull_returned
      · exact noNull_returned
  | auth =>
    apply noNull_withArg hslots
    intro a
    split
    · exact noNull_badLength
    · exact noNull_joinIfEssid joinstatus none
  | crypt =>
    apply noNull_withArg hslots
    intro a
    split
    · exact noNull_returned
    · exact noNull_joinIfEssid joinstatus none
  | essid =>
    apply noNull_withArg hslots
    intro a
    exact noNull_joinAndReturn joinstatus none
  | channel =>
    apply noNull_withArg hslots
    intro a
    split
    · exact noNull_returned
    · exact noNull_returned
  | key i =>
    apply noNull_withArg hslots
    intro a
    split
    · exact noNull_returned
    · exact noNull_returned
  | escan =>
    apply noNull_withArg hslots
    intro a
    exact noNull_returned
  | country =>
    apply noNull_withArg hslots
    intro a
    exact noNull_returned

/-- A line that names no command uses a null pointer. -/
theorem no_command_faults (ctl : Ctlr) {str : CString} (h : lookupcmd (parsecmd str) = none)
    (stack : List Byte) (joinstatus : BitVec 32) :
    ¬ NoNull (etherbcmctl ctl str stack joinstatus) := by
  intro hno
  have hrun : etherbcmctl ctl str stack joinstatus =
      .fault (if parsecmd str = [] then .nullArgument 0 else .nullEntry) := by
    unfold etherbcmctl
    dsimp only
    rw [h]
  have hwhy := hno _ hrun
  split at hwhy
  · cases hwhy
  · cases hwhy

/-! ## The laws -/

theorem lineOk_of_command {ctl : Ctlr} {f : List CString} {cm : CM} (h : lookupcmd f = some cm) :
    LineOk ctl f ↔ ArgumentsOk ctl f cm := by
  simp [LineOk, h]

/-- A call uses no null pointer and answers a line that is too short with 0 exactly
when the line is complete. -/
theorem a_command_is_total_exactly_when_its_line_is_complete (ctl : Ctlr) (str : CString)
    (stack : List Byte) (joinstatus : BitVec 32) :
    TotalOn (parsecmd str) (etherbcmctl ctl str stack joinstatus) ↔
      Complete ctl (parsecmd str) := by
  rcases hcm : lookupcmd (parsecmd str) with _ | cm
  · -- No command: the null entry is used, and there is no case to be complete for.
    constructor
    · rintro ⟨hno, -⟩
      exact absurd hno (no_command_faults ctl hcm stack joinstatus)
    · rintro ⟨cm, hmem, -⟩
      rw [hcm] at hmem
      cases hmem
  · have hzero := a_bad_argument_returns_zero ctl str stack joinstatus
    rw [lineOk_of_command hcm] at hzero
    constructor
    · rintro ⟨-, hshort⟩
      refine ⟨cm, hcm, ?_⟩
      by_cases hslots : lastSlot cm < (parsecmd str).length
      · exact .inl hslots
      · exact .inr (hzero.mp (hshort (.inr ⟨cm, hcm, Nat.le_of_not_lt hslots⟩)))
    · rintro ⟨cm', hcm', h⟩
      obtain rfl : cm = cm' := Option.some.inj (hcm.symm.trans hcm')
      rcases h with hslots | hbad
      · refine ⟨noNull_of_slots ctl hcm hslots stack joinstatus, ?_⟩
        rintro (hnone | ⟨cm', hcm', hlt⟩)
        · rw [hcm] at hnone
          cases hnone
        · obtain rfl : cm = cm' := Option.some.inj (hcm.symm.trans hcm')
          omega
      · have hz := hzero.mpr hbad
        exact ⟨noNull_of_zero hz, fun _ => hz⟩

/-- A word that is in no table uses the null entry, and a channel with no number
the null slot behind it. -/
theorem short_lines_are_not_answered :
    etherbcmctl bootCtlr (cstr "reboot") [] 0 = .fault .nullEntry ∧
      etherbcmctl bootCtlr (cstr "channel") [] 0 = .fault (.nullArgument 1) ∧
      ¬ TotalOn (parsecmd (cstr "reboot")) (etherbcmctl bootCtlr (cstr "reboot") [] 0) ∧
      ¬ TotalOn (parsecmd (cstr "channel")) (etherbcmctl bootCtlr (cstr "channel") [] 0) := by
  have hunknown : etherbcmctl bootCtlr (cstr "reboot") [] 0 = .fault .nullEntry := by
    have hcm : lookupcmd (parsecmd (cstr "reboot")) = none := by decide +kernel
    have hword : parsecmd (cstr "reboot") ≠ [] := by decide +kernel
    simp only [etherbcmctl, hcm, hword, ↓reduceIte]
  have hmissing : etherbcmctl bootCtlr (cstr "channel") [] 0 = .fault (.nullArgument 1) := by
    have hcm : lookupcmd (parsecmd (cstr "channel")) = some .channel := by decide +kernel
    have hslot : (parsecmd (cstr "channel"))[1]? = none := by decide +kernel
    simp only [etherbcmctl, hcm, hslot, Option.elim_none]
  refine ⟨hunknown, hmissing, ?_, ?_⟩
  · intro h
    cases h.1 _ hunknown
  · intro h
    cases h.1 _ hmissing

end rpi_wifi.ether4330
