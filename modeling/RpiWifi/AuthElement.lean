-- The element of "auth" and "join". `setauth` decodes its argument on the stack and checks
-- it, and each check that fails only prints. The number of decoded bytes goes on as the
-- length of a variable, into a block and into a copy.
import RpiWifi.HexBytes
import RpiWifi.ControlLaws

namespace rpi_wifi.ether4330.element

open plibc

/-! ## `wlcmd` with its lengths -/

/-- The lengths that `wlcmd` hands to `allocb` and to `memmove`, in its order. -/
def wlcmdLengths (write : Bool) (dlen rlen : Int) : List Int :=
  let tlen := if write then dlen + rlen else max dlen rlen
  let len := sizeofSdpcm + sizeofCmd + tlen
  [len] ++ (if 0 < dlen then [dlen] else []) ++ if write then [rlen] else []

/-- What a call of `setauth` has done: the state it leaves, the commands that went out,
the lengths that reached `allocb` and `memmove`, and the errors it printed. After a copy
of a negative length nothing more happens. -/
structure Progress where
  ctl : Ctlr
  sent : List Request
  lengths : List Int
  errors : List String
  faulted : Bool

/-- `wlsetvar`, of the first `len` bytes of `val`. -/
def Progress.wlsetvar (s : Progress) (name : String) (val : Packet) (len : Int) : Progress :=
  if s.faulted then s
  else
    { s with
      lengths := s.lengths ++ wlcmdLengths true (cstr name ++ [0]).length len
      sent := if len < 0 then s.sent else s.sent ++ [ether4330.wlsetvar name (val.take len.toNat)]
      faulted := len < 0 }

def Progress.wlsetint (s : Progress) (name : String) (val : BitVec 32) : Progress :=
  s.wlsetvar name (put4 val) 4

/-! ## `setauth` -/

/-- `uint8_t wpaie[32]`, with what the stack holds there. -/
structure Wpaie where
  bytes : List Byte
  size : bytes.length = 32

/-- The test of the length, in front of "bad wpa ie syntax". -/
def badSyntax (wpaie : List Byte) (i : Int) : Prop := i < 2 ∨ i ≠ (byteAt wpaie 1).toNat + 2

instance (wpaie : List Byte) (i : Int) : Decidable (badSyntax wpaie i) :=
  inferInstanceAs (Decidable (_ ∨ _))

/-- The state behind the checks: the type is set if the first byte names one. -/
def typed (ctl : Ctlr) (wpaie : List Byte) : Ctlr :=
  if byteAt wpaie 0 = 0xdd then { ctl with cryptotype := .Wpa }
  else if byteAt wpaie 0 = 0x30 then { ctl with cryptotype := .Wpa2 }
  else ctl

/-- What the checks print. -/
def errorsOf (wpaie : List Byte) (i : Int) : List String :=
  (if badSyntax wpaie i then ["bad wpa ie syntax \n"] else []) ++
    if byteAt wpaie 0 = 0xdd ∨ byteAt wpaie 0 = 0x30 then [] else ["bad wpa ie \n"]

/-- The last calls of `setauth`, by the type. -/
def Progress.settings (s : Progress) : Progress :=
  if s.ctl.cryptotype = .Wpa then
    (((s.wlsetint "wpa_auth" 6).wlsetint "auth" 0).wlsetint "wsec" 2).wlsetint "wpa_auth" 4
  else
    (((s.wlsetint "wpa_auth" 0xC0).wlsetint "auth" 0).wlsetint "wsec" 4).wlsetint "wpa_auth" 0x80

def setauth (ctl : Ctlr) (wpaie : Wpaie) (a : CString) : Progress :=
  let (wpaie, i) := parsehex wpaie.bytes 32 a
  let s : Progress := ⟨typed ctl wpaie, [], [], errorsOf wpaie i, false⟩
  (s.wlsetvar "wpaie" wpaie i).settings

/-! ## What is asked of an element -/

/-- The decoded bytes pass both checks of `setauth`. -/
def Passes (wpaie : List Byte) (i : Int) : Prop :=
  2 ≤ i ∧ i = (byteAt wpaie 1).toNat + 2 ∧ (byteAt wpaie 0 = 0xdd ∨ byteAt wpaie 0 = 0x30)

/-- An element goes out, and sets the type, only when it passes the checks. Otherwise
nothing is sent and the type stays. No length that is used is negative. -/
structure Validated (ctl : Ctlr) (wpaie : Wpaie) (a : CString) : Prop where
  only : (∃ r ∈ (setauth ctl wpaie a).sent, r.data = cstr "wpaie" ++ [0]) ∨
      (setauth ctl wpaie a).ctl.cryptotype ≠ ctl.cryptotype →
    Passes (parsehex wpaie.bytes 32 a).1 (parsehex wpaie.bytes 32 a).2
  otherwise : ¬ Passes (parsehex wpaie.bytes 32 a).1 (parsehex wpaie.bytes 32 a).2 →
    (setauth ctl wpaie a).sent = [] ∧ (setauth ctl wpaie a).ctl.cryptotype = ctl.cryptotype
  lengths : ∀ n ∈ (setauth ctl wpaie a).lengths, 0 ≤ n

/-- The argument starts with the text of an element: pairs of hexadecimal digits for a tag
that the driver knows, for the number of bytes behind it, and for these bytes. -/
def IsElement (a : CString) : Prop :=
  (hexPrefix 32 a).length % 2 = 0 ∧ ∃ tag len body,
    packHex (hexPrefix 32 a) = tag :: len :: body ∧ len.toNat = body.length ∧
      (tag = 0xdd ∨ tag = 0x30)

variable {ctl : Ctlr} {wpaie : Wpaie} {a : CString} {s : Progress}

/-- The checks of the decoded bytes are a test of the text alone. -/
theorem passes_iff (wpaie : Wpaie) (a : CString) :
    Passes (parsehex wpaie.bytes 32 a).1 (parsehex wpaie.bytes 32 a).2 ↔ IsElement a := by
  rw [parsehex_eq a wpaie.size.ge]
  unfold Passes IsElement
  have hlength := packHex_length (hexPrefix 32 a)
  generalize hexPrefix 32 a = digits at hlength ⊢
  by_cases hodd : digits.length % 2 = 1
  · simp [hodd]
  · rcases hbytes : packHex digits with _ | ⟨tag, _ | ⟨len, body⟩⟩
    · simp only [hbytes, List.length_nil] at hlength
      simp
      omega
    · simp only [hbytes, List.length_singleton] at hlength
      simp
      omega
    · simp only [hbytes, List.length_cons] at hlength
      have hhalf : digits.length / 2 = body.length + 2 := by omega
      have heven : digits.length % 2 = 0 := by omega
      simp [hhalf, heven, byteAt]
      omega

/-! ## The calls of `wlcmd` -/

/-- No copy of a negative length was made, and no negative length was used. -/
structure Sane (s : Progress) : Prop where
  running : s.faulted = false
  lengths : ∀ n ∈ s.lengths, 0 ≤ n

theorem wlcmdLengths_nonneg {dlen rlen : Int} (hd : 0 ≤ dlen) (hr : 0 ≤ rlen) :
    ∀ n ∈ wlcmdLengths true dlen rlen, 0 ≤ n := by
  intro n hn
  simp only [wlcmdLengths, sizeofSdpcm, sizeofCmd] at hn
  split at hn <;> simp at hn <;> omega

theorem sane_wlsetvar (h : Sane s) (name : String) (val : Packet) {len : Int} (hlen : 0 ≤ len) :
    Sane (s.wlsetvar name val len) := by
  have hnot : ¬ len < 0 := by omega
  simp only [Progress.wlsetvar, h.running, Bool.false_eq_true, ↓reduceIte, hnot, decide_false]
  refine ⟨rfl, fun n hn => ?_⟩
  rcases List.mem_append.mp hn with hn | hn
  · exact h.lengths n hn
  · exact wlcmdLengths_nonneg (by omega) hlen n hn

theorem sent_wlsetvar (h : Sane s) (name : String) (val : Packet) {len : Int} (hlen : 0 ≤ len) :
    (s.wlsetvar name val len).sent = s.sent ++ [ether4330.wlsetvar name (val.take len.toNat)] := by
  have hnot : ¬ len < 0 := by omega
  simp [Progress.wlsetvar, h.running, hnot]

theorem sane_wlsetint (h : Sane s) (name : String) (val : BitVec 32) :
    Sane (s.wlsetint name val) := sane_wlsetvar h name (put4 val) (by decide)

theorem sent_wlsetint (h : Sane s) (name : String) (val : BitVec 32) :
    (s.wlsetint name val).sent = s.sent ++ [ether4330.wlsetint name val] :=
  sent_wlsetvar h name (put4 val) (by decide)

@[simp] theorem ctl_wlsetvar (s : Progress) (name : String) (val : Packet) (len : Int) :
    (s.wlsetvar name val len).ctl = s.ctl := by
  unfold Progress.wlsetvar
  split <;> rfl

@[simp] theorem ctl_wlsetint (s : Progress) (name : String) (val : BitVec 32) :
    (s.wlsetint name val).ctl = s.ctl := ctl_wlsetvar s name (put4 val) 4

@[simp] theorem errors_wlsetvar (s : Progress) (name : String) (val : Packet) (len : Int) :
    (s.wlsetvar name val len).errors = s.errors := by
  unfold Progress.wlsetvar
  split <;> rfl

@[simp] theorem errors_wlsetint (s : Progress) (name : String) (val : BitVec 32) :
    (s.wlsetint name val).errors = s.errors := errors_wlsetvar s name (put4 val) 4

/-- After a copy of a negative length nothing is sent. -/
theorem faulted_wlsetint (h : s.faulted = true) (name : String) (val : BitVec 32) :
    s.wlsetint name val = s := by simp [Progress.wlsetint, Progress.wlsetvar, h]

/-! ## What `setauth` does -/

/-- The commands of the last calls. -/
def settingsOf (c : Crypto) : List Request :=
  if c = .Wpa then
    [ether4330.wlsetint "wpa_auth" 6, ether4330.wlsetint "auth" 0, ether4330.wlsetint "wsec" 2,
      ether4330.wlsetint "wpa_auth" 4]
  else
    [ether4330.wlsetint "wpa_auth" 0xC0, ether4330.wlsetint "auth" 0, ether4330.wlsetint "wsec" 4,
      ether4330.wlsetint "wpa_auth" 0x80]

theorem settings_ctl (s : Progress) : s.settings.ctl = s.ctl := by
  unfold Progress.settings
  split <;> simp

theorem settings_errors (s : Progress) : s.settings.errors = s.errors := by
  unfold Progress.settings
  split <;> simp

theorem settings_sent (h : Sane s) :
    Sane s.settings ∧ s.settings.sent = s.sent ++ settingsOf s.ctl.cryptotype := by
  have hfour : ∀ (n₁ n₂ n₃ n₄ : String) (v₁ v₂ v₃ v₄ : BitVec 32),
      Sane ((((s.wlsetint n₁ v₁).wlsetint n₂ v₂).wlsetint n₃ v₃).wlsetint n₄ v₄) ∧
        ((((s.wlsetint n₁ v₁).wlsetint n₂ v₂).wlsetint n₃ v₃).wlsetint n₄ v₄).sent =
          s.sent ++ [ether4330.wlsetint n₁ v₁, ether4330.wlsetint n₂ v₂,
            ether4330.wlsetint n₃ v₃, ether4330.wlsetint n₄ v₄] := by
    intro n₁ n₂ n₃ n₄ v₁ v₂ v₃ v₄
    have h₁ := sane_wlsetint h n₁ v₁
    have h₂ := sane_wlsetint h₁ n₂ v₂
    have h₃ := sane_wlsetint h₂ n₃ v₃
    refine ⟨sane_wlsetint h₃ n₄ v₄, ?_⟩
    simp [sent_wlsetint h, sent_wlsetint h₁, sent_wlsetint h₂, sent_wlsetint h₃]
  unfold Progress.settings settingsOf
  split
  · exact hfour _ _ _ _ _ _ _ _
  · exact hfour _ _ _ _ _ _ _ _

theorem settings_faulted (h : s.faulted = true) : s.settings = s := by
  simp [Progress.settings, faulted_wlsetint h]

theorem setauth_ctl (ctl : Ctlr) (wpaie : Wpaie) (a : CString) :
    (setauth ctl wpaie a).ctl = typed ctl (parsehex wpaie.bytes 32 a).1 := by
  simp [setauth, settings_ctl]

/-- A count that is not negative takes the element and its settings to the chip. -/
theorem setauth_sends (hi : 0 ≤ (parsehex wpaie.bytes 32 a).2) :
    Sane (setauth ctl wpaie a) ∧ (setauth ctl wpaie a).sent =
      ether4330.wlsetvar "wpaie"
          ((parsehex wpaie.bytes 32 a).1.take (parsehex wpaie.bytes 32 a).2.toNat) ::
        settingsOf (typed ctl (parsehex wpaie.bytes 32 a).1).cryptotype := by
  unfold setauth
  generalize parsehex wpaie.bytes 32 a = r at hi ⊢
  rcases r with ⟨bytes, i⟩
  have hstart : Sane ⟨typed ctl bytes, [], [], errorsOf bytes i, false⟩ := ⟨rfl, by simp⟩
  have hset := settings_sent (sane_wlsetvar hstart "wpaie" bytes hi)
  rw [sent_wlsetvar hstart "wpaie" bytes hi, ctl_wlsetvar] at hset
  exact hset

/-- A negative count reaches a copy. -/
theorem setauth_faults (hi : (parsehex wpaie.bytes 32 a).2 < 0) :
    (setauth ctl wpaie a).faulted = true ∧ (parsehex wpaie.bytes 32 a).2 ∈
      (setauth ctl wpaie a).lengths := by
  unfold setauth
  generalize parsehex wpaie.bytes 32 a = r at hi ⊢
  rcases r with ⟨bytes, i⟩
  dsimp only at hi ⊢
  rw [settings_faulted (by simp [Progress.wlsetvar, hi])]
  simp [Progress.wlsetvar, hi, wlcmdLengths]

/-- The two checks find what does not pass. -/
theorem errorsOf_nil (wpaie : List Byte) (i : Int) : errorsOf wpaie i = [] ↔ Passes wpaie i := by
  unfold errorsOf Passes
  rw [List.append_eq_nil_iff, ← and_assoc]
  apply and_congr
  · have hsyntax : ¬ badSyntax wpaie i ↔ 2 ≤ i ∧ i = (byteAt wpaie 1).toNat + 2 := by
      unfold badSyntax
      omega
    rw [← hsyntax]
    by_cases h : badSyntax wpaie i <;> simp [h]
  · by_cases h : byteAt wpaie 0 = 0xdd ∨ byteAt wpaie 0 = 0x30
    · simp only [h, ↓reduceIte]
    · simp only [h, ↓reduceIte, List.cons_ne_nil]

/-- The checks print for every argument that is no element, and for no other. -/
theorem setauth_errors (ctl : Ctlr) (wpaie : Wpaie) (a : CString) :
    (setauth ctl wpaie a).errors = [] ↔ IsElement a := by
  have herrors : (setauth ctl wpaie a).errors =
      errorsOf (parsehex wpaie.bytes 32 a).1 (parsehex wpaie.bytes 32 a).2 := by
    simp [setauth, settings_errors]
  rw [herrors, ← passes_iff wpaie a]
  exact errorsOf_nil _ _

/-! ## The commands -/

theorem headD_byteAt (p : List Byte) : p.headD 0 = byteAt p 0 := by
  cases p <;> rfl

/-- The commands run `setauth` as it is here. -/
theorem setauth_eq (ctl : Ctlr) (wpaie : Wpaie) (a : CString) :
    ether4330.setauth ctl wpaie.bytes a =
      if (setauth ctl wpaie a).faulted then none
      else some ((setauth ctl wpaie a).ctl, (setauth ctl wpaie a).sent) := by
  by_cases hi : 0 ≤ (parsehex wpaie.bytes 32 a).2
  · obtain ⟨hsane, hsent⟩ := @setauth_sends ctl wpaie a hi
    have hnot : ¬ (parsehex wpaie.bytes 32 a).2 < 0 := by omega
    rw [hsane.running, hsent, setauth_ctl, if_neg Bool.false_ne_true]
    simp only [ether4330.setauth, headD_byteAt, hnot, ↓reduceIte]
    rfl
  · have hneg : (parsehex wpaie.bytes 32 a).2 < 0 := by omega
    simp only [ether4330.setauth, hneg, (setauth_faults hneg).1, ↓reduceIte]

/-- "auth" hands its word to `setauth`. -/
theorem auth_runs_setauth {str : CString} (wpaie : Wpaie)
    (hcm : lookupcmd (parsecmd str) = some .auth) (ha : (parsecmd str)[1]? = some a)
    (joinstatus : BitVec 32) :
    etherbcmctl ctl str wpaie.bytes joinstatus =
      if (setauth ctl wpaie a).faulted then .fault .badLength
      else joinIfEssid str.length (setauth ctl wpaie a).ctl (setauth ctl wpaie a).sent
        joinstatus none := by
  simp only [etherbcmctl, hcm, ha, Option.elim_some, setauth_eq]
  by_cases hfault : (setauth ctl wpaie a).faulted = true <;> simp [hfault]

/-- "join" hands its last word to `setauth`, unless the word names a type. -/
theorem join_runs_setauth {str name addr chan : CString} {ea : List Byte} (wpaie : Wpaie)
    (hcm : lookupcmd (parsecmd str) = some .join) (hname : (parsecmd str)[1]? = some name)
    (hset : name ≠ []) (haddr : (parsecmd str)[2]? = some addr) (hea : parseether addr = some ea)
    (hchan : (parsecmd str)[3]? = some chan) (hok : ChannelOk chan)
    (ha : (parsecmd str)[4]? = some a) (hno : cryptNamed a = none) (joinstatus : BitVec 32) :
    ∃ ctl', ctl'.cryptotype = ctl.cryptotype ∧
      etherbcmctl ctl str wpaie.bytes joinstatus =
        if (setauth ctl' wpaie a).faulted then .fault .badLength
        else joinIfEssid str.length (setauth ctl' wpaie a).ctl (setauth ctl' wpaie a).sent
          joinstatus (some ea) := by
  unfold ChannelOk at hok
  refine ⟨{ setEssid ctl name with chanid := atoi chan }, (setEssid_keeps ctl name).2.1, ?_⟩
  simp only [etherbcmctl, hcm, cmJoin, hname, hset, false_and, ↓reduceIte, haddr, hea, hchan, hok,
    and_self, ha, setcrypt, hno, Option.map_none, setauth_eq]
  generalize setauth { setEssid ctl name with chanid := atoi chan } wpaie a = s
  by_cases hfault : s.faulted = true <;> simp [hfault]

/-! ## The law -/

/-- `setauth` validates an argument exactly when it is an element: no check stops it. -/
theorem an_element_is_validated_iff (ctl : Ctlr) (wpaie : Wpaie) (a : CString) :
    Validated ctl wpaie a ↔ IsElement a := by
  rw [← passes_iff wpaie a]
  constructor
  · intro h
    by_contra hbad
    by_cases hi : 0 ≤ (parsehex wpaie.bytes 32 a).2
    · have hnone := (h.otherwise hbad).1
      rw [(setauth_sends hi).2] at hnone
      cases hnone
    · have hneg := h.lengths _ (setauth_faults (by omega)).2
      omega
  · intro hpass
    have hi : 0 ≤ (parsehex wpaie.bytes 32 a).2 := by
      have htwo := hpass.1
      omega
    exact ⟨fun _ => hpass, fun hbad => absurd hpass hbad, (setauth_sends hi).1.lengths⟩

/-- One byte is printed as an error and goes out. -/
theorem a_short_element_is_sent :
    ¬ ∀ (ctl : Ctlr) (wpaie : Wpaie) (a : CString), Validated ctl wpaie a := by
  intro h
  have hvalid := h bootCtlr ⟨List.replicate 32 0, List.length_replicate⟩ (cstr "30")
  have hcount : (parsehex (List.replicate 32 0) 32 (cstr "30")).2 = 1 := by decide +kernel
  have hbad : ¬ Passes (parsehex (List.replicate 32 0) 32 (cstr "30")).1
      (parsehex (List.replicate 32 0) 32 (cstr "30")).2 := by
    rintro ⟨htwo, -⟩
    omega
  have hpos : 0 ≤ (parsehex (List.replicate 32 0) 32 (cstr "30")).2 := by omega
  have hnone := (hvalid.otherwise hbad).1
  rw [(setauth_sends hpos).2] at hnone
  cases hnone

end rpi_wifi.ether4330.element
