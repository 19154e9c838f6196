-- The errors of `etherbcmctl`. Each of its checks leaves the switch with a
-- `return 0` of its own, past the `kernel_deallocate` at the end, so no error
-- gives the Cmdbuf back. What a command has written before the check stays.
import RpiWifi.Control

namespace rpi_wifi.ether4330

open plibc

/-! ## What an error may leave behind -/

/-- The settings of the two states are the same. -/
structure SameSettings (ctl ctl' : Ctlr) : Prop where
  essid : ctl'.essid = ctl.essid
  chanid : ctl'.chanid = ctl.chanid
  cryptotype : ctl'.cryptotype = ctl.cryptotype
  keys : ctl'.keys = ctl.keys
  scansecs : ctl'.scansecs = ctl.scansecs

/-- A call that returns 0 has left the settings as they were and has given the
Cmdbuf back. -/
def AtomicOnError (ctl : Ctlr) (o : Outcome) : Prop :=
  ∀ ctl' sent released, o = .returned 0 ctl' sent released →
    SameSettings ctl ctl' ∧ released = true

/-- The call returns 0. -/
def ReturnsZero (o : Outcome) : Prop := ∃ ctl' sent released, o = .returned 0 ctl' sent released

/-- What every error has in common: the Cmdbuf is still there, the chip was not
asked for anything, and only the name and the first key may have changed. -/
structure Leaves (ctl ctl' : Ctlr) (sent : List Request) (released : Bool) : Prop where
  released : released = false
  sent : sent = []
  chanid : ctl'.chanid = ctl.chanid
  cryptotype : ctl'.cryptotype = ctl.cryptotype
  scansecs : ctl'.scansecs = ctl.scansecs
  status : ctl'.status = ctl.status
  keys : ∀ i, i ≠ 0 → ctl'.keys i = ctl.keys i

def ErrorLeaves (ctl : Ctlr) (o : Outcome) : Prop :=
  ∀ ctl' sent released, o = .returned 0 ctl' sent released → Leaves ctl ctl' sent released

/-- Where every error leaves the Cmdbuf, a call is atomic when it has no error. -/
theorem atomic_when_no_error {ctl : Ctlr} {o : Outcome} (hl : ErrorLeaves ctl o) :
    AtomicOnError ctl o ↔ ¬ ReturnsZero o := by
  constructor
  · rintro h ⟨ctl', sent, released, ho⟩
    have hkept := (hl _ _ _ ho).released
    rw [(h _ _ _ ho).2] at hkept
    cases hkept
  · intro h ctl' sent released ho
    exact absurd ⟨ctl', sent, released, ho⟩ h

/-! ## The ways a command ends -/

section Ends

variable {n : Nat} {ctl ctl' : Ctlr} {sent : List Request}

@[simp] theorem a_fault_returns_nothing (why : Fault) : ¬ ReturnsZero (.fault why) := by
  rintro ⟨_, _, _, h⟩
  cases h

@[simp] theorem a_wait_returns_nothing : ¬ ReturnsZero .waits := by
  rintro ⟨_, _, _, h⟩
  cases h

@[simp] theorem failed_returns_zero : ReturnsZero (failed ctl sent) := ⟨ctl, sent, false, rfl⟩

theorem done_returns_more (hn : 0 < n) : ¬ ReturnsZero (done n ctl sent) := by
  rintro ⟨_, _, _, h⟩
  simp only [done, Outcome.returned.injEq] at h
  omega

theorem joinAndReturn_returns_more (hn : 0 < n) (joinstatus : BitVec 32)
    (bssid : Option (List Byte)) : ¬ ReturnsZero (joinAndReturn n ctl sent joinstatus bssid) := by
  unfold joinAndReturn
  split
  · exact a_wait_returns_nothing
  · exact done_returns_more hn

theorem joinIfEssid_returns_more (hn : 0 < n) (joinstatus : BitVec 32)
    (bssid : Option (List Byte)) : ¬ ReturnsZero (joinIfEssid n ctl sent joinstatus bssid) := by
  unfold joinIfEssid
  split
  · exact joinAndReturn_returns_more hn joinstatus bssid
  · exact done_returns_more hn

theorem leaves_of_no_error {o : Outcome} (h : ¬ ReturnsZero o) : ErrorLeaves ctl o := by
  intro ctl' sent released ho
  exact absurd ⟨ctl', sent, released, ho⟩ h

/-- An error with a state that differs in the name and the first key alone. -/
theorem failed_leaves (hc : ctl'.chanid = ctl.chanid) (ht : ctl'.cryptotype = ctl.cryptotype)
    (hs : ctl'.scansecs = ctl.scansecs) (hu : ctl'.status = ctl.status)
    (hk : ∀ i, i ≠ 0 → ctl'.keys i = ctl.keys i) : ErrorLeaves ctl (failed ctl' []) := by
  intro c sent released ho
  simp only [failed, Outcome.returned.injEq, true_and] at ho
  obtain ⟨rfl, rfl, rfl⟩ := ho
  exact ⟨rfl, rfl, hc, ht, hs, hu, hk⟩

theorem failed_at_once_leaves : ErrorLeaves ctl (failed ctl []) :=
  failed_leaves rfl rfl rfl rfl fun _ _ => rfl

end Ends

/-! ## What the commands ask of their arguments -/

/-- A number of a channel. -/
def ChannelOk (a : CString) : Prop := 0 ≤ atoi a ∧ atoi a ≤ 16

/-- A WEP key: the characters themselves, or two hexadecimal digits for each. -/
def WepKeyOk (a : CString) : Prop :=
  a.length = WMinKeyLen ∨ a.length = WMaxKeyLen ∨
    (a.length = WMinKeyLen * 2 ∨ a.length = WMaxKeyLen * 2) ∧ ∀ c ∈ a, (hexDigit c).isSome

/-- The number of bytes that `parsehex` reads for a key. -/
def keyBytes (a : CString) : Int := (parsehex [] WKeyLen a).2

/-- A WPA key: the method, a key that is not empty, an @ and a number. -/
def WpaKeyOk (a : CString) : Prop :=
  (strncasecmp a (cstr "tkip:") 5 = 0 ∨ strncasecmp a (cstr "ccmp:") 5 = 0) ∧
    0 < keyBytes (a.drop 5) ∧
    ∃ iv, (a.drop 5).drop (2 * (keyBytes (a.drop 5)).toNat) = 64 :: iv ∧
      (strtoull iv 16).2.length ≠ iv.length

/-- The arguments of the command pass its checks. A check that is not reached,
because an argument is missing, does not count. -/
def ArgumentsOk (ctl : Ctlr) (f : List CString) : CM → Prop
  | .channel => ∀ a ∈ f[1]?, ChannelOk a
  | .crypt => ∀ a ∈ f[1]?, (cryptNamed a).isSome
  | .key _ => ∀ a ∈ f[1]?, WepKeyOk a
  | .wpakey _ => ∀ a ∈ f[1]?, (parseether a).isSome ∧ ∀ b ∈ f[2]?, WpaKeyOk b
  | .join => ∀ name ∈ f[1]?, (name ≠ [] ∨ ctl.hasEssid = true) ∧
      ∀ addr ∈ f[2]?, (parseether addr).isSome ∧ ∀ chan ∈ f[3]?, ChannelOk chan
  | _ => True

/-- The line names no command, or its arguments pass the checks of the command. -/
def LineOk (ctl : Ctlr) (f : List CString) : Prop := ∀ cm ∈ lookupcmd f, ArgumentsOk ctl f cm

/-! ## The checks of the code -/

/-- How far `parsehex` reads does not depend on what the buffer holds. -/
theorem readHex_index (buflen : Nat) (a : CString) (buf buf' : List Byte) (i : Nat) :
    (readHex buflen a buf i).2 = (readHex buflen a buf' i).2 := by
  induction a generalizing buf buf' i with
  | nil => rfl
  | cons c cs ih =>
    simp only [readHex]
    split
    · cases hexDigit c with
      | none => rfl
      | some d => exact ih _ _ _
    · rfl

theorem parsehex_length (buf : List Byte) (a : CString) :
    (parsehex buf WKeyLen a).2 = keyBytes a := by
  simp only [keyBytes, parsehex, readHex_index WKeyLen a buf []]

/-- What `wpaparsekey` asks of the characters behind the key. -/
theorem iv_ok (key : WKey) (rest : CString) :
    (match rest with
      | 64 :: a =>
        let (iv, e) := strtoull a 16
        if e.length = a.length then (key, none) else (key, some iv)
      | _ => (key, (none : Option Nat))).2.isSome ↔
    ∃ iv, rest = 64 :: iv ∧ (strtoull iv 16).2.length ≠ iv.length := by
  split
  · rename_i a
    dsimp only
    split
    · rename_i he
      simp [he]
    · rename_i he
      simp [he]
  · rename_i hno
    simp only [Option.isSome_none, Bool.false_eq_true, false_iff, not_exists, not_and]
    intro iv hrest
    exact absurd hrest (hno iv)

theorem wpaparsekey_ok (key : WKey) (a : CString) :
    (wpaparsekey key a).2.isSome ↔ WpaKeyOk a := by
  unfold wpaparsekey WpaKeyOk
  by_cases hm : strncasecmp a (cstr "tkip:") 5 = 0 ∨ strncasecmp a (cstr "ccmp:") 5 = 0
  · simp only [hm, ↓reduceIte, parsehex_length, true_and]
    by_cases hlen : keyBytes (a.drop 5) ≤ 0
    · simp only [hlen, ↓reduceIte, Option.isSome_none, Bool.false_eq_true, false_iff]
      omega
    · have hpos : 0 < keyBytes (a.drop 5) := by omega
      simp only [hlen, ↓reduceIte, hpos, true_and]
      exact iv_ok _ _
  · simp only [hm, ↓reduceIte, Option.isSome_none, Bool.false_eq_true, false_and]

theorem hexBytes_ok (a : CString) (heven : a.length % 2 = 0) :
    (hexBytes a).isSome ↔ ∀ c ∈ a, (hexDigit c).isSome := by
  fun_induction hexBytes a with
  | case1 => simp
  | case2 x y cs ih =>
    have hcs : cs.length % 2 = 0 := by
      simp only [List.length_cons] at heven
      omega
    simp only [List.mem_cons, forall_eq_or_imp, ← ih hcs]
    cases hexDigit x with
    | none => simp
    | some p =>
      cases hexDigit y with
      | none => simp
      | some q => cases hexBytes cs <;> simp
  | case3 c => simp at heven

theorem wepparsekey_ok (a : CString) : (wepparsekey a).isSome ↔ WepKeyOk a := by
  unfold wepparsekey WepKeyOk
  dsimp only
  split
  · rename_i hplain
    simp only [Option.isSome_some, true_iff]
    rcases hplain with h | h
    · exact .inl h
    · exact .inr (.inl h)
  · rename_i hplain
    rw [not_or] at hplain
    split
    · rename_i hhex
      have heven : a.length % 2 = 0 := by
        simp only [WMinKeyLen, WMaxKeyLen] at hhex
        omega
      simp only [Option.isSome_map, hexBytes_ok a heven, hplain, hhex, false_or, true_and]
    · rename_i hhex
      simp [hplain, hhex]

/-! ## The laws -/

/-- Only a line that is not empty names a command. -/
theorem a_command_has_a_line {str : CString} {cm : CM} (h : lookupcmd (parsecmd str) = some cm) :
    0 < str.length := by
  cases str with
  | nil => simp [parsecmd, tokens, strtok_r, lookupcmd] at h
  | cons c cs => simp

/-- A command that needs an argument faults without one. -/
theorem withArg_returns_zero (arg : Option CString) (why : Fault) (k : CString → Outcome) :
    ReturnsZero (arg.elim (.fault why) k) ↔ ∃ a ∈ arg, ReturnsZero (k a) := by
  cases arg with
  | none => simp
  | some a => simp

theorem withArg_leaves {ctl : Ctlr} (arg : Option CString) (why : Fault) (k : CString → Outcome)
    (h : ∀ a, ErrorLeaves ctl (k a)) : ErrorLeaves ctl (arg.elim (.fault why) k) := by
  cases arg with
  | none => exact leaves_of_no_error (a_fault_returns_nothing _)
  | some a => exact h a

theorem setEssid_keeps (ctl : Ctlr) (a : CString) :
    (setEssid ctl a).chanid = ctl.chanid ∧ (setEssid ctl a).cryptotype = ctl.cryptotype ∧
      (setEssid ctl a).scansecs = ctl.scansecs ∧ (setEssid ctl a).status = ctl.status ∧
      (setEssid ctl a).keys = ctl.keys := by
  unfold setEssid
  split
  · exact ⟨rfl, rfl, rfl, rfl, rfl⟩
  · exact ⟨rfl, rfl, rfl, rfl, rfl⟩

section Commands

variable {n : Nat} (hn : 0 < n) (ctl : Ctlr) (f : List CString) (stack : List Byte)
  (joinstatus : BitVec 32)

include hn

/-- The last part of CMjoin, from the encryption on, has no error. -/
theorem join_with_crypt_returns_more (c : Ctlr) (a : CString) (ea : List Byte) :
    ¬ ReturnsZero
      (match setcrypt c a with
        | some (c, sent) => joinIfEssid n c sent joinstatus (some ea)
        | none =>
          match setauth c stack a with
          | none => .fault .badLength
          | some (c, sent) => joinIfEssid n c sent joinstatus (some ea)) := by
  split
  · exact joinIfEssid_returns_more hn joinstatus (some ea)
  · split
    · exact a_fault_returns_nothing _
    · exact joinIfEssid_returns_more hn joinstatus (some ea)

theorem cmJoin_returns_zero :
    ReturnsZero (cmJoin n ctl f stack joinstatus) ↔ ¬ ArgumentsOk ctl f .join := by
  unfold cmJoin ArgumentsOk
  cases f[1]? with
  | none => simp
  | some name =>
    by_cases hname : name = [] ∧ ctl.hasEssid = false
    · simp [hname]
    · have hset : name ≠ [] ∨ ctl.hasEssid = true := by
        rw [not_and_or, Bool.not_eq_false] at hname
        exact hname
      simp only [hname, ↓reduceIte, Option.mem_def, Option.some.injEq, forall_eq', hset, true_and]
      cases f[2]? with
      | none => simp
      | some addr =>
        cases hea : parseether addr with
        | none => simp [hea]
        | some ea =>
          cases f[3]? with
          | none => simp [hea]
          | some chan =>
            simp only [Option.some.injEq, forall_eq', hea, Option.isSome_some, true_and]
            by_cases hchan : 0 ≤ atoi chan ∧ atoi chan ≤ 16
            · simp only [hchan, and_self, ↓reduceIte, ChannelOk, not_true_eq_false, iff_false]
              cases f[4]? with
              | none => exact a_fault_returns_nothing _
              | some a => exact join_with_crypt_returns_more hn stack joinstatus _ a ea
            · simp only [hchan, ↓reduceIte, ChannelOk, failed_returns_zero, not_false_eq_true]

theorem cmJoin_leaves : ErrorLeaves ctl (cmJoin n ctl f stack joinstatus) := by
  unfold cmJoin
  split
  · exact leaves_of_no_error (a_fault_returns_nothing _)
  · rename_i name _
    split
    · exact failed_at_once_leaves
    · -- The name is written, if there is one, before the rest is checked.
      have hbad : ErrorLeaves ctl (failed (if name = [] then ctl else setEssid ctl name) []) := by
        obtain ⟨hc, ht, hs, hu, hk⟩ := setEssid_keeps ctl name
        split
        · exact failed_at_once_leaves
        · exact failed_leaves hc ht hs hu fun i _ => congrFun hk i
      dsimp only
      split
      · exact leaves_of_no_error (a_fault_returns_nothing _)
      · split
        · exact hbad
        · split
          · exact leaves_of_no_error (a_fault_returns_nothing _)
          · split
            · split
              · exact leaves_of_no_error (a_fault_returns_nothing _)
              · exact leaves_of_no_error
                  (join_with_crypt_returns_more hn stack joinstatus _ _ _)
            · exact hbad

end Commands

/-- A call returns 0 exactly when an argument of its command does not pass. -/
theorem a_bad_argument_returns_zero (ctl : Ctlr) (str : CString) (stack : List Byte)
    (joinstatus : BitVec 32) :
    ReturnsZero (etherbcmctl ctl str stack joinstatus) ↔ ¬ LineOk ctl (parsecmd str) := by
  unfold etherbcmctl LineOk
  dsimp only
  cases hcm : lookupcmd (parsecmd str) with
  | none => simp
  | some cm =>
    have hn := a_command_has_a_line hcm
    simp only [Option.mem_def, Option.some.injEq, forall_eq']
    cases cm with
    | channel =>
      simp only [withArg_returns_zero, ArgumentsOk, not_forall, exists_prop]
      refine exists_congr fun a => and_congr_right fun _ => ?_
      unfold ChannelOk
      split
      · simp only [failed_returns_zero, true_iff]
        omega
      · simp only [done_returns_more hn, false_iff]
        omega
    | crypt =>
      simp only [withArg_returns_zero, ArgumentsOk, not_forall, exists_prop]
      refine exists_congr fun a => and_congr_right fun _ => ?_
      unfold setcrypt
      cases cryptNamed a with
      | none => simp
      | some c => simp [joinIfEssid_returns_more hn]
    | key i =>
      simp only [withArg_returns_zero, ArgumentsOk, not_forall, exists_prop]
      refine exists_congr fun a => and_congr_right fun _ => ?_
      rw [← wepparsekey_ok]
      cases wepparsekey a with
      | none => simp
      | some key => simp [done_returns_more hn]
    | wpakey slot =>
      simp only [withArg_returns_zero, ArgumentsOk, not_forall, exists_prop]
      refine exists_congr fun a => and_congr_right fun _ => ?_
      cases parseether a with
      | none => simp
      | some ea =>
        cases (parsecmd str)[2]? with
        | none => simp
        | some b =>
          have hok := wpaparsekey_ok (ctl.keys 0) b
          cases hiv : (wpaparsekey (ctl.keys 0) b).2 with
          | none => simp [← hok, hiv]
          | some iv => simp [← hok, hiv, done_returns_more hn]
    | join => exact cmJoin_returns_zero hn ctl _ stack joinstatus
    | auth =>
      simp only [withArg_returns_zero, ArgumentsOk, not_true_eq_false, iff_false]
      rintro ⟨a, _, ha⟩
      revert ha
      cases setauth ctl stack a with
      | none => exact a_fault_returns_nothing _
      | some r => exact joinIfEssid_returns_more hn joinstatus none
    | essid =>
      simp only [withArg_returns_zero, ArgumentsOk, not_true_eq_false, iff_false]
      rintro ⟨a, _, ha⟩
      exact joinAndReturn_returns_more hn joinstatus none ha
    | escan => simp [withArg_returns_zero, ArgumentsOk, done_returns_more hn]
    | country => simp [withArg_returns_zero, ArgumentsOk, done_returns_more hn]
    | debug => simp [ArgumentsOk, done_returns_more hn]
    | disassoc => simp [ArgumentsOk, done_returns_more hn]
    | create => simp [ArgumentsOk, done_returns_more hn]

/-- Every error leaves the Cmdbuf, and everything but the name and the first key
as it was. -/
theorem an_error_leaves_the_buffer (ctl : Ctlr) (str : CString) (stack : List Byte)
    (joinstatus : BitVec 32) : ErrorLeaves ctl (etherbcmctl ctl str stack joinstatus) := by
  by_cases hok : LineOk ctl (parsecmd str)
  · apply leaves_of_no_error
    rw [a_bad_argument_returns_zero]
    exact not_not_intro hok
  · unfold etherbcmctl
    unfold LineOk at hok
    dsimp only
    cases hcm : lookupcmd (parsecmd str) with
    | none => exact leaves_of_no_error (a_fault_returns_nothing _)
    | some cm =>
      have hn := a_command_has_a_line hcm
      simp only [hcm, Option.mem_def, Option.some.injEq, forall_eq'] at hok
      cases cm with
      | channel =>
        apply withArg_leaves
        intro a
        split
        · exact failed_at_once_leaves
        · exact leaves_of_no_error (done_returns_more hn)
      | crypt =>
        apply withArg_leaves
        intro a
        split
        · exact failed_at_once_leaves
        · exact leaves_of_no_error (joinIfEssid_returns_more hn joinstatus none)
      | key i =>
        apply withArg_leaves
        intro a
        split
        · exact failed_at_once_leaves
        · exact leaves_of_no_error (done_returns_more hn)
      | wpakey slot =>
        apply withArg_leaves
        intro a
        split
        · exact failed_at_once_leaves
        · split
          · exact leaves_of_no_error (a_fault_returns_nothing _)
          · split
            · exact failed_leaves rfl rfl rfl rfl fun i hi => Function.update_of_ne hi _ _
            · exact leaves_of_no_error (done_returns_more hn)
      | join => exact cmJoin_leaves hn ctl _ stack joinstatus
      | _ => exact absurd trivial hok

/-- A command is atomic on errors exactly when it has none: no argument fails a
check of the command. -/
theorem a_command_is_atomic_exactly_when_its_arguments_pass (ctl : Ctlr) (str : CString)
    (stack : List Byte) (joinstatus : BitVec 32) :
    AtomicOnError ctl (etherbcmctl ctl str stack joinstatus) ↔ LineOk ctl (parsecmd str) := by
  rw [atomic_when_no_error (an_error_leaves_the_buffer ctl str stack joinstatus),
    a_bad_argument_returns_zero, not_not]

/-! ## What stays behind -/

/-- A join with a bad address keeps the new name. -/
theorem a_bad_address_keeps_the_name {ctl : Ctlr} {str : CString} (name addr : CString)
    (hcm : lookupcmd (parsecmd str) = some .join) (hname : (parsecmd str)[1]? = some name)
    (hset : name ≠ []) (haddr : (parsecmd str)[2]? = some addr) (hbad : parseether addr = none)
    (stack : List Byte) (joinstatus : BitVec 32) :
    etherbcmctl ctl str stack joinstatus = failed (setEssid ctl name) [] := by
  simp only [etherbcmctl, hcm, cmJoin, hname, hset, false_and, ↓reduceIte, haddr, hbad]

/-- A WPA key that does not pass leaves in the first key what was read of it. -/
theorem a_bad_key_keeps_the_bytes {ctl : Ctlr} {str : CString} {slot : KeySlot} {a b : CString}
    {ea : List Byte} (hcm : lookupcmd (parsecmd str) = some (.wpakey slot))
    (hea : (parsecmd str)[1]? = some a) (hgood : parseether a = some ea)
    (hkey : (parsecmd str)[2]? = some b) (hbad : ¬ WpaKeyOk b)
    (stack : List Byte) (joinstatus : BitVec 32) :
    etherbcmctl ctl str stack joinstatus =
      failed { ctl with keys := Function.update ctl.keys 0 (wpaparsekey (ctl.keys 0) b).1 } [] := by
  have hiv : (wpaparsekey (ctl.keys 0) b).2 = none := by
    rw [← wpaparsekey_ok (ctl.keys 0), Option.not_isSome_iff_eq_none] at hbad
    exact hbad
  simp only [etherbcmctl, hcm, hea, Option.elim_some, hgood, hkey, hiv]

/-- The `Ctlr` that `etherbcmpnp` makes. -/
def bootCtlr : Ctlr where
  essid := List.replicate 33 0
  chanid := 0
  cryptotype := .off
  keys := fun _ => ⟨0, List.replicate WKeyLen 0⟩
  scansecs := 0
  status := .Disconnected

/-- A join with "zz" for the address: the name of the network is the new one, and
the Cmdbuf is lost. -/
theorem a_failed_join_is_not_undone :
    (∃ ctl', etherbcmctl bootCtlr (cstr "join net zz 1 off") [] 0 = .returned 0 ctl' [] false ∧
      ctl'.essid ≠ bootCtlr.essid) ∧
    ¬ AtomicOnError bootCtlr (etherbcmctl bootCtlr (cstr "join net zz 1 off") [] 0) := by
  have hrun : etherbcmctl bootCtlr (cstr "join net zz 1 off") [] 0 =
      failed (setEssid bootCtlr (cstr "net")) [] := by
    apply a_bad_address_keeps_the_name (cstr "net") (cstr "zz")
    all_goals decide +kernel
  have hnew : (setEssid bootCtlr (cstr "net")).essid ≠ bootCtlr.essid := by decide +kernel
  refine ⟨⟨_, hrun, hnew⟩, ?_⟩
  intro hatomic
  exact hnew (hatomic _ _ _ hrun).1.essid

end rpi_wifi.ether4330
