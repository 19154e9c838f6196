-- The two registers of the mailbox, with the firmware on their other side: a call of
-- `RPI_PropertyProcess` access by access, and the steps of the firmware between them.
-- The buffer is handed over and comes back once for each call.
import RpiWifi.Mailbox
import RpiWifi.Runs

namespace rpi_wifi.mailbox

open runs

/-! ## The words in the registers -/

def MB0_TAGS_ARM_TO_VC : BitVec 32 := 8

/-- The channel of a message. -/
def channelOf (value : BitVec 32) : BitVec 32 := value &&& 0xF

/-- The word that `RPI_Mailbox0Write` writes. -/
def message (channel value : BitVec 32) : BitVec 32 := (value &&& ~~~0xF) ||| channel

/-- The messages that a mailbox has room for. -/
def MAILBOX_ROOM : Nat := 8

/-! ## The machine -/

/-- Where the caller of `RPI_PropertyProcess` is: not in a call, in the loop of
`RPI_Mailbox0Write`, or in the loop of `RPI_Mailbox0Read` with its `value`. -/
inductive Place where
  | outside
  | writing
  | reading (value : BitVec 32)
  deriving DecidableEq

/-- The two mailboxes, the buffer that both sides use, where the caller is, and the message
that the firmware works on. The lists tell what happened: the buffer at each call, what the
firmware found in it when it took a request and left in it when it replied, and what each
call returned with. -/
structure Exchange where
  buffer : Buffer
  toFirmware : List (BitVec 32)
  toArm : List (BitVec 32)
  place : Place
  held : Option (BitVec 32)
  asked : List Buffer
  found : List (Nat → BitVec 32)
  left : List (Nat → BitVec 32)
  got : List (Buffer × BitVec 32)

/-- What `RPI_PropertyProcess` fills in before it writes to the mailbox. -/
def filled (b : Buffer) : Nat → BitVec 32 :=
  let pt := Function.update b.pt PT_OSIZE (BitVec.ofNat 32 ((b.pt_index + 1) <<< 2))
  Function.update pt PT_OREQUEST_OR_RESPONSE 0

inductive Step where
  -- The caller: it makes the next request, calls, and does its next access to a register.
  | build (b : Buffer)
  | call
  | access
  -- The firmware: it takes a message, writes to the buffer, replies, and sends other mail.
  | take
  | work (j : Nat) (w : BitVec 32)
  | reply
  | other (w : BitVec 32)

/-- One step, with the buffer at `address`. -/
def Exchange.step (address : BitVec 32) (s : Exchange) : Step → Option Exchange
  | .build b => if s.place = .outside then some { s with buffer := b } else none
  | .call =>
    if s.place = .outside then
      some { s with
        buffer := { s.buffer with pt := filled s.buffer }
        place := .writing
        asked := s.asked ++ [s.buffer] }
    else none
  | .access =>
    match s.place with
    | .outside => none
    | .writing =>
      if MAILBOX_ROOM ≤ s.toFirmware.length then some s
      else some { s with
        toFirmware := s.toFirmware ++ [message MB0_TAGS_ARM_TO_VC address]
        place := .reading (-1) }
    | .reading value =>
      if channelOf value = MB0_TAGS_ARM_TO_VC then
        some { s with place := .outside, got := s.got ++ [(s.buffer, value.sshiftRight 4)] }
      else match s.toArm with
        | [] => some s
        | w :: toArm => some { s with toArm, place := .reading w }
  | .take =>
    match s.held, s.toFirmware with
    | none, m :: toFirmware =>
      some { s with toFirmware, held := some m, found := s.found ++ [s.buffer.pt] }
    | _, _ => none
  | .work j w =>
    -- The firmware goes by the address in the message.
    if s.held = some (message MB0_TAGS_ARM_TO_VC address) then
      some { s with buffer := { s.buffer with pt := Function.update s.buffer.pt j w } }
    else none
  | .reply =>
    match s.held with
    | none => none
    | some m =>
      if MAILBOX_ROOM ≤ s.toArm.length then none
      else some { s with held := none, toArm := s.toArm ++ [m], left := s.left ++ [s.buffer.pt] }
  | .other w =>
    if channelOf w = MB0_TAGS_ARM_TO_VC ∨ MAILBOX_ROOM ≤ s.toArm.length then none
    else some { s with toArm := s.toArm ++ [w] }

/-- Before the first call, with mail of other channels in the mailbox. -/
def Exchange.start (b : Buffer) (mail : List (BitVec 32)) : Exchange where
  buffer := b
  toFirmware := []
  toArm := mail
  place := .outside
  held := none
  asked := []
  found := []
  left := []
  got := []

/-! ## The message that is under way -/

variable {address : BitVec 32} {s t : Exchange}

/-- The message of every call. -/
def letter (address : BitVec 32) : BitVec 32 := message MB0_TAGS_ARM_TO_VC address

theorem channelOf_letter (address : BitVec 32) :
    channelOf (letter address) = MB0_TAGS_ARM_TO_VC := by
  have hmask : (~~~0xF &&& 0xF : BitVec 32) = 0 := by decide
  have hchannel : (MB0_TAGS_ARM_TO_VC &&& 0xF : BitVec 32) = MB0_TAGS_ARM_TO_VC := by decide
  unfold channelOf letter message
  rw [BitVec.and_comm, BitVec.and_or_distrib_left, BitVec.and_comm 0xF (address &&& _),
    BitVec.and_assoc, hmask, BitVec.and_comm 0xF, hchannel]
  simp

/-- The mail of the channel of tags. -/
def tagMail (ws : List (BitVec 32)) : List (BitVec 32) :=
  ws.filter fun w => channelOf w = MB0_TAGS_ARM_TO_VC

/-- Each call found the firmware with what it had filled in, and got what the firmware had
left. -/
structure Settled (address : BitVec 32) (asked : List Buffer) (found left : List (Nat → BitVec 32))
    (got : List (Buffer × BitVec 32)) : Prop where
  found : found = asked.map filled
  length : left.length = asked.length
  got : got = List.zipWith (fun b pt => (RPI_PropertyProcess b fun _ => pt,
    (letter address).sshiftRight 4)) asked left

theorem Settled.snoc {asked : List Buffer} {found left : List (Nat → BitVec 32)}
    {got : List (Buffer × BitVec 32)} (h : Settled address asked found left got) (b : Buffer)
    (pt : Nat → BitVec 32) : Settled address (asked ++ [b]) (found ++ [filled b]) (left ++ [pt])
      (got ++ [(RPI_PropertyProcess b fun _ => pt, (letter address).sshiftRight 4)]) := by
  refine ⟨?_, ?_, ?_⟩
  · rw [List.map_append, h.found]
    rfl
  · rw [List.length_append, List.length_append, h.length]
    rfl
  · rw [List.zipWith_append h.length.symm, h.got]
    rfl

/-- How far the last call has come. The letter is on its way to the firmware, or the firmware
has it, or it is on its way back, and the mailbox holds no other of its channel. -/
inductive Phase (address : BitVec 32) (s : Exchange) : Prop
  | outside (hplace : s.place = .outside) (hto : s.toFirmware = []) (hheld : s.held = none)
      (hmail : tagMail s.toArm = []) (h : Settled address s.asked s.found s.left s.got)
  | writing {asked : List Buffer} {b : Buffer} (hplace : s.place = .writing)
      (hto : s.toFirmware = []) (hheld : s.held = none)
      (hmail : tagMail s.toArm = []) (hasked : s.asked = asked ++ [b])
      (hbuffer : s.buffer = { b with pt := filled b })
      (h : Settled address asked s.found s.left s.got)
  | sent {asked : List Buffer} {b : Buffer} {value : BitVec 32} (hplace : s.place = .reading value)
      (hvalue : channelOf value ≠ MB0_TAGS_ARM_TO_VC) (hto : s.toFirmware = [letter address])
      (hheld : s.held = none) (hmail : tagMail s.toArm = []) (hasked : s.asked = asked ++ [b])
      (hbuffer : s.buffer = { b with pt := filled b })
      (h : Settled address asked s.found s.left s.got)
  | held {asked : List Buffer} {found : List (Nat → BitVec 32)} {b : Buffer}
      {value : BitVec 32} (hplace : s.place = .reading value)
      (hvalue : channelOf value ≠ MB0_TAGS_ARM_TO_VC) (hto : s.toFirmware = [])
      (hheld : s.held = some (letter address)) (hmail : tagMail s.toArm = [])
      (hasked : s.asked = asked ++ [b]) (hfound : s.found = found ++ [filled b])
      (hindex : s.buffer.pt_index = b.pt_index) (h : Settled address asked found s.left s.got)
  | replied {asked : List Buffer} {found left : List (Nat → BitVec 32)} {b : Buffer}
      {value : BitVec 32} (hplace : s.place = .reading value)
      (hvalue : channelOf value ≠ MB0_TAGS_ARM_TO_VC) (hto : s.toFirmware = [])
      (hheld : s.held = none) (hmail : tagMail s.toArm = [letter address])
      (hasked : s.asked = asked ++ [b]) (hfound : s.found = found ++ [filled b])
      (hleft : s.left = left ++ [s.buffer.pt]) (hindex : s.buffer.pt_index = b.pt_index)
      (h : Settled address asked found left s.got)
  | read {asked : List Buffer} {found left : List (Nat → BitVec 32)} {b : Buffer}
      (hplace : s.place = .reading (letter address)) (hto : s.toFirmware = [])
      (hheld : s.held = none) (hmail : tagMail s.toArm = []) (hasked : s.asked = asked ++ [b])
      (hfound : s.found = found ++ [filled b]) (hleft : s.left = left ++ [s.buffer.pt])
      (hindex : s.buffer.pt_index = b.pt_index) (h : Settled address asked found left s.got)

/-- Only the caller builds a request, and the firmware has none then. -/
theorem Phase.caller (h : Phase address s) (hplace : s.place = .outside) :
    s.toFirmware = [] ∧ s.held = none ∧ tagMail s.toArm = [] ∧
      Settled address s.asked s.found s.left s.got := by
  cases h with
  | outside _ hto hheld hmail h => exact ⟨hto, hheld, hmail, h⟩
  | writing hplace' | sent hplace' | held hplace' | replied hplace' | read hplace' =>
    rw [hplace] at hplace'
    cases hplace'

theorem Phase.build (h : Phase address s) (hplace : s.place = .outside) (b : Buffer) :
    Phase address { s with buffer := b } := by
  obtain ⟨hto, hheld, hmail, hsettled⟩ := h.caller hplace
  exact .outside hplace hto hheld hmail hsettled

theorem Phase.call (h : Phase address s) (hplace : s.place = .outside) :
    Phase address { s with
      buffer := { s.buffer with pt := filled s.buffer }
      place := .writing
      asked := s.asked ++ [s.buffer] } := by
  obtain ⟨hto, hheld, hmail, hsettled⟩ := h.caller hplace
  exact .writing rfl hto hheld hmail rfl rfl hsettled

theorem tagMail_cons {w : BitVec 32} {ws : List (BitVec 32)} : tagMail (w :: ws) =
    if channelOf w = MB0_TAGS_ARM_TO_VC then w :: tagMail ws else tagMail ws := by
  unfold tagMail
  rw [List.filter_cons]
  simp

/-- The next access of the caller to a register. -/
theorem Phase.access (h : Phase address s) (hs : s.step address .access = some t) :
    Phase address t := by
  unfold Exchange.step at hs
  cases h with
  | outside hplace =>
    rw [hplace] at hs
    cases hs
  | writing hplace hto hheld hmail hasked hbuffer h =>
    rw [hplace, hto] at hs
    cases hs
    have hvalue : channelOf (-1) ≠ MB0_TAGS_ARM_TO_VC := by decide
    exact .sent rfl hvalue rfl hheld hmail hasked hbuffer h
  | sent hplace hvalue hto hheld hmail hasked hbuffer h =>
    simp only [hplace, if_neg hvalue] at hs
    split at hs
    · cases hs
      exact .sent hplace hvalue hto hheld hmail hasked hbuffer h
    · next w toArm harm =>
      cases hs
      rw [harm, tagMail_cons] at hmail
      split at hmail
      · cases hmail
      · next hw => exact .sent rfl hw hto hheld hmail hasked hbuffer h
  | held hplace hvalue hto hheld hmail hasked hfound hindex h =>
    simp only [hplace, if_neg hvalue] at hs
    split at hs
    · cases hs
      exact .held hplace hvalue hto hheld hmail hasked hfound hindex h
    · next w toArm harm =>
      cases hs
      rw [harm, tagMail_cons] at hmail
      split at hmail
      · cases hmail
      · next hw => exact .held rfl hw hto hheld hmail hasked hfound hindex h
  | replied hplace hvalue hto hheld hmail hasked hfound hleft hindex h =>
    simp only [hplace, if_neg hvalue] at hs
    split at hs
    · next harm =>
      rw [harm] at hmail
      cases hmail
    · next w toArm harm =>
      cases hs
      rw [harm, tagMail_cons] at hmail
      split at hmail
      · obtain ⟨hw, hrest⟩ := List.cons.inj hmail
        subst hw
        exact .read rfl hto hheld hrest hasked hfound hleft hindex h
      · next hw => exact .replied rfl hw hto hheld hmail hasked hfound hleft hindex h
  | @read asked found left b hplace hto hheld hmail hasked hfound hleft hindex h =>
    simp only [hplace, if_pos (channelOf_letter address)] at hs
    cases hs
    refine .outside rfl hto hheld hmail ?_
    have hgot : s.buffer = RPI_PropertyProcess b fun _ => s.buffer.pt := by
      rw [RPI_PropertyProcess, ← hindex]
    rw [hasked, hfound, hleft, hgot]
    exact h.snoc b s.buffer.pt

theorem tagMail_snoc {w : BitVec 32} {ws : List (BitVec 32)} : tagMail (ws ++ [w]) =
    tagMail ws ++ if channelOf w = MB0_TAGS_ARM_TO_VC then [w] else [] := by
  unfold tagMail
  rw [List.filter_append, List.filter_cons]
  simp

/-- The firmware takes the letter. -/
theorem Phase.take (h : Phase address s) (hs : s.step address .take = some t) :
    Phase address t := by
  unfold Exchange.step at hs
  cases h with
  | outside _ hto hheld | writing _ hto hheld | replied _ _ hto hheld | read _ hto hheld =>
    rw [hto, hheld] at hs
    cases hs
  | held _ _ hto hheld =>
    rw [hto, hheld] at hs
    cases hs
  | sent hplace hvalue hto hheld hmail hasked hbuffer h =>
    rw [hto, hheld] at hs
    cases hs
    refine .held hplace hvalue rfl rfl hmail hasked ?_ ?_ h
    · rw [hbuffer]
    · rw [hbuffer]

/-- The firmware writes to the buffer while it has the letter. -/
theorem Phase.work (h : Phase address s) (hheld : s.held = some (letter address))
    (pt : Nat → BitVec 32) : Phase address { s with buffer := { s.buffer with pt := pt } } := by
  cases h with
  | outside _ _ hnone | writing _ _ hnone | sent _ _ _ hnone | replied _ _ _ hnone
  | read _ _ hnone =>
    rw [hheld] at hnone
    cases hnone
  | held hplace hvalue hto hheld hmail hasked hfound hindex h =>
    exact .held hplace hvalue hto hheld hmail hasked hfound hindex h

theorem Phase.reply (h : Phase address s) (hs : s.step address .reply = some t) :
    Phase address t := by
  unfold Exchange.step at hs
  cases h with
  | outside _ _ hnone | writing _ _ hnone | sent _ _ _ hnone | replied _ _ _ hnone
  | read _ _ hnone =>
    rw [hnone] at hs
    cases hs
  | held hplace hvalue hto hheld hmail hasked hfound hindex h =>
    simp only [hheld] at hs
    split at hs
    · cases hs
    · cases hs
      refine .replied hplace hvalue hto rfl ?_ hasked hfound rfl hindex h
      rw [tagMail_snoc, hmail, if_pos (channelOf_letter address)]
      rfl

/-- Mail of another channel changes nothing for the channel of tags. -/
theorem Phase.other (h : Phase address s) {w : BitVec 32} (hw : channelOf w ≠ MB0_TAGS_ARM_TO_VC) :
    Phase address { s with toArm := s.toArm ++ [w] } := by
  have hmore : tagMail (s.toArm ++ [w]) = tagMail s.toArm := by
    rw [tagMail_snoc, if_neg hw, List.append_nil]
  cases h with
  | outside hplace hto hheld hmail h =>
    exact .outside hplace hto hheld (hmore.trans hmail) h
  | writing hplace hto hheld hmail hasked hbuffer h =>
    exact .writing hplace hto hheld (hmore.trans hmail) hasked hbuffer h
  | sent hplace hvalue hto hheld hmail hasked hbuffer h =>
    exact .sent hplace hvalue hto hheld (hmore.trans hmail) hasked hbuffer h
  | held hplace hvalue hto hheld hmail hasked hfound hindex h =>
    exact .held hplace hvalue hto hheld (hmore.trans hmail) hasked hfound hindex h
  | replied hplace hvalue hto hheld hmail hasked hfound hleft hindex h =>
    exact .replied hplace hvalue hto hheld (hmore.trans hmail) hasked hfound hleft hindex h
  | read hplace hto hheld hmail hasked hfound hleft hindex h =>
    exact .read hplace hto hheld (hmore.trans hmail) hasked hfound hleft hindex h

theorem Phase.step {a : Step} (h : Phase address s) (hs : s.step address a = some t) :
    Phase address t := by
  cases a with
  | build b =>
    obtain ⟨hplace, heq⟩ := Option.ite_none_right_eq_some.mp hs
    cases heq
    exact h.build hplace b
  | call =>
    obtain ⟨hplace, heq⟩ := Option.ite_none_right_eq_some.mp hs
    cases heq
    exact h.call hplace
  | access => exact h.access hs
  | take => exact h.take hs
  | work j w =>
    obtain ⟨hheld, heq⟩ := Option.ite_none_right_eq_some.mp hs
    cases heq
    exact h.work hheld _
  | reply => exact h.reply hs
  | other w =>
    obtain ⟨hno, heq⟩ := Option.ite_none_left_eq_some.mp hs
    push Not at hno
    cases heq
    exact h.other hno.1

/-! ## The exchange -/

/-- Whatever the steps of the firmware and of the caller are, and whatever mail of other
channels there is: outside of a call the firmware has no request, and every call so far was
`RPI_PropertyProcess` with what the firmware left in the buffer, which had found in it what
the call had filled in. -/
theorem every_call_gets_its_answer (address : BitVec 32) (b : Buffer) (mail : List (BitVec 32))
    (hmail : ∀ w ∈ mail, channelOf w ≠ MB0_TAGS_ARM_TO_VC) (acts : List Step) {s : Exchange}
    (hrun : exec (Exchange.step address) (.start b mail) acts = some s)
    (hplace : s.place = .outside) :
    s.toFirmware = [] ∧ s.held = none ∧ s.found = s.asked.map filled ∧
      s.left.length = s.asked.length ∧
      s.got = List.zipWith (fun b pt => (RPI_PropertyProcess b fun _ => pt,
        (message MB0_TAGS_ARM_TO_VC address).sshiftRight 4)) s.asked s.left := by
  have hnone : tagMail mail = [] := by
    rw [tagMail, List.filter_eq_nil_iff]
    intro w hw
    simpa using hmail w hw
  have hstart : Phase address (.start b mail) := .outside rfl rfl rfl hnone ⟨rfl, rfl, rfl⟩
  have hend : Phase address s :=
    exec_keeps (Phase address) (fun _ _ _ h hs => h.step hs) hstart hrun
  obtain ⟨hto, hheld, -, hsettled⟩ := hend.caller hplace
  exact ⟨hto, hheld, hsettled.found, hsettled.length, hsettled.got⟩

/-- The reply comes behind mail of another channel, which the call reads and drops. -/
theorem a_reply_behind_other_mail :
    ∃ s : Exchange, s.place = .outside ∧ s.left.map (fun pt => pt 5) = [7] ∧
      s.toFirmware = [] ∧ s.held = none ∧ s.found = s.asked.map filled ∧
      s.left.length = s.asked.length ∧
      s.got = List.zipWith (fun b pt => (RPI_PropertyProcess b fun _ => pt,
        (message MB0_TAGS_ARM_TO_VC 0x10000).sshiftRight 4)) s.asked s.left := by
  have hmail : ∀ w ∈ [0x31], channelOf w ≠ MB0_TAGS_ARM_TO_VC := by
    simp only [List.mem_singleton, forall_eq]
    decide
  have hrun : exec (Exchange.step 0x10000) (.start ⟨fun _ => 0, 2⟩ [0x31])
      [.call, .access, .access, .take, .work 5 7, .other 0x42, .reply, .access, .access,
        .access] = some _ := rfl
  exact ⟨_, rfl, rfl, every_call_gets_its_answer _ _ _ hmail _ hrun rfl⟩

end rpi_wifi.mailbox
