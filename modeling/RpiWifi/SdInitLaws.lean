-- `use_sdhost` brings up every card that powers up in time: it leaves the card selected, with
-- blocks of 512 bytes, and knows the address that the card has taken and how its blocks are
-- addressed. On the registers it does what it does with the answers of the card.
import RpiWifi.SdInit
import RpiWifi.SdReads

namespace rpi_wifi.sdcard

open conversations dialogues sdhost

variable {card : Card} {choice : Choice} {s s' : Status} {idx rt arg t : Word}
  {response : Response}

/-! ## A call of `send` -/

/-- A program that begins with a command that the card answers like this. -/
theorem ends_send {β : Type} {f : Int × Response → Sending β} {b : β}
    {answer : Choice → Option (List Word)} {next : Choice → Status}
    (h : Ends card.Answers s (send idx arg rt response >>= f) b s')
    (hreact : ∀ choice, card.react choice s ⟨idx, rt, arg⟩ = (answer choice, next choice)) :
    ∃ choice,
      Ends card.Answers (next choice)
        (f ((hears rt (answer choice)).1, respond response (hears rt (answer choice)).2)) b s' := by
  obtain ⟨_, s₁, hsend, hf⟩ := ends_bind.mp h
  obtain ⟨_, s₂, ⟨choice, rfl, rfl⟩, hret⟩ := ends_question_bind.mp hsend
  obtain ⟨rfl, rfl⟩ := ends_pure.mp hret
  refine ⟨choice, ?_⟩
  rw [hreact choice] at hf
  exact hf

/-! ## The answers of the card -/

theorem react_go_idle (h : s.state ≠ .inactive) :
    card.react choice s ⟨MMC_CMD_GO_IDLE_STATE, rt, arg⟩ = (none, .reset) := by
  obtain ⟨state, _, _, _, _, _⟩ := s
  cases state
  case inactive => exact absurd rfl h
  all_goals rfl

theorem react_if_cond (h : s.state = .idle) :
    card.react choice s ⟨SD_CMD_SEND_IF_COND, rt, arg⟩ =
      if card.version2 = true ∧ arg.extractLsb' 8 4 = 1 then
        (some [arg &&& 0xfff], { s with app := false, ifCond := true })
      else (none, { s with app := false }) := by
  obtain ⟨state, _, _, _, _, _⟩ := s
  obtain rfl : state = .idle := h
  rfl

theorem react_app_cmd (h : s.state = .idle) (hrca : s.rca = 0) :
    card.react choice s ⟨MMC_CMD_APP_CMD, rt, 0⟩ =
      (some [choice.bits], { s with app := true }) := by
  obtain ⟨state, _, _, rca, _, _⟩ := s
  obtain rfl : state = .idle := h
  obtain rfl : rca = 0 := hrca
  have hown : rcaOf 0 = 0 := by decide
  exact if_pos hown

/-- The card is still busy, or waits for a host that takes high capacity cards. -/
def Card.Busy (card : Card) (choice : Choice) (s : Status) (arg : Word) : Prop :=
  choice.busy = true ∨ card.high_capacity = true ∧ s.hostTakes arg = false

theorem react_send_op_cond (h : s.state = .idle) (happ : s.app = true)
    (hvoltage : arg &&& card.window &&& voltageMask ≠ 0) :
    card.react choice s ⟨SD_CMD_APP_SEND_OP_COND, rt, arg⟩ =
      if choice.busy = true ∨ card.high_capacity = true ∧ s.hostTakes arg = false then
        (some [card.window &&& voltageMask], { s with app := false, polls := s.polls + 1 })
      else
        (some [card.window &&& voltageMask |||
            (if card.high_capacity then (1 : Word) <<< 30 else 0) ||| (1 : Word) <<< 31],
          { s with app := false, state := .ready }) := by
  obtain ⟨state, app, _, _, _, _⟩ := s
  obtain rfl : state = .idle := h
  obtain rfl : app = true := happ
  exact if_neg hvoltage

theorem react_busy (h : s.state = .idle) (happ : s.app = true)
    (hvoltage : arg &&& card.window &&& voltageMask ≠ 0) (hbusy : card.Busy choice s arg) :
    card.react choice s ⟨SD_CMD_APP_SEND_OP_COND, rt, arg⟩ =
      (some [card.window &&& voltageMask], { s with app := false, polls := s.polls + 1 }) :=
  (react_send_op_cond h happ hvoltage).trans (if_pos hbusy)

theorem react_ready (h : s.state = .idle) (happ : s.app = true)
    (hvoltage : arg &&& card.window &&& voltageMask ≠ 0) (hready : ¬ card.Busy choice s arg) :
    card.react choice s ⟨SD_CMD_APP_SEND_OP_COND, rt, arg⟩ =
      (some [card.window &&& voltageMask |||
          (if card.high_capacity then (1 : Word) <<< 30 else 0) ||| (1 : Word) <<< 31],
        { s with app := false, state := .ready }) :=
  (react_send_op_cond h happ hvoltage).trans (if_neg hready)

theorem react_all_send_cid (h : s.state = .ready) :
    card.react choice s ⟨MMC_CMD_ALL_SEND_CID, rt, arg⟩ =
      (some (longWords card.cid), { s with app := false, state := .ident }) := by
  obtain ⟨state, _, _, _, _, _⟩ := s
  obtain rfl : state = .ready := h
  rfl

/-- A card that has given its CID does not give it again. -/
theorem react_send_cid_again (h : s.state = .ident) :
    card.react choice s ⟨MMC_CMD_ALL_SEND_CID, rt, arg⟩ = (none, { s with app := false }) := by
  obtain ⟨state, _, _, _, _, _⟩ := s
  obtain rfl : state = .ident := h
  rfl

theorem react_send_relative_addr (h : s.state = .ident) :
    card.react choice s ⟨SD_CMD_SEND_RELATIVE_ADDR, rt, arg⟩ =
      (some [choice.rca.setWidth 32 <<< 16 ||| choice.bits &&& 0xffff],
        { s with app := false, state := .stby, rca := choice.rca }) := by
  obtain ⟨state, _, _, _, _, _⟩ := s
  obtain rfl : state = .ident := h
  rfl

theorem react_send_csd (h : s.state = .stby) (hrca : rcaOf arg = s.rca) :
    card.react choice s ⟨MMC_CMD_SEND_CSD, rt, arg⟩ =
      (some (longWords card.csd), { s with app := false }) := by
  obtain ⟨state, _, _, _, _, _⟩ := s
  obtain rfl : state = .stby := h
  exact if_pos hrca

theorem react_select_card (h : s.state = .stby) (hrca : rcaOf arg = s.rca) :
    card.react choice s ⟨MMC_CMD_SELECT_CARD, rt, arg⟩ =
      (some [choice.bits], { s with app := false, state := .tran }) := by
  obtain ⟨state, _, _, _, _, _⟩ := s
  obtain rfl : state = .stby := h
  exact if_pos hrca

theorem react_set_blocklen (h : s.state = .tran) :
    card.react choice s ⟨MMC_CMD_SET_BLOCKLEN, rt, arg⟩ =
      (some [choice.bits], { s with app := false, blocklen := arg }) := by
  obtain ⟨state, _, _, _, _, _⟩ := s
  obtain rfl : state = .tran := h
  rfl

/-! ## The card gets its address -/

theorem rcaOf_rcaArg (rca : BitVec 16) : rcaOf (rcaArg rca) = rca := by
  ext i hi
  simp [rcaOf, rcaArg, hi, Nat.add_comm 16 i, show i + 16 < 32 by omega]

/-- What the driver takes for the address is the one that the card has taken. -/
theorem rca_of_response (rca : BitVec 16) (bits : Word) :
    ((rca.setWidth 32 <<< 16 ||| bits &&& 0xffff : Word) >>> 16 &&& 0xffff).setWidth 16 = rca := by
  have hmask : ∀ i : Fin 16, (65535#16)[i] = true ∧ (65535#32)[16 + i.val] = false := by decide
  ext i hi
  have hin : 16 + i < 32 := by omega
  have hout : ¬ 16 + i < 16 := by omega
  have hlow : (65535#16)[i] = true := (hmask ⟨i, hi⟩).1
  have hhigh : (65535#32)[16 + i] = false := (hmask ⟨i, hi⟩).2
  simp [hi, hin, hout, hlow, hhigh]

/-- The card is selected, and its blocks have 512 bytes. -/
structure Selected (s : Status) (m : mmc) : Prop where
  state : s.state = .tran
  blocklen : s.blocklen = 512
  rca : m.rca = s.rca
  read_bl_len : m.read_bl_len = 512

theorem selectCard_ends {m m' : mmc} {ret : Int}
    (h : Ends card.Answers s (selectCard m response) (ret, m') s') (hs : s.state = .stby)
    (hrca : m.rca = s.rca) :
    ret = 0 ∧ Selected s' m' ∧ m'.high_capacity = m.high_capacity ∧ s'.polls = s.polls := by
  have harg : rcaOf (rcaArg m.rca) = s.rca := by rw [rcaOf_rcaArg, hrca]
  obtain ⟨_, h⟩ := ends_send h fun _ => react_send_csd hs harg
  obtain ⟨_, h⟩ := ends_send h fun _ => react_select_card hs harg
  obtain ⟨_, h⟩ := ends_send h fun _ => react_set_blocklen rfl
  obtain ⟨heq, rfl⟩ := ends_pure.mp h
  cases heq
  exact ⟨rfl, ⟨rfl, rfl, hrca, rfl⟩, rfl, rfl⟩

/-- The loop that asks again leaves the card as it is. -/
theorem sendCidAgain_ends {n : Nat} {response' : Response}
    (h : Ends card.Answers s (sendCidAgain n response) response' s') (hs : s.state = .ident) :
    s'.state = .ident ∧ s'.polls = s.polls := by
  induction n generalizing s response with
  | zero =>
    obtain ⟨-, rfl⟩ := ends_pure.mp h
    exact ⟨hs, rfl⟩
  | succ n ih =>
    obtain ⟨_, h⟩ := ends_send h fun _ => react_send_cid_again hs
    rcases ends_ite.mp h with ⟨-, h⟩ | ⟨-, h⟩
    · obtain ⟨-, rfl⟩ := ends_pure.mp h
      exact ⟨hs, rfl⟩
    · have hrest := ih h hs
      exact hrest

theorem sendCid_ends {response' : Response}
    (h : Ends card.Answers s (sendCid response) response' s') (hs : s.state = .ready) :
    s'.state = .ident ∧ s'.polls = s.polls := by
  obtain ⟨_, h⟩ := ends_send h fun _ => react_all_send_cid hs
  rcases ends_ite.mp h with ⟨-, h⟩ | ⟨-, h⟩
  · have hagain := sendCidAgain_ends h rfl
    exact hagain
  · obtain ⟨-, rfl⟩ := ends_pure.mp h
    exact ⟨rfl, rfl⟩

theorem nameCard_ends {m m' : mmc} {ret : Int}
    (h : Ends card.Answers s (nameCard m response) (ret, m') s') (hs : s.state = .ready) :
    ret = 0 ∧ Selected s' m' ∧ m'.high_capacity = m.high_capacity ∧ s'.polls = s.polls := by
  obtain ⟨_, s₁, hcid, h⟩ := ends_bind.mp h
  obtain ⟨hident, hpolls⟩ := sendCid_ends hcid hs
  obtain ⟨choice, h⟩ := ends_send h fun _ => react_send_relative_addr hident
  have hselect := selectCard_ends h rfl (rca_of_response choice.rca choice.bits)
  rw [← hpolls]
  exact hselect

/-! ## The card powers up -/

/-- The card waits for its power. -/
structure Polled (s : Status) : Prop where
  state : s.state = .idle
  rca : s.rca = 0

theorem bit_31 (x : Word) : x &&& (1 : Word) <<< 31 ≠ 0 ↔ x.getLsbD 31 = true := by
  have htwo : (1 : Word) <<< 31 = BitVec.twoPow 32 31 := by decide
  have hne : BitVec.twoPow 32 31 ≠ 0#32 := by decide
  rw [htwo, BitVec.and_twoPow]
  split_ifs with hbit
  · exact iff_of_true hne hbit
  · exact iff_of_false (not_not.mpr rfl) hbit

theorem bit_30 (x : Word) : x &&& (1 : Word) <<< 30 = (1 : Word) <<< 30 ↔ x.getLsbD 30 = true := by
  have htwo : (1 : Word) <<< 30 = BitVec.twoPow 32 30 := by decide
  have hne : 0#32 ≠ BitVec.twoPow 32 30 := by decide
  rw [htwo, BitVec.and_twoPow]
  split_ifs with hbit
  · exact iff_of_true rfl hbit
  · exact iff_of_false hne hbit

/-- The answer of a card that is still busy. -/
theorem busy_bit (window : Word) : ¬ (window &&& voltageMask).getLsbD 31 = true := by
  have hmask : voltageMask.getLsbD 31 = false := by decide
  rw [BitVec.getLsbD_and, hmask, Bool.and_false]
  exact Bool.false_ne_true

/-- The OCR of a card that is ready: its state, and how it addresses its blocks. -/
theorem ready_bits (window : Word) (high_capacity : Bool) :
    (window &&& voltageMask ||| (if high_capacity then (1 : Word) <<< 30 else 0) |||
        (1 : Word) <<< 31).getLsbD 31 = true ∧
      (window &&& voltageMask ||| (if high_capacity then (1 : Word) <<< 30 else 0) |||
        (1 : Word) <<< 31).getLsbD 30 = high_capacity := by
  have hmask : voltageMask.getLsbD 30 = false := by decide
  have hstate : ((1 : Word) <<< 31).getLsbD 31 = true := by decide
  have hlow : ((1 : Word) <<< 31).getLsbD 30 = false := by decide
  have hccs : (if high_capacity then (1 : Word) <<< 30 else 0).getLsbD 30 = high_capacity := by
    cases high_capacity <;> decide
  simp only [BitVec.getLsbD_or, BitVec.getLsbD_and, hmask, hstate, hlow, hccs, Bool.or_true,
    Bool.and_false, Bool.false_or, Bool.or_false, and_self]

/-- An argument with 3.3 V to 3.4 V. -/
theorem voltages_meet (card : Card) (h : t.getLsbD 21 = true) :
    t &&& card.window &&& voltageMask ≠ 0 := by
  intro hzero
  have hbit := congrArg (fun x => x.getLsbD 21) hzero
  have hmask : voltageMask.getLsbD 21 = true := by decide
  have hnone : (0 : Word).getLsbD 21 = false := by decide
  simp only [BitVec.getLsbD_and, h, card.voltage, hmask, hnone, Bool.and_self,
    Bool.true_eq_false] at hbit

/-- The polls end with a card that is ready, whose addresses the OCR tells, or at their last
one, and the card was busy at each. -/
theorem powerUp_ends {n : Nat} {r : Option (Int × Response)}
    (h : Ends card.Answers s (powerUp t n response) r s') (hs : Polled s)
    (ht : t.getLsbD 21 = true) :
    (r = none ∧ Polled s' ∧ s'.polls = s.polls + n) ∨
      ∃ response', r = some (0, response') ∧ s'.state = .ready ∧ s'.polls < s.polls + n ∧
        (card.high_capacity = true → s.hostTakes t = true) ∧
        (response' 0).getLsbD 30 = card.high_capacity := by
  induction n generalizing s response with
  | zero =>
    obtain ⟨rfl, rfl⟩ := ends_pure.mp h
    exact .inl ⟨rfl, hs, rfl⟩
  | succ n ih =>
    obtain ⟨_, h⟩ := ends_send h fun _ => react_app_cmd hs.state hs.rca
    obtain ⟨choice, h⟩ := ends_send h fun _ => Prod.mk.eta.symm
    have hvoltage := voltages_meet card ht
    by_cases hbusy : card.Busy choice { s with app := true } t
    · rw [react_busy (s := { s with app := true }) hs.state rfl hvoltage hbusy] at h
      rcases ends_ite.mp h with ⟨hbit, -⟩ | ⟨-, h⟩
      · exact absurd ((bit_31 _).mp hbit) (busy_bit card.window)
      · have hpolled : Polled { s with app := false, polls := s.polls + 1 } := ⟨hs.state, hs.rca⟩
        have hsum : s.polls + 1 + n = s.polls + (n + 1) := by omega
        rcases ih h hpolled with ⟨hnone, hidle, hpolls⟩ | ⟨_, hsome, hready, hpolls, hrest⟩
        · exact .inl ⟨hnone, hidle, hpolls.trans hsum⟩
        · exact .inr ⟨_, hsome, hready, hpolls.trans_eq hsum, hrest⟩
    · rw [react_ready (s := { s with app := true }) hs.state rfl hvoltage hbusy] at h
      obtain ⟨hstate, hccs⟩ := ready_bits card.window card.high_capacity
      rcases ends_ite.mp h with ⟨-, h⟩ | ⟨hbit, -⟩
      · obtain ⟨rfl, rfl⟩ := ends_pure.mp h
        refine .inr ⟨_, rfl, rfl, Nat.lt_add_of_pos_right n.succ_pos, ?_, hccs⟩
        intro hhigh
        by_contra hnot
        exact hbusy (.inr ⟨hhigh, Bool.eq_false_of_not_eq_true hnot⟩)
      · exact absurd ((bit_31 _).mpr hstate) hbit

/-! ## The whole of it -/

/-- How `use_sdhost` ends: with the card selected, or with a card that was busy at each of the
polls. -/
def Outcome (card : Card) (m : mmc) (voltages : Word) (r : Int × mmc) (s : Status) : Prop :=
  (r.1 = 0 ∧ Selected s r.2 ∧ r.2.high_capacity = (m.high_capacity || card.high_capacity) ∧
      s.polls < timeout_count ∧ (card.high_capacity = true → voltages &&& 0xff8000 ≠ 0)) ∨
    (r.1 = -1 ∧ s.state = .idle ∧ s.polls = timeout_count)

/-- The part after the polls, from the card that they leave. -/
theorem outcome_of_polls {m : mmc} {voltages : Word} {r : Int × mmc} (hs : Polled s)
    (hpolls : s.polls = 0) (ht : t.getLsbD 21 = true)
    (htold : s.hostTakes t = true → voltages &&& 0xff8000 ≠ 0)
    (h : Ends card.Answers s (powerUp t timeout_count response >>= fun
      | none => pure (-1, m)
      | some (is_success, response) =>
        let m := if is_success = 0 then { m with ocr := response 0 } else m
        let m :=
          if response 0 &&& (1 : Word) <<< 30 = (1 : Word) <<< 30 then
            { m with rca := 1, high_capacity := true }
          else m
        nameCard m response) r s') : Outcome card m voltages r s' := by
  obtain ⟨ret, m'⟩ := r
  obtain ⟨_, s₁, hpower, h⟩ := ends_bind.mp h
  rcases powerUp_ends hpower hs ht with ⟨rfl, hidle, hcount⟩ | ⟨response', rfl, hready, hcount,
    htakes, hccs⟩
  · obtain ⟨heq, rfl⟩ := ends_pure.mp h
    cases heq
    rw [hpolls, Nat.zero_add] at hcount
    exact .inr ⟨rfl, hidle.state, hcount⟩
  · obtain ⟨hret, hselected, hhigh, hsame⟩ := nameCard_ends h hready
    rw [hpolls, Nat.zero_add, ← hsame] at hcount
    refine .inl ⟨hret, hselected, ?_, hcount, fun hcard => htold (htakes hcard)⟩
    rw [hhigh]
    by_cases hbit : (response' 0).getLsbD 30 = true
    · rw [if_pos ((bit_30 _).mpr hbit), ← hccs, hbit, Bool.or_true]
    · rw [if_neg fun heq => hbit ((bit_30 _).mp heq), ← hccs, Bool.eq_false_of_not_eq_true hbit,
        Bool.or_false]
      rfl

theorem use_sdhost_ends {m : mmc} {voltages : Word} {r : Int × mmc}
    (h : Ends card.Answers s (use_sdhost m voltages) r s') (hs : s.state ≠ .inactive) :
    Outcome card m voltages r s' := by
  obtain ⟨_, h⟩ := ends_send h fun _ => react_go_idle hs
  obtain ⟨_, h⟩ := ends_send h fun _ => Prod.mk.eta.symm
  by_cases hvoltages : voltages &&& 0xff8000 ≠ 0
  · have harg : ifCondArg voltages = 0x1aa := by
      unfold ifCondArg
      rw [if_pos hvoltages]
      decide
    rw [react_if_cond rfl, harg] at h
    by_cases hcard : card.version2 = true
    · rw [if_pos ⟨hcard, by decide⟩] at h
      exact outcome_of_polls ⟨rfl, rfl⟩ rfl (by decide) (fun _ => hvoltages) h
    · rw [if_neg fun hboth => hcard hboth.1] at h
      exact outcome_of_polls ⟨rfl, rfl⟩ rfl (by decide) (fun _ => hvoltages) h
  · have harg : ifCondArg voltages = 0xaa := by
      unfold ifCondArg
      rw [if_neg hvoltages]
      decide
    rw [react_if_cond rfl, harg, if_neg fun hboth => absurd hboth.2 (by decide)] at h
    exact outcome_of_polls ⟨rfl, rfl⟩ rfl (by decide) (fun htold => absurd htold (by decide)) h

section

variable {cmd : mmc_cmd} {host : sdhost_state} {ws : List Word} {sdcmd hsts : Word}
  {ρ ρ' : List Word}

/-! ## The commands on the registers -/

theorem length_of_hears {rt : Word} {answer : Option (List Word)} (h : hears rt answer = (0, ws)) :
    ws.length = responseWords rt := by
  unfold hears at h
  split at h
  · rename_i heq
    cases h
    exact heq.symm
  · cases h
  · split_ifs at h with hlen
    · cases h
      exact hlen
    · cases h

theorem nil_of_hears {rt : Word} {answer : Option (List Word)} (h : hears rt answer = (-1, ws)) :
    ws = [] := by
  unfold hears at h
  split at h
  · cases h
  · cases h
    rfl
  · split_ifs at h
    · cases h
    · cases h
      rfl

theorem runs_sent (hbusy : cmd.resp_type &&& MMC_RSP_BUSY = 0) (hwait : Waits ρ sdcmd (hsts :: ρ'))
    (hoff : sdcmd &&& HC_CMD_ENABLE = 0) :
    Runs (bcm2835_send_command host cmd none) ρ (0, sentHost host cmd none)
      (sendWrites hsts cmd none) ρ' := by
  have hnot : ¬ (cmd.resp_type &&& MMC_RSP_136 ≠ 0 ∧ cmd.resp_type &&& MMC_RSP_BUSY ≠ 0) :=
    fun h => h.2 hbusy
  rw [bcm2835_send_command, if_neg hnot, runs_wait_bind]
  refine ⟨sdcmd, _, hwait, ?_⟩
  rw [if_neg (not_not.mpr hoff), readl, runs_ask_bind]
  refine ⟨hsts, ρ', rfl, ?_⟩
  unfold sendWrites sentHost
  simp only [bcm2835_prepare_data, writel, runs_ite, runs_note_bind, runs_pure_bind, runs_pure]
  split_ifs with hflag
  · simpa using hflag
  · simpa using hflag

theorem runs_response {rt : Word} (hlen : ws.length = responseWords rt) :
    Runs (readResponse rt) (ws ++ ρ') ws [] ρ' := by
  unfold responseWords at hlen
  unfold readResponse
  by_cases hpresent : rt &&& MMC_RSP_PRESENT = 0
  · rw [if_pos hpresent, List.length_eq_zero_iff] at hlen
    rw [if_neg (not_not.mpr hpresent), hlen]
    exact runs_pure.mpr ⟨rfl, rfl, rfl⟩
  · rw [if_neg hpresent] at hlen
    rw [if_pos hpresent]
    by_cases hlong : rt &&& MMC_RSP_136 ≠ 0
    · rw [if_pos hlong] at hlen
      obtain ⟨r0, r1, r2, r3, rfl⟩ := List.length_eq_four.mp hlen
      rw [if_pos hlong]
      simp [readl, runs_ask_bind]
    · rw [if_neg hlong, List.length_eq_one_iff] at hlen
      obtain ⟨r0, rfl⟩ := hlen
      rw [if_neg hlong]
      simp [readl, runs_ask_bind]

theorem runs_finished (hcmd : host.cmd = some cmd) (hwait : Waits ρ sdcmd (ws ++ ρ'))
    (hoff : sdcmd &&& HC_CMD_ENABLE = 0) (hgood : sdcmd &&& SDCMD_FAIL_FLAG = 0)
    (hlen : ws.length = responseWords cmd.resp_type) :
    Runs (bcm2835_finish_command host) ρ (0, { host with cmd := none }) [.finished 0 ws] ρ' := by
  simp only [bcm2835_finish_command, hcmd, runs_wait_bind]
  refine ⟨sdcmd, _, hwait, ?_⟩
  rw [if_neg (not_not.mpr hoff), if_neg (not_not.mpr hgood)]
  exact runs_bind.mpr ⟨ws, [], ρ', _, runs_response hlen,
    runs_note_bind.mpr ⟨[], rfl, runs_pure.mpr ⟨rfl, rfl, rfl⟩⟩, rfl⟩

theorem runs_unanswered (hcmd : host.cmd = some cmd) (hwait : Waits ρ sdcmd (hsts :: ρ'))
    (hoff : sdcmd &&& HC_CMD_ENABLE = 0) (hfail : sdcmd &&& SDCMD_FAIL_FLAG ≠ 0) :
    Runs (bcm2835_finish_command host) ρ (-1, host) [.status hsts, .finished (-1) []] ρ' := by
  simp only [bcm2835_finish_command, hcmd, runs_wait_bind]
  refine ⟨sdcmd, _, hwait, ?_⟩
  rw [if_neg (not_not.mpr hoff), if_pos hfail]
  exact runs_readStatus_bind.mpr ⟨hsts, ρ', _, rfl, rfl,
    runs_note_bind.mpr ⟨[], rfl, runs_pure.mpr ⟨rfl, rfl, rfl⟩⟩⟩

theorem responseOf_writes (hsts : Word) (es : List Event) :
    responseOf (sendWrites hsts cmd none ++ es) = responseOf es := by
  unfold sendWrites responseOf
  by_cases hflag : hsts &&& SDHSTS_ERROR_MASK = 0 <;> simp [hflag]

/-- A command that was sent and finished with `ret`. -/
theorem runs_sendCmd {edm : Word} {ρ₁ : List Word} {ret : Int} {host' : sdhost_state}
    {es : List Event} (hbusy : cmd.resp_type &&& MMC_RSP_BUSY = 0) (hidle : Idle edm)
    (hwait : Waits ρ sdcmd (hsts :: ρ₁)) (hoff : sdcmd &&& HC_CMD_ENABLE = 0)
    (hfinish : Runs (bcm2835_finish_command (sentHost host cmd none)) ρ₁ (ret, host') es ρ')
    (hrest : host'.use_busy = false ∧ host'.data = none) (hws : responseOf es = ws) :
    ∃ fs, Runs (sendCmd cmd host) (edm :: ρ) ((ret, ws), host') fs ρ' := by
  have hafter : afterSent 0 (sentHost host cmd none) =
      bcm2835_finish_command (sentHost host cmd none) := by
    have hnot : busyAfter cmd = false := by
      simp [busyAfter, hbusy]
    exact if_pos ⟨rfl, hnot⟩
  have hidle' : ¬ (host'.use_busy = true ∨ host'.data.isSome = true) := by
    rw [hrest.1, hrest.2]
    decide
  have hturns : Turns sendTurn (host', ret) ρ' (ret, host') [] ρ' :=
    .last ((runs_sendTurn_idle hidle').mpr ⟨rfl, rfl, rfl⟩)
  have hcall : Runs (bcm2835_send_cmd host cmd none) (edm :: ρ) (ret, host')
      (sendWrites hsts cmd none ++ .sent 0 :: (es ++ [])) ρ' := by
    apply (runs_send_cmd rfl).mpr
    refine ⟨edm, ρ, rfl, .inr ⟨fun h => h.1 hidle, _, _, ρ₁, (ret, host'), es, ρ', [],
      runs_sent hbusy hwait hoff, ?_, hturns, rfl⟩⟩
    rw [hafter]
    exact hfinish
  refine ⟨_, runs_bind.mpr ⟨_, _, _, [], runs_heard.mpr ⟨hcall, rfl⟩, ?_, rfl⟩⟩
  have hresponse : responseOf (sendWrites hsts cmd none ++ .sent 0 :: (es ++ [])) = ws := by
    rw [responseOf_writes, List.append_nil]
    exact hws
  rw [← hresponse]
  exact runs_pure.mpr ⟨rfl, rfl, rfl⟩

/-- The driver gets the answer of the card out of the registers. -/
theorem runs_of_serves {r : Int × List Word} (h : card.Serves s cmd ρ r s' ρ')
    (host : sdhost_state) : ∃ host' es, Runs (sendCmd cmd host) ρ (r, host') es ρ' := by
  have hnot (hbusy : cmd.resp_type &&& MMC_RSP_BUSY = 0) : busyAfter cmd = false := by
    simp [busyAfter, hbusy]
  cases h with
  | answered hanswers hbusy hidle hwait hoff hwait' hoff' hgood =>
    obtain ⟨choice, hhears, -⟩ := hanswers
    have hfinish : Runs (bcm2835_finish_command (sentHost host cmd none)) _ _ _ _ :=
      runs_finished rfl hwait' hoff' hgood (length_of_hears hhears.symm)
    obtain ⟨es, hrun⟩ := runs_sendCmd hbusy hidle hwait hoff hfinish ⟨hnot hbusy, rfl⟩
      (List.append_nil _)
    exact ⟨_, es, hrun⟩
  | failed hanswers hbusy hidle hwait hoff hwait' hoff' hfail =>
    obtain ⟨choice, hhears, -⟩ := hanswers
    obtain rfl := nil_of_hears hhears.symm
    have hfinish : Runs (bcm2835_finish_command (sentHost host cmd none)) _ _ _ _ :=
      runs_unanswered rfl hwait' hoff' hfail
    obtain ⟨es, hrun⟩ := runs_sendCmd hbusy hidle hwait hoff hfinish ⟨hnot hbusy, rfl⟩ rfl
    exact ⟨_, es, hrun⟩


/-- On the registers `use_sdhost` ends as it does with the answers of the card. -/
theorem runs_init {m : mmc} {voltages : Word} {r : Int × mmc} (host : sdhost_state)
    (h : EndsOn card.Serves s (use_sdhost m voltages) ρ r s' ρ') :
    ∃ host' es, Runs (init_sdcard m voltages host) ρ (r, host') es ρ' := by
  have hsend : ∀ s q ρ r s' ρ' (t : sdhost_state), True → card.Serves s q ρ r s' ρ' →
      ∃ t' es, True ∧ Runs (sendCmd q t) ρ (r, t') es ρ' := by
    intro s q ρ r s' ρ' t _ hserves
    obtain ⟨t', es, hrun⟩ := runs_of_serves hserves t
    exact ⟨t', es, trivial, hrun⟩
  obtain ⟨host', es, -, hrun⟩ := h.runs hsend (t := host) trivial
  exact ⟨host', es, hrun⟩

theorem outcome_of_endsOn {m : mmc} {voltages : Word} {r : Int × mmc}
    (h : EndsOn card.Serves s (use_sdhost m voltages) ρ r s' ρ') (hs : s.state ≠ .inactive) :
    Outcome card m voltages r s' := by
  apply use_sdhost_ends (h.ends ?_) hs
  intro s q ρ r s' ρ' hserves
  cases hserves with
  | answered hanswers => exact hanswers
  | failed hanswers => exact hanswers

/-- Whatever a card has been through and whenever it gets ready, `use_sdhost` on the registers
does with it what it does with its answers: it ends with 0 and the card is selected, its blocks
have 512 bytes, and the driver knows its address and how its blocks are addressed; or it ends
with -1 and the card was busy at each of the polls. A high capacity card is never brought up
where the word behind the null pointer has none of the voltages. -/
theorem a_card_is_brought_up {m : mmc} {voltages : Word} {r : Int × mmc}
    (hs : s.state ≠ .inactive) (host : sdhost_state)
    (h : EndsOn card.Serves s (use_sdhost m voltages) ρ r s' ρ') :
    (∃ host' es, Runs (init_sdcard m voltages host) ρ (r, host') es ρ') ∧
      Outcome card m voltages r s' :=
  ⟨runs_init host h, outcome_of_endsOn h hs⟩

/-- A controller that is free at once, with the card's answer under this choice. -/
def Card.reply (card : Card) (choice : Choice) (s : Status) (cmd : mmc_cmd) :
    List Word × (Int × List Word) × Status :=
  let heard := hears cmd.resp_type (card.react choice s cmd).1
  let rest := if heard.1 = 0 then 0 :: heard.2 else [SDCMD_FAIL_FLAG, 0]
  (1 :: 0 :: 0 :: 0 :: 0 :: rest, heard, (card.react choice s cmd).2)

/-- A card of 8 GB with the address 0xaaaa. -/
def smallCard : Card where
  version2 := true
  high_capacity := true
  window := 0xff8000
  cid := 0x275048534433324760d3a0c5c80144
  csd := 0x400e00325b5900003b377f800a404001
  blocks := 15523840
  word := fun _ => 0x5a5a5a5a
  modern := fun _ => rfl
  voltage := by decide
  addresses := by decide

def firstChoice : Choice where
  busy := false
  rca := 0xaaaa
  bits := 0x700
  rca_ne := by decide

/-- What is in `struct mmc` at first. -/
def freshMmc : mmc where
  high_capacity := false
  ocr := 0
  rca := 0
  read_bl_len := 0

theorem hears_cases (rt : Word) (answer : Option (List Word)) :
    (∃ ws, hears rt answer = (0, ws)) ∨ hears rt answer = (-1, []) := by
  unfold hears
  split
  · exact .inl ⟨[], rfl⟩
  · exact .inr rfl
  · split_ifs
    · exact .inl ⟨_, rfl⟩
    · exact .inr rfl

theorem serves_reply {choice : Choice} (s : Status) (cmd : mmc_cmd) (ρ : List Word)
    (hbusy : cmd.resp_type &&& MMC_RSP_BUSY = 0) :
    card.Serves s cmd ((card.reply choice s cmd).1 ++ ρ) (card.reply choice s cmd).2.1
      (card.reply choice s cmd).2.2 ρ := by
  have hoff : (0 : Word) &&& HC_CMD_ENABLE = 0 := by decide
  rcases hears_cases cmd.resp_type (card.react choice s cmd).1 with ⟨ws, hws⟩ | hnone
  · have hanswers : card.Answers s cmd (0, ws) (card.react choice s cmd).2 :=
      ⟨choice, hws.symm, rfl⟩
    unfold Card.reply
    rw [hws]
    exact .answered hanswers hbusy (.inr (by decide)) (waits_free hoff _ _) hoff
      (waits_free hoff _ _) hoff (by decide)
  · have hanswers : card.Answers s cmd (-1, []) (card.react choice s cmd).2 :=
      ⟨choice, hnone.symm, rfl⟩
    have hfree : SDCMD_FAIL_FLAG &&& HC_CMD_ENABLE = 0 := by decide
    unfold Card.reply
    rw [hnone]
    exact .failed hanswers hbusy (.inr (by decide)) (waits_free hoff _ _) hoff
      (waits_free hoff _ _) hfree (by decide)

/-- The values, what `use_sdhost` ends with and the state of the card of 8 GB. -/
def smallRun : List Word × (Int × mmc) × Status :=
  (use_sdhost freshMmc 0xff8000).play (smallCard.reply firstChoice) .reset

theorem smallRun_ends (ρ : List Word) : EndsOn smallCard.Serves .reset
    (use_sdhost freshMmc 0xff8000) (smallRun.1 ++ ρ) smallRun.2.1 smallRun.2.2 ρ := by
  have hserves : ∀ s (cmd : mmc_cmd) ρ', cmd.resp_type &&& MMC_RSP_BUSY = 0 →
      smallCard.Serves s cmd ((smallCard.reply firstChoice s cmd).1 ++ ρ')
        (smallCard.reply firstChoice s cmd).2.1 (smallCard.reply firstChoice s cmd).2.2 ρ' :=
    fun s cmd ρ' hbusy => serves_reply s cmd ρ' hbusy
  exact endsOn_play hserves (use_sdhost freshMmc 0xff8000) .reset ρ (by decide +kernel)

theorem the_card_of_8_GB_is_brought_up : ∃ ρ r s',
    ((∃ host' es, Runs (init_sdcard freshMmc 0xff8000 restHost) ρ (r, host') es []) ∧
      Outcome smallCard freshMmc 0xff8000 r s') ∧ r.1 = 0 ∧ r.2.rca = 0xaaaa :=
  ⟨_, _, _, a_card_is_brought_up (by decide) restHost (smallRun_ends []), by decide +kernel,
    by decide +kernel⟩

end

end rpi_wifi.sdcard
