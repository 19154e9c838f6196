-- A card that `use_sdhost` has brought up is read: each read leaves the words of its blocks in
-- the memory, for a card that is addressed by blocks and for one that is addressed by bytes.
import RpiWifi.SdInitLaws
import RpiWifi.SdStream

namespace rpi_wifi.sdcard

open conversations dialogues memory sdhost

open arm (writeWords)

/-! ## The card and the controller during a read -/

/-- The words of `n` blocks from the block `b` on. -/
def Card.blockWords (card : Card) (b n : Nat) : List (List Word) :=
  (List.range' b n).map fun k => (List.range 128).map fun i => card.word (128 * k + i)

/-- The block at an address, if there is one. -/
def Card.blockAt (card : Card) (cmdarg : Word) : Option Nat :=
  if card.high_capacity then some cmdarg.toNat
  else if cmdarg.toNat % 512 = 0 then some (cmdarg.toNat / 512)
  else none

/-- The values of the registers while the card answers a command that reads `n` blocks and the
controller passes them on. -/
inductive Card.ServesRead (card : Card) (cmd : mmc_cmd) (n : Nat) :
    Status → List Word → Status → List Word → Prop
  | intro {s s' : Status} {choice : Choice} {b : Nat} {edm sdcmd hsts sdcmd' rsp : Word}
      {ρ ρ₁ ρ₂ ρ' : List Word} : card.react choice s cmd = (some [rsp], s') →
      card.blockAt cmd.cmdarg = some b → b + n ≤ card.blocks → Idle edm →
      Waits ρ sdcmd (hsts :: ρ₁) → sdcmd &&& HC_CMD_ENABLE = 0 → Waits ρ₁ sdcmd' (rsp :: ρ₂) →
      sdcmd' &&& HC_CMD_ENABLE = 0 → sdcmd' &&& SDCMD_FAIL_FLAG = 0 →
      Stream (card.blockWords b n) ρ₂ ρ' → ServesRead card cmd n s (edm :: ρ) s' ρ'

/-- The busy signal of a card and its end, with the response `rsp`. -/
inductive BusyEnds (rsp : Word) : List Word → List Word → Prop
  | busy {intmask : Word} {ρ ρ' : List Word} : Clean intmask →
      intmask &&& SDHSTS_BUSY_IRPT = 0 → BusyEnds rsp ρ ρ' → BusyEnds rsp (intmask :: ρ) ρ'
  | ended {intmask sdcmd : Word} {ρ ρ' : List Word} : Clean intmask →
      intmask &&& SDHSTS_BUSY_IRPT ≠ 0 → Waits ρ sdcmd (rsp :: ρ') →
      sdcmd &&& HC_CMD_ENABLE = 0 → sdcmd &&& SDCMD_FAIL_FLAG = 0 → BusyEnds rsp (intmask :: ρ) ρ'

/-- The values of the registers while the card answers the command that stops a transfer. -/
inductive Card.ServesStop (card : Card) : Status → List Word → Status → List Word → Prop
  | intro {s s' : Status} {choice : Choice} {edm sdcmd hsts rsp : Word} {ρ ρ₁ ρ' : List Word} :
      card.react choice s stopCmd = (some [rsp], s') → Waits ρ sdcmd (hsts :: ρ₁) →
      sdcmd &&& HC_CMD_ENABLE = 0 → BusyEnds rsp ρ₁ ρ' → ServesStop card s (edm :: ρ) s' ρ'

/-- A call of `mmc_read_blocks`. -/
structure Request where
  startBlock : Word
  numBlocks : Word
  dest : Nat

/-- The values of the registers during a call of `mmc_read_blocks`. -/
def Card.Reads (card : Card) (high_capacity : Bool) (q : Request) (s : Status) (ρ : List Word)
    (s' : Status) (ρ' : List Word) : Prop :=
  ∃ s₁ ρ₁, card.ServesRead (readCmd high_capacity q.startBlock q.numBlocks) q.numBlocks.toNat
      s ρ s₁ ρ₁ ∧
    if q.numBlocks > 1 then card.ServesStop s₁ ρ₁ s' ρ' else s' = s₁ ∧ ρ' = ρ₁

/-- The values of the registers during several calls. -/
inductive Card.ReadsAll (card : Card) (high_capacity : Bool) :
    List Request → Status → List Word → Status → List Word → Prop
  | nil {s : Status} {ρ : List Word} : ReadsAll card high_capacity [] s ρ s ρ
  | cons {q : Request} {qs : List Request} {s s₁ s' : Status} {ρ ρ₁ ρ' : List Word} :
      card.Reads high_capacity q s ρ s₁ ρ₁ → ReadsAll card high_capacity qs s₁ ρ₁ s' ρ' →
      ReadsAll card high_capacity (q :: qs) s ρ s' ρ'

/-! ## The driver -/

/-- Several calls of `mmc_read_blocks`, and what they return. -/
def readAll (high_capacity : Bool) : List Request → sdhost_state →
    Sd (List Bool × sdhost_state)
  | [], host => pure ([], host)
  | q :: qs, host => do
    let (r, host) ← mmc_read_blocks host high_capacity q.startBlock q.numBlocks q.dest
    let (rets, host) ← readAll high_capacity qs host
    return (r.ret :: rets, host)

/-- The memory with the blocks of the card in the places of the requests. -/
def Card.contents (card : Card) (m : Mem) (qs : List Request) : Mem :=
  qs.foldl (fun m q => writeWords m q.dest
    (card.blockWords q.startBlock.toNat q.numBlocks.toNat).flatten) m

variable {card : Card} {s s' : Status} {q : Request} {ρ ρ' : List Word}

/-! ## The address of a read -/

/-- At least one block is read, and the card has all of them. -/
def Card.Has (card : Card) (q : Request) : Prop :=
  0 < q.numBlocks.toNat ∧ q.startBlock.toNat + q.numBlocks.toNat ≤ card.blocks

/-- The address of the command is the one of the first block. -/
theorem blockAt_readCmd (h : card.Has q) :
    card.blockAt (readCmd card.high_capacity q.startBlock q.numBlocks).cmdarg =
      some q.startBlock.toNat := by
  have haddresses := card.addresses
  unfold Card.blockAt readCmd
  by_cases hhigh : card.high_capacity = true
  · simp [hhigh]
  · simp only [hhigh] at haddresses ⊢
    have hlt : q.startBlock.toNat * 512 < 2 ^ 32 := by
      obtain ⟨hpos, hle⟩ := h
      simp at haddresses
      omega
    have hbytes : (q.startBlock * read_bl_len).toNat = q.startBlock.toNat * 512 := by
      rw [BitVec.toNat_mul, show read_bl_len.toNat = 512 from rfl, Nat.mod_eq_of_lt hlt]
    simp [hbytes]

/-! ## A read -/

theorem react_read_single {choice : Choice} {rt arg : Word} (hs : s.state = .tran) :
    card.react choice s ⟨MMC_CMD_READ_SINGLE_BLOCK, rt, arg⟩ =
      (some [choice.bits], { s with app := false }) := by
  obtain ⟨state, _, _, _, _, _⟩ := s
  obtain rfl : state = .tran := hs
  rfl

theorem react_read_multiple {choice : Choice} {rt arg : Word} (hs : s.state = .tran) :
    card.react choice s ⟨MMC_CMD_READ_MULTIPLE_BLOCK, rt, arg⟩ =
      (some [choice.bits], { s with app := false, state := .data }) := by
  obtain ⟨state, _, _, _, _, _⟩ := s
  obtain rfl : state = .tran := hs
  rfl

theorem react_stop {choice : Choice} (hs : s.state = .data) :
    card.react choice s stopCmd =
      (some [choice.bits], { s with app := false, state := .tran }) := by
  obtain ⟨state, _, _, _, _, _⟩ := s
  obtain rfl : state = .data := hs
  rfl

theorem length_blockWords {b n : Nat} {ws : List Word} (h : ws ∈ card.blockWords b n) :
    ws.length = 128 := by
  obtain ⟨k, -, rfl⟩ := List.mem_map.mp h
  simp

/-- The driver stores what the card streams. -/
theorem runs_read {high_capacity : Bool} (host : sdhost_state)
    (haddr : card.blockAt (readCmd high_capacity q.startBlock q.numBlocks).cmdarg =
      some q.startBlock.toNat)
    (h : card.ServesRead (readCmd high_capacity q.startBlock q.numBlocks) q.numBlocks.toNat
      s ρ s' ρ') :
    ∃ es, Runs (bcm2835_send_cmd host (readCmd high_capacity q.startBlock q.numBlocks)
        (some (readData q.numBlocks q.dest))) ρ (0, restHost) es ρ' ∧
      ∀ m, written m es = writeWords m q.dest
        (card.blockWords q.startBlock.toNat q.numBlocks.toNat).flatten := by
  cases h with
  | @intro _ _ b edm sdcmd hsts sdcmd' rsp ρ ρ₁ ρ₂ _ _ hat _ hidle hwait hoff hwait' hoff' hfail
      hstream =>
    obtain rfl := Option.some.inj (haddr.symm.trans hat)
    have hbusy := not_busy_readCmd high_capacity q.startBlock q.numBlocks
    set cmd := readCmd high_capacity q.startBlock q.numBlocks
    set data := some (readData q.numBlocks q.dest)
    have hrest : ({ sentHost host cmd data with cmd := none, data := none, blocks := 0 } :
        sdhost_state) = restHost := by
      simp [sentHost, restHost, hbusy]
    have hcount : ({ sentHost host cmd data with cmd := none } : sdhost_state).blocks.toNat =
        (card.blockWords q.startBlock.toNat q.numBlocks.toNat).length := by
      simp [Card.blockWords, sentHost, data, readData]
    obtain ⟨es, hturns, hall⟩ := turns_of_stream hstream (c := 0)
      (fun _ => length_blockWords) hcount hbusy rfl rfl
    have hsent := (@runs_send_command host cmd data R1_short _ _ _ _).mpr
      ⟨sdcmd, _, hwait, .inr ⟨hoff, hsts, rfl, rfl, rfl⟩⟩
    have hafter : Runs (afterSent 0 (sentHost host cmd data)) ρ₁
        (0, { sentHost host cmd data with cmd := none }) [.finished 0 [rsp]] ρ₂ := by
      rw [afterSent, if_pos ⟨rfl, hbusy⟩]
      exact (runs_finish_command rfl R1_present R1_short).mpr
        ⟨sdcmd', _, hwait', .inr ⟨hoff', .inr ⟨hfail, rsp, rfl, rfl, rfl⟩⟩⟩
    have hrun := (runs_send_cmd (power_readData q.numBlocks q.dest)).mpr ⟨edm, ρ, rfl, .inr
      ⟨fun h => h.1 hidle, _, _, _, _, _, _, _, hsent, hafter, hturns, rfl⟩⟩
    refine ⟨_, hrest ▸ hrun, fun m => ?_⟩
    have hwrites : Storeless (sendWrites hsts cmd data) :=
      storeless_of_writes (writes_sendWrites hsts cmd data)
    have hquiet : Storeless [.sent 0, .finished 0 [rsp]] := by simp [Storeless]
    rw [written_append, written_storeless hwrites]
    exact hall m

/-! ## The end of a transfer -/

theorem turns_of_busyEnds {rsp : Word} (h : BusyEnds rsp ρ ρ') {host : sdhost_state} {c : Int}
    (hcmd : host.cmd = some stopCmd) (hbusy : host.use_busy = true) (hdata : host.data = none) :
    ∃ es, Turns sendTurn (host, c) ρ (0, { host with cmd := none, use_busy := false }) es ρ' ∧
      Storeless es := by
  have hturn {host' : sdhost_state} {c : Int} {intmask : Word} {ρ ρ' : List Word}
      {es : List Event} (hclean : Clean intmask)
      (hrun : Runs (busyEnd host intmask) ρ host' es ρ') (hnone : host'.data = none) :
      Runs (sendTurn (host, c)) (intmask :: ρ) (.inl (host', 0)) (.status intmask :: es) ρ' := by
    have hchecked : Runs (transmitChecked host intmask) ρ (0, host') (es ++ []) ρ' := by
      refine runs_bind.mpr ⟨host', es, ρ', [], hrun, ?_, rfl⟩
      rw [hnone]
      exact runs_pure.mpr ⟨rfl, rfl, rfl⟩
    rw [List.append_nil] at hchecked
    exact (runs_sendTurn (.inl hbusy)).mpr ⟨0, host', runs_transmit.mpr
      ⟨intmask, ρ, es, rfl, rfl, .inr ⟨hclean, hchecked⟩⟩, rfl⟩
  induction h generalizing c with
  | @busy intmask ρ _ hclean hirpt _ ih =>
    obtain ⟨es, hturns, hquiet⟩ := @ih 0
    have hsame : Runs (busyEnd host intmask) ρ host [] ρ := by
      rw [busyEnd, if_neg fun h => h.2 hirpt]
      exact runs_pure.mpr ⟨rfl, rfl, rfl⟩
    refine ⟨_, .next (hturn hclean hsame hdata) hturns, ?_⟩
    exact Storeless.append (by simp [Storeless]) hquiet
  | @ended intmask sdcmd ρ ρ' hclean hirpt hwait hoff hgood =>
    have hfinish : Runs (bcm2835_finish_command { host with use_busy := false }) ρ
        (0, { host with cmd := none, use_busy := false }) [.finished 0 [rsp]] ρ' :=
      runs_finished hcmd hwait hoff hgood rfl
    have hover : Runs (busyEnd host intmask) ρ { host with cmd := none, use_busy := false }
        (.writel SDHSTS_BUSY_IRPT .SDHSTS :: ([.finished 0 [rsp]] ++ [])) ρ' := by
      rw [busyEnd, if_pos ⟨hbusy, hirpt⟩]
      exact runs_note_bind.mpr ⟨_, rfl, runs_bind.mpr ⟨_, _, ρ', [], hfinish,
        runs_pure.mpr ⟨rfl, rfl, rfl⟩, rfl⟩⟩
    have hidle : ¬ ((false : Bool) = true ∨ host.data.isSome = true) := by
      rw [hdata]
      decide
    have hlast : Turns sendTurn ({ host with cmd := none, use_busy := false }, 0) ρ'
        (0, { host with cmd := none, use_busy := false }) [] ρ' :=
      .last ((runs_sendTurn_idle hidle).mpr ⟨rfl, rfl, rfl⟩)
    refine ⟨_, .next (hturn hclean hover hdata) hlast, ?_⟩
    simp [Storeless]

/-- The command that stops a transfer. -/
theorem runs_stop (h : card.ServesStop s ρ s' ρ') :
    ∃ es, Runs (bcm2835_send_cmd restHost stopCmd none) ρ (0, restHost) es ρ' ∧ Storeless es := by
  cases h with
  | @intro _ _ edm sdcmd hsts rsp ρ ρ₁ _ _ hwait hoff hends =>
    have hcmd : (sentHost restHost stopCmd none).cmd = some stopCmd := rfl
    obtain ⟨es, hturns, hquiet⟩ := turns_of_busyEnds (c := 0) hends hcmd (by decide) rfl
    have hshort : stopCmd.resp_type &&& MMC_RSP_136 = 0 := by decide
    have hsent := (@runs_send_command restHost stopCmd none hshort _ _ _ _).mpr
      ⟨sdcmd, _, hwait, .inr ⟨hoff, hsts, rfl, rfl, rfl⟩⟩
    have hafter : Runs (afterSent 0 (sentHost restHost stopCmd none)) ρ₁
        (0, sentHost restHost stopCmd none) [] ρ₁ := by
      rw [afterSent, if_neg (by decide)]
      exact runs_pure.mpr ⟨rfl, rfl, rfl⟩
    refine ⟨_, (runs_send_cmd rfl).mpr ⟨edm, ρ, rfl, .inr ⟨fun h => h.2 rfl, _, _, _, _, _, _, _,
      hsent, hafter, hturns, rfl⟩⟩, ?_⟩
    have hsend : Storeless [.sent 0] := by simp [Storeless]
    exact (storeless_of_writes (writes_sendWrites hsts stopCmd none)).append (hsend.append hquiet)

/-! ## The calls -/

theorem served_read {high_capacity : Bool} (hs : s.state = .tran)
    (h : card.ServesRead (readCmd high_capacity q.startBlock q.numBlocks) q.numBlocks.toNat
      s ρ s' ρ') : s'.state = if q.numBlocks > 1 then .data else .tran := by
  cases h with
  | intro hreact =>
    unfold readCmd at hreact
    by_cases hmany : q.numBlocks > 1
    · rw [if_pos hmany, react_read_multiple hs] at hreact
      rw [if_pos hmany, ← (Prod.mk.inj hreact).2]
    · rw [if_neg hmany, react_read_single hs] at hreact
      rw [if_neg hmany, ← (Prod.mk.inj hreact).2]
      exact hs

theorem served_stop (hs : s.state = .data) (h : card.ServesStop s ρ s' ρ') : s'.state = .tran := by
  cases h with
  | intro hreact =>
    rw [react_stop hs] at hreact
    rw [← (Prod.mk.inj hreact).2]

/-- A call of `mmc_read_blocks`. -/
theorem runs_request (host : sdhost_state) (hs : s.state = .tran) (hhas : card.Has q)
    (h : card.Reads card.high_capacity q s ρ s' ρ') :
    ∃ r host' es, Runs (mmc_read_blocks host card.high_capacity q.startBlock q.numBlocks q.dest) ρ
        (r, host') es ρ' ∧ r.ret = false ∧ s'.state = .tran ∧
      ∀ m, written m es = writeWords m q.dest
        (card.blockWords q.startBlock.toNat q.numBlocks.toNat).flatten := by
  obtain ⟨s₁, ρ₁, hread, hrest⟩ := h
  have hstate := served_read hs hread
  obtain ⟨es, hrun, hall⟩ := runs_read host (blockAt_readCmd hhas) hread
  have hheard := runs_heard.mpr ⟨hrun, rfl⟩
  by_cases hmany : q.numBlocks > 1
  · rw [if_pos hmany] at hrest hstate
    obtain ⟨fs, hstop, hquiet⟩ := runs_stop hrest
    have hstopped := runs_heard.mpr ⟨hstop, rfl⟩
    refine ⟨_, _, _, runs_bind.mpr ⟨_, es, ρ₁, fs ++ [], hheard, runs_ite.mpr (.inr
      ⟨not_not.mpr rfl, runs_ite.mpr (.inl ⟨hmany, runs_bind.mpr ⟨_, fs, ρ', [], hstopped,
        runs_ite.mpr (.inr ⟨not_not.mpr rfl, runs_pure.mpr ⟨rfl, rfl, rfl⟩⟩), rfl⟩⟩)⟩), rfl⟩, rfl,
      served_stop hstate hrest, fun m => ?_⟩
    rw [List.append_nil, written_append, written_storeless hquiet, hall]
  · rw [if_neg hmany] at hrest hstate
    obtain ⟨rfl, rfl⟩ := hrest
    refine ⟨_, _, _, runs_bind.mpr ⟨_, es, ρ', [], hheard, runs_ite.mpr (.inr ⟨not_not.mpr rfl,
      runs_ite.mpr (.inr ⟨hmany, runs_pure.mpr ⟨rfl, rfl, rfl⟩⟩)⟩), rfl⟩, rfl, hstate, fun m => ?_⟩
    rw [List.append_nil, hall]

theorem runs_readAll {qs : List Request} (hs : s.state = .tran) (hhas : ∀ q ∈ qs, card.Has q)
    (h : card.ReadsAll card.high_capacity qs s ρ s' ρ') (host : sdhost_state) :
    ∃ host' es, Runs (readAll card.high_capacity qs host) ρ
        (List.replicate qs.length false, host') es ρ' ∧
      ∀ m, written m es = card.contents m qs := by
  induction h generalizing host with
  | nil => exact ⟨host, [], runs_pure.mpr ⟨rfl, rfl, rfl⟩, fun _ => rfl⟩
  | @cons q qs s s₁ s' ρ ρ₁ ρ' hq _ ih =>
    obtain ⟨r, host₁, es, hrun, hret, htran, hall⟩ :=
      runs_request host hs (hhas q List.mem_cons_self) hq
    have htail : ∀ q' ∈ qs, card.Has q' := fun q' hq' => hhas q' (List.mem_cons_of_mem _ hq')
    obtain ⟨host', fs, hruns, hrest⟩ := ih htran htail host₁
    refine ⟨host', es ++ (fs ++ []), runs_bind.mpr ⟨_, es, ρ₁, _, hrun, runs_bind.mpr
      ⟨_, fs, ρ', [], hruns, runs_pure.mpr ⟨?_, rfl, rfl⟩, rfl⟩, rfl⟩, fun m => ?_⟩
    · rw [hret]
      rfl
    · rw [List.append_nil, written_append, hall, hrest]
      rfl

/-- From the first command to the last word of any reads: when `use_sdhost` has brought up a
card, every read of blocks that it has says that it has not failed, and the blocks stand in the
memory, whichever way the card is addressed and however its FIFO and its busy signals go. -/
theorem the_blocks_of_the_card_are_read {m : mmc} {voltages : Word} {r : Int × mmc}
    {qs : List Request} {s₁ : Status} {ρ₁ : List Word} (hs : s.state ≠ .inactive)
    (hm : m.high_capacity = false) (host : sdhost_state)
    (h : EndsOn card.Serves s (use_sdhost m voltages) ρ r s₁ ρ₁) (hr : r.1 = 0)
    (hhas : ∀ q ∈ qs, card.Has q)
    (hreads : card.ReadsAll r.2.high_capacity qs s₁ ρ₁ s' ρ') :
    ∃ host₁ es₁ host₂ es₂, Runs (init_sdcard m voltages host) ρ (r, host₁) es₁ ρ₁ ∧
      Runs (readAll r.2.high_capacity qs host₁) ρ₁
        (List.replicate qs.length false, host₂) es₂ ρ' ∧
      ∀ mem, written mem es₂ = card.contents mem qs := by
  obtain ⟨host₁, es₁, hinit⟩ := runs_init host h
  rcases outcome_of_endsOn h hs with ⟨-, hselected, hhigh, -, -⟩ | ⟨hfailed, -, -⟩
  · rw [hm, Bool.false_or] at hhigh
    rw [hhigh] at hreads ⊢
    obtain ⟨host₂, es₂, hrun, hall⟩ := runs_readAll hselected.state hhas hreads host₁
    exact ⟨host₁, es₁, host₂, es₂, hinit, hrun, hall⟩
  · rw [hr] at hfailed
    cases hfailed

theorem fifo_fullBursts (k : Nat) (ρ : List Word) :
    Fifo (List.replicate (16 * k) 0x5a5a5a5a) ((List.replicate k fullBurst).flatten ++ ρ) ρ := by
  induction k with
  | zero => exact .done
  | succ k ih =>
    have hfull : (edm_fifo_fill 0x102).toNat = 16 := by decide
    have hsplit : List.replicate (16 * (k + 1)) (0x5a5a5a5a : Word) =
        List.replicate 16 0x5a5a5a5a ++ List.replicate (16 * k) 0x5a5a5a5a := by
      rw [List.replicate_append_replicate, Nat.mul_succ, Nat.add_comm]
    have hlen : (List.replicate 16 (0x5a5a5a5a : Word) ++
        List.replicate (16 * k) 0x5a5a5a5a).length = 16 * k + 16 := by
      rw [← hsplit, List.length_replicate, Nat.mul_succ]
    rw [hsplit]
    refine .burst (by simp) ?_ ?_ ih
    · rw [hlen]
      simp only [Short, hfull, SDDATA_FIFO_PIO_BURST]
      omega
    · rw [hlen, hfull, List.length_replicate]
      omega

theorem fifo_block (ρ : List Word) :
    Fifo (List.replicate 128 0x5a5a5a5a) ((List.replicate 8 fullBurst).flatten ++ [0] ++ ρ)
      (0 :: ρ) := by
  have hfifo := fifo_fullBursts 8 (0 :: ρ)
  rw [List.append_assoc]
  exact hfifo

/-- Two blocks, and the end of the transfer in the data mode. -/
theorem stream_two_blocks (ρ : List Word) :
    Stream (smallCard.blockWords 5 2) (blockRegisters ++ (blockRegisters ++ 1 :: ρ)) ρ := by
  have hwords : smallCard.blockWords 5 2 = List.replicate 2 (List.replicate 128 0x5a5a5a5a) := by
    simp [Card.blockWords, smallCard, List.map_const', List.replicate]
  have hturn : Runs (completeTurn 0) (1 :: ρ) (.inr 0) [] ρ := by
    refine runs_ask_bind.mpr ⟨1, ρ, rfl, runs_ite.mpr (.inl ⟨.inr (by decide), ?_⟩)⟩
    exact runs_pure.mpr ⟨rfl, rfl, rfl⟩
  have hend : Runs bcm2835_wait_transfer_complete (1 :: ρ) 0 [] ρ :=
    runs_bind.mpr ⟨_, _, _, [], hturn, runs_pure.mpr ⟨rfl, rfl, rfl⟩, rfl⟩
  rw [hwords]
  exact .next (by simp) clean_zero (fifo_block _) clean_zero
    (.last clean_zero (fifo_block _) clean_zero hend)

theorem serves_two_blocks (hs : s.state = .tran) :
    ∃ s' ρ, smallCard.Reads true ⟨5, 2, 0x1000⟩ s ρ s' [] := by
  have hoff : (0 : Word) &&& HC_CMD_ENABLE = 0 := by decide
  let stop : List Word := [1, 0, 0, 0, 0x400, 0, 0, 0x700]
  have hread : smallCard.ServesRead (readCmd true 5 2) 2 s ([1, 0, 0, 0, 0, 0, 0x700] ++
      (blockRegisters ++ (blockRegisters ++ 1 :: stop))) { s with app := false, state := .data }
      stop := by
    have htaken : smallCard.react firstChoice s (readCmd true 5 2) = _ := react_read_multiple hs
    exact .intro htaken rfl (by decide) (.inr (by decide)) (waits_free hoff 0 _) hoff
      (waits_free hoff 0 _) hoff (by decide) (stream_two_blocks stop)
  have hstop : smallCard.ServesStop { s with app := false, state := .data } stop
      { s with app := false, state := .tran } [] := by
    have htaken : smallCard.react firstChoice { s with app := false, state := .data } stopCmd = _ :=
      react_stop rfl
    have hends : BusyEnds 0x700 [0x400, 0, 0, 0x700] [] :=
      .ended (by unfold Clean; decide) (by decide) (waits_free hoff 0 [0x700]) hoff (by decide)
    exact .intro htaken (waits_free hoff 0 _) hoff hends
  exact ⟨_, _, _, _, hread, hstop⟩

/-- The card of 8 GB is brought up, and two of its blocks are read to 0x1000. -/
theorem two_blocks_of_the_card_of_8_GB : ∃ ρ r ρ₁ host₁ es₁ host₂ es₂,
    Runs (init_sdcard freshMmc 0xff8000 restHost) ρ (r, host₁) es₁ ρ₁ ∧
      Runs (readAll r.2.high_capacity [⟨5, 2, 0x1000⟩] host₁) ρ₁ ([false], host₂) es₂ [] ∧
      ∀ mem, written mem es₂ = smallCard.contents mem [⟨5, 2, 0x1000⟩] := by
  have htran : smallRun.2.2.state = .tran := by decide +kernel
  have hhigh : smallRun.2.1.2.high_capacity = true := by decide +kernel
  obtain ⟨s', ρ₁, hreads⟩ := serves_two_blocks htran
  have hall : smallCard.ReadsAll smallRun.2.1.2.high_capacity [⟨5, 2, 0x1000⟩] smallRun.2.2 ρ₁ s'
      [] := by
    rw [hhigh]
    exact .cons hreads .nil
  have hhas : ∀ q ∈ [(⟨5, 2, 0x1000⟩ : Request)], smallCard.Has q := by
    simp [Card.Has, smallCard]
  exact ⟨_, _, _, the_blocks_of_the_card_are_read (by decide) rfl restHost (smallRun_ends ρ₁)
    (by decide +kernel) hhas hall⟩

end rpi_wifi.sdcard
