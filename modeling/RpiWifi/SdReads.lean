-- The reads of the SD host driver. `mmc_read_blocks` gives true when a call of
-- `bcm2835_send_cmd` fails, and its callers take true for a read that was done.
import RpiWifi.SdHostLaws

namespace rpi_wifi.sdhost

open conversations

/-! ## The blocks of a read -/

/-- The values of the registers with which the blocks that are left are read: no flag is seen,
every block is copied to its last word, and the transfer ends. -/
inductive Blocks : Word → List Word → List Word → Prop
  | last {intmask hsts : Word} {fs : List Event} {ρ ρ₁ ρ' : List Word} : Clean intmask →
      Fills 128 ρ (hsts :: ρ₁) → Clean hsts → Runs bcm2835_wait_transfer_complete ρ₁ 0 fs ρ' →
      Blocks 1 (intmask :: ρ) ρ'
  | next {blocks intmask hsts : Word} {ρ ρ₁ ρ' : List Word} : blocks ≠ 1 → Clean intmask →
      Fills 128 ρ (hsts :: ρ₁) → Clean hsts → Blocks (blocks - 1) ρ₁ ρ' →
      Blocks blocks (intmask :: ρ) ρ'

/-- The wait for the end of a transfer only writes. -/
theorem writes_of_complete {ret : Int} {fs : List Event} {ρ ρ' : List Word}
    (h : Runs bcm2835_wait_transfer_complete ρ ret fs ρ') :
    ∀ e ∈ fs, ∃ val reg, e = .writel val reg := by
  refine (turns_of_loopFor h).notes (P := fun e => ∃ val reg, e = .writel val reg) ?_
  intro s ρ r es ρ' hturn
  simp only [completeTurn, readl, writel, runs_ask_bind, runs_ite, runs_note_bind,
    runs_pure] at hturn
  obtain ⟨edm, ρ₁, rfl, hturn⟩ := hturn
  rcases hturn with ⟨-, -, rfl, -⟩ | ⟨-, hturn⟩
  · simp
  · rcases hturn with ⟨-, es₁, rfl, -, rfl, -⟩ | ⟨-, ⟨-, -, rfl, -⟩ | ⟨-, -, rfl, -⟩⟩
    · simp
    · simp
    · simp

/-- A flag was seen. -/
def Flagged (es : List Event) : Prop := ∃ hsts, .status hsts ∈ es ∧ ¬ Clean hsts

theorem not_completed_copy {k : Nat} {hsts : Word} {ret : Int} {s : Nat × Nat}
    {es : List Event} {ρ ρ' : List Word} (h : Turns copyTurn s ρ k es ρ') :
    .completed ret ∉ es ++ [.copied k, .status hsts] := by
  simp only [List.mem_append, List.mem_cons, List.not_mem_nil, reduceCtorEq, or_false]
  exact fun hin => copying_of_copy h _ hin

theorem turns_idle {host : sdhost_state} {c : Int} {r : Int × sdhost_state} {es : List Event}
    {ρ ρ' : List Word} (hidle : ¬ (host.use_busy = true ∨ host.data.isSome = true))
    (h : Turns sendTurn (host, c) ρ r es ρ') : r = (c, host) ∧ es = [] ∧ ρ' = ρ := by
  cases h with
  | last hturn =>
    obtain ⟨heq, hes, hρ⟩ := (runs_sendTurn_idle hidle).mp hturn
    exact ⟨Sum.inr.inj heq, hes, hρ⟩
  | next hturn =>
    obtain ⟨heq, -, -⟩ := (runs_sendTurn_idle hidle).mp hturn
    cases heq

/-- What the loop of a call shows of the blocks it transfers. -/
theorem blocks_of_turns {s : sdhost_state × Int} {r : Int × sdhost_state} {es : List Event}
    {ρ ρ' : List Word} (h : Turns sendTurn s ρ r es ρ') {d : mmc_data}
    (hbusy : s.1.use_busy = false) (hdata : s.1.data = some d)
    (hd : d.blocksize = read_bl_len) :
    (r.1 ≠ 0 → Flagged es ∨ .completed 0 ∉ es) ∧
      (r.1 = 0 → (∀ k, .copied k ∈ es → k = 0) → Blocks s.1.blocks ρ ρ') := by
  have hmore {host : sdhost_state} {d : mmc_data} (hdata : host.data = some d) :
      host.use_busy = true ∨ host.data.isSome = true := .inr (by rw [hdata]; rfl)
  induction h generalizing d with
  | @last s ρ ρ' r es hturn =>
    obtain ⟨host, c⟩ := s
    obtain ⟨ret, h', hrun, heq⟩ := (runs_sendTurn (hmore hdata)).mp hturn
    have hret : ret ≠ 0 := by
      rintro rfl
      cases heq
    rw [if_pos hret] at heq
    cases heq
    refine ⟨fun _ => ?_, fun hzero => absurd hzero hret⟩
    obtain ⟨intmask, ρ₁, es₁, rfl, rfl, ⟨hflag, -, -, -⟩ | ⟨-, hrest⟩⟩ := runs_transmit.mp hrun
    · exact .inl ⟨intmask, List.mem_cons_self, hflag⟩
    · rw [runs_transmitChecked_data hbusy hdata, runs_transmitData hd] at hrest
      cases hrest with
      | @flagged k es₂ hsts _ _ hcopy hflag => exact .inl ⟨hsts, by simp, hflag⟩
      | next => exact absurd rfl hret
      | last hcopy _ _ hwait =>
        right
        intro hin
        rcases List.mem_cons.mp hin with heq | hin
        · cases heq
        · rcases List.mem_append.mp hin with hin | hin
          · exact not_completed_copy hcopy hin
          · rcases List.mem_append.mp hin with hin | hin
            · obtain ⟨val, reg, heq⟩ := writes_of_complete hwait _ hin
              cases heq
            · exact hret (Event.completed.inj (List.mem_singleton.mp hin)).symm
  | @next s s' ρ ρ₁ ρ' r es es' hturn hturns ih =>
    obtain ⟨host, c⟩ := s
    obtain ⟨ret, h', hrun, heq⟩ := (runs_sendTurn (hmore hdata)).mp hturn
    have hret : ret = 0 := by
      by_contra hret
      rw [if_pos hret] at heq
      cases heq
    subst hret
    cases heq
    obtain ⟨intmask, ρ₂, es₁, rfl, rfl, ⟨hflag, heq, -, -⟩ | ⟨hclean, hrest⟩⟩ :=
      runs_transmit.mp hrun
    · have hcode := congrArg Prod.fst heq
      exact absurd ((transmitCode_eq_zero_iff host intmask).mp hcode.symm) hflag
    · rw [runs_transmitChecked_data hbusy hdata, runs_transmitData hd] at hrest
      generalize hr : ((0 : Int), h') = r' at hrest
      cases hrest with
      | flagged hcopy hflag =>
        have hcode := congrArg Prod.fst hr
        exact absurd ((pioCode_eq_zero_iff _).mp hcode.symm) hflag
      | @next k es₂ hsts _ _ hcopy hhsts hblocks =>
        cases hr
        obtain ⟨hbad, hgood⟩ := ih hbusy rfl hd
        refine ⟨fun hx => ?_, fun hx hcopied => ?_⟩
        · rcases hbad hx with ⟨v, hv, hflag⟩ | hnot
          · exact .inl ⟨v, List.mem_append_right _ hv, hflag⟩
          · right
            rw [List.mem_append, List.mem_cons]
            rintro ((heq | hin) | hin)
            · cases heq
            · exact not_completed_copy hcopy hin
            · exact hnot hin
        · have hk : k = 0 := hcopied k (by simp)
          refine .next hblocks hclean (fills_of_copy hcopy hk) hhsts (hgood hx fun k hk => ?_)
          exact hcopied k (List.mem_append_right _ hk)
      | @last k es₂ fs hsts ret _ ρ₃ _ hcopy hhsts hblocks hwait =>
        cases hr
        have hidle : ¬ (host.use_busy = true ∨ (none : Option mmc_data).isSome = true) := by
          rw [show host.use_busy = false from hbusy]
          decide
        obtain ⟨rfl, rfl, rfl⟩ := turns_idle hidle hturns
        refine ⟨fun hx => absurd rfl hx, fun _ hcopied => ?_⟩
        have hk : k = 0 := hcopied k (by simp)
        rw [hblocks]
        exact .last hclean (fills_of_copy hcopy hk) hhsts hwait

theorem good_writes {es : List Event} (h : ∀ e ∈ es, ∃ val reg, e = .writel val reg) :
    ∀ e ∈ es, Good e := by
  intro e he
  obtain ⟨val, reg, rfl⟩ := h e he
  trivial

/-- Blocks that are there for the registers are read. -/
theorem turns_of_blocks {blocks : Word} {ρ ρ' : List Word} (h : Blocks blocks ρ ρ')
    {host : sdhost_state} {c : Int} {d : mmc_data} (hblocks : host.blocks = blocks)
    (hbusy : host.use_busy = false) (hdata : host.data = some d)
    (hd : d.blocksize = read_bl_len) :
    ∃ es, Turns sendTurn (host, c) ρ (0, { host with data := none, blocks := 0 }) es ρ' ∧
      StoresAll d.dest (128 * blocks.toNat) es ∧ .completed 0 ∈ es := by
  have hmore {host : sdhost_state} {d : mmc_data} (hdata : host.data = some d) :
      host.use_busy = true ∨ host.data.isSome = true := .inr (by rw [hdata]; rfl)
  have hturn {host : sdhost_state} {c : Int} {d : mmc_data} {intmask : Word} {h' : sdhost_state}
      {es : List Event} {ρ ρ' : List Word} (hclean : Clean intmask)
      (hbusy : host.use_busy = false) (hdata : host.data = some d)
      (hd : d.blocksize = read_bl_len) (hend : BlockEnd host d ρ (0, h') es ρ') :
      Runs (sendTurn (host, c)) (intmask :: ρ) (.inl (h', 0)) (.status intmask :: es) ρ' := by
    have hrun := (runs_transmitData hd).mpr hend
    rw [← runs_transmitChecked_data hbusy hdata] at hrun
    exact (runs_sendTurn (hmore hdata)).mpr ⟨0, h', runs_transmit.mpr
      ⟨intmask, ρ, es, rfl, rfl, .inr ⟨hclean, hrun⟩⟩, rfl⟩
  have hstatus {hsts : Word} (hclean : Clean hsts) : ∀ e ∈ [Event.status hsts], Good e := by
    simpa [Good] using hclean
  induction h generalizing host c d with
  | @last intmask hsts fs ρ ρ₁ ρ' hclean hfills hhsts hwait =>
    obtain ⟨es, hcopy, hall⟩ := copy_of_fills hfills d.dest
    have hend : BlockEnd host d ρ _ _ ρ' := .last hcopy hhsts hblocks hwait
    have hzero : host.blocks - 1 = 0 := sub_eq_zero.mpr hblocks
    rw [if_pos rfl, hzero] at hend
    have hidle : ¬ (({ host with data := none, blocks := 0 } : sdhost_state).use_busy = true ∨
        (none : Option mmc_data).isSome = true) := by
      rw [hbusy]
      decide
    have hlast : Turns sendTurn ({ host with data := none, blocks := 0 }, 0) ρ' (0, _) [] ρ' :=
      .last ((runs_sendTurn_idle hidle).mpr ⟨rfl, rfl, rfl⟩)
    refine ⟨_, .next (hturn hclean hbusy hdata hd hend) hlast, ?_, ?_⟩
    · have hafter : ∀ e ∈ [Event.copied 0, .status hsts] ++ (fs ++ [.completed 0]), Good e := by
        refine List.forall_mem_append.mpr ⟨?_, List.forall_mem_append.mpr ⟨?_, ?_⟩⟩
        · exact List.forall_mem_cons.mpr ⟨rfl, hstatus hhsts⟩
        · exact good_writes (writes_of_complete hwait)
        · simp [Good]
      have hwhole := hall.between (hstatus hclean) hafter
      simpa using hwhole
    · simp
  | @next blocks intmask hsts ρ ρ₁ ρ' hne hclean hfills hhsts _ ih =>
    obtain ⟨es, hcopy, hall⟩ := copy_of_fills hfills d.dest
    have hend : BlockEnd host d ρ _ _ ρ₁ := .next hcopy hhsts (hblocks ▸ hne)
    have hblocks' : host.blocks - 1 = blocks - 1 := by rw [hblocks]
    obtain ⟨fs, hturns, hrest, hdone⟩ :=
      @ih { host with data := some (nextData d), blocks := host.blocks - 1 } 0 (nextData d)
        hblocks' hbusy rfl hd
    refine ⟨_, .next (hturn hclean hbusy hdata hd hend) hturns, ?_, List.mem_append_right _ hdone⟩
    have hafter : ∀ e ∈ [Event.copied 0, .status hsts], Good e :=
      List.forall_mem_cons.mpr ⟨rfl, hstatus hhsts⟩
    have hfirst := hall.between (hstatus hclean) hafter
    refine (hfirst.append hrest).mono ?_
    by_cases hz : blocks = 0
    · simp [hz]
    · have hpos : blocks.toNat ≠ 0 := fun h => hz (BitVec.eq_of_toNat_eq h)
      have hprev : (blocks - 1).toNat = blocks.toNat - 1 := by
        have hlt := blocks.isLt
        have hone : (1 : Word).toNat = 1 := rfl
        rw [BitVec.toNat_sub, hone]
        omega
      omega

/-! ## The call that reads -/

/-- A read was done: its command was sent and finished, the transfer ended, there is a store
for each word of the blocks, and no error was reported and no error flag seen. -/
structure Done (dest : Nat) (numBlocks : Word) (es : List Event) : Prop where
  sent : .sent 0 ∈ es
  finished : ∃ response, .finished 0 response ∈ es
  completed : .completed 0 ∈ es
  stored : ∀ i < 128 * numBlocks.toNat, ∃ w, .store (dest + 4 * i) w ∈ es
  unflawed : ∀ e ∈ es, Good e

/-- No step of a call failed: the command was sent and finished, and no block was left half
copied. -/
def Unfailed (es : List Event) : Prop :=
  (∀ ret, .sent ret ∈ es → ret = 0) ∧ (∀ ret ws, .finished ret ws ∈ es → ret = 0) ∧
    ∀ left, .copied left ∈ es → left = 0

/-- The values of the registers with which a read goes well. -/
def ReadsWell (numBlocks : Word) (ρ ρ' : List Word) : Prop :=
  ∃ edm sdcmd hsts sdcmd' rsp ρ₁ ρ₂ ρ₃, ρ = edm :: ρ₁ ∧ Idle edm ∧
    Waits ρ₁ sdcmd (hsts :: ρ₂) ∧ sdcmd &&& HC_CMD_ENABLE = 0 ∧
    Waits ρ₂ sdcmd' (rsp :: ρ₃) ∧ sdcmd' &&& HC_CMD_ENABLE = 0 ∧
    sdcmd' &&& SDCMD_FAIL_FLAG = 0 ∧ Blocks numBlocks ρ₃ ρ'

/-- The host after a read that went well. -/
def restHost : sdhost_state where
  cmd := none
  use_busy := false
  data := none
  blocks := 0

section

variable {host : sdhost_state} {high_capacity : Bool} {startBlock numBlocks : Word} {dest : Nat}
  {r : Int × sdhost_state} {es : List Event} {ρ ρ' : List Word}

theorem readCmd_ne_stop (high_capacity : Bool) (startBlock numBlocks : Word) :
    (readCmd high_capacity startBlock numBlocks).cmdidx ≠ MMC_CMD_STOP_TRANSMISSION := by
  dsimp only [readCmd]
  split_ifs <;> decide

theorem R1_short : MMC_RSP_R1 &&& MMC_RSP_136 = 0 := by decide

theorem R1_present : MMC_RSP_R1 &&& MMC_RSP_PRESENT ≠ 0 := by decide

theorem not_busy_readCmd (high_capacity : Bool) (startBlock numBlocks : Word) :
    busyAfter (readCmd high_capacity startBlock numBlocks) = false := by
  have hbusy : MMC_RSP_R1 &&& MMC_RSP_BUSY = 0 := by decide
  simp [busyAfter, readCmd, hbusy]

theorem power_readData (numBlocks : Word) (dest : Nat) :
    ((some (readData numBlocks dest)).any fun d => !is_power_of_2 d.blocksize) = false := by
  have hpower : is_power_of_2 read_bl_len = true := by decide
  simp [readData, hpower]

theorem writes_sendWrites (sdhsts : Word) (cmd : mmc_cmd) (data : Option mmc_data) :
    ∀ e ∈ sendWrites sdhsts cmd data, ∃ val reg, e = .writel val reg := by
  unfold sendWrites
  cases data <;> split_ifs <;> simp

/-- A step that failed spoils the read. -/
theorem spoiled {ret : Int} (hne : ret ≠ 0)
    (hin : .sent ret ∈ es ∨ ∃ response, .finished ret response ∈ es) :
    ¬ Done dest numBlocks es ∧ ¬ Unfailed es := by
  rcases hin with hin | ⟨response, hin⟩
  · exact ⟨fun h => hne (h.unflawed _ hin), fun h => hne (h.1 _ hin)⟩
  · exact ⟨fun h => hne (h.unflawed _ hin), fun h => hne (h.2.1 _ _ hin)⟩

/-- A call that reads goes well, or it shows an error that it gives or hides. -/
theorem read_cases (h : Runs (bcm2835_send_cmd host (readCmd high_capacity startBlock numBlocks)
    (some (readData numBlocks dest))) ρ r es ρ') :
    (r.1 ≠ 0 ∧ ¬ Done dest numBlocks es) ∨ (r.1 = 0 ∧ ¬ Unfailed es) ∨
      (r.1 = 0 ∧ ReadsWell numBlocks ρ ρ') := by
  have hspoiled (hbad : ¬ Done dest numBlocks es ∧ ¬ Unfailed es) :
      (r.1 ≠ 0 ∧ ¬ Done dest numBlocks es) ∨ (r.1 = 0 ∧ ¬ Unfailed es) ∨
        (r.1 = 0 ∧ ReadsWell numBlocks ρ ρ') := by
    by_cases hr : r.1 = 0
    · exact .inr (.inl ⟨hr, hbad.2⟩)
    · exact .inl ⟨hr, hbad.1⟩
  obtain ⟨edm, ρ₁, rfl, ⟨-, rfl, rfl, rfl⟩ | ⟨hgo, sent, es₁, ρ₂, ended, es₂, ρ₃, es₃, hsent,
    hended, hturns, hes⟩⟩ := (runs_send_cmd (power_readData numBlocks dest)).mp h
  · refine .inl ⟨by simp, fun hdone => ?_⟩
    cases hdone.sent
  · have hidle : Idle edm := by
      by_contra hnot
      exact hgo ⟨hnot, readCmd_ne_stop _ _ _⟩
    obtain ⟨sdcmd, ρ₄, hwait, ⟨-, rfl, rfl, rfl⟩ | ⟨hoff, hsts, rfl, rfl, rfl⟩⟩ :=
      (runs_send_command R1_short).mp hsent
    · exact hspoiled (@spoiled _ _ _ (-2) (by decide) (.inl (by simp [hes])))
    · have hbusy := not_busy_readCmd high_capacity startBlock numBlocks
      rw [afterSent, if_pos ⟨rfl, hbusy⟩] at hended
      obtain ⟨sdcmd', ρ₅, hwait', ⟨-, rfl, rfl, rfl⟩ | ⟨hoff', hend⟩⟩ :=
        (runs_finish_command rfl R1_present R1_short).mp hended
      · exact hspoiled (@spoiled _ _ _ (-1) (by decide) (.inr ⟨[], by simp [hes]⟩))
      · rcases hend with ⟨-, hsts', rfl, rfl, rfl⟩ | ⟨hfail, rsp, rfl, rfl, rfl⟩
        · exact hspoiled (@spoiled _ _ _ (-1) (by decide) (.inr ⟨[], by simp [hes]⟩))
        · obtain ⟨hbad, hgood⟩ := blocks_of_turns hturns hbusy rfl rfl
          by_cases hr : r.1 = 0
          · by_cases hfine : Unfailed es
            · have hcopied : ∀ k, .copied k ∈ es₃ → k = 0 := by
                intro k hk
                exact hfine.2.2 k (by simp [hes, hk])
              exact .inr (.inr ⟨hr, edm, sdcmd, hsts, sdcmd', rsp, _, _, _, rfl, hidle, hwait, hoff,
                hwait', hoff', hfail, hgood hr hcopied⟩)
            · exact .inr (.inl ⟨hr, hfine⟩)
          · refine .inl ⟨hr, fun hdone => ?_⟩
            rcases hbad hr with ⟨v, hv, hflag⟩ | hnot
            · exact hflag (hdone.unflawed (.status v) (by simp [hes, hv]))
            · have hin := hdone.completed
              rw [hes] at hin
              rcases List.mem_append.mp hin with hin | hin
              · obtain ⟨val, reg, heq⟩ := writes_sendWrites _ _ _ _ hin
                cases heq
              · simp only [List.mem_cons, List.cons_append, List.nil_append, reduceCtorEq,
                  false_or] at hin
                exact hnot hin

/-- A read for which the registers are good is done. -/
theorem done_of_readsWell (host : sdhost_state) (high_capacity : Bool) (startBlock : Word)
    (dest : Nat) (h : ReadsWell numBlocks ρ ρ') :
    ∃ es, Runs (bcm2835_send_cmd host (readCmd high_capacity startBlock numBlocks)
        (some (readData numBlocks dest))) ρ (0, restHost) es ρ' ∧ Done dest numBlocks es := by
  obtain ⟨edm, sdcmd, hsts, sdcmd', rsp, ρ₁, ρ₂, ρ₃, rfl, hidle, hwait, hoff, hwait', hoff',
    hfail, hblocks⟩ := h
  have hbusy := not_busy_readCmd high_capacity startBlock numBlocks
  set cmd := readCmd high_capacity startBlock numBlocks
  set data := some (readData numBlocks dest)
  have hrest : ({ sentHost host cmd data with cmd := none, data := none, blocks := 0 } :
      sdhost_state) = restHost := by
    simp [sentHost, restHost, hbusy]
  obtain ⟨es₃, hturns, hall, hcompleted⟩ := @turns_of_blocks _ _ _ hblocks
    { sentHost host cmd data with cmd := none } 0 (readData numBlocks dest) rfl hbusy rfl rfl
  have hsent := (@runs_send_command host cmd data R1_short _ _ _ _).mpr
    ⟨sdcmd, _, hwait, .inr ⟨hoff, hsts, rfl, rfl, rfl⟩⟩
  have hafter : Runs (afterSent 0 (sentHost host cmd data)) ρ₂
      (0, { sentHost host cmd data with cmd := none }) [.finished 0 [rsp]] ρ₃ := by
    rw [afterSent, if_pos ⟨rfl, hbusy⟩]
    exact (runs_finish_command rfl R1_present R1_short).mpr
      ⟨sdcmd', _, hwait', .inr ⟨hoff', .inr ⟨hfail, rsp, rfl, rfl, rfl⟩⟩⟩
  have hrun := (runs_send_cmd (power_readData numBlocks dest)).mpr ⟨edm, ρ₁, rfl, .inr
    ⟨fun h => h.1 hidle, _, _, _, _, _, _, _, hsent, hafter, hturns, rfl⟩⟩
  refine ⟨_, hrest ▸ hrun, ⟨by simp, ⟨[rsp], by simp⟩, by simp [hcompleted], ?_, ?_⟩⟩
  · intro i hi
    obtain ⟨w, hw⟩ := hall.2 i hi
    have hat : (readData numBlocks dest).dest = dest := rfl
    rw [hat] at hw
    exact ⟨w, by simp [hw]⟩
  · refine List.forall_mem_append.mpr ⟨good_writes (writes_sendWrites _ _ _), ?_⟩
    exact List.forall_mem_cons.mpr ⟨rfl, List.forall_mem_cons.mpr ⟨rfl, hall.1⟩⟩

end

/-! ## The call that stops -/

/-- An error flag is seen before the end of the busy signal. -/
def FlagFirst : List Word → Prop
  | [] => False
  | hsts :: ρ => ¬ Clean hsts ∨ hsts &&& SDHSTS_BUSY_IRPT = 0 ∧ FlagFirst ρ

/-- The values of the registers with which the command that stops a transfer is not sent, or
ends with an error flag. -/
def FailsToStop (ρ : List Word) : Prop :=
  ∃ edm sdcmd ρ₁ ρ₂, ρ = edm :: ρ₁ ∧ Waits ρ₁ sdcmd ρ₂ ∧
    (sdcmd &&& HC_CMD_ENABLE ≠ 0 ∨ ∃ hsts ρ₃, ρ₂ = hsts :: ρ₃ ∧ FlagFirst ρ₃)

/-- A command that is finished leaves the data, and the busy signal. -/
theorem kept_finish_command {host : sdhost_state} {r : Int × sdhost_state} {es : List Event}
    {ρ ρ' : List Word} (h : Runs (bcm2835_finish_command host) ρ r es ρ') :
    r.2.use_busy = host.use_busy ∧ r.2.data = host.data := by
  unfold bcm2835_finish_command at h
  cases hcmd : host.cmd with
  | none =>
    rw [hcmd] at h
    cases h
  | some cmd =>
    rw [hcmd] at h
    dsimp only at h
    obtain ⟨sdcmd, ρ₁, -, h⟩ := runs_wait_bind.mp h
    simp only [runs_ite, runs_readStatus_bind, runs_note_bind, runs_pure] at h
    rcases h with ⟨-, -, -, rfl, -⟩ | ⟨-, ⟨-, -, -, -, -, -, -, -, rfl, -⟩ | ⟨-, h⟩⟩
    · exact ⟨rfl, rfl⟩
    · exact ⟨rfl, rfl⟩
    · obtain ⟨response, es₁, ρ₂, es₂, -, h, -⟩ := runs_bind.mp h
      obtain ⟨es₃, -, hend⟩ := runs_note_bind.mp h
      obtain ⟨rfl, -, -⟩ := runs_pure.mp hend
      exact ⟨rfl, rfl⟩

/-- The checks are passed and there is no data: the busy signal ends, or nothing happens. -/
theorem transmitChecked_none {host : sdhost_state} {intmask : Word} {r : Int × sdhost_state}
    {es : List Event} {ρ ρ' : List Word} (hbusy : host.use_busy = true)
    (hdata : host.data = none) (h : Runs (transmitChecked host intmask) ρ r es ρ') :
    r.1 = 0 ∧ r.2.data = none ∧
      (intmask &&& SDHSTS_BUSY_IRPT ≠ 0 ∧ r.2.use_busy = false ∨
        intmask &&& SDHSTS_BUSY_IRPT = 0 ∧ r.2 = host ∧ ρ' = ρ) := by
  obtain ⟨h', es₁, ρ₁, es₂, hbusyEnd, hrest, rfl⟩ := runs_bind.mp h
  have hkept : h'.data = none ∧ (intmask &&& SDHSTS_BUSY_IRPT ≠ 0 ∧ h'.use_busy = false ∨
      intmask &&& SDHSTS_BUSY_IRPT = 0 ∧ h' = host ∧ ρ₁ = ρ) := by
    rcases runs_ite.mp hbusyEnd with ⟨⟨-, hirpt⟩, hfinish⟩ | ⟨hnot, hsame⟩
    · obtain ⟨es₃, -, hfinish⟩ := runs_note_bind.mp hfinish
      obtain ⟨r', es₄, ρ₂, es₅, hrun, hend, -⟩ := runs_bind.mp hfinish
      obtain ⟨rfl, -, -⟩ := runs_pure.mp hend
      obtain ⟨hb, hd⟩ := kept_finish_command hrun
      exact ⟨hd.trans hdata, .inl ⟨hirpt, hb⟩⟩
    · obtain ⟨rfl, -, rfl⟩ := runs_pure.mp hsame
      have hirpt : intmask &&& SDHSTS_BUSY_IRPT = 0 := by
        by_contra hirpt
        exact hnot ⟨hbusy, hirpt⟩
      exact ⟨hdata, .inr ⟨hirpt, rfl, rfl⟩⟩
  rw [hkept.1] at hrest
  obtain ⟨rfl, -, rfl⟩ := runs_pure.mp hrest
  exact ⟨rfl, hkept⟩

/-- The call that stops fails when a flag is seen first. -/
theorem stop_turns {s : sdhost_state × Int} {r : Int × sdhost_state} {es : List Event}
    {ρ ρ' : List Word} (h : Turns sendTurn s ρ r es ρ') (hbusy : s.1.use_busy = true)
    (hdata : s.1.data = none) : r.1 ≠ 0 ↔ FlagFirst ρ := by
  induction h with
  | @last s ρ ρ' r es hturn =>
    obtain ⟨host, c⟩ := s
    obtain ⟨ret, h', hrun, heq⟩ := (runs_sendTurn (.inl hbusy)).mp hturn
    have hret : ret ≠ 0 := by
      rintro rfl
      cases heq
    rw [if_pos hret] at heq
    cases heq
    obtain ⟨intmask, ρ₁, es₁, rfl, -, ⟨hflag, -, -, -⟩ | ⟨-, hrest⟩⟩ := runs_transmit.mp hrun
    · exact iff_of_true hret (.inl hflag)
    · exact absurd (transmitChecked_none hbusy hdata hrest).1 hret
  | @next s s' ρ ρ₁ ρ' r es es' hturn hturns ih =>
    obtain ⟨host, c⟩ := s
    obtain ⟨ret, h', hrun, heq⟩ := (runs_sendTurn (.inl hbusy)).mp hturn
    have hret : ret = 0 := by
      by_contra hret
      rw [if_pos hret] at heq
      cases heq
    subst hret
    cases heq
    obtain ⟨intmask, ρ₂, es₁, rfl, -, ⟨hflag, heq, -, -⟩ | ⟨hclean, hrest⟩⟩ :=
      runs_transmit.mp hrun
    · have hcode := congrArg Prod.fst heq
      exact absurd ((transmitCode_eq_zero_iff host intmask).mp hcode.symm) hflag
    · obtain ⟨-, hnone, ⟨hirpt, hoff⟩ | ⟨hirpt, hsame, rfl⟩⟩ :=
        transmitChecked_none hbusy hdata hrest
      · have hidle : ¬ (h'.use_busy = true ∨ h'.data.isSome = true) := by
          rw [hoff, hnone]
          decide
        obtain ⟨rfl, -, -⟩ := turns_idle hidle hturns
        refine iff_of_false (fun hx => hx rfl) ?_
        rintro (hflag | ⟨hzero, -⟩)
        · exact hflag hclean
        · exact hirpt hzero
      · obtain rfl : h' = host := hsame
        rw [ih hbusy hdata, FlagFirst]
        simp [hclean, hirpt]

/-- After a read that went well, the call that stops fails when its registers do. -/
theorem stop_fails_iff {r : Int × sdhost_state} {es : List Event} {ρ ρ' : List Word}
    (h : Runs (bcm2835_send_cmd restHost stopCmd none) ρ r es ρ') :
    r.1 ≠ 0 ↔ FailsToStop ρ := by
  obtain ⟨edm, ρ₁, rfl, ⟨⟨-, hstop⟩, -, -, -⟩ | ⟨-, sent, es₁, ρ₂, ended, es₂, ρ₃, es₃, hsent,
    hended, hturns, -⟩⟩ := (runs_send_cmd rfl).mp h
  · exact absurd rfl hstop
  · have hshort : stopCmd.resp_type &&& MMC_RSP_136 = 0 := by decide
    have hbusy : (sentHost restHost stopCmd none).use_busy = true := by decide
    obtain ⟨sdcmd, ρ₄, hwait, ⟨hon, rfl, -, rfl⟩ | ⟨hoff, hsts, rfl, rfl, -⟩⟩ :=
      (runs_send_command hshort).mp hsent
    · obtain ⟨rfl, -, rfl⟩ := runs_pure.mp hended
      obtain ⟨rfl, -, -⟩ := turns_idle (by decide) hturns
      exact iff_of_true (by decide) ⟨edm, sdcmd, ρ₁, _, rfl, hwait, .inl hon⟩
    · rw [afterSent, if_neg (by rw [hbusy]; decide)] at hended
      obtain ⟨rfl, -, rfl⟩ := runs_pure.mp hended
      rw [stop_turns hturns hbusy rfl]
      constructor
      · intro hflag
        exact ⟨edm, sdcmd, ρ₁, _, rfl, hwait, .inr ⟨hsts, _, rfl, hflag⟩⟩
      · rintro ⟨edm', sdcmd', ρ₅, ρ₆, heq, hwait', hfails⟩
        obtain ⟨rfl, rfl⟩ := List.cons.inj heq
        obtain ⟨rfl, -, rfl⟩ := hwait.unique hwait'
        rcases hfails with hon | ⟨hsts', ρ₇, heq, hflag⟩
        · exact absurd hoff hon
        · obtain ⟨-, rfl⟩ := List.cons.inj heq
          exact hflag

/-! ## What the caller is told -/

/-- The caller is told the truth: a read gives true when it was done, as the file system takes
it, and no call gives 0 when a step of it failed. -/
def Truthful (dest : Nat) (numBlocks : Word) (r : Reading) : Prop :=
  (r.ret = true ↔ Done dest numBlocks r.read.events) ∧
    ∀ c ∈ r.read :: r.stop.toList, c.ret = 0 → Unfailed c.events

theorem Done.unfailed {dest : Nat} {numBlocks : Word} {es : List Event}
    (h : Done dest numBlocks es) : Unfailed es :=
  ⟨fun _ hin => h.unflawed _ hin, fun _ _ hin => h.unflawed _ hin, fun _ hin => h.unflawed _ hin⟩

/-- The values of the registers with which a read of several blocks goes well, and only the
command after it fails. -/
def OnlyStopFails (numBlocks : Word) (ρ : List Word) : Prop :=
  1 < numBlocks ∧ ∃ ρ₁, ReadsWell numBlocks ρ ρ₁ ∧ FailsToStop ρ₁

/-- How `mmc_read_blocks` runs. -/
theorem runs_mmc_read_blocks {host h' : sdhost_state} {high_capacity : Bool}
    {startBlock numBlocks : Word} {dest : Nat} {r : Reading} {es : List Event}
    {ρ ρ' : List Word}
    (h : Runs (mmc_read_blocks host high_capacity startBlock numBlocks dest) ρ (r, h') es ρ') :
    ∃ x es₁ ρ₁, Runs (bcm2835_send_cmd host (readCmd high_capacity startBlock numBlocks)
        (some (readData numBlocks dest))) ρ x es₁ ρ₁ ∧
      (x.1 ≠ 0 ∧ r = ⟨true, ⟨x.1, es₁⟩, none⟩ ∨
        x.1 = 0 ∧ (¬ 1 < numBlocks ∧ r = ⟨false, ⟨x.1, es₁⟩, none⟩ ∨
          1 < numBlocks ∧ ∃ y es₂ ρ₂, Runs (bcm2835_send_cmd x.2 stopCmd none) ρ₁ y es₂ ρ₂ ∧
            r = ⟨decide (y.1 ≠ 0), ⟨x.1, es₁⟩, some ⟨y.1, es₂⟩⟩)) := by
  obtain ⟨⟨x, fs⟩, es₁, ρ₁, es₂, hheard, hrest, -⟩ := runs_bind.mp h
  obtain ⟨hread, rfl⟩ := runs_heard.mp hheard
  refine ⟨x, fs, ρ₁, hread, ?_⟩
  rcases runs_ite.mp hrest with ⟨hx, hend⟩ | ⟨hx, hend⟩
  · obtain ⟨heq, -, -⟩ := runs_pure.mp hend
    exact .inl ⟨hx, congrArg Prod.fst heq⟩
  · refine .inr ⟨not_not.mp hx, ?_⟩
    rcases runs_ite.mp hend with ⟨hmany, hend⟩ | ⟨hone, hend⟩
    · obtain ⟨⟨y, gs⟩, es₃, ρ₂, es₄, hheard, hrest, -⟩ := runs_bind.mp hend
      obtain ⟨hstop, rfl⟩ := runs_heard.mp hheard
      refine .inr ⟨hmany, y, gs, ρ₂, hstop, ?_⟩
      rcases runs_ite.mp hrest with ⟨hy, hend⟩ | ⟨hy, hend⟩
      · obtain ⟨heq, -, -⟩ := runs_pure.mp hend
        rw [decide_eq_true hy]
        exact congrArg Prod.fst heq
      · obtain ⟨heq, -, -⟩ := runs_pure.mp hend
        rw [decide_eq_false hy]
        exact congrArg Prod.fst heq
    · obtain ⟨heq, -, -⟩ := runs_pure.mp hend
      exact .inl ⟨hone, congrArg Prod.fst heq⟩

/-- `mmc_read_blocks` gives true for a failure. So its caller is told the truth only when the
blocks are read and the command that stops the transfer then fails. -/
theorem a_read_is_truthful_iff {host h' : sdhost_state} {high_capacity : Bool}
    {startBlock numBlocks : Word} {dest : Nat} {r : Reading} {es : List Event}
    {ρ ρ' : List Word}
    (h : Runs (mmc_read_blocks host high_capacity startBlock numBlocks dest) ρ (r, h') es ρ') :
    Truthful dest numBlocks r ↔ OnlyStopFails numBlocks ρ := by
  obtain ⟨x, es₁, ρ₁, hread, hrest⟩ := runs_mmc_read_blocks h
  have hwell {ρ₂ : List Word} (hw : ReadsWell numBlocks ρ ρ₂) :
      x = (0, restHost) ∧ ρ₁ = ρ₂ ∧ Done dest numBlocks es₁ := by
    obtain ⟨fs, hrun, hdone⟩ := done_of_readsWell host high_capacity startBlock dest hw
    obtain ⟨hx, rfl, hρ⟩ := hread.unique hrun
    exact ⟨hx, hρ, hdone⟩
  rcases read_cases hread with ⟨hx, hnot⟩ | ⟨hx, hnot⟩ | ⟨hx, hw⟩
  · rcases hrest with ⟨-, rfl⟩ | ⟨hx', -⟩
    · refine iff_of_false (fun htrue => hnot (htrue.1.mp rfl)) ?_
      rintro ⟨-, ρ₂, hw, -⟩
      exact hx (congrArg Prod.fst (hwell hw).1)
    · exact absurd hx' hx
  · have hread_ret : r.read = ⟨x.1, es₁⟩ := by
      rcases hrest with ⟨-, rfl⟩ | ⟨-, ⟨-, rfl⟩ | ⟨-, y, es₂, ρ₂, -, rfl⟩⟩ <;> rfl
    refine iff_of_false (fun htrue => ?_) ?_
    · have hfine := htrue.2 r.read List.mem_cons_self
      rw [hread_ret] at hfine
      exact hnot (hfine hx)
    · rintro ⟨-, ρ₂, hw, -⟩
      exact hnot (hwell hw).2.2.unfailed
  · obtain ⟨rfl, -, hdone⟩ := hwell hw
    rcases hrest with ⟨hx', -⟩ | ⟨-, ⟨hone, rfl⟩ | ⟨hmany, y, es₂, ρ₂, hstop, rfl⟩⟩
    · exact absurd rfl hx'
    · refine iff_of_false (fun htrue => ?_) fun hstops => hone hstops.1
      have hfalse := htrue.1.mpr hdone
      cases hfalse
    · have hfails := stop_fails_iff hstop
      by_cases hy : y.1 ≠ 0
      · refine iff_of_true ⟨iff_of_true (decide_eq_true hy) hdone, ?_⟩
          ⟨hmany, ρ₁, hw, hfails.mp hy⟩
        intro c hc hret
        rcases List.mem_cons.mp hc with rfl | hc
        · exact hdone.unfailed
        · rw [Option.toList_some, List.mem_singleton] at hc
          subst hc
          exact absurd hret hy
      · refine iff_of_false (fun htrue => ?_) ?_
        · have hret := htrue.1.mpr hdone
          exact hy (of_decide_eq_true hret)
        · rintro ⟨-, ρ₃, hw', hstops⟩
          obtain ⟨-, rfl, -⟩ := hwell hw'
          exact hy (hfails.mpr hstops)

/-! ## A read of one block -/

/-- The registers of a burst of 16 words, from a full FIFO. -/
def fullBurst : List Word := 0x102 :: List.replicate 16 0x5a5a5a5a

theorem fills_fullBursts (k : Nat) (ρ : List Word) :
    Fills (16 * k) ((List.replicate k fullBurst).flatten ++ ρ) ρ := by
  induction k with
  | zero => exact .done
  | succ k ih =>
    have hfull : (edm_fifo_fill 0x102).toNat = 16 := by decide
    have hleft : 16 * (k + 1) ≠ 0 := by omega
    have hshort : ¬ Short 0x102 (16 * (k + 1)) := by
      simp only [Short, hfull, SDDATA_FIFO_PIO_BURST]
      omega
    have hlen : (List.replicate 16 (0x5a5a5a5a : Word)).length =
        min (edm_fifo_fill 0x102).toNat (16 * (k + 1)) := by
      rw [List.length_replicate, hfull]
      omega
    have hrest : 16 * (k + 1) - (List.replicate 16 (0x5a5a5a5a : Word)).length = 16 * k := by
      rw [List.length_replicate]
      omega
    rw [List.replicate_succ, List.flatten_cons, fullBurst, List.append_assoc]
    exact .burst hleft hshort hlen (hrest ▸ ih)

/-- The registers of a block of eight such bursts. -/
def blockRegisters : List Word := 0 :: ((List.replicate 8 fullBurst).flatten ++ [0])

theorem clean_zero : Clean 0 := by
  unfold Clean
  decide

theorem fills_blockRegisters (ρ : List Word) :
    Fills 128 ((List.replicate 8 fullBurst).flatten ++ [0] ++ ρ) (0 :: ρ) := by
  have hfills := fills_fullBursts 8 (0 :: ρ)
  rw [List.append_assoc]
  exact hfills

/-- The last block, which the controller ends in its data mode. -/
theorem last_block (ρ : List Word) : Blocks 1 (blockRegisters ++ 1 :: ρ) ρ := by
  have hturn : Runs (completeTurn 0) (1 :: ρ) (.inr 0) [] ρ := by
    refine runs_ask_bind.mpr ⟨1, ρ, rfl, runs_ite.mpr (.inl ⟨.inr (by decide), ?_⟩)⟩
    exact runs_pure.mpr ⟨rfl, rfl, rfl⟩
  have hend : Runs bcm2835_wait_transfer_complete (1 :: ρ) 0 [] ρ :=
    runs_bind.mpr ⟨_, _, _, [], hturn, runs_pure.mpr ⟨rfl, rfl, rfl⟩, rfl⟩
  exact .last clean_zero (fills_blockRegisters (1 :: ρ)) clean_zero hend

/-- A command register that is free at once. -/
theorem waits_free {sdcmd : Word} (hoff : sdcmd &&& HC_CMD_ENABLE = 0) (sdcmd' : Word)
    (ρ : List Word) : Waits (sdcmd :: sdcmd' :: ρ) sdcmd' ρ := by
  have hnot : ¬ (sdcmd &&& HC_CMD_ENABLE ≠ 0 ∧ 1000 - 1 > 0) := fun h => h.1 hoff
  have hturn : Runs (waitTurn 1000) (sdcmd :: sdcmd' :: ρ) (.inr ()) [] (sdcmd' :: ρ) :=
    runs_waitTurn.mpr ⟨sdcmd, rfl, rfl, (if_neg hnot).symm⟩
  have hloop : Runs (loop waitTurn 1000) (sdcmd :: sdcmd' :: ρ) () [] (sdcmd' :: ρ) :=
    runs_bind.mpr ⟨_, _, _, [], hturn, runs_pure.mpr ⟨rfl, rfl, rfl⟩, rfl⟩
  exact runs_bind.mpr ⟨(), _, _, [], hloop, runs_ask.mpr ⟨rfl, rfl⟩, rfl⟩

/-- A command that is taken and answered at once, and its blocks. -/
theorem readsWell_of_blocks {numBlocks : Word} {ρ ρ' : List Word} (h : Blocks numBlocks ρ ρ') :
    ReadsWell numBlocks ([1, 0, 0, 0, 0, 0, 0] ++ ρ) ρ' :=
  have hoff : (0 : Word) &&& HC_CMD_ENABLE = 0 := by decide
  ⟨1, 0, 0, 0, 0, [0, 0, 0, 0, 0, 0] ++ ρ, [0, 0, 0] ++ ρ, ρ, rfl, .inr (by decide),
    waits_free hoff _ _, hoff, waits_free hoff _ _, hoff, by decide, h⟩

/-- Two blocks are read, and the command after them ends with an error flag: here the failure
that is reported is the success of the read. -/
theorem a_failed_stop_is_reported_as_a_read :
    ∃ r h es, Runs (mmc_read_blocks restHost true 0 2 0)
        ([1, 0, 0, 0, 0, 0, 0] ++ (blockRegisters ++ (blockRegisters ++ [1, 1, 0, 0, 0, 0x10])))
        (r, h) es [] ∧ Truthful 0 2 r := by
  have hblocks : Blocks 2 (blockRegisters ++ (blockRegisters ++ [1, 1, 0, 0, 0, 0x10]))
      [1, 0, 0, 0, 0x10] :=
    .next (by decide) clean_zero (fills_blockRegisters _) clean_zero (last_block _)
  have hwell := readsWell_of_blocks hblocks
  have hfails : FailsToStop [1, 0, 0, 0, 0x10] := by
    have hflag : ¬ Clean 0x10 := by
      unfold Clean
      decide
    exact ⟨1, 0, _, _, rfl, waits_free (by decide) 0 [0, 0x10], .inr ⟨0, _, rfl, .inl hflag⟩⟩
  obtain ⟨es, hrun, -⟩ := done_of_readsWell restHost true 0 0 hwell
  have hstop : (bcm2835_send_cmd restHost stopCmd none [1, 0, 0, 0, 0x10]).map
      (fun x => (x.1.1, x.2.2)) = some (-2, []) := by decide
  obtain ⟨⟨⟨y, h⟩, fs, ρ'⟩, hstop, heq⟩ := Option.map_eq_some_iff.mp hstop
  obtain ⟨rfl, rfl⟩ := Prod.mk.inj heq
  have hread : Runs (mmc_read_blocks restHost true 0 2 0)
      ([1, 0, 0, 0, 0, 0, 0] ++ (blockRegisters ++ (blockRegisters ++ [1, 1, 0, 0, 0, 0x10])))
      (⟨true, ⟨0, es⟩, some ⟨-2, fs⟩⟩, h) (es ++ (fs ++ [])) [] := by
    refine runs_bind.mpr ⟨((0, restHost), es), es, _, _, runs_heard.mpr ⟨hrun, rfl⟩, ?_, rfl⟩
    refine runs_bind.mpr ⟨((-2, h), fs), fs, [], [], runs_heard.mpr ⟨hstop, rfl⟩, ?_, rfl⟩
    exact runs_pure.mpr ⟨rfl, rfl, rfl⟩
  exact ⟨_, _, _, hread, (a_read_is_truthful_iff hread).mpr ⟨by decide, _, hwell, hfails⟩⟩

/-- A block that was read is reported as a failure. And a command that failed, with
`SDCMD_FAIL_FLAG` and no flag in `SDHSTS`, is hidden by the transfer after it. -/
theorem a_good_read_is_reported_as_a_failure :
    (∃ r es, Runs (mmc_read_blocks restHost true 0 1 0)
        ([1, 0, 0, 0, 0, 0, 0] ++ (blockRegisters ++ [1])) (r, restHost) es [] ∧
        Done 0 1 r.read.events ∧ r.ret = false ∧ ¬ Truthful 0 1 r) ∧
      ∃ r h es, Runs (mmc_read_blocks restHost true 0 1 0)
        ([1, 0, 0, 0, 0, SDCMD_FAIL_FLAG, 0] ++ (blockRegisters ++ [1])) (r, h) es [] ∧
        r.read.ret = 0 ∧ .finished (-1) [] ∈ r.read.events ∧ ¬ Truthful 0 1 r := by
  constructor
  · obtain ⟨es, hrun, hdone⟩ :=
      done_of_readsWell restHost true 0 0 (readsWell_of_blocks (last_block []))
    have hread : Runs (mmc_read_blocks restHost true 0 1 0)
        ([1, 0, 0, 0, 0, 0, 0] ++ (blockRegisters ++ [1]))
        (⟨false, ⟨0, es⟩, none⟩, restHost) (es ++ []) [] := by
      refine runs_bind.mpr ⟨((0, restHost), es), es, [], [], runs_heard.mpr ⟨hrun, rfl⟩, ?_, rfl⟩
      exact runs_pure.mpr ⟨rfl, rfl, rfl⟩
    refine ⟨_, _, hread, hdone, rfl, fun htrue => ?_⟩
    have hfalse := htrue.1.mpr hdone
    cases hfalse
  · have heval : (mmc_read_blocks restHost true 0 1 0
        ([1, 0, 0, 0, 0, SDCMD_FAIL_FLAG, 0] ++ (blockRegisters ++ [1]))).map (fun x =>
          (x.1.1.read.ret, decide (.finished (-1) [] ∈ x.1.1.read.events), x.2.2)) =
        some (0, true, []) := by decide +kernel
    obtain ⟨⟨⟨r, h⟩, es, ρ'⟩, hrun, heq⟩ := Option.map_eq_some_iff.mp heval
    simp only [Prod.mk.injEq, decide_eq_true_eq] at heq
    obtain ⟨hret, hin, rfl⟩ := heq
    refine ⟨r, h, es, hrun, hret, hin, fun htrue => ?_⟩
    have hfine := htrue.2 r.read List.mem_cons_self hret
    exact absurd (hfine.2.1 _ _ hin) (by decide)

end rpi_wifi.sdhost
