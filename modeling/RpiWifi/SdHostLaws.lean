-- What the calls of the SD host driver need from the registers to go well, and what they
-- note when they do not.
import RpiWifi.SdHost

namespace rpi_wifi.sdhost

open conversations

/-! ## The events of a call that goes well -/

/-- No error flag is set. -/
def Clean (hsts : Word) : Prop := hsts &&& SDHSTS_ERROR_MASK = 0

def Good : Event → Prop
  | .sent ret => ret = 0
  | .finished ret _ => ret = 0
  | .status hsts => Clean hsts
  | .copied left => left = 0
  | .completed ret => ret = 0
  | .writel _ _ => True
  | .store _ _ => True

/-! ## Waits -/

theorem runs_waitTurn {timeout : Nat} {r : Nat ⊕ Unit} {es : List Event} {ρ ρ' : List Word} :
    Runs (waitTurn timeout) ρ r es ρ' ↔ ∃ sdcmd, ρ = sdcmd :: ρ' ∧ es = [] ∧
      r = if sdcmd &&& HC_CMD_ENABLE ≠ 0 ∧ timeout - 1 > 0 then .inl (timeout - 1)
        else .inr () := by
  simp only [waitTurn, readl, runs_ask_bind, runs_ite, runs_pure]
  constructor
  · rintro ⟨sdcmd, ρ₁, rfl, ⟨hc, rfl, rfl, rfl⟩ | ⟨hc, rfl, rfl, rfl⟩⟩
    · exact ⟨sdcmd, rfl, rfl, (if_pos hc).symm⟩
    · exact ⟨sdcmd, rfl, rfl, (if_neg hc).symm⟩
  · rintro ⟨sdcmd, rfl, rfl, rfl⟩
    refine ⟨sdcmd, ρ', rfl, ?_⟩
    split_ifs with hc
    · exact .inl ⟨hc, rfl, rfl, rfl⟩
    · exact .inr ⟨hc, rfl, rfl, rfl⟩

/-- The wait for the command register notes nothing. -/
theorem quiet_wait {sdcmd : Word} {es : List Event} {ρ ρ' : List Word}
    (h : Runs bcm2835_read_wait_sdcmd ρ sdcmd es ρ') : es = [] := by
  simp only [bcm2835_read_wait_sdcmd, readl, runs_bind, runs_ask] at h
  obtain ⟨_, es₁, ρ₁, es₂, hloop, ⟨-, rfl⟩, rfl⟩ := h
  have hnone : ∀ e ∈ es₁, False := by
    refine (turns_of_loopFor hloop).notes (P := fun _ => False) ?_
    intro s ρ r es ρ' hturn e he
    obtain ⟨-, -, rfl, -⟩ := runs_waitTurn.mp hturn
    cases he
  rw [List.append_nil]
  exact List.eq_nil_iff_forall_not_mem.mpr hnone

/-- From the values `ρ` the command register gives `sdcmd` when it has been waited for. -/
def Waits (ρ : List Word) (sdcmd : Word) (ρ' : List Word) : Prop :=
  Runs bcm2835_read_wait_sdcmd ρ sdcmd [] ρ'

/-- A program that begins with that wait. -/
theorem runs_wait_bind {α : Type} {f : Word → Sd α} {a : α} {es : List Event}
    {ρ ρ' : List Word} :
    Runs (bcm2835_read_wait_sdcmd >>= f) ρ a es ρ' ↔
      ∃ sdcmd ρ₁, Waits ρ sdcmd ρ₁ ∧ Runs (f sdcmd) ρ₁ a es ρ' := by
  rw [runs_bind]
  constructor
  · rintro ⟨sdcmd, es₁, ρ₁, es₂, hwait, hf, rfl⟩
    obtain rfl := quiet_wait hwait
    exact ⟨sdcmd, ρ₁, hwait, hf⟩
  · rintro ⟨sdcmd, ρ₁, hwait, hf⟩
    exact ⟨sdcmd, [], ρ₁, es, hwait, hf, rfl⟩

theorem runs_readStatus {hsts : Word} {es : List Event} {ρ ρ' : List Word} :
    Runs readStatus ρ hsts es ρ' ↔ ρ = hsts :: ρ' ∧ es = [.status hsts] := by
  simp only [readStatus, readl, runs_ask_bind, runs_note_bind, runs_pure]
  constructor
  · rintro ⟨hsts, ρ₁, rfl, es₁, rfl, rfl, rfl, rfl⟩
    exact ⟨rfl, rfl⟩
  · rintro ⟨rfl, rfl⟩
    exact ⟨hsts, ρ', rfl, [], rfl, rfl, rfl, rfl⟩

theorem runs_readStatus_bind {α : Type} {f : Word → Sd α} {a : α} {es : List Event}
    {ρ ρ' : List Word} :
    Runs (readStatus >>= f) ρ a es ρ' ↔
      ∃ hsts ρ₁ es₁, ρ = hsts :: ρ₁ ∧ es = .status hsts :: es₁ ∧ Runs (f hsts) ρ₁ a es₁ ρ' := by
  simp only [runs_bind, runs_readStatus]
  constructor
  · rintro ⟨hsts, _, ρ₁, es₁, ⟨rfl, rfl⟩, hf, rfl⟩
    exact ⟨hsts, ρ₁, es₁, rfl, rfl, hf⟩
  · rintro ⟨hsts, ρ₁, es₁, rfl, rfl, hf⟩
    exact ⟨hsts, _, ρ₁, es₁, ⟨rfl, rfl⟩, hf, rfl⟩

/-! ## The copy of a block -/

/-- The FIFO has too few words for the next burst. -/
def Short (edm : Word) (left : Nat) : Prop :=
  (edm_fifo_fill edm).toNat < min SDDATA_FIFO_PIO_BURST left

/-- The controller is about to read. -/
def Receiving (edm : Word) : Prop :=
  edm &&& SDEDM_FSM_MASK = SDEDM_FSM_READDATA ∨ edm &&& SDEDM_FSM_MASK = SDEDM_FSM_READWAIT ∨
    edm &&& SDEDM_FSM_MASK = SDEDM_FSM_READCRC

/-- The values of the registers with which `left` words are copied to the last one: short
fillings that no error flag ends, and bursts. -/
inductive Fills : Nat → List Word → List Word → Prop
  | done {ρ : List Word} : Fills 0 ρ ρ
  | wait {left : Nat} {edm : Word} {ρ ρ' : List Word} : left ≠ 0 → Short edm left →
      Receiving edm → Fills left ρ ρ' → Fills left (edm :: ρ) ρ'
  | look {left : Nat} {edm hsts : Word} {ρ ρ' : List Word} : left ≠ 0 → Short edm left →
      ¬ Receiving edm → Clean hsts → Fills left ρ ρ' → Fills left (edm :: hsts :: ρ) ρ'
  | burst {left : Nat} {edm : Word} {ws ρ ρ' : List Word} : left ≠ 0 → ¬ Short edm left →
      ws.length = min (edm_fifo_fill edm).toNat left → Fills (left - ws.length) ρ ρ' →
      Fills left (edm :: (ws ++ ρ)) ρ'

/-- The stores of words one after another. -/
def stores : Nat → List Word → List Event
  | _, [] => []
  | buf, w :: ws => .store buf w :: stores (buf + 4) ws

theorem runs_copyBurst {words buf : Nat} {u : Unit} {es : List Event} {ρ ρ' : List Word} :
    Runs (copyBurst words buf) ρ u es ρ' ↔
      ∃ ws, ws.length = words ∧ ρ = ws ++ ρ' ∧ es = stores buf ws := by
  induction words generalizing buf es ρ with
  | zero =>
    simp only [copyBurst, runs_pure, List.length_eq_zero_iff]
    constructor
    · rintro ⟨-, rfl, rfl⟩
      exact ⟨[], rfl, rfl, rfl⟩
    · rintro ⟨ws, rfl, rfl, rfl⟩
      exact ⟨trivial, rfl, rfl⟩
  | succ words ih =>
    simp only [copyBurst, readl, runs_ask_bind, runs_note_bind, ih]
    constructor
    · rintro ⟨w, ρ₁, rfl, es₁, rfl, ws, hlen, rfl, rfl⟩
      exact ⟨w :: ws, by simp [hlen], rfl, rfl⟩
    · rintro ⟨ws, hlen, rfl, rfl⟩
      cases ws with
      | nil => simp at hlen
      | cons w ws =>
        exact ⟨w, ws ++ ρ', rfl, stores (buf + 4) ws, rfl, ws, by simpa using hlen, rfl, rfl⟩

theorem runs_copyBurst_bind {α : Type} {words buf : Nat} {f : Unit → Sd α} {a : α}
    {es : List Event} {ρ ρ' : List Word} :
    Runs (copyBurst words buf >>= f) ρ a es ρ' ↔
      ∃ ws ρ₁ es₁, ws.length = words ∧ ρ = ws ++ ρ₁ ∧ es = stores buf ws ++ es₁ ∧
        Runs (f ()) ρ₁ a es₁ ρ' := by
  simp only [runs_bind, runs_copyBurst]
  constructor
  · rintro ⟨_, _, ρ₁, es₁, ⟨ws, hlen, rfl, rfl⟩, hf, rfl⟩
    exact ⟨ws, ρ₁, es₁, hlen, rfl, rfl, hf⟩
  · rintro ⟨ws, ρ₁, es₁, hlen, rfl, rfl, hf⟩
    exact ⟨(), _, ρ₁, es₁, ⟨ws, hlen, rfl, rfl⟩, hf, rfl⟩

/-- What a turn of the copy does. -/
inductive CopyTurn : Nat × Nat → List Word → Nat × Nat ⊕ Nat → List Event → List Word → Prop
  | done {buf : Nat} {ρ : List Word} : CopyTurn (0, buf) ρ (.inr 0) [] ρ
  | wait {left buf : Nat} {edm : Word} {ρ : List Word} : left ≠ 0 → Short edm left →
      Receiving edm → CopyTurn (left, buf) (edm :: ρ) (.inl (left, buf)) [] ρ
  | look {left buf : Nat} {edm hsts : Word} {ρ : List Word} : left ≠ 0 → Short edm left →
      ¬ Receiving edm → Clean hsts →
      CopyTurn (left, buf) (edm :: hsts :: ρ) (.inl (left, buf)) [.status hsts] ρ
  | giveUp {left buf : Nat} {edm hsts : Word} {ρ : List Word} : left ≠ 0 → Short edm left →
      ¬ Receiving edm → ¬ Clean hsts →
      CopyTurn (left, buf) (edm :: hsts :: ρ) (.inr left) [.status hsts] ρ
  | burst {left buf : Nat} {edm : Word} {ws ρ : List Word} : left ≠ 0 → ¬ Short edm left →
      ws.length = min (edm_fifo_fill edm).toNat left →
      CopyTurn (left, buf) (edm :: (ws ++ ρ)) (.inl (left - ws.length, buf + 4 * ws.length))
        (stores buf ws) ρ

theorem runs_copyTurn {s : Nat × Nat} {r : Nat × Nat ⊕ Nat} {es : List Event}
    {ρ ρ' : List Word} : Runs (copyTurn s) ρ r es ρ' ↔ CopyTurn s ρ r es ρ' := by
  obtain ⟨left, buf⟩ := s
  have hmin (n : Nat) : (if n > left then left else n) = min n left := by
    split_ifs <;> omega
  have hread (edm : Word) : (edm &&& SDEDM_FSM_MASK ≠ SDEDM_FSM_READDATA ∧
      edm &&& SDEDM_FSM_MASK ≠ SDEDM_FSM_READWAIT ∧
      edm &&& SDEDM_FSM_MASK ≠ SDEDM_FSM_READCRC) ↔ ¬ Receiving edm := by
    simp [Receiving]
  simp only [copyTurn, readl, runs_ite, runs_ask_bind, runs_readStatus_bind,
    runs_copyBurst_bind, runs_pure, hread, hmin, not_not]
  constructor
  · rintro (⟨rfl, rfl, rfl, rfl⟩ | ⟨hleft, edm, ρ₁, rfl, hturn⟩)
    · exact .done
    · rcases hturn with ⟨hshort, hturn⟩ | ⟨hshort, ws, ρ₂, es₁, hlen, rfl, rfl, rfl, rfl, rfl⟩
      · rcases hturn with ⟨hnot, hsts, ρ₂, es₁, rfl, rfl, hlook⟩ | ⟨hreads, rfl, rfl, rfl⟩
        · rcases hlook with ⟨hflag, rfl, rfl, rfl⟩ | ⟨hclean, rfl, rfl, rfl⟩
          · exact .giveUp hleft hshort hnot hflag
          · exact .look hleft hshort hnot hclean
        · exact .wait hleft hshort hreads
      · rw [List.append_nil, ← hlen]
        exact .burst hleft hshort hlen
  · intro h
    cases h with
    | done => exact .inl ⟨rfl, rfl, rfl, rfl⟩
    | wait hleft hshort hreads =>
      exact .inr ⟨hleft, _, _, rfl, .inl ⟨hshort, .inr ⟨hreads, rfl, rfl, rfl⟩⟩⟩
    | look hleft hshort hnot hclean =>
      exact .inr ⟨hleft, _, _, rfl, .inl ⟨hshort, .inl ⟨hnot, _, _, _, rfl, rfl,
        .inr ⟨hclean, rfl, rfl, rfl⟩⟩⟩⟩
    | giveUp hleft hshort hnot hflag =>
      exact .inr ⟨hleft, _, _, rfl, .inl ⟨hshort, .inl ⟨hnot, _, _, _, rfl, rfl,
        .inl ⟨hflag, rfl, rfl, rfl⟩⟩⟩⟩
    | burst hleft hshort hlen =>
      exact .inr ⟨hleft, _, _, rfl, .inr ⟨hshort, _, _, [], hlen, rfl,
        (List.append_nil _).symm, by rw [hlen], rfl, rfl⟩⟩

theorem reads_copyTurn : Reads copyTurn := by
  intro s s' ρ es ρ' h
  generalize hr : (Sum.inl s' : Nat × Nat ⊕ Nat) = r at h
  cases runs_copyTurn.mp h with
  | done => cases hr
  | wait => simp
  | look => simp
  | giveUp => cases hr
  | burst =>
    simp only [List.length_cons, List.length_append]
    omega

/-- A copy that ends with no word left. -/
theorem fills_of_copy {s : Nat × Nat} {k : Nat} {es : List Event} {ρ ρ' : List Word}
    (h : Turns copyTurn s ρ k es ρ') (hk : k = 0) : Fills s.1 ρ ρ' := by
  induction h with
  | last hturn =>
    rcases runs_copyTurn.mp hturn with _ | _ | _ | ⟨hleft, -, -, -⟩ | _
    · exact .done
    · exact absurd hk hleft
  | next hturn _ ih =>
    have hrest := ih hk
    rcases runs_copyTurn.mp hturn with
      _ | ⟨hleft, hshort, hreads⟩ | ⟨hleft, hshort, hnot, hclean⟩ | _ | ⟨hleft, hshort, hlen⟩
    · exact .wait hleft hshort hreads hrest
    · exact .look hleft hshort hnot hclean hrest
    · exact .burst hleft hshort hlen hrest

theorem mem_stores (buf : Nat) {i : Nat} {ws : List Word} (h : i < ws.length) :
    ∃ w, .store (buf + 4 * i) w ∈ stores buf ws := by
  induction ws generalizing buf i with
  | nil => simp at h
  | cons w ws ih =>
    cases i with
    | zero => exact ⟨w, List.mem_cons_self⟩
    | succ i =>
      obtain ⟨v, hv⟩ := ih (buf + 4) (Nat.lt_of_succ_lt_succ h)
      refine ⟨v, List.mem_cons_of_mem _ ?_⟩
      have hat : buf + 4 * (i + 1) = buf + 4 + 4 * i := by omega
      rw [hat]
      exact hv

theorem good_stores {buf : Nat} {ws : List Word} : ∀ e ∈ stores buf ws, Good e := by
  induction ws generalizing buf with
  | nil => simp [stores]
  | cons w ws ih => exact List.forall_mem_cons.mpr ⟨trivial, ih⟩

/-- Every event is good, and there is a store for each of the words. -/
def StoresAll (buf words : Nat) (es : List Event) : Prop :=
  (∀ e ∈ es, Good e) ∧ ∀ i < words, ∃ w, .store (buf + 4 * i) w ∈ es

theorem StoresAll.append {buf words words' : Nat} {es fs : List Event}
    (h : StoresAll buf words es) (h' : StoresAll (buf + 4 * words) words' fs) :
    StoresAll buf (words + words') (es ++ fs) := by
  refine ⟨List.forall_mem_append.mpr ⟨h.1, h'.1⟩, fun i hi => ?_⟩
  by_cases hlt : i < words
  · obtain ⟨w, hw⟩ := h.2 i hlt
    exact ⟨w, List.mem_append_left _ hw⟩
  · obtain ⟨w, hw⟩ := h'.2 (i - words) (by omega)
    have hat : buf + 4 * words + 4 * (i - words) = buf + 4 * i := by omega
    rw [hat] at hw
    exact ⟨w, List.mem_append_right _ hw⟩

theorem StoresAll.mono {buf words words' : Nat} {es : List Event} (h : StoresAll buf words es)
    (hle : words' ≤ words) : StoresAll buf words' es :=
  ⟨h.1, fun i hi => h.2 i (hi.trans_le hle)⟩

theorem storesAll_nil (buf : Nat) {es : List Event} (h : ∀ e ∈ es, Good e) :
    StoresAll buf 0 es :=
  ⟨h, fun _ hi => absurd hi (Nat.not_lt_zero _)⟩

/-- Good events around the stores. -/
theorem StoresAll.between {buf words : Nat} {es before after : List Event}
    (h : StoresAll buf words es) (hbefore : ∀ e ∈ before, Good e) (hafter : ∀ e ∈ after, Good e) :
    StoresAll buf words (before ++ (es ++ after)) :=
  ((storesAll_nil buf hbefore).append (h.append (storesAll_nil _ hafter))).mono (by omega)

theorem copy_of_fills {left : Nat} {ρ ρ' : List Word} (h : Fills left ρ ρ') (buf : Nat) :
    ∃ es, Turns copyTurn (left, buf) ρ 0 es ρ' ∧ StoresAll buf left es := by
  induction h generalizing buf with
  | done => exact ⟨[], .last (runs_copyTurn.mpr .done), storesAll_nil buf (by simp)⟩
  | wait hleft hshort hreads _ ih =>
    obtain ⟨es, hturns, hall⟩ := ih buf
    exact ⟨es, .next (runs_copyTurn.mpr (.wait hleft hshort hreads)) hturns, hall⟩
  | @look left edm hsts _ _ hleft hshort hnot hclean _ ih =>
    obtain ⟨es, hturns, hall⟩ := ih buf
    have hgood : ∀ e ∈ [Event.status hsts], Good e := by simpa [Good] using hclean
    have hlook := hall.between hgood (List.forall_mem_nil Good)
    rw [List.append_nil] at hlook
    exact ⟨_, .next (runs_copyTurn.mpr (.look hleft hshort hnot hclean)) hturns, hlook⟩
  | @burst left edm ws _ _ hleft hshort hlen _ ih =>
    obtain ⟨es, hturns, hall⟩ := ih (buf + 4 * ws.length)
    have hburst : StoresAll buf ws.length (stores buf ws) := ⟨good_stores, fun _ => mem_stores buf⟩
    have hboth := hburst.append hall
    have hsum : ws.length + (left - ws.length) = left := by omega
    rw [hsum] at hboth
    exact ⟨_, .next (runs_copyTurn.mpr (.burst hleft hshort hlen)) hturns, hboth⟩

/-! ## The transfer of a block -/

/-- The events of a copy. -/
def Copying : Event → Prop
  | .status _ => True
  | .store _ _ => True
  | _ => False

theorem copying_of_copy {s : Nat × Nat} {k : Nat} {es : List Event} {ρ ρ' : List Word}
    (h : Turns copyTurn s ρ k es ρ') : ∀ e ∈ es, Copying e := by
  refine h.notes (P := Copying) ?_
  intro s ρ r es ρ' hturn
  have hstores (buf : Nat) (ws : List Word) : ∀ e ∈ stores buf ws, Copying e := by
    induction ws generalizing buf with
    | nil => simp [stores]
    | cons w ws ih => exact List.forall_mem_cons.mpr ⟨trivial, ih _⟩
  cases runs_copyTurn.mp hturn with
  | done => simp
  | wait => simp
  | look => simp [Copying]
  | giveUp => simp [Copying]
  | burst => exact hstores _ _

/-- The data of the next block. -/
def nextData (d : mmc_data) : mmc_data := { d with dest := d.dest + 512 }

theorem clean_iff (hsts : Word) : Clean hsts ↔
    hsts &&& (SDHSTS_CRC16_ERROR ||| SDHSTS_CRC7_ERROR ||| SDHSTS_FIFO_ERROR) = 0 ∧
      hsts &&& (SDHSTS_CMD_TIME_OUT ||| SDHSTS_REW_TIME_OUT) = 0 := by
  have hmask : SDHSTS_ERROR_MASK =
      (SDHSTS_CRC16_ERROR ||| SDHSTS_CRC7_ERROR ||| SDHSTS_FIFO_ERROR) |||
        (SDHSTS_CMD_TIME_OUT ||| SDHSTS_REW_TIME_OUT) := by decide
  rw [Clean, hmask, BitVec.and_or_distrib_left]
  exact BitVec.or_eq_zero_iff

theorem pioCode_eq_zero_iff (hsts : Word) : pioCode hsts = 0 ↔ Clean hsts := by
  rw [clean_iff, pioCode]
  split_ifs with h₁ h₂
  · exact iff_of_false (by decide) fun h => h₁ h.1
  · exact iff_of_false (by decide) fun h => h₂ h.2
  · exact iff_of_true rfl ⟨not_not.mp h₁, not_not.mp h₂⟩

theorem runs_transfer_pio {d : mmc_data} (hd : d.blocksize = read_bl_len)
    {r : Int × mmc_data} {es : List Event} {ρ ρ' : List Word} :
    Runs (bcm2835_transfer_pio d) ρ r es ρ' ↔ ∃ k es₁ hsts,
      Turns copyTurn (128, d.dest) ρ k es₁ (hsts :: ρ') ∧
        es = es₁ ++ [.copied k, .status hsts] ∧ r = (pioCode hsts, nextData d) := by
  have hlen : d.blocksize.toNat = 512 := by
    rw [hd]
    rfl
  have hblock {r : Int × mmc_data} {es : List Event} {ρ ρ' : List Word} :
      Runs (bcm2835_transfer_block_pio d) ρ r es ρ' ↔ ∃ k es₁,
        Turns copyTurn (128, d.dest) ρ k es₁ ρ' ∧ es = es₁ ++ [.copied k] ∧
          r = (0, nextData d) := by
    simp only [bcm2835_transfer_block_pio, hlen, runs_ite, Nat.reduceMod, ne_eq, not_true_eq_false,
      false_and, not_false_eq_true, true_and, false_or, Nat.reduceDiv]
    rw [runs_bind]
    simp only [runs_loop reads_copyTurn, runs_note_bind, runs_pure]
    constructor
    · rintro ⟨k, es₁, ρ₁, es₂, hcopy, ⟨es₃, rfl, rfl, rfl, rfl⟩, rfl⟩
      exact ⟨k, es₁, hcopy, rfl, rfl⟩
    · rintro ⟨k, es₁, hcopy, rfl, rfl⟩
      exact ⟨k, es₁, ρ', _, hcopy, ⟨[], rfl, rfl, rfl, rfl⟩, rfl⟩
  rw [bcm2835_transfer_pio, runs_bind]
  constructor
  · rintro ⟨⟨ret, d'⟩, es₁, ρ₁, es₂, hrun, hrest, rfl⟩
    obtain ⟨k, es₃, hcopy, rfl, heq⟩ := hblock.mp hrun
    obtain ⟨rfl, rfl⟩ := Prod.mk.inj heq
    obtain ⟨hsts, ρ₂, es₄, rfl, rfl, hend⟩ := runs_readStatus_bind.mp hrest
    obtain ⟨rfl, rfl, rfl⟩ := runs_pure.mp hend
    exact ⟨k, es₃, hsts, hcopy, List.append_assoc _ _ _, rfl⟩
  · rintro ⟨k, es₁, hsts, hcopy, rfl, rfl⟩
    refine ⟨(0, nextData d), _, _, [.status hsts], hblock.mpr ⟨k, es₁, hcopy, rfl, rfl⟩, ?_,
      by simp⟩
    exact runs_readStatus_bind.mpr ⟨hsts, ρ', [], rfl, rfl, runs_pure.mpr ⟨rfl, rfl, rfl⟩⟩

/-- The error code of the checks of `bcm2835_transmit`. -/
def transmitCode (host : sdhost_state) (intmask : Word) : Int :=
  if bcm2835_check_data_error host intmask ≠ 0 then bcm2835_check_data_error host intmask
  else bcm2835_check_cmd_error host intmask

theorem check_cmd_error_eq_zero_iff (host : sdhost_state) (intmask : Word) :
    bcm2835_check_cmd_error host intmask = 0 ↔ Clean intmask := by
  unfold bcm2835_check_cmd_error
  split_ifs with hclean
  · exact iff_of_true rfl hclean
  all_goals exact iff_of_false (by decide) hclean

theorem check_data_error_of_clean {host : sdhost_state} {intmask : Word} (h : Clean intmask) :
    bcm2835_check_data_error host intmask = 0 := by
  have hpart {part : Word} (hp : part = SDHSTS_ERROR_MASK &&& part) : intmask &&& part = 0 := by
    rw [hp, ← BitVec.and_assoc, show intmask &&& SDHSTS_ERROR_MASK = 0 from h]
    exact BitVec.zero_and
  unfold bcm2835_check_data_error
  split_ifs with hdata hrew hcrc
  · rfl
  · exact absurd (hpart (by decide)) hrew
  · exact absurd (hpart (by decide)) hcrc
  · rfl

theorem transmitCode_eq_zero_iff (host : sdhost_state) (intmask : Word) :
    transmitCode host intmask = 0 ↔ Clean intmask := by
  unfold transmitCode
  split_ifs with hdata
  · exact iff_of_false hdata fun h => hdata (check_data_error_of_clean h)
  · exact check_cmd_error_eq_zero_iff host intmask

theorem runs_transmit {host : sdhost_state} {r : Int × sdhost_state} {es : List Event}
    {ρ ρ' : List Word} :
    Runs (bcm2835_transmit host) ρ r es ρ' ↔ ∃ intmask ρ₁ es₁, ρ = intmask :: ρ₁ ∧
      es = .status intmask :: es₁ ∧
      (¬ Clean intmask ∧ r = (transmitCode host intmask, host) ∧ es₁ = [] ∧ ρ' = ρ₁ ∨
        Clean intmask ∧ Runs (transmitChecked host intmask) ρ₁ r es₁ ρ') := by
  rw [bcm2835_transmit, runs_readStatus_bind]
  refine exists_congr fun intmask => exists_congr fun ρ₁ => exists_congr fun es₁ =>
    and_congr_right fun _ => and_congr_right fun _ => ?_
  dsimp only
  rw [runs_ite, runs_ite, runs_pure, runs_pure, ← transmitCode_eq_zero_iff host, transmitCode]
  split_ifs with hdata
  · simp [hdata]
  · have hd := not_not.mp hdata
    simp only [hd, ne_eq, not_true_eq_false, false_and, not_false_eq_true, true_and, false_or,
      not_not]

theorem runs_busyEnd_idle {host : sdhost_state} (hbusy : host.use_busy = false) {intmask : Word}
    {h' : sdhost_state} {es : List Event} {ρ ρ' : List Word} :
    Runs (busyEnd host intmask) ρ h' es ρ' ↔ h' = host ∧ es = [] ∧ ρ' = ρ := by
  simp [busyEnd, hbusy]

theorem runs_transmitChecked_data {host : sdhost_state} {d : mmc_data}
    (hbusy : host.use_busy = false) (hdata : host.data = some d) {intmask : Word}
    {r : Int × sdhost_state} {es : List Event} {ρ ρ' : List Word} :
    Runs (transmitChecked host intmask) ρ r es ρ' ↔ Runs (transmitData host d) ρ r es ρ' := by
  rw [transmitChecked, runs_bind]
  simp only [runs_busyEnd_idle hbusy]
  constructor
  · rintro ⟨h', es₁, ρ₁, es₂, ⟨rfl, rfl, rfl⟩, hrest, rfl⟩
    rw [hdata] at hrest
    exact hrest
  · intro h
    refine ⟨host, [], ρ, es, ⟨rfl, rfl, rfl⟩, ?_, rfl⟩
    rw [hdata]
    exact h

/-- How the transfer of a block ends: with flags, before the next block, or as the last. -/
inductive BlockEnd (host : sdhost_state) (d : mmc_data) :
    List Word → Int × sdhost_state → List Event → List Word → Prop
  | flagged {k : Nat} {es : List Event} {hsts : Word} {ρ ρ' : List Word} :
      Turns copyTurn (128, d.dest) ρ k es (hsts :: ρ') → ¬ Clean hsts →
      BlockEnd host d ρ (pioCode hsts, { host with data := some (nextData d) })
        (es ++ [.copied k, .status hsts]) ρ'
  | next {k : Nat} {es : List Event} {hsts : Word} {ρ ρ' : List Word} :
      Turns copyTurn (128, d.dest) ρ k es (hsts :: ρ') → Clean hsts → host.blocks ≠ 1 →
      BlockEnd host d ρ (0, { host with data := some (nextData d), blocks := host.blocks - 1 })
        (es ++ [.copied k, .status hsts]) ρ'
  | last {k : Nat} {es fs : List Event} {hsts : Word} {ret : Int} {ρ ρ₁ ρ' : List Word} :
      Turns copyTurn (128, d.dest) ρ k es (hsts :: ρ₁) → Clean hsts → host.blocks = 1 →
      Runs bcm2835_wait_transfer_complete ρ₁ ret fs ρ' →
      BlockEnd host d ρ
        (ret, { host with
          data := if ret = 0 then none else some (nextData d), blocks := host.blocks - 1 })
        (es ++ [.copied k, .status hsts] ++ (fs ++ [.completed ret])) ρ'

theorem runs_endData {host : sdhost_state} {r : Int × sdhost_state} {es : List Event}
    {ρ ρ' : List Word} :
    Runs (endData host) ρ r es ρ' ↔ ∃ ret fs,
      Runs bcm2835_wait_transfer_complete ρ ret fs ρ' ∧ es = fs ++ [.completed ret] ∧
        r = (ret, { host with data := if ret = 0 then none else host.data }) := by
  rw [endData, runs_bind]
  constructor
  · rintro ⟨ret, fs, ρ₁, es₂, hwait, hrest, rfl⟩
    obtain ⟨es₃, rfl, hend⟩ := runs_note_bind.mp hrest
    refine ⟨ret, fs, ?_⟩
    rcases runs_ite.mp hend with ⟨hret, hend⟩ | ⟨hret, hend⟩
    · obtain ⟨rfl, rfl, rfl⟩ := runs_pure.mp hend
      exact ⟨hwait, rfl, by rw [if_neg hret]⟩
    · obtain ⟨rfl, rfl, rfl⟩ := runs_pure.mp hend
      rw [not_not.mp hret] at hwait ⊢
      exact ⟨hwait, rfl, rfl⟩
  · rintro ⟨ret, fs, hwait, rfl, rfl⟩
    refine ⟨ret, fs, ρ', [.completed ret], hwait, runs_note_bind.mpr ⟨[], rfl, ?_⟩, rfl⟩
    by_cases hret : ret = 0
    · subst hret
      exact runs_ite.mpr (.inr ⟨not_not.mpr rfl, runs_pure.mpr ⟨rfl, rfl, rfl⟩⟩)
    · rw [if_neg hret]
      exact runs_ite.mpr (.inl ⟨hret, runs_pure.mpr ⟨rfl, rfl, rfl⟩⟩)

theorem runs_transmitData {host : sdhost_state} {d : mmc_data} (hd : d.blocksize = read_bl_len)
    {r : Int × sdhost_state} {es : List Event} {ρ ρ' : List Word} :
    Runs (transmitData host d) ρ r es ρ' ↔ BlockEnd host d ρ r es ρ' := by
  have hone : host.blocks - 1 = 0 ↔ host.blocks = 1 := sub_eq_zero
  rw [transmitData, runs_bind]
  constructor
  · rintro ⟨⟨ret, d'⟩, es₁, ρ₁, es₂, hpio, hrest, rfl⟩
    obtain ⟨k, es₃, hsts, hcopy, rfl, heq⟩ := (runs_transfer_pio hd).mp hpio
    obtain ⟨rfl, rfl⟩ := Prod.mk.inj heq
    rcases runs_ite.mp hrest with ⟨hflag, hrest⟩ | ⟨hclean, hrest⟩
    · obtain ⟨rfl, rfl, rfl⟩ := runs_pure.mp hrest
      rw [List.append_nil]
      exact .flagged hcopy fun h => hflag ((pioCode_eq_zero_iff hsts).mpr h)
    · have hclean := (pioCode_eq_zero_iff hsts).mp (not_not.mp hclean)
      rcases runs_ite.mp hrest with ⟨hlast, hrest⟩ | ⟨hmore, hrest⟩
      · obtain ⟨ret, fs, hwait, rfl, rfl⟩ := runs_endData.mp hrest
        exact .last hcopy hclean (hone.mp hlast) hwait
      · obtain ⟨rfl, rfl, rfl⟩ := runs_pure.mp hrest
        rw [List.append_nil]
        exact .next hcopy hclean fun h => hmore (hone.mpr h)
  · intro h
    cases h with
    | @flagged k es₁ hsts _ _ hcopy hflag =>
      refine ⟨(pioCode hsts, nextData d), _, ρ', [],
        (runs_transfer_pio hd).mpr ⟨k, es₁, hsts, hcopy, rfl, rfl⟩, ?_, (List.append_nil _).symm⟩
      exact runs_ite.mpr (.inl ⟨fun h => hflag ((pioCode_eq_zero_iff hsts).mp h),
        runs_pure.mpr ⟨rfl, rfl, rfl⟩⟩)
    | @next k es₁ hsts _ _ hcopy hclean hmore =>
      have hcode := (pioCode_eq_zero_iff hsts).mpr hclean
      refine ⟨(pioCode hsts, nextData d), _, ρ', [],
        (runs_transfer_pio hd).mpr ⟨k, es₁, hsts, hcopy, rfl, rfl⟩, ?_, (List.append_nil _).symm⟩
      exact runs_ite.mpr (.inr ⟨not_not.mpr hcode, runs_ite.mpr (.inr
        ⟨fun h => hmore (hone.mp h), runs_pure.mpr ⟨rfl, rfl, rfl⟩⟩)⟩)
    | @last k es₁ fs hsts ret _ ρ₁ _ hcopy hclean hlast hwait =>
      have hcode := (pioCode_eq_zero_iff hsts).mpr hclean
      refine ⟨(pioCode hsts, nextData d), _, ρ₁, _,
        (runs_transfer_pio hd).mpr ⟨k, es₁, hsts, hcopy, rfl, rfl⟩, ?_, rfl⟩
      exact runs_ite.mpr (.inr ⟨not_not.mpr hcode, runs_ite.mpr (.inl
        ⟨hone.mpr hlast, runs_endData.mpr ⟨ret, fs, hwait, rfl, rfl⟩⟩)⟩)

/-! ## The loop of a call reads -/

theorem shrinks_wait : Shrinks bcm2835_read_wait_sdcmd := by
  refine (shrinks_loop (fun s => ?_) 1000).bind fun _ => shrinks_ask
  exact shrinks_ask.bind fun _ => (shrinks_pure _).ite (shrinks_pure _)

theorem shrinks_readStatus : Shrinks readStatus :=
  shrinks_ask.bind fun _ => (shrinks_note _).bind fun _ => shrinks_pure _

theorem shrinks_copy (s : Nat × Nat) : Shrinks (loop copyTurn s) := by
  apply shrinks_loop
  intro s ρ r es ρ' h
  cases runs_copyTurn.mp h with
  | done => exact le_refl _
  | wait => simp
  | look => exact Nat.le_add_right _ 2
  | giveUp => exact Nat.le_add_right _ 2
  | burst =>
    simp only [List.length_cons, List.length_append]
    omega

theorem shrinks_wait_transfer_complete : Shrinks bcm2835_wait_transfer_complete := by
  refine shrinks_loop (fun s => ?_) 0
  refine shrinks_ask.bind fun edm => (shrinks_pure _).ite (Shrinks.ite ?_ ?_)
  · exact (shrinks_note _).bind fun _ => shrinks_pure _
  · exact (shrinks_pure _).ite (shrinks_pure _)

theorem shrinks_transfer_pio (d : mmc_data) : Shrinks (bcm2835_transfer_pio d) := by
  refine Shrinks.bind ?_ fun r => (shrinks_pure _).ite ?_
  · refine (shrinks_pure _).ite ((shrinks_copy _).bind fun left => ?_)
    exact (shrinks_note _).bind fun _ => shrinks_pure _
  · exact shrinks_readStatus.bind fun _ => shrinks_pure _

theorem shrinks_transmitData (host : sdhost_state) (d : mmc_data) :
    Shrinks (transmitData host d) := by
  refine (shrinks_transfer_pio d).bind fun r => (shrinks_pure _).ite ?_
  refine Shrinks.ite ?_ (shrinks_pure _)
  refine shrinks_wait_transfer_complete.bind fun ret => (shrinks_note _).bind fun _ => ?_
  exact (shrinks_pure _).ite (shrinks_pure _)

theorem shrinks_finish_command (host : sdhost_state) : Shrinks (bcm2835_finish_command host) := by
  unfold bcm2835_finish_command
  split
  · intro ρ a es ρ' h
    cases h
  · refine shrinks_wait.bind fun sdcmd => Shrinks.ite ?_ (Shrinks.ite ?_ ?_)
    · exact (shrinks_note _).bind fun _ => shrinks_pure _
    · exact shrinks_readStatus.bind fun _ => (shrinks_note _).bind fun _ => shrinks_pure _
    · refine Shrinks.bind ?_ fun _ => (shrinks_note _).bind fun _ => shrinks_pure _
      refine Shrinks.ite (Shrinks.ite ?_ ?_) (shrinks_pure _)
      · exact shrinks_ask.bind fun _ => shrinks_ask.bind fun _ => shrinks_ask.bind fun _ =>
          shrinks_ask.bind fun _ => shrinks_pure _
      · exact shrinks_ask.bind fun _ => shrinks_pure _

theorem shrinks_transmitChecked (host : sdhost_state) (intmask : Word) :
    Shrinks (transmitChecked host intmask) := by
  refine Shrinks.bind ?_ fun h' => ?_
  · refine Shrinks.ite ?_ (shrinks_pure _)
    exact (shrinks_note _).bind fun _ => (shrinks_finish_command _).bind fun _ => shrinks_pure _
  · split
    · exact shrinks_pure _
    · exact shrinks_transmitData _ _

theorem runs_sendTurn {host : sdhost_state} {c : Int}
    (hmore : host.use_busy = true ∨ host.data.isSome = true)
    {t : sdhost_state × Int ⊕ Int × sdhost_state} {es : List Event} {ρ ρ' : List Word} :
    Runs (sendTurn (host, c)) ρ t es ρ' ↔ ∃ ret h', Runs (bcm2835_transmit host) ρ (ret, h') es ρ' ∧
      t = if ret ≠ 0 then .inr (ret, h') else .inl (h', 0) := by
  rw [sendTurn, if_pos hmore, runs_bind]
  constructor
  · rintro ⟨⟨ret, h'⟩, es₁, ρ₁, es₂, hrun, hrest, rfl⟩
    refine ⟨ret, h', ?_⟩
    rcases runs_ite.mp hrest with ⟨hret, hend⟩ | ⟨hret, hend⟩
    · obtain ⟨rfl, rfl, rfl⟩ := runs_pure.mp hend
      rw [List.append_nil, if_pos hret]
      exact ⟨hrun, rfl⟩
    · obtain ⟨rfl, rfl, rfl⟩ := runs_pure.mp hend
      rw [List.append_nil, if_neg hret]
      exact ⟨hrun, rfl⟩
  · rintro ⟨ret, h', hrun, rfl⟩
    refine ⟨(ret, h'), es, ρ', [], hrun, ?_, (List.append_nil _).symm⟩
    dsimp only
    split_ifs <;> exact runs_pure.mpr ⟨rfl, rfl, rfl⟩

theorem runs_sendTurn_idle {host : sdhost_state} {c : Int}
    (hidle : ¬ (host.use_busy = true ∨ host.data.isSome = true))
    {t : sdhost_state × Int ⊕ Int × sdhost_state} {es : List Event} {ρ ρ' : List Word} :
    Runs (sendTurn (host, c)) ρ t es ρ' ↔ t = .inr (c, host) ∧ es = [] ∧ ρ' = ρ := by
  rw [sendTurn, if_neg hidle, runs_pure]

theorem reads_sendTurn : Reads sendTurn := by
  rintro ⟨host, c⟩ s' ρ es ρ' h
  by_cases hmore : host.use_busy = true ∨ host.data.isSome = true
  · obtain ⟨ret, h', hrun, -⟩ := (runs_sendTurn hmore).mp h
    obtain ⟨intmask, ρ₁, es₁, rfl, -, ⟨-, -, -, rfl⟩ | ⟨-, hrest⟩⟩ := runs_transmit.mp hrun
    · simp
    · exact Nat.lt_succ_of_le (shrinks_transmitChecked _ _ _ _ _ _ hrest)
  · obtain ⟨hend, -, -⟩ := (runs_sendTurn_idle hmore).mp h
    cases hend

/-! ## A command is sent and finished -/

/-- What `bcm2835_send_command` writes after the flags `sdhsts`. -/
def sendWrites (sdhsts : Word) (cmd : mmc_cmd) (data : Option mmc_data) : List Event :=
  (if sdhsts &&& SDHSTS_ERROR_MASK ≠ 0 then [.writel sdhsts .SDHSTS] else []) ++
    [.writel 0 .SDARG] ++
    (data.elim [] fun d => [.writel d.blocksize .SDHBCT, .writel d.blocks .SDHBLC]) ++
    [.writel cmd.cmdarg .SDARG, .writel (sdcmdOf cmd data ||| HC_CMD_ENABLE) .SDCMD]

/-- The host after a command was sent. -/
def sentHost (host : sdhost_state) (cmd : mmc_cmd) (data : Option mmc_data) : sdhost_state where
  cmd := some cmd
  use_busy := busyAfter cmd
  data := data
  blocks := data.elim host.blocks mmc_data.blocks

theorem runs_send_command {host : sdhost_state} {cmd : mmc_cmd} {data : Option mmc_data}
    (hresp : cmd.resp_type &&& MMC_RSP_136 = 0) {r : Int × sdhost_state} {es : List Event}
    {ρ ρ' : List Word} :
    Runs (bcm2835_send_command host cmd data) ρ r es ρ' ↔ ∃ sdcmd ρ₁, Waits ρ sdcmd ρ₁ ∧
      (sdcmd &&& HC_CMD_ENABLE ≠ 0 ∧ r = (-2, host) ∧ es = [] ∧ ρ' = ρ₁ ∨
        sdcmd &&& HC_CMD_ENABLE = 0 ∧ ∃ sdhsts, ρ₁ = sdhsts :: ρ' ∧
          r = (0, sentHost host cmd data) ∧ es = sendWrites sdhsts cmd data) := by
  have hnot : ¬ (cmd.resp_type &&& MMC_RSP_136 ≠ 0 ∧ cmd.resp_type &&& MMC_RSP_BUSY ≠ 0) :=
    fun h => h.1 hresp
  rw [bcm2835_send_command, if_neg hnot, runs_wait_bind]
  refine exists_congr fun sdcmd => exists_congr fun ρ₁ => and_congr_right fun _ => ?_
  rw [runs_ite, runs_pure, not_not]
  refine or_congr_right (and_congr_right fun _ => ?_)
  rw [readl, runs_ask_bind]
  have hwrites (sdhsts : Word) (ρ₂ : List Word) :
      Runs (do
        if sdhsts &&& SDHSTS_ERROR_MASK ≠ 0 then writel sdhsts .SDHSTS
        writel 0 .SDARG
        let host ← bcm2835_prepare_data { host with cmd := some cmd } data
        writel cmd.cmdarg .SDARG
        writel (sdcmdOf cmd data ||| HC_CMD_ENABLE) .SDCMD
        return (0, { host with use_busy := busyAfter cmd })) ρ₂ r es ρ' ↔
      r = (0, sentHost host cmd data) ∧ es = sendWrites sdhsts cmd data ∧ ρ' = ρ₂ := by
    unfold sendWrites sentHost
    cases data with
    | none =>
      simp only [bcm2835_prepare_data, writel, runs_ite, runs_note_bind, runs_pure_bind, runs_pure]
      split_ifs <;> grind
    | some d =>
      simp only [bcm2835_prepare_data, writel, runs_ite, runs_bind_bind, runs_note_bind,
        runs_pure_bind, runs_pure]
      split_ifs <;> grind
  constructor
  · rintro ⟨sdhsts, ρ₂, rfl, hrest⟩
    obtain ⟨rfl, rfl, rfl⟩ := (hwrites sdhsts ρ₂).mp hrest
    exact ⟨sdhsts, rfl, rfl, rfl⟩
  · rintro ⟨sdhsts, rfl, rfl, rfl⟩
    exact ⟨sdhsts, ρ', rfl, (hwrites sdhsts ρ').mpr ⟨rfl, rfl, rfl⟩⟩

theorem runs_finish_command {host : sdhost_state} {cmd : mmc_cmd} (hcmd : host.cmd = some cmd)
    (hpresent : cmd.resp_type &&& MMC_RSP_PRESENT ≠ 0)
    (hresp : cmd.resp_type &&& MMC_RSP_136 = 0) {r : Int × sdhost_state} {es : List Event}
    {ρ ρ' : List Word} :
    Runs (bcm2835_finish_command host) ρ r es ρ' ↔ ∃ sdcmd ρ₁, Waits ρ sdcmd ρ₁ ∧
      (sdcmd &&& HC_CMD_ENABLE ≠ 0 ∧ r = (-1, host) ∧ es = [.finished (-1) []] ∧ ρ' = ρ₁ ∨
        sdcmd &&& HC_CMD_ENABLE = 0 ∧
          (sdcmd &&& SDCMD_FAIL_FLAG ≠ 0 ∧ (∃ hsts, ρ₁ = hsts :: ρ' ∧ r = (-1, host) ∧
              es = [.status hsts, .finished (-1) []]) ∨
            sdcmd &&& SDCMD_FAIL_FLAG = 0 ∧ ∃ rsp, ρ₁ = rsp :: ρ' ∧
              r = (0, { host with cmd := none }) ∧ es = [.finished 0 [rsp]])) := by
  have hbit : ¬ cmd.resp_type &&& MMC_RSP_136 ≠ 0 := not_not.mpr hresp
  simp only [bcm2835_finish_command, hcmd, runs_wait_bind, readResponse, if_pos hpresent,
    if_neg hbit, runs_ite, runs_bind_bind, readl, runs_readStatus_bind, runs_ask_bind,
    runs_note_bind, runs_pure_bind, runs_pure]
  refine exists_congr fun sdcmd => exists_congr fun ρ₁ => and_congr_right fun _ => ?_
  rw [not_not, not_not]
  constructor
  · rintro (⟨hon, es₁, rfl, rfl, rfl, rfl⟩ | ⟨hoff, hend⟩)
    · exact .inl ⟨hon, rfl, rfl, rfl⟩
    · refine .inr ⟨hoff, ?_⟩
      rcases hend with ⟨hfail, hsts, ρ₂, es₁, rfl, rfl, es₂, rfl, rfl, rfl, rfl⟩ |
        ⟨hgood, rsp, ρ₂, rfl, es₁, rfl, rfl, rfl, rfl⟩
      · exact .inl ⟨hfail, hsts, rfl, rfl, rfl⟩
      · exact .inr ⟨hgood, rsp, rfl, rfl, rfl⟩
  · rintro (⟨hon, rfl, rfl, rfl⟩ | ⟨hoff, hend⟩)
    · exact .inl ⟨hon, [], rfl, rfl, rfl, rfl⟩
    · refine .inr ⟨hoff, ?_⟩
      rcases hend with ⟨hfail, hsts, rfl, rfl, rfl⟩ | ⟨hgood, rsp, rfl, rfl, rfl⟩
      · exact .inl ⟨hfail, hsts, ρ', _, rfl, rfl, [], rfl, rfl, rfl, rfl⟩
      · exact .inr ⟨hgood, rsp, ρ', rfl, [], rfl, rfl, rfl, rfl⟩

/-- The controller takes a command. -/
def Idle (edm : Word) : Prop :=
  edm &&& SDEDM_FSM_MASK = SDEDM_FSM_IDENTMODE ∨ edm &&& SDEDM_FSM_MASK = SDEDM_FSM_DATAMODE

theorem runs_send_cmd {host : sdhost_state} {cmd : mmc_cmd} {data : Option mmc_data}
    (hpower : (data.any fun d => !is_power_of_2 d.blocksize) = false)
    {r : Int × sdhost_state} {es : List Event} {ρ ρ' : List Word} :
    Runs (bcm2835_send_cmd host cmd data) ρ r es ρ' ↔ ∃ edm ρ₁, ρ = edm :: ρ₁ ∧
      ((¬ Idle edm ∧ cmd.cmdidx ≠ MMC_CMD_STOP_TRANSMISSION) ∧ r = (-1, host) ∧ es = [] ∧
          ρ' = ρ₁ ∨
        ¬ (¬ Idle edm ∧ cmd.cmdidx ≠ MMC_CMD_STOP_TRANSMISSION) ∧
          ∃ sent es₁ ρ₂ ended es₂ ρ₃ es₃,
            Runs (bcm2835_send_command host cmd data) ρ₁ sent es₁ ρ₂ ∧
            Runs (afterSent sent.1 sent.2) ρ₂ ended es₂ ρ₃ ∧
            Turns sendTurn (ended.2, ended.1) ρ₃ r es₃ ρ' ∧
            es = es₁ ++ .sent sent.1 :: (es₂ ++ es₃)) := by
  have hidle (edm : Word) : (edm &&& SDEDM_FSM_MASK ≠ SDEDM_FSM_IDENTMODE ∧
      edm &&& SDEDM_FSM_MASK ≠ SDEDM_FSM_DATAMODE ∧
      cmd.cmdidx ≠ MMC_CMD_STOP_TRANSMISSION) ↔
      ¬ Idle edm ∧ cmd.cmdidx ≠ MMC_CMD_STOP_TRANSMISSION := by
    rw [Idle, not_or, and_assoc]
  rw [bcm2835_send_cmd, hpower, if_neg (by decide), readl, runs_ask_bind]
  refine exists_congr fun edm => exists_congr fun ρ₁ => and_congr_right fun _ => ?_
  dsimp only
  rw [runs_ite, runs_pure, hidle]
  refine or_congr_right (and_congr_right fun _ => ?_)
  rw [runs_bind]
  constructor
  · rintro ⟨sent, es₁, ρ₂, es₂, hsent, hrest, rfl⟩
    obtain ⟨es₃, rfl, hafter⟩ := runs_note_bind.mp hrest
    obtain ⟨ended, es₄, ρ₃, es₅, hended, hloop, rfl⟩ := runs_bind.mp hafter
    exact ⟨sent, es₁, ρ₂, ended, es₄, ρ₃, es₅, hsent, hended, (runs_loop reads_sendTurn).mp hloop,
      rfl⟩
  · rintro ⟨sent, es₁, ρ₂, ended, es₂, ρ₃, es₃, hsent, hended, hturns, rfl⟩
    exact ⟨sent, es₁, ρ₂, _, hsent, runs_note_bind.mpr ⟨_, rfl, runs_bind.mpr ⟨ended, es₂, ρ₃, es₃,
      hended, (runs_loop reads_sendTurn).mpr hturns, rfl⟩⟩, rfl⟩

end rpi_wifi.sdhost
