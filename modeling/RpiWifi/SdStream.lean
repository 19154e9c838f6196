-- The words that the card streams through the FIFO are the words that a read stores, in
-- their order and from the destination on, in whatever portions the FIFO has them.
import RpiWifi.SdReads
import RpiWifi.Arm

namespace rpi_wifi.sdcard

open conversations memory sdhost

open arm (writeWords writeWords_append)

/-! ## What is written -/

/-- The memory after the stores of a run. -/
def written : Mem → List Event → Mem
  | m, [] => m
  | m, .store a w :: es => written (write32 m a w.toNat) es
  | m, _ :: es => written m es

/-- No word is stored. -/
def Storeless (es : List Event) : Prop := ∀ a w, .store a w ∉ es

variable {m : Mem} {es fs : List Event} {ws : List Word} {ρ ρ' : List Word}

theorem written_append : written m (es ++ fs) = written (written m es) fs := by
  induction es generalizing m with
  | nil => rfl
  | cons e es ih => cases e <;> exact ih

theorem written_storeless (h : Storeless es) : written m es = m := by
  induction es generalizing m with
  | nil => rfl
  | cons e es ih =>
    have hrest : Storeless es := fun a w hin => h a w (List.mem_cons_of_mem _ hin)
    cases e with
    | store a w => exact absurd List.mem_cons_self (h a w)
    | _ => exact ih hrest

theorem Storeless.append (h : Storeless es) (h' : Storeless fs) : Storeless (es ++ fs) := by
  intro a w hin
  rcases List.mem_append.mp hin with hin | hin
  · exact h a w hin
  · exact h' a w hin

theorem storeless_of_writes (h : ∀ e ∈ es, ∃ val reg, e = .writel val reg) : Storeless es := by
  intro a w hin
  obtain ⟨val, reg, heq⟩ := h _ hin
  cases heq

theorem written_stores {buf : Nat} : written m (stores buf ws) = writeWords m buf ws := by
  induction ws generalizing m buf with
  | nil => rfl
  | cons w ws ih => exact ih

/-- What is around the stores of a copy does not write. -/
theorem written_between {before after : List Event} (hbefore : Storeless before)
    (hafter : Storeless after) : written m (before ++ (es ++ after)) = written m es := by
  rw [written_append, written_append, written_storeless hbefore, written_storeless hafter]

/-! ## The words of a block -/

/-- From the values `ρ` the FIFO gives the words `ws`, up to `ρ'`: in bursts, with short
fillings between them that no error flag ends. -/
inductive Fifo : List Word → List Word → List Word → Prop
  | done {ρ : List Word} : Fifo [] ρ ρ
  | wait {ws : List Word} {edm : Word} {ρ ρ' : List Word} : ws ≠ [] → Short edm ws.length →
      Receiving edm → Fifo ws ρ ρ' → Fifo ws (edm :: ρ) ρ'
  | look {ws : List Word} {edm hsts : Word} {ρ ρ' : List Word} : ws ≠ [] →
      Short edm ws.length → ¬ Receiving edm → Clean hsts → Fifo ws ρ ρ' →
      Fifo ws (edm :: hsts :: ρ) ρ'
  | burst {ws vs : List Word} {edm : Word} {ρ ρ' : List Word} : ws ++ vs ≠ [] →
      ¬ Short edm (ws ++ vs).length →
      ws.length = min (edm_fifo_fill edm).toNat (ws ++ vs).length → Fifo vs ρ ρ' →
      Fifo (ws ++ vs) (edm :: (ws ++ ρ)) ρ'

theorem length_ne_zero (h : ws ≠ []) : ws.length ≠ 0 := fun h' => h (List.length_eq_zero_iff.mp h')

theorem copy_of_fifo (h : Fifo ws ρ ρ') (buf : Nat) :
    ∃ es, Turns copyTurn (ws.length, buf) ρ 0 es ρ' ∧
      ∀ m, written m es = writeWords m buf ws := by
  induction h generalizing buf with
  | done => exact ⟨[], .last (runs_copyTurn.mpr .done), fun _ => rfl⟩
  | wait hne hshort hreads _ ih =>
    obtain ⟨es, hturns, hall⟩ := ih buf
    exact ⟨es, .next (runs_copyTurn.mpr (.wait (length_ne_zero hne) hshort hreads)) hturns, hall⟩
  | look hne hshort hnot hclean _ ih =>
    obtain ⟨es, hturns, hall⟩ := ih buf
    exact ⟨_, .next (runs_copyTurn.mpr (.look (length_ne_zero hne) hshort hnot hclean)) hturns,
      hall⟩
  | @burst ws vs edm ρ ρ' hne hfull hlen _ ih =>
    obtain ⟨es, hturns, hall⟩ := ih (buf + 4 * ws.length)
    have hleft : (ws ++ vs).length - ws.length = vs.length := by
      rw [List.length_append, Nat.add_sub_cancel_left]
    have hturn := runs_copyTurn.mpr (@CopyTurn.burst _ buf _ _ ρ (length_ne_zero hne) hfull hlen)
    rw [hleft] at hturn
    refine ⟨_, .next hturn hturns, fun m => ?_⟩
    rw [written_append, written_stores, hall, writeWords_append]

/-! ## The blocks of a read -/

/-- From the values `ρ` the controller gives the blocks `bs` of a read: no flag is seen, and
after the last one the transfer ends. -/
inductive Stream : List (List Word) → List Word → List Word → Prop
  | last {ws : List Word} {intmask hsts : Word} {fs : List Event} {ρ ρ₁ ρ' : List Word} :
      Clean intmask → Fifo ws ρ (hsts :: ρ₁) → Clean hsts →
      Runs bcm2835_wait_transfer_complete ρ₁ 0 fs ρ' → Stream [ws] (intmask :: ρ) ρ'
  | next {ws : List Word} {bs : List (List Word)} {intmask hsts : Word} {ρ ρ₁ ρ' : List Word} :
      bs ≠ [] → Clean intmask → Fifo ws ρ (hsts :: ρ₁) → Clean hsts → Stream bs ρ₁ ρ' →
      Stream (ws :: bs) (intmask :: ρ) ρ'

/-- A turn of the loop of a call that transfers a block. -/
theorem turn_of_blockEnd {host h' : sdhost_state} {c : Int} {d : mmc_data} {intmask : Word}
    (hclean : Clean intmask) (hbusy : host.use_busy = false) (hdata : host.data = some d)
    (hd : d.blocksize = read_bl_len) (hend : BlockEnd host d ρ (0, h') es ρ') :
    Runs (sendTurn (host, c)) (intmask :: ρ) (.inl (h', 0)) (.status intmask :: es) ρ' := by
  have hmore : host.use_busy = true ∨ host.data.isSome = true := .inr (by rw [hdata]; rfl)
  have hrun := (runs_transmitData hd).mpr hend
  rw [← runs_transmitChecked_data hbusy hdata] at hrun
  exact (runs_sendTurn hmore).mpr ⟨0, h', runs_transmit.mpr
    ⟨intmask, ρ, es, rfl, rfl, .inr ⟨hclean, hrun⟩⟩, rfl⟩

theorem storeless_end (hsts : Word) (h : Storeless fs) :
    Storeless ([.copied 0, .status hsts] ++ fs) := by
  apply Storeless.append ?_ h
  intro a w hin
  simp at hin

/-- The blocks that are streamed are stored one after another. -/
theorem turns_of_stream {bs : List (List Word)} (h : Stream bs ρ ρ') {host : sdhost_state}
    {c : Int} {d : mmc_data} (hlen : ∀ b ∈ bs, b.length = 128)
    (hblocks : host.blocks.toNat = bs.length) (hbusy : host.use_busy = false)
    (hdata : host.data = some d) (hd : d.blocksize = read_bl_len) :
    ∃ es, Turns sendTurn (host, c) ρ (0, { host with data := none, blocks := 0 }) es ρ' ∧
      ∀ m, written m es = writeWords m d.dest bs.flatten := by
  induction h generalizing host c d with
  | @last ws intmask hsts fs ρ ρ₁ ρ' hclean hfifo hhsts hwait =>
    obtain ⟨es, hcopy, hall⟩ := copy_of_fifo hfifo d.dest
    rw [hlen ws List.mem_cons_self] at hcopy
    have hone : host.blocks = 1 := BitVec.eq_of_toNat_eq hblocks
    have hend : BlockEnd host d ρ _ _ ρ' := .last hcopy hhsts hone hwait
    rw [if_pos rfl, sub_eq_zero.mpr hone] at hend
    have hidle : ¬ (({ host with data := none, blocks := 0 } : sdhost_state).use_busy = true ∨
        (none : Option mmc_data).isSome = true) := by
      rw [hbusy]
      decide
    have hlast : Turns sendTurn ({ host with data := none, blocks := 0 }, 0) ρ' (0, _) [] ρ' :=
      .last ((runs_sendTurn_idle hidle).mpr ⟨rfl, rfl, rfl⟩)
    refine ⟨_, .next (turn_of_blockEnd hclean hbusy hdata hd hend) hlast, fun m => ?_⟩
    have hafter : Storeless ([.copied 0, .status hsts] ++ (fs ++ [.completed 0])) := by
      apply storeless_end
      exact (storeless_of_writes (writes_of_complete hwait)).append (by simp [Storeless])
    have hbefore : Storeless [.status intmask] := by simp [Storeless]
    have hbetween : written m ([.status intmask] ++ (es ++ _)) = written m es :=
      written_between hbefore hafter
    simpa [hall] using hbetween
  | @next ws bs intmask hsts ρ ρ₁ ρ' hne hclean hfifo hhsts _ ih =>
    obtain ⟨es, hcopy, hall⟩ := copy_of_fifo hfifo d.dest
    have hws : ws.length = 128 := hlen ws List.mem_cons_self
    rw [hws] at hcopy
    have hpos : bs.length ≠ 0 := fun h => hne (List.length_eq_zero_iff.mp h)
    have hmore : host.blocks ≠ 1 := by
      intro hone
      rw [hone] at hblocks
      exact hpos (Nat.succ_injective hblocks.symm)
    have hblocks' : (host.blocks - 1).toNat = bs.length := by
      have hlt := host.blocks.isLt
      rw [List.length_cons] at hblocks
      rw [BitVec.toNat_sub, show (1 : Word).toNat = 1 from rfl]
      omega
    have hend : BlockEnd host d ρ _ _ ρ₁ := .next hcopy hhsts hmore
    obtain ⟨fs, hturns, hrest⟩ :=
      @ih { host with data := some (nextData d), blocks := host.blocks - 1 } 0 (nextData d)
        (fun b hb => hlen b (List.mem_cons_of_mem _ hb)) hblocks' hbusy rfl hd
    refine ⟨_, .next (turn_of_blockEnd hclean hbusy hdata hd hend) hturns, fun m => ?_⟩
    have hafter : Storeless ([.copied 0, .status hsts] ++ []) :=
      storeless_end hsts (by simp [Storeless])
    have hbefore : Storeless [.status intmask] := by simp [Storeless]
    have hbetween : written m ([.status intmask] ++ (es ++ _)) = written m es :=
      written_between hbefore hafter
    have hnext : (nextData d).dest = d.dest + 4 * ws.length := by rw [hws]; rfl
    rw [written_append, hrest, List.flatten_cons, writeWords_append, hnext]
    congr 1
    simpa [hall] using hbetween

end rpi_wifi.sdcard
