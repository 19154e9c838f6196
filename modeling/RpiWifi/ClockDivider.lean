-- The clock of the SDIO controller. `emmcclk` divides the clock of the firmware down to
-- a frequency of the driver, and `clkdiv` puts the divider into two fields of `Control1`.
-- A division by zero gives no result.
import RpiWifi.Emmc

namespace rpi_wifi.emmc

def Extfreq : Word := 100 * 1000 * 1000

def DTO : Word := 14

def Datatoshift : Nat := 16

def Clkfreq8shift : Nat := 8

def Clkfreq8mask : Word := 0xFF00

def Clkfreqms2shift : Nat := 6

def Clkfreqms2mask : Word := 0xC0

def Clkgendiv : Word := 0 <<< 5

def Clken : Word := 1 <<< 2

def Clkstable : Word := 1 <<< 1

def Clkintlen : Word := 1

/-! ## The divider -/

/-- `emmc.extclk`, which `emmcinit` takes from the clock rate of the firmware. -/
def emmcinit (clk : Word) : Word := if clk = 0 then Extfreq else clk

def clkdiv (d : Word) : Word :=
  let v := d <<< Clkfreq8shift &&& Clkfreq8mask
  v ||| (d >>> 8) <<< Clkfreqms2shift &&& Clkfreqms2mask

/-- The variable `div` of `emmcclk`, as it is programmed. -/
def emmcdiv (extclk freq : Word) : Option Word :=
  if freq <<< 1 = 0 then none
  else
    let div := extclk / (freq <<< 1)
    if div <<< 1 = 0 then none
    else some (if freq < extclk / (div <<< 1) then div + 1 else div)

/-- What `emmcclk` does: the value it writes to `Control1`, and whether it prints that it
can not set the clock. -/
structure ClockSet where
  control1 : Word
  fails : Bool
  deriving DecidableEq

/-- `emmcclk`, where `polls` are the values of `Control1` that it waits with. -/
def emmcclk (extclk freq : Word) (polls : Nat → Word) : Option ClockSet :=
  (emmcdiv extclk freq).map fun div =>
    { control1 := clkdiv div ||| DTO <<< Datatoshift ||| Clkgendiv ||| Clken ||| Clkintlen
      fails := (List.range 1000).all fun i => polls i &&& Clkstable = 0 }

/-- The divider that the two fields of `Control1` say. -/
def clkfields (v : Word) : Word :=
  (v &&& Clkfreq8mask) >>> Clkfreq8shift ||| ((v &&& Clkfreqms2mask) >>> Clkfreqms2shift) <<< 8

/-- The driver asks for the frequency: `emmcenable` does, or a command. -/
def Asked (freq : Nat) : Prop :=
  freq = Initfreq ∨ ∃ appcmd cmd arg resp ρ d,
    emmccmd appcmd cmd arg resp ρ = some d ∧ .clock freq ∈ d.effects

/-- The divider is sound: nothing is divided by zero, the divider fits into its ten bits
and makes a clock that is not faster than `freq`, and `Control1` holds all of it. -/
def SoundClock (extclk freq : Word) (polls : Nat → Word) : Prop :=
  ∃ div set, emmcdiv extclk freq = some div ∧ emmcclk extclk freq polls = some set ∧
    1 ≤ div.toNat ∧ div.toNat ≤ 1023 ∧ extclk.toNat / (2 * div.toNat) ≤ freq.toNat ∧
    clkfields (clkdiv div) = div ∧ clkfields set.control1 = div

/-! ## The arithmetic of the divider -/

/-- The divider of `n` for `f`: the quotient, or one more when that is still too fast. -/
def corrected (n f : Nat) : Nat :=
  if f < n / (2 * (n / (2 * f))) then n / (2 * f) + 1 else n / (2 * f)

section
variable {n f : Nat}

theorem too_fast_iff {q : Nat} (hq : 0 < q) : f < n / (2 * q) ↔ (f + 1) * (2 * q) ≤ n := by
  rw [← Nat.le_div_iff_mul_le (by omega)]
  rfl

theorem corrected_pos (hf : 0 < f) (hn : 2 * f ≤ n) : 1 ≤ corrected n f := by
  have hq : 0 < n / (2 * f) := Nat.div_pos hn (by omega)
  unfold corrected
  split <;> omega

theorem corrected_le_succ (n f : Nat) : corrected n f ≤ n / (2 * f) + 1 := by
  unfold corrected
  split <;> omega

/-- One step of correction is enough. -/
theorem div_corrected_le (hf : 0 < f) : n / (2 * corrected n f) ≤ f := by
  unfold corrected
  split_ifs with hfast
  · apply Nat.le_of_lt
    rw [Nat.div_lt_iff_lt_mul (Nat.mul_pos two_pos (Nat.succ_pos _))]
    calc n < 2 * f * (n / (2 * f) + 1) := Nat.lt_mul_div_succ n (by omega)
      _ = f * (2 * (n / (2 * f) + 1)) := by ring
  · exact Nat.le_of_not_lt hfast

/-- The divider fits into ten bits as long as the clock is slower than the slowest one
that no divider of ten bits divides down to `f`. -/
theorem corrected_le_iff (hf : 1023 ≤ f) : corrected n f ≤ 1023 ↔ n < 2046 * (f + 1) := by
  have hlow : 2 * f * (n / (2 * f)) ≤ n := Nat.mul_div_le n (2 * f)
  have hhigh : n < 2 * f * (n / (2 * f) + 1) := Nat.lt_mul_div_succ n (by omega)
  unfold corrected
  generalize n / (2 * f) = q at hlow hhigh ⊢
  rcases Nat.lt_trichotomy q 1023 with hq | rfl | hq
  · have hfits : n < 2046 * (f + 1) := by
      calc n < 2 * f * (q + 1) := hhigh
        _ ≤ 2 * f * 1023 := Nat.mul_le_mul_left _ hq
        _ ≤ 2046 * (f + 1) := by omega
    simp only [hfits, iff_true]
    split <;> omega
  · have htoo : f < n / (2 * 1023) ↔ (f + 1) * (2 * 1023) ≤ n := too_fast_iff (by decide)
    split <;> omega
  · have hover : 2046 * (f + 1) ≤ n := by
      calc 2046 * (f + 1) ≤ 2 * f * 1024 := by omega
        _ ≤ 2 * f * q := Nat.mul_le_mul_left _ hq
        _ ≤ n := hlow
    split <;> omega

end

/-! ## The fields -/

/-- The two fields hold the low ten bits. -/
theorem clkfields_clkdiv (d : Word) : clkfields (clkdiv d) = d &&& 0x3FF := by
  ext i hi
  interval_cases i <;> simp [clkfields, clkdiv, Clkfreq8mask, Clkfreq8shift, Clkfreqms2mask,
    Clkfreqms2shift]

theorem clkfields_or (v : Word) {w : Word} (h8 : w &&& Clkfreq8mask = 0)
    (hms2 : w &&& Clkfreqms2mask = 0) : clkfields (v ||| w) = clkfields v := by
  unfold clkfields
  rw [BitVec.and_or_distrib_right, BitVec.and_or_distrib_right, h8, hms2]
  simp

/-- The other bits that `emmcclk` writes are outside of the two fields. -/
theorem clkfields_control1 (v : Word) :
    clkfields (v ||| DTO <<< Datatoshift ||| Clkgendiv ||| Clken ||| Clkintlen) = clkfields v := by
  rw [clkfields_or _ (by decide) (by decide), clkfields_or _ (by decide) (by decide),
    clkfields_or _ (by decide) (by decide), clkfields_or _ (by decide) (by decide)]

theorem low_ten_bits {d : Word} (hd : d.toNat ≤ 1023) : d &&& 0x3FF = d := by
  apply BitVec.eq_of_toNat_eq
  calc (d &&& 0x3FF).toNat = d.toNat &&& (2 ^ 10 - 1) := BitVec.toNat_and _ _
    _ = d.toNat % 2 ^ 10 := Nat.and_two_pow_sub_one_eq_mod _ _
    _ = d.toNat := Nat.mod_eq_of_lt (by omega)

/-! ## The clocks of the driver -/

/-- The bounds of the clock that `emmcclk` divides down to `freq`. -/
def Divides (extclk : Word) (freq : Nat) : Prop :=
  2 * freq ≤ extclk.toNat ∧ extclk.toNat < 2046 * (freq + 1)

theorem toNat_double {d : Word} (h : d.toNat < 2 ^ 31) : (d <<< 1).toNat = 2 * d.toNat := by
  rw [BitVec.toNat_shiftLeft, Nat.shiftLeft_eq, Nat.mod_eq_of_lt (by omega)]
  omega

/-- `emmcdiv` is the corrected divider, and there is none when the clock is too slow. -/
theorem emmcdiv_eq {extclk freq : Word} (hpos : 0 < freq.toNat) (hfreq : freq.toNat < 2 ^ 31) :
    emmcdiv extclk freq =
      if 2 * freq.toNat ≤ extclk.toNat then
        some (BitVec.ofNat 32 (corrected extclk.toNat freq.toNat))
      else none := by
  have htwo : (freq <<< 1).toNat = 2 * freq.toNat := toNat_double hfreq
  have hne : freq <<< 1 ≠ 0 := by
    intro h
    rw [h] at htwo
    simp at htwo
    omega
  have hquot : (extclk / (freq <<< 1)).toNat = extclk.toNat / (2 * freq.toNat) := by
    rw [BitVec.toNat_udiv, htwo]
  have hsmall : extclk.toNat / (2 * freq.toNat) < 2 ^ 31 := by
    rw [Nat.div_lt_iff_lt_mul (by omega)]
    omega
  have hquot2 :
      ((extclk / (freq <<< 1)) <<< 1).toNat = 2 * (extclk.toNat / (2 * freq.toNat)) := by
    rw [toNat_double (by omega), hquot]
  have hzero : (extclk / (freq <<< 1)) <<< 1 = 0 ↔ ¬ 2 * freq.toNat ≤ extclk.toNat := by
    rw [← BitVec.toNat_inj, hquot2, Nat.not_le, ← Nat.div_eq_zero_iff_lt (by omega)]
    simp
  have hfast : freq < extclk / ((extclk / (freq <<< 1)) <<< 1) ↔
      freq.toNat < extclk.toNat / (2 * (extclk.toNat / (2 * freq.toNat))) := by
    rw [BitVec.lt_def, BitVec.toNat_udiv, hquot2]
  unfold emmcdiv
  rw [if_neg hne]
  simp only [hzero, hfast, ite_not]
  split_ifs with hclk hcorrect
  · rw [corrected, if_pos hcorrect]
    congr 1
    apply BitVec.eq_of_toNat_eq
    rw [BitVec.toNat_add, hquot, BitVec.toNat_ofNat]
    rfl
  · rw [corrected, if_neg hcorrect, ← hquot, BitVec.ofNat_toNat, BitVec.setWidth_eq]
  · rfl

/-- A reset of an inhibited circuit asks for no clock. -/
theorem reset_clock {inhibited : Prop} [Decidable inhibited] {srst inhibit : Word}
    {regs rest : List Word} {es : List Effect}
    (h : (if inhibited then
        (resetCircuit srst inhibit regs).map fun regs => (regs, [.set .Control1 srst])
      else some (regs, [])) = some (rest, es)) (freq : Nat) :
    Effect.clock freq ∉ es := by
  split_ifs at h
  · obtain ⟨_, -, heq⟩ := Option.map_eq_some_iff.mp h
    cases heq
    simp
  · cases h
    simp

theorem resetIfInhibited_clock {srst inhibit : Word} {regs rest : List Word} {es : List Effect}
    (h : resetIfInhibited srst inhibit regs = some (rest, es)) (freq : Nat) :
    Effect.clock freq ∉ es := by
  cases regs with
  | nil => simp [resetIfInhibited] at h
  | cons status regs => exact reset_clock h freq

theorem resetData_clock {c : Word} {regs rest : List Word} {es : List Effect}
    (h : resetData c regs = some (rest, es)) (freq : Nat) : Effect.clock freq ∉ es := by
  cases regs with
  | nil => simp [resetData] at h
  | cons status regs => exact reset_clock h freq

theorem waitBusy_clock {c : Word} {regs : List Word} {es : List Effect}
    (h : waitBusy c regs = some es) (freq : Nat) : Effect.clock freq ∉ es := by
  unfold waitBusy at h
  split_ifs at h
  · cases regs with
    | nil => simp at h
    | cons i regs =>
      cases h
      simp
  · cases h
    simp

theorem giveUp_clock {i : Word} {regs : List Word} {es : List Effect}
    (h : giveUp i regs = some es) (freq : Nat) : Effect.clock freq ∉ es := by
  cases regs with
  | nil => simp [giveUp] at h
  | cons status regs =>
    simp only [giveUp] at h
    split_ifs at h
    · obtain ⟨_, -, rfl⟩ := Option.map_eq_some_iff.mp h
      simp
    · cases h
      simp

/-- The first part of a command asks for the first clock at most. -/
theorem send_clock {appcmd : Bool} {cmd arg : Word} {ρ : Reading} {s : Sent} {freq : Nat}
    (h : send appcmd cmd arg ρ = some s) (hmem : .clock freq ∈ s.effects) : freq = Initfreq := by
  unfold send at h
  simp only [Option.bind_eq_bind, Option.bind_eq_some_iff] at h
  obtain ⟨⟨c, regs⟩, -, ⟨regs', reset⟩, hreset, ⟨regs'', data⟩, hdata, h⟩ := h
  dsimp only at hreset hdata h
  split at h
  · obtain ⟨⟨i, rest⟩, -, h⟩ := Option.bind_eq_some_iff.mp h
    cases h
    simp only [List.mem_append, resetIfInhibited_clock hreset freq, resetData_clock hdata freq,
      or_false] at hmem
    split_ifs at hmem <;> simp_all
  · cases h

theorem afterwards_clock {appcmd : Bool} {cmd arg : Word} {freq : Nat}
    (hmem : .clock freq ∈ afterwards appcmd cmd arg) : freq = SDfreq ∨ freq = SDfreqhs := by
  unfold afterwards at hmem
  split_ifs at hmem <;> simp_all

/-- The driver asks for three frequencies. -/
theorem asked_cases {freq : Nat} (h : Asked freq) :
    freq = Initfreq ∨ freq = SDfreq ∨ freq = SDfreqhs := by
  rcases h with h | ⟨appcmd, cmd, arg, resp, ρ, d, h, hmem⟩
  · exact .inl h
  · unfold emmccmd at h
    simp only [Option.bind_eq_bind, Option.bind_eq_some_iff] at h
    obtain ⟨s, hs, h⟩ := h
    split_ifs at h
    · obtain ⟨reset, hreset, h⟩ := Option.bind_eq_some_iff.mp h
      cases h
      rcases List.mem_append.mp hmem with hmem | hmem
      · exact .inl (send_clock hs hmem)
      · exact absurd hmem (giveUp_clock hreset freq)
    · obtain ⟨⟨r, regs⟩, -, h⟩ := Option.bind_eq_some_iff.mp h
      obtain ⟨busy, hbusy, h⟩ := Option.bind_eq_some_iff.mp h
      cases h
      rcases List.mem_append.mp hmem with hmem | hmem
      · rcases List.mem_append.mp hmem with hmem | hmem
        · rcases List.mem_append.mp hmem with hmem | hmem
          · exact .inl (send_clock hs hmem)
          · simp at hmem
        · exact absurd hmem (waitBusy_clock hbusy freq)
      · exact .inr (afterwards_clock hmem)

/-! ## The sound clocks -/

/-- The divider for a frequency of the driver is sound exactly when the clock of the
firmware is at least twice as fast, and not too fast for ten bits. -/
theorem a_clock_is_sound_between_its_bounds (clk : Word) {freq : Nat} (h : Asked freq)
    (polls : Nat → Word) :
    SoundClock (emmcinit clk) (BitVec.ofNat 32 freq) polls ↔ Divides (emmcinit clk) freq := by
  have hbounds : 1023 ≤ freq ∧ freq < 2 ^ 31 := by
    rcases asked_cases h with rfl | rfl | rfl <;> decide
  have hfreq : (BitVec.ofNat 32 freq).toNat = freq := by
    rw [BitVec.toNat_ofNat, Nat.mod_eq_of_lt (by omega)]
  generalize emmcinit clk = extclk
  have hnat : (BitVec.ofNat 32 (corrected extclk.toNat freq)).toNat =
      corrected extclk.toNat freq := by
    have hquot : extclk.toNat / (2 * freq) < 2 ^ 31 := by
      rw [Nat.div_lt_iff_lt_mul (by omega)]
      omega
    have hsucc := corrected_le_succ extclk.toNat freq
    rw [BitVec.toNat_ofNat, Nat.mod_eq_of_lt (by omega)]
  have hdiv := @emmcdiv_eq extclk (BitVec.ofNat 32 freq) (by omega) (by omega)
  rw [hfreq] at hdiv
  unfold SoundClock Divides
  constructor
  · rintro ⟨div, set, hsome, -, -, hle, -⟩
    rw [hdiv] at hsome
    split_ifs at hsome with hclk
    cases hsome
    rw [hnat] at hle
    exact ⟨hclk, (corrected_le_iff hbounds.1).mp hle⟩
  · rintro ⟨hclk, hlt⟩
    have hle : corrected extclk.toNat freq ≤ 1023 := (corrected_le_iff hbounds.1).mpr hlt
    rw [if_pos hclk] at hdiv
    refine ⟨_, _, hdiv, by rw [emmcclk, hdiv]; rfl, ?_, ?_, ?_, ?_, ?_⟩
    · rw [hnat]
      exact corrected_pos (by omega) hclk
    · rw [hnat]
      exact hle
    · rw [hnat, hfreq]
      exact div_corrected_le (by omega)
    · rw [clkfields_clkdiv, low_ten_bits (by omega)]
    · rw [clkfields_control1, clkfields_clkdiv, low_ten_bits (by omega)]

/-- At the 250 MHz of the board the first clock is sound. -/
theorem the_first_clock_of_the_board_is_sound :
    SoundClock (emmcinit 250000000) (BitVec.ofNat 32 Initfreq) fun _ => Clkstable :=
  (a_clock_is_sound_between_its_bounds 250000000 (.inl rfl) fun _ => Clkstable).mpr ⟨by decide, by decide⟩

/-- A clock of 50 MHz is reported, and a card is switched to high speed. The quotient is
zero, and `emmcclk` divides by it. -/
theorem a_slow_clock_is_divided_by_zero :
    ¬ ∀ clk : Word, clk ≠ 0 → ∀ freq, Asked freq → ∀ polls,
      SoundClock (emmcinit clk) (BitVec.ofNat 32 freq) polls := by
  have hasked : Asked SDfreqhs := by
    refine .inr ⟨false, Switchfunc, 0x80000001, fun _ => 0, ⟨[0, 0, 0, Cmddone, 0], [0]⟩, ?_⟩
    exact ⟨_, rfl, by decide⟩
  have hnone : emmcdiv (emmcinit 50000000) (BitVec.ofNat 32 SDfreqhs) = none := by decide
  intro h
  obtain ⟨div, set, hdiv, -⟩ := h 50000000 (by decide) SDfreqhs hasked fun _ => Clkstable
  rw [hnone] at hdiv
  cases hdiv

end rpi_wifi.emmc
