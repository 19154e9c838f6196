-- The 64-bit time, read from a counter in two halves. Time passes between any two
-- readings, and the upper half is read again behind the lower one: where it is still
-- the same, no carry came between them.
import RpiWifi.BitFields

namespace rpi_wifi.systimer

open bit_fields

/-- A counter of 64 bits that never goes back: its value at each of the readings that are made
of it, one after another. -/
structure Counter where
  value : Nat → BitVec 64
  mono : ∀ {i j}, i ≤ j → (value i).toNat ≤ (value j).toNat

variable {c : Counter} {fuel i j k k' : Nat} {t d : BitVec 64}

namespace Counter

def counter_high (c : Counter) (i : Nat) : BitVec 32 := (c.value i).extractLsb' 32 32

def counter_low (c : Counter) (i : Nat) : BitVec 32 := (c.value i).extractLsb' 0 32

end Counter

/-! ## The functions -/

/-- `timer_getTickCount64` from reading `k` on: what it returns, and the next reading. Each
round of its loop makes three of them. -/
def timer_getTickCount64 (c : Counter) : Nat → Nat → Option (BitVec 64 × Nat)
  | 0, _ => none
  | fuel + 1, k =>
    let resVal := (c.counter_high k).setWidth 64
    let lowCount := c.counter_low (k + 1)
    if resVal ≠ (c.counter_high (k + 2)).setWidth 64 then timer_getTickCount64 c fuel (k + 3)
    else some (resVal <<< 32 ||| lowCount.setWidth 64, k + 3)

/-- The last reading of `counter_low` in a call whose next reading would be `k'`. -/
def lastLow (k' : Nat) : Nat := k' - 2

/-- The loop of `MicroDelay`. -/
def delayLoop (c : Counter) (limit : BitVec 64) : Nat → Nat → Option Nat
  | 0, _ => none
  | fuel + 1, k =>
    match timer_getTickCount64 c fuel k with
    | none => none
    | some (tick, k') => if tick < limit then delayLoop c limit fuel k' else some k'

/-- `MicroDelay` from reading `k` on: the next reading when it returns. -/
def MicroDelay (c : Counter) (fuel : Nat) (delayInUs : BitVec 64) (k : Nat) : Option Nat :=
  match timer_getTickCount64 c fuel k with
  | none => none
  | some (timer_tick, k') => delayLoop c (timer_tick + delayInUs) fuel k'

/-! ## One round -/

theorem high_toNat (c : Counter) (i : Nat) :
    (c.counter_high i).toNat = (c.value i).toNat / 2 ^ 32 := by
  have hlt := (c.value i).isLt
  rw [Counter.counter_high, toNat_field, Nat.mod_eq_of_lt (by omega)]

theorem high_mono (h : i ≤ j) : (c.counter_high i).toNat ≤ (c.counter_high j).toNat := by
  rw [high_toNat, high_toNat]
  exact Nat.div_le_div_right (c.mono h)

theorem setWidth_high_inj {x y : BitVec 32} : x.setWidth 64 = y.setWidth 64 ↔ x = y := by
  constructor
  · intro h
    have hnat := congrArg BitVec.toNat h
    simp only [BitVec.toNat_setWidth] at hnat
    have hx := x.isLt
    have hy := y.isLt
    exact BitVec.eq_of_toNat_eq (by omega)
  · rintro rfl
    rfl

/-- The two halves are joined. -/
theorem join_halves_eq (v : BitVec 64) :
    (v.extractLsb' 32 32).setWidth 64 <<< 32 ||| (v.extractLsb' 0 32).setWidth 64 = v := by
  have hjoin := join_or v 0 32 32 64
  simpa using hjoin

/-- Where the upper half is the same before and after, it is the one of the value between. -/
theorem round_eq (h : c.counter_high k = c.counter_high (k + 2)) :
    (c.counter_high k).setWidth 64 <<< 32 ||| (c.counter_low (k + 1)).setWidth 64 =
      c.value (k + 1) := by
  have hfirst : (c.counter_high k).toNat ≤ (c.counter_high (k + 1)).toNat := high_mono (by omega)
  have hsecond : (c.counter_high (k + 1)).toNat ≤ (c.counter_high (k + 2)).toNat :=
    high_mono (by omega)
  have hsame : c.counter_high k = c.counter_high (k + 1) := by
    rw [← h] at hsecond
    exact BitVec.eq_of_toNat_eq (Nat.le_antisymm hfirst hsecond)
  rw [hsame]
  exact join_halves_eq (c.value (k + 1))

/-! ## The calls -/

/-- A call returns the value at its last reading of the lower half. -/
theorem ticks_eq (h : timer_getTickCount64 c fuel k = some (t, k')) :
    k + 3 ≤ k' ∧ t = c.value (lastLow k') := by
  induction fuel generalizing k with
  | zero => cases h
  | succ fuel ih =>
    unfold timer_getTickCount64 at h
    dsimp only at h
    split at h
    · obtain ⟨hle, ht⟩ := ih h
      exact ⟨by omega, ht⟩
    · next hsame =>
      have hhigh := setWidth_high_inj.mp (not_not.mp hsame)
      rw [round_eq hhigh, Option.some_inj, Prod.mk.injEq] at h
      obtain ⟨rfl, rfl⟩ := h
      exact ⟨le_rfl, rfl⟩

/-- The upper half is carried into at most `2 ^ 32` times, so a call returns. -/
theorem ticks_returns (c : Counter) (k : Nat) :
    ∃ t k', timer_getTickCount64 c (2 ^ 32) k = some (t, k') := by
  have hround : ∀ n k, 2 ^ 32 - (c.counter_high k).toNat ≤ n →
      ∃ t k', timer_getTickCount64 c n k = some (t, k') := by
    intro n
    induction n with
    | zero =>
      intro k hn
      have hlt := (c.counter_high k).isLt
      omega
    | succ n ih =>
      intro k hn
      unfold timer_getTickCount64
      dsimp only
      split
      · next hne =>
        -- a round that is made again has seen a carry
        have hle : (c.counter_high k).toNat ≤ (c.counter_high (k + 2)).toNat :=
          high_mono (by omega)
        have hne' : (c.counter_high k).toNat ≠ (c.counter_high (k + 2)).toNat := by
          intro heq
          exact hne (setWidth_high_inj.mpr (BitVec.eq_of_toNat_eq heq))
        have hnext : (c.counter_high (k + 2)).toNat ≤ (c.counter_high (k + 3)).toNat :=
          high_mono (by omega)
        exact ih (k + 3) (by omega)
      · exact ⟨_, _, rfl⟩
  exact hround (2 ^ 32) k (Nat.sub_le _ _)

/-- The loop of a delay returns behind a call that has seen its end. -/
theorem delayLoop_eq (h : delayLoop c t fuel k = some k') :
    t.toNat ≤ (c.value (lastLow k')).toNat := by
  induction fuel generalizing k with
  | zero => cases h
  | succ fuel ih =>
    unfold delayLoop at h
    cases hcall : timer_getTickCount64 c fuel k with
    | none => simp [hcall] at h
    | some r =>
      simp only [hcall] at h
      split at h
      · exact ih h
      · next hover =>
        rw [Option.some_inj] at h
        subst h
        rw [← (ticks_eq hcall).2]
        exact Nat.le_of_not_lt hover

theorem MicroDelay_eq (h : MicroDelay c fuel d k = some k') :
    ∃ start k₁, timer_getTickCount64 c fuel k = some (start, k₁) ∧
      (start + d).toNat ≤ (c.value (lastLow k')).toNat := by
  unfold MicroDelay at h
  cases hcall : timer_getTickCount64 c fuel k with
  | none => simp [hcall] at h
  | some r =>
    simp only [hcall] at h
    exact ⟨r.1, r.2, rfl, delayLoop_eq h⟩

/-- No call returns a torn value, later calls never return less, and a delay whose end has 64
bits is not over before its ticks have passed. -/
theorem the_time_is_read_whole (c : Counter) :
    (∀ fuel k t k', timer_getTickCount64 c fuel k = some (t, k') → t = c.value (lastLow k')) ∧
      (∀ fuel k t k' fuel₂ k₂ t₂ k₂', timer_getTickCount64 c fuel k = some (t, k') → k' ≤ k₂ →
        timer_getTickCount64 c fuel₂ k₂ = some (t₂, k₂') → t.toNat ≤ t₂.toNat) ∧
      (∀ fuel d k k' start k₁, timer_getTickCount64 c fuel k = some (start, k₁) →
        start.toNat + d.toNat < 2 ^ 64 → MicroDelay c fuel d k = some k' →
          (c.value k).toNat + d.toNat ≤ (c.value (lastLow k')).toNat ∧
            start.toNat + d.toNat ≤ (c.value (lastLow k')).toNat) := by
  refine ⟨fun fuel k t k' h => (ticks_eq h).2, ?_, ?_⟩
  · intro fuel k t k' fuel₂ k₂ t₂ k₂' h hlater h₂
    obtain ⟨hle, rfl⟩ := ticks_eq h
    obtain ⟨hle₂, rfl⟩ := ticks_eq h₂
    exact c.mono (by unfold lastLow; omega)
  · intro fuel d k k' start k₁ h hfits hdelay
    obtain ⟨hle, hstart⟩ := ticks_eq h
    obtain ⟨start', k₁', h', hover⟩ := MicroDelay_eq hdelay
    obtain ⟨rfl, rfl⟩ : start = start' ∧ k₁ = k₁' := by simpa [h] using h'
    have hbefore : (c.value k).toNat ≤ start.toNat := by
      rw [hstart]
      exact c.mono (by unfold lastLow; omega)
    rw [BitVec.toNat_add, Nat.mod_eq_of_lt hfits] at hover
    exact ⟨by omega, hover⟩

/-! ## A carry between the readings -/

/-- A counter that stands just before a carry, one tick to each reading, up to the largest
value. -/
def beforeCarry : Counter where
  value i := BitVec.ofNat 64 (min (2 ^ 32 - 1 + i) (2 ^ 64 - 1))
  mono := by
    intro i j h
    simp only [BitVec.toNat_ofNat]
    rw [Nat.mod_eq_of_lt (by omega), Nat.mod_eq_of_lt (by omega)]
    omega

/-- The first round sees the carry, and the second one returns. -/
theorem the_time_is_read_over_a_carry :
    timer_getTickCount64 beforeCarry 2 0 = some (BitVec.ofNat 64 (2 ^ 32 + 3), 6) ∧
      BitVec.ofNat 64 (2 ^ 32 + 3) = beforeCarry.value (lastLow 6) ∧
        (beforeCarry.value 0).toNat + 2 ≤ (beforeCarry.value (lastLow 9)).toNat := by
  have hcall : timer_getTickCount64 beforeCarry 2 0 =
      some (BitVec.ofNat 64 (2 ^ 32 + 3), 6) := by decide
  have h := the_time_is_read_whole beforeCarry
  exact ⟨hcall, h.1 2 0 _ 6 hcall, (h.2.2 2 2 0 9 _ 6 hcall (by decide) (by decide)).1⟩

end rpi_wifi.systimer
