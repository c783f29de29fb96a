import FrameworkXC32.Analog.Pwm

/-!
# The frequency of the timer

What `PWM_timer_init` asks of a timer, with the divisors that the hardware has: the last of the
prescaler codes selects 256, where the search for a code has doubled up to 128.
-/

namespace FrameworkXC32
open Machine

/-- The divisors `T2_PS_1_1` to `T2_PS_1_256`, by their codes. -/
def t2Ps : List ℕ := [1, 2, 4, 8, 16, 32, 64, 256]

/-- `n` is a period of 16 bits for the divisor `ratio`, as exact as it can be for `ticks`. -/
structure IsPeriod (ratio ticks n : ℕ) : Prop where
  pos : 0 < n
  fits : n < 65536
  le : ratio * n ≤ ticks
  lt : ticks < ratio * (n + 1)

/-- What is stored at the period register, which keeps 16 bits of it. -/
def pwmStored (clock frequency : Word) : Word :=
  clock / frequency / (1 <<< pwmPrescaler clock frequency)

/-- The field `TCKPS` of a control register. -/
def tckps (con : Word) : ℕ := ((con >>> 4) &&& 7).toNat

namespace Pwm

variable (clock frequency : Word)

/-- The timer has the frequency: the period holds what was stored, and no smaller prescaler code
would do. -/
structure Produces (t : Timer) (s : Pwm) : Prop where
  stored : (s.pr t).toNat = (pwmStored clock frequency).toNat
  period : IsPeriod (t2Ps.getD (tckps (s.tCon t)) 0) (clock.toNat / frequency.toNat)
    (s.pr t).toNat
  least : ∀ code < tckps (s.tCon t), ¬∃ n, IsPeriod (t2Ps.getD code 0)
    (clock.toNat / frequency.toNat) n

end Pwm

lemma isPeriod_div {ticks i : ℕ} (hpos : 0 < ticks / 2 ^ i) (hfits : ticks / 2 ^ i < 65536) :
    IsPeriod (2 ^ i) ticks (ticks / 2 ^ i) where
  pos := hpos
  fits := hfits
  le := Nat.mul_div_le ticks (2 ^ i)
  lt := Nat.lt_mul_div_succ ticks (Nat.two_pow_pos i)

lemma not_isPeriod {ratio ticks n : ℕ} (h : ratio * 65536 ≤ ticks) : ¬IsPeriod ratio ticks n := by
  intro hn
  have hmul := Nat.mul_le_mul_left ratio (Nat.succ_le_of_lt hn.fits)
  exact absurd hn.lt (Nat.not_lt.mpr (hmul.trans h))

lemma t2Ps_of_lt {i : ℕ} (hi : i < 7) : t2Ps.getD i 0 = 2 ^ i := by
  revert hi
  revert i
  decide

variable {clock frequency : Word}

lemma toNat_divided (i : ℕ) (hi : i < 32) :
    (clock / frequency / ((1 <<< i : ℕ) : Word)).toNat =
      clock.toNat / frequency.toNat / 2 ^ i := by
  have hpow : 2 ^ i < 2 ^ 32 := Nat.pow_lt_pow_right (by decide) hi
  have hone : ((1 <<< i : ℕ) : Word).toNat = 2 ^ i := by
    rw [Nat.one_shiftLeft]
    exact Nat.mod_eq_of_lt hpow
  rw [BitVec.toNat_udiv, BitVec.toNat_udiv, hone]

variable (clock) in
/-- The search stops at the first power of two that brings the ticks into 16 bits, or at 7. -/
lemma pwmPrescaler_spec (hpos : 1 ≤ frequency.toNat) :
    pwmPrescaler clock frequency ≤ 7 ∧
      (∀ j < pwmPrescaler clock frequency, 65536 * 2 ^ j ≤ clock.toNat / frequency.toNat) ∧
      (pwmPrescaler clock frequency < 7 →
        clock.toNat / frequency.toNat < 65536 * 2 ^ pwmPrescaler clock frequency) := by
  have hne : frequency ≠ 0 := by
    rintro rfl
    exact absurd hpos (by decide)
  have hfits : ∀ j < 8, (clock / frequency / (1 <<< j) < 0x10000 ↔
      clock.toNat / frequency.toNat < 65536 * 2 ^ j) := by
    intro j hj
    rw [BitVec.lt_def, toNat_divided j (by omega), Nat.div_lt_iff_lt_mul (Nat.two_pow_pos j)]
    rfl
  unfold pwmPrescaler
  rw [if_pos hne]
  dsimp only
  cases hfind : (List.range 8).find? fun i => clock / frequency / (1 <<< i) < 0x10000 with
  | none =>
    rw [List.find?_range_eq_none] at hfind
    refine ⟨le_rfl, fun j hj => ?_, fun h => absurd h (lt_irrefl 7)⟩
    have hj' : j < 7 := hj
    have hbig := hfind j (by omega)
    rw [Bool.not_eq_true', decide_eq_false_iff_not, hfits j (by omega)] at hbig
    exact Nat.not_lt.mp hbig
  | some i =>
    rw [List.find?_range_eq_some, List.mem_range] at hfind
    obtain ⟨hi, hi8, hlow⟩ := hfind
    rw [decide_eq_true_iff, hfits i hi8] at hi
    refine ⟨Nat.le_of_lt_succ hi8, fun j hj => ?_, fun _ => hi⟩
    have hj' : j < i := hj
    have hbig := hlow j hj'
    rw [Bool.not_eq_true', decide_eq_false_iff_not, hfits j (by omega)] at hbig
    exact Nat.not_lt.mp hbig

lemma tckps_eq {i : ℕ} (hi : i ≤ 7) : tckps (onMask ||| BitVec.ofNat 32 i <<< 4) = i := by
  have hlt : i < 8 := Nat.lt_succ_of_le hi
  clear hi
  revert hlt
  revert i
  decide

lemma toNat_pwmStored (hpos : 1 ≤ frequency.toNat) : (pwmStored clock frequency).toNat =
    clock.toNat / frequency.toNat / 2 ^ pwmPrescaler clock frequency :=
  toNat_divided _ ((pwmPrescaler_spec clock hpos).1.trans_lt (by decide))

lemma isPeriod_of_lt (hpos : 1 ≤ frequency.toNat) (hle : frequency.toNat ≤ clock.toNat)
    (hcode : pwmPrescaler clock frequency < 7) :
    IsPeriod (2 ^ pwmPrescaler clock frequency) (clock.toNat / frequency.toNat)
      (pwmStored clock frequency).toNat := by
  have hticks : 1 ≤ clock.toNat / frequency.toNat := (Nat.one_le_div_iff hpos).mpr hle
  obtain ⟨-, hlow, hhigh⟩ := pwmPrescaler_spec clock hpos
  rw [toNat_pwmStored hpos]
  apply isPeriod_div
  · apply Nat.div_pos _ (Nat.two_pow_pos _)
    cases hi : pwmPrescaler clock frequency with
    | zero => exact hticks
    | succ i =>
      have hbig := hlow i (by omega)
      have hpow : 2 ^ (i + 1) ≤ 65536 * 2 ^ i := by
        rw [Nat.pow_succ]
        omega
      exact hpow.trans hbig
  · rw [Nat.div_lt_iff_lt_mul (Nat.two_pow_pos _)]
    exact hhigh hcode

lemma pwmPrescaler_lt_iff (hpos : 1 ≤ frequency.toNat) :
    pwmPrescaler clock frequency < 7 ↔ clock.toNat / frequency.toNat < 64 * 65536 := by
  obtain ⟨hcode, hlow, hhigh⟩ := pwmPrescaler_spec clock hpos
  constructor
  · intro hlt
    have hpow : 2 ^ pwmPrescaler clock frequency ≤ 2 ^ 6 :=
      Nat.pow_le_pow_right (by decide) (Nat.le_of_lt_succ hlt)
    have hticks := hhigh hlt
    omega
  · intro hticks
    by_contra hlt
    have hbig := hlow 6 (by omega)
    omega

namespace Pwm

lemma timerInit_eq (t : Timer) (s : Pwm) (hpos : 1 ≤ frequency.toNat) :
    s.timerInit clock t frequency = some { s with
      pr := Function.update s.pr t ((pwmStored clock frequency).setWidth 16)
      tCon := Function.update s.tCon t
        (onMask ||| BitVec.ofNat 32 (pwmPrescaler clock frequency) <<< 4) } := by
  have hne : frequency ≠ 0 := by
    rintro rfl
    exact absurd hpos (by decide)
  rw [timerInit, if_pos hne]
  rfl

/-- The frequency is reached exactly when it does not take the last of the codes. -/
theorem timerInit_produces_iff (t : Timer) (s : Pwm) (hpos : 1 ≤ frequency.toNat)
    (hle : frequency.toNat ≤ clock.toNat) :
    (∃ s', s.timerInit clock t frequency = some s' ∧ s'.Produces clock frequency t) ↔
      clock.toNat / frequency.toNat < 64 * 65536 := by
  obtain ⟨hcode, hlow, -⟩ := pwmPrescaler_spec clock hpos
  have hcodes := tckps_eq hcode
  rw [timerInit_eq t s hpos, ← pwmPrescaler_lt_iff hpos]
  constructor
  · rintro ⟨s', hs', hstored, hperiod, -⟩
    cases hs'
    dsimp only at hstored hperiod
    rw [Function.update_self] at hstored
    rw [Function.update_self, Function.update_self, hstored, hcodes, toNat_pwmStored hpos]
      at hperiod
    by_contra hlt
    have hlast : pwmPrescaler clock frequency = 7 := by omega
    have hbig := hlow 6 (by omega)
    have hle := hperiod.le
    rw [hlast] at hle
    change 256 * (clock.toNat / frequency.toNat / 128) ≤ clock.toNat / frequency.toNat at hle
    omega
  · intro hlt
    have hperiod := isPeriod_of_lt hpos hle hlt
    have hwidth : ((pwmStored clock frequency).setWidth 16).toNat =
        (pwmStored clock frequency).toNat := by
      rw [BitVec.toNat_setWidth]
      exact Nat.mod_eq_of_lt hperiod.fits
    refine ⟨_, rfl, ?_, ?_, ?_⟩
    · dsimp only
      rw [Function.update_self, hwidth]
    · dsimp only
      rw [Function.update_self, Function.update_self, hcodes, hwidth, t2Ps_of_lt hlt]
      exact hperiod
    · dsimp only
      rw [Function.update_self, hcodes]
      rintro code hsmaller ⟨n, hn⟩
      rw [t2Ps_of_lt (hsmaller.trans hlt)] at hn
      exact not_isPeriod ((Nat.mul_comm _ _).trans_le (hlow code hsmaller)) hn

theorem timerInit_produces_iff_analogWrite : ∃ s',
    EFM100.pwmReset.timerInit 100000000 2 1000 = some s' ∧ s'.Produces 100000000 1000 2 :=
  (timerInit_produces_iff 2 EFM100.pwmReset (by decide) (by decide)).mpr (by decide)

/-- For 20 Hz at 100 MHz the timer divides by 256 and counts as if it divided by 128. -/
theorem timerInit_20_not_produces : ∃ s',
    EFM100.pwmReset.timerInit 100000000 2 20 = some s' ∧ t2Ps.getD (tckps (s'.tCon 2)) 0 = 256 ∧
      (s'.pr 2).toNat = 100000000 / 20 / 128 ∧ ¬s'.Produces 100000000 20 2 := by
  refine ⟨_, timerInit_eq 2 EFM100.pwmReset (by decide), by decide, by decide, ?_⟩
  intro h
  exact absurd h.period.le (by decide)

end Pwm

end FrameworkXC32
