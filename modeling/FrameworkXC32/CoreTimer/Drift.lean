import FrameworkXC32.CoreTimer.Model
import FrameworkXC32.Lib.Quotients

/-!
# Drift of `millis()`

Every execution of the handler counts the whole milliseconds that have elapsed since the
previous one and restarts the count at the present, so that the rest of the division is lost.
-/

namespace FrameworkXC32
open Machine

/-- The handler executed `latency` ticks after the compare match. -/
def serveLate (fcpu : Word) (s : CoreTimer) (latency : ℕ) : CoreTimer :=
  (coreTimerHandler fcpu (s.compare + BitVec.ofNat 32 latency) s).1

/-- Handler executions since boot, with their latencies. -/
def servedLate (fcpu : Word) (latencies : List ℕ) : CoreTimer :=
  latencies.foldl (serveLate fcpu) (coreTimerAtBoot fcpu)

/-- Ticks between one execution and the next. -/
def tickGaps (fcpu : Word) (latencies : List ℕ) : List ℕ :=
  latencies.map ((coreTimerInterruptTicks fcpu).toNat + ·)

/-- Core-timer ticks since boot after the last execution. -/
def ticksSinceBoot (fcpu : Word) (latencies : List ℕ) : ℕ := (tickGaps fcpu latencies).sum

lemma coreTimerInterruptTicks_pos {fcpu : Word} (h : 2000 ≤ fcpu.toNat) :
    0 < (coreTimerInterruptTicks fcpu).toNat := by
  have htoNat : (coreTimerInterruptTicks fcpu).toNat = fcpu.toNat / 2 / 1000 := by
    simp [coreTimerInterruptTicks, sysCtFreq, sysClkFreq, BitVec.toNat_ushiftRight,
      Nat.shiftRight_eq_div_pow]
  rw [htoNat]
  omega

lemma servedLate_concat (fcpu : Word) (latencies : List ℕ) (latency : ℕ) :
    servedLate fcpu (latencies ++ [latency]) =
      serveLate fcpu (servedLate fcpu latencies) latency := by
  simp [servedLate]

lemma compare_servedLate (fcpu : Word) (latencies : List ℕ) :
    (servedLate fcpu latencies).compare =
      (servedLate fcpu latencies).gOldCoreTime + coreTimerInterruptTicks fcpu := by
  induction latencies using List.reverseRecOn with
  | nil => simp [servedLate, coreTimerAtBoot]
  | append_singleton latencies latency ih =>
    rw [servedLate_concat]
    rfl

lemma gMillis_servedLate {fcpu : Word} {latencies : List ℕ}
    (hfit : ∀ gap ∈ tickGaps fcpu latencies, gap < 2 ^ 32) :
    (servedLate fcpu latencies).gMillis.toNat =
      ((tickGaps fcpu latencies).map (· / (coreTimerInterruptTicks fcpu).toNat)).sum % 2 ^ 32 := by
  induction latencies using List.reverseRecOn with
  | nil => rfl
  | append_singleton latencies latency ih =>
    have hgaps : tickGaps fcpu (latencies ++ [latency]) = tickGaps fcpu latencies ++
        [(coreTimerInterruptTicks fcpu).toNat + latency] := by simp [tickGaps]
    rw [hgaps] at hfit
    have ih := ih (fun gap hgap => hfit gap (by simp [hgap]))
    have hlast := hfit ((coreTimerInterruptTicks fcpu).toNat + latency) (by simp)
    -- the handler sees the whole gap
    have helapsed : ((servedLate fcpu latencies).compare + BitVec.ofNat 32 latency -
        (servedLate fcpu latencies).gOldCoreTime).toNat =
          (coreTimerInterruptTicks fcpu).toNat + latency := by
      rw [compare_servedLate]
      have hcancel : ∀ a b c : Word, a + b + c - a = b + c := by
        intro a b c
        rw [BitVec.add_assoc, BitVec.add_comm, BitVec.add_sub_cancel]
      rw [hcancel, BitVec.toNat_add, BitVec.toNat_ofNat]
      omega
    rw [servedLate_concat, hgaps, List.map_append, List.sum_append]
    unfold serveLate
    rw [gMillis_handler, BitVec.toNat_add, ih, BitVec.toNat_udiv, helapsed]
    simp [Nat.add_mod]

/-- `millis()` counts the elapsed milliseconds after each execution exactly when the parts of a
millisecond by which the executions were late add up to less than one millisecond. -/
theorem millis_no_drift_iff (fcpu : Word) (hfcpu : 2000 ≤ fcpu.toNat) (latencies : List ℕ)
    (hfit : ∀ gap ∈ tickGaps fcpu latencies, gap < 2 ^ 32) :
    (∀ p, p <+: latencies → (millis (servedLate fcpu p)).toNat =
      ticksSinceBoot fcpu p / (coreTimerInterruptTicks fcpu).toNat % 2 ^ 32) ↔
    (latencies.map (· % (coreTimerInterruptTicks fcpu).toNat)).sum <
      (coreTimerInterruptTicks fcpu).toNat := by
  have hpos := coreTimerInterruptTicks_pos hfcpu
  have hrem : (tickGaps fcpu latencies).map (· % (coreTimerInterruptTicks fcpu).toNat) =
      latencies.map (· % (coreTimerInterruptTicks fcpu).toNat) := by
    simp [tickGaps]
  rw [← hrem, ← Quotients.counts_every_prefix_iff hpos (by decide : 1 < 2 ^ 32)]
  have hmillis : ∀ p, p <+: latencies → (millis (servedLate fcpu p)).toNat =
      ((tickGaps fcpu p).map (· / (coreTimerInterruptTicks fcpu).toNat)).sum % 2 ^ 32 := by
    intro p hp
    apply gMillis_servedLate
    intro gap hgap
    exact hfit gap ((hp.map _).subset hgap)
  constructor
  · intro h g hg
    obtain ⟨p, hp, rfl⟩ := List.prefix_map_iff.mp hg
    exact (hmillis p hp).symm.trans (h p hp)
  · intro h p hp
    exact (hmillis p hp).trans (h _ (hp.map _))

theorem millis_no_drift_200MHz :
    (millis (servedLate 200000000 [0, 7, 30000])).toNat =
      ticksSinceBoot 200000000 [0, 7, 30000] / (coreTimerInterruptTicks 200000000).toNat % 2 ^ 32 :=
  (millis_no_drift_iff 200000000 (by decide) [0, 7, 30000] (by decide)).mpr (by decide) _
    List.prefix_rfl

/-- Two executions, each half a millisecond late at 200 MHz: three milliseconds have passed and two
are counted. -/
theorem millis_drifts_200MHz :
    ¬ ∀ (fcpu : Word), 2000 ≤ fcpu.toNat → ∀ latencies : List ℕ,
      (∀ gap ∈ tickGaps fcpu latencies, gap < 2 ^ 32) →
      ∀ p, p <+: latencies → (millis (servedLate fcpu p)).toNat =
        ticksSinceBoot fcpu p / (coreTimerInterruptTicks fcpu).toNat % 2 ^ 32 := by
  intro h
  have hlate := h 200000000 (by decide) [50000, 50000] (by decide) _ List.prefix_rfl
  exact absurd hlate (by decide)

end FrameworkXC32
