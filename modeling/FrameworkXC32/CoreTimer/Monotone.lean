import FrameworkXC32.CoreTimer.Model
import FrameworkXC32.Lib.Quotients
import FrameworkXC32.Lib.Runs
import Mathlib.Tactic.Ring

/-!
# Monotonicity of `micros()`

Runs of core-timer ticks and handler executions. `micros()` rounds the ticks since the last
execution to microseconds, and an execution replaces the whole milliseconds among them by a
millisecond count; it is a step backwards when the ticks it drops round to a microsecond.
-/

namespace FrameworkXC32
open Machine

/-- The timer with ghost counters that do not wrap: ticks since boot, ticks at the last execution
of the handler, and milliseconds counted. -/
structure CoreRun where
  timer : CoreTimer
  count : ℕ
  served : ℕ
  counted : ℕ

inductive CoreOp
  | tick (n : ℕ)
  | interrupt
deriving DecidableEq, Repr

/-- One step. The interrupt is served after the compare match, which comes one period after the
last execution, and within `2 ^ 31` ticks of it. -/
def coreStep (fcpu : Word) (r : CoreRun) : CoreOp → Option CoreRun
  | .tick n =>
    if r.count + n - r.served < (coreTimerInterruptTicks fcpu).toNat + 2 ^ 31 then
      some { r with count := r.count + n }
    else none
  | .interrupt =>
    if (coreTimerInterruptTicks fcpu).toNat ≤ r.count - r.served then
      some {
        timer := (coreTimerHandler fcpu (BitVec.ofNat 32 r.count) r.timer).1
        count := r.count
        served := r.count
        counted := r.counted + (r.count - r.served) / (coreTimerInterruptTicks fcpu).toNat }
    else none

def coreRunAtBoot (fcpu : Word) : CoreRun where
  timer := coreTimerAtBoot fcpu
  count := 0
  served := 0
  counted := 0

/-- The value that a call of `micros()` returns in a state of a run. -/
def CoreRun.micros (fcpu : Word) (r : CoreRun) : Word :=
  FrameworkXC32.micros fcpu (BitVec.ofNat 32 r.count) r.timer

/-- The ticks that an execution drops now round to no microsecond. -/
def DropsNothing (fcpu : Word) (r : CoreRun) : CoreOp → Prop
  | .tick _ => True
  | .interrupt => (r.count - r.served) % (coreTimerInterruptTicks fcpu).toNat +
      (coreTimerTicksPerMicrosecond fcpu).toNat / 2 < (coreTimerTicksPerMicrosecond fcpu).toNat

instance (fcpu : Word) (r : CoreRun) (op : CoreOp) : Decidable (DropsNothing fcpu r op) := by
  unfold DropsNothing
  split <;> infer_instance

/-- `F_CPU` is a positive multiple of 2 MHz: a microsecond is `perMicro` ticks, a millisecond a
thousand times as many. -/
structure WholeMHz (fcpu : Word) (perMicro : ℕ) : Prop where
  pos : 0 < perMicro
  fcpu_eq : fcpu.toNat = 2000000 * perMicro

namespace WholeMHz

variable {fcpu : Word} {perMicro : ℕ} (h : WholeMHz fcpu perMicro)
include h

lemma perMicro_le : perMicro ≤ 2147 := by
  have hlt := fcpu.isLt
  rw [h.fcpu_eq] at hlt
  omega

lemma ctFreq : (sysCtFreq fcpu).toNat = 1000000 * perMicro := by
  simp only [sysCtFreq, sysClkFreq, BitVec.toNat_ushiftRight, Nat.shiftRight_eq_div_pow]
  rw [h.fcpu_eq]
  omega

lemma ticks_eq : (coreTimerInterruptTicks fcpu).toNat = 1000 * perMicro := by
  unfold coreTimerInterruptTicks
  rw [BitVec.toNat_udiv, h.ctFreq]
  simp
  omega

lemma perMicro_eq : (coreTimerTicksPerMicrosecond fcpu).toNat = perMicro := by
  unfold coreTimerTicksPerMicrosecond
  rw [BitVec.toNat_udiv, h.ctFreq]
  simp

/-- Ticks rounded to microseconds: the whole milliseconds, and the rest rounded. -/
lemma round_elapsed (elapsed : ℕ) : (elapsed + perMicro / 2) / perMicro =
    1000 * (elapsed / (1000 * perMicro)) +
      (elapsed % (1000 * perMicro) + perMicro / 2) / perMicro := by
  have hdivmod := Nat.div_add_mod elapsed (1000 * perMicro)
  have hsplit : elapsed + perMicro / 2 = perMicro * (1000 * (elapsed / (1000 * perMicro))) +
      (elapsed % (1000 * perMicro) + perMicro / 2) := by
    rw [← Nat.mul_assoc, Nat.mul_comm perMicro 1000]
    omega
  rw [hsplit, Nat.mul_add_div h.pos]

end WholeMHz

/-- What holds in every state of a run: the registers hold the ghost counters modulo `2 ^ 32`. -/
structure Tracks (fcpu : Word) (r : CoreRun) : Prop where
  gMillis : r.timer.gMillis = BitVec.ofNat 32 r.counted
  gOldCoreTime : r.timer.gOldCoreTime = BitVec.ofNat 32 r.served
  served_le : r.served ≤ r.count
  recent : r.count - r.served < (coreTimerInterruptTicks fcpu).toNat + 2 ^ 31

/-- Ticks accounted for: those in counted milliseconds and those since the last execution. -/
def CoreRun.accounted (perMicro : ℕ) (r : CoreRun) : ℕ :=
  1000 * perMicro * r.counted + (r.count - r.served)

/-- The microseconds that `micros()` returns modulo `2 ^ 32`. -/
def CoreRun.microseconds (perMicro : ℕ) (r : CoreRun) : ℕ :=
  (r.accounted perMicro + perMicro / 2) / perMicro

/-- `x` comes later in a run than `r` and `micros()` has not gone back in between. -/
structure Follows (fcpu : Word) (perMicro : ℕ) (r x : CoreRun) : Prop where
  tracks : Tracks fcpu x
  count : r.count ≤ x.count
  accounted : x.accounted perMicro + r.count ≤ r.accounted perMicro + x.count
  microseconds : r.microseconds perMicro ≤ x.microseconds perMicro

section Steps

variable {fcpu : Word} {perMicro : ℕ} (h : WholeMHz fcpu perMicro)
include h

lemma microseconds_eq (r : CoreRun) : r.microseconds perMicro =
    1000 * r.counted + (r.count - r.served + perMicro / 2) / perMicro := by
  unfold CoreRun.microseconds CoreRun.accounted
  have hsplit : 1000 * perMicro * r.counted + (r.count - r.served) + perMicro / 2 =
      perMicro * (1000 * r.counted) + (r.count - r.served + perMicro / 2) := by ring
  rw [hsplit, Nat.mul_add_div h.pos]

lemma Tracks.micros_eq {r : CoreRun} (ht : Tracks fcpu r) :
    (r.micros fcpu).toNat = r.microseconds perMicro % 2 ^ 32 := by
  have hperMicro := h.perMicro_le
  have hserved := ht.served_le
  have hrecent := ht.recent
  rw [h.ticks_eq] at hrecent
  have hsince : (BitVec.ofNat 32 r.count - BitVec.ofNat 32 r.served).toNat = r.count - r.served := by
    rw [BitVec.toNat_sub, BitVec.toNat_ofNat, BitVec.toNat_ofNat]
    omega
  have hhalf : (coreTimerTicksPerMicrosecond fcpu / 2).toNat = perMicro / 2 := by
    rw [BitVec.toNat_udiv, h.perMicro_eq]
    rfl
  have hround : (BitVec.ofNat 32 r.count - BitVec.ofNat 32 r.served +
      coreTimerTicksPerMicrosecond fcpu / 2).toNat = r.count - r.served + perMicro / 2 := by
    rw [BitVec.toNat_add, hsince, hhalf]
    omega
  unfold CoreRun.micros micros millis
  rw [ht.gMillis, ht.gOldCoreTime]
  dsimp only
  rw [BitVec.toNat_add, BitVec.toNat_mul, BitVec.toNat_udiv, hround, h.perMicro_eq,
    microseconds_eq h, BitVec.toNat_ofNat]
  simp [Nat.add_mod, Nat.mul_mod, Nat.mul_comm]

omit h in
lemma tracks_boot : Tracks fcpu (coreRunAtBoot fcpu) := by
  refine ⟨rfl, rfl, Nat.le_refl _, ?_⟩
  simp [coreRunAtBoot]

lemma Tracks.step {r r' : CoreRun} {op : CoreOp} (ht : Tracks fcpu r)
    (hs : coreStep fcpu r op = some r') : Tracks fcpu r' := by
  have hserved := ht.served_le
  cases op with
  | tick n =>
    simp only [coreStep] at hs
    split at hs
    · rename_i hrecent
      cases hs
      refine ⟨ht.gMillis, ht.gOldCoreTime, ?_, hrecent⟩
      dsimp only
      omega
    · cases hs
  | interrupt =>
    simp only [coreStep] at hs
    split at hs
    · cases hs
      refine ⟨?_, rfl, Nat.le_refl _, ?_⟩
      · have hticks := h.ticks_eq
        have hperMicro := h.perMicro_le
        have hrecent := ht.recent
        have hsince : (BitVec.ofNat 32 r.count - BitVec.ofNat 32 r.served).toNat =
            r.count - r.served := by
          rw [BitVec.toNat_sub, BitVec.toNat_ofNat, BitVec.toNat_ofNat]
          omega
        apply BitVec.eq_of_toNat_eq
        rw [gMillis_handler, ht.gMillis, ht.gOldCoreTime, BitVec.toNat_add, BitVec.toNat_udiv,
          hsince, BitVec.toNat_ofNat, BitVec.toNat_ofNat]
        simp
      · dsimp only
        omega
    · cases hs

/-- A step takes no microsecond back when the handler drops nothing. -/
lemma Follows.step {r r' : CoreRun} {op : CoreOp} (ht : Tracks fcpu r)
    (hs : coreStep fcpu r op = some r') (hd : DropsNothing fcpu r op) :
    Follows fcpu perMicro r r' := by
  have hserved := ht.served_le
  cases op with
  | tick n =>
    have ht' := ht.step h hs
    simp only [coreStep] at hs
    split at hs
    · cases hs
      refine ⟨ht', Nat.le_add_right _ _, ?_, ?_⟩
      · unfold CoreRun.accounted
        dsimp only
        omega
      · unfold CoreRun.microseconds CoreRun.accounted
        apply Nat.div_le_div_right
        dsimp only
        omega
    · cases hs
  | interrupt =>
    have ht' := ht.step h hs
    simp only [coreStep] at hs
    split at hs
    · cases hs
      simp only [DropsNothing, h.ticks_eq, h.perMicro_eq] at hd
      have hdivmod := Nat.div_add_mod (r.count - r.served) (1000 * perMicro)
      refine ⟨ht', Nat.le_refl _, ?_, ?_⟩
      · unfold CoreRun.accounted
        dsimp only
        rw [h.ticks_eq, Nat.mul_add]
        omega
      · rw [microseconds_eq h, microseconds_eq h]
        dsimp only
        rw [h.ticks_eq]
        have hround := h.round_elapsed (r.count - r.served)
        rw [Nat.div_eq_of_lt hd, Nat.add_zero] at hround
        rw [hround]
        have hnonneg := Nat.zero_le ((r.count - r.count + perMicro / 2) / perMicro)
        omega
    · cases hs

omit h in
lemma Follows.trans {r r' r'' : CoreRun} (h1 : Follows fcpu perMicro r r')
    (h2 : Follows fcpu perMicro r' r'') : Follows fcpu perMicro r r'' := by
  have hcount := h1.count
  have hcount' := h2.count
  have hacc := h1.accounted
  have hacc' := h2.accounted
  exact ⟨h2.tracks, by omega, by omega, h1.microseconds.trans h2.microseconds⟩

lemma Follows.run {r r' : CoreRun} {ops : List CoreOp} (ht : Tracks fcpu r)
    (hg : Runs.Guarded (coreStep fcpu) (DropsNothing fcpu) r ops)
    (hr : Runs.run (coreStep fcpu) r ops = some r') : Follows fcpu perMicro r r' := by
  have hrefl : Follows fcpu perMicro r r :=
    ⟨ht, Nat.le_refl _, Nat.le_refl _, Nat.le_refl _⟩
  apply Runs.run_invariant ?_ hrefl hg hr
  intro x op y hx hd hs
  exact hx.trans (Follows.step h hx.tracks hs hd)

lemma toNat_micros_sub {a b : CoreRun} (ha : Tracks fcpu a) (hab : Follows fcpu perMicro a b) :
    (b.micros fcpu - a.micros fcpu).toNat =
      (b.microseconds perMicro - a.microseconds perMicro) % 2 ^ 32 := by
  have hmono := hab.microseconds
  rw [BitVec.toNat_sub, ha.micros_eq h, hab.tracks.micros_eq h]
  omega

end Steps

/-- `a` is a state of the run and `b` the same one or a later one. -/
def InOrder (fcpu : Word) (ops : List CoreOp) (a b : CoreRun) : Prop :=
  ∃ p q, p ++ q <+: ops ∧ Runs.run (coreStep fcpu) (coreRunAtBoot fcpu) p = some a ∧
    Runs.run (coreStep fcpu) a q = some b

/-- What the callers of `micros()` rely on: within `2 ^ 31` microseconds of core time a read is
not behind an earlier one, and a delay loop that ends has lasted. -/
structure MicrosInOrder (fcpu : Word) (perMicro : ℕ) (ops : List CoreOp) : Prop where
  never_back : ∀ a b, InOrder fcpu ops a b → b.count - a.count < 2 ^ 31 * perMicro →
    (b.micros fcpu - a.micros fcpu).toNat < 2 ^ 31
  never_early : ∀ a b, InOrder fcpu ops a b → ∀ (us : Word) (polls : List Word),
    delayMicroseconds us (a.micros fcpu) (polls ++ [b.micros fcpu]) = some polls.length →
    (us.toNat - 1) * perMicro ≤ b.count - a.count

/-- The ticks accounted for between two reads, with those by which the first one is rounded down,
are less than `2 ^ 31` microseconds. -/
def RoundsBelow (perMicro : ℕ) (a b : CoreRun) : Prop :=
  (a.accounted perMicro + perMicro / 2) % perMicro + (b.accounted perMicro - a.accounted perMicro) <
    2 ^ 31 * perMicro

section Ordered

variable {fcpu : Word} {perMicro : ℕ} (h : WholeMHz fcpu perMicro)
include h

lemma roundsBelow_iff (a b : CoreRun) : RoundsBelow perMicro a b ↔
    b.microseconds perMicro - a.microseconds perMicro < 2 ^ 31 := by
  unfold RoundsBelow CoreRun.microseconds
  rw [Quotients.div_sub_div_lt_iff h.pos (by decide), Nat.add_sub_add_right]

lemma InOrder.follows {ops : List CoreOp} {a b : CoreRun} (hab : InOrder fcpu ops a b)
    (hg : Runs.Guarded (coreStep fcpu) (DropsNothing fcpu) (coreRunAtBoot fcpu) ops) :
    Tracks fcpu a ∧ Follows fcpu perMicro a b := by
  obtain ⟨p, q, ⟨rest, rfl⟩, hp, hq⟩ := hab
  rw [List.append_assoc] at hg
  have hboot : Follows fcpu perMicro (coreRunAtBoot fcpu) a :=
    Follows.run h tracks_boot hg.append_left hp
  exact ⟨hboot.tracks, Follows.run h hboot.tracks (hg.append_right hp).append_left hq⟩

lemma ticks_between {a b : CoreRun} (hab : Follows fcpu perMicro a b) {us : ℕ}
    (hus : us ≤ b.microseconds perMicro - a.microseconds perMicro) :
    (us - 1) * perMicro ≤ b.count - a.count := by
  have hcount := hab.count
  have hacc := hab.accounted
  rcases Nat.eq_zero_or_pos us with rfl | hpos
  · simp
  have hgap : ¬ b.microseconds perMicro - a.microseconds perMicro < us := by omega
  unfold CoreRun.microseconds at hgap
  rw [Quotients.div_sub_div_lt_iff h.pos hpos] at hgap
  have hmod := Nat.mod_lt (a.accounted perMicro + perMicro / 2) h.pos
  rw [Nat.sub_mul]
  omega

lemma dropsNothing_of_never_back {a b : CoreRun} (ha : Tracks fcpu a)
    (hs : coreStep fcpu a .interrupt = some b)
    (hback : (b.micros fcpu - a.micros fcpu).toNat < 2 ^ 31) :
    DropsNothing fcpu a .interrupt := by
  have hb := ha.step h hs
  rw [BitVec.toNat_sub, ha.micros_eq h, hb.micros_eq h, microseconds_eq h, microseconds_eq h,
    h.round_elapsed] at hback
  simp only [coreStep] at hs
  split at hs
  · cases hs
    simp only [DropsNothing, h.ticks_eq, h.perMicro_eq]
    simp only [h.ticks_eq, Nat.sub_self, Nat.zero_add] at hback
    by_contra hdrop
    have hpos := h.pos
    have hmod : (a.count - a.served) % (1000 * perMicro) < 1000 * perMicro :=
      Nat.mod_lt _ (by omega)
    have hone : 1 ≤ ((a.count - a.served) % (1000 * perMicro) + perMicro / 2) / perMicro := by
      rw [Nat.le_div_iff_mul_le hpos]
      omega
    have hmost : ((a.count - a.served) % (1000 * perMicro) + perMicro / 2) / perMicro < 1001 := by
      rw [Nat.div_lt_iff_lt_mul hpos]
      omega
    have hzero : perMicro / 2 / perMicro = 0 := Nat.div_eq_of_lt (by omega)
    rw [hzero] at hback
    omega
  · cases hs

/-- Only the last microsecond before `2 ^ 31` can be rounded up to it. -/
lemma roundsBelow_of_gap {a b : CoreRun} (hab : Follows fcpu perMicro a b)
    (hgap : b.count - a.count + perMicro ≤ 2 ^ 31 * perMicro) : RoundsBelow perMicro a b := by
  have hcount := hab.count
  have hacc := hab.accounted
  have hmod := Nat.mod_lt (a.accounted perMicro + perMicro / 2) h.pos
  unfold RoundsBelow
  omega

omit h in
lemma count_le_of_step {r r' : CoreRun} {op : CoreOp} (hs : coreStep fcpu r op = some r') :
    r.count ≤ r'.count := by
  cases op <;> simp only [coreStep] at hs <;> split at hs <;> cases hs
  · exact Nat.le_add_right _ _
  · exact Nat.le_refl _

omit h in
lemma InOrder.gap_le {ops : List CoreOp} {a b last : CoreRun} (hab : InOrder fcpu ops a b)
    (hrun : Runs.run (coreStep fcpu) (coreRunAtBoot fcpu) ops = some last) :
    b.count - a.count ≤ last.count := by
  obtain ⟨p, q, ⟨rest, rfl⟩, hp, hq⟩ := hab
  have hpq : Runs.run (coreStep fcpu) (coreRunAtBoot fcpu) (p ++ q) = some b :=
    (Runs.run_append_some _).mpr ⟨a, hp, hq⟩
  obtain ⟨b', hb', hrest⟩ := (Runs.run_append_some _).mp hrun
  obtain rfl : b = b' := Option.some.inj (hpq.symm.trans hb')
  have hle : b.count ≤ last.count := by
    have hkeep : ∀ r op r', b.count ≤ r.count → coreStep fcpu r op = some r' →
        b.count ≤ r'.count := fun r op r' hr hs => Nat.le_trans hr (count_le_of_step hs)
    exact Runs.run_invariant_all hkeep (Nat.le_refl _) hrest
  omega

/-- `micros()` keeps the order of its calls in a run, and `delayMicroseconds` lasts, exactly when
no handler execution drops ticks that round to a microsecond and no two reads in the last
microsecond before `2 ^ 31` are rounded up to that distance. -/
theorem micros_in_order_iff {ops : List CoreOp} {last : CoreRun}
    (hrun : Runs.run (coreStep fcpu) (coreRunAtBoot fcpu) ops = some last) :
    MicrosInOrder fcpu perMicro ops ↔
      Runs.Guarded (coreStep fcpu) (DropsNothing fcpu) (coreRunAtBoot fcpu) ops ∧
      ∀ a b, InOrder fcpu ops a b → b.count - a.count < 2 ^ 31 * perMicro →
        2 ^ 31 * perMicro < b.count - a.count + perMicro → RoundsBelow perMicro a b := by
  constructor
  · intro hio
    have hg : Runs.Guarded (coreStep fcpu) (DropsNothing fcpu) (coreRunAtBoot fcpu) ops := by
      apply Runs.guarded_of_reached
      intro p op q a hops hp
      cases op with
      | tick n => trivial
      | interrupt =>
        rw [hops, Runs.run_append_some] at hrun
        obtain ⟨a', hp', hq⟩ := hrun
        obtain rfl : a = a' := Option.some.inj (hp.symm.trans hp')
        obtain ⟨b, hs, -⟩ := (Runs.run_cons_some _).mp hq
        have ha : Tracks fcpu a :=
          Runs.run_invariant_all (fun _ _ _ ht hs => ht.step h hs) tracks_boot hp
        apply dropsNothing_of_never_back h ha hs
        apply hio.never_back
        · refine ⟨p, [.interrupt], ⟨q, by simp [hops]⟩, hp, ?_⟩
          rw [Runs.run_cons_some]
          exact ⟨b, hs, rfl⟩
        · have hcount : b.count = a.count := by
            simp only [coreStep] at hs
            split at hs
            · cases hs
              rfl
            · cases hs
          have hpos := h.pos
          omega
    refine ⟨hg, ?_⟩
    intro a b hab hgap _
    obtain ⟨ha, hf⟩ := hab.follows h hg
    have hlt := hio.never_back a b hab hgap
    rw [toNat_micros_sub h ha hf] at hlt
    rw [roundsBelow_iff h]
    -- the reads are too close for the difference to have wrapped
    have hspan := ticks_between h hf (Nat.le_refl _)
    have hbelow := Nat.lt_of_mul_lt_mul_right (lt_of_le_of_lt hspan hgap)
    omega
  · intro ⟨hg, hround⟩
    constructor
    · intro a b hab hgap
      obtain ⟨ha, hf⟩ := hab.follows h hg
      have hbelow : RoundsBelow perMicro a b := by
        rcases Nat.lt_or_ge (2 ^ 31 * perMicro) (b.count - a.count + perMicro) with hlast | hle
        · exact hround a b hab hgap hlast
        · exact roundsBelow_of_gap h hf hle
      have hlt := (roundsBelow_iff h a b).mp hbelow
      rw [toNat_micros_sub h ha hf]
      omega
    · intro a b hab us polls hdelay
      obtain ⟨ha, hf⟩ := hab.follows h hg
      have hnot := delayLoop_some hdelay
      rw [BitVec.lt_def, toNat_micros_sub h ha hf] at hnot
      have hmod := Nat.mod_le (b.microseconds perMicro - a.microseconds perMicro) (2 ^ 32)
      exact ticks_between h hf (by omega)

end Ordered

/-- At 8 MHz an interrupt served one tick late drops a quarter of a microsecond. -/
theorem micros_in_order_8MHz : MicrosInOrder 8000000 4 [.tick 4001, .interrupt] := by
  have hclock : WholeMHz 8000000 4 := ⟨by decide, rfl⟩
  have hsome : (Runs.run (coreStep 8000000) (coreRunAtBoot 8000000)
    [.tick 4001, .interrupt]).map (·.count) = some 4001 := by decide
  obtain ⟨last, hlast, hcount⟩ := Option.map_eq_some_iff.mp hsome
  apply (micros_in_order_iff hclock hlast).mpr
  constructor
  · decide
  · intro a b hab hgap hend
    have hle := hab.gap_le hlast
    omega

/-- At 2 MHz half a millisecond of latency: `micros()` reads 1500 before the handler and 1000
after it. -/
theorem micros_goes_back_2MHz :
    ¬ ∀ (fcpu : Word) (perMicro : ℕ), WholeMHz fcpu perMicro →
      ∀ (ops : List CoreOp) (last : CoreRun),
        Runs.run (coreStep fcpu) (coreRunAtBoot fcpu) ops = some last →
        MicrosInOrder fcpu perMicro ops := by
  intro hall
  have hclock : WholeMHz 2000000 1 := ⟨by decide, rfl⟩
  have hbefore : (Runs.run (coreStep 2000000) (coreRunAtBoot 2000000) [.tick 1500]).map
    (fun r => (r.micros 2000000, r.count)) = some (1500, 1500) := by decide
  have hafter : (Runs.run (coreStep 2000000) (coreRunAtBoot 2000000)
    ([.tick 1500] ++ [.interrupt])).map (fun r => (r.micros 2000000, r.count)) =
      some (1000, 1500) := by decide
  obtain ⟨a, ha, hreada⟩ := Option.map_eq_some_iff.mp hbefore
  obtain ⟨b, hb, hreadb⟩ := Option.map_eq_some_iff.mp hafter
  obtain ⟨a', ha', hab⟩ := (Runs.run_append_some _).mp hb
  obtain rfl : a = a' := Option.some.inj (ha.symm.trans ha')
  obtain ⟨hmicrosa, hcounta⟩ := Prod.mk.inj hreada
  obtain ⟨hmicrosb, hcountb⟩ := Prod.mk.inj hreadb
  have hio := hall 2000000 1 hclock _ b hb
  have hlt := hio.never_back a b ⟨_, _, List.prefix_rfl, ha, hab⟩ (by omega)
  rw [hmicrosa, hmicrosb] at hlt
  exact absurd hlt (by decide)

end FrameworkXC32
