import FrameworkXC32.Spi.Model
import FrameworkXC32.Lib.Quotients
import Mathlib.Algebra.Order.Field.Rat
import Mathlib.Tactic.Positivity
import Mathlib.Tactic.Ring

/-!
# Configuration of the SPI port

Clock, width and polarity after any history of calls. The abstract configuration is a function
of the calls alone: what was asked for last, and which of it the registers were given.
-/

namespace FrameworkXC32
open Machine

/-- What the setters read and write, of the object and of its registers. -/
@[ext] structure SpiConfig where
  brgHz : Word
  bitSize : Word
  brg : Word
  ckp : Bool
  mode16 : Bool
  mode32 : Bool
deriving DecidableEq, Repr

namespace Spi

def config (s : Spi) : SpiConfig where
  brgHz := s.brgHz
  bitSize := s.bitSize
  brg := s.brg
  ckp := s.con.getLsbD 6
  mode16 := s.con.getLsbD 10
  mode32 := s.con.getLsbD 11

/-- The clock polarity, CKP in SPIxCON. -/
def polarity (s : Spi) : Bool := s.config.ckp

/-- The data width of SPIxCON: 8 bits unless MODE16 or MODE32 is set. -/
def dataWidth (s : Spi) : ℕ :=
  if s.config.mode32 then 32 else if s.config.mode16 then 16 else 8

/-- BRG fits its 13 bits, and the clock of the port does not exceed `clock`. -/
structure ClockWithin (fcpu clock : Word) (s : Spi) : Prop where
  fits : s.config.brg.toNat < 2 ^ 13
  clock_le : ((sysClkBusPeripheral1 fcpu).toNat : ℚ) / (2 * (s.config.brg.toNat + 1)) ≤ clock.toNat

lemma config_writeCon (s : Spi) (bit : Bool) (mask : Word) (h6 : mask.getLsbD 6 = false)
    (h10 : mask.getLsbD 10 = false) (h11 : mask.getLsbD 11 = false) :
    (s.writeCon bit mask).config = s.config := by
  have hbit : ∀ i, mask.getLsbD i = false →
      (s.writeCon bit mask).con.getLsbD i = s.con.getLsbD i := by
    intro i hi
    cases bit
    · change (regClr s.con mask).getLsbD i = s.con.getLsbD i
      rw [getLsbD_regClr, hi, Bool.not_false, Bool.and_true]
    · change (regSet s.con mask).getLsbD i = s.con.getLsbD i
      rw [getLsbD_regSet, hi, Bool.or_false]
  unfold config
  rw [hbit 6 h6, hbit 10 h10, hbit 11 h11]
  rfl

variable {fcpu : Word} {u : SpiContext}

lemma config_setPins {miso mosi cs : ℤ} {s t : Spi} (h : s.setPins u miso mosi cs = some t) :
    t.config = s.config := by
  simp only [setPins, Option.bind_eq_bind, Option.bind_eq_some_iff, Option.some.injEq] at h
  obtain ⟨cpu, -, rfl⟩ := h
  have hmssen : ∀ (bit : Bool) (s : Spi), (s.writeCon bit spiMssen).config = s.config := by
    intro bit s
    exact config_writeCon s bit spiMssen (by decide) (by decide) (by decide)
  rw [← hmssen false s]
  split
  · exact hmssen true (s.writeCon false spiMssen)
  · rfl

lemma config_end (s : Spi) : s.«end».config =
    { s.config with ckp := false, mode16 := false, mode32 := false } := by
  simp [«end», config]

lemma config_setFrequency {hz : Word} {s t : Spi} (h : s.setFrequency fcpu hz = some t) :
    t.config = if s.config.brgHz = hz then s.config else
      { s.config with brgHz := hz, brg := ((sysClkBusPeripheral1 fcpu / hz) >>> 1) - 1 } := by
  unfold setFrequency at h
  by_cases hhz : s.brgHz = hz
  · rw [if_neg (not_not_intro hhz)] at h
    cases h
    rw [if_pos (show s.config.brgHz = hz from hhz)]
  · rw [if_pos hhz, if_neg (show ¬s.config.brgHz = hz from hhz)] at *
    split at h
    · cases h
    · cases h
      rfl

/-- The test compares the parameter with itself, so that no mode is ever written. -/
lemma setDataMode_eq (mode : Byte) (s : Spi) : s.setDataMode mode = s := by
  simp [setDataMode]

lemma config_setBitOrder (order : Byte) (s : Spi) : (s.setBitOrder order).config = s.config := by
  unfold setBitOrder
  split <;> rfl

lemma config_setBitSize (size : Byte) (s : Spi) : (s.setBitSize size).config =
    if s.config.bitSize = size.setWidth 32 then s.config else
      { s.config with
        bitSize := size.setWidth 32
        mode16 := decide (size = 16)
        mode32 := decide (size = 32) } := by
  unfold setBitSize
  by_cases hsize : s.bitSize = size.setWidth 32
  · rw [if_neg (not_not_intro hsize), if_pos (show s.config.bitSize = _ from hsize)]
  · rw [if_pos hsize, if_neg (show ¬s.config.bitSize = _ from hsize)]
    by_cases h16 : size = 16
    · subst h16
      simp [config, spiWidth, spiMode16]
    · by_cases h32 : size = 32
      · subst h32
        simp [config, spiWidth, spiMode32]
      · simp only [if_neg h16, if_neg h32, decide_eq_false h16, decide_eq_false h32]
        simp [config, spiWidth]

/-- The bulk paths put SPIxCON back. -/
lemma config_bulk (data : List Word) (s : Spi) : (s.bulk data).config = s.config := rfl

lemma config_beginTransaction {settings : SPISettings} {s t : Spi}
    (h : s.beginTransaction fcpu settings = some t) :
    ∃ s₁ : Spi, s.setFrequency fcpu settings.clock = some s₁ ∧ t.config = s₁.config := by
  simp only [beginTransaction, Option.bind_eq_bind, Option.bind_eq_some_iff,
    Option.some.injEq] at h
  obtain ⟨s₁, hs₁, rfl⟩ := h
  refine ⟨s₁, hs₁, ?_⟩
  rw [config_setBitOrder, setDataMode_eq]

lemma config_begin {miso mosi cs : ℤ} {s t : Spi} (h : s.begin fcpu u miso mosi cs = some t) :
    ∃ s₁ s₂ : Spi, s₁.config = s.«end».config ∧
      s₁.setFrequency fcpu defaultSettings.clock = some s₂ ∧ t.config = s₂.config := by
  simp only [begin, Option.bind_eq_bind, Option.bind_eq_some_iff, Option.some.injEq] at h
  obtain ⟨s₁, hs₁, s₂, hs₂, rfl⟩ := h
  obtain ⟨s₃, hs₃, hconfig⟩ := config_beginTransaction hs₂
  refine ⟨s₁, s₃, config_setPins hs₁, hs₃, ?_⟩
  rw [← hconfig]
  exact config_writeCon s₂ true spiOnMsten (by decide) (by decide) (by decide)

end Spi

/-- What a history of calls has asked for. -/
structure Asked where
  /-- The frequency asked for last. -/
  hz : Word
  /-- The divider of a `setClockDivider` since another frequency was asked for. -/
  div : Option Word
  /-- The size asked for last. -/
  size : Byte
  /-- The port was switched off since another size was asked for. -/
  cleared : Bool
deriving DecidableEq, Repr

namespace Asked

/-- Nothing is asked of a new object; it takes its frequency for `2 ^ 32 - 1`, its divider is the
reset value of BRG. -/
def initial : Asked := ⟨-1, some 0, 8, false⟩

def ask (hz : Word) (a : Asked) : Asked :=
  if a.hz = hz then a else { a with hz := hz, div := none }

def call (a : Asked) : SpiCall → Asked
  | .begin _ _ _ => ({ a with cleared := true } : Asked).ask Spi.defaultSettings.clock
  | .end => { a with cleared := true }
  | .setFrequency hz => a.ask hz
  | .setClockDivider div => { a with div := some div }
  | .setBitSize size => if a.size = size then a else { a with size := size, cleared := false }
  | .beginTransaction settings => a.ask settings.clock
  | .setDataMode _ | .setBitOrder _ | .fillColor _ _ | .drawImage _ => a

/-- The configuration that the history leaves. -/
def config (fcpu : Word) (a : Asked) : SpiConfig where
  brgHz := a.hz
  bitSize := a.size.setWidth 32
  brg := a.div.getD (((sysClkBusPeripheral1 fcpu / a.hz) >>> 1) - 1)
  ckp := false
  mode16 := !a.cleared && decide (a.size = 16)
  mode32 := !a.cleared && decide (a.size = 32)

/-- `clock` is reached by the divider that was set behind `setFrequency(clock)`, or, where none
was, it divides half the peripheral clock with a quotient of at most `2 ^ 13`. -/
def Reaches (fcpu clock : Word) (a : Asked) : Prop :=
  match (a.ask clock).div with
  | some div => div.toNat < 2 ^ 13 ∧
      (sysClkBusPeripheral1 fcpu).toNat ≤ 2 * clock.toNat * (div.toNat + 1)
  | none => 2 * clock.toNat ∣ (sysClkBusPeripheral1 fcpu).toNat ∧
      0 < (sysClkBusPeripheral1 fcpu).toNat ∧
      (sysClkBusPeripheral1 fcpu).toNat ≤ 2 * clock.toNat * 2 ^ 13

/-- A width of `size` bits gets written: it is the reset value, another size was set, or the port
was not switched off since this one was. -/
def WidthHolds (size : Byte) (a : Asked) : Prop := size = 8 ∨ a.size ≠ size ∨ a.cleared = false

variable {fcpu : Word} {u : SpiContext}

lemma config_ask (hz : Word) (a : Asked) : (a.ask hz).config fcpu =
    if a.hz = hz then a.config fcpu else
      { a.config fcpu with brgHz := hz, brg := ((sysClkBusPeripheral1 fcpu / hz) >>> 1) - 1 } := by
  unfold ask
  split <;> rfl

lemma setFrequency_config {hz : Word} {a : Asked} {s t : Spi} (hs : s.config = a.config fcpu)
    (h : s.setFrequency fcpu hz = some t) : t.config = (a.ask hz).config fcpu := by
  rw [Spi.config_setFrequency h, config_ask, hs]
  rfl

lemma setBitSize_config (size : Byte) {a : Asked} {s : Spi} (hs : s.config = a.config fcpu) :
    (s.setBitSize size).config = (a.call (.setBitSize size)).config fcpu := by
  have hcached : (a.config fcpu).bitSize = size.setWidth 32 ↔ a.size = size := by
    constructor
    · intro h
      apply BitVec.eq_of_toNat_eq
      have hnat := congrArg BitVec.toNat h
      simp only [config, BitVec.toNat_setWidth] at hnat
      omega
    · intro h
      rw [← h]
      rfl
  rw [Spi.config_setBitSize, hs]
  change _ = (if a.size = size then a else
    ({ a with size := size, cleared := false } : Asked)).config fcpu
  by_cases h : a.size = size
  · rw [if_pos (hcached.mpr h), if_pos h]
  · rw [if_neg (mt hcached.mp h), if_neg h]
    simp [config]

lemma exec_config {a : Asked} {s t : Spi} (call : SpiCall) (hs : s.config = a.config fcpu)
    (h : call.exec fcpu u s = some t) : t.config = (a.call call).config fcpu := by
  have hend : s.«end».config = ({ a with cleared := true } : Asked).config fcpu := by
    rw [Spi.config_end, hs]
    simp [config]
  cases call with
  | begin miso mosi cs =>
    obtain ⟨s₁, s₂, hs₁, hs₂, ht⟩ := Spi.config_begin h
    rw [ht]
    exact setFrequency_config (hs₁.trans hend) hs₂
  | «end» =>
    cases h
    exact hend
  | setFrequency hz => exact setFrequency_config hs h
  | setClockDivider div =>
    cases h
    change ({ s.config with brg := div } : SpiConfig) = _
    rw [hs]
    rfl
  | setDataMode mode =>
    cases h
    rw [Spi.setDataMode_eq]
    exact hs
  | setBitOrder order =>
    cases h
    rw [Spi.config_setBitOrder]
    exact hs
  | setBitSize size =>
    cases h
    exact setBitSize_config size hs
  | fillColor size data =>
    cases h
    exact (Spi.config_bulk _ s).trans hs
  | drawImage data =>
    cases h
    exact (Spi.config_bulk _ s).trans hs
  | beginTransaction settings =>
    obtain ⟨s₁, hs₁, ht⟩ := Spi.config_beginTransaction h
    rw [ht]
    exact setFrequency_config hs hs₁

end Asked

/-- What a history asks of a new object. -/
def asked (calls : List SpiCall) : Asked := calls.foldl Asked.call Asked.initial

variable {fcpu : Word} {u : SpiContext} {sta : Word} {cpu : Cpu}

lemma run_config {a : Asked} {s t : Spi} (calls : List SpiCall) (hs : s.config = a.config fcpu)
    (h : Runs.run (SpiCall.exec fcpu u) s calls = some t) :
    t.config = (calls.foldl Asked.call a).config fcpu := by
  induction calls generalizing a s with
  | nil =>
    cases h
    exact hs
  | cons call calls ih =>
    obtain ⟨s₁, hs₁, hrun⟩ := (Runs.run_cons_some _).mp h
    exact ih (Asked.exec_config call hs hs₁) hrun

/-- After any history the configuration is the one that the calls have asked for. -/
theorem spiAfter_config {calls : List SpiCall} {s : Spi}
    (h : spiAfter fcpu u sta cpu calls = some s) : s.config = (asked calls).config fcpu := by
  obtain ⟨s₀, hs₀, hrun⟩ := Option.bind_eq_some_iff.mp h
  apply run_config calls _ hrun
  simp only [Spi.construct, Option.bind_eq_bind, Option.bind_eq_some_iff, Option.some.injEq] at hs₀
  obtain ⟨c, -, rfl⟩ := hs₀
  simp [Spi.config, Asked.config, Asked.initial]

lemma asked_append (calls : List SpiCall) (call : SpiCall) :
    asked (calls ++ [call]) = (asked calls).call call := by
  simp [asked]

lemma rate_le_iff (p clock div : ℕ) :
    (p : ℚ) / (2 * (div + 1)) ≤ clock ↔ p ≤ 2 * clock * (div + 1) := by
  have hpos : (0 : ℚ) < 2 * (div + 1) := by positivity
  have hcast : (clock : ℚ) * (2 * (div + 1)) = ((2 * clock * (div + 1) : ℕ) : ℚ) := by
    push_cast
    ring
  rw [div_le_iff₀ hpos, hcast, Nat.cast_le]

lemma computed_divider_iff (p clock : Word) (hclock : clock ≠ 0) :
    (((p / clock) >>> 1) - 1).toNat < 2 ^ 13 ∧
        p.toNat ≤ 2 * clock.toNat * ((((p / clock) >>> 1) - 1).toNat + 1) ↔
      2 * clock.toNat ∣ p.toNat ∧ 0 < p.toNat ∧ p.toNat ≤ 2 * clock.toNat * 2 ^ 13 := by
  have hc : 0 < clock.toNat := by
    have hne : clock.toNat ≠ 0 := fun h => hclock (BitVec.eq_of_toNat_eq h)
    omega
  have hq : ((p / clock) >>> 1).toNat = p.toNat / (2 * clock.toNat) := by
    rw [BitVec.toNat_ushiftRight, BitVec.toNat_udiv, Nat.shiftRight_eq_div_pow, pow_one,
      Nat.div_div_eq_div_mul, Nat.mul_comm]
  have hd : 0 < 2 * clock.toNat := by omega
  rw [← Quotients.quotient_exact_iff hd, ← hq]
  generalize (p / clock) >>> 1 = q at *
  rcases Nat.eq_zero_or_pos q.toNat with hzero | hpos
  · -- the subtraction underflows
    have hsub : (q - 1).toNat = 2 ^ 32 - 1 := by
      rw [BitVec.toNat_sub, hzero]
      rfl
    rw [hsub]
    omega
  · have hsub : (q - 1).toNat + 1 = q.toNat := by
      have hlt := q.isLt
      have hone : (1 : Word).toNat = 1 := rfl
      rw [BitVec.toNat_sub, hone]
      omega
    rw [hsub]
    omega

lemma clockWithin_iff {a : Asked} {clock : Word} {s : Spi} (hclock : clock ≠ 0)
    (hs : s.config = (a.ask clock).config fcpu) :
    s.ClockWithin fcpu clock ↔ a.Reaches fcpu clock := by
  have hhz : (a.ask clock).hz = clock := by
    unfold Asked.ask
    split
    · assumption
    · rfl
  have hrate := rate_le_iff (sysClkBusPeripheral1 fcpu).toNat clock.toNat s.config.brg.toNat
  have hwithin : s.ClockWithin fcpu clock ↔ s.config.brg.toNat < 2 ^ 13 ∧
      (sysClkBusPeripheral1 fcpu).toNat ≤ 2 * clock.toNat * (s.config.brg.toNat + 1) := by
    constructor
    · intro h
      exact ⟨h.fits, hrate.mp h.clock_le⟩
    · intro h
      exact ⟨h.1, hrate.mpr h.2⟩
  rw [hwithin, hs]
  unfold Asked.config Asked.Reaches
  rw [hhz]
  cases (a.ask clock).div with
  | none => exact computed_divider_iff (sysClkBusPeripheral1 fcpu) clock hclock
  | some div => rfl

lemma dataWidth_iff {a : Asked} {s : Spi} {size : Byte} (hsize : size = 8 ∨ size = 16 ∨ size = 32)
    (hs : s.config = (a.call (.setBitSize size)).config fcpu) :
    s.dataWidth = size.toNat ↔ a.WidthHolds size := by
  unfold Spi.dataWidth Asked.WidthHolds
  rw [hs]
  by_cases hcached : a.size = size
  · have hcall : a.call (.setBitSize size) = a := if_pos hcached
    rw [hcall]
    cases hcleared : a.cleared <;> rcases hsize with h | h | h <;>
      simp [Asked.config, hcleared, hcached, h]
  · have hcall : a.call (.setBitSize size) = { a with size := size, cleared := false } :=
      if_neg hcached
    have hholds : size = 8 ∨ a.size ≠ size ∨ a.cleared = false := Or.inr (Or.inl hcached)
    rw [hcall, iff_true_right hholds]
    rcases hsize with h | h | h <;> simp [Asked.config, h]

/-- After a history that ends with `beginTransaction` the divider fits and the clock keeps to the
one asked for exactly when that clock is reached; the polarity is the same whatever mode is asked
for; and after one that ends with `setBitSize` the register has that width exactly when it gets
written. -/
theorem spi_configuration_iff (fcpu : Word) (u : SpiContext) (sta : Word) (cpu : Cpu) :
    (∀ calls settings s, settings.clock ≠ 0 →
      spiAfter fcpu u sta cpu (calls ++ [.beginTransaction settings]) = some s →
      (s.ClockWithin fcpu settings.clock ↔ (asked calls).Reaches fcpu settings.clock)) ∧
    (∀ calls settings s calls' settings' s',
      spiAfter fcpu u sta cpu (calls ++ [.beginTransaction settings]) = some s →
      spiAfter fcpu u sta cpu (calls' ++ [.beginTransaction settings']) = some s' →
      s.polarity = s'.polarity) ∧
    (∀ calls size s, size = 8 ∨ size = 16 ∨ size = 32 →
      spiAfter fcpu u sta cpu (calls ++ [.setBitSize size]) = some s →
      (s.dataWidth = size.toNat ↔ (asked calls).WidthHolds size)) := by
  refine ⟨?_, ?_, ?_⟩
  · intro calls settings s hclock h
    have hs := spiAfter_config h
    rw [asked_append] at hs
    exact clockWithin_iff hclock hs
  · intro calls settings s calls' settings' s' h h'
    unfold Spi.polarity
    rw [spiAfter_config h, spiAfter_config h']
    rfl
  · intro calls size s hsize h
    have hs := spiAfter_config h
    rw [asked_append] at hs
    exact dataWidth_iff hsize hs

/-- A board with all pins of its port remappable, before the clock is started. -/
def spiBoard : SpiContext := ⟨some 0, 11, some 1, 5, some 2, 9⟩

def spiCpu : Cpu := ⟨1, fun _ => 0, coreTimerAtBoot 200000000, ⟨fun _ => none, none⟩⟩

/-- A processor at 200 MHz reaches a clock of 5 MHz. -/
theorem spi_configuration_200MHz :
    ∃ s, spiAfter 200000000 spiBoard 0 spiCpu [.begin pinHard pinHard pinHard,
        .beginTransaction ⟨5000000, msbFirst, spiMode0⟩] = some s ∧
      s.ClockWithin 200000000 5000000 := by
  have hrun : ∃ s, spiAfter 200000000 spiBoard 0 spiCpu [.begin pinHard pinHard pinHard,
      .beginTransaction ⟨5000000, msbFirst, spiMode0⟩] = some s := ⟨_, rfl⟩
  obtain ⟨s, hs⟩ := hrun
  have hiff := (spi_configuration_iff 200000000 spiBoard 0 spiCpu).1
    [.begin pinHard pinHard pinHard] ⟨5000000, msbFirst, spiMode0⟩ s (by decide) hs
  exact ⟨s, hs, hiff.mpr ⟨⟨10, rfl⟩, by decide, by decide⟩⟩

/-- The three ways in which a request is lost: a polarity is never written, a clock above half the
peripheral clock makes the divider underflow, and a width asked for again after `end` is skipped. -/
theorem spi_requests_lost :
    (∃ s s',
      spiAfter 200000000 spiBoard 0 spiCpu [.beginTransaction ⟨1000000, msbFirst, 0⟩] = some s ∧
      spiAfter 200000000 spiBoard 0 spiCpu [.beginTransaction ⟨1000000, msbFirst, 2⟩] = some s' ∧
      s.polarity = s'.polarity) ∧
    (∃ s,
      spiAfter 200000000 spiBoard 0 spiCpu [.beginTransaction ⟨60000000, msbFirst, 0⟩] = some s ∧
      ¬s.ClockWithin 200000000 60000000) ∧
    (∃ s, spiAfter 200000000 spiBoard 0 spiCpu [.setBitSize 16, .end, .setBitSize 16] = some s ∧
      s.dataWidth = 8) := by
  refine ⟨⟨_, _, rfl, rfl, rfl⟩, ⟨_, rfl, ?_⟩, ⟨_, rfl, rfl⟩⟩
  intro h
  exact absurd h.fits (by decide)

end FrameworkXC32
