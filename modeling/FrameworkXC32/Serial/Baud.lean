import FrameworkXC32.CoreTimer.Model
import FrameworkXC32.Lib.Quotients
import FrameworkXC32.Serial.Streams

/-!
# The baud rate of a UART

`Uart::begin` and `uart_set_brg` on the registers of a module. The baud rate generator divides the
peripheral clock by four in its fast mode and by sixteen otherwise, and then by `BRG + 1`.
-/

namespace FrameworkXC32
open Machine

/-- An object and the registers at the offsets `0x00`, `0x10` and `0x40` from its `base`. -/
structure UartPort where
  uart : Uart
  mode : Word
  sta : Word
  brg : Word

/-- `_U1MODE_ON_MASK` -/
def uartOnMask : Word := 0x8000

/-- `_U1MODE_BRGH_MASK` -/
def brghMask : Word := 8

/-- `_U1STA_UTXEN_MASK | _U1STA_URXEN_MASK` -/
def uartEnableMask : Word := 0x400 ||| 0x1000

/-- The two quotients as the `int` they are assigned to. -/
def brgValueLow (clock brg : Word) : ℤ := (((clock / brg) >>> 4) - 1).toInt

def brgValueHigh (clock brg : Word) : ℤ := (((clock / brg) >>> 2) - 1).toInt

namespace UartPort

variable (clock : Word)

def setBrg (brg : Word) (u : UartPort) : UartPort :=
  let u := { u with mode := regClr u.mode brghMask }
  if 0 ≤ brgValueHigh clock brg ∧ brgValueHigh clock brg ≤ 0xFFFF then
    { u with
      mode := regSet u.mode brghMask
      brg := ((clock >>> 2) + (brg >>> 1)) / brg - 1 }
  else if 0 ≤ brgValueLow clock brg ∧ brgValueLow clock brg ≤ 0xFFFF then
    { u with brg := ((clock >>> 4) + (brg >>> 1)) / brg - 1 }
  else { u with brg := ((clock >>> 4) + (115200 >>> 1)) / 115200 - 1 }

/-- `end` -/
def close (u : UartPort) : UartPort :=
  { u with
    uart := { u.uart with
      regs := (u.uart.regs.disable u.uart.irq).clear u.uart.irq
      rxBuffer := u.uart.rxBuffer.clear }
    mode := 0
    sta := 0 }

def begin (baudrate config : Word) (u : UartPort) : UartPort :=
  let u := u.close.setBrg clock baudrate
  { u with
    sta := u.sta ||| uartEnableMask
    mode := u.mode ||| (uartOnMask ||| brghMask ||| config)
    uart := { u.uart with regs := u.uart.regs.enable u.uart.irq } }

/-- What the baud rate generator divides the peripheral clock by, apart from `BRG + 1`. -/
def divider (u : UartPort) : ℕ := if u.mode &&& brghMask ≠ 0 then 4 else 16

/-- The generator divides the clock as the baud rate asks for, as nearly as it can. -/
structure RunsAt (u : UartPort) (baudrate : Word) : Prop where
  fits : u.brg.toNat ≤ 0xFFFF
  nearest : ((u.brg.toNat + 1 : ℕ) : ℤ) =
    round (((clock.toNat / u.divider : ℕ) : ℚ) / (baudrate.toNat : ℚ))

variable {clock} {baudrate : Word}

/-- Whatever was chosen before, `begin` leaves the fast mode on. -/
lemma begin_divider (config : Word) (u : UartPort) : (u.begin clock baudrate config).divider = 4 := by
  unfold divider
  rw [if_pos]
  intro hzero
  have hbit := congrArg (fun r : Word => r.getLsbD 3) hzero
  simp [begin, brghMask] at hbit

lemma toNat_pred {x : Word} (h : 1 ≤ x.toNat) : (x - 1).toNat = x.toNat - 1 := by
  bv_omega

lemma toNat_shifted_quotient (clock baudrate : Word) (k : ℕ) :
    ((clock / baudrate) >>> k).toNat = clock.toNat / 2 ^ k / baudrate.toNat := by
  rw [BitVec.toNat_ushiftRight, BitVec.toNat_udiv, Nat.shiftRight_eq_div_pow, Nat.div_div_eq_div_mul,
    Nat.div_div_eq_div_mul, Nat.mul_comm]

/-- What is written for the clock divided by a power of two: the sum does not overflow. -/
lemma toNat_rounded_quotient {k : ℕ} (hk : 1 ≤ k) (hpos : 1 ≤ baudrate.toNat)
    (hle : baudrate.toNat ≤ clock.toNat / 2 ^ k) :
    (((clock >>> k) + (baudrate >>> 1)) / baudrate - 1).toNat + 1 =
      (clock.toNat / 2 ^ k + baudrate.toNat / 2) / baudrate.toNat := by
  have hclock := clock.isLt
  have hhalf : clock.toNat / 2 ^ k ≤ clock.toNat / 2 :=
    Nat.div_le_div_left (Nat.le_self_pow (by omega) 2) (by decide)
  have hsum : ((clock >>> k) + (baudrate >>> 1)).toNat =
      clock.toNat / 2 ^ k + baudrate.toNat / 2 := by
    rw [BitVec.toNat_add, BitVec.toNat_ushiftRight, BitVec.toNat_ushiftRight,
      Nat.shiftRight_eq_div_pow, Nat.shiftRight_eq_div_pow, Nat.pow_one]
    exact Nat.mod_eq_of_lt (by omega)
  have hquot : (((clock >>> k) + (baudrate >>> 1)) / baudrate).toNat =
      (clock.toNat / 2 ^ k + baudrate.toNat / 2) / baudrate.toNat := by
    rw [BitVec.toNat_udiv, hsum]
  have hone : 1 ≤ (clock.toNat / 2 ^ k + baudrate.toNat / 2) / baudrate.toNat := by
    rw [Nat.one_le_div_iff hpos]
    omega
  rw [toNat_pred (by omega), hquot]
  omega

lemma brgValueHigh_eq (hpos : 1 ≤ baudrate.toNat) (hle : baudrate.toNat ≤ clock.toNat / 4) :
    brgValueHigh clock baudrate = (clock.toNat / 4 / baudrate.toNat : ℕ) - 1 := by
  have hquot := toNat_shifted_quotient clock baudrate 2
  have hclock := clock.isLt
  have hone : 1 ≤ clock.toNat / 4 / baudrate.toNat := by
    rw [Nat.one_le_div_iff hpos]
    exact hle
  have hself := Nat.div_le_self (clock.toNat / 4) baudrate.toNat
  have hpred : ((clock / baudrate) >>> 2 - 1).toNat = clock.toNat / 4 / baudrate.toNat - 1 := by
    change 1 ≤ clock.toNat / 2 ^ 2 / baudrate.toNat at hone
    rw [toNat_pred (by omega), hquot]
    rfl
  rw [brgValueHigh, BitVec.toInt_eq_toNat_of_lt (by omega), hpred]
  omega

/-- The fast mode is chosen by the divisor rounded down. -/
lemma begin_brg (config : Word) (u : UartPort) (hpos : 1 ≤ baudrate.toNat)
    (hle : baudrate.toNat ≤ clock.toNat / 4)
    (hfast : clock.toNat / 4 / baudrate.toNat ≤ 65536) :
    (u.begin clock baudrate config).brg.toNat + 1 =
      (clock.toNat / 4 + baudrate.toNat / 2) / baudrate.toNat := by
  have hone : 1 ≤ clock.toNat / 4 / baudrate.toNat := by
    rw [Nat.one_le_div_iff hpos]
    exact hle
  have hrange : 0 ≤ brgValueHigh clock baudrate ∧ brgValueHigh clock baudrate ≤ 0xFFFF := by
    rw [brgValueHigh_eq hpos hle]
    omega
  have hbrg : (u.begin clock baudrate config).brg =
      ((clock >>> 2) + (baudrate >>> 1)) / baudrate - 1 := by
    unfold begin setBrg
    dsimp only
    rw [if_pos hrange]
  rw [hbrg]
  exact toNat_rounded_quotient (by decide) hpos hle

/-- The rate asked for is set exactly when its divisor fits the register in the fast mode. -/
theorem begin_runsAt_iff (config : Word) (u : UartPort) (hpos : 1 ≤ baudrate.toNat)
    (hle : baudrate.toNat ≤ clock.toNat / 4) :
    (u.begin clock baudrate config).RunsAt clock baudrate ↔
      2 * (clock.toNat / 4) < 131073 * baudrate.toNat := by
  have hround := Quotients.round_natCast_div (clock.toNat / 4) hpos
  have hfits : (clock.toNat / 4 + baudrate.toNat / 2) / baudrate.toNat ≤ 65536 ↔
      2 * (clock.toNat / 4) < 131073 * baudrate.toNat := by
    rw [← Nat.lt_succ_iff, Nat.div_lt_iff_lt_mul hpos]
    omega
  constructor
  · intro h
    have hnearest := h.nearest
    have hle16 := h.fits
    rw [begin_divider, hround, Nat.cast_inj] at hnearest
    exact hfits.mp (by omega)
  · intro hlt
    have hfast : clock.toNat / 4 / baudrate.toNat ≤ 65536 :=
      le_trans (Nat.div_le_div_right (Nat.le_add_right _ _)) (hfits.mpr hlt)
    have hbrg := begin_brg config u hpos hle hfast
    refine ⟨?_, ?_⟩
    · have h16 := hfits.mpr hlt
      omega
    · rw [begin_divider, hround, hbrg]

lemma rxBuffer_size : NeZero 256 := ⟨by decide⟩

/-- A port after reset. -/
def reset : UartPort where
  uart := ⟨0, @RingBufferN.new 256 rxBuffer_size, ⟨fun _ => 0, fun _ => 0, fun _ => 0⟩⟩
  mode := 0
  sta := 0
  brg := 0

theorem begin_runsAt_9600 : (reset.begin 100000000 9600 0).RunsAt 100000000 9600 :=
  (begin_runsAt_iff 0 reset (by decide) (by decide)).mpr (by decide)

/-- At 200 MHz the rate 300 is left to the slow mode. The divisor for that mode is written, and the
fast mode is on. -/
theorem begin_300_not_runsAt :
    (0 ≤ brgValueLow 100000000 300 ∧ brgValueLow 100000000 300 ≤ 0xFFFF) ∧
      (reset.begin 100000000 300 0).brg + 1 = (100000000 / 16 + 150) / 300 ∧
      (reset.begin 100000000 300 0).divider = 4 ∧
      ¬(reset.begin 100000000 300 0).RunsAt 100000000 300 := by
  refine ⟨by decide, by rfl, begin_divider 0 reset, ?_⟩
  intro h
  have hnearest := h.nearest
  have hpos : 0 < (300 : Word).toNat := by decide
  rw [begin_divider, Quotients.round_natCast_div _ hpos, Nat.cast_inj] at hnearest
  revert hnearest
  decide

end UartPort

end FrameworkXC32
