import FrameworkXC32.Lib.Cells
import FrameworkXC32.Pins.Board
import FrameworkXC32.Pins.Calls
import Mathlib.Data.List.Induction

/-!
# Sequences of `pinMode`

Each bit of each port register is a cell that a call of `pinMode` sets, clears or keeps. The pull
modes keep the direction of the pin, so the direction bit belongs to the last call that asks for
no pull. The guard against a request for both pulls tests `PULLUP & PULLDOWN`, which is zero.
-/

namespace FrameworkXC32
open Machine

/-- The declared modes of a pin. -/
inductive PinMode
  | input | inputPullup | inputPulldown | output | outputLow | outputHigh
deriving DecidableEq, Repr

namespace PinMode

def code : PinMode → Word
  | input => Mode.input
  | inputPullup => Mode.inputPullup
  | inputPulldown => Mode.inputPulldown
  | output => Mode.output
  | outputLow => Mode.outputLow
  | outputHigh => Mode.outputHigh

def isInput : PinMode → Bool
  | input | inputPullup | inputPulldown => true
  | output | outputLow | outputHigh => false

def isPull : PinMode → Bool
  | inputPullup | inputPulldown => true
  | _ => false

/-- What the mode writes to the bit of a pin in a register, `none` where it writes nothing. -/
def writes : PinMode → GpioReg → Option Bool
  | _, .ansel => some false
  | m, .cnpu => some (m = inputPullup)
  | m, .cnpd => some (m = inputPulldown)
  | m, .tris => if m.isPull then none else some m.isInput
  | outputLow, .lat => some false
  | outputHigh, .lat => some true
  | _, _ => none

lemma isInput_of_isPull {m : PinMode} (h : m.isPull = true) : m.isInput = true := by
  cases m <;> first | rfl | exact h

lemma isInput_iff {m : PinMode} (h : m.isPull = false) : m.isInput = true ↔ m = input := by
  cases m <;> simp_all [isPull, isInput]

end PinMode

/-- A mode that requests both PULLUP and PULLDOWN. -/
def Mode.RequestsBoth (mode : Word) : Prop :=
  Mode.has mode Mode.inputPullup = true ∧ Mode.has mode Mode.inputPulldown = true

instance (mode : Word) : Decidable (Mode.RequestsBoth mode) :=
  inferInstanceAs (Decidable (_ ∧ _))

/-- A call of `pinMode` with a declared mode. -/
structure ModeCall where
  pin : ℕ
  mode : PinMode
deriving DecidableEq, Repr

/-- A bit of the port registers. -/
abbrev PortBit := Gpio × ℕ

def Pin.Covers (p : Pin) (b : PortBit) : Prop := p.gpio = b.1 ∧ p.mask.getLsbD b.2 = true

instance (p : Pin) (b : PortBit) : Decidable (p.Covers b) :=
  inferInstanceAs (Decidable (_ ∧ _))

namespace ModeCall

variable (board : Board)

/-- The mode that the call asks for on a bit, when the bit is one of its pin. -/
def asks (c : ModeCall) (b : PortBit) : Option PinMode :=
  (board.pins[c.pin]?).bind fun p => if p.Covers b then some c.mode else none

/-- What the call writes to a bit of a register. -/
def sets (c : ModeCall) (cell : GpioReg × PortBit) : Option Bool :=
  (c.asks board cell.2).bind fun m => m.writes cell.1

/-- The mode of the last call on a bit. -/
def lastMode (calls : List ModeCall) (b : PortBit) : Option PinMode :=
  Cells.last (asks board) calls b

/-- The mode of the last call on a bit that asks for no pull. -/
def lastPlain (calls : List ModeCall) (b : PortBit) : Option PinMode :=
  Cells.last (fun c b => (c.asks board b).filter fun m => !m.isPull) calls b

end ModeCall

namespace Pins

variable {κ : Type}

def bit (s : Pins κ) (cell : GpioReg × PortBit) : Bool := (s.reg cell.2.1 cell.1).getLsbD cell.2.2

lemma bit_setReg {p : Pin} {r : GpioReg} {f : Word → Word → Word} {value : Bool} (s : Pins κ)
    (hf : ∀ w m j, (f w m).getLsbD j = if m.getLsbD j then value else w.getLsbD j)
    (r' : GpioReg) (b : PortBit) :
    (s.setReg p.gpio r (f (s.reg p.gpio r) (p.mask.setWidth 32))).bit (r', b) =
      if r' = r ∧ p.Covers b then value else s.bit (r', b) := by
  have hmask : (p.mask.setWidth 32).getLsbD b.2 = p.mask.getLsbD b.2 := by
    rw [BitVec.getLsbD_setWidth]
    by_cases h : b.2 < 32
    · simp [h]
    · simp [BitVec.getLsbD_of_ge p.mask b.2 (by omega)]
  unfold bit setReg Pin.Covers
  by_cases hgpio : b.1 = p.gpio
  · by_cases hr : r' = r
    · simp only [hgpio, hr, Function.update_self, hf, hmask, true_and]
    · simp [hgpio, hr]
  · have hne : p.gpio ≠ b.1 := fun h => hgpio h.symm
    simp [hgpio, hne]

section Aliases

variable (p : Pin) (r r' : GpioReg) (s : Pins κ) (b : PortBit)

lemma bit_regClr : (s.regClr p.gpio r (p.mask.setWidth 32)).bit (r', b) =
    if r' = r ∧ p.Covers b then false else s.bit (r', b) := by
  apply bit_setReg s
  intro w m j
  rw [getLsbD_regClr]
  cases m.getLsbD j <;> simp

lemma bit_regSet : (s.regSet p.gpio r (p.mask.setWidth 32)).bit (r', b) =
    if r' = r ∧ p.Covers b then true else s.bit (r', b) := by
  apply bit_setReg s
  intro w m j
  rw [getLsbD_regSet]
  cases m.getLsbD j <;> simp

end Aliases

/-- `PULLUP & PULLDOWN` has no bit. -/
lemma has_both (mode : Word) :
    Mode.has mode (Mode.inputPullup &&& Mode.inputPulldown) = false := by
  have hzero : Mode.inputPullup &&& Mode.inputPulldown = 0 := by decide
  rw [hzero]
  simp [Mode.has]

/-- What one call does to each bit. -/
theorem bit_pinMode (board : Board) (c : ModeCall) (s : Pins κ) (cell : GpioReg × PortBit) :
    (s.pinMode board c.pin c.mode.code).bit cell = (c.sets board cell).getD (s.bit cell) := by
  obtain ⟨r, b⟩ := cell
  unfold pinMode ModeCall.sets ModeCall.asks
  cases board.pins[c.pin]? with
  | none => rfl
  | some p =>
    simp only [has_both, Bool.false_eq_true, if_false, Option.bind_some]
    by_cases hp : p.Covers b
    · cases c.mode <;> cases r <;>
        simp [PinMode.code, PinMode.writes, PinMode.isPull, PinMode.isInput, Mode.has, Mode.output,
          Mode.outputHigh, Mode.outputLow, Mode.input, Mode.inputPullup, Mode.inputPulldown,
          bit_regClr, bit_regSet, hp]
    · cases c.mode <;>
        simp [PinMode.code, Mode.has, Mode.output, Mode.outputHigh, Mode.outputLow, Mode.input,
          Mode.inputPullup, Mode.inputPulldown, bit_regClr, bit_regSet, hp]

def runModes (board : Board) (calls : List ModeCall) (s : Pins κ) : Pins κ :=
  calls.foldl (fun s c => s.pinMode board c.pin c.mode.code) s

section Run

variable (board : Board) (calls : List ModeCall) (s : Pins κ) (b : PortBit)

lemma bit_runModes (cell : GpioReg × PortBit) : (runModes board calls s).bit cell =
    (Cells.last (ModeCall.sets board) calls cell).getD (s.bit cell) :=
  Cells.observe_foldl (fun s c cell => bit_pinMode board c s cell) s calls cell

lemma bit_runModes_of_writes {r : GpioReg} {f : PinMode → Bool} (hf : ∀ m, m.writes r = some (f m)) :
    (runModes board calls s).bit (r, b) =
      ((ModeCall.lastMode board calls b).map f).getD (s.bit (r, b)) := by
  rw [bit_runModes, ModeCall.lastMode, ← Cells.last_map]
  congr 1
  apply Cells.last_congr
  intro c _
  unfold ModeCall.sets
  cases c.asks board b with
  | none => rfl
  | some m => exact hf m

lemma bit_runModes_tris : (runModes board calls s).bit (.tris, b) =
    ((ModeCall.lastPlain board calls b).map PinMode.isInput).getD (s.bit (.tris, b)) := by
  rw [bit_runModes, ModeCall.lastPlain, ← Cells.last_map]
  congr 1
  apply Cells.last_congr
  intro c _
  unfold ModeCall.sets
  cases c.asks board b with
  | none => rfl
  | some m => cases m <;> rfl

lemma bit_runModes_of_none (r : GpioReg) (hnone : ModeCall.lastMode board calls b = none) :
    (runModes board calls s).bit (r, b) = s.bit (r, b) := by
  apply Cells.observe_foldl_of_not_set (fun s c cell => bit_pinMode board c s cell)
  intro c hc
  have hasks := (Cells.last_eq_none _ calls b).mp hnone c hc
  unfold ModeCall.sets
  rw [hasks, Option.bind_none]

lemma lastPlain_of_lastMode {m : PinMode} (hm : m.isPull = false)
    (hlast : ModeCall.lastMode board calls b = some m) :
    ModeCall.lastPlain board calls b = some m := by
  induction calls using List.reverseRecOn with
  | nil => cases hlast
  | append_singleton calls c ih =>
    unfold ModeCall.lastMode at hlast ih
    unfold ModeCall.lastPlain at ih ⊢
    rw [Cells.last_concat] at hlast ⊢
    cases hasks : c.asks board b with
    | none =>
      rw [hasks, Option.none_or] at hlast
      rw [Option.filter_none, Option.none_or]
      exact ih hlast
    | some m' =>
      rw [hasks, Option.some_or] at hlast
      cases hlast
      simp [hm]

lemma isPull_of_lastPlain {m : PinMode} (h : ModeCall.lastPlain board calls b = some m) :
    m.isPull = false := by
  obtain ⟨c, -, hc⟩ := Cells.exists_of_last _ h
  simpa using (Option.filter_eq_some_iff.mp hc).2

end Run

/-- The registers `t` are decided by the last mode on each bit, and are those of `s` elsewhere. -/
structure ModesDecide (board : Board) (calls : List ModeCall) (s t : Pins κ) : Prop where
  tris : ∀ b m, ModeCall.lastMode board calls b = some m → t.bit (.tris, b) = m.isInput
  cnpu : ∀ b m, ModeCall.lastMode board calls b = some m →
    t.bit (.cnpu, b) = decide (m = .inputPullup)
  cnpd : ∀ b m, ModeCall.lastMode board calls b = some m →
    t.bit (.cnpd, b) = decide (m = .inputPulldown)
  ansel : ∀ b m, ModeCall.lastMode board calls b = some m → t.bit (.ansel, b) = false
  others : ∀ r b, ModeCall.lastMode board calls b = none → t.bit (r, b) = s.bit (r, b)

/-- Where the last call on a bit asks for a pull, the last of the other calls on it asked for INPUT,
or there is none and the bit was an input from the start. -/
def PullsOnInputs (board : Board) (calls : List ModeCall) (s : Pins κ) : Prop :=
  ∀ b m, ModeCall.lastMode board calls b = some m → m.isPull →
    match ModeCall.lastPlain board calls b with
    | some plain => plain = .input
    | none => s.bit (.tris, b) = true

/-- The last call on each bit of the pin asks for INPUT_PULLUP, or there is none and the bit was
pulled up from the start. -/
def PulledUp (board : Board) (calls : List ModeCall) (s : Pins κ) (pin : ℕ) : Prop :=
  ∀ p, board.pins[pin]? = some p → ∀ b, p.Covers b →
    match ModeCall.lastMode board calls b with
    | some m => m = .inputPullup
    | none => s.bit (.ansel, b) = false ∧ s.bit (.cnpu, b) = true ∧ s.bit (.cnpd, b) = false

section Decided

variable (board : Board) (calls : List ModeCall) (s : Pins κ)

/-- After a pull, a bit is an input when the last of the other calls on it made it one. -/
lemma bit_tris_iff (b : PortBit) : (runModes board calls s).bit (.tris, b) = true ↔
    match ModeCall.lastPlain board calls b with
    | some plain => plain = .input
    | none => s.bit (.tris, b) = true := by
  rw [bit_runModes_tris]
  cases h : ModeCall.lastPlain board calls b with
  | none => rfl
  | some plain => exact PinMode.isInput_iff (isPull_of_lastPlain board calls b h)

lemma modesDecide_iff :
    ModesDecide board calls s (runModes board calls s) ↔ PullsOnInputs board calls s := by
  constructor
  · intro h b m hlast hpull
    rw [← bit_tris_iff board calls s b, h.tris b m hlast]
    exact PinMode.isInput_of_isPull hpull
  · intro h
    refine ⟨?_, ?_, ?_, ?_, fun r b hnone => bit_runModes_of_none board calls s b r hnone⟩
    · intro b m hlast
      cases hpull : m.isPull with
      | false =>
        rw [bit_runModes_tris, lastPlain_of_lastMode board calls b hpull hlast]
        rfl
      | true =>
        rw [PinMode.isInput_of_isPull hpull]
        exact (bit_tris_iff board calls s b).mpr (h b m hlast hpull)
    · intro b m hlast
      rw [bit_runModes_of_writes board calls s b fun m => rfl, hlast]
      rfl
    · intro b m hlast
      rw [bit_runModes_of_writes board calls s b fun m => rfl, hlast]
      rfl
    · intro b m hlast
      rw [bit_runModes_of_writes board calls s b (f := fun _ => false) fun m => rfl, hlast]
      rfl

end Decided

section BothPulls

variable (board : Board) (s : Pins κ) (pin : ℕ)

lemma pinMode_eq_self_iff (mode : Word) : s.pinMode board pin mode = s ↔
    ∀ cell, (s.pinMode board pin mode).bit cell = s.bit cell := by
  constructor
  · intro h cell
    rw [h]
  · intro h
    obtain ⟨reg, hreg⟩ := pinMode_eq board pin mode s
    rw [hreg] at h ⊢
    have heq : reg = s.reg := by
      funext gpio r
      apply BitVec.eq_of_getLsbD_eq
      intro i _
      exact h (r, gpio, i)
    rw [heq]

/-- A request for both pulls is not refused: it is taken for INPUT_PULLUP. -/
lemma pinMode_of_both {mode : Word} (hup : Mode.has mode Mode.inputPullup = true) :
    s.pinMode board pin mode = s.pinMode board pin PinMode.inputPullup.code := by
  have hne : ∀ m, Mode.has m Mode.inputPullup = false → mode ≠ m := by
    rintro m hm rfl
    rw [hm] at hup
    cases hup
  have hout : mode ≠ Mode.output := hne _ (by decide)
  have hhigh : mode ≠ Mode.outputHigh := hne _ (by decide)
  have hlow : mode ≠ Mode.outputLow := hne _ (by decide)
  unfold pinMode
  cases board.pins[pin]? with
  | none => rfl
  | some p =>
    simp only [has_both, hout, hhigh, hlow, hup, if_false, if_true]
    rfl

lemma pinMode_both_eq_self_iff {mode : Word} (hup : Mode.has mode Mode.inputPullup = true) :
    s.pinMode board pin mode = s ↔ ∀ p, board.pins[pin]? = some p → ∀ b, p.Covers b →
      s.bit (.ansel, b) = false ∧ s.bit (.cnpu, b) = true ∧ s.bit (.cnpd, b) = false := by
  rw [pinMode_of_both board s pin hup, pinMode_eq_self_iff]
  have hbit := bit_pinMode board ⟨pin, .inputPullup⟩ s
  simp only [hbit, ModeCall.sets, ModeCall.asks]
  cases board.pins[pin]? with
  | none => simp
  | some p =>
    simp only [Option.bind_some, Option.some.injEq, forall_eq']
    constructor
    · intro h b hb
      have hansel := h (.ansel, b)
      have hcnpu := h (.cnpu, b)
      have hcnpd := h (.cnpd, b)
      simp only [hb, if_true] at hansel hcnpu hcnpd
      exact ⟨hansel.symm, hcnpu.symm, hcnpd.symm⟩
    · rintro h ⟨r, b⟩
      by_cases hb : p.Covers b
      · obtain ⟨hansel, hcnpu, hcnpd⟩ := h b hb
        simp only [hb, if_true, Option.bind_some]
        cases r <;> simp [PinMode.writes, PinMode.isPull, hansel, hcnpu, hcnpd]
      · simp only [hb, if_false, Option.bind_none, Option.getD_none]

end BothPulls

lemma runModes_both_iff (board : Board) (calls : List ModeCall) (s : Pins κ) (pin : ℕ) {mode : Word}
    (hup : Mode.has mode Mode.inputPullup = true) :
    (runModes board calls s).pinMode board pin mode = runModes board calls s ↔
      PulledUp board calls s pin := by
  rw [pinMode_both_eq_self_iff board _ pin hup]
  unfold PulledUp
  refine forall_congr' fun p => forall_congr' fun _ => forall_congr' fun b =>
    forall_congr' fun _ => ?_
  have hansel := bit_runModes_of_writes board calls s b (r := .ansel) (f := fun _ => false)
    fun m => rfl
  have hcnpu := bit_runModes_of_writes board calls s b (r := .cnpu) fun m => rfl
  have hcnpd := bit_runModes_of_writes board calls s b (r := .cnpd) fun m => rfl
  rw [hansel, hcnpu, hcnpd]
  cases ModeCall.lastMode board calls b with
  | none => rfl
  | some m => cases m <;> simp

/-- After any calls the last mode on each bit decides it, and a request for both pulls then changes
nothing, exactly when the pulls were asked for on inputs and the pin of the request is pulled up. -/
theorem pinMode_last_call_iff (board : Board) (calls : List ModeCall) (s : Pins κ) (pin : ℕ)
    (mode : Word) (hmode : Mode.RequestsBoth mode) :
    ModesDecide board calls s (runModes board calls s) ∧
        (runModes board calls s).pinMode board pin mode = runModes board calls s ↔
      PullsOnInputs board calls s ∧ PulledUp board calls s pin := by
  rw [modesDecide_iff, runModes_both_iff board calls s pin hmode.1]

/-- INPUT and then INPUT_PULLUP on the first pin. -/
def inputThenPullup : List ModeCall := [⟨0, .input⟩, ⟨0, .inputPullup⟩]

lemma pulledUp_inputThenPullup : PullsOnInputs EFM100.board inputThenPullup EFM100.idle ∧
    PulledUp EFM100.board inputThenPullup EFM100.idle 0 := by
  obtain ⟨p, hp⟩ : ∃ p, EFM100.board.pins[0]? = some p := ⟨_, rfl⟩
  have hasks : ∀ m b, (ModeCall.mk 0 m).asks EFM100.board b =
      if p.Covers b then some m else none := by
    intro m b
    rw [ModeCall.asks, hp, Option.bind_some]
  constructor
  · intro b m hm hpull
    by_cases hb : p.Covers b
    · have hplain : ModeCall.lastPlain EFM100.board inputThenPullup b = some .input := by
        simp [inputThenPullup, ModeCall.lastPlain, Cells.last, hasks, hb, PinMode.isPull]
      rw [hplain]
    · simp [inputThenPullup, ModeCall.lastMode, Cells.last, hasks, hb] at hm
  · intro q hq b hb
    obtain rfl : p = q := Option.some.inj (hp.symm.trans hq)
    have hlast : ModeCall.lastMode EFM100.board inputThenPullup b = some .inputPullup := by
      simp [inputThenPullup, ModeCall.lastMode, Cells.last, hasks, hb]
    rw [hlast]

/-- They decide the registers, and a request for both pulls behind them changes nothing. -/
theorem pinMode_last_call_input : Mode.RequestsBoth (Mode.inputPullup ||| Mode.inputPulldown) ∧
    ModesDecide EFM100.board inputThenPullup EFM100.idle
        (runModes EFM100.board inputThenPullup EFM100.idle) ∧
      (runModes EFM100.board inputThenPullup EFM100.idle).pinMode EFM100.board 0
          (Mode.inputPullup ||| Mode.inputPulldown) =
        runModes EFM100.board inputThenPullup EFM100.idle :=
  ⟨by decide, (pinMode_last_call_iff EFM100.board inputThenPullup EFM100.idle 0 _
    (by decide)).mpr pulledUp_inputThenPullup⟩

/-- INPUT_PULLUP after OUTPUT leaves the pin an output, and a request for both pulls enables the
pull-up of an idle pin. -/
theorem pinMode_pullup_after_output :
    ¬ModesDecide EFM100.board [⟨0, .output⟩, ⟨0, .inputPullup⟩] EFM100.idle
        (runModes EFM100.board [⟨0, .output⟩, ⟨0, .inputPullup⟩] EFM100.idle) ∧
      EFM100.idle.pinMode EFM100.board 0 (Mode.inputPullup ||| Mode.inputPulldown) ≠
        EFM100.idle := by
  constructor
  · intro h
    have htris := h.tris (4, 4) .inputPullup (by decide)
    revert htris
    decide
  · intro h
    have hcnpu := congrArg (fun s : Pins ℕ => s.bit (.cnpu, 4, 4)) h
    revert hcnpu
    decide

end Pins
end FrameworkXC32
