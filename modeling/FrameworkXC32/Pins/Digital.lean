import FrameworkXC32.Lib.Interleaving
import FrameworkXC32.Pins.Modes

/-!
# Digital output

`digitalWrite`, `digitalToggle` and `pinMode` write nothing but masks to the CLR, SET and INV
aliases of the port registers. A program is the list of these writes, so that an interrupt can come
between any two of them, also inside of one call.
-/

namespace FrameworkXC32
open Machine Interleaving

inductive RegAction
  | clr | set | inv
deriving DecidableEq, Repr

/-- A write of a mask to an alias of a port register. -/
structure PortWrite where
  gpio : Gpio
  reg : GpioReg
  action : RegAction
  mask : Word
deriving DecidableEq, Repr

namespace RegAction

def exec : RegAction → Word → Word → Word
  | clr => regClr
  | set => regSet
  | inv => regInv

/-- What becomes of a bit under a one of the mask. -/
def onBit : RegAction → Bool → Bool
  | clr, _ => false
  | set, _ => true
  | inv, v => !v

lemma getLsbD_exec (a : RegAction) (r m : Word) (i : ℕ) :
    (a.exec r m).getLsbD i = if m.getLsbD i then a.onBit (r.getLsbD i) else r.getLsbD i := by
  cases a <;> cases hm : m.getLsbD i <;> simp [exec, onBit, hm]

end RegAction

/-- The calls of a sketch that write port registers. -/
inductive DigitalCall
  | mode (pin : ℕ) (mode : PinMode)
  | write (pin : ℕ) (val : Bool)
  | toggle (pin : ℕ)
deriving DecidableEq, Repr

namespace Pins

variable {κ : Type} (board : Board)

def digitalToggle (pin : ℕ) (s : Pins κ) : Pins κ :=
  match board.pins[pin]? with
  | none => s
  | some p => s.setReg p.gpio .lat (regInv (s.reg p.gpio .lat) (p.mask.setWidth 32))

/-- What the PORT registers show decides. -/
def digitalRead (port : Gpio → Word) (pin : ℕ) : ℤ :=
  match board.pins[pin]? with
  | none => -1
  | some p => if port p.gpio &&& p.mask.setWidth 32 ≠ 0 then 1 else 0

def portWrite (s : Pins κ) (w : PortWrite) : Pins κ :=
  s.setReg w.gpio w.reg (w.action.exec (s.reg w.gpio w.reg) w.mask)

end Pins

namespace DigitalCall

variable {κ : Type} (board : Board)

def pin : DigitalCall → ℕ
  | mode pin _ => pin
  | write pin _ => pin
  | toggle pin => pin

def exec (s : Pins κ) : DigitalCall → Pins κ
  | mode pin m => s.pinMode board pin m.code
  | write pin val => s.digitalWrite board pin val
  | toggle pin => s.digitalToggle board pin

/-- The writes of `pinMode` behind the three that it always makes. -/
def modeWrites : PinMode → List (GpioReg × RegAction)
  | .output => [(.tris, .clr)]
  | .outputHigh => [(.lat, .set), (.tris, .clr)]
  | .outputLow => [(.lat, .clr), (.tris, .clr)]
  | .inputPullup => [(.cnpu, .set)]
  | .inputPulldown => [(.cnpd, .set)]
  | .input => [(.tris, .set)]

/-- The registers that a call writes, and what it writes to the bits of its pin. -/
def registers : DigitalCall → List (GpioReg × RegAction)
  | mode _ m => (.ansel, .clr) :: (.cnpu, .clr) :: (.cnpd, .clr) :: modeWrites m
  | write _ val => [(.lat, if val then .set else .clr)]
  | toggle _ => [(.lat, .inv)]

/-- The register writes of a call in their order. -/
def writes (c : DigitalCall) : List PortWrite :=
  match board.pins[c.pin]? with
  | none => []
  | some p => c.registers.map fun r => ⟨p.gpio, r.1, r.2, p.mask.setWidth 32⟩

/-- A level that the call puts on its pin. -/
def level : DigitalCall → Option Bool
  | mode _ .outputHigh => some true
  | mode _ .outputLow => some false
  | mode _ _ => none
  | write _ val => some val
  | toggle _ => none

def isToggle : DigitalCall → Bool
  | toggle _ => true
  | _ => false

/-- The bit is one of the pin of the call. -/
def Covers (c : DigitalCall) (b : PortBit) : Prop :=
  ∃ p, board.pins[c.pin]? = some p ∧ p.Covers b

instance (c : DigitalCall) (b : PortBit) : Decidable (c.Covers board b) :=
  match h : board.pins[c.pin]? with
  | none => isFalse (by rintro ⟨p, hp, -⟩; rw [h] at hp; cases hp)
  | some p => decidable_of_iff (p.Covers b) ⟨fun hp => ⟨p, h, hp⟩, by
      rintro ⟨p', hp', hb⟩
      rw [h] at hp'
      exact Option.some.inj hp' ▸ hb⟩

/-- The last level that has been put on a bit. -/
def lastLevel (calls : List DigitalCall) (b : PortBit) : Option Bool :=
  Cells.last (fun c b => if Covers board c b then c.level else none) calls b

/-- The toggles of a bit since then. -/
def togglesSince (calls : List DigitalCall) (b : PortBit) : ℕ :=
  (calls.reverse.takeWhile fun c => ¬(Covers board c b ∧ c.level.isSome)).countP fun c =>
    Covers board c b ∧ c.isToggle

end DigitalCall

namespace Pins

variable {κ ι : Type} {board : Board}

/-- What a write does to a bit of a register. -/
def bitAfter (w : PortWrite) (cell : GpioReg × PortBit) (v : Bool) : Bool :=
  if cell.1 = w.reg ∧ cell.2.1 = w.gpio ∧ w.mask.getLsbD cell.2.2 then w.action.onBit v else v

lemma bit_portWrite (s : Pins κ) (w : PortWrite) (cell : GpioReg × PortBit) :
    (s.portWrite w).bit cell = bitAfter w cell (s.bit cell) := by
  obtain ⟨r, g, i⟩ := cell
  unfold portWrite bit bitAfter setReg
  dsimp only
  by_cases hg : g = w.gpio
  · by_cases hr : r = w.reg
    · subst hg hr
      rw [Function.update_self, Function.update_self, RegAction.getLsbD_exec]
      by_cases hm : w.mask.getLsbD i = true
      · rw [if_pos hm, if_pos ⟨rfl, rfl, hm⟩]
      · rw [if_neg hm, if_neg fun h => hm h.2.2]
    · subst hg
      rw [Function.update_self, Function.update_of_ne hr, if_neg fun h => hr h.1]
  · rw [Function.update_of_ne hg, if_neg fun h => hg h.2.1]

lemma exec_eq_writes (board : Board) (c : DigitalCall) (s : Pins κ) :
    c.exec board s = (c.writes board).foldl portWrite s := by
  unfold DigitalCall.writes
  cases c with
  | mode pin m =>
    change s.pinMode board pin m.code = _
    unfold pinMode DigitalCall.pin
    dsimp only
    cases board.pins[pin]? with
    | none => rfl
    | some p =>
      simp only [has_both, Bool.false_eq_true, if_false]
      cases m <;> rfl
  | write pin val =>
    change s.digitalWrite board pin val = _
    unfold digitalWrite DigitalCall.pin
    dsimp only
    cases board.pins[pin]? with
    | none => rfl
    | some p => cases val <;> rfl
  | toggle pin =>
    change s.digitalToggle board pin = _
    unfold digitalToggle DigitalCall.pin
    dsimp only
    cases board.pins[pin]? <;> rfl

def runDigital (board : Board) (calls : List DigitalCall) (s : Pins κ) : Pins κ :=
  calls.foldl (fun s c => c.exec board s) s

lemma runDigital_eq_writes (calls : List DigitalCall) (s : Pins κ) :
    runDigital board calls s = (calls.flatMap (DigitalCall.writes board)).foldl portWrite s := by
  induction calls generalizing s with
  | nil => rfl
  | cons c calls ih =>
    rw [List.flatMap_cons, List.foldl_append, ← exec_eq_writes, ← ih]
    rfl

lemma mask_covers (p : Pin) (b : PortBit) :
    (b.1 = p.gpio ∧ (p.mask.setWidth 32).getLsbD b.2 = true) ↔ p.Covers b := by
  have hmask : (p.mask.setWidth 32).getLsbD b.2 = p.mask.getLsbD b.2 := by
    rw [BitVec.getLsbD_setWidth]
    by_cases h : b.2 < 32
    · simp [h]
    · simp [BitVec.getLsbD_of_ge p.mask b.2 (by omega)]
  unfold Pin.Covers
  rw [hmask, eq_comm]

lemma bitAfter_of_not_covers {c : DigitalCall} {w : PortWrite} (hw : w ∈ c.writes board)
    {cell : GpioReg × PortBit} (hb : ¬c.Covers board cell.2) (v : Bool) :
    bitAfter w cell v = v := by
  unfold DigitalCall.writes at hw
  cases hpin : board.pins[c.pin]? with
  | none =>
    rw [hpin] at hw
    exact absurd hw List.not_mem_nil
  | some p =>
    rw [hpin] at hw
    obtain ⟨r, -, rfl⟩ := List.mem_map.mp hw
    apply if_neg
    rintro ⟨-, hgpio, hmask⟩
    exact hb ⟨p, hpin, (mask_covers p cell.2).mp ⟨hgpio, hmask⟩⟩

lemma bit_exec_lat (c : DigitalCall) (s : Pins κ) (b : PortBit) :
    (c.exec board s).bit (.lat, b) =
      if c.Covers board b then c.level.getD (s.bit (.lat, b) ^^ c.isToggle)
      else s.bit (.lat, b) := by
  by_cases hb : c.Covers board b
  · obtain ⟨p, hpin, hp⟩ := hb
    rw [if_pos ⟨p, hpin, hp⟩]
    cases c with
    | mode pin m =>
      change (s.pinMode board pin m.code).bit (.lat, b) = _
      have hbit := bit_pinMode board ⟨pin, m⟩ s (.lat, b)
      have hentry : board.pins[pin]? = some p := hpin
      dsimp only at hbit
      rw [hbit, ModeCall.sets, ModeCall.asks, hentry, Option.bind_some, if_pos hp,
        Option.bind_some]
      cases m <;> simp [PinMode.writes, DigitalCall.level, DigitalCall.isToggle]
    | write pin val =>
      change (s.digitalWrite board pin val).bit (.lat, b) = val
      unfold digitalWrite
      rw [show board.pins[pin]? = some p from hpin]
      cases val
      · exact (bit_regClr p .lat .lat s b).trans (if_pos ⟨rfl, hp⟩)
      · exact (bit_regSet p .lat .lat s b).trans (if_pos ⟨rfl, hp⟩)
    | toggle pin =>
      have hwrites := exec_eq_writes board (.toggle pin) s
      have hlist : (DigitalCall.toggle pin).writes board =
          [⟨p.gpio, .lat, .inv, p.mask.setWidth 32⟩] := by
        unfold DigitalCall.writes
        rw [hpin]
        rfl
      obtain ⟨hgpio, hmask⟩ := (mask_covers p b).mpr hp
      rw [hwrites, hlist, List.foldl_cons, List.foldl_nil, bit_portWrite, bitAfter,
        if_pos ⟨rfl, hgpio, hmask⟩]
      change (!s.bit (.lat, b)) = (s.bit (.lat, b) ^^ true)
      rw [Bool.xor_true]
  · rw [if_neg hb, exec_eq_writes, observe_foldl bit_portWrite]
    have hkeeps : ∀ ws : List PortWrite, (∀ w ∈ ws, w ∈ c.writes board) → ∀ v,
        ws.foldl (fun v w => bitAfter w (.lat, b) v) v = v := by
      intro ws
      induction ws with
      | nil => exact fun _ _ => rfl
      | cons w ws ih =>
        intro hws v
        obtain ⟨hw, hws⟩ := List.forall_mem_cons.mp hws
        rw [List.foldl_cons, bitAfter_of_not_covers hw hb, ih hws]
    exact hkeeps _ (fun w hw => hw) _

/-- The latch of a pin holds the last level that was put on it, turned over by every toggle since.
-/
lemma bit_runDigital_lat (calls : List DigitalCall) (s : Pins κ) (b : PortBit) :
    (runDigital board calls s).bit (.lat, b) =
      ((DigitalCall.lastLevel board calls b).getD (s.bit (.lat, b)) ^^
        decide (DigitalCall.togglesSince board calls b % 2 = 1)) := by
  induction calls using List.reverseRecOn with
  | nil =>
    change s.bit (.lat, b) = (s.bit (.lat, b) ^^ false)
    rw [Bool.xor_false]
  | append_singleton calls c ih =>
    have hrun : runDigital board (calls ++ [c]) s = c.exec board (runDigital board calls s) := by
      unfold runDigital
      rw [List.foldl_append]
      rfl
    unfold DigitalCall.lastLevel DigitalCall.togglesSince at ih ⊢
    rw [hrun, bit_exec_lat, Cells.last_concat, List.reverse_append, List.reverse_singleton,
      List.singleton_append, List.takeWhile_cons]
    by_cases hb : c.Covers board b
    · rw [if_pos hb, if_pos hb]
      cases hlevel : c.level with
      | some v =>
        simp [hb]
      | none =>
        rw [Option.getD_none, ih, Option.none_or, if_pos (by simp), List.countP_cons]
        generalize ((calls.reverse.takeWhile _).countP _) = n
        cases c.isToggle with
        | false => simp [hb]
        | true =>
          have hparity : decide ((n + 1) % 2 = 1) = !decide (n % 2 = 1) := by
            rw [← decide_not]
            exact decide_eq_decide.mpr (by omega)
          rw [if_pos (by simp [hb]), hparity, Bool.xor_true, Bool.xor_not]
    · rw [if_neg hb, if_neg hb, ih, Option.none_or, if_pos (by simp [hb]), List.countP_cons]
      simp [hb]

/-- Programs whose calls are all among their steps, in any order of the single register writes. -/
def RunsCalls [DecidableEq ι] (board : Board) (calls : ι → List DigitalCall)
    (run : List (ι × PortWrite)) : Prop :=
  ∀ i, programOf i run = (calls i).flatMap (DigitalCall.writes board)

/-- Only the program `i` has a pin with this bit. -/
def Owns (board : Board) (calls : ι → List DigitalCall) (i : ι) (b : PortBit) : Prop :=
  ∀ j ≠ i, ∀ c ∈ calls j, ¬c.Covers board b

/-- The sketch, its interrupts and its tasks write to the pins without critical sections, and a bit
that one of them owns is not disturbed by the others: every register bit of its pins ends as if the
owner had run alone, and the latch with the last level and the toggles since. -/
theorem interleaved_writes_keep_pins [DecidableEq ι] {calls : ι → List DigitalCall}
    {run : List (ι × PortWrite)} (hrun : RunsCalls board calls run) (s : Pins κ) {i : ι}
    {b : PortBit} (howns : Owns board calls i b) :
    (∀ r, ((steps run).foldl portWrite s).bit (r, b) =
      (runDigital board (calls i) s).bit (r, b)) ∧
    ((steps run).foldl portWrite s).bit (.lat, b) =
      ((DigitalCall.lastLevel board (calls i) b).getD (s.bit (.lat, b)) ^^
        decide (DigitalCall.togglesSince board (calls i) b % 2 = 1)) := by
  have halone : ∀ r, ((steps run).foldl portWrite s).bit (r, b) =
      (runDigital board (calls i) s).bit (r, b) := by
    intro r
    rw [runDigital_eq_writes, ← hrun i]
    apply observe_run bit_portWrite
    intro step hstep hne v
    have hmem : step.2 ∈ programOf step.1 run :=
      List.mem_map_of_mem (List.mem_filter.mpr ⟨hstep, decide_eq_true rfl⟩)
    rw [hrun step.1] at hmem
    obtain ⟨c, hc, hw⟩ := List.mem_flatMap.mp hmem
    exact bitAfter_of_not_covers hw (howns step.1 hne c hc) v
  exact ⟨halone, (halone .lat).trans (bit_runDigital_lat (calls i) s b)⟩

/-- A sketch sets up and toggles the first LED, and its interrupt switches on the second one, whose
pin is in the same port. -/
def ledCalls (isr : Bool) : List DigitalCall :=
  if isr then [.write 1 true] else [.mode 0 .outputHigh, .toggle 0]

/-- The interrupt comes in the middle of `pinMode`, behind four of its five writes. -/
def ledRun : List (Bool × PortWrite) :=
  let sketch := (ledCalls false).flatMap (DigitalCall.writes EFM100.board)
  let isr := (ledCalls true).flatMap (DigitalCall.writes EFM100.board)
  (sketch.take 4).map (Prod.mk false) ++ isr.map (Prod.mk true) ++
    (sketch.drop 4).map (Prod.mk false)

/-- The second LED is on, and the first one is off again. -/
theorem interleaved_writes_keep_two_leds :
    ((steps ledRun).foldl portWrite EFM100.idle).bit (.lat, 4, 4) = false ∧
      ((steps ledRun).foldl portWrite EFM100.idle).bit (.lat, 4, 3) = true := by
  have hrun : RunsCalls EFM100.board ledCalls ledRun := by
    intro isr
    cases isr <;> rfl
  have hsketch : Owns EFM100.board ledCalls false (4, 4) := by
    intro isr hne
    cases isr with
    | false => exact absurd rfl hne
    | true => decide
  have hisr : Owns EFM100.board ledCalls true (4, 3) := by
    intro isr hne
    cases isr with
    | false => decide
    | true => exact absurd rfl hne
  rw [(interleaved_writes_keep_pins hrun EFM100.idle hsketch).2,
    (interleaved_writes_keep_pins hrun EFM100.idle hisr).2]
  decide

end Pins

end FrameworkXC32
