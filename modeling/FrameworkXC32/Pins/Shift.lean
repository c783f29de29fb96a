import FrameworkXC32.Pins.Digital

/-!
# `shiftOut` and `shiftIn`

The two loops of `wiring_shift.c`, with whatever is connected to the pins: it sees every write, and
decides what the PORT registers show. A chain of shift registers takes a bit in on every rising edge
of the clock and shows its last cell; `shiftIn` raises the clock before it reads, so that the bit
that the chain shows when it is called is not read.
-/

namespace FrameworkXC32
open Machine

/-- `LSBFIRST`, for the two loops. -/
def shiftLsbFirst : Word := 0

namespace Pins

section Loops

variable {κ δ : Type} (board : Board) (sees : Pins κ → δ → δ) (port : δ → Gpio → Word)

/-- `digitalWrite`, and what is connected sees it. -/
def drive (pin : ℕ) (val : Bool) (s : Pins κ × δ) : Pins κ × δ :=
  let pins := s.1.digitalWrite board pin val
  (pins, sees pins s.2)

/-- The place of the bit of turn `i` in a byte. -/
def place (bitOrder : Word) (i : ℕ) : ℕ := if bitOrder = shiftLsbFirst then i else 7 - i

/-- The loop of `shiftOut` from turn `i` on, with the number of turns that are left. -/
def shiftOutLoop (dataPin clockPin : ℕ) (bitOrder val : Word) :
    ℕ → ℕ → Pins κ × δ → Pins κ × δ
  | 0, _, s => s
  | turns + 1, i, s =>
    let s := drive board sees dataPin (val &&& (1 : Word) <<< place bitOrder i != 0) s
    let s := drive board sees clockPin true s
    let s := drive board sees clockPin false s
    shiftOutLoop dataPin clockPin bitOrder val turns (i + 1) s

def shiftOut (dataPin clockPin : ℕ) (bitOrder val : Word) (s : Pins κ × δ) : Pins κ × δ :=
  shiftOutLoop board sees dataPin clockPin bitOrder val 8 0 s

/-- The loop of `shiftIn` from turn `i` on. -/
def shiftInLoop (dataPin clockPin : ℕ) (bitOrder : Word) :
    ℕ → ℕ → Word → Pins κ × δ → Word × (Pins κ × δ)
  | 0, _, value, s => (value, s)
  | turns + 1, i, value, s =>
    let s := drive board sees clockPin true s
    let bit : Word := BitVec.ofInt 32 (digitalRead board (port s.2) dataPin)
    let value := value ||| bit <<< place bitOrder i
    let s := drive board sees clockPin false s
    shiftInLoop dataPin clockPin bitOrder turns (i + 1) value s

def shiftIn (dataPin clockPin : ℕ) (bitOrder : Word) (s : Pins κ × δ) : Word × (Pins κ × δ) :=
  shiftInLoop board sees port dataPin clockPin bitOrder 8 0 0 s

end Loops

end Pins

/-! ### A chain of shift registers -/

/-- The level of the clock, and the cells, the last one first. -/
structure ShiftChain where
  clock : Bool
  cells : List Bool
deriving DecidableEq, Repr

/-- The output is the last cell. -/
def ShiftChain.out (d : ShiftChain) : Bool := d.cells.headD false

/-- On a rising edge every bit moves on, the one in the last cell is gone, and the level of the data
line comes in. -/
def ShiftChain.sees (clock data : Bool) (d : ShiftChain) : ShiftChain :=
  if clock && !d.clock then ⟨true, (d.cells ++ [data]).tail⟩ else { d with clock := clock }

namespace Pins

/-- The bits of a byte as the loops take them. -/
def bitsOf (bitOrder val : Word) : List Bool :=
  (List.range 8).map fun i => val.getLsbD (place bitOrder i)

lemma getElem?_bitsOf (bitOrder val : Word) (k : ℕ) :
    (bitsOf bitOrder val)[k]? = if k < 8 then some (val.getLsbD (place bitOrder k)) else none := by
  unfold bitsOf
  rw [List.getElem?_map]
  by_cases h : k < 8
  · rw [List.getElem?_range h, if_pos h]
    rfl
  · rw [List.getElem?_eq_none (by rw [List.length_range]; omega), if_neg h]
    rfl

/-- What `shiftIn` makes of bits, from turn `i` on. -/
def gather (bitOrder : Word) : ℕ → List Bool → Word → Word
  | _, [], value => value
  | i, b :: bits, value =>
    gather bitOrder (i + 1) bits (value ||| (if b then 1 else 0 : Word) <<< place bitOrder i)

lemma place_lt (bitOrder : Word) {i : ℕ} (hi : i < 8) : place bitOrder i < 8 := by
  unfold place
  split <;> omega

lemma getLsbD_gather (bitOrder : Word) (bits : List Bool) (i : ℕ) (value : Word) (j : ℕ)
    (hi : i + bits.length ≤ 8) : (gather bitOrder i bits value).getLsbD j = true ↔
      value.getLsbD j = true ∨ ∃ k, bits[k]? = some true ∧ place bitOrder (i + k) = j := by
  induction bits generalizing i value with
  | nil => simp [gather]
  | cons b bits ih =>
    rw [List.length_cons] at hi
    have hplace : place bitOrder i < 32 := (place_lt bitOrder (by omega)).trans (by decide)
    rw [gather, ih (i + 1) _ (by omega), getLsbD_or_flag hplace, Bool.or_eq_true, Bool.and_eq_true,
      decide_eq_true_iff, or_assoc]
    apply or_congr_right
    constructor
    · rintro (⟨hb, hplace⟩ | ⟨k, hk, hplace⟩)
      · exact ⟨0, congrArg some hb, hplace.symm⟩
      · refine ⟨k + 1, hk, ?_⟩
        rwa [Nat.add_right_comm] at hplace
    · rintro ⟨k, hk, hplace⟩
      cases k with
      | zero => exact .inl ⟨Option.some.inj hk, hplace.symm⟩
      | succ k =>
        refine .inr ⟨k, hk, ?_⟩
        rwa [Nat.add_right_comm]

lemma place_place (bitOrder bitOrder' : Word) {i : ℕ} (hi : i < 8) :
    place bitOrder (place bitOrder' i) =
      if (bitOrder = shiftLsbFirst ↔ bitOrder' = shiftLsbFirst) then i else 7 - i := by
  unfold place
  by_cases h : bitOrder = shiftLsbFirst
  · by_cases h' : bitOrder' = shiftLsbFirst
    · simp [h, h']
    · simp [h, h']
  · by_cases h' : bitOrder' = shiftLsbFirst
    · simp [h, h']
    · simp [h, h']
      omega

/-- What comes in for a byte that went out, each in its own order. -/
def echo (bitOrder bitOrder' val : Word) : Word :=
  if (bitOrder = shiftLsbFirst ↔ bitOrder' = shiftLsbFirst) then (val.setWidth 8).setWidth 32
  else (val.setWidth 8).reverse.setWidth 32

lemma getLsbD_echo (bitOrder bitOrder' val : Word) {j : ℕ} (hj : j < 32) :
    (echo bitOrder bitOrder' val).getLsbD j = true ↔
      j < 8 ∧ val.getLsbD (place bitOrder (place bitOrder' j)) = true := by
  have hreverse : ∀ v : BitVec 8, j < 8 → v.reverse.getLsbD j = v.getLsbD (7 - j) := by
    intro v hlt
    rw [BitVec.getLsbD_reverse, BitVec.getMsbD, decide_eq_true hlt, Bool.true_and]
  unfold echo
  by_cases hlt : j < 8
  · rw [place_place bitOrder bitOrder' hlt, and_iff_right hlt]
    split
    · simp [hj, hlt]
    · rw [BitVec.getLsbD_setWidth, hreverse _ hlt, BitVec.getLsbD_setWidth]
      simp [hj, show 7 - j < 8 by omega]
  · have hge : ∀ v : BitVec 8, v.getLsbD j = false := fun v => BitVec.getLsbD_of_ge v j (by omega)
    split <;> rw [BitVec.getLsbD_setWidth, hge] <;> simp [hlt]

lemma gather_bitsOf (bitOrder bitOrder' val : Word) :
    gather bitOrder' 0 (bitsOf bitOrder val) 0 = echo bitOrder bitOrder' val := by
  ext j hj
  rw [← BitVec.getLsbD_eq_getElem, ← BitVec.getLsbD_eq_getElem, Bool.eq_iff_iff,
    getLsbD_gather bitOrder' _ 0 0 j (by rw [bitsOf, List.length_map, List.length_range]),
    getLsbD_echo bitOrder bitOrder' val hj]
  constructor
  · rintro (hzero | ⟨k, hk, rfl⟩)
    · simp at hzero
    · rw [getElem?_bitsOf] at hk
      split at hk
      · next hk8 =>
        rw [Nat.zero_add, place_place bitOrder' bitOrder' hk8, if_pos Iff.rfl]
        exact ⟨place_lt bitOrder' hk8, Option.some.inj hk⟩
      · cases hk
  · rintro ⟨hj8, hbit⟩
    refine .inr ⟨place bitOrder' j, ?_, ?_⟩
    · rw [getElem?_bitsOf, if_pos (place_lt bitOrder' hj8), hbit]
    · rw [Nat.zero_add, place_place bitOrder' bitOrder' hj8, if_pos Iff.rfl]

/-- What as many calls of `shiftIn` make of bits. -/
def bytesOf (bitOrder : Word) : ℕ → List Bool → List Word
  | 0, _ => []
  | n + 1, bits => gather bitOrder 0 (bits.take 8) 0 :: bytesOf bitOrder n (bits.drop 8)

lemma bytesOf_append (bitOrder : Word) {n : ℕ} {bits : List Bool} (h : bits.length = 8 * n)
    (more : List Bool) : bytesOf bitOrder n (bits ++ more) = bytesOf bitOrder n bits := by
  induction n generalizing bits with
  | zero => rfl
  | succ n ih =>
    have hrest : (bits.drop 8).length = 8 * n := by
      rw [List.length_drop]
      omega
    rw [bytesOf, bytesOf, List.take_append_of_le_length (by omega),
      List.drop_append_of_le_length (by omega), ih hrest]

lemma length_bitsOf (bitOrder val : Word) : (bitsOf bitOrder val).length = 8 := by
  rw [bitsOf, List.length_map, List.length_range]

lemma place_inj (bitOrder : Word) {i k : ℕ} (hi : i < 8) (hk : k < 8)
    (h : place bitOrder i = place bitOrder k) : i = k := by
  have hplace := congrArg (place bitOrder) h
  rwa [place_place bitOrder bitOrder hi, place_place bitOrder bitOrder hk, if_pos Iff.rfl,
    if_pos Iff.rfl] at hplace

lemma bitsOf_gather (bitOrder : Word) {bits : List Bool} (h : bits.length = 8) :
    bitsOf bitOrder (gather bitOrder 0 bits 0) = bits ∧ (gather bitOrder 0 bits 0).toNat < 256 := by
  have hlt : ∀ k, bits[k]? = some true → k < 8 := by
    intro k hk
    rw [← h]
    exact (List.getElem?_eq_some_iff.mp hk).1
  have hbits : ∀ j, (gather bitOrder 0 bits 0).getLsbD j = true ↔
      ∃ k, bits[k]? = some true ∧ place bitOrder k = j := by
    intro j
    have hj := getLsbD_gather bitOrder bits 0 0 j (by omega)
    simpa using hj
  constructor
  · apply List.ext_getElem?
    intro k
    rw [getElem?_bitsOf]
    by_cases hk : k < 8
    · rw [if_pos hk, List.getElem?_eq_getElem (by omega)]
      apply congrArg some
      rw [Bool.eq_iff_iff, hbits]
      constructor
      · rintro ⟨k', hk', hplace⟩
        obtain rfl := place_inj bitOrder (hlt k' hk') hk hplace
        exact (List.getElem?_eq_some_iff.mp hk').2
      · intro hbit
        exact ⟨k, List.getElem?_eq_some_iff.mpr ⟨by omega, hbit⟩, rfl⟩
    · rw [if_neg hk, List.getElem?_eq_none (by omega)]
  · apply Nat.lt_pow_two_of_testBit (n := 8)
    intro j hj
    rw [BitVec.testBit_toNat, Bool.eq_false_iff]
    intro hbit
    obtain ⟨k, hk, rfl⟩ := (hbits j).mp hbit
    exact absurd (place_lt bitOrder (hlt k hk)) (by omega)

lemma flatMap_bytesOf (bitOrder : Word) {n : ℕ} {bits : List Bool} (h : bits.length = 8 * n) :
    (bytesOf bitOrder n bits).flatMap (bitsOf bitOrder) = bits ∧
      ∀ v ∈ bytesOf bitOrder n bits, v.toNat < 256 := by
  induction n generalizing bits with
  | zero =>
    rw [List.length_eq_zero_iff.mp h]
    exact ⟨rfl, fun v hv => absurd hv List.not_mem_nil⟩
  | succ n ih =>
    have htake : (bits.take 8).length = 8 := by
      rw [List.length_take]
      omega
    have hdrop : (bits.drop 8).length = 8 * n := by
      rw [List.length_drop]
      omega
    obtain ⟨hfirst, hlt⟩ := bitsOf_gather bitOrder htake
    obtain ⟨hrest, hall⟩ := ih hdrop
    rw [bytesOf, List.flatMap_cons, hfirst, hrest, List.take_append_drop, List.forall_mem_cons]
    exact ⟨rfl, hlt, hall⟩

lemma length_flatMap_bitsOf (bitOrder : Word) (vals : List Word) :
    (vals.flatMap (bitsOf bitOrder)).length = 8 * vals.length := by
  induction vals with
  | nil => rfl
  | cons val vals ih =>
    rw [List.flatMap_cons, List.length_append, length_bitsOf, ih, List.length_cons]
    omega

lemma bytesOf_bitsOf (bitOrder bitOrder' : Word) (vals : List Word) :
    bytesOf bitOrder' vals.length (vals.flatMap (bitsOf bitOrder)) =
      vals.map (echo bitOrder bitOrder') := by
  induction vals with
  | nil => rfl
  | cons val vals ih =>
    have hbits := length_bitsOf bitOrder val
    rw [List.flatMap_cons, List.length_cons, bytesOf, List.take_left' hbits,
      List.drop_left' hbits, gather_bitsOf, ih, List.map_cons]

/-! ### The chain on the pins -/

/-- Two pins drive the lines of the chain, each over a bit of its own, and a third one shows the
output. -/
structure Wiring (board : Board) where
  dataPin : ℕ
  clockPin : ℕ
  inPin : ℕ
  data : PortBit
  clock : PortBit
  port : ShiftChain → Gpio → Word
  data_covers : (DigitalCall.write dataPin true).Covers board data
  clock_covers : (DigitalCall.write clockPin true).Covers board clock
  data_apart : ¬(DigitalCall.write dataPin true).Covers board clock
  clock_apart : ¬(DigitalCall.write clockPin true).Covers board data
  reads : ∀ d, digitalRead board (port d) inPin = if d.out then 1 else 0

namespace Wiring

variable {κ : Type} {board : Board} (w : Wiring board)

def sees (pins : Pins κ) (d : ShiftChain) : ShiftChain :=
  d.sees (pins.bit (.lat, w.clock)) (pins.bit (.lat, w.data))

/-- The clock is low, and the chain has seen it. -/
structure Quiet (s : Pins κ × ShiftChain) : Prop where
  clock : s.1.bit (.lat, w.clock) = false
  seen : s.2.clock = false

lemma bit_drive_data (v : Bool) (s : Pins κ × ShiftChain) :
    (drive board w.sees w.dataPin v s).1.bit (.lat, w.data) = v ∧
      (drive board w.sees w.dataPin v s).1.bit (.lat, w.clock) = s.1.bit (.lat, w.clock) :=
  ⟨(bit_exec_lat (.write w.dataPin v) s.1 w.data).trans (if_pos w.data_covers),
    (bit_exec_lat (.write w.dataPin v) s.1 w.clock).trans (if_neg w.data_apart)⟩

lemma bit_drive_clock (v : Bool) (s : Pins κ × ShiftChain) :
    (drive board w.sees w.clockPin v s).1.bit (.lat, w.clock) = v ∧
      (drive board w.sees w.clockPin v s).1.bit (.lat, w.data) = s.1.bit (.lat, w.data) :=
  ⟨(bit_exec_lat (.write w.clockPin v) s.1 w.clock).trans (if_pos w.clock_covers),
    (bit_exec_lat (.write w.clockPin v) s.1 w.data).trans (if_neg w.clock_apart)⟩

lemma drive_data (v : Bool) {s : Pins κ × ShiftChain} (h : w.Quiet s) :
    w.Quiet (drive board w.sees w.dataPin v s) ∧
      (drive board w.sees w.dataPin v s).2 = s.2 := by
  obtain ⟨-, hclock⟩ := w.bit_drive_data v s
  have hchain : (drive board w.sees w.dataPin v s).2 = s.2 := by
    change s.2.sees ((drive board w.sees w.dataPin v s).1.bit (.lat, w.clock)) _ = s.2
    rw [hclock, h.clock, ShiftChain.sees, Bool.false_and, if_neg Bool.false_ne_true]
    cases hs : s.2
    have hseen := h.seen
    rw [hs] at hseen
    rw [← hseen]
  exact ⟨⟨hclock.trans h.clock, hchain ▸ h.seen⟩, hchain⟩

lemma drive_up {s : Pins κ × ShiftChain} (h : w.Quiet s) :
    (drive board w.sees w.clockPin true s).2 =
      ⟨true, (s.2.cells ++ [s.1.bit (.lat, w.data)]).tail⟩ := by
  obtain ⟨hclock, hdata⟩ := w.bit_drive_clock true s
  change s.2.sees ((drive board w.sees w.clockPin true s).1.bit (.lat, w.clock))
    ((drive board w.sees w.clockPin true s).1.bit (.lat, w.data)) = _
  rw [hclock, hdata, ShiftChain.sees, h.seen]
  rfl

lemma drive_down (s : Pins κ × ShiftChain) :
    w.Quiet (drive board w.sees w.clockPin false s) ∧
      (drive board w.sees w.clockPin false s).2 = { s.2 with clock := false } := by
  obtain ⟨hclock, -⟩ := w.bit_drive_clock false s
  have hchain : (drive board w.sees w.clockPin false s).2 = { s.2 with clock := false } := by
    change s.2.sees ((drive board w.sees w.clockPin false s).1.bit (.lat, w.clock)) _ = _
    rw [hclock, ShiftChain.sees, Bool.false_and, if_neg Bool.false_ne_true]
  exact ⟨⟨hclock, by rw [hchain]⟩, hchain⟩

/-- The chain has taken the bits in, and the last of them stays on the data line. -/
structure Sent (bits : List Bool) (s s' : Pins κ × ShiftChain) : Prop where
  quiet : w.Quiet s'
  cells : s'.2.cells = (s.2.cells ++ bits).drop bits.length
  data : s'.1.bit (.lat, w.data) = bits.getLastD (s.1.bit (.lat, w.data))

variable {w} in
lemma Sent.append {bits bits' : List Bool} {s s' s'' : Pins κ × ShiftChain}
    (h : w.Sent bits s s') (h' : w.Sent bits' s' s'') : w.Sent (bits ++ bits') s s'' := by
  refine ⟨h'.quiet, ?_, ?_⟩
  · have hlength : bits.length ≤ (s.2.cells ++ bits).length := by
      rw [List.length_append]
      omega
    rw [h'.cells, h.cells, ← List.drop_append_of_le_length hlength, List.drop_drop,
      List.length_append, List.append_assoc]
  · rw [h'.data, h.data]
    cases bits' with
    | nil => rw [List.append_nil]; rfl
    | cons b bits' => simp [List.getLastD_eq_getLast?]

lemma sent_pulse (v : Bool) {s : Pins κ × ShiftChain} (h : w.Quiet s) :
    w.Sent [v] s (drive board w.sees w.clockPin false
      (drive board w.sees w.clockPin true (drive board w.sees w.dataPin v s))) := by
  obtain ⟨hquiet, hchain⟩ := w.drive_data v h
  obtain ⟨hquiet', hdown⟩ :=
    w.drive_down (drive board w.sees w.clockPin true (drive board w.sees w.dataPin v s))
  have hdata := (w.bit_drive_data v s).1
  refine ⟨hquiet', ?_, ?_⟩
  · rw [hdown, w.drive_up hquiet, hchain, hdata, List.length_singleton, List.drop_one]
  · rw [(w.bit_drive_clock false _).2, (w.bit_drive_clock true _).2, hdata]
    rfl

lemma sent_shiftOutLoop (bitOrder val : Word) (turns i : ℕ) {s : Pins κ × ShiftChain}
    (hi : i + turns ≤ 8) (h : w.Quiet s) :
    w.Sent ((List.range' i turns).map fun k => val.getLsbD (place bitOrder k)) s
      (shiftOutLoop board w.sees w.dataPin w.clockPin bitOrder val turns i s) := by
  induction turns generalizing i s with
  | zero => exact ⟨h, by simp [shiftOutLoop], rfl⟩
  | succ turns ih =>
    have hplace : place bitOrder i < 32 := (place_lt bitOrder (by omega)).trans (by decide)
    have hturn := w.sent_pulse (val.getLsbD (place bitOrder i)) h
    rw [List.range'_succ, List.map_cons, shiftOutLoop, and_one_shift hplace]
    exact hturn.append (ih (i + 1) (by omega) hturn.quiet)

/-- `shiftOut` of every value. -/
def shiftOutAll (bitOrder : Word) (vals : List Word) (s : Pins κ × ShiftChain) :
    Pins κ × ShiftChain :=
  vals.foldl (fun s val => shiftOut board w.sees w.dataPin w.clockPin bitOrder val s) s

lemma sent_shiftOutAll (bitOrder : Word) (vals : List Word) {s : Pins κ × ShiftChain}
    (h : w.Quiet s) : w.Sent (vals.flatMap (bitsOf bitOrder)) s (w.shiftOutAll bitOrder vals s) := by
  induction vals generalizing s with
  | nil => exact ⟨h, (List.append_nil _).symm, rfl⟩
  | cons val vals ih =>
    have hval : w.Sent (bitsOf bitOrder val) s
        (shiftOut board w.sees w.dataPin w.clockPin bitOrder val s) := by
      have hloop := w.sent_shiftOutLoop bitOrder val 8 0 le_rfl h
      rwa [← List.range_eq_range'] at hloop
    exact hval.append (ih hval.quiet)

/-- What the chain shows from now on: its cells, and then the level of the data line. -/
def ahead (edges : ℕ) (s : Pins κ × ShiftChain) : List Bool :=
  s.2.cells ++ List.replicate edges (s.1.bit (.lat, w.data))

lemma length_ahead (edges : ℕ) (s : Pins κ × ShiftChain) :
    (w.ahead edges s).length = s.2.cells.length + edges := by
  rw [ahead, List.length_append, List.length_replicate]

lemma ahead_append (k n : ℕ) (s : Pins κ × ShiftChain) :
    w.ahead (k + n) s = w.ahead k s ++ List.replicate n (s.1.bit (.lat, w.data)) := by
  rw [ahead, ahead, List.append_assoc, List.replicate_append_replicate]

lemma ahead_add {k n : ℕ} {s s' : Pins κ × ShiftChain} (hcells : s'.2.cells = (w.ahead k s).drop k)
    (hdata : s'.1.bit (.lat, w.data) = s.1.bit (.lat, w.data)) :
    w.ahead n s' = (w.ahead (k + n) s).drop k := by
  have hlength : k ≤ (w.ahead k s).length := by
    rw [length_ahead]
    omega
  rw [ahead, hcells, hdata, ahead_append, List.drop_append_of_le_length hlength]

lemma take_tail_ahead (k n : ℕ) {s : Pins κ × ShiftChain} (hchain : s.2.cells ≠ []) :
    (w.ahead (k + n) s).tail.take k = (w.ahead k s).tail.take k := by
  have hpos := List.length_pos_iff.mpr hchain
  have hlength := w.length_ahead k s
  have htail : k ≤ (w.ahead k s).tail.length := by
    rw [List.length_tail]
    omega
  rw [ahead_append, List.tail_append_of_ne_nil (List.ne_nil_of_length_pos (by omega)),
    List.take_append_of_le_length htail]

/-- A turn of `shiftIn` reads the cell that the edge has moved to the end of the chain. -/
lemma read_pulse {s : Pins κ × ShiftChain} (h : w.Quiet s) :
    let s' := drive board w.sees w.clockPin true s
    digitalRead board (w.port s'.2) w.inPin = (if (w.ahead 1 s).tail.headD false then 1 else 0) ∧
      w.Quiet (drive board w.sees w.clockPin false s') ∧
      (drive board w.sees w.clockPin false s').2.cells = (w.ahead 1 s).drop 1 ∧
      (drive board w.sees w.clockPin false s').1.bit (.lat, w.data) =
        s.1.bit (.lat, w.data) := by
  obtain ⟨hquiet, hdown⟩ := w.drive_down (drive board w.sees w.clockPin true s)
  have hup := w.drive_up h
  refine ⟨?_, hquiet, ?_, ?_⟩
  · rw [w.reads, hup]
    rfl
  · rw [hdown, hup, List.drop_one]
    rfl
  · rw [(w.bit_drive_clock false _).2, (w.bit_drive_clock true s).2]

lemma tail_ahead {s : Pins κ × ShiftChain} (hchain : s.2.cells ≠ []) :
    ∃ b bits, (w.ahead 1 s).tail = b :: bits := by
  apply List.exists_cons_of_ne_nil
  obtain ⟨c, cells, hcells⟩ := List.exists_cons_of_ne_nil hchain
  rw [ahead, hcells]
  simp

lemma shiftInLoop_eq (bitOrder : Word) (turns i : ℕ) (value : Word) {s : Pins κ × ShiftChain}
    (h : w.Quiet s) (hchain : s.2.cells ≠ []) :
    let after := shiftInLoop board w.sees w.port w.inPin w.clockPin bitOrder turns i value s
    after.1 = gather bitOrder i ((w.ahead turns s).tail.take turns) value ∧ w.Quiet after.2 ∧
      after.2.2.cells = (w.ahead turns s).drop turns ∧
      after.2.1.bit (.lat, w.data) = s.1.bit (.lat, w.data) := by
  induction turns generalizing i value s with
  | zero => exact ⟨by simp [gather, shiftInLoop], h, by simp [shiftInLoop, ahead], rfl⟩
  | succ turns ih =>
    obtain ⟨hread, hquiet, hcells, hdata⟩ := w.read_pulse h
    obtain ⟨b, bits, hahead⟩ := w.tail_ahead hchain
    rw [hahead, List.headD_cons] at hread
    rw [List.drop_one, hahead] at hcells
    have hbit : BitVec.ofInt 32 (if b then 1 else 0) = (if b then 1 else 0 : Word) := by
      cases b <;> rfl
    obtain ⟨hvalue, hquiet', hcells', hdata'⟩ := ih (i + 1)
      (value ||| (if b then 1 else 0 : Word) <<< place bitOrder i) hquiet
      (by rw [hcells]; exact List.cons_ne_nil b bits)
    have hrest := w.ahead_add (n := turns) (by rw [hcells, List.drop_one, hahead]) hdata
    have hfirst : (w.ahead (turns + 1) s).tail = b :: (w.ahead (turns + 1) s).tail.tail := by
      rw [← List.drop_one, Nat.add_comm, ← hrest, ahead, hcells]
      rfl
    rw [hrest, Nat.add_comm 1 turns] at hvalue hcells'
    rw [List.drop_drop, Nat.add_comm 1 turns] at hcells'
    rw [List.drop_one] at hvalue
    dsimp only
    rw [hfirst, List.take_succ_cons, gather, shiftInLoop, hread, hbit]
    exact ⟨hvalue, hquiet', hcells', hdata'.trans hdata⟩

/-- The values of so many calls of `shiftIn`. -/
def shiftInAll (bitOrder : Word) : ℕ → Pins κ × ShiftChain → List Word
  | 0, _ => []
  | n + 1, s =>
    let after := shiftIn board w.sees w.port w.inPin w.clockPin bitOrder s
    after.1 :: shiftInAll bitOrder n after.2

lemma shiftInAll_eq (bitOrder : Word) (n : ℕ) {s : Pins κ × ShiftChain} (h : w.Quiet s)
    (hchain : s.2.cells ≠ []) :
    w.shiftInAll bitOrder n s = bytesOf bitOrder n (w.ahead (8 * n) s).tail := by
  induction n generalizing s with
  | zero => rfl
  | succ n ih =>
    obtain ⟨hvalue, hquiet, hcells, hdata⟩ := w.shiftInLoop_eq bitOrder 8 0 0 h hchain
    have hrest := w.ahead_add (n := 8 * n) hcells hdata
    have hpos := List.length_pos_iff.mpr hchain
    have hchain' : (shiftIn board w.sees w.port w.inPin w.clockPin bitOrder s).2.2.cells ≠ [] := by
      apply List.ne_nil_of_length_pos
      change
        0 < (shiftInLoop board w.sees w.port w.inPin w.clockPin bitOrder 8 0 0 s).2.2.cells.length
      rw [hcells, List.length_drop, length_ahead]
      omega
    have hturns : 8 * (n + 1) = 8 + 8 * n := by omega
    have hdrop : (w.ahead (8 + 8 * n) s).tail.drop 8 = ((w.ahead (8 + 8 * n) s).drop 8).tail := by
      rw [← List.drop_one, ← List.drop_one, List.drop_drop, List.drop_drop]
    rw [shiftInAll, bytesOf, hturns, w.take_tail_ahead 8 (8 * n) hchain, hdrop, ← hrest,
      ← ih hquiet hchain', ← hvalue]
    rfl

end Wiring

/-- The chain on three pins of the first microBUS socket. -/
def chainWiring : Wiring EFM100.board where
  dataPin := 7
  clockPin := 8
  inPin := 9
  data := ((EFM100.pins.get ⟨7, by decide⟩).gpio, 4)
  clock := ((EFM100.pins.get ⟨8, by decide⟩).gpio, 9)
  port d _ := if d.out then 16 else 0
  data_covers := by decide
  clock_covers := by decide
  data_apart := by decide
  clock_apart := by decide
  reads d := by
    cases hout : d.out with
    | false => decide
    | true => decide

end Pins

end FrameworkXC32
