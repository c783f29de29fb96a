import FrameworkXC32.Lib.BitString
import FrameworkXC32.Spi.Configuration
import Mathlib.Tactic.IntervalCases

/-!
# Transfers over SPI

The ordinary path, which takes every word apart into bytes, against the bulk path, which switches
the port to frames of 16 bits. They are compared by the bits on the wire.
-/

namespace FrameworkXC32
open Machine BitString

def lsbFirst : Byte := 0

namespace Spi

def reverseByte (b : Byte) : Byte :=
  let b := (b &&& 0xf0) >>> 4 ||| (b &&& 0x0f) <<< 4
  let b := (b &&& 0xcc) >>> 2 ||| (b &&& 0x33) <<< 2
  (b &&& 0xaa) >>> 1 ||| (b &&& 0x55) <<< 1

-- what SPIxBUF holds when the words of a log are out
variable (received : List (Word × Word) → Word)

/-- `transfer(uint8_t)` -/
def transferByte (tx : Byte) (s : Spi) : Byte × Spi :=
  let tx := if s.bitOrder = lsbFirst.setWidth 32 then reverseByte tx else tx
  let s := s.shiftWords [tx.setWidth 32]
  let rx : Byte := (received s.buf).setWidth 8
  (if s.bitOrder = lsbFirst.setWidth 32 then reverseByte rx else rx, s)

/-- `transfer(uint16_t)`, with the bytes of its union. -/
def transferHalf (data : BitVec 16) (s : Spi) : BitVec 16 × Spi :=
  let lsb : Byte := data.setWidth 8
  let msb : Byte := (data >>> 8).setWidth 8
  if s.bitOrder = lsbFirst.setWidth 32 then
    let (lsb, s) := transferByte received lsb s
    let (msb, s) := transferByte received msb s
    (msb ++ lsb, s)
  else
    let (msb, s) := transferByte received msb s
    let (lsb, s) := transferByte received lsb s
    (msb ++ lsb, s)

/-- The loop of `transfer` over a buffer, whose results it drops. -/
def transferLoop {α : Type} (transfer : α → Spi → α × Spi) (buf : List α) (s : Spi) : Spi :=
  buf.foldl (fun s x => (transfer x s).2) s

/-- `transfer(uint16_t *, size_t)` -/
def transferHalves (buf : List (BitVec 16)) (s : Spi) : Word × Spi :=
  (BitVec.ofNat 32 buf.length, transferLoop (transferHalf received) buf s)

/-- `write(uint16_t *, size_t)` -/
def writeHalves (buf : List (BitVec 16)) (s : Spi) : Spi := (transferHalves received buf s).2

/-! ### The wire -/

/-- The bits of a frame, from MODE32 and MODE16. -/
def frameWidth (con : Word) : ℕ := if con.getLsbD 11 then 32 else if con.getLsbD 10 then 16 else 8

lemma dataWidth_eq_frameWidth (s : Spi) : s.dataWidth = frameWidth s.con := rfl

/-- The bits that the port has shifted out: for every word of the log as many of its low bits as
the width was then, the most significant one first. -/
def wire (s : Spi) : List Bool :=
  s.buf.flatMap fun frame => descending (frameWidth frame.1) frame.2

lemma wire_shiftWords (words : List Word) (s : Spi) : (s.shiftWords words).wire =
    s.wire ++ words.flatMap (descending (frameWidth s.con)) := by
  rw [wire, shiftWords, List.flatMap_append, List.flatMap_map]
  rfl

/-- The low bits of `x` in the order that `setBitOrder` asks for. -/
def inOrder {w : ℕ} (order : Word) (n : ℕ) (x : BitVec w) : List Bool :=
  if order = lsbFirst.setWidth 32 then ascending n x else descending n x

/-- The three swaps, of halves, of pairs and of single bits, turn the byte around. -/
lemma getLsbD_reverseByte (b : Byte) {i : ℕ} (hi : i < 8) :
    (reverseByte b).getLsbD i = b.getLsbD (7 - i) := by
  interval_cases i <;> simp [reverseByte]

lemma descending_reverseByte (b : Byte) : descending 8 (reverseByte b) = ascending 8 b :=
  descending_eq_ascending fun _ hi => getLsbD_reverseByte b hi

lemma inOrder_halves (order : Word) (data : BitVec 16) : inOrder order 16 data =
    if order = lsbFirst.setWidth 32 then
      inOrder order 8 (data.setWidth 8 : Byte) ++ inOrder order 8 ((data >>> 8).setWidth 8 : Byte)
    else
      inOrder order 8 ((data >>> 8).setWidth 8 : Byte) ++
        inOrder order 8 (data.setWidth 8 : Byte) := by
  have hlow : ∀ i < 8, data.getLsbD i = (data.setWidth 8 : Byte).getLsbD i := by
    intro i hi
    simp [hi]
  have hhigh : ∀ i < 8, (data >>> 8).getLsbD i = ((data >>> 8).setWidth 8 : Byte).getLsbD i := by
    intro i hi
    simp [hi]
  unfold inOrder
  by_cases horder : order = lsbFirst.setWidth 32
  · rw [if_pos horder, if_pos horder, if_pos horder, if_pos horder, ascending_add 8 8,
      ascending_congr hlow, ascending_congr hhigh]
  · rw [if_neg horder, if_neg horder, if_neg horder, if_neg horder, descending_add 8 8,
      descending_congr hlow, descending_congr hhigh]

/-- A step of the port that puts bits on the wire and leaves its settings. -/
structure Sends (bits : List Bool) (s t : Spi) : Prop where
  con : t.con = s.con
  bitOrder : t.bitOrder = s.bitOrder
  wire : t.wire = s.wire ++ bits

lemma Sends.refl (s : Spi) : Sends [] s s := ⟨rfl, rfl, (List.append_nil _).symm⟩

lemma Sends.trans {bits bits' : List Bool} {s t u : Spi} (h : Sends bits s t)
    (h' : Sends bits' t u) : Sends (bits ++ bits') s u where
  con := h'.con.trans h.con
  bitOrder := h'.bitOrder.trans h.bitOrder
  wire := by rw [h'.wire, h.wire, List.append_assoc]

lemma transferByte_sends {s : Spi} (hwidth : frameWidth s.con = 8) (tx : Byte) :
    Sends (inOrder s.bitOrder 8 tx) s (transferByte received tx s).2 := by
  have hwide : ∀ b : Byte, descending 8 (b.setWidth 32) = descending 8 b := by
    intro b
    apply descending_congr
    intro i hi
    simp
    omega
  constructor
  · rfl
  · rfl
  · unfold transferByte
    dsimp only
    rw [wire_shiftWords, hwidth, List.flatMap_singleton, hwide, inOrder]
    by_cases horder : s.bitOrder = lsbFirst.setWidth 32
    · rw [if_pos horder, if_pos horder, descending_reverseByte]
    · rw [if_neg horder, if_neg horder]

lemma transferHalf_sends {s : Spi} (hwidth : frameWidth s.con = 8) (data : BitVec 16) :
    Sends (inOrder s.bitOrder 16 data) s (transferHalf received data s).2 := by
  have hboth : ∀ x y : Byte, Sends (inOrder s.bitOrder 8 x ++ inOrder s.bitOrder 8 y) s
      (transferByte received y (transferByte received x s).2).2 := by
    intro x y
    have hx := transferByte_sends received hwidth x
    have hy := transferByte_sends received (hx.con.symm ▸ hwidth) y
    rw [hx.bitOrder] at hy
    exact hx.trans hy
  unfold transferHalf
  rw [inOrder_halves]
  by_cases horder : s.bitOrder = lsbFirst.setWidth 32
  · rw [if_pos horder, if_pos horder]
    exact hboth _ _
  · rw [if_neg horder, if_neg horder]
    exact hboth _ _

lemma transferLoop_sends {α : Type} {transfer : α → Spi → α × Spi} {n : ℕ} {order : Word}
    {bits : α → List Bool}
    (hturn : ∀ s, frameWidth s.con = n → s.bitOrder = order → ∀ x, Sends (bits x) s (transfer x s).2)
    (buf : List α) {s : Spi} (hwidth : frameWidth s.con = n) (horder : s.bitOrder = order) :
    Sends (buf.flatMap bits) s (transferLoop transfer buf s) := by
  induction buf generalizing s with
  | nil => exact Sends.refl s
  | cons x buf ih =>
    have hx := hturn s hwidth horder x
    exact hx.trans (ih (hx.con.symm ▸ hwidth) (hx.bitOrder.trans horder))

lemma writeHalves_sends (buf : List (BitVec 16)) {s : Spi} (hwidth : frameWidth s.con = 8) :
    Sends (buf.flatMap (inOrder s.bitOrder 16)) s (writeHalves received buf s) := by
  apply transferLoop_sends _ buf hwidth rfl
  intro t ht horder data
  rw [← horder]
  exact transferHalf_sends received ht data

lemma frameWidth_mode16 (con : Word) : frameWidth (con &&& ~~~spiWidth ||| spiMode16) = 16 := by
  have h11 : (con &&& ~~~spiWidth ||| spiMode16).getLsbD 11 = false := by
    simp [spiWidth, spiMode16]
  have h10 : (con &&& ~~~spiWidth ||| spiMode16).getLsbD 10 = true := by
    simp [spiMode16]
  rw [frameWidth, h11, h10]
  rfl

/-- The bulk path sends the low 16 bits of its words, the most significant one first, whatever the
order and the width of the port are. -/
lemma bulk_sends (data : List Word) (s : Spi) :
    Sends (data.flatMap (descending 16)) s (s.bulk data) where
  con := rfl
  bitOrder := rfl
  wire := by
    have hwire := wire_shiftWords data (s.withCon (s.con &&& ~~~spiWidth ||| spiMode16))
    have hwidth : frameWidth (s.withCon (s.con &&& ~~~spiWidth ||| spiMode16)).con = 16 :=
      frameWidth_mode16 s.con
    rw [hwidth] at hwire
    exact hwire

/-- `fillColor` and `drawImage` put the bits on the wire that `write` does for the same words, 16
for each of them with the most significant one first, and leave SPIxCON as it was. -/
theorem bulk_same_wire (data : List (BitVec 16)) (size : ℕ) (color : Word) (s : Spi)
    (horder : s.bitOrder = msbFirst.setWidth 32) (hwidth : s.dataWidth = 8) :
    ((s.drawImage data).wire = (s.writeHalves received data).wire ∧
      (s.drawImage data).wire = s.wire ++ data.flatMap (descending 16) ∧
      (s.drawImage data).con = s.con) ∧
    (s.fillColor size color).wire =
        (s.writeHalves received (List.replicate size (color.setWidth 16))).wire ∧
      (s.fillColor size color).wire =
        s.wire ++ (List.replicate size color).flatMap (descending 16) ∧
      (s.fillColor size color).con = s.con := by
  rw [dataWidth_eq_frameWidth] at hwidth
  have hdescending : ∀ buf : List (BitVec 16),
      (s.writeHalves received buf).wire = s.wire ++ buf.flatMap (descending 16) := by
    intro buf
    have hbits : ∀ x : BitVec 16, inOrder s.bitOrder 16 x = descending 16 x := by
      intro x
      rw [inOrder, horder]
      rfl
    rw [(writeHalves_sends received buf hwidth).wire, funext hbits]
  have hlow : ∀ (x : BitVec 16), descending 16 (x.setWidth 32) = descending 16 x := by
    intro x
    apply descending_congr
    intro i hi
    simp
    omega
  have hcolor : descending 16 (color.setWidth 16) = descending 16 color := by
    apply descending_congr
    intro i hi
    simp [hi]
  have himage : (s.drawImage data).wire = s.wire ++ data.flatMap (descending 16) := by
    rw [drawImage, (bulk_sends _ s).wire, List.flatMap_map, funext hlow]
  have hfill : (s.fillColor size color).wire =
      s.wire ++ (List.replicate size color).flatMap (descending 16) := (bulk_sends _ s).wire
  refine ⟨⟨?_, himage, rfl⟩, ?_, hfill, rfl⟩
  · rw [hdescending, himage]
  · rw [hdescending, hfill, List.flatMap_replicate, List.flatMap_replicate, hcolor]

/-- A port with the settings that `begin` leaves. -/
def openPort : Spi where
  mode := -1
  brgHz := 1000000
  bitOrder := 1
  bitSize := 8
  con := spiOnMsten
  sta := 0
  brg := 49
  buf := []
  cpu := spiCpu

/-- Two pixels, and the same colour three times. -/
theorem bulk_same_wire_of_two :
    ((openPort.drawImage [0xf800, 0x07e0]).wire =
        (openPort.writeHalves (fun _ => 0) [0xf800, 0x07e0]).wire ∧
      (openPort.drawImage [0xf800, 0x07e0]).wire =
        openPort.wire ++ [0xf800, 0x07e0].flatMap (descending (w := 16) 16) ∧
      (openPort.drawImage [0xf800, 0x07e0]).con = openPort.con) ∧
    (openPort.fillColor 3 0x1234f800).wire =
        (openPort.writeHalves (fun _ => 0)
          (List.replicate 3 ((0x1234f800 : Word).setWidth 16))).wire ∧
      (openPort.fillColor 3 0x1234f800).wire =
        openPort.wire ++ (List.replicate 3 (0x1234f800 : Word)).flatMap (descending 16) ∧
      (openPort.fillColor 3 0x1234f800).con = openPort.con :=
  bulk_same_wire (fun _ => 0) [0xf800, 0x07e0] 3 0x1234f800 openPort rfl (by decide)

end Spi

end FrameworkXC32
