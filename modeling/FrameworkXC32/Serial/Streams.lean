import FrameworkXC32.Pins.Board
import FrameworkXC32.Serial.Buffer
import FrameworkXC32.Serial.Usb
import FrameworkXC32.Wire.Model

/-!
# The stream classes

`Uart`, `SoftwareSerial`, `TwoWire` and `SerialUSB` under the one contract of `Stream`.
-/

namespace FrameworkXC32
open Machine

/-! ### `Uart` -/

structure Uart where
  irq : ℕ
  rxBuffer : RingBuffer
  regs : Irq

namespace Uart

/-- A call of the ring buffer with the receive interrupt masked. -/
def masked (f : RingBuffer → ℤ × RingBuffer) (u : Uart) : ℤ × Uart :=
  let regs := u.regs.disable u.irq
  let (c, rxBuffer) := f u.rxBuffer
  (c, { u with rxBuffer := rxBuffer, regs := regs.enable u.irq })

def stream : Stream Uart where
  available := fun u => (u.rxBuffer.available, u)
  read := masked fun r => r.readChar
  peek := masked fun r => (r.peek, r)

lemma delivers : stream.Delivers fun u l => u.rxBuffer.contents = l := by
  rintro u l rfl call
  cases call with
  | available => exact ⟨u.rxBuffer.available_eq, rfl⟩
  | read => exact u.rxBuffer.readChar_eq
  | peek => exact ⟨u.rxBuffer.peek_eq, rfl⟩

end Uart

/-! ### `TwoWire` -/

namespace TwoWire

def stream : Stream TwoWire where
  available := fun w => (w.rx.available, w)
  read := fun w => (w.rx.readChar.1, { w with rx := w.rx.readChar.2 })
  peek := fun w => (w.rx.peek, w)

lemma delivers : stream.Delivers fun w l => w.rx.contents = l := by
  rintro w l rfl call
  cases call with
  | available => exact ⟨w.rx.available_eq, rfl⟩
  | read => exact w.rx.readChar_eq
  | peek => exact ⟨w.rx.peek_eq, rfl⟩

end TwoWire

/-! ### All of them -/

/-- An object of one of the classes that derive from `Stream`. -/
inductive StreamObject
  | uart (u : Uart)
  | softwareSerial (s : SoftwareSerial)
  | twoWire (w : TwoWire)
  | serialUsb (s : SerialUsb)

namespace StreamObject

/-- A call of a virtual function. -/
def dispatch (uart : Uart → ℤ × Uart) (softwareSerial : SoftwareSerial → ℤ × SoftwareSerial)
    (twoWire : TwoWire → ℤ × TwoWire) (serialUsb : SerialUsb → ℤ × SerialUsb) :
    StreamObject → ℤ × StreamObject
  | .uart u => (uart u).map id .uart
  | .softwareSerial s => (softwareSerial s).map id .softwareSerial
  | .twoWire w => (twoWire w).map id .twoWire
  | .serialUsb s => (serialUsb s).map id .serialUsb

def stream : Stream StreamObject where
  available := dispatch Uart.stream.available SoftwareSerial.stream.available
    TwoWire.stream.available SerialUsb.stream.available
  read := dispatch Uart.stream.read SoftwareSerial.stream.read TwoWire.stream.read
    SerialUsb.stream.read
  peek := dispatch Uart.stream.peek SoftwareSerial.stream.peek TwoWire.stream.peek
    SerialUsb.stream.peek

/-- The buffers of the other classes are well formed by their types. -/
def Reachable (board : Board) (fcpu : Word) : StreamObject → Prop
  | .softwareSerial s => SoftwareSerial.Reachable board fcpu s
  | _ => True

/-- No host is missing. -/
def Connected : StreamObject → Prop
  | .serialUsb s => s.connected = true
  | _ => True

/-- The unread bytes of an object that has its host. -/
def Unread : StreamObject → List Byte → Prop
  | .uart u, l => u.rxBuffer.contents = l
  | .softwareSerial s, l => s.InBuffer ∧ s.unread = l
  | .twoWire w, l => w.rx.contents = l
  | .serialUsb s, l => s.connected = true ∧ s.rxFf.contents = l

lemma delivers : stream.Delivers Unread := by
  intro x l h call
  cases x with
  | uart u =>
    have hu := Uart.delivers u l h call
    cases call <;> exact hu
  | softwareSerial s =>
    have hs := SoftwareSerial.delivers s l h call
    cases call <;> exact hs
  | twoWire w =>
    have hw := TwoWire.delivers w l h call
    cases call <;> exact hw
  | serialUsb s =>
    have hs := SerialUsb.delivers s l h call
    cases call <;> exact hs

lemma exists_unread {board : Board} {fcpu : Word} {x : StreamObject}
    (hreach : x.Reachable board fcpu) (hconnected : x.Connected) : ∃ l, x.Unread l := by
  cases x with
  | uart u => exact ⟨_, rfl⟩
  | softwareSerial s => exact ⟨_, hreach.inBuffer, rfl⟩
  | twoWire w => exact ⟨_, rfl⟩
  | serialUsb s => exact ⟨_, hconnected, rfl⟩

/-- An object in a state that it reaches keeps the contract of `Stream` exactly when it is no
`SerialUSB` without a host, and `peekNextDigit(SKIP_ALL, ..)` over it returns exactly then. -/
theorem stream_contract_iff {board : Board} {fcpu : Word} {x : StreamObject}
    (hreach : x.Reachable board fcpu) {clock : ℕ → Word} {timeout : Word}
    (hpass : Stream.Passes clock timeout) (detectDecimal : Bool) (t : ℕ) :
    (stream.Contract x ↔ x.Connected) ∧
      (stream.Terminates clock timeout .skipAll detectDecimal t x ↔ x.Connected) := by
  by_cases hconnected : x.Connected
  · obtain ⟨l, hl⟩ := exists_unread hreach hconnected
    exact ⟨iff_of_true (delivers.contract hl) hconnected,
      iff_of_true (delivers.terminates hpass .skipAll detectDecimal t hl) hconnected⟩
  · cases x with
    | serialUsb s =>
      have hlost : s.connected = false := Bool.eq_false_iff.mpr hconnected
      have hpeek : stream.peek (.serialUsb s) = (0, .serialUsb s) := by
        change (s.peek, StreamObject.serialUsb s) = _
        rw [SerialUsb.peek, hlost]
        rfl
      have hread : (stream.read (.serialUsb s)).2 = .serialUsb s := by
        change StreamObject.serialUsb s.read.2 = _
        rw [SerialUsb.read, hlost]
        rfl
      refine ⟨iff_of_false ?_ hconnected, iff_of_false ?_ hconnected⟩
      · intro hcontract
        have hnone := hcontract.peek_none.mpr (by
          change s.available = 0
          rw [SerialUsb.available, hlost]
          rfl)
        rw [hpeek] at hnone
        cases hnone
      · exact Stream.not_terminates_of_constant hpeek hread (Int.le_refl 0)
          (by cases detectDecimal <;> rfl) t
    | _ => exact absurd trivial hconnected

/-- A USB serial line whose cable has been pulled, with an empty queue. -/
def unplugged : SerialUsb where
  mounted := false
  suspended := false
  lineState := 0
  rxFf := TuFifo.config (fun _ => 0) 64 (by decide) (by decide)

/-- A receiver that has just been constructed. -/
def receiver : SoftwareSerial :=
  SoftwareSerial.constructed EFM100.board 1
    ⟨0, 0, 0, false, false, false, false, false, false, 0, 0, 0, 0, false, fun _ => 0, 0⟩
    0 1 false 64 true ⟨EFM100.idle, fun _ => none, fun _ => none⟩

theorem stream_contract_iff_receiver :
    (stream.Contract (.softwareSerial receiver) ↔ True) ∧
      (stream.Terminates (fun n => BitVec.ofNat 32 n) 2 .skipAll false 0
        (.softwareSerial receiver) ↔ True) := by
  have hreach : SoftwareSerial.Reachable EFM100.board 200000000 receiver :=
    .constructed 1 _ 0 1 false 64 true _
  refine stream_contract_iff (x := .softwareSerial receiver) hreach ?_ false 0
  intro t
  have htwo : BitVec.ofNat 32 (t + 1 + 1) - BitVec.ofNat 32 t = 2#32 := by
    rw [Nat.add_assoc, BitVec.ofNat_add, BitVec.add_comm, BitVec.add_sub_cancel]
  refine ⟨1, ?_⟩
  rw [htwo]
  decide

/-- Not every stream keeps the contract. -/
theorem stream_contract_broken : ¬ ∀ (board : Board) (fcpu : Word) (x : StreamObject),
    x.Reachable board fcpu → stream.Contract x := by
  intro h
  have hnone := (h EFM100.board 200000000 (.serialUsb unplugged) trivial).peek_none.mpr rfl
  exact absurd hnone (by decide)

end StreamObject

end FrameworkXC32
