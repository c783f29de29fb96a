import FrameworkXC32.Lib.Numeral
import FrameworkXC32.Lib.Word

/-!
# `Print`

The functions of `Print.cpp` that write integers, over the `write` of a derived class. A number is
put into a buffer from its last digit on; a write in front of the buffer is `none`.
-/

namespace FrameworkXC32
open Machine Numeral

/-- The virtual function of a derived class whose objects have the states `σ`. -/
structure Print (σ : Type) where
  write : Byte → σ → Word × σ

namespace Print

/-- `c < 10 ? c + '0' : c + 'A' - 10` on a `char`. -/
def digitChar (c : Byte) : Byte := if c.toInt < 10 then c + 0x30 else c + 0x41 - 10

/-- The loop of `printNumber`: `str` is an index into `buf`, and `text` the string from there on. -/
def numberLoop (base : Word) : ℕ → Word → List Byte → Option (List Byte)
  | 0, _, _ => none
  | str + 1, n, text =>
    let c := (n % base).setWidth 8
    let n := n / base
    let text := digitChar c :: text
    if n ≠ 0 then numberLoop base str n text else some text

/-- `sizeof(buf)`, which is `8 * sizeof(long) + 1`. -/
def numberBufSize : ℕ := 8 * 4 + 1

/-- The string that `printNumber` makes, which ends at the last byte of the buffer. -/
def numberText (n : Word) (base : Byte) : Option (List Byte) :=
  let base := if base < 2 then 10 else base
  numberLoop (base.setWidth 32) (numberBufSize - 1) n []

variable {σ : Type} (p : Print σ)

/-- The loop of `write(buffer, size)`. -/
def writeLoop (n : Word) : List Byte → σ → Word × σ
  | [], s => (n, s)
  | b :: buffer, s =>
    let (taken, s) := p.write b s
    if taken ≠ 0 then writeLoop (n + 1) buffer s else (n, s)

def writeBuffer (buffer : List Byte) (s : σ) : Word × σ := writeLoop p 0 buffer s

def printNumber (n : Word) (base : Byte) (s : σ) : Option (Word × σ) := do
  let str ← numberText n base
  some (p.writeBuffer str s)

/-- `print(unsigned long, int)` -/
def printUnsigned (n base : Word) (s : σ) : Option (Word × σ) :=
  if base = 0 then some (p.write (n.setWidth 8) s) else p.printNumber n (base.setWidth 8) s

/-- `print(long, int)` -/
def printLong (n base : Word) (s : σ) : Option (Word × σ) :=
  if base = 0 then some (p.write (n.setWidth 8) s)
  else if base = 10 then
    if n.toInt < 0 then do
      let (t, s) := p.write 0x2d s
      let n := -n
      let (k, s) ← p.printNumber n 10 s
      some (k + t, s)
    else p.printNumber n 10 s
  else p.printNumber n (base.setWidth 8) s

/-- Every byte is taken, and `written` are all bytes so far. -/
def Takes (written : σ → List Byte) : Prop :=
  ∀ b s, (p.write b s).1 ≠ 0 ∧ written (p.write b s).2 = written s ++ [b]

/-- The digits of all bases in ASCII: from `0` to `9`, and from `A` to `Z`. -/
def digitTable : List Byte :=
  [48, 49, 50, 51, 52, 53, 54, 55, 56, 57, 65, 66, 67, 68, 69, 70, 71, 72, 73, 74, 75, 76, 77, 78,
    79, 80, 81, 82, 83, 84, 85, 86, 87, 88, 89, 90]

def digit (d : ℕ) : Byte := digitTable.getD d 0

/-- The characters of a numeral. -/
def digits (base : ℕ) (n : ℕ) : List Byte :=
  (numeral base n).map fun d => digitChar (BitVec.ofNat 8 d)

/-- What `print(n, DEC)` writes. -/
def decimal (n : Word) : List Byte :=
  if n.toInt < 0 then 0x2d :: digits 10 (-n).toNat else digits 10 n.toNat

lemma digitChar_eq {d : ℕ} (h : d < 36) : digitChar (BitVec.ofNat 8 d) = digit d := by
  have hall : ∀ d < 36, digitChar (BitVec.ofNat 8 d) = digit d := by decide
  exact hall d h

/-- Up to base 36 the characters are those of the table. -/
lemma digits_eq {base : ℕ} (hbase : 2 ≤ base) (hmost : base ≤ 36) (n : ℕ) :
    digits base n = (numeral base n).map digit := by
  apply List.map_congr_left
  intro d hd
  exact digitChar_eq ((lt_of_mem_numeral hbase hd).trans_le hmost)

lemma digits_of_lt {base n : ℕ} (h : n < base) :
    digits base n = [digitChar (BitVec.ofNat 8 n)] := by
  rw [digits, numeral_of_lt h, List.map_singleton]

lemma digits_of_le {base n : ℕ} (hbase : 2 ≤ base) (h : base ≤ n) :
    digits base n = digits base (n / base) ++ [digitChar (BitVec.ofNat 8 (n % base))] := by
  rw [digits, numeral_of_le hbase h, List.map_append, List.map_singleton]
  rfl

lemma numberLoop_eq {base : Word} (hbase : 2 ≤ base.toNat) (str : ℕ) (n : Word) (text : List Byte)
    (hroom : n.toNat < base.toNat ^ (str + 1)) :
    numberLoop base (str + 1) n text = some (digits base.toNat n.toNat ++ text) := by
  have hdigit : (n % base).setWidth 8 = BitVec.ofNat 8 (n.toNat % base.toNat) := by
    apply BitVec.eq_of_toNat_eq
    rw [BitVec.toNat_setWidth, BitVec.toNat_umod, BitVec.toNat_ofNat]
  have hquot : (n / base).toNat = n.toNat / base.toNat := BitVec.toNat_udiv
  rw [numberLoop, hdigit]
  by_cases hlast : n.toNat < base.toNat
  · have hzero : n / base = 0 := by
      apply BitVec.eq_of_toNat_eq
      rw [hquot, Nat.div_eq_of_lt hlast]
      rfl
    rw [if_neg (not_not_intro hzero), digits_of_lt hlast, Nat.mod_eq_of_lt hlast]
    rfl
  · have hle : base.toNat ≤ n.toNat := not_lt.mp hlast
    have hne : n / base ≠ 0 := by
      intro hzero
      have hpos := Nat.div_pos hle (by omega)
      rw [← hquot, hzero] at hpos
      exact absurd hpos (by decide)
    rw [if_pos hne, digits_of_le hbase hle, List.append_assoc, ← hquot]
    cases str with
    | zero =>
      rw [Nat.zero_add, Nat.pow_one] at hroom
      exact absurd hroom hlast
    | succ str =>
      apply numberLoop_eq hbase
      rw [hquot, Nat.div_lt_iff_lt_mul (by omega), ← Nat.pow_succ]
      exact hroom

/-- 32 digits are room enough for a number of 32 bits in any base. -/
lemma numberText_eq (n : Word) {base : Byte} (hbase : 2 ≤ base.toNat) :
    numberText n base = some (digits base.toNat n.toNat) := by
  have hlow : ¬base < 2 := by
    intro hlt
    have hlt' : base.toNat < 2 := hlt
    omega
  have hwide : (base.setWidth 32).toNat = base.toNat := by
    have h := base.isLt
    rw [BitVec.toNat_setWidth, Nat.mod_eq_of_lt (by omega)]
  have hroom : n.toNat < (base.setWidth 32).toNat ^ 32 := by
    calc n.toNat < 2 ^ 32 := n.isLt
      _ ≤ (base.setWidth 32).toNat ^ 32 := Nat.pow_le_pow_left (by omega) 32
  unfold numberText
  dsimp only
  rw [if_neg hlow, show numberBufSize - 1 = 31 + 1 from rfl,
    numberLoop_eq (by omega) 31 n [] hroom, List.append_nil, hwide]

variable {p} {written : σ → List Byte}

lemma Takes.writeLoop (h : p.Takes written) (n : Word) (buffer : List Byte) (s : σ) :
    written (p.writeLoop n buffer s).2 = written s ++ buffer := by
  induction buffer generalizing n s with
  | nil => exact (List.append_nil _).symm
  | cons b buffer ih =>
    obtain ⟨htaken, hb⟩ := h b s
    rw [Print.writeLoop]
    dsimp only
    rw [if_pos htaken, ih, hb, List.append_assoc, List.singleton_append]

lemma Takes.printNumber (h : p.Takes written) (n : Word) {base : Byte} (hbase : 2 ≤ base.toNat)
    (s : σ) : ∃ k t, p.printNumber n base s = some (k, t) ∧
      written t = written s ++ digits base.toNat n.toNat := by
  refine ⟨(p.writeBuffer (digits base.toNat n.toNat) s).1, _, ?_, h.writeLoop 0 _ s⟩
  unfold Print.printNumber
  rw [numberText_eq n hbase]
  rfl

lemma Takes.printLong (h : p.Takes written) (n : Word) (s : σ) :
    ∃ k t, p.printLong n 10 s = some (k, t) ∧ written t = written s ++ decimal n := by
  have hbase : 2 ≤ (10 : Byte).toNat := by decide
  unfold Print.printLong decimal
  rw [if_neg (by decide), if_pos rfl]
  by_cases hneg : n.toInt < 0
  · obtain ⟨-, hsign⟩ := h 0x2d s
    obtain ⟨k, t, hprint, ht⟩ := h.printNumber (-n) hbase (p.write 0x2d s).2
    rw [if_pos hneg, if_pos hneg]
    refine ⟨k + (p.write 0x2d s).1, t, ?_, ?_⟩
    · dsimp only
      rw [hprint]
      rfl
    · rw [ht, hsign, List.append_assoc]
      rfl
  · rw [if_neg hneg, if_neg hneg]
    exact h.printNumber n hbase s

end Print

end FrameworkXC32
