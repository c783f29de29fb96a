import FrameworkXC32.Lib.Word
import Mathlib.Data.List.Basic
import Mathlib.Tactic.IntervalCases

/-!
# Hexadecimal text

Two digits in upper case for every byte, the high one first, and the bytes that such a text stands
for.
-/

namespace Hex
open Machine

/-- The digits from `0` to `F` in ASCII. -/
def digits : List Byte := [48, 49, 50, 51, 52, 53, 54, 55, 56, 57, 65, 66, 67, 68, 69, 70]

def digit (d : ℕ) : Byte := digits.getD d 0

def text (l : List Byte) : List Byte :=
  l.flatMap fun b => [digit (b.toNat / 16), digit (b.toNat % 16)]

def value (c : Byte) : Option ℕ := digits.findIdx? fun d => d = c

/-- `none` for a text that is not made of pairs of digits. -/
def decode : List Byte → Option (List Byte)
  | [] => some []
  | [_] => none
  | hi :: lo :: rest =>
    (value hi).bind fun x =>
      (value lo).bind fun y =>
        (decode rest).map fun l => BitVec.ofNat 8 (16 * x + y) :: l

lemma text_cons (b : Byte) (l : List Byte) :
    text (b :: l) = digit (b.toNat / 16) :: digit (b.toNat % 16) :: text l := rfl

@[simp] lemma length_text (l : List Byte) : (text l).length = 2 * l.length := by
  induction l with
  | nil => rfl
  | cons b l ih =>
    rw [text_cons, List.length_cons, List.length_cons, List.length_cons, ih]
    omega

lemma value_digit {d : ℕ} (h : d < 16) : value (digit d) = some d := by
  interval_cases d <;> rfl

theorem decode_text (l : List Byte) : decode (text l) = some l := by
  induction l with
  | nil => rfl
  | cons b l ih =>
    have hb : b.toNat < 256 := b.isLt
    have hbyte : 16 * (b.toNat / 16) + b.toNat % 16 = b.toNat := Nat.div_add_mod b.toNat 16
    rw [text_cons, decode, value_digit (by omega), Option.bind_some, value_digit (by omega),
      Option.bind_some, ih, Option.map_some, hbyte, BitVec.ofNat_toNat, BitVec.setWidth_eq]

lemma getElem?_text (l : List Byte) (i : ℕ) :
    (text l)[i]? =
      l[i / 2]?.map fun b => digit (if i % 2 = 0 then b.toNat / 16 else b.toNat % 16) := by
  induction l generalizing i with
  | nil => rfl
  | cons b l ih =>
    rw [text_cons]
    match i with
    | 0 => rfl
    | 1 => rfl
    | i + 2 =>
      rw [List.getElem?_cons_succ, List.getElem?_cons_succ, ih, Nat.add_div_right i Nat.two_pos,
        Nat.add_mod_right, List.getElem?_cons_succ]

end Hex
