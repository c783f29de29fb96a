import Mathlib.Algebra.Ring.Nat
import Mathlib.Data.Nat.Notation
import Mathlib.Tactic.Lemma

/-!
# 32-bit words

Machine words, the three write aliases of a memory-mapped register (clear, set, invert the
bits of a mask), and two arithmetics on words: the machine's, which wraps, and one that
refuses a result that does not fit.
-/

namespace Machine

abbrev Word := BitVec 32

abbrev Byte := BitVec 8

/-- A write of `m` to the clear alias of a register that holds `r`. -/
def regClr (r m : Word) : Word := r &&& ~~~m

/-- A write of `m` to the set alias. -/
def regSet (r m : Word) : Word := r ||| m

/-- A write of `m` to the invert alias. -/
def regInv (r m : Word) : Word := r ^^^ m

@[simp] lemma getLsbD_regClr (r m : Word) (i : ℕ) :
    (regClr r m).getLsbD i = (r.getLsbD i && !m.getLsbD i) := by
  by_cases hi : i < 32
  · simp [regClr, hi]
  · simp [regClr, BitVec.getLsbD_of_ge r i (by omega)]

@[simp] lemma getLsbD_regSet (r m : Word) (i : ℕ) :
    (regSet r m).getLsbD i = (r.getLsbD i || m.getLsbD i) := by
  simp [regSet]

@[simp] lemma getLsbD_regInv (r m : Word) (i : ℕ) :
    (regInv r m).getLsbD i = (r.getLsbD i ^^ m.getLsbD i) := by
  simp [regInv]

lemma getLsbD_one (i : ℕ) : (1 : Word).getLsbD i = decide (i = 0) := by
  change (1#32).getLsbD i = decide (i = 0)
  simp

lemma getLsbD_one_shift {k : ℕ} (hk : k < 32) (i : ℕ) :
    ((1 : Word) <<< k).getLsbD i = decide (i = k) := by
  rw [BitVec.getLsbD_shiftLeft, getLsbD_one]
  by_cases hi : i < k
  · simp [hi]
    omega
  · by_cases heq : i = k
    · simp [heq, hk]
    · simp [heq]
      omega

lemma getLsbD_low {k : ℕ} (hk : k < 32) (i : ℕ) :
    ((1 : Word) <<< k - 1).getLsbD i = decide (i < k) := by
  have hshift : ((1 : Word) <<< k).toNat = 2 ^ k := by
    rw [BitVec.toNat_shiftLeft, Nat.shiftLeft_eq, Nat.mod_eq_of_lt]
    · exact Nat.one_mul _
    · exact lt_of_eq_of_lt (Nat.one_mul _) (Nat.pow_lt_pow_right (by decide) hk)
  have hle : (1 : Word) ≤ (1 : Word) <<< k := by
    rw [BitVec.le_def, hshift]
    exact Nat.one_le_two_pow
  rw [← BitVec.testBit_toNat, BitVec.toNat_sub_of_le hle, hshift]
  exact Nat.testBit_two_pow_sub_one k i

lemma getLsbD_or_flag {k : ℕ} (hk : k < 32) (flag : Bool) (r : Word) (i : ℕ) :
    (r ||| (if flag then 1 else 0 : Word) <<< k).getLsbD i =
      (r.getLsbD i || flag && decide (i = k)) := by
  cases flag with
  | true =>
    rw [if_pos rfl, BitVec.getLsbD_or, getLsbD_one_shift hk, Bool.true_and]
  | false => simp

lemma shift_and_one (r : Word) (i : ℕ) : (r >>> i &&& 1 != 0) = r.getLsbD i := by
  have hbit : (r >>> i &&& 1) = if r.getLsbD i then 1 else 0 := by
    apply BitVec.eq_of_getLsbD_eq
    intro j _
    rw [BitVec.getLsbD_and, BitVec.getLsbD_ushiftRight, getLsbD_one]
    cases j with
    | zero => cases r.getLsbD i <;> simp
    | succ j => cases r.getLsbD i <;> simp
  rw [hbit]
  cases r.getLsbD i <;> rfl

lemma and_one_shift {k : ℕ} (hk : k < 32) (r : Word) :
    (r &&& (1 : Word) <<< k != 0) = r.getLsbD k := by
  have hbits : ∀ j, (r &&& (1 : Word) <<< k).getLsbD j = (r.getLsbD j && decide (j = k)) := by
    intro j
    rw [BitVec.getLsbD_and, getLsbD_one_shift hk]
  cases hbit : r.getLsbD k with
  | false =>
    have hzero : r &&& (1 : Word) <<< k = 0 := by
      apply BitVec.eq_of_getLsbD_eq
      intro j _
      rw [hbits]
      by_cases hj : j = k
      · simp [hj, hbit]
      · simp [hj]
    rw [hzero]
    rfl
  | true =>
    apply bne_iff_ne.mpr
    intro hzero
    have hk' := hbits k
    rw [hzero, hbit] at hk'
    simp at hk'

/-- Addition and subtraction of words; `none` is a refused operation. -/
structure Arith where
  add : Word → Word → Option Word
  sub : Word → Word → Option Word

/-- The machine's arithmetic, modulo `2 ^ 32`. -/
def wrapping : Arith where
  add a b := some (a + b)
  sub a b := some (a - b)

/-- The same, except that an operation whose integer result leaves the word is refused. -/
def checked : Arith where
  add a b := if a.toNat + b.toNat < 2 ^ 32 then some (a + b) else none
  sub a b := if b.toNat ≤ a.toNat then some (a - b) else none

/-- An arithmetic that computes the integer result whenever it fits. -/
structure Arith.Exact (A : Arith) : Prop where
  add : ∀ a b : Word, a.toNat + b.toNat < 2 ^ 32 → A.add a b = some (a + b)
  sub : ∀ a b : Word, b.toNat ≤ a.toNat → A.sub a b = some (a - b)

lemma wrapping_exact : wrapping.Exact := ⟨fun _ _ _ => rfl, fun _ _ _ => rfl⟩

lemma checked_exact : checked.Exact := ⟨fun _ _ h => if_pos h, fun _ _ h => if_pos h⟩

end Machine
