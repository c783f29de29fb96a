import FrameworkXC32.Lib.Word
import Mathlib.Algebra.Group.Int.Defs

/-!
# The heap

What `operator new` and `realloc` answer, and the arithmetic of sizes, which have 32 bits.
-/

namespace FrameworkXC32
open Machine

/-- Subtraction of `size_t`. -/
def sizeSub (a b : ℕ) : ℕ := (a + 2 ^ 32 - b) % 2 ^ 32

lemma sizeSub_eq {a b : ℕ} (h : b ≤ a) (ha : a < 2 ^ 32) : sizeSub a b = a - b := by
  unfold sizeSub
  omega

/-- Addition of an `int` to an `unsigned int`. -/
def sizeAdd (a : ℕ) (d : ℤ) : ℕ := ((a + d) % 2 ^ 32).toNat

lemma sizeAdd_eq {a : ℕ} {d : ℤ} (h : 0 ≤ a + d) (hlt : a + d < 2 ^ 32) :
    sizeAdd a d = (a + d).toNat := by
  unfold sizeAdd
  rw [Int.emod_eq_of_lt h hlt]

/-- What a request for memory finds: a block with some contents, or nothing. -/
abbrev Fresh := Option (ℕ → Byte)

def Fresh.block (fresh : Fresh) (n : ℕ) : Option (List Byte) :=
  fresh.map fun raw => (List.range n).map raw

/-- `realloc(buffer, size)`, where `none` is the null pointer. It is not defined for a block and
the size 0. There is no memory for `2 ^ 31` bytes and more. -/
def realloc (buffer : Option (List Byte)) (size : ℕ) (fresh : Fresh) :
    Option (Option (List Byte)) :=
  if buffer.isSome ∧ size = 0 then none
  else if 2 ^ 31 ≤ size then some none
  else
    let old := buffer.getD []
    some (fresh.map fun raw => old.take size ++ (List.range (size - old.length)).map raw)

end FrameworkXC32
