import Mathlib.Data.Nat.Notation
import Mathlib.Tactic.Lemma

/-!
# The bits of a word in a row

The low bits of a word from the most significant one on, and from the least significant one on. A
long row is the row of one part of the word behind the row of the other.
-/

namespace BitString

variable {w w' : ℕ}

/-- The low `n` bits, the most significant one first. -/
def descending (n : ℕ) (x : BitVec w) : List Bool := (List.range n).reverse.map x.getLsbD

/-- The low `n` bits, the least significant one first. -/
def ascending (n : ℕ) (x : BitVec w) : List Bool := (List.range n).map x.getLsbD

lemma ascending_congr {n : ℕ} {x : BitVec w} {y : BitVec w'}
    (h : ∀ i < n, x.getLsbD i = y.getLsbD i) : ascending n x = ascending n y := by
  apply List.map_congr_left
  intro i hi
  exact h i (List.mem_range.mp hi)

lemma reverse_ascending (n : ℕ) (x : BitVec w) : (ascending n x).reverse = descending n x := by
  rw [ascending, descending, List.map_reverse]

lemma descending_congr {n : ℕ} {x : BitVec w} {y : BitVec w'}
    (h : ∀ i < n, x.getLsbD i = y.getLsbD i) : descending n x = descending n y := by
  rw [← reverse_ascending, ascending_congr h, reverse_ascending]

lemma ascending_add (m n : ℕ) (x : BitVec w) :
    ascending (m + n) x = ascending m x ++ ascending n (x >>> m) := by
  rw [ascending, List.range_add, List.map_append, List.map_map]
  congr 1
  apply List.map_congr_left
  intro i _
  exact (BitVec.getLsbD_ushiftRight x m i).symm

lemma descending_add (m n : ℕ) (x : BitVec w) :
    descending (m + n) x = descending m (x >>> n) ++ descending n x := by
  rw [← reverse_ascending, Nat.add_comm, ascending_add, List.reverse_append, reverse_ascending,
    reverse_ascending]

lemma descending_eq_ascending {n : ℕ} {x : BitVec w} {y : BitVec w'}
    (h : ∀ i < n, x.getLsbD i = y.getLsbD (n - 1 - i)) : descending n x = ascending n y := by
  apply List.ext_getElem
  · simp [descending, ascending]
  · intro i hi _
    have hlt : i < n := by simpa [descending] using hi
    have hmirror : n - 1 - (n - 1 - i) = i := by omega
    simp only [descending, ascending, List.getElem_map, List.getElem_reverse, List.getElem_range,
      List.length_range]
    rw [h _ (by omega), hmirror]

end BitString
