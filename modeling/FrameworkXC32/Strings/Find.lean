import FrameworkXC32.Strings.Compare
import FrameworkXC32.Strings.Slices

/-!
# Finding and reading out parts of a string

`indexOf`, and `getBytes` with what a caller can do with the bytes that it gets.
-/

namespace FrameworkXC32
open Machine Block CString

namespace WString

/-- `indexOf(const String &s2, unsigned int fromIndex)`. There is nothing to search for behind a
null pointer. -/
def indexOf (s s2 : WString) (fromIndex : ℕ) : Option ℤ :=
  if fromIndex ≥ s.len then some (-1)
  else s2.buffer.bind fun b =>
    (strstr (s.mem.drop fromIndex) b).map fun found => found.elim (-1) fun n => ↑(fromIndex + n)

/-- `getBytes(buf, bufsize, index)`, which is `toCharArray`, with a buffer apart from the
string. -/
def getBytes (buf : Option (List Byte)) (bufsize index : ℕ) (s : WString) :
    Option (Option (List Byte)) :=
  match buf with
  | none => some none
  | some b =>
    if bufsize = 0 then some (some b)
    else if index ≥ s.len then (store b 0 0).map some
    else
      let n := if bufsize - 1 > s.len - index then s.len - index else bufsize - 1
      (strncpy b 0 (.apart (s.mem.drop index)) n).bind fun b => (store b n 0).map some

section Find

variable {l m : List Byte} {s t : WString} {i : ℕ}

/-- The left-most place from `fromIndex` on where the text is found, or -1. -/
structure IsFirstMatch (m l : List Byte) (fromIndex : ℕ) (r : ℤ) : Prop where
  found : r ≠ -1 →
    ∃ i : ℕ, r = i ∧ fromIndex < l.length ∧ IsLeast {i | fromIndex ≤ i ∧ OccursAt m l i} i
  missing : r = -1 ↔ l.length ≤ fromIndex ∨ ∀ i, fromIndex ≤ i → ¬OccursAt m l i

lemma firstIn_le {n : ℕ} (h : Search.firstIn m l = some n) : n ≤ l.length := by
  obtain ⟨hat, hbefore⟩ := Search.firstIn_some h
  cases m with
  | nil =>
    by_contra hlt
    exact hbefore 0 (by omega) List.nil_prefix
  | cons c m =>
    have hle := Search.le_of_occurs (by simp) hat
    omega

lemma isFirstMatch_of_firstIn {fromIndex : ℕ} (hinside : fromIndex < l.length) :
    IsFirstMatch m l fromIndex
      ((Search.firstIn m (l.drop fromIndex)).elim (-1) fun n => ↑(fromIndex + n)) := by
  have hmatch : ∀ i, fromIndex ≤ i → OccursAt m l i →
      m <+: (l.drop fromIndex).drop (i - fromIndex) := by
    intro i hi hocc
    rw [List.drop_drop, Nat.add_sub_cancel' hi]
    exact hocc.2
  cases hfirst : Search.firstIn m (l.drop fromIndex) with
  | none =>
    refine ⟨fun hne => absurd rfl hne, iff_of_true rfl (.inr ?_)⟩
    intro i hi hocc
    exact Search.firstIn_none hfirst (i - fromIndex) (hmatch i hi hocc)
  | some n =>
    obtain ⟨hat, hbefore⟩ := Search.firstIn_some hfirst
    have hle := firstIn_le hfirst
    rw [List.length_drop] at hle
    rw [List.drop_drop] at hat
    have hocc : OccursAt m l (fromIndex + n) := (occursAt_iff (by omega)).mpr hat
    constructor
    · intro _
      refine ⟨fromIndex + n, rfl, hinside, ⟨Nat.le_add_right _ _, hocc⟩, ?_⟩
      rintro i ⟨hi, hocc'⟩
      by_contra hlt
      exact hbefore (i - fromIndex) (by omega) (hmatch i hi hocc')
    · apply iff_of_false
      · change (↑(fromIndex + n) : ℤ) ≠ -1
        omega
      · rintro (hout | hnone)
        · omega
        · exact hnone _ (Nat.le_add_right _ _) hocc

lemma indexOf_isFirstMatch (hs : HasText l s) (ht : Holds m t) (fromIndex : ℕ) :
    ∃ r, s.indexOf t fromIndex = some r ∧ IsFirstMatch m l fromIndex r := by
  have hlen := hs.len
  unfold indexOf
  by_cases houtside : fromIndex ≥ s.len
  · refine ⟨-1, if_pos houtside, fun hne => absurd rfl hne, iff_of_true rfl (.inl ?_)⟩
    omega
  · have hinside : fromIndex < l.length := by omega
    obtain ⟨rest, hrest⟩ := (hs.holds (by omega)).drop_eq hinside.le
    refine ⟨_, ?_, isFirstMatch_of_firstIn hinside⟩
    rw [if_neg houtside, ht.buffer, Option.bind_some, hrest, strstr,
      CString.cstring_eq (notMem_drop hs.nonzero fromIndex), Option.bind_some, ht.cstring_eq]
    rfl

/-- What a match at `i` is good for: the test for it holds there and at no place before, counted
from `fromIndex` on, the slice of its length is the text looked for, and `lastIndexOf` is not to the
left of it. -/
structure MatchUsable (m : List Byte) (s t : WString) (fromIndex i : ℕ) : Prop where
  behind : fromIndex ≤ i
  tested : s.startsWithFrom t i = some true
  first : ∀ j, fromIndex ≤ j → j < i → s.startsWithFrom t j = some false
  sliced : ∀ fresh fresh' : Fresh, fresh'.isSome → ∃ out,
    s.substring i (i + t.len) fresh fresh' = some (out, s) ∧ HasText m out
  ordered : ∃ last, s.lastIndexOf t (sizeSub s.len t.len) = some last ∧ ↑i ≤ last

lemma IsFirstMatch.unique {fromIndex : ℕ} {r r' : ℤ} (h : IsFirstMatch m l fromIndex r)
    (h' : IsFirstMatch m l fromIndex r') : r = r' := by
  by_cases hr : r = -1
  · rw [hr]
    exact (h'.missing.mpr (h.missing.mp hr)).symm
  · have hr' : r' ≠ -1 := fun heq => hr (h.missing.mpr (h'.missing.mp heq))
    obtain ⟨i, rfl, -, hi⟩ := h.found hr
    obtain ⟨j, rfl, -, hj⟩ := h'.found hr'
    rw [IsLeast.unique hi hj]

lemma startsWithFrom_inside (hs : Holds l s) (ht : Holds m t) {j : ℕ} (hj : j < l.length) :
    s.startsWithFrom t j = some (decide (OccursAt m l j)) := by
  have hok : ¬ReadsBehind l m j := by
    unfold ReadsBehind
    omega
  obtain ⟨r, hr, hiff⟩ := startsWithFrom_of_ok hs ht hok
  rw [hr, Bool.eq_iff_iff.mpr (hiff.trans decide_eq_true_iff.symm)]

lemma OccursAt.lt (h : OccursAt m l i) (hm : m ≠ []) : i < l.length := by
  have hpos := List.length_pos_of_ne_nil hm
  have hle := h.1
  omega

lemma IsFirstMatch.missing_iff {fromIndex : ℕ} {r : ℤ} (h : IsFirstMatch m l fromIndex r)
    (hm : m ≠ []) : r = -1 ↔ ∀ j, fromIndex ≤ j → j < l.length → ¬OccursAt m l j := by
  rw [h.missing]
  constructor
  · rintro (hout | hnone) j hj hlt
    · omega
    · exact hnone j hj
  · intro hnone
    right
    intro j hj hocc
    exact hnone j hj (hocc.lt hm) hocc

lemma le_lastIndexOf (hs : Holds l s) (ht : Holds m t) (hm : m ≠ []) {i : ℕ}
    (hocc : OccursAt m l i) :
    ∃ last, s.lastIndexOf t (sizeSub s.len t.len) = some last ∧ ↑i ≤ last := by
  have hle := hocc.length_le
  have hfits := hocc.1
  have hlt := hocc.lt hm
  have hsmall := HasText.small (.inl hs)
  obtain ⟨last, hlast, hmatch⟩ := lastIndexOf_isLastMatch hs ht (sizeSub s.len t.len)
  rw [hs.len, ht.len, sizeSub_eq (by omega) (by omega)] at hmatch
  refine ⟨last, hlast, ?_⟩
  have hat : i ≤ min (l.length - m.length) (l.length - 1) := by omega
  have hfound : last ≠ -1 := by
    intro heq
    rcases hmatch.missing.mp heq with h | h | h | h
    · exact hm h
    · rw [h] at hlt
      exact absurd hlt (Nat.not_lt_zero i)
    · omega
    · exact h i hat hocc
  obtain ⟨k, rfl, hk⟩ := hmatch.found hfound
  exact Int.ofNat_le.mpr (hk.2 ⟨hat, hocc⟩)

lemma slice_of_occursAt (h : OccursAt m l i) : (l.take (i + m.length)).drop i = m := by
  rw [List.drop_take, Nat.add_sub_cancel_left]
  exact (List.prefix_iff_eq_take.mp h.2).symm

/-- The ways to look for a text agree. `indexOf` finds none exactly when no test with `startsWith`
from there on holds, and otherwise the left-most place where it does; `substring` takes the match
out, and `lastIndexOf` is not to the left of it. Nothing behind the terminators is read. -/
theorem searches_agree (hs : Holds l s) (ht : Holds m t) (hm : m ≠ []) (fromIndex : ℕ) :
    ∃ r, s.indexOf t fromIndex = some r ∧ s.fitted.indexOf t.fitted fromIndex = some r ∧
      (r = -1 ↔ ∀ j, fromIndex ≤ j → j < s.len → s.startsWithFrom t j = some false) ∧
      (r ≠ -1 → ∃ i : ℕ, r = i ∧ MatchUsable m s t fromIndex i) := by
  obtain ⟨r, hr, hmatch⟩ := indexOf_isFirstMatch (.inl hs) ht fromIndex
  obtain ⟨r', hr', hmatch'⟩ := indexOf_isFirstMatch (.inl hs.fitted) ht.fitted fromIndex
  have htest : ∀ j, j < l.length → (s.startsWithFrom t j = some false ↔ ¬OccursAt m l j) := by
    intro j hj
    rw [startsWithFrom_inside hs ht hj, Option.some_inj, decide_eq_false_iff_not]
  refine ⟨r, hr, hmatch'.unique hmatch ▸ hr', ?_, ?_⟩
  · rw [hmatch.missing_iff hm, hs.len]
    exact forall_congr' fun j => forall_congr' fun _ => forall_congr' fun hj => (htest j hj).symm
  · intro hne
    obtain ⟨i, rfl, -, ⟨hi, hocc⟩, hleast⟩ := hmatch.found hne
    have hlt := hocc.lt hm
    refine ⟨i, rfl, hi, ?_, ?_, ?_, le_lastIndexOf hs ht hm hocc⟩
    · rw [startsWithFrom_inside hs ht hlt, decide_eq_true hocc]
    · intro j hj hji
      rw [htest j (by omega)]
      intro hocc'
      exact absurd (hleast ⟨hj, hocc'⟩) (by omega)
    · intro fresh fresh' hfresh
      obtain ⟨out, hout, -, htext⟩ :=
        HasText.substring (.inl hs) i (i + t.len) fresh fresh'
      refine ⟨out, hout, ?_⟩
      have hslice := htext hfresh
      rwa [Nat.max_eq_right (Nat.le_add_right _ _), Nat.min_eq_left (Nat.le_add_right _ _), ht.len,
        slice_of_occursAt hocc] at hslice

/-! ### Reading out -/

/-- The characters that `getBytes` writes, without the zero behind them. -/
def piece (l : List Byte) (bufsize index : ℕ) : List Byte := (l.drop index).take (bufsize - 1)

lemma piece_nonzero (hl : 0 ∉ l) (bufsize index : ℕ) : 0 ∉ piece l bufsize index :=
  fun h => hl (List.mem_of_mem_drop (List.mem_of_mem_take h))

lemma length_piece_lt {bufsize : ℕ} (hsize : 0 < bufsize) (l : List Byte) (index : ℕ) :
    (piece l bufsize index).length + 1 ≤ bufsize := by
  have hle : (piece l bufsize index).length ≤ bufsize - 1 := List.length_take_le ..
  omega

lemma store_behind {b src : List Byte} (h : src.length < b.length) (c : Byte) :
    store (overwrite b 0 src) src.length c = some (overwrite b 0 (src ++ [c])) := by
  have hstore : store (overwrite b 0 src) (0 + src.length) c =
      some (overwrite b 0 (src ++ [c])) := store_overwrite src c (by omega)
  rwa [Nat.zero_add] at hstore

lemma getBytes_eq (h : HasText l s) {b : List Byte} {bufsize : ℕ} (hsize : 0 < bufsize)
    (hfit : bufsize ≤ b.length) (index : ℕ) : s.getBytes (some b) bufsize index =
      some (some (overwrite b 0 (piece l bufsize index ++ [0]))) := by
  have hlen := h.len
  have hroom := length_piece_lt hsize l index
  unfold getBytes
  dsimp only
  rw [if_neg (by omega)]
  by_cases hout : index ≥ s.len
  · have hnil : piece l bufsize index = [] := by
      rw [piece, List.drop_of_length_le (by omega), List.take_nil]
    have hstore : store (overwrite b 0 []) 0 0 = some (overwrite b 0 [0]) :=
      store_behind (show ([] : List Byte).length < b.length by rw [List.length_nil]; omega) 0
    rw [overwrite_nil] at hstore
    rw [if_pos hout, hnil, hstore]
    rfl
  · have hn : (if bufsize - 1 > s.len - index then s.len - index else bufsize - 1) =
        (piece l bufsize index).length := by
      rw [piece, List.length_take, List.length_drop, hlen]
      split <;> omega
    obtain ⟨rest, hrest⟩ := (h.holds (by omega)).drop_eq (show index ≤ l.length by omega)
    have hsrc : piece l bufsize index <+: s.mem.drop index := by
      rw [hrest]
      exact (List.take_prefix _ _).trans (List.prefix_append _ _)
    rw [if_neg hout, hn, strncpy_eq (piece_nonzero h.nonzero bufsize index) hsrc (by omega),
      Option.bind_some, store_behind (by omega)]
    rfl

/-- What `getBytes` writes is a C string within the size it is told: bytes from `bufsize` on stay
as they are, and a string made of it is the slice that `substring` gives. -/
theorem getBytes_roundTrip (h : HasText l s) {b : List Byte} {bufsize : ℕ} (hsize : 0 < bufsize)
    (hfit : bufsize ≤ b.length) (index : ℕ) {fresh fresh' : Fresh} (hfresh : fresh.isSome)
    (hfresh' : fresh'.isSome) :
    ∃ b' out out', s.getBytes (some b) bufsize index = some (some b') ∧
      b'.length = b.length ∧ (∀ k, bufsize ≤ k → b'[k]? = b[k]?) ∧
      ofCstr (some (.apart b')) fresh = some out ∧ HasText (piece l bufsize index) out ∧
      s.substring index (index + (bufsize - 1)) fresh fresh' = some (out', s) ∧
      HasText (piece l bufsize index) out' := by
  have hroom := length_piece_lt hsize l index
  have hsmall := h.small
  have hle : (piece l bufsize index).length ≤ l.length := by
    rw [piece, List.length_take, List.length_drop]
    omega
  have hwritten : 0 + (piece l bufsize index ++ [0]).length ≤ b.length := by
    rw [List.length_append, List.length_singleton]
    omega
  have hpoints : Points init (.apart (overwrite b 0 (piece l bufsize index ++ [0])))
      (piece l bufsize index) :=
    points_apart init (piece_nonzero h.nonzero bufsize index) (by omega)
      (prefix_overwrite List.nil_prefix hwritten)
  obtain ⟨out, hout, hcopied⟩ := sound_init.copyPointer hpoints fresh
  obtain ⟨out', hout', -, htext⟩ := h.substring index (index + (bufsize - 1)) fresh fresh'
  refine ⟨_, out, out', getBytes_eq h hsize hfit index, length_overwrite hwritten, ?_, hout,
    .inl (hcopied.holds (.inr ⟨hfresh, hpoints.small⟩)), hout', ?_⟩
  · intro k hk
    rw [getElem?_overwrite (Nat.zero_le _), if_neg]
    rw [List.length_append, List.length_singleton]
    omega
  · have hslice := htext hfresh'
    rwa [Nat.max_eq_right (Nat.le_add_right _ _), Nat.min_eq_left (Nat.le_add_right _ _),
      List.drop_take, Nat.add_sub_cancel_left] at hslice

end Find

/-- `"abcbc"` has `"bc"` at 1 and behind it at 3. -/
theorem searches_agree_of_five :
    ∃ r, indexOf ⟨some [97, 98, 99, 98, 99, 0, 7], 6, 5⟩ ⟨some [98, 99, 0], 2, 2⟩ 2 = some r ∧
      (r ≠ -1 → ∃ i : ℕ, r = i ∧ MatchUsable [98, 99] ⟨some [97, 98, 99, 98, 99, 0, 7], 6, 5⟩
        ⟨some [98, 99, 0], 2, 2⟩ 2 i) := by
  have hs : Holds [97, 98, 99, 98, 99] ⟨some [97, 98, 99, 98, 99, 0, 7], 6, 5⟩ := by
    constructor <;> decide
  have ht : Holds [98, 99] ⟨some [98, 99, 0], 2, 2⟩ := by
    constructor <;> decide
  obtain ⟨r, hr, -, -, hfound⟩ := searches_agree hs ht (by decide) 2
  exact ⟨r, hr, hfound⟩

/-- The two characters of `"abc"` from 1 on, in a buffer of five bytes that is said to have
three. -/
theorem getBytes_roundTrip_of_three : ∃ b' out,
    getBytes (some [7, 7, 7, 7, 7]) 3 1 ⟨some [97, 98, 99, 0], 3, 3⟩ = some (some b') ∧
      ofCstr (some (.apart b')) (some fun _ => 5) = some out ∧ HasText [98, 99] out := by
  have h : HasText [97, 98, 99] ⟨some [97, 98, 99, 0], 3, 3⟩ := by
    left
    constructor <;> decide
  have hfresh : (some fun _ => 5 : Fresh).isSome := rfl
  obtain ⟨b', out, -, hb', -, -, hout, htext, -⟩ := getBytes_roundTrip h (show 0 < 3 by decide)
    (show 3 ≤ [(7 : Byte), 7, 7, 7, 7].length by decide) 1 hfresh hfresh
  exact ⟨b', out, hb', hout, htext⟩

end WString

end FrameworkXC32
