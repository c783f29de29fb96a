import FrameworkXC32.Strings.Edits
import Mathlib.Data.List.DropRight

/-!
# Slices of strings

`substring` and `lastIndexOf` write a zero into the buffer of a constant string and take it back;
`trim` runs two pointers towards each other.
-/

namespace FrameworkXC32
open Machine Block CString

namespace WString

section Slices

variable {l : List Byte} {s : WString}

/-! ### The patched terminator -/

lemma overwrite_back {b : List Byte} {i : ℕ} {c : Byte} (hc : b[i]? = some c) (a : Byte) :
    overwrite (overwrite b i [a]) i [c] = b := by
  have hi : i < b.length := (List.getElem?_eq_some_iff.mp hc).1
  have hfit : i + [a].length ≤ b.length := hi
  have hlen : (overwrite b i [a]).length = b.length := length_overwrite hfit
  apply List.ext_getElem?
  intro j
  rw [getElem?_overwrite (by omega), getElem?_overwrite (by omega), List.length_singleton,
    List.length_singleton]
  by_cases hj : j = i
  · rw [if_pos (by omega), hj, Nat.sub_self, hc, List.getElem?_cons_zero]
  · rw [if_neg (by omega), if_neg (by omega)]

lemma setByte_eq {i : ℕ} (hi : i < s.mem.length) (c : Byte) :
    s.setByte i c = some { s with buffer := some (overwrite s.mem i [c]) } := by
  unfold WString.setByte store
  rw [copyIn_eq hi]
  rfl

/-- A zero at `right` ends the text there, and the character that was there brings it back. -/
lemma Holds.patched (h : Holds l s) {right : ℕ} (hle : right ≤ l.length) : ∃ temp b,
    load s.mem right = some temp ∧ s.setByte right 0 = some { s with buffer := some b } ∧
      l.take right ++ [0] <+: b ∧
      WString.setByte right temp { s with buffer := some b } = some s := by
  have hlength := h.length
  have hcapacity := h.length_le
  have hright : right < s.mem.length := by omega
  have htake : (l.take right).length = right := by
    rw [List.length_take, Nat.min_eq_left hle]
  have hfit : (l.take right).length + [(0 : Byte)].length ≤ s.mem.length := by
    rw [htake]
    exact hright
  have hcut : l.take right ++ [0] <+: overwrite s.mem (l.take right).length [0] :=
    prefix_overwrite ((List.take_prefix right l).trans (prefix_of_shows h)) hfit
  rw [htake] at hcut
  have htemp : s.mem[right]? = some s.mem[right] := List.getElem?_eq_getElem hright
  refine ⟨s.mem[right], overwrite s.mem right [0], htemp, setByte_eq hright 0, hcut, ?_⟩
  rw [setByte_eq]
  · change some { s with buffer := some (overwrite (overwrite s.mem right [0]) right [_]) } = _
    rw [overwrite_back htemp, ← h.buffer]
  · change right < (overwrite s.mem right [0]).length
    rwa [length_overwrite hright]

lemma Holds.points_cut (h : Holds l s) {left right : ℕ} (hleft : left ≤ right)
    (hle : right ≤ l.length) {b : List Byte} (hcut : l.take right ++ [0] <+: b) (out : WString) :
    Points out (.apart (b.drop left)) ((l.take right).drop left) := by
  have hcapacity := h.length_le
  have hsmall := h.small
  have htake : (l.take right).length = right := by
    rw [List.length_take, Nat.min_eq_left hle]
  obtain ⟨rest, hrest⟩ := hcut
  apply WString.points_apart
  · exact notMem_drop (fun hmem => h.nonzero (List.mem_of_mem_take hmem)) left
  · rw [List.length_drop, htake]
    omega
  · refine ⟨rest, ?_⟩
    rw [← hrest, List.drop_append_of_le_length (by simp; omega),
      List.drop_append_of_le_length (by omega)]

lemma swap_eq (left right : ℕ) :
    (if left > right then (right, left) else (left, right)) = (min left right, max left right) := by
  by_cases hswap : left > right
  · rw [if_pos hswap, Nat.min_eq_right hswap.le, Nat.max_eq_left hswap.le]
  · rw [if_neg hswap, Nat.min_eq_left (Nat.not_lt.mp hswap), Nat.max_eq_right (Nat.not_lt.mp hswap)]

lemma HasText.substring (h : HasText l s) (left right : ℕ) (fresh fresh' : Fresh) :
    ∃ out, s.substring left right fresh fresh' = some (out, s) ∧ out.Sound ∧
      (fresh'.isSome → HasText ((l.take (max left right)).drop (min left right)) out) := by
  have hempty : Points init (.apart [0]) [] :=
    points_apart init List.not_mem_nil (by decide) (List.prefix_refl _)
  obtain ⟨out, hout, hcopied⟩ := sound_init.copyPointer hempty fresh
  have hnothing := hcopied.hasText_nil
  have hlen := h.len
  have hbounds : min left right ≤ max left right := by omega
  unfold WString.substring
  rw [swap_eq]
  generalize min left right = low at hbounds ⊢
  generalize max left right = high at hbounds ⊢
  dsimp only
  rw [hout, Option.bind_some]
  by_cases hlow : low ≥ s.len
  · rw [if_pos hlow, List.drop_of_length_le (by rw [List.length_take]; omega)]
    exact ⟨out, rfl, hnothing.sound, fun _ => hnothing⟩
  · have hholds := h.holds (by omega)
    have hclip : l.take high = l.take (if high > s.len then s.len else high) := by
      split
      · rw [List.take_of_length_le (by omega), List.take_of_length_le (by omega)]
      · rfl
    have hle : (if high > s.len then s.len else high) ≤ l.length := by
      split <;> omega
    have hlow' : low ≤ if high > s.len then s.len else high := by
      split <;> omega
    rw [if_neg hlow, hclip]
    generalize (if high > s.len then s.len else high) = high at hle hlow' ⊢
    obtain ⟨temp, b, htemp, hpatch, hcut, hback⟩ := hholds.patched hle
    have hpoints := hholds.points_cut hlow' hle hcut out
    obtain ⟨out', hout', hcopied'⟩ := hnothing.sound.copyPointer hpoints fresh'
    refine ⟨out', ?_, hcopied'.sound,
      fun hfresh => .inl (hcopied'.holds (.inr ⟨hfresh, hpoints.small⟩))⟩
    rw [htemp, Option.bind_some, hpatch, Option.bind_some]
    change Option.bind (out.assignCstr (some (.apart (b.drop low))) fresh') _ = _
    rw [hout', Option.bind_some, hback]
    rfl

/-! ### The last place of a character -/

/-- The greatest place of `ch` that is not behind `fromIndex`, or -1 when there is none. -/
def IsLastIndex (ch : Byte) (fromIndex : ℕ) (l : List Byte) (r : ℤ) : Prop :=
  (∃ i : ℕ, r = i ∧ fromIndex < l.length ∧ IsGreatest {j | j ≤ fromIndex ∧ l[j]? = some ch} i) ∨
    r = -1 ∧ (l.length ≤ fromIndex ∨ ∀ j ≤ fromIndex, l[j]? ≠ some ch)

lemma HasText.lastIndexOfChar (h : HasText l s) {ch : Byte} (hch : ch ≠ 0) (fromIndex : ℕ) :
    ∃ r, s.lastIndexOfChar ch fromIndex = some (r, s) ∧ IsLastIndex ch fromIndex l r := by
  have hlen := h.len
  unfold WString.lastIndexOfChar
  by_cases hfrom : fromIndex ≥ s.len
  · rw [if_pos hfrom]
    exact ⟨-1, rfl, .inr ⟨rfl, .inl (by omega)⟩⟩
  · have hholds := h.holds (by omega)
    obtain ⟨temp, b, htemp, hpatch, ⟨rest, hrest⟩, hback⟩ :=
      hholds.patched (show fromIndex + 1 ≤ l.length by omega)
    have hnonzero : 0 ∉ l.take (fromIndex + 1) :=
      fun hmem => h.nonzero (List.mem_of_mem_take hmem)
    obtain ⟨found, hfound, hlast⟩ := strrchr_isLast hch hnonzero rest
    rw [List.append_assoc, List.singleton_append] at hrest
    rw [hrest] at hfound
    have hplace : ∀ j, (l.take (fromIndex + 1))[j]? = some ch ↔ j ≤ fromIndex ∧ l[j]? = some ch := by
      intro j
      rw [List.getElem?_take]
      by_cases hj : j < fromIndex + 1
      · rw [if_pos hj]
        exact (and_iff_right (Nat.le_of_lt_succ hj)).symm
      · rw [if_neg hj]
        exact iff_of_false (fun hat => by cases hat) (fun hat => by omega)
    refine ⟨found.elim (-1) fun i => ↑i, ?_, ?_⟩
    · rw [if_neg hfrom, htemp, Option.bind_some, hpatch, Option.bind_some]
      change Option.bind (strrchr b ch) _ = _
      rw [hfound, Option.bind_some, hback]
      rfl
    · cases found with
      | none =>
        refine .inr ⟨rfl, .inr fun j hj hat => ?_⟩
        exact hlast (List.mem_of_getElem? ((hplace j).mpr ⟨hj, hat⟩))
      | some i =>
        refine .inl ⟨i, rfl, by omega, (hplace i).mp hlast.1, ?_⟩
        intro j hj
        exact hlast.2 ((hplace j).mpr hj)

/-! ### `trim` -/

lemma skipSpace_eq (l rest : List Byte) :
    skipSpace (l ++ 0 :: rest) = some (l.takeWhile isspace).length := by
  induction l with
  | nil => rfl
  | cons c l ih =>
    rw [List.cons_append, skipSpace, ih]
    by_cases hc : isspace c
    · rw [if_pos hc, List.takeWhile_cons_of_pos hc]
      rfl
    · rw [if_neg hc, List.takeWhile_cons_of_neg hc]
      rfl

/-- The search from the end of `t`, which has `w` in front of it and does not begin with white
space. It stops in `t`, or right away when there is no `t`. -/
lemma skipSpaceBack_eq (w t rest : List Byte) (ht : ∀ c ∈ t.head?, isspace c = false)
    (hpos : 0 < w.length + t.length) :
    skipSpaceBack (w ++ t ++ rest) w.length (w.length + t.length) =
      some (w.length + (t.rdropWhile isspace).length) := by
  induction t using List.reverseRecOn generalizing rest with
  | nil =>
    obtain ⟨e, he⟩ : ∃ e, w.length = e + 1 := ⟨w.length - 1, by simp at hpos; omega⟩
    have hload : load (w ++ [] ++ rest) e = some w[e] := by
      rw [List.append_nil]
      exact (List.getElem?_append_left (by omega)).trans (List.getElem?_eq_getElem (by omega))
    rw [List.rdropWhile_nil, List.length_nil, Nat.add_zero, he, skipSpaceBack, hload,
      Option.bind_some, if_neg (by omega)]
  | append_singleton t c ih =>
    have hload : load (w ++ (t ++ [c]) ++ rest) (w.length + t.length) = some c := by
      have hassoc : w ++ (t ++ [c]) ++ rest = (w ++ t) ++ c :: rest := by simp
      unfold load
      rw [hassoc, ← List.length_append, List.getElem?_append_right (Nat.le_refl _), Nat.sub_self,
        List.getElem?_cons_zero]
    rw [List.length_append, List.length_singleton, ← Nat.add_assoc, skipSpaceBack, hload,
      Option.bind_some]
    by_cases hc : isspace c
    · have hne : t ≠ [] := by
        rintro rfl
        have hfalse := ht c rfl
        rw [hc] at hfalse
        cases hfalse
      have hhead : ∀ c ∈ t.head?, isspace c = false := by
        intro d hd
        apply ht
        rw [List.head?_append_of_ne_nil t hne]
        exact hd
      have hlength := List.length_pos_of_ne_nil hne
      have hrest := ih (c :: rest) hhead (by omega)
      have hassoc : w ++ (t ++ [c]) ++ rest = w ++ t ++ c :: rest := by simp
      rw [if_pos ⟨hc, Nat.le_add_right _ _⟩, hassoc, hrest, List.rdropWhile_concat_pos _ _ _ hc]
    · rw [if_neg fun h => hc h.1, List.rdropWhile_concat_neg _ _ _ hc, List.length_append,
        List.length_singleton, Nat.add_assoc]

lemma Holds.to_front (h : Holds l s) {start stop : ℕ} (hle : start ≤ stop)
    (hstop : stop ≤ l.length) :
    ∃ b, (if start > 0 then memcpy s.mem 0 (.own start) (stop - start) else some s.mem) = some b ∧
      b.length = s.capacity + 1 ∧ (l.drop start).take (stop - start) <+: b := by
  have hlength := h.length
  have hcapacity := h.length_le
  have hlast : ((l.drop start).take (stop - start)).length = stop - start := by
    rw [List.length_take, List.length_drop]
    omega
  have hshows : (l.drop start).take (stop - start) <+: s.mem.drop start := by
    apply (List.take_prefix _ _).trans
    exact (List.prefix_append _ [0]).trans (h.drop_shows start (by omega))
  have hfit : 0 + ((l.drop start).take (stop - start)).length ≤ s.mem.length := by omega
  by_cases hzero : start > 0
  · have hcopy := memcpy_eq (feeds_own (Nat.zero_le start) hshows) hfit
    rw [hlast] at hcopy
    rw [if_pos hzero, hcopy]
    exact ⟨_, rfl, (length_overwrite hfit).trans hlength, prefix_overwrite List.nil_prefix hfit⟩
  · have hnone : start = 0 := by omega
    subst hnone
    rw [if_neg hzero]
    exact ⟨_, rfl, hlength, hshows⟩

/-- A text without the white space at both of its ends. -/
def trimmed (l : List Byte) : List Byte := (l.dropWhile isspace).rdropWhile isspace

lemma trimmed_leads (l : List Byte) : trimmed l <+: l.dropWhile isspace :=
  List.rdropWhile_prefix isspace _

lemma drop_takeWhile_length (l : List Byte) :
    l.drop (l.takeWhile isspace).length = l.dropWhile isspace := by
  have hdrop : (l.takeWhile isspace ++ l.dropWhile isspace).drop (l.takeWhile isspace).length =
      l.dropWhile isspace := List.drop_left
  rwa [List.takeWhile_append_dropWhile] at hdrop

lemma trimmed_nonzero (hl : 0 ∉ l) : 0 ∉ trimmed l := by
  intro hmem
  have hdrop := (trimmed_leads l).subset hmem
  exact hl ((List.dropWhile_suffix isspace).subset hdrop)

lemma Holds.trim (h : Holds l s) : ∃ s', s.trim = some s' ∧ Holds (trimmed l) s' := by
  unfold WString.trim
  rw [h.buffer]
  dsimp only
  by_cases hlen : s.len = 0
  · have hnil : l = [] := List.length_eq_zero_iff.mp (h.len.symm.trans hlen)
    subst hnil
    rw [if_pos hlen]
    exact ⟨s, rfl, h⟩
  · obtain ⟨rest, hrest⟩ := h.mem_eq
    have hcapacity := h.length_le
    have hlens := h.len
    have hsmall := h.small
    have hsplit : l.takeWhile isspace ++ l.dropWhile isspace = l := List.takeWhile_append_dropWhile
    have hsum : (l.takeWhile isspace).length + (l.dropWhile isspace).length = l.length := by
      rw [← List.length_append, hsplit]
    have hle := (trimmed_leads l).length_le
    have hhead : ∀ c ∈ (l.dropWhile isspace).head?, isspace c = false := by
      intro c hc
      have hnot := List.head?_dropWhile_not isspace l
      rwa [Option.mem_def.mp hc] at hnot
    have hlast : sizeSub ((l.takeWhile isspace).length + (trimmed l).length)
        (l.takeWhile isspace).length = (trimmed l).length := by
      rw [sizeSub_eq (Nat.le_add_right _ _) (by omega), Nat.add_sub_cancel_left]
    have hskip := skipSpace_eq l rest
    have hback := skipSpaceBack_eq (l.takeWhile isspace) (l.dropWhile isspace) (0 :: rest) hhead
      (by omega)
    rw [hsplit, hsum, ← hrest, ← hlens, ← trimmed] at hback
    rw [← hrest] at hskip
    obtain ⟨b, hb, hlengthb, hprefix⟩ := h.to_front
      (Nat.le_add_right (l.takeWhile isspace).length (trimmed l).length) (by omega)
    rw [Nat.add_sub_cancel_left] at hb hprefix
    rw [drop_takeWhile_length, ← List.prefix_iff_eq_take.mp (trimmed_leads l)] at hprefix
    obtain ⟨s', hset, hholds, -⟩ := holds_terminated (trimmed_nonzero h.nonzero) hlengthb hsmall
      hprefix (by omega)
    refine ⟨s', ?_, hholds⟩
    rw [if_neg hlen, hskip, Option.bind_some, hback, Option.bind_some, hlast, hb, Option.bind_some]
    exact hset

lemma HasText.trim (h : HasText l s) : ∃ s', s.trim = some s' ∧ HasText (trimmed l) s' := by
  rcases h with h | ⟨rfl, rfl⟩
  · obtain ⟨s', htrim, h'⟩ := h.trim
    exact ⟨s', htrim, .inl h'⟩
  · exact ⟨init, rfl, .inr ⟨rfl, rfl⟩⟩

/-- On a string with a buffer: `substring` and `lastIndexOf` give the slice and the greatest place
and leave every byte of the string as it was, `remove` takes the characters out, all of them that
there are, and `trim` the white space at both ends. No access leaves the buffer. -/
theorem slices_exact (h : Holds l s) (left right fromIndex index count : ℕ) {ch : Byte}
    (hch : ch ≠ 0) (fresh fresh' : Fresh) :
    (∃ out, s.substring left right fresh fresh' = some (out, s) ∧
      (fresh'.isSome → HasText ((l.take (max left right)).drop (min left right)) out)) ∧
    (∃ r, s.lastIndexOfChar ch fromIndex = some (r, s) ∧ IsLastIndex ch fromIndex l r) ∧
    (∃ s', s.remove index count = some s' ∧ Holds (l.take index ++ l.drop (index + count)) s' ∧
      (l.length ≤ index → s' = s)) ∧
    ∃ s', s.trim = some s' ∧ Holds (trimmed l) s' := by
  obtain ⟨out, hsubstring, -, hout⟩ := HasText.substring (.inl h) left right fresh fresh'
  have hlast := HasText.lastIndexOfChar (.inl h) hch fromIndex
  exact ⟨⟨out, hsubstring, hout⟩, hlast, h.remove index count, h.trim⟩

end Slices

/-- `" aa "` in a buffer of seven bytes. -/
theorem slices_exact_of_four :
    (∃ out, substring 3 1 (some fun _ => 7) (some fun _ => 7)
        ⟨some [32, 97, 97, 32, 0, 5, 5], 6, 4⟩ =
          some (out, ⟨some [32, 97, 97, 32, 0, 5, 5], 6, 4⟩) ∧ HasText [97, 97] out) ∧
    (∃ r, lastIndexOfChar 97 1 ⟨some [32, 97, 97, 32, 0, 5, 5], 6, 4⟩ =
        some (r, ⟨some [32, 97, 97, 32, 0, 5, 5], 6, 4⟩) ∧ IsLastIndex 97 1 [32, 97, 97, 32] r) ∧
    (∃ s', remove 2 (2 ^ 32 - 1) ⟨some [32, 97, 97, 32, 0, 5, 5], 6, 4⟩ = some s' ∧
      Holds [32, 97] s') ∧
    ∃ s', trim ⟨some [32, 97, 97, 32, 0, 5, 5], 6, 4⟩ = some s' ∧ Holds [97, 97] s' := by
  have h : Holds [32, 97, 97, 32] ⟨some [32, 97, 97, 32, 0, 5, 5], 6, 4⟩ := by
    constructor <;> decide
  obtain ⟨⟨out, hsubstring, hout⟩, hlast, ⟨s', hremove, hs', -⟩, htrim⟩ := slices_exact h 3 1 1 2
    (2 ^ 32 - 1) (show (97 : Byte) ≠ 0 by decide) (some fun _ => 7) (some fun _ => 7)
  exact ⟨⟨out, hsubstring, hout rfl⟩, hlast, ⟨s', hremove, hs'⟩, htrim⟩

end WString

end FrameworkXC32
