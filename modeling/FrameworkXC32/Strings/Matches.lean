import FrameworkXC32.Strings.Growth
import Mathlib.Order.Bounds.Basic

/-!
# Where a string occurs in another one

`startsWith`, `endsWith` and the `lastIndexOf` of a string. That nothing is read behind the two
terminators is said by strings whose blocks end there: a call that reads further fails on them.
-/

namespace FrameworkXC32
open Machine Block CString

namespace WString

/-- The text `m` stands at `offset` in the text `l`. -/
def OccursAt (m l : List Byte) (offset : ℕ) : Prop :=
  offset + m.length ≤ l.length ∧ m <+: l.drop offset

instance (m l : List Byte) (offset : ℕ) : Decidable (OccursAt m l offset) :=
  inferInstanceAs (Decidable (_ ∧ _))

/-- The test answers whether `p` holds, and reads nothing behind the terminators. -/
def Answers (test : WString → WString → Option Bool) (s t : WString) (p : Prop) : Prop :=
  ∃ r, test s t = some r ∧ test s.fitted t.fitted = some r ∧ (r = true ↔ p)

section Affixes

variable {l m : List Byte} {s t : WString}

lemma charCode_injective : Function.Injective charCode :=
  fun _ _ h => BitVec.eq_of_toNat_eq (Int.ofNat.inj h)

/-- A test that works on any string that holds the text reads nothing behind it. -/
lemma Holds.answers {test : WString → WString → Option Bool} {p : Prop} (hs : Holds l s)
    (ht : Holds m t)
    (h : ∀ s t, Holds l s → Holds m t → ∃ r, test s t = some r ∧ (r = true ↔ p)) :
    Answers test s t p := by
  obtain ⟨r, hr, hiff⟩ := h s t hs ht
  obtain ⟨r', hr', hiff'⟩ := h s.fitted t.fitted hs.fitted ht.fitted
  have heq : r' = r := Bool.eq_iff_iff.mpr (hiff'.trans hiff.symm)
  exact ⟨r, hr, heq ▸ hr', hiff⟩

lemma OccursAt.length_le {offset : ℕ} (h : OccursAt m l offset) : m.length ≤ l.length := by
  have hle := h.1
  omega

lemma occursAt_iff {offset : ℕ} (hle : offset ≤ l.length) :
    OccursAt m l offset ↔ m <+: l.drop offset := by
  constructor
  · exact And.right
  · intro h
    have hlen := h.length_le
    rw [List.length_drop] at hlen
    exact ⟨by omega, h⟩

lemma Holds.drop_eq (h : Holds l s) {offset : ℕ} (hle : offset ≤ l.length) :
    ∃ rest, s.mem.drop offset = l.drop offset ++ 0 :: rest := by
  obtain ⟨rest, hrest⟩ := h.mem_eq
  refine ⟨rest, ?_⟩
  rw [hrest, List.drop_append_of_le_length hle]

/-- The difference of the lengths in the guard has wrapped around, and lets an offset through that
is behind the terminator. -/
def ReadsBehind (l m : List Byte) (offset : ℕ) : Prop :=
  l.length < m.length ∧ l.length < offset ∧ offset + m.length ≤ l.length + 2 ^ 32

instance (l m : List Byte) (offset : ℕ) : Decidable (ReadsBehind l m offset) :=
  inferInstanceAs (Decidable (_ ∧ _ ∧ _))

lemma startsWithFrom_of_ok (hs : Holds l s) (ht : Holds m t) {offset : ℕ}
    (hok : ¬ReadsBehind l m offset) :
    ∃ r, s.startsWithFrom t offset = some r ∧ (r = true ↔ OccursAt m l offset) := by
  have hlens := hs.len
  have hlent := ht.len
  have hsmall := HasText.small (.inl hs)
  have hsmall' := HasText.small (.inl ht)
  have hbuffers : s.buffer.isNone = false ∧ t.buffer.isNone = false := by
    rw [hs.buffer, ht.buffer]
    exact ⟨rfl, rfl⟩
  unfold startsWithFrom
  by_cases hguard : offset > sizeSub s.len t.len
  · refine ⟨false, if_pos (.inl hguard), iff_of_false Bool.false_ne_true fun hocc => ?_⟩
    have hle := hocc.length_le
    have hfits := hocc.1
    rw [sizeSub_eq (by omega) (by omega)] at hguard
    omega
  -- a guard that has not wrapped around keeps the offset within the text
  · have hinside : offset ≤ l.length := by
      unfold ReadsBehind at hok
      unfold sizeSub at hguard
      omega
    obtain ⟨rest, hrest⟩ := hs.drop_eq hinside
    obtain ⟨rest', hrest'⟩ := ht.mem_eq
    obtain ⟨r, hr, hzero⟩ := strncmp_eq charCode_injective (notMem_drop hs.nonzero offset)
      ht.nonzero rest (0 :: rest')
    refine ⟨decide (r = 0), ?_, ?_⟩
    · rw [if_neg (by simp [hguard, hbuffers]), hrest, hrest', hlent, hr]
      rfl
    · rw [decide_eq_true_iff, hzero, occursAt_iff hinside]

/-- The first character that is compared is behind the terminator already. -/
lemma startsWithFrom_of_readsBehind (hs : Holds l s) (ht : Holds m t) {offset : ℕ}
    (hbehind : ReadsBehind l m offset) : s.fitted.startsWithFrom t.fitted offset = none := by
  obtain ⟨hlong, houtside, hwrap⟩ := hbehind
  have hsmall' := HasText.small (.inl ht)
  have hnone : (l ++ [(0 : Byte)]).drop offset = [] := by
    apply List.drop_of_length_le
    rw [List.length_append, List.length_singleton]
    exact houtside
  have hguard : ¬offset > sizeSub l.length m.length := by
    unfold sizeSub
    omega
  obtain ⟨n, hn⟩ : ∃ n, m.length = n + 1 := ⟨m.length - 1, by omega⟩
  rw [hs.fitted_eq, ht.fitted_eq]
  unfold startsWithFrom
  rw [if_neg (by simp [hguard])]
  change Option.map _ (strncmp charCode m.length ((l ++ [0]).drop offset) (m ++ [0])) = none
  rw [hnone, hn]
  rfl

lemma startsWith_eq (hs : Holds l s) (ht : Holds m t) :
    ∃ r, s.startsWith t = some r ∧ (r = true ↔ OccursAt m l 0) := by
  have hlens := hs.len
  have hlent := ht.len
  unfold startsWith
  by_cases hshort : s.len < t.len
  · refine ⟨false, if_pos hshort, iff_of_false Bool.false_ne_true fun hocc => ?_⟩
    have hle := hocc.length_le
    omega
  · rw [if_neg hshort]
    apply startsWithFrom_of_ok hs ht
    unfold ReadsBehind
    omega

lemma endsWith_eq (hs : Holds l s) (ht : Holds m t) :
    ∃ r, s.endsWith t = some r ∧
      (r = true ↔ m.length ≤ l.length ∧ OccursAt m l (l.length - m.length)) := by
  have hlens := hs.len
  have hlent := ht.len
  have hbuffers : s.buffer.isNone = false ∧ t.buffer.isNone = false := by
    rw [hs.buffer, ht.buffer]
    exact ⟨rfl, rfl⟩
  unfold endsWith
  by_cases hshort : s.len < t.len
  · refine ⟨false, if_pos (.inl hshort), iff_of_false Bool.false_ne_true fun hocc => ?_⟩
    have hle := hocc.1
    omega
  · have hle : m.length ≤ l.length := by omega
    obtain ⟨rest, hrest⟩ := hs.drop_eq (Nat.sub_le l.length m.length)
    obtain ⟨rest', hrest'⟩ := ht.mem_eq
    obtain ⟨r, hr, hzero⟩ := strcmp_eq charCode_injective
      (notMem_drop hs.nonzero (l.length - m.length)) ht.nonzero rest rest'
    have hsuffix : l.drop (l.length - m.length) = m ↔ OccursAt m l (l.length - m.length) := by
      rw [occursAt_iff (Nat.sub_le _ _)]
      constructor
      · intro h
        rw [h]
      · intro h
        exact (h.eq_of_length (by rw [List.length_drop]; omega)).symm
    refine ⟨decide (r = 0), ?_, ?_⟩
    · rw [if_neg (by simp [hshort, hbuffers]), hlens, hlent, hrest, hrest', hr]
      rfl
    · rw [decide_eq_true_iff, hzero, hsuffix]
      exact (and_iff_right hle).symm

/-- The three tests are exact and stay within the two texts and their terminators. -/
structure AffixTests (l m : List Byte) (s t : WString) (offset : ℕ) : Prop where
  startsWithFrom : Answers (fun s t => s.startsWithFrom t offset) s t (OccursAt m l offset)
  startsWith : Answers WString.startsWith s t (OccursAt m l 0)
  endsWith : Answers WString.endsWith s t
    (m.length ≤ l.length ∧ OccursAt m l (l.length - m.length))

/-- The tests are exact and in bounds but for offsets behind a text that is shorter than the one
looked for. -/
theorem affixTests_iff (hs : Holds l s) (ht : Holds m t) (offset : ℕ) :
    AffixTests l m s t offset ↔ ¬ReadsBehind l m offset := by
  constructor
  · rintro ⟨⟨r, -, hfitted, -⟩, -, -⟩ hbehind
    dsimp only at hfitted
    rw [startsWithFrom_of_readsBehind hs ht hbehind] at hfitted
    cases hfitted
  · intro hok
    constructor
    · exact hs.answers ht fun _ _ hs ht => startsWithFrom_of_ok hs ht hok
    · exact hs.answers ht fun _ _ hs ht => startsWith_eq hs ht
    · exact hs.answers ht fun _ _ hs ht => endsWith_eq hs ht

end Affixes

/-- `"abc"` has `"bc"` at 1 and at its end, but does not start with it. -/
theorem affixTests_of_three :
    AffixTests [97, 98, 99] [98, 99] ⟨some [97, 98, 99, 0, 7], 4, 3⟩ ⟨some [98, 99, 0], 2, 2⟩
      1 := by
  have hs : Holds [97, 98, 99] ⟨some [97, 98, 99, 0, 7], 4, 3⟩ := by
    constructor <;> decide
  have ht : Holds [98, 99] ⟨some [98, 99, 0], 2, 2⟩ := by
    constructor <;> decide
  exact (affixTests_iff hs ht 1).mpr (by decide)

/-- `"a"`, with what a longer text has left behind the terminator, starts with `"xyz"` at 2. -/
theorem affixTests_fails_behind_terminator :
    startsWithFrom ⟨some [97, 0, 120, 121, 122, 0], 5, 1⟩ ⟨some [120, 121, 122, 0], 3, 3⟩ 2 =
        some true ∧
      ¬AffixTests [97] [120, 121, 122] ⟨some [97, 0, 120, 121, 122, 0], 5, 1⟩
        ⟨some [120, 121, 122, 0], 3, 3⟩ 2 := by
  have hs : Holds [97] ⟨some [97, 0, 120, 121, 122, 0], 5, 1⟩ := by
    constructor <;> decide
  have ht : Holds [120, 121, 122] ⟨some [120, 121, 122, 0], 3, 3⟩ := by
    constructor <;> decide
  refine ⟨by decide, ?_⟩
  rintro ⟨⟨r, -, hfitted, -⟩, -, -⟩
  dsimp only at hfitted
  rw [startsWithFrom_of_readsBehind hs ht (by decide)] at hfitted
  cases hfitted

section LastMatch

variable {l m : List Byte} {s t : WString}

/-- The right-most place not behind `fromIndex` where the text is found, `-1` for none. -/
structure IsLastMatch (m l : List Byte) (fromIndex : ℕ) (r : ℤ) : Prop where
  found : r ≠ -1 →
    ∃ i : ℕ, r = i ∧ IsGreatest {i | i ≤ min fromIndex (l.length - 1) ∧ OccursAt m l i} i
  missing : r = -1 ↔ m = [] ∨ l = [] ∨ l.length < m.length ∨
    ∀ i ≤ min fromIndex (l.length - 1), ¬OccursAt m l i

lemma isLastMatch_of_refused {fromIndex : ℕ} (h : m = [] ∨ l = [] ∨ l.length < m.length) :
    IsLastMatch m l fromIndex (-1) := by
  refine ⟨fun hne => absurd rfl hne, iff_of_true rfl ?_⟩
  rcases h with h | h | h
  · exact .inl h
  · exact .inr (.inl h)
  · exact .inr (.inr (.inl h))

lemma isLastMatch_of_isLast {fromIndex : ℕ} (hm : m ≠ []) (hl : l ≠ [])
    (hle : m.length ≤ l.length) {r : ℤ}
    (h : Search.IsLast m l (min fromIndex (l.length - 1) + 1) r) :
    IsLastMatch m l fromIndex r := by
  have hpos := List.length_pos_of_ne_nil hl
  have hmatch : ∀ i ≤ min fromIndex (l.length - 1), (OccursAt m l i ↔ m <+: l.drop i) :=
    fun i hi => occursAt_iff (by omega)
  rcases h with ⟨rfl, hnone⟩ | ⟨i, rfl, hi, hat, hlast⟩
  · refine ⟨fun hne => absurd rfl hne, iff_of_true rfl (.inr (.inr (.inr fun i hi hocc => ?_)))⟩
    exact hnone i (by omega) ((hmatch i hi).mp hocc)
  · have hi' : i ≤ min fromIndex (l.length - 1) := Nat.le_of_lt_succ hi
    have hocc := (hmatch i hi').mpr hat
    constructor
    · refine fun _ => ⟨i, rfl, ⟨hi', hocc⟩, ?_⟩
      rintro q ⟨hq, hqocc⟩
      by_contra hlt
      exact hlast q (by omega) (by omega) ((hmatch q hq).mp hqocc)
    · apply iff_of_false
      · omega
      · rintro (h | h | h | h)
        · exact hm h
        · exact hl h
        · omega
        · exact h i hi' hocc

lemma lastIndexOf_isLastMatch (hs : Holds l s) (ht : Holds m t) (fromIndex : ℕ) :
    ∃ r, s.lastIndexOf t fromIndex = some r ∧ IsLastMatch m l fromIndex r := by
  have hlens := hs.len
  have hlent := ht.len
  by_cases hrefused : m = [] ∨ l = [] ∨ l.length < m.length
  · refine ⟨-1, ?_, isLastMatch_of_refused hrefused⟩
    unfold lastIndexOf
    rw [if_pos]
    rw [hlens, hlent, List.length_eq_zero_iff, List.length_eq_zero_iff]
    exact hrefused
  · obtain ⟨hm, hl, hlong⟩ : m ≠ [] ∧ l ≠ [] ∧ ¬l.length < m.length := by
      simpa only [not_or] using hrefused
    have hpos := List.length_pos_of_ne_nil hl
    have hpos' := List.length_pos_of_ne_nil hm
    -- an index behind the text is the same as its last one
    have hclip : s.lastIndexOf t fromIndex = s.lastIndexOf t (min fromIndex (l.length - 1)) := by
      unfold lastIndexOf
      congr 1
      dsimp only
      by_cases hle : fromIndex ≥ s.len
      · rw [if_pos hle, if_neg (by omega), Nat.min_eq_right (by omega), hlens]
      · rw [if_neg hle, if_neg (by omega), Nat.min_eq_left (by omega)]
    obtain ⟨r, hr, hlast⟩ := lastIndexOf_eq hs ht.cstring_eq hlent hm
      (show min fromIndex (l.length - 1) < l.length by omega)
    exact ⟨r, hclip.trans hr, isLastMatch_of_isLast hm hl (not_lt.mp hlong) hlast⟩

lemma IsLastMatch.unique {fromIndex : ℕ} {r r' : ℤ} (h : IsLastMatch m l fromIndex r)
    (h' : IsLastMatch m l fromIndex r') : r = r' := by
  by_cases hr : r = -1
  · rw [hr]
    exact (h'.missing.mpr (h.missing.mp hr)).symm
  · have hr' : r' ≠ -1 := fun heq => hr (h.missing.mpr (h'.missing.mp heq))
    obtain ⟨i, rfl, hi⟩ := h.found hr
    obtain ⟨j, rfl, hj⟩ := h'.found hr'
    rw [IsGreatest.unique hi hj]

/-- `lastIndexOf` gives the right-most match and reads nothing behind the terminators. -/
theorem lastIndexOf_exact (hs : Holds l s) (ht : Holds m t) (fromIndex : ℕ) :
    ∃ r, s.lastIndexOf t fromIndex = some r ∧
      s.fitted.lastIndexOf t.fitted fromIndex = some r ∧ IsLastMatch m l fromIndex r := by
  obtain ⟨r, hr, hlast⟩ := lastIndexOf_isLastMatch hs ht fromIndex
  obtain ⟨r', hr', hlast'⟩ := lastIndexOf_isLastMatch hs.fitted ht.fitted fromIndex
  rw [hlast'.unique hlast] at hr'
  exact ⟨r, hr, hr', hlast⟩

end LastMatch

/-- Of the overlapping matches in `"aaaa"` the one at 1 reaches over it. -/
theorem lastIndexOf_exact_of_overlap :
    ∃ r, lastIndexOf ⟨some [97, 97, 97, 97, 0], 4, 4⟩ ⟨some [97, 97, 0], 2, 2⟩ 1 = some r ∧
      IsLastMatch [97, 97] [97, 97, 97, 97] 1 r := by
  have hs : Holds [97, 97, 97, 97] ⟨some [97, 97, 97, 97, 0], 4, 4⟩ := by
    constructor <;> decide
  have ht : Holds [97, 97] ⟨some [97, 97, 0], 2, 2⟩ := by
    constructor <;> decide
  obtain ⟨r, hr, -, hlast⟩ := lastIndexOf_exact hs ht 1
  exact ⟨r, hr, hlast⟩

end WString

end FrameworkXC32
