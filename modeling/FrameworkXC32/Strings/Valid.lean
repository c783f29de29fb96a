import FrameworkXC32.Strings.Model

/-!
# Valid strings

The representation invariant of `String`, and what the methods that get memory do to it.
-/

namespace FrameworkXC32
open Machine Block CString

namespace WString

/-- The buffer is null and the string empty, or the buffer holds `len` characters that are not
zero and a zero behind them. -/
def Valid (s : WString) : Prop :=
  match s.buffer with
  | none => s.len = 0 ∧ s.capacity = 0
  | some b => b.length = s.capacity + 1 ∧ s.len ≤ s.capacity ∧ b[s.len]? = some 0 ∧
      0 ∉ b.take s.len

instance (s : WString) : Decidable s.Valid := by
  unfold Valid
  split <;> infer_instance

/-- The characters of a string. -/
def text (s : WString) : List Byte := s.mem.take s.len

/-- A buffer holds the text `l` and its terminator. -/
structure Holds (l : List Byte) (s : WString) : Prop where
  nonzero : 0 ∉ l
  len : s.len = l.length
  buffer : s.buffer = some s.mem
  length : s.mem.length = s.capacity + 1
  shows : l ++ [0] <+: s.mem
  small : s.capacity + 1 < 2 ^ 31

/-- The text is `l`; there may be no buffer for the empty one. -/
def HasText (l : List Byte) (s : WString) : Prop := Holds l s ∨ l = [] ∧ s = init

/-- What stays true of every string. -/
def Sound (s : WString) : Prop := ∃ l, HasText l s

section Holds

variable {l t : List Byte} {s : WString}

lemma Holds.mem_eq (h : Holds l s) : ∃ rest, s.mem = l ++ 0 :: rest := by
  obtain ⟨rest, hrest⟩ := h.shows
  refine ⟨rest, ?_⟩
  rw [← hrest, List.append_assoc, List.singleton_append]

lemma Holds.length_le (h : Holds l s) : l.length ≤ s.capacity := by
  have hle := h.shows.length_le
  rw [h.length, List.length_append, List.length_singleton] at hle
  omega

lemma Holds.len_le (h : Holds l s) : s.len ≤ s.capacity := h.len.trans_le h.length_le

lemma Holds.text_eq (h : Holds l s) : s.text = l := by
  obtain ⟨rest, hrest⟩ := h.mem_eq
  unfold text
  rw [hrest, h.len, List.take_left]

lemma Holds.valid (h : Holds l s) : s.Valid := by
  obtain ⟨rest, hrest⟩ := h.mem_eq
  have hle := h.length_le
  unfold Valid
  rw [h.buffer]
  refine ⟨h.length, by rw [h.len]; exact hle, ?_, ?_⟩
  · rw [hrest, h.len, List.getElem?_append_right (Nat.le_refl _), Nat.sub_self,
      List.getElem?_cons_zero]
  · rw [hrest, h.len, List.take_left]
    exact h.nonzero

lemma Holds.cstring_eq (h : Holds l s) : cstring s.mem = some l := by
  obtain ⟨rest, hrest⟩ := h.mem_eq
  rw [hrest, CString.cstring_eq h.nonzero]

/-- The same string in a block that ends at its terminator. -/
def fitted (s : WString) : WString where
  buffer := s.buffer.map fun b => b.take (s.len + 1)
  capacity := s.len
  len := s.len

lemma Holds.fitted_eq (h : Holds l s) : s.fitted = ⟨some (l ++ [0]), l.length, l.length⟩ := by
  obtain ⟨rest, hrest⟩ := h.mem_eq
  have hroom : s.len + 1 = (l ++ [(0 : Byte)]).length := by
    rw [List.length_append, List.length_singleton, h.len]
  have htake : s.mem.take (s.len + 1) = l ++ [0] := by
    rw [hrest, ← List.singleton_append, ← List.append_assoc, hroom, List.take_left]
  rw [fitted, h.buffer, Option.map_some, htake, h.len]

lemma Holds.fitted (h : Holds l s) : Holds l s.fitted := by
  have hle := h.length_le
  have hsmall := h.small
  rw [h.fitted_eq]
  refine ⟨h.nonzero, rfl, rfl, ?_, List.prefix_refl _, ?_⟩
  · change (l ++ [(0 : Byte)]).length = _
    rw [List.length_append, List.length_singleton]
  · change l.length + 1 < _
    omega

lemma holds_mk {b : List Byte} {capacity : ℕ} (hl : 0 ∉ l) (hlength : b.length = capacity + 1)
    (hsmall : capacity + 1 < 2 ^ 31) (hshows : l ++ [0] <+: b) :
    Holds l ⟨some b, capacity, l.length⟩ :=
  ⟨hl, rfl, rfl, hlength, hshows, hsmall⟩

lemma prefix_overwrite {b src : List Byte} (hl : l <+: b) (hfit : l.length + src.length ≤ b.length) :
    l ++ src <+: overwrite b l.length src := by
  obtain ⟨rest, rfl⟩ := hl
  unfold overwrite
  rw [List.take_left]
  exact List.prefix_append _ _

lemma holds_terminated {b : List Byte} {capacity : ℕ} (hl : 0 ∉ l)
    (hlength : b.length = capacity + 1) (hsmall : capacity + 1 < 2 ^ 31) (hshows : l <+: b)
    (hle : l.length ≤ capacity) : ∃ s, setByte l.length 0 ⟨some b, capacity, l.length⟩ = some s ∧
      Holds l s ∧ s.capacity = capacity := by
  have hfit : l.length + [(0 : Byte)].length ≤ b.length := by
    rw [List.length_singleton]
    omega
  refine ⟨⟨some (overwrite b l.length [0]), capacity, l.length⟩, ?_,
    holds_mk hl ?_ hsmall (prefix_overwrite hshows hfit), rfl⟩
  · unfold setByte store
    change Option.map _ (copyIn b l.length [0]) = _
    rw [copyIn_eq hfit]
    rfl
  · rw [length_overwrite hfit, hlength]

lemma Holds.cleared (h : Holds [] s) : ∃ s', s.setByte 0 0 = some s' ∧ Holds [] s' ∧
    s'.capacity = s.capacity := by
  have hset := holds_terminated (l := []) (b := s.mem) h.nonzero h.length h.small List.nil_prefix
    (Nat.zero_le _)
  have hs : (⟨some s.mem, s.capacity, 0⟩ : WString) = s := by
    have hlen : s.len = 0 := h.len
    rw [← h.buffer, ← hlen]
  rwa [List.length_nil, hs] at hset

lemma HasText.text_eq (h : HasText l s) : s.text = l := by
  rcases h with h | ⟨rfl, rfl⟩
  · exact h.text_eq
  · rfl

lemma HasText.len (h : HasText l s) : s.len = l.length := by
  rcases h with h | ⟨rfl, rfl⟩
  · exact h.len
  · rfl

lemma HasText.nonzero (h : HasText l s) : 0 ∉ l := by
  rcases h with h | ⟨rfl, -⟩
  · exact h.nonzero
  · exact List.not_mem_nil

lemma HasText.small (h : HasText l s) : l.length + 1 < 2 ^ 31 := by
  rcases h with h | ⟨rfl, -⟩
  · have hle := h.length_le
    have hsmall := h.small
    omega
  · decide

lemma HasText.holds (h : HasText l s) (hne : s.len ≠ 0) : Holds l s := by
  rcases h with h | ⟨rfl, rfl⟩
  · exact h
  · exact absurd rfl hne

lemma HasText.holds_of_ne_nil (h : HasText l s) (hne : l ≠ []) : Holds l s := by
  apply h.holds
  rw [h.len]
  exact fun hzero => hne (List.length_eq_zero_iff.mp hzero)

lemma HasText.sound (h : HasText l s) : s.Sound := ⟨l, h⟩

lemma Holds.sound (h : Holds l s) : s.Sound := ⟨l, .inl h⟩

lemma sound_init : init.Sound := ⟨[], .inr ⟨rfl, rfl⟩⟩

lemma Sound.hasText (h : s.Sound) : HasText s.text s := by
  obtain ⟨l, hl⟩ := h
  rwa [hl.text_eq]

theorem Sound.valid (h : s.Sound) : s.Valid := by
  obtain ⟨l, hl | ⟨-, rfl⟩⟩ := h
  · exact hl.valid
  · exact ⟨rfl, rfl⟩

end Holds

/-! ### Memory management -/

section Reserve

variable {l t : List Byte} {s : WString} {size : ℕ} {fresh : Fresh}

/-- `reserve` finds enough memory. -/
def CanReserve (size : ℕ) (fresh : Fresh) (s : WString) : Prop :=
  s.Suffices size ∨ fresh.isSome ∧ size + 1 < 2 ^ 31

instance (size : ℕ) (fresh : Fresh) (s : WString) : Decidable (s.CanReserve size fresh) :=
  inferInstanceAs (Decidable (_ ∨ _))

lemma changeBuffer_fails (hsize : size + 1 < 2 ^ 32)
    (hno : ¬(fresh.isSome ∧ size + 1 < 2 ^ 31)) :
    s.changeBuffer size fresh = some (false, s) := by
  unfold changeBuffer realloc
  rw [Nat.mod_eq_of_lt hsize, if_neg (by omega)]
  split
  · rfl
  · cases fresh with
    | none => rfl
    | some raw => exact absurd ⟨rfl, by omega⟩ hno

lemma Holds.changeBuffer (h : Holds l s) (hsize : s.capacity ≤ size) (hfresh : fresh.isSome)
    (hlt : size + 1 < 2 ^ 31) : ∃ s', s.changeBuffer size fresh = some (true, s') ∧
      Holds l s' ∧ s'.capacity = size := by
  obtain ⟨raw, rfl⟩ := Option.isSome_iff_exists.mp hfresh
  have hlength := h.length
  have htake : s.mem.take (size + 1) = s.mem := List.take_of_length_le (by omega)
  have hblock : realloc s.buffer (size + 1) (some raw) =
      some (some (s.mem ++ (List.range (size + 1 - s.mem.length)).map raw)) := by
    unfold realloc
    rw [if_neg (by omega), if_neg (by omega)]
    change some (some (s.mem.take (size + 1) ++ _)) = _
    rw [htake]
    rfl
  unfold WString.changeBuffer
  rw [Nat.mod_eq_of_lt (by omega), hblock]
  refine ⟨_, rfl, ⟨h.nonzero, h.len, rfl, ?_, ?_, hlt⟩, rfl⟩
  · change (s.mem ++ (List.range (size + 1 - s.mem.length)).map raw).length = size + 1
    rw [List.length_append, List.length_map, List.length_range]
    omega
  · exact h.shows.trans (List.prefix_append _ _)

lemma reserve_suffices (h : s.Suffices size) : s.reserve size fresh = some (true, s) := if_pos h

lemma reserve_fails (hsize : size + 1 < 2 ^ 32) (hno : ¬s.CanReserve size fresh) :
    s.reserve size fresh = some (false, s) := by
  unfold CanReserve at hno
  push Not at hno
  unfold reserve
  rw [if_neg hno.1, changeBuffer_fails hsize fun h => absurd h.2 (Nat.not_lt.mpr (hno.2 h.1))]
  rfl

lemma HasText.reserve (h : HasText l s) (hcan : s.CanReserve size fresh) :
    ∃ s', s.reserve size fresh = some (true, s') ∧ Holds l s' ∧ size ≤ s'.capacity := by
  by_cases hsuffices : s.Suffices size
  · refine ⟨s, reserve_suffices hsuffices, ?_, hsuffices.2⟩
    rcases h with h | ⟨-, rfl⟩
    · exact h
    · exact absurd hsuffices.1 (by decide)
  · obtain ⟨hfresh, hlt⟩ := hcan.resolve_left hsuffices
    unfold WString.reserve
    rw [if_neg hsuffices]
    rcases h with h | ⟨rfl, rfl⟩
    · have hbuffer : s.buffer.isSome := by
        rw [h.buffer]
        rfl
      have hmore : ¬s.capacity ≥ size := fun hge => hsuffices ⟨hbuffer, hge⟩
      obtain ⟨s', hchange, hholds, hcapacity⟩ := h.changeBuffer (by omega) hfresh hlt
      rw [hchange, Option.bind_some, if_pos rfl]
      split
      · rename_i hlen
        have hempty : l = [] := List.length_eq_zero_iff.mp (hholds.len.symm.trans hlen)
        subst hempty
        obtain ⟨s'', hset, hholds', hcapacity'⟩ := hholds.cleared
        exact ⟨s'', congrArg (Option.map _) hset, hholds', by omega⟩
      · exact ⟨s', rfl, hholds, by omega⟩
    · obtain ⟨raw, rfl⟩ := Option.isSome_iff_exists.mp hfresh
      have hblock : init.changeBuffer size (some raw) =
          some (true, ⟨some ((List.range (size + 1)).map raw), size, 0⟩) := by
        unfold changeBuffer realloc
        rw [Nat.mod_eq_of_lt (by omega), if_neg fun hno => absurd hno.1 (by decide),
          if_neg (by omega)]
        rfl
      obtain ⟨s', hset, hholds, hcapacity⟩ := holds_terminated (l := [])
        (b := (List.range (size + 1)).map raw) List.not_mem_nil
        (by rw [List.length_map, List.length_range]) hlt List.nil_prefix (Nat.zero_le _)
      rw [hblock, Option.bind_some, if_pos rfl, if_pos rfl]
      exact ⟨s', congrArg (Option.map _) hset, hholds, by omega⟩

end Reserve

end WString

end FrameworkXC32
