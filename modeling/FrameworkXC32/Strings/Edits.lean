import FrameworkXC32.Strings.Copies

/-!
# Editing strings

What the methods that change characters in place do to the text of a valid string.
-/

namespace FrameworkXC32
open Machine Block CString

namespace WString

section Edits

variable {l : List Byte} {s : WString}

lemma overwrite_singleton {i : ℕ} (hi : i < l.length) (c : Byte) (rest : List Byte) :
    overwrite (l ++ rest) i [c] = l.set i c ++ rest := by
  unfold overwrite
  rw [List.take_append_of_le_length (by omega), List.length_singleton,
    List.drop_append_of_le_length hi, List.set_eq_take_append_cons_drop, if_pos hi]
  simp

lemma Holds.setByte (h : Holds l s) {i : ℕ} (hi : i < l.length) {c : Byte} (hc : c ≠ 0) :
    ∃ s', s.setByte i c = some s' ∧ Holds (l.set i c) s' := by
  obtain ⟨rest, hrest⟩ := h.mem_eq
  have hlength := h.length
  have hle := h.length_le
  have hfit : i + [c].length ≤ s.mem.length := by
    rw [List.length_singleton]
    omega
  refine ⟨{ s with buffer := some (overwrite s.mem i [c]) }, ?_, ?_, ?_, rfl, ?_, ?_, h.small⟩
  · unfold WString.setByte store
    rw [copyIn_eq hfit]
    rfl
  · intro hmem
    rcases List.mem_or_eq_of_mem_set hmem with hold | hnew
    · exact h.nonzero hold
    · exact hc hnew.symm
  · rw [List.length_set]
    exact h.len
  · exact (length_overwrite hfit).trans hlength
  · change l.set i c ++ [0] <+: overwrite s.mem i [c]
    rw [hrest, overwrite_singleton hi]
    exact ⟨rest, by rw [List.append_assoc, List.singleton_append]⟩

def WritesZero (loc : ℕ) (c : Byte) (s : WString) : Prop := loc < s.len ∧ c = 0

instance (loc : ℕ) (c : Byte) (s : WString) : Decidable (s.WritesZero loc c) :=
  inferInstanceAs (Decidable (_ ∧ _))

lemma HasText.setCharAt (h : HasText l s) {loc : ℕ} {c : Byte} (hok : ¬s.WritesZero loc c) :
    ∃ s', s.setCharAt loc c = some s' ∧ HasText (l.set loc c) s' := by
  have hlen := h.len
  unfold WString.setCharAt
  by_cases hloc : loc < s.len
  · rw [if_pos hloc]
    obtain ⟨s', hset, hholds⟩ := (h.holds (by omega)).setByte (hlen ▸ hloc)
      fun hc => hok ⟨hloc, hc⟩
    exact ⟨s', hset, .inl hholds⟩
  · rw [if_neg hloc, List.set_eq_of_length_le (by omega)]
    exact ⟨s, rfl, h⟩

lemma HasText.writeAt (h : HasText l s) {index : ℕ} {c : Byte} (hok : ¬s.WritesZero index c) :
    ∃ s', s.writeAt index c = some s' ∧ HasText (l.set index c) s' := by
  have hlen := h.len
  have hset := h.setCharAt hok
  unfold WString.setCharAt at hset
  unfold WString.writeAt
  by_cases hloc : index < s.len
  · have hbuffer := (h.holds (by omega)).buffer
    rw [if_pos hloc] at hset
    rwa [if_neg]
    rw [hbuffer]
    simp
    omega
  · rw [if_neg hloc] at hset
    rwa [if_pos (Or.inl (Nat.not_lt.mp hloc))]

lemma HasText.forChars (h : HasText l s) {f : Byte → Byte} (hf : ∀ c, c ∈ l → f c ≠ 0) :
    ∃ s', s.forChars f = some s' ∧ HasText (l.map f) s' := by
  rcases h with h | ⟨rfl, rfl⟩
  · obtain ⟨rest, hrest⟩ := h.mem_eq
    refine ⟨{ s with buffer := some (l.map f ++ 0 :: rest) }, ?_, .inl ⟨?_, ?_, rfl, ?_, ?_, h.small⟩⟩
    · unfold WString.forChars
      rw [h.buffer, hrest]
      dsimp only
      rw [mapCells_eq f h.nonzero]
      rfl
    · intro hmem
      obtain ⟨c, hc, hzero⟩ := List.mem_map.mp hmem
      exact hf c hc hzero
    · rw [List.length_map]
      exact h.len
    · have hlength := h.length
      rw [hrest, List.length_append] at hlength
      change (l.map f ++ 0 :: rest).length = s.capacity + 1
      rw [List.length_append, List.length_map, hlength]
    · change l.map f ++ [0] <+: l.map f ++ 0 :: rest
      exact ⟨rest, by rw [List.append_assoc, List.singleton_append]⟩
  · exact ⟨init, rfl, .inr ⟨rfl, rfl⟩⟩

lemma tolower_ne_zero {c : Byte} (hc : c ≠ 0) : tolower c ≠ 0 := by
  unfold tolower
  split <;> bv_omega

lemma toupper_ne_zero {c : Byte} (hc : c ≠ 0) : toupper c ≠ 0 := by
  unfold toupper
  split <;> bv_omega

lemma HasText.toLowerCase (h : HasText l s) :
    ∃ s', s.toLowerCase = some s' ∧ HasText (l.map tolower) s' :=
  h.forChars fun _ hc => tolower_ne_zero fun hzero => h.nonzero (hzero ▸ hc)

lemma HasText.toUpperCase (h : HasText l s) :
    ∃ s', s.toUpperCase = some s' ∧ HasText (l.map toupper) s' :=
  h.forChars fun _ hc => toupper_ne_zero fun hzero => h.nonzero (hzero ▸ hc)

def ReplacesByZero (find replace : Byte) (s : WString) : Prop := replace = 0 ∧ find ∈ s.text

instance (find replace : Byte) (s : WString) : Decidable (s.ReplacesByZero find replace) :=
  inferInstanceAs (Decidable (_ ∧ _))

lemma HasText.replaceChar (h : HasText l s) {find replace : Byte}
    (hok : ¬s.ReplacesByZero find replace) : ∃ s', s.replaceChar find replace = some s' ∧
      HasText (l.map fun c => if c = find then replace else c) s' := by
  apply h.forChars
  intro c hc
  split
  · rename_i heq
    intro hzero
    apply hok
    rw [ReplacesByZero, h.text_eq]
    exact ⟨hzero, heq ▸ hc⟩
  · exact fun hzero => h.nonzero (hzero ▸ hc)

lemma notMem_take_append {a : Byte} {l m : List Byte} (hl : a ∉ l) (hm : a ∉ m) (n : ℕ) :
    a ∉ l.take n ++ m := fun hmem =>
  (List.mem_append.mp hmem).elim (fun h => hl (List.mem_of_mem_take h)) hm

lemma Holds.closeGap (h : Holds l s) {index n : ℕ} (hle : index + n ≤ l.length) :
    ∃ s', ((memmove s.mem index (index + n) (s.len - n - index)).bind fun b =>
        WString.setByte (s.len - n) 0 { s with buffer := some b, len := s.len - n }) = some s' ∧
      Holds (l.take index ++ l.drop (index + n)) s' := by
  have hlen := h.len
  have hlength := h.length
  have hcapacity := h.length_le
  obtain ⟨rest, hrest⟩ := h.mem_eq
  have hdrop : (l.drop (index + n)).length = s.len - n - index := by
    rw [List.length_drop]
    omega
  have hmoved : (s.mem.drop (index + n)).take (s.len - n - index) = l.drop (index + n) := by
    rw [hrest, List.drop_append_of_le_length hle, List.take_left' hdrop]
  have htake : (l.take index).length = index := by
    rw [List.length_take]
    omega
  have hlast : (l.take index ++ l.drop (index + n)).length = s.len - n := by
    rw [List.length_append]
    omega
  have hfit : index + (l.drop (index + n)).length ≤ s.mem.length := by omega
  have hprefix : l.take index ++ l.drop (index + n) <+:
      overwrite s.mem index (l.drop (index + n)) := by
    have hshows : l.take index <+: s.mem := (List.take_prefix index l).trans (prefix_of_shows h)
    have hover : l.take index ++ l.drop (index + n) <+:
        overwrite s.mem (l.take index).length (l.drop (index + n)) :=
      prefix_overwrite hshows (by rw [htake]; exact hfit)
    rwa [htake] at hover
  obtain ⟨s', hset, hholds, -⟩ := holds_terminated
    (notMem_take_append h.nonzero (notMem_drop h.nonzero _) index)
    ((length_overwrite hfit).trans hlength) h.small hprefix (by omega)
  rw [hlast] at hset
  unfold memmove
  rw [copyOut_eq (by omega), hmoved, Option.bind_some, copyIn_eq hfit, Option.bind_some]
  exact ⟨s', hset, hholds⟩

lemma Holds.remove (h : Holds l s) (index count : ℕ) : ∃ s', s.remove index count = some s' ∧
    Holds (l.take index ++ l.drop (index + count)) s' ∧ (l.length ≤ index → s' = s) := by
  have hlen := h.len
  unfold WString.remove
  by_cases hindex : index ≥ s.len
  · rw [if_pos hindex, List.take_of_length_le (by omega), List.drop_of_length_le (by omega),
      List.append_nil]
    exact ⟨s, rfl, h, fun _ => rfl⟩
  · rw [if_neg hindex]
    by_cases hcount : count = 0
    · rw [if_pos hcount, hcount, Nat.add_zero, List.take_append_drop]
      exact ⟨s, rfl, h, fun _ => rfl⟩
    · rw [if_neg hcount]
      have hgone : l.drop (index + count) =
          l.drop (index + if count > s.len - index then s.len - index else count) := by
        split
        · rw [List.drop_of_length_le (by omega), List.drop_of_length_le (by omega)]
        · rfl
      have hle : index + (if count > s.len - index then s.len - index else count) ≤ l.length := by
        split <;> omega
      rw [hgone]
      obtain ⟨s', hmove, hholds'⟩ := h.closeGap hle
      exact ⟨s', hmove, hholds', fun hout => by omega⟩

lemma HasText.remove (h : HasText l s) (index count : ℕ) : ∃ s', s.remove index count = some s' ∧
    HasText (l.take index ++ l.drop (index + count)) s' := by
  rcases h with h | ⟨rfl, rfl⟩
  · obtain ⟨s', hremove, h', -⟩ := h.remove index count
    exact ⟨s', hremove, .inl h'⟩
  · refine ⟨init, if_pos (Nat.zero_le _), .inr ⟨?_, rfl⟩⟩
    rw [List.take_nil, List.drop_nil, List.append_nil]

end Edits

end WString

end FrameworkXC32
