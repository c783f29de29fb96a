import FrameworkXC32.Strings.Growth

/-!
# What `replace` computes

Replacements that are not longer than what they stand in for are put in from left to right. A
longer one is put in from right to left: the text is that of a replacement from left to right
under a condition on the three texts, and only under it.
-/

namespace FrameworkXC32
open Machine Block CString Search

namespace WString

/-- The string when `replace` is called and at the beginning of every round of its loops. -/
def replaceMoments (find replace : Arg) (fresh : Fresh) (s : WString) : List WString :=
  if s.len = 0 ∨ (find.get s).len = 0 then [s]
  else
    let diff := Int.bmod (↑(replace.get s).len - ↑(find.get s).len) (2 ^ 32)
    if diff = 0 then
      (Loop.visited (sameRound find replace) (s.mem.length + 1) (0, s)).map (·.2)
    else if diff < 0 then
      (Loop.visited (shorterRound find replace diff) (s.mem.length + 1) (0, 0, s)).map (·.2.2)
    else
      s :: match sizeNeeded find diff s (s.mem.length + 1) 0 s.len with
      | none => []
      | some size =>
        if size = s.len then []
        else
          let loop (s : WString) : List WString :=
            (Loop.visited (longerRound find replace diff) (s.len + 1)
              (Int.bmod (s.len - 1) (2 ^ 32), s)).map (·.2)
          if size > s.capacity then
            match s.changeBuffer size fresh with
            | some (true, s) => loop s
            | _ => []
          else loop s

/-- A longer replacement has a length that can be computed, and the occurrences that are found from
the right are those that are found from the left. -/
def ReplacesLeftmost (pat new l : List Byte) : Prop :=
  pat.length < new.length →
    l.length + occurrences pat l * (new.length - pat.length) < 2 ^ 32 ∧
    Settled pat new (gaps pat l) ∧
    ∀ q, (fill pat (gaps pat l)).length < q + pat.length → ¬pat <+: l.drop q

section Leftmost

variable {l pat new : List Byte} {s : WString} {find replace : Arg} {fresh : Fresh}

lemma replacesLeftmost_iff (hpat : pat ≠ []) : ReplacesLeftmost pat new l ↔
    (pat.length < new.length → l.length + occurrences pat l * (new.length - pat.length) < 2 ^ 32 ∧
      replaceRight pat new l.length l = replaceLeft pat new l) := by
  unfold ReplacesLeftmost
  apply imp_congr_right
  intro hlt
  rw [replaceRight_eq_replaceLeft_iff hpat hlt]

lemma occurrences_eq_zero_iff (pat l : List Byte) :
    occurrences pat l = 0 ↔ firstIn pat l = none := by
  rw [occurrences, occurrencesIn]
  cases firstIn pat l with
  | none => simp
  | some n => simp

lemma replacesLeftmost_of_none (hnone : firstIn pat l = none) (hsmall : l.length < 2 ^ 32) :
    ReplacesLeftmost pat new l := by
  intro _
  have hgaps : gaps pat l = [] := by
    rw [gaps, gapsIn, hnone]
  have hzero : occurrences pat l = 0 := by
    rw [← length_gaps, hgaps]
    rfl
  rw [hgaps, hzero]
  refine ⟨by omega, fun a x b hab => absurd hab (by simp), fun q _ => firstIn_none hnone q⟩

lemma replaceLeft_self (hpat : pat ≠ []) : replaceLeft pat new pat = new := by
  have hat : firstIn pat pat = some 0 := by
    cases pat with
    | nil => exact absurd rfl hpat
    | cons a t => rw [firstIn, if_pos (List.prefix_refl _)]
  rw [replaceLeft_some new hpat hat, Nat.zero_add, List.drop_length,
    replaceLeft_none (firstIn_nil hpat), List.take_zero, List.nil_append, List.append_nil]

lemma replaceRight_self (hpat : pat ≠ []) : replaceRight pat new pat.length pat = new := by
  have hpos := List.length_pos_of_ne_nil hpat
  have hone : replaceRight pat new pat.length pat = replaceRight pat new (0 + 1) pat := by
    apply replaceRight_skip new (by omega)
    intro q hq _ hocc
    have hle := le_of_occurs hpat hocc
    omega
  have hat : pat <+: pat.drop 0 := List.prefix_refl _
  rw [hone, replaceRight_at new hat, Nat.zero_add, List.drop_length,
    List.take_zero, List.nil_append, List.append_nil]
  rfl

/-! The branches of `replace`. -/

lemma replaceMoments_same (hs : ¬(s.len = 0 ∨ (find.get s).len = 0))
    (hf : HasText pat (find.get s)) (hr : HasText new (replace.get s))
    (hsame : new.length = pat.length) :
    replaceMoments find replace fresh s =
      (Loop.visited (sameRound find replace) (s.mem.length + 1) (0, s)).map (·.2) := by
  unfold replaceMoments
  rw [if_neg hs, bmod_diff hf hr]
  dsimp only
  rw [if_pos (by omega)]

lemma replaceMoments_shorter (hs : ¬(s.len = 0 ∨ (find.get s).len = 0))
    (hf : HasText pat (find.get s)) (hr : HasText new (replace.get s))
    (hshort : new.length < pat.length) :
    replaceMoments find replace fresh s =
      (Loop.visited (shorterRound find replace ((new.length : ℤ) - pat.length)) (s.mem.length + 1)
        (0, 0, s)).map (·.2.2) := by
  unfold replaceMoments
  rw [if_neg hs, bmod_diff hf hr]
  dsimp only
  rw [if_neg (by omega), if_pos (by omega)]

/-- The rounds of the loop for a longer replacement, from the end of the text on. -/
def longerMoments (find replace : Arg) (diff : ℕ) (s : WString) : List WString :=
  (Loop.visited (longerRound find replace diff) (s.len + 1)
    (Int.bmod (s.len - 1) (2 ^ 32), s)).map (·.2)

lemma replaceMoments_longer (h : Holds l s) (hs : ¬(s.len = 0 ∨ (find.get s).len = 0))
    (hf : HasText pat (find.get s)) (hr : HasText new (replace.get s)) (hpat : pat ≠ [])
    (hlt : pat.length < new.length) :
    replaceMoments find replace fresh s = s ::
      if sizeFor pat new l = s.len then []
      else if sizeFor pat new l > s.capacity then
        match s.changeBuffer (sizeFor pat new l) fresh with
        | some (true, s) => longerMoments find replace (new.length - pat.length) s
        | _ => []
      else longerMoments find replace (new.length - pat.length) s := by
  have hcast : (new.length : ℤ) - pat.length = ((new.length - pat.length : ℕ) : ℤ) := by omega
  have hneedle := (hf.holds_of_ne_nil hpat).cstring_eq
  have hsize := sizeNeeded_sizeFor h hneedle hf.len hpat new
  unfold replaceMoments
  rw [if_neg hs, bmod_diff hf hr, hcast]
  dsimp only
  rw [if_neg (by omega), if_neg (by omega), hsize]
  rfl

lemma changeBuffer_success (h : Holds l s) {size : ℕ} (hlt : size < 2 ^ 32)
    (hgrow : s.capacity < size) {s₁ : WString} (hs : s.changeBuffer size fresh = some (true, s₁)) :
    Holds l s₁ ∧ s₁.capacity = size := by
  by_cases hmemory : fresh.isSome ∧ size + 1 < 2 ^ 31
  · obtain ⟨s₂, hs₂, h₂, hcapacity⟩ := h.changeBuffer hgrow.le hmemory.1 hmemory.2
    rw [hs₂] at hs
    cases hs
    exact ⟨h₂, hcapacity⟩
  · exfalso
    by_cases hwrap : size + 1 = 2 ^ 32
    · unfold changeBuffer realloc at hs
      rw [hwrap, h.buffer] at hs
      cases hs
    · rw [changeBuffer_fails (by omega) hmemory] at hs
      cases hs

lemma replaceString_grown (h : Holds l s) (hs : ¬(s.len = 0 ∨ (find.get s).len = 0))
    (hf : HasText pat (find.get s)) (hr : HasText new (replace.get s)) (hpat : pat ≠ [])
    (hlt : pat.length < new.length) (hne : sizeFor pat new l ≠ l.length)
    (halloc : s.capacity < sizeFor pat new l →
      ∃ s₁, s.changeBuffer (sizeFor pat new l) fresh = some (true, s₁)) :
    ∃ s₁, Holds l s₁ ∧ sizeFor pat new l ≤ s₁.capacity ∧
      replaceString find replace fresh s =
        replaceLonger find replace ((new.length - pat.length : ℕ) : ℤ) (s₁.len + 1)
          (Int.bmod (s₁.len - 1) (2 ^ 32)) s₁ ∧
      replaceMoments find replace fresh s =
        s :: longerMoments find replace (new.length - pat.length) s₁ := by
  have hsizelt : sizeFor pat new l < 2 ^ 32 := Nat.mod_lt _ (by decide)
  rw [← h.len] at hne
  rw [replaceString_longer h hs hf hr hpat hlt, replaceMoments_longer h hs hf hr hpat hlt,
    if_neg hne, if_neg hne]
  by_cases hgrow : sizeFor pat new l > s.capacity
  · obtain ⟨s₁, hs₁⟩ := halloc hgrow
    obtain ⟨h₁, hcapacity⟩ := changeBuffer_success h hsizelt hgrow hs₁
    rw [if_pos hgrow, if_pos hgrow, hs₁]
    exact ⟨s₁, h₁, hcapacity.ge, rfl, rfl⟩
  · rw [if_neg hgrow, if_neg hgrow]
    exact ⟨s, h, by omega, rfl, rfl⟩

/-- What the loop for a longer replacement returns when it returns: where it meets the occurrences
that are found from the left, that is what is asked for, and nothing else is. -/
lemma replaceLonger_leftmost_iff {s₁ : WString} (h : Holds l s₁) (hf : HasText pat (find.get s₁))
    (hr : HasText new (replace.get s₁)) (hpat : pat ≠ []) (hlt : pat.length < new.length)
    (hapart : replace ≠ .own) (hne : sizeFor pat new l ≠ l.length)
    (hroom : sizeFor pat new l ≤ s₁.capacity) :
    (∃ s', replaceLonger find replace ((new.length - pat.length : ℕ) : ℤ) (s₁.len + 1)
        (Int.bmod (s₁.len - 1) (2 ^ 32)) s₁ = some s' ∧ s'.text = replaceLeft pat new l ∧
      s'.len = (replaceLeft pat new l).length ∧
      ∀ t ∈ longerMoments find replace (new.length - pat.length) s₁, t.len ≤ t.capacity) ↔
      ReplacesLeftmost pat new l := by
  have hinside := h.length_le
  have hsmall := h.small
  have hlen := h.len
  have hleft := length_replaceLeft hlt.le l
  rw [replacesLeftmost_iff hpat]
  constructor
  · rintro ⟨s', hrun, htext, hlength, -⟩ -
    cases find with
    | own =>
      have hself : pat = l := (HasText.text_eq hf).symm.trans h.text_eq
      subst hself
      rw [← hleft, replaceLeft_self hpat, replaceRight_self hpat]
      exact ⟨by have hnew := hr.small; omega, rfl⟩
    | apart f =>
      cases replace with
      | own => exact absurd rfl hapart
      | apart r =>
        have hf' : Holds pat f := HasText.holds_of_ne_nil hf hpat
        have hr' : Holds new r := HasText.holds_of_ne_nil hr (List.ne_nil_of_length_pos (by omega))
        have hindex : Int.bmod ((s₁.len : ℤ) - 1) (2 ^ 32) = (l.length : ℤ) - 1 := by
          rw [hlen]
          apply Int.bmod_eq_of_le <;> omega
        rw [hindex] at hrun
        have hright := replaceLonger_some hf' hr' hpat hlt rfl h hrun
        have heq := hright.text_eq.symm.trans htext
        have hfit := hright.length_le
        have hsmall' := hright.small
        rw [heq] at hfit
        exact ⟨by omega, heq⟩
  · intro hcond
    obtain ⟨hwrap, heq⟩ := hcond hlt
    have hsize : sizeFor pat new l = (replaceLeft pat new l).length := by
      rw [hleft]
      exact Nat.mod_eq_of_lt hwrap
    obtain ⟨n, hat⟩ := exists_firstIn (by omega) hne
    obtain ⟨s', hrun, hholds, hvisited⟩ := replaceLonger_exact h hf hr hpat hlt hat
      (by rw [heq]; omega) fun hown => absurd hown hapart
    rw [heq] at hholds
    exact ⟨s', hrun, hholds.text_eq, hholds.len, List.forall_mem_map.mpr hvisited⟩

end Leftmost

end WString

end FrameworkXC32
