import FrameworkXC32.Strings.Valid

/-!
# Copying, moving and appending strings

What `copy`, `move`, the assignments and `concat` do to a valid string.
-/

namespace FrameworkXC32
open Machine Block CString

namespace WString

/-- A pointer that a method of `s` gets points to the text `t` and a zero behind it. -/
structure Points (s : WString) (p : Src Byte) (t : List Byte) : Prop where
  nonzero : 0 ∉ t
  small : t.length + 1 < 2 ^ 31
  shows : t ++ [0] <+: p.view s.mem

section Copies

variable {l t : List Byte} {s rhs : WString} {p : Src Byte}

lemma Points.strlen (hp : Points s p t) : strlen (p.view s.mem) = some t.length := by
  obtain ⟨rest, hrest⟩ := hp.shows
  rw [← hrest, List.append_assoc, List.singleton_append, strlen_eq hp.nonzero]

lemma points_apart (s : WString) {m : List Byte} (ht : 0 ∉ t) (hsmall : t.length + 1 < 2 ^ 31)
    (hm : t ++ [0] <+: m) : Points s (.apart m) t :=
  ⟨ht, hsmall, hm⟩

lemma points_char (s : WString) {c : Byte} (hc : c ≠ 0) : Points s (.apart [c, 0]) [c] := by
  refine ⟨fun hmem => hc (List.mem_singleton.mp hmem).symm, ?_, List.prefix_refl _⟩
  rw [List.length_singleton]
  decide

lemma Holds.drop_shows (h : Holds l s) (k : ℕ) (hk : k ≤ l.length) :
    l.drop k ++ [0] <+: s.mem.drop k := by
  obtain ⟨rest, hrest⟩ := h.shows
  refine ⟨rest, ?_⟩
  rw [← hrest, List.drop_append_of_le_length (by rw [List.length_append]; omega),
    List.drop_append_of_le_length hk]

lemma notMem_drop {a : Byte} (h : a ∉ l) (k : ℕ) : a ∉ l.drop k :=
  fun hmem => h (List.mem_of_mem_drop hmem)

lemma Holds.points_own (h : Holds l s) {k : ℕ} (hk : k ≤ l.length) :
    Points s (.own k) (l.drop k) := by
  have hle := h.length_le
  have hsmall := h.small
  refine ⟨notMem_drop h.nonzero k, ?_, h.drop_shows k hk⟩
  rw [List.length_drop]
  omega

lemma Holds.points_apart (h : Holds l rhs) (s : WString) {k : ℕ} (hk : k ≤ l.length) :
    Points s (.apart (rhs.mem.drop k)) (l.drop k) := by
  have hle := h.length_le
  have hsmall := h.small
  refine ⟨notMem_drop h.nonzero k, ?_, h.drop_shows k hk⟩
  rw [List.length_drop]
  omega

lemma Points.suffices {k : ℕ} (hp : Points s (.own k) t) (hs : s.Sound) :
    s.Suffices t.length := by
  have hshows : t ++ [0] <+: s.mem.drop k := hp.shows
  have hle := hshows.length_le
  rw [List.length_drop, List.length_append, List.length_singleton] at hle
  obtain ⟨l, h | ⟨-, rfl⟩⟩ := hs
  · have hlength := h.length
    refine ⟨?_, by omega⟩
    rw [h.buffer]
    rfl
  · exact absurd hle (by simp [mem, init])

/-- The text pointed to, when it fits behind the `dst` first characters of the buffer, is copied
there. A pointer into the buffer has to point at or behind that place. -/
lemma strcpyReserved_eq {dst size : ℕ} {new : WString} (hp : Points s p t)
    (hown : ∀ k, p = .own k → s.Suffices size ∧ new.mem = s.mem ∧ dst ≤ k)
    (hfit : dst + t.length < new.mem.length) :
    strcpyReserved dst p size s new =
      some { new with buffer := some (overwrite new.mem dst (t ++ [0])) } := by
  cases p with
  | apart m =>
    have hfeeds : Feeds new.mem dst (.apart m) (t ++ [0]) := feeds_apart hp.shows _ _
    unfold strcpyReserved
    dsimp only
    rw [strcpy_eq hp.nonzero hfeeds hfit]
    rfl
  | own k =>
    obtain ⟨hsuffices, hmem, hle⟩ := hown k rfl
    have hfeeds : Feeds new.mem dst (.own k) (t ++ [0]) := by
      rw [hmem]
      exact feeds_own hle hp.shows
    unfold strcpyReserved
    dsimp only
    rw [if_pos hsuffices, strcpy_eq hp.nonzero hfeeds hfit]
    rfl

/-- What `s` has become as a copy of the text: it holds it, or has been invalidated when there was
no memory for it. -/
structure Copied (t : List Byte) (fresh : Fresh) (s s' : WString) : Prop where
  holds : s.CanReserve t.length fresh → Holds t s'
  invalidated : ¬s.CanReserve t.length fresh → s' = init

lemma Copied.sound {fresh : Fresh} {s' : WString} (h : Copied t fresh s s') : s'.Sound := by
  by_cases hcan : s.CanReserve t.length fresh
  · exact (h.holds hcan).sound
  · rw [h.invalidated hcan]
    exact sound_init

lemma Copied.hasText_nil {fresh : Fresh} {s' : WString} (h : Copied [] fresh s s') :
    HasText [] s' := by
  by_cases hcan : s.CanReserve ([] : List Byte).length fresh
  · exact .inl (h.holds hcan)
  · exact .inr ⟨rfl, h.invalidated hcan⟩

lemma Sound.copy (hs : s.Sound) (hp : Points s p t) (fresh : Fresh) :
    ∃ s', s.copy p t.length fresh = some s' ∧ Copied t fresh s s' := by
  have hsmall := hp.small
  by_cases hcan : s.CanReserve t.length fresh
  · obtain ⟨l, h⟩ := hs
    obtain ⟨s₁, hreserve, hholds, hcapacity⟩ := h.reserve hcan
    have hlength := hholds.length
    have hfit : 0 + t.length < s₁.mem.length := by omega
    have hcopy : strcpyReserved 0 p t.length s { s₁ with len := t.length } =
        some ⟨some (overwrite s₁.mem 0 (t ++ [0])), s₁.capacity, t.length⟩ := by
      refine strcpyReserved_eq hp ?_ hfit
      rintro k rfl
      have hsuffices := hp.suffices h.sound
      rw [reserve_suffices hsuffices] at hreserve
      obtain ⟨-, rfl⟩ := Prod.mk.inj (Option.some.inj hreserve)
      exact ⟨hsuffices, rfl, Nat.zero_le k⟩
    have hfit' : 0 + (t ++ [0]).length ≤ s₁.mem.length := by
      rw [List.length_append, List.length_singleton]
      exact hfit
    refine ⟨⟨some (overwrite s₁.mem 0 (t ++ [0])), s₁.capacity, t.length⟩, ?_, ?_,
      fun hno => absurd hcan hno⟩
    · unfold WString.copy
      rw [hreserve, Option.bind_some, if_pos rfl]
      exact hcopy
    · intro _
      exact holds_mk hp.nonzero ((length_overwrite hfit').trans hlength) hholds.small
        (prefix_overwrite List.nil_prefix hfit')
  · refine ⟨init, ?_, fun hyes => absurd hyes hcan, fun _ => rfl⟩
    unfold WString.copy
    rw [reserve_fails (by omega) hcan]
    rfl

lemma Sound.copyPointer (hs : s.Sound) (hp : Points s p t) (fresh : Fresh) :
    ∃ s', s.assignCstr (some p) fresh = some s' ∧ Copied t fresh s s' := by
  obtain ⟨s', hcopy, hcopied⟩ := hs.copy hp fresh
  refine ⟨s', ?_, hcopied⟩
  unfold WString.assignCstr
  dsimp only
  rw [hp.strlen, Option.bind_some, hcopy]

lemma Sound.assignPointer (hs : s.Sound) (hp : Points s p t) (fresh : Fresh) :
    ∃ s', s.assignCstr (some p) fresh = some s' ∧ s'.Sound := by
  obtain ⟨s', hassign, hcopied⟩ := hs.copyPointer hp fresh
  exact ⟨s', hassign, hcopied.sound⟩

lemma Sound.assignCstr (hs : s.Sound) {cstr : Option (Src Byte)}
    (hp : ∀ p, cstr = some p → ∃ t, Points s p t) (fresh : Fresh) :
    ∃ s', s.assignCstr cstr fresh = some s' ∧ s'.Sound := by
  cases cstr with
  | none => exact ⟨init, rfl, sound_init⟩
  | some p =>
    obtain ⟨t, ht⟩ := hp p rfl
    exact hs.assignPointer ht fresh

lemma Sound.assign (hs : s.Sound) (hrhs : rhs.Sound) (fresh : Fresh) :
    ∃ s', s.assign rhs fresh = some s' ∧ s'.Sound := by
  obtain ⟨l, h | ⟨-, rfl⟩⟩ := hrhs
  · have hp : Points s (.apart rhs.mem) l := h.points_apart s (Nat.zero_le _)
    obtain ⟨s', hcopy, hcopied⟩ := hs.copy hp fresh
    refine ⟨s', ?_, hcopied.sound⟩
    unfold WString.assign
    rw [h.buffer]
    dsimp only
    rw [h.len, hcopy]
  · exact ⟨init, rfl, sound_init⟩

lemma ofCstr_eq (cstr : Option (Src Byte)) (fresh : Fresh) :
    ofCstr cstr fresh = init.assignCstr cstr fresh := by
  cases cstr <;> rfl

/-- `move` copies into the receiver's buffer and forgets the length of a text that stays behind. -/
def MoveLeavesText (s rhs : WString) : Prop :=
  s.buffer.isSome ∧ rhs.buffer.isSome ∧ s.capacity ≥ rhs.len ∧ rhs.len ≠ 0

instance (s rhs : WString) : Decidable (MoveLeavesText s rhs) :=
  inferInstanceAs (Decidable (_ ∧ _))

lemma Sound.move (hs : s.Sound) (hrhs : rhs.Sound) (hok : ¬s.MoveLeavesText rhs) :
    ∃ r, s.move rhs = some r ∧ r.1.Sound ∧ r.2.Sound := by
  by_cases hfits : s.buffer.isSome ∧ rhs.buffer.isSome ∧ s.capacity ≥ rhs.len
  · have hempty : rhs.len = 0 := by
      by_contra hne
      exact hok ⟨hfits.1, hfits.2.1, hfits.2.2, hne⟩
    obtain ⟨t, ht | ⟨-, rfl⟩⟩ := hrhs
    · have hnil : t = [] := List.length_eq_zero_iff.mp (ht.len.symm.trans hempty)
      subst hnil
      obtain ⟨l, h | ⟨-, rfl⟩⟩ := hs
      · have hlength := h.length
        have hfeeds : Feeds s.mem 0 (.apart rhs.mem) ([] ++ [0]) := feeds_apart ht.shows _ _
        have hcopy := strcpy_eq ht.nonzero hfeeds (by rw [List.length_nil]; omega)
        unfold WString.move
        rw [if_pos hfits, hcopy]
        refine ⟨_, rfl, ?_, ?_⟩
        · apply Holds.sound (l := [])
          have hfit : 0 + ([] ++ [(0 : Byte)]).length ≤ s.mem.length := by
            rw [List.nil_append, List.length_singleton]
            omega
          rw [hempty]
          exact holds_mk ht.nonzero ((length_overwrite hfit).trans h.length) h.small
            (prefix_overwrite List.nil_prefix hfit)
        · have hsame : { rhs with len := 0 } = rhs := by
            rw [← hempty]
          rw [hsame]
          exact ht.sound
      · exact absurd hfits.1 (by decide)
    · exact absurd hfits.2.1 (by decide)
  · unfold WString.move
    rw [if_neg hfits]
    exact ⟨_, rfl, hrhs, sound_init⟩

lemma prefix_of_shows (h : Holds l s) : l <+: s.mem :=
  (List.prefix_append l [0]).trans h.shows

/-- `concat` with a text in the receiver's own buffer copies over the zero that ends it. -/
def ConcatOverlaps (p : Src Byte) (length : ℕ) (fresh : Fresh) (s : WString) : Prop :=
  p.isOwn ∧ length ≠ 0 ∧ s.CanReserve (s.len + length) fresh

instance (p : Src Byte) (length : ℕ) (fresh : Fresh) (s : WString) :
    Decidable (s.ConcatOverlaps p length fresh) :=
  inferInstanceAs (Decidable (_ ∧ _ ∧ _))

lemma HasText.concat (h : HasText l s) (hp : Points s p t) (fresh : Fresh)
    (hok : ¬s.ConcatOverlaps p t.length fresh) :
    ∃ r, s.concat (some p) t.length fresh = some r ∧ (r.1 = true → HasText (l ++ t) r.2) ∧
      (r.1 = false → r.2 = s) := by
  have hlen := h.len
  have hl := h.small
  have ht := hp.small
  have hsum : (s.len + t.length) % 2 ^ 32 = s.len + t.length := Nat.mod_eq_of_lt (by omega)
  unfold WString.concat
  rw [hsum]
  dsimp only
  by_cases hempty : t.length = 0
  · rw [if_pos hempty]
    refine ⟨_, rfl, fun _ => ?_, fun hno => Bool.noConfusion hno⟩
    rw [List.length_eq_zero_iff.mp hempty, List.append_nil]
    exact h
  · rw [if_neg hempty]
    by_cases hcan : s.CanReserve (s.len + t.length) fresh
    · obtain ⟨s₁, hreserve, hholds, hcapacity⟩ := h.reserve hcan
      have hlength := hholds.length
      have hfit : s₁.len + t.length < s₁.mem.length := by
        rw [hholds.len]
        omega
      have hcopy : strcpyReserved s₁.len p (s.len + t.length) s s₁ =
          some { s₁ with buffer := some (overwrite s₁.mem s₁.len (t ++ [0])) } :=
        strcpyReserved_eq hp (fun k hk => absurd ⟨hk ▸ rfl, hempty, hcan⟩ hok) hfit
      rw [hreserve, Option.bind_some, if_pos rfl, hcopy]
      refine ⟨_, rfl, fun _ => .inl ?_, fun hno => Bool.noConfusion hno⟩
      have hfit' : l.length + (t ++ [0]).length ≤ s₁.mem.length := by
        rw [List.length_append, List.length_singleton]
        omega
      have hnonzero : 0 ∉ l ++ t := fun hmem =>
        (List.mem_append.mp hmem).elim h.nonzero hp.nonzero
      have hshows : (l ++ t) ++ [0] <+: overwrite s₁.mem l.length (t ++ [0]) := by
        rw [List.append_assoc]
        exact prefix_overwrite (prefix_of_shows hholds) hfit'
      rw [hholds.len, hlen, ← List.length_append]
      exact holds_mk hnonzero ((length_overwrite hfit').trans hlength) hholds.small hshows
    · rw [reserve_fails (by omega) hcan]
      exact ⟨_, rfl, fun hno => Bool.noConfusion hno, fun _ => rfl⟩

lemma HasText.concatPointer (h : HasText l s) (hp : Points s p t) {fresh : Fresh}
    (hok : ¬s.ConcatOverlaps p t.length fresh) :
    ∃ r, s.concatCstr (some p) fresh = some r ∧ (r.1 = true → HasText (l ++ t) r.2) ∧
      (r.1 = false → r.2 = s) := by
  unfold WString.concatCstr
  dsimp only
  rw [hp.strlen, Option.bind_some]
  exact h.concat hp fresh hok

lemma concatFlash_eq (str : Option (Src Byte)) (fresh : Fresh) (s : WString) :
    s.concatFlash str fresh = s.concatCstr str fresh := rfl

/-- A zero that is appended as a character is taken for the end. -/
def AppendsZero (c : Byte) (fresh : Fresh) (s : WString) : Prop :=
  c = 0 ∧ s.CanReserve (s.len + 1) fresh

instance (c : Byte) (fresh : Fresh) (s : WString) : Decidable (s.AppendsZero c fresh) :=
  inferInstanceAs (Decidable (_ ∧ _))

lemma HasText.concatChar (h : HasText l s) {c : Byte} {fresh : Fresh}
    (hok : ¬s.AppendsZero c fresh) :
    ∃ r, s.concatChar c fresh = some r ∧ (r.1 = true → HasText (l ++ [c]) r.2) ∧
      (r.1 = false → r.2 = s) := by
  by_cases hc : c = 0
  · have hsmall := h.small
    have hlen := h.len
    refine ⟨(false, s), ?_, fun hno => Bool.noConfusion hno, fun _ => rfl⟩
    unfold WString.concatChar WString.concat
    dsimp only
    rw [if_neg (by decide), Nat.mod_eq_of_lt (by omega),
      reserve_fails (by omega) fun hcan => hok ⟨hc, hcan⟩]
    rfl
  · exact h.concat (points_char s hc) fresh fun hbad => Bool.noConfusion hbad.1

/-- `realloc` to no bytes at all. -/
def ReservesNothing (size : ℕ) (fresh : Fresh) (s : WString) : Prop :=
  size + 1 = 2 ^ 32 ∧ (s.buffer.isSome ∨ fresh.isSome)

instance (size : ℕ) (fresh : Fresh) (s : WString) : Decidable (s.ReservesNothing size fresh) :=
  inferInstanceAs (Decidable (_ ∧ _))

lemma HasText.reserveCall (h : HasText l s) {size : ℕ} (hsize : size < 2 ^ 32) {fresh : Fresh}
    (hok : ¬s.ReservesNothing size fresh) :
    ∃ r, s.reserve size fresh = some r ∧ HasText l r.2 := by
  by_cases hcan : s.CanReserve size fresh
  · obtain ⟨s', hreserve, hholds, -⟩ := h.reserve hcan
    exact ⟨_, hreserve, .inl hholds⟩
  · by_cases hnothing : size + 1 = 2 ^ 32
    · have hbuffer : ¬s.buffer.isSome := fun hb => hok ⟨hnothing, .inl hb⟩
      have hfresh : ¬fresh.isSome := fun hf => hok ⟨hnothing, .inr hf⟩
      have hnull : s.buffer = none := Option.not_isSome_iff_eq_none.mp hbuffer
      have hnone : fresh = none := Option.not_isSome_iff_eq_none.mp hfresh
      have hfails : s.changeBuffer size fresh = some (false, s) := by
        unfold changeBuffer realloc
        rw [hnothing, Nat.mod_self, hnull, hnone]
        rfl
      refine ⟨(false, s), ?_, h⟩
      unfold WString.reserve
      rw [if_neg fun hyes => hbuffer hyes.1, hfails]
      rfl
    · exact ⟨_, reserve_fails (by omega) hcan, h⟩

end Copies

end WString

end FrameworkXC32
