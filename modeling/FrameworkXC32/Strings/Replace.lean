import FrameworkXC32.Lib.Leftmost
import FrameworkXC32.Lib.Loop
import FrameworkXC32.Strings.Edits

/-!
# `replace` on strings

The three loops of `replace(const String &, const String &)`, for a replacement of the same
length, a shorter and a longer one. `find` or `replace` may be the receiver; then its text is found
at once and as a whole.
-/

namespace FrameworkXC32
open Machine Block CString Search

namespace WString

section Same

variable {l w t pat new : List Byte} {s : WString} {find replace : Arg}

lemma strstr_of {hay needle h n : List Byte} (hh : cstring hay = some h)
    (hn : cstring needle = some n) : strstr hay needle = some (firstIn n h) := by
  rw [strstr, hh, hn]
  rfl

lemma Holds.cstring_drop (h : Holds (w ++ t) s) : cstring (s.mem.drop w.length) = some t := by
  obtain ⟨rest, hrest⟩ := h.mem_eq
  rw [hrest, List.append_assoc, List.drop_left, CString.cstring_eq]
  exact fun hmem => h.nonzero (List.mem_append_right w hmem)

lemma split_at {n : ℕ} (h : firstIn pat t = some n) :
    t = t.take n ++ (pat ++ t.drop (n + pat.length)) := by
  obtain ⟨rest, hrest⟩ := (firstIn_some h).1
  have htail : t.drop (n + pat.length) = rest := by
    rw [← List.drop_drop, ← hrest, List.drop_left]
  rw [htail, hrest, List.take_append_drop]

lemma Holds.mem_split (h : Holds (w ++ t) s) {n : ℕ} (hat : firstIn pat t = some n) :
    ∃ rest, s.mem = w ++ t.take n ++ pat ++ (t.drop (n + pat.length) ++ 0 :: rest) := by
  obtain ⟨rest, hrest⟩ := h.mem_eq
  refine ⟨rest, ?_⟩
  have hshape := congrArg (fun t => w ++ t ++ 0 :: rest) (split_at hat)
  rw [hrest]
  simpa only [List.append_assoc] using hshape

/-- One round of `replaceSame`. -/
def sameRound (find replace : Arg) (p : ℕ × WString) : Option ((ℕ × WString) ⊕ WString) :=
  (strstr (p.2.mem.drop p.1) (find.get p.2).mem).bind fun r =>
    match r with
    | none => some (.inr p.2)
    | some n =>
      let foundAt := p.1 + n
      (memcpy p.2.mem foundAt replace.src (replace.get p.2).len).map fun b =>
        .inl (foundAt + (replace.get p.2).len, { p.2 with buffer := some b })

variable (find replace) in
lemma replaceSame_eq (fuel readFrom : ℕ) (s : WString) :
    replaceSame find replace fuel readFrom s =
      Loop.run (sameRound find replace) fuel (readFrom, s) := by
  induction fuel generalizing readFrom s with
  | zero => rfl
  | succ fuel ih =>
    rw [replaceSame, Loop.run, sameRound, Option.bind_assoc]
    congr 1
    funext r
    cases r with
    | none => rfl
    | some n =>
      dsimp only
      rw [Option.bind_map]
      congr 1
      funext b
      exact ih _ _

variable (find replace) in
lemma sameRound_stop (h : Holds (w ++ t) s) (hneedle : cstring (find.get s).mem = some pat)
    (hnone : firstIn pat t = none) : sameRound find replace (w.length, s) = some (.inr s) := by
  rw [sameRound, strstr_of h.cstring_drop hneedle, hnone]
  rfl

variable (find replace) in
lemma sameRound_step (h : Holds (w ++ t) s) (hneedle : cstring (find.get s).mem = some pat)
    {n : ℕ} (hpat : pat ≠ []) (hat : firstIn pat t = some n) (hnew : 0 ∉ new)
    (hlen : new.length = pat.length) (hrep : (replace.get s).len = new.length)
    (hfeeds : Feeds s.mem (w.length + n) replace.src new) :
    ∃ s', sameRound find replace (w.length, s) =
        some (.inl ((w ++ t.take n ++ new).length, s')) ∧
      Holds (w ++ t.take n ++ new ++ t.drop (n + pat.length)) s' := by
  obtain ⟨rest, hmem⟩ := h.mem_split hat
  have hsplit := split_at hat
  have hn : (w ++ t.take n).length = w.length + n := by
    have hle := le_of_occurs hpat (firstIn_some hat).1
    rw [List.length_append, List.length_take]
    omega
  have hcopy : memcpy s.mem (w.length + n) replace.src new.length =
      some (w ++ t.take n ++ new ++ (t.drop (n + pat.length) ++ 0 :: rest)) := by
    rw [hmem, ← hn] at hfeeds
    rw [hmem, ← hn, memcpy_append hfeeds (by omega), hlen, List.drop_length, List.nil_append]
  have hlens : (w ++ t.take n ++ new ++ t.drop (n + pat.length)).length = (w ++ t).length := by
    have hlt := congrArg List.length hsplit
    simp only [List.length_append] at hlt ⊢
    omega
  have hholds : Holds (w ++ t.take n ++ new ++ t.drop (n + pat.length))
      ⟨some (w ++ t.take n ++ new ++ (t.drop (n + pat.length) ++ 0 :: rest)), s.capacity,
        (w ++ t.take n ++ new ++ t.drop (n + pat.length)).length⟩ := by
    apply holds_mk _ _ h.small
    · refine ⟨rest, ?_⟩
      simp only [List.append_assoc, List.singleton_append]
    · have hold := h.nonzero
      rw [hsplit] at hold
      simp only [List.mem_append, not_or] at hold ⊢
      tauto
    · rw [← h.length, hmem]
      simp only [List.length_append]
      omega
  rw [hlens, ← h.len] at hholds
  refine ⟨{ s with buffer := some _ }, ?_, hholds⟩
  rw [sameRound, strstr_of h.cstring_drop hneedle, hat, Option.bind_some]
  dsimp only
  rw [hrep, hcopy, Option.map_some, List.length_append, hn]

/-- The rounds at `w`, with the text `t` still to be searched, on their way to the text `goal`. -/
def Replacing (pat new goal : List Byte) (p : ℕ × WString) : Prop :=
  ∃ w t, p.1 = w.length ∧ Holds (w ++ t) p.2 ∧ w ++ replaceLeft pat new t = goal

lemma sameRound_spec (goal : List Byte) {f r : WString} (hf : Holds pat f) (hr : Holds new r)
    (hpat : pat ≠ []) (hlen : new.length = pat.length) {p : ℕ × WString}
    (h : Replacing pat new goal p) :
    (∃ s', sameRound (.apart f) (.apart r) p = some (.inr s') ∧ Holds goal s') ∨
      ∃ p', sameRound (.apart f) (.apart r) p = some (.inl p') ∧ Replacing pat new goal p' ∧
        p'.2.len - p'.1 < p.2.len - p.1 := by
  obtain ⟨readFrom, s⟩ := p
  obtain ⟨w, t, rfl, hholds, hgoal⟩ := h
  cases hat : firstIn pat t with
  | none =>
    rw [replaceLeft_none hat] at hgoal
    subst hgoal
    exact .inl ⟨s, sameRound_stop (.apart f) (.apart r) hholds hf.cstring_eq hat, hholds⟩
  | some n =>
    obtain ⟨s', hstep, h'⟩ := sameRound_step (.apart f) (.apart r) hholds hf.cstring_eq hpat hat
      hr.nonzero hlen hr.len (feeds_apart (prefix_of_shows hr) _ _)
    rw [replaceLeft_some new hpat hat] at hgoal
    refine .inr ⟨_, hstep, ⟨_, _, rfl, h', ?_⟩, ?_⟩
    · rw [← hgoal]
      simp only [List.append_assoc]
    · have hrest := length_rest_lt hpat hat
      have hlens := hholds.len
      have hlens' := h'.len
      dsimp only at hlens hlens' ⊢
      rw [hlens, hlens']
      simp only [List.length_append] at hrest ⊢
      omega

lemma replaceSame_run {f r : WString} (hf : Holds pat f) (hr : Holds new r) (hpat : pat ≠ [])
    (hlen : new.length = pat.length) {fuel : ℕ} (h : Holds l s) (hfuel : l.length < fuel) :
    ∃ s', replaceSame (.apart f) (.apart r) fuel 0 s = some s' ∧
      Holds (replaceLeft pat new l) s' ∧
      ∀ p ∈ Loop.visited (sameRound (.apart f) (.apart r)) fuel (0, s),
        p.2.len ≤ p.2.capacity := by
  have hround := fun p => sameRound_spec (replaceLeft pat new l) hf hr hpat hlen (p := p)
  have hstart : Replacing pat new (replaceLeft pat new l) (0, s) := ⟨[], l, rfl, h, rfl⟩
  have hlens := h.len
  obtain ⟨s', hrun, hholds⟩ := Loop.run_total (fun p => p.2.len - p.1) hround hstart
    (by omega : s.len - 0 < fuel)
  rw [replaceSame_eq]
  refine ⟨s', hrun, hholds, fun p hp => ?_⟩
  obtain ⟨w, t, -, hp', -⟩ := Loop.visited_total _ hround hstart fuel p hp
  exact hp'.len_le

lemma firstIn_whole {n : ℕ} (hlen : pat.length = l.length) (h : firstIn pat l = some n)
    (hpat : pat ≠ []) : n = 0 := by
  have hle := le_of_occurs hpat (firstIn_some h).1
  omega

/-- When the pattern is as long as the text, the loop makes at most one round. -/
lemma replaceSame_whole (h : Holds l s) (hneedle : HasText pat (find.get s))
    (hrep : HasText new (replace.get s)) (hpat : pat ≠ []) (hlen : new.length = pat.length)
    (hwhole : pat.length = l.length) (fuel : ℕ) :
    ∃ s', replaceSame find replace (fuel + 2) 0 s = some s' ∧
      Holds (replaceLeft pat new l) s' ∧
      ∀ p ∈ Loop.visited (sameRound find replace) (fuel + 2) (0, s), p.2.len ≤ p.2.capacity := by
  have hneedle' : cstring (find.get s).mem = some pat := (hneedle.holds_of_ne_nil hpat).cstring_eq
  have hnew : new ≠ [] := by
    rw [← List.length_pos_iff, hlen]
    exact List.length_pos_of_ne_nil hpat
  rw [replaceSame_eq]
  cases hat : firstIn pat l with
  | none =>
    obtain ⟨hrun, hvisited⟩ :=
      Loop.run_once (sameRound_stop find replace (w := []) h hneedle' hat) (fuel + 1)
    refine ⟨s, hrun, ?_, fun p hp => ?_⟩
    · rwa [replaceLeft_none hat]
    · rw [hvisited p hp]
      exact h.len_le
  | some n =>
    have hzero := firstIn_whole hwhole hat hpat
    subst hzero
    have hfeeds : Feeds s.mem (([] : List Byte).length + 0) replace.src new := by
      cases replace with
      | apart r =>
        exact feeds_apart (prefix_of_shows (HasText.holds_of_ne_nil hrep hnew)) _ _
      | own =>
        have hr : new = l := (HasText.text_eq hrep).symm.trans h.text_eq
        subst hr
        exact feeds_own (Nat.le_refl 0) (prefix_of_shows h)
    obtain ⟨s₁, hstep, h₁⟩ := sameRound_step find replace (w := []) h hneedle' hpat hat hrep.nonzero
      hlen hrep.len hfeeds
    rw [List.nil_append, List.take_zero, List.nil_append] at hstep h₁
    rw [Nat.zero_add, hwhole, List.drop_length] at h₁
    have hnone : ∀ p : List Byte, p ≠ [] → firstIn p [] = none := fun p hp => firstIn_nil hp
    have hstop : sameRound find replace (new.length, s₁) = some (.inr s₁) := by
      cases find with
      | apart f => exact sameRound_stop (.apart f) replace h₁ hneedle' (hnone pat hpat)
      | own =>
        rw [List.append_nil] at h₁
        exact sameRound_stop .own replace (w := new) (t := []) (by rwa [List.append_nil])
          h₁.cstring_eq (hnone new hnew)
    obtain ⟨hrun, hvisited⟩ := Loop.run_twice hstep hstop fuel
    refine ⟨s₁, hrun, ?_, fun p hp => ?_⟩
    · rwa [replaceLeft_some new hpat hat, Nat.zero_add, hwhole, List.drop_length,
        replaceLeft_none (hnone pat hpat)]
    · rcases hvisited p hp with rfl | rfl
      · exact h.len_le
      · exact h₁.len_le

lemma replaceSame_exact (h : Holds l s) (hf : HasText pat (find.get s))
    (hr : HasText new (replace.get s)) (hpat : pat ≠ []) (hlen : new.length = pat.length) :
    ∃ s', replaceSame find replace (s.mem.length + 1) 0 s = some s' ∧
      Holds (replaceLeft pat new l) s' ∧
      ∀ p ∈ Loop.visited (sameRound find replace) (s.mem.length + 1) (0, s),
        p.2.len ≤ p.2.capacity := by
  have hlength := h.length
  have hcapacity := h.length_le
  have hnew : new ≠ [] := by
    rw [← List.length_pos_iff, hlen]
    exact List.length_pos_of_ne_nil hpat
  rw [hlength]
  cases find with
  | own =>
    have hself := congrArg List.length ((HasText.text_eq hf).symm.trans h.text_eq)
    exact replaceSame_whole h hf hr hpat hlen hself _
  | apart f =>
    cases replace with
    | own =>
      have hself : new = l := (HasText.text_eq hr).symm.trans h.text_eq
      exact replaceSame_whole h hf hr hpat hlen (by rw [← hlen, hself]) _
    | apart r =>
      exact replaceSame_run (HasText.holds_of_ne_nil hf hpat) (HasText.holds_of_ne_nil hr hnew)
        hpat hlen h (by omega)

end Same

/-! ### Shorter replacements -/

/-- In the middle of the loop the buffer holds what has been written, then bytes that no longer
count, then the unread text and its terminator. -/
structure Shrinking (w gap t : List Byte) (s : WString) : Prop where
  mem : ∃ rest, s.mem = w ++ gap ++ (t ++ 0 :: rest)
  written : 0 ∉ w
  unread : 0 ∉ t
  len : s.len = w.length + t.length
  length : s.mem.length = s.capacity + 1
  small : s.capacity + 1 < 2 ^ 31

section Shorter

variable {l w gap t pat new : List Byte} {s r : WString} {find : Arg} {diff : ℤ}

/-- One round of `replaceShorter`, at `writeTo` and `readFrom`. -/
def shorterRound (find replace : Arg) (diff : ℤ) (p : ℕ × ℕ × WString) :
    Option ((ℕ × ℕ × WString) ⊕ WString) :=
  let s := p.2.2
  (strstr (s.mem.drop p.2.1) (find.get s).mem).bind fun r =>
    match r with
    | none => (strcpy s.mem p.1 (.own p.2.1)).map fun b => .inr { s with buffer := some b }
    | some n =>
      (memcpy s.mem p.1 (.own p.2.1) n).bind fun b =>
        (memcpy b (p.1 + n) replace.src (replace.get s).len).map fun b =>
          .inl (p.1 + n + (replace.get s).len, p.2.1 + n + (find.get s).len,
            { s with buffer := some b, len := sizeAdd s.len diff })

variable (find diff) in
lemma replaceShorter_eq (replace : Arg) (fuel writeTo readFrom : ℕ) (s : WString) :
    replaceShorter find replace diff fuel writeTo readFrom s =
      Loop.run (shorterRound find replace diff) fuel (writeTo, readFrom, s) := by
  induction fuel generalizing writeTo readFrom s with
  | zero => rfl
  | succ fuel ih =>
    rw [replaceShorter, Loop.run, shorterRound, Option.bind_assoc]
    congr 1
    funext r
    cases r with
    | none =>
      dsimp only
      rw [Option.bind_map, Option.map_eq_bind]
      rfl
    | some n =>
      dsimp only
      rw [Option.bind_assoc]
      congr 1
      funext b
      rw [Option.bind_map]
      congr 1
      funext b
      exact ih _ _ _

lemma Holds.shrinking (h : Holds l s) : Shrinking [] [] l s :=
  ⟨h.mem_eq, List.not_mem_nil, h.nonzero, h.len.trans (Nat.zero_add _).symm, h.length, h.small⟩

lemma Shrinking.cstring_drop (h : Shrinking w gap t s) :
    cstring (s.mem.drop (w ++ gap).length) = some t := by
  obtain ⟨rest, hrest⟩ := h.mem
  rw [hrest, List.drop_left, CString.cstring_eq h.unread]

variable (find diff) in
lemma shorterRound_stop (h : Shrinking w gap t s) (hneedle : cstring (find.get s).mem = some pat)
    (hnone : firstIn pat t = none) (replace : Arg) :
    ∃ s', shorterRound find replace diff (w.length, (w ++ gap).length, s) = some (.inr s') ∧
      Holds (w ++ t) s' := by
  obtain ⟨rest, hrest⟩ := h.mem
  have hshows : t ++ [0] <+: s.mem.drop (w ++ gap).length := by
    rw [hrest, List.drop_left]
    exact ⟨rest, by rw [List.append_assoc, List.singleton_append]⟩
  have hwritten : w <+: s.mem := by
    rw [hrest, List.append_assoc]
    exact List.prefix_append _ _
  have hroom : (w ++ gap).length + (t.length + 1) ≤ s.mem.length := by
    rw [hrest]
    simp only [List.length_append, List.length_cons]
    omega
  have hle : w.length ≤ (w ++ gap).length := by
    rw [List.length_append]
    omega
  have hfit : w.length + (t ++ [0]).length ≤ s.mem.length := by
    rw [List.length_append, List.length_singleton]
    omega
  have hcopy := strcpy_eq h.unread (feeds_own hle hshows) (by omega)
  refine ⟨⟨some (overwrite s.mem w.length (t ++ [0])), s.capacity, (w ++ t).length⟩, ?_, ?_⟩
  · rw [shorterRound, strstr_of h.cstring_drop hneedle, hnone, Option.bind_some]
    dsimp only
    rw [hcopy, List.length_append, ← h.len]
    rfl
  · apply holds_mk _ ((length_overwrite hfit).trans h.length) h.small
    · rw [List.append_assoc]
      exact prefix_overwrite hwritten hfit
    · exact fun hmem => (List.mem_append.mp hmem).elim h.written h.unread

lemma Shrinking.mem_split (h : Shrinking w gap t s) {n : ℕ} (hat : firstIn pat t = some n) :
    ∃ rest, s.mem = w ++ (gap ++ t.take n) ++ (pat ++ (t.drop (n + pat.length) ++ 0 :: rest)) := by
  obtain ⟨rest, hrest⟩ := h.mem
  refine ⟨rest, ?_⟩
  have hshape := congrArg (fun t => w ++ gap ++ (t ++ 0 :: rest)) (split_at hat)
  rw [hrest]
  simpa only [List.append_assoc] using hshape

/-- The two copies of one round: the text before the occurrence is moved over the gap, and the
replacement goes behind it. -/
lemma Shrinking.copies (h : Shrinking w gap t s) {n : ℕ} (hpat : pat ≠ [])
    (hat : firstIn pat t = some n) (hr : HasText new r) (hle : new.length ≤ pat.length) :
    ∃ block rest, memcpy s.mem w.length (.own (w ++ gap).length) n = some block ∧
      memcpy block (w.length + n) (.apart r.mem) new.length =
        some (w ++ t.take n ++ new ++ (((gap ++ t.take n).drop n ++ pat).drop new.length ++
          (t.drop (n + pat.length) ++ 0 :: rest))) ∧
      (w ++ t.take n ++ new ++ (((gap ++ t.take n).drop n ++ pat).drop new.length ++
          (t.drop (n + pat.length) ++ 0 :: rest))).length = s.mem.length := by
  obtain ⟨rest, hmem⟩ := h.mem_split hat
  have hn : (t.take n).length = n := by
    have hinside := le_of_occurs hpat (firstIn_some hat).1
    rw [List.length_take]
    omega
  have hbase : (w ++ t.take n).length = w.length + n := by rw [List.length_append, hn]
  have hmoved : memcpy s.mem w.length (.own (w ++ gap).length) n = some (w ++ t.take n ++
      ((gap ++ t.take n).drop n ++ pat) ++ (t.drop (n + pat.length) ++ 0 :: rest)) := by
    have hshows : t.take n <+: s.mem.drop (w ++ gap).length := by
      rw [hmem, ← List.append_assoc w, List.append_assoc (w ++ gap), List.drop_left]
      exact List.prefix_append _ _
    have hbehind : w.length ≤ (w ++ gap).length := by
      rw [List.length_append]
      omega
    have hfeeds := feeds_own hbehind hshows
    rw [hmem] at hfeeds ⊢
    have hcopy := memcpy_append hfeeds (by rw [List.length_append]; omega)
    rw [hn] at hcopy
    rw [hcopy]
    simp only [List.append_assoc]
  have hnew : new <+: r.mem := by
    rcases hr with hr | ⟨rfl, -⟩
    · exact prefix_of_shows hr
    · exact List.nil_prefix
  have hwritten := memcpy_append (x := w ++ t.take n) (y := (gap ++ t.take n).drop n ++ pat)
    (z := t.drop (n + pat.length) ++ 0 :: rest) (feeds_apart hnew _ _)
    (by rw [List.length_append]; omega)
  rw [hbase] at hwritten
  refine ⟨_, rest, hmoved, hwritten, ?_⟩
  rw [hmem]
  simp only [List.length_append, List.length_drop, List.length_cons]
  omega

lemma Shrinking.len_eq (h : Shrinking w gap t s) {n : ℕ} (hat : firstIn pat t = some n)
    (hlt : new.length < pat.length) (hdiff : diff = new.length - pat.length) :
    sizeAdd s.len diff =
      (w ++ t.take n ++ new).length + (t.drop (n + pat.length)).length := by
  obtain ⟨rest, hmem⟩ := h.mem_split hat
  have hlent := congrArg List.length (split_at hat)
  have hlen := h.len
  have hsmall := h.small
  have hbound := h.length
  rw [hmem] at hbound
  simp only [List.length_append, List.length_cons] at hlent hbound ⊢
  rw [sizeAdd_eq (by omega) (by omega)]
  omega

variable (find) in
lemma shorterRound_step (h : Shrinking w gap t s) (hneedle : cstring (find.get s).mem = some pat)
    (hfind : (find.get s).len = pat.length) {n : ℕ} (hpat : pat ≠ [])
    (hat : firstIn pat t = some n) (hr : HasText new r) (hlt : new.length < pat.length)
    (hdiff : diff = new.length - pat.length) :
    ∃ gap' s', shorterRound find (.apart r) diff (w.length, (w ++ gap).length, s) =
        some (.inl ((w ++ t.take n ++ new).length, (w ++ t.take n ++ new ++ gap').length, s')) ∧
      Shrinking (w ++ t.take n ++ new) gap' (t.drop (n + pat.length)) s' ∧
      gap' = ((gap ++ t.take n).drop n ++ pat).drop new.length := by
  obtain ⟨block, rest, hmoved, hwritten, hlength⟩ := h.copies hpat hat hr hlt.le
  refine ⟨_, { s with
    buffer := some (w ++ t.take n ++ new ++ (((gap ++ t.take n).drop n ++ pat).drop new.length ++
      (t.drop (n + pat.length) ++ 0 :: rest)))
    len := sizeAdd s.len diff }, ?_, ?_, rfl⟩
  · rw [shorterRound, strstr_of h.cstring_drop hneedle, hat, Option.bind_some]
    dsimp only
    rw [hmoved, Option.bind_some]
    have hinside := le_of_occurs hpat (firstIn_some hat).1
    have hwrite : w.length + n + new.length = (w ++ t.take n ++ new).length := by
      rw [List.length_append, List.length_append, List.length_take]
      omega
    have hread : (w ++ gap).length + n + pat.length = (w ++ t.take n ++ new ++
        ((gap ++ t.take n).drop n ++ pat).drop new.length).length := by
      simp only [List.length_append, List.length_drop, List.length_take]
      omega
    change ((memcpy _ _ (.apart r.mem) r.len).map _) = _
    rw [hr.len, hwritten, Option.map_some, hfind, hread]
    change some (Sum.inl (w.length + n + r.len, _, _)) = _
    rw [hr.len, hwrite]
  · refine ⟨⟨rest, (List.append_assoc _ _ _).symm⟩, ?_, fun hmem => h.unread
      (List.mem_of_mem_drop hmem), h.len_eq hat hlt hdiff, hlength.trans h.length, h.small⟩
    intro hmem
    rcases List.mem_append.mp hmem with hmem | hmem
    · exact (List.mem_append.mp hmem).elim h.written fun hmem => h.unread (List.mem_of_mem_take hmem)
    · exact hr.nonzero hmem

/-- The rounds of the loop on their way to the text `goal`. -/
def Closing (pat new goal : List Byte) (p : ℕ × ℕ × WString) : Prop :=
  ∃ w gap t, p.1 = w.length ∧ p.2.1 = (w ++ gap).length ∧ Shrinking w gap t p.2.2 ∧
    w ++ replaceLeft pat new t = goal

lemma shorterRound_spec (goal : List Byte) {f : WString} (hf : Holds pat f) (hr : HasText new r)
    (hpat : pat ≠ []) (hlt : new.length < pat.length) (hdiff : diff = new.length - pat.length)
    {p : ℕ × ℕ × WString} (h : Closing pat new goal p) :
    (∃ s', shorterRound (.apart f) (.apart r) diff p = some (.inr s') ∧ Holds goal s') ∨
      ∃ p', shorterRound (.apart f) (.apart r) diff p = some (.inl p') ∧ Closing pat new goal p' ∧
        p'.2.2.len - p'.1 < p.2.2.len - p.1 := by
  obtain ⟨writeTo, readFrom, s⟩ := p
  obtain ⟨w, gap, t, rfl, hread, hshrinking, hgoal⟩ := h
  dsimp only at hread hshrinking
  subst hread
  cases hat : firstIn pat t with
  | none =>
    rw [replaceLeft_none hat] at hgoal
    subst hgoal
    exact .inl (shorterRound_stop (.apart f) diff hshrinking hf.cstring_eq hat (.apart r))
  | some n =>
    obtain ⟨gap', s', hstep, h', -⟩ := shorterRound_step (.apart f) hshrinking hf.cstring_eq hf.len
      hpat hat hr hlt hdiff
    rw [replaceLeft_some new hpat hat] at hgoal
    refine .inr ⟨_, hstep, ⟨_, _, _, rfl, rfl, h', ?_⟩, ?_⟩
    · rw [← hgoal]
      simp only [List.append_assoc]
    · have hrest := length_rest_lt hpat hat
      have hlens := hshrinking.len
      have hlens' := h'.len
      dsimp only
      omega

lemma Shrinking.len_le (h : Shrinking w gap t s) : s.len ≤ s.capacity := by
  obtain ⟨rest, hrest⟩ := h.mem
  have hlen := h.len
  have hlength := h.length
  rw [hrest] at hlength
  simp only [List.length_append, List.length_cons] at hlength
  omega

lemma replaceShorter_run {f : WString} (hf : Holds pat f) (hr : HasText new r) (hpat : pat ≠ [])
    (hlt : new.length < pat.length) (hdiff : diff = new.length - pat.length) {fuel : ℕ}
    (h : Holds l s) (hfuel : l.length < fuel) :
    ∃ s', replaceShorter (.apart f) (.apart r) diff fuel 0 0 s = some s' ∧
      Holds (replaceLeft pat new l) s' ∧
      ∀ p ∈ Loop.visited (shorterRound (.apart f) (.apart r) diff) fuel (0, 0, s),
        p.2.2.len ≤ p.2.2.capacity := by
  have hround :=
    fun p => shorterRound_spec (replaceLeft pat new l) hf hr hpat hlt hdiff (p := p)
  have hstart : Closing pat new (replaceLeft pat new l) (0, 0, s) :=
    ⟨[], [], l, rfl, rfl, h.shrinking, rfl⟩
  have hlens := h.len
  obtain ⟨s', hrun, hholds⟩ := Loop.run_total (fun p => p.2.2.len - p.1) hround hstart
    (by omega : s.len - 0 < fuel)
  rw [replaceShorter_eq]
  refine ⟨s', hrun, hholds, fun p hp => ?_⟩
  obtain ⟨w, gap, t, -, -, hp', -⟩ := Loop.visited_total _ hround hstart fuel p hp
  exact hp'.len_le

/-- The receiver is found in itself once; what is left of it is still not empty. -/
lemma replaceShorter_own (h : Holds l s) (hr : HasText new r) (hl : l ≠ [])
    (hlt : new.length < l.length) (hdiff : diff = new.length - l.length) (fuel : ℕ) :
    ∃ s', replaceShorter .own (.apart r) diff (fuel + 2) 0 0 s = some s' ∧
      Holds (replaceLeft l new l) s' ∧
      ∀ p ∈ Loop.visited (shorterRound .own (.apart r) diff) (fuel + 2) (0, 0, s),
        p.2.2.len ≤ p.2.2.capacity := by
  rw [replaceShorter_eq]
  cases hat : firstIn l l with
  | none =>
    obtain ⟨s', hstop, hholds⟩ := shorterRound_stop .own diff h.shrinking h.cstring_eq hat (.apart r)
    obtain ⟨hrun, hvisited⟩ := Loop.run_once hstop (fuel + 1)
    refine ⟨s', hrun, ?_, fun p hp => ?_⟩
    · rwa [replaceLeft_none hat]
    · rw [hvisited p hp]
      exact h.len_le
  | some n =>
    have hzero := firstIn_whole rfl hat hl
    subst hzero
    obtain ⟨gap', s₁, hstep, h₁, hgap⟩ := shorterRound_step .own h.shrinking
      h.cstring_eq h.len hl hat hr hlt hdiff
    rw [List.nil_append, List.take_zero, List.nil_append] at hstep h₁
    rw [List.nil_append, List.take_zero, List.drop_nil, List.nil_append] at hgap
    rw [Nat.zero_add, List.drop_length] at h₁
    have hneedle : cstring s₁.mem = some (new ++ gap') := by
      obtain ⟨rest, hrest⟩ := h₁.mem
      rw [hrest, List.nil_append]
      apply CString.cstring_eq
      intro hmem
      rcases List.mem_append.mp hmem with hmem | hmem
      · exact hr.nonzero hmem
      · rw [hgap] at hmem
        exact notMem_drop h.nonzero _ hmem
    have hne : new ++ gap' ≠ [] := by
      rw [← List.length_pos_iff, List.length_append, hgap, List.length_drop]
      omega
    obtain ⟨s', hstop, hholds⟩ := shorterRound_stop .own diff h₁ hneedle
      (firstIn_nil hne) (.apart r)
    obtain ⟨hrun, hvisited⟩ := Loop.run_twice hstep hstop fuel
    refine ⟨s', hrun, ?_, fun p hp => ?_⟩
    · rwa [replaceLeft_some new hl hat, Nat.zero_add, List.drop_length,
        replaceLeft_none (firstIn_nil hl)]
    · rcases hvisited p hp with rfl | rfl
      · exact h.len_le
      · exact h₁.len_le

lemma replaceShorter_exact {replace : Arg} (h : Holds l s) (hf : HasText pat (find.get s))
    (hr : HasText new (replace.get s)) (hlt : new.length < pat.length)
    (hdiff : diff = new.length - pat.length) :
    ∃ s', replaceShorter find replace diff (s.mem.length + 1) 0 0 s = some s' ∧
      Holds (replaceLeft pat new l) s' ∧
      ∀ p ∈ Loop.visited (shorterRound find replace diff) (s.mem.length + 1) (0, 0, s),
        p.2.2.len ≤ p.2.2.capacity := by
  have hlength := h.length
  have hcapacity := h.length_le
  have hpat : pat ≠ [] := List.ne_nil_of_length_pos (by omega)
  rw [hlength]
  cases replace with
  | own =>
    have hself : new = l := (HasText.text_eq hr).symm.trans h.text_eq
    subst hself
    have hnone : firstIn pat new = none := by
      by_contra hsome
      obtain ⟨n, hn⟩ := Option.ne_none_iff_exists'.mp hsome
      have hle := le_of_occurs hpat (firstIn_some hn).1
      omega
    obtain ⟨s', hstop, hholds⟩ := shorterRound_stop find diff h.shrinking
      (hf.holds_of_ne_nil hpat).cstring_eq hnone .own
    obtain ⟨hrun, hvisited⟩ := Loop.run_once hstop (s.capacity + 1)
    rw [replaceShorter_eq]
    refine ⟨s', hrun, ?_, fun p hp => ?_⟩
    · rwa [replaceLeft_none hnone]
    · rw [hvisited p hp]
      exact h.len_le
  | apart r =>
    cases find with
    | own =>
      have hself : pat = l := (HasText.text_eq hf).symm.trans h.text_eq
      subst hself
      exact replaceShorter_own h hr hpat hlt hdiff s.capacity
    | apart f =>
      exact replaceShorter_run (HasText.holds_of_ne_nil hf hpat) hr hpat hlt hdiff h (by omega)

end Shorter

end WString

end FrameworkXC32
