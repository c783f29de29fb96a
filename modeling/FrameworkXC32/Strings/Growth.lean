import FrameworkXC32.Strings.Replace

/-!
# Longer replacements

The branch of `replace` that makes the string longer. It counts the occurrences from the left and
replaces from the right, where it may find more of them.
-/

namespace FrameworkXC32
open Machine Block CString Search

namespace WString

section LastIndexOf

variable {l pat : List Byte} {s s2 : WString}

lemma lastFrom_eq (h : Holds l s) (hneedle : cstring s2.mem = some pat) {fromIndex : ℕ}
    (hfrom : fromIndex < l.length) {fuel p : ℕ} {found : ℤ} (hfuel : fromIndex < fuel + p)
    (hlast : IsLast pat l (min p (fromIndex + 1)) found) :
    ∃ r, lastFrom s.mem s2.mem fromIndex (fuel + 1) p found = some r ∧
      IsLast pat l (fromIndex + 1) r := by
  induction fuel generalizing p found with
  | zero =>
    rw [lastFrom, if_neg (by omega)]
    rw [Nat.min_eq_right (by omega)] at hlast
    exact ⟨found, rfl, hlast⟩
  | succ fuel ih =>
    rw [lastFrom]
    by_cases hp : p ≤ fromIndex
    · have hdrop : cstring (s.mem.drop p) = some (l.drop p) := by
        have hheld : Holds (l.take p ++ l.drop p) s := by rwa [List.take_append_drop]
        have hcut := hheld.cstring_drop
        rwa [List.length_take, Nat.min_eq_left (by omega)] at hcut
      rw [Nat.min_eq_left (by omega)] at hlast
      rw [if_pos hp, strstr_of hdrop hneedle, Option.bind_some]
      cases hat : firstIn pat (l.drop p) with
      | none =>
        refine ⟨found, rfl, hlast.extend (by omega) fun q hq _ => ?_⟩
        have hno := firstIn_none hat (q - p)
        rwa [List.drop_drop, Nat.add_sub_cancel' hq] at hno
      | some n =>
        obtain ⟨hocc, hbefore⟩ := firstIn_some hat
        rw [List.drop_drop] at hocc
        have hbetween : ∀ q, p ≤ q → q < p + n → ¬pat <+: l.drop q := by
          intro q hq hlt
          have hno := hbefore (q - p) (by omega)
          rwa [List.drop_drop, Nat.add_sub_cancel' hq] at hno
        apply ih (by omega)
        by_cases hle : p + n ≤ fromIndex
        · rw [if_pos hle, Nat.min_eq_left (by omega)]
          exact .inr ⟨p + n, rfl, by omega, hocc, fun q hlow hhigh => by omega⟩
        · rw [if_neg hle, Nat.min_eq_right (by omega)]
          exact hlast.extend (by omega) fun q hq hlt => hbetween q hq (by omega)
    · rw [if_neg hp]
      rw [Nat.min_eq_right (by omega)] at hlast
      exact ⟨found, rfl, hlast⟩

lemma lastIndexOf_eq (h : Holds l s) (hneedle : cstring s2.mem = some pat)
    (hlen : s2.len = pat.length) (hpat : pat ≠ []) {fromIndex : ℕ} (hfrom : fromIndex < l.length) :
    ∃ r, s.lastIndexOf s2 fromIndex = some r ∧ IsLast pat l (fromIndex + 1) r := by
  have hpos := List.length_pos_of_ne_nil hpat
  have hlens := h.len
  unfold lastIndexOf
  by_cases hlong : pat.length > l.length
  · rw [if_pos (by omega)]
    refine ⟨-1, rfl, .inl ⟨rfl, fun q _ hocc => ?_⟩⟩
    have hle := le_of_occurs hpat hocc
    omega
  · have hinside : ¬fromIndex ≥ s.len := by omega
    rw [if_neg (by omega)]
    dsimp only
    rw [if_neg hinside]
    exact lastFrom_eq h hneedle hfrom (by omega)
      (.inl ⟨rfl, fun q hq => absurd hq (by omega)⟩)

end LastIndexOf

section SizeNeeded

variable {l w t pat : List Byte} {s : WString} {find : Arg}

lemma sizeNeeded_eq (h : Holds (w ++ t) s) (hneedle : cstring (find.get s).mem = some pat)
    (hlen : (find.get s).len = pat.length) (hpat : pat ≠ []) (diff : ℕ)
    {fuel size : ℕ} (hsize : size < 2 ^ 32) (hfuel : t.length < fuel) :
    sizeNeeded find diff s fuel w.length size =
      some ((size + occurrencesIn pat fuel t * diff) % 2 ^ 32) := by
  induction fuel generalizing w t size with
  | zero => exact absurd hfuel (Nat.not_lt_zero _)
  | succ fuel ih =>
    rw [sizeNeeded, strstr_of h.cstring_drop hneedle, occurrencesIn, Option.bind_some]
    cases hat : firstIn pat t with
    | none =>
      dsimp only
      rw [Nat.zero_mul, Nat.add_zero, Nat.mod_eq_of_lt hsize]
    | some n =>
      have hle := le_of_occurs hpat (firstIn_some hat).1
      have hrest := length_rest_lt hpat hat
      have hhead : (w ++ t.take (n + pat.length)).length = w.length + n + (find.get s).len := by
        rw [List.length_append, List.length_take, hlen]
        omega
      have hnext : Holds (w ++ t.take (n + pat.length) ++ t.drop (n + pat.length)) s := by
        rwa [List.append_assoc, List.take_append_drop]
      have hadd : sizeAdd size diff = (size + diff) % 2 ^ 32 := by
        unfold sizeAdd
        omega
      dsimp only
      rw [← hhead, hadd, ih hnext (Nat.mod_lt _ (by decide)) (by omega), Nat.mod_add_mod,
        Nat.add_mul, Nat.one_mul]
      congr 2
      omega

end SizeNeeded

section Longer

variable {l pat new : List Byte} {s r : WString} {find replace : Arg} {diff : ℕ}

/-- What `memmove` and the new terminator make of the buffer, before the replacement is copied. -/
def opened (l pat new : List Byte) (i : ℕ) (s : WString) : WString where
  buffer := some (overwrite s.mem (i + new.length) (l.drop (i + pat.length) ++ [0]))
  capacity := s.capacity
  len := l.length + new.length - pat.length

/-- One round of `replaceLonger`, at `index`. -/
def longerRound (find replace : Arg) (diff : ℤ) (p : ℤ × WString) :
    Option ((ℤ × WString) ⊕ WString) :=
  let s := p.2
  if p.1 < 0 then some (.inr s)
  else
    (s.lastIndexOf (find.get s) p.1.toNat).bind fun index =>
      if index < 0 then some (.inr s)
      else
        let readFrom := index.toNat + (find.get s).len
        (memmove s.mem (readFrom + diff.toNat) readFrom (sizeSub s.len readFrom)).bind fun b =>
          ({ s with buffer := some b, len := sizeAdd s.len diff }.setByte
              (sizeAdd s.len diff) 0).bind fun s =>
            (memcpy s.mem index.toNat replace.src (replace.get s).len).map fun b =>
              .inl (index - 1, { s with buffer := some b })

lemma replaceLonger_eq (find replace : Arg) (diff : ℤ) (fuel : ℕ) (index : ℤ) (s : WString) :
    replaceLonger find replace diff fuel index s =
      Loop.run (longerRound find replace diff) fuel (index, s) := by
  induction fuel generalizing index s with
  | zero => rfl
  | succ fuel ih =>
    rw [replaceLonger, Loop.run, longerRound]
    by_cases hindex : index < 0
    · rw [if_pos hindex, if_pos hindex]
      rfl
    · rw [if_neg hindex, if_neg hindex, Option.bind_assoc]
      congr 1
      funext found
      by_cases hfound : found < 0
      · rw [if_pos hfound, if_pos hfound]
        rfl
      · rw [if_neg hfound, if_neg hfound]
        dsimp only
        rw [Option.bind_assoc]
        congr 1
        funext b
        rw [Option.bind_assoc]
        congr 1
        funext s'
        rw [Option.bind_map]
        congr 1
        funext b
        exact ih _ _

variable (find replace diff) in
lemma longerRound_stop (h : Holds l s) (hneedle : cstring (find.get s).mem = some pat)
    (hfind : (find.get s).len = pat.length) (hpat : pat ≠ []) {k : ℕ} (hk : k ≤ l.length)
    (hnone : ∀ q, q < k → ¬pat <+: l.drop q) :
    longerRound find replace diff (k - 1, s) = some (.inr s) := by
  rw [longerRound]
  dsimp only
  by_cases hzero : k = 0
  · rw [if_pos (by omega)]
  · rw [if_neg (by omega)]
    have hindex : ((k : ℤ) - 1).toNat = k - 1 := by omega
    obtain ⟨found, hfound, hlast⟩ := lastIndexOf_eq h hneedle hfind hpat
      (by omega : k - 1 < l.length)
    rw [hindex, hfound, Option.bind_some]
    rcases hlast with ⟨rfl, -⟩ | ⟨i, -, hi, hocc, -⟩
    · rfl
    · exact absurd hocc (hnone i (by omega))

lemma length_opened (h : Holds l s) {i : ℕ} (hle : i + pat.length ≤ l.length)
    (hcapacity : l.length + new.length - pat.length ≤ s.capacity) :
    (opened l pat new i s).mem.length = s.mem.length := by
  have hlength := h.length
  apply length_overwrite
  rw [List.length_append, List.length_drop, List.length_singleton]
  omega

lemma Holds.opens (h : Holds l s) {i : ℕ} (hle : i + pat.length ≤ l.length)
    (hlt : pat.length < new.length) (hdiff : diff = new.length - pat.length)
    (hcapacity : l.length + new.length - pat.length ≤ s.capacity) :
    ((memmove s.mem (i + pat.length + diff) (i + pat.length)
        (sizeSub s.len (i + pat.length))).bind fun b =>
      WString.setByte (sizeAdd s.len diff) 0
        { s with buffer := some b, len := sizeAdd s.len diff }) = some (opened l pat new i s) := by
  have hlen := h.len
  have hlength := h.length
  have hsmall := h.small
  obtain ⟨rest, hrest⟩ := h.mem_eq
  have htail : (l.drop (i + pat.length)).length = l.length - (i + pat.length) := List.length_drop
  have hout : (s.mem.drop (i + pat.length)).take (l.length - (i + pat.length)) =
      l.drop (i + pat.length) := by
    rw [hrest, List.drop_append_of_le_length hle, List.take_left' htail]
  have hfit : i + new.length + (l.drop (i + pat.length)).length < s.mem.length := by omega
  have hto : i + pat.length + diff = i + new.length := by omega
  have hlast : sizeAdd s.len diff = i + new.length + (l.drop (i + pat.length)).length := by
    rw [sizeAdd_eq (by omega) (by omega)]
    omega
  have hopened : opened l pat new i s = { s with
      buffer := some (overwrite s.mem (i + new.length) (l.drop (i + pat.length) ++ [0]))
      len := sizeAdd s.len diff } := by
    unfold opened
    congr 1
    omega
  unfold memmove
  rw [sizeSub_eq (by omega) (by omega), hlen, hto, copyOut_eq (by omega), hout,
    Option.bind_some, copyIn_eq (by omega), Option.bind_some, hopened, ← hlen, hlast]
  unfold WString.setByte
  change Option.map _ (store (overwrite s.mem (i + new.length) (l.drop (i + pat.length)))
    (i + new.length + (l.drop (i + pat.length)).length) 0) = _
  rw [store_overwrite _ 0 hfit]
  rfl

lemma Holds.fills (h : Holds l s) {i : ℕ} (hle : i + pat.length ≤ l.length) (hnew : 0 ∉ new)
    (hcapacity : l.length + new.length - pat.length ≤ s.capacity) :
    Holds (l.take i ++ new ++ l.drop (i + pat.length))
      { opened l pat new i s with
        buffer := some (overwrite (opened l pat new i s).mem i new) } := by
  have hlength := h.length
  obtain ⟨rest, hrest⟩ := h.mem_eq
  have hbefore : (opened l pat new i s).mem.take i = l.take i := by
    have hsame : s.mem.take i = l.take i := by
      rw [hrest, List.take_append_of_le_length (by omega)]
    rw [← hsame]
    exact take_overwrite_of_le (Nat.le_add_right i new.length) (by omega)
  have hbehind : (opened l pat new i s).mem.drop (i + new.length) =
      l.drop (i + pat.length) ++ [0] ++
        s.mem.drop (i + new.length + (l.drop (i + pat.length) ++ [0]).length) :=
    drop_overwrite (by omega)
  have hopenlen := length_opened h hle hcapacity
  have hshows : l.take i ++ new ++ l.drop (i + pat.length) ++ [0] <+:
      overwrite (opened l pat new i s).mem i new := by
    refine ⟨s.mem.drop (i + new.length + (l.drop (i + pat.length) ++ [0]).length), ?_⟩
    unfold overwrite
    rw [hbehind, hbefore]
    simp only [List.append_assoc]
  have hsum : (l.take i ++ new ++ l.drop (i + pat.length)).length =
      l.length + new.length - pat.length := by
    have hreplaced := length_replaced new hle
    omega
  have hholds : Holds (l.take i ++ new ++ l.drop (i + pat.length))
      ⟨some (overwrite (opened l pat new i s).mem i new), s.capacity,
        (l.take i ++ new ++ l.drop (i + pat.length)).length⟩ :=
    holds_mk (notMem_replaced h.nonzero hnew i _)
      ((length_overwrite (by omega)).trans (hopenlen.trans hlength)) h.small hshows
  rw [hsum] at hholds
  exact hholds

lemma lastIndexOf_last (h : Holds l s) {f : WString} (hneedle : cstring f.mem = some pat)
    (hfind : f.len = pat.length) (hpat : pat ≠ []) {i k : ℕ} (hk : k ≤ l.length) (hi : i < k)
    (hat : pat <+: l.drop i) (hlast : ∀ q, i < q → q < k → ¬pat <+: l.drop q) :
    s.lastIndexOf f ((k : ℤ) - 1).toNat = some (i : ℤ) := by
  obtain ⟨found, hfound, hisLast⟩ := lastIndexOf_eq h hneedle hfind hpat
    (by omega : k - 1 < l.length)
  have hindex : ((k : ℤ) - 1).toNat = k - 1 := by omega
  rw [hindex, hfound]
  rcases hisLast with ⟨-, hno⟩ | ⟨j, rfl, hj, hocc, hno⟩
  · exact absurd hat (hno i (by omega))
  · rcases Nat.lt_trichotomy i j with hij | rfl | hij
    · exact absurd hocc (hlast j hij (by omega))
    · rfl
    · exact absurd hat (hno i hij (by omega))

variable (find replace) in
lemma longerRound_step (h : Holds l s) (hneedle : cstring (find.get s).mem = some pat)
    (hfind : (find.get s).len = pat.length) (hpat : pat ≠ []) {i k : ℕ} (hk : k ≤ l.length)
    (hi : i < k) (hat : pat <+: l.drop i) (hlast : ∀ q, i < q → q < k → ¬pat <+: l.drop q)
    (hlt : pat.length < new.length) (hdiff : diff = new.length - pat.length)
    (hcapacity : l.length + new.length - pat.length ≤ s.capacity)
    (hcopy : memcpy (opened l pat new i s).mem i replace.src
        (replace.get (opened l pat new i s)).len =
      some (overwrite (opened l pat new i s).mem i new)) :
    longerRound find replace diff (k - 1, s) = some (.inl (i - 1,
        { opened l pat new i s with
          buffer := some (overwrite (opened l pat new i s).mem i new) })) := by
  have hle := le_of_occurs hpat hat
  rw [longerRound]
  dsimp only
  rw [if_neg (by omega), lastIndexOf_last h hneedle hfind hpat hk hi hat hlast, Option.bind_some,
    if_neg (by omega), Int.toNat_natCast, hfind]
  rw [Int.toNat_natCast, ← Option.bind_assoc, h.opens hle hlt hdiff hcapacity, Option.bind_some,
    hcopy, Option.map_some]

variable (find replace) in
/-- Without room for the longer text the terminator is written behind the buffer. -/
lemma longerRound_overruns (h : Holds l s) (hneedle : cstring (find.get s).mem = some pat)
    (hfind : (find.get s).len = pat.length) (hpat : pat ≠ []) {i k : ℕ} (hk : k ≤ l.length)
    (hi : i < k) (hat : pat <+: l.drop i) (hlast : ∀ q, i < q → q < k → ¬pat <+: l.drop q)
    (hlt : pat.length < new.length) (hsmall : new.length < 2 ^ 31)
    (hdiff : diff = new.length - pat.length)
    (hover : s.capacity < l.length + new.length - pat.length) :
    longerRound find replace diff (k - 1, s) = none := by
  have hle := le_of_occurs hpat hat
  have hlen := h.len
  have hlength := h.length
  have hcapacity := h.length_le
  have hcapsmall := h.small
  rw [longerRound]
  dsimp only
  rw [if_neg (by omega), lastIndexOf_last h hneedle hfind hpat hk hi hat hlast, Option.bind_some,
    if_neg (by omega), Int.toNat_natCast, hfind]
  have hlast : sizeAdd s.len diff = s.len + diff := by
    rw [sizeAdd_eq (by omega) (by omega)]
    omega
  unfold memmove
  rw [sizeSub_eq (by omega) (by omega), copyOut_eq (by omega), Option.bind_some]
  unfold copyIn
  split
  · rename_i hfit
    have hblock := length_overwrite hfit
    have hout : ∀ t : WString, t.mem.length = s.mem.length →
        t.setByte (sizeAdd s.len diff) 0 = none := by
      intro t ht
      unfold WString.setByte store copyIn
      rw [if_neg (by rw [List.length_singleton, hlast]; omega)]
      rfl
    have hnone := hout { s with
      buffer := some (overwrite s.mem (i + pat.length + (diff : ℤ).toNat)
        ((s.mem.drop (i + pat.length)).take (s.len - (i + pat.length))))
      len := sizeAdd s.len diff } hblock
    rw [Option.bind_some, hnone]
    rfl
  · rfl

/-- The rounds of the loop on their way to the text `goal`. -/
def Growing (pat new goal : List Byte) (p : ℤ × WString) : Prop :=
  ∃ (k : ℕ) (l : List Byte), p.1 = k - 1 ∧ k ≤ l.length ∧ Holds l p.2 ∧
    replaceRight pat new k l = goal

lemma longerRound_spec (goal : List Byte) {f : WString} (hf : Holds pat f) (hr : Holds new r)
    (hpat : pat ≠ []) (hlt : pat.length < new.length) (hdiff : diff = new.length - pat.length)
    {p : ℤ × WString} (h : Growing pat new goal p) :
    (longerRound (.apart f) (.apart r) diff p = some (.inr p.2) ∧ Holds goal p.2) ∨
      (∃ p', longerRound (.apart f) (.apart r) diff p = some (.inl p') ∧ Growing pat new goal p' ∧
        p'.2.capacity = p.2.capacity ∧ p'.1 < p.1 ∧ 0 ≤ p.1) ∨
      longerRound (.apart f) (.apart r) diff p = none ∧ p.2.capacity < goal.length := by
  obtain ⟨index, s⟩ := p
  obtain ⟨k, l, rfl, hk, hholds, hgoal⟩ := h
  dsimp only at hholds ⊢
  by_cases hnone : ∀ q, q < k → ¬pat <+: l.drop q
  · rw [replaceRight_skip new (Nat.zero_le k) fun q _ hq => hnone q hq] at hgoal
    have hid : replaceRight pat new 0 l = l := rfl
    rw [hid] at hgoal
    subst hgoal
    exact .inl ⟨longerRound_stop (.apart f) _ diff hholds hf.cstring_eq hf.len hpat hk hnone, hholds⟩
  · push Not at hnone
    obtain ⟨q, hq, hocc⟩ := hnone
    obtain ⟨i, -, hi, hat, hlast, hright⟩ := exists_last new hocc hq
    have hle := le_of_occurs hpat hat
    have hreplaced := length_replaced new hle
    have hgrows := length_le_replaceRight hpat hlt.le i
      (l.take i ++ new ++ l.drop (i + pat.length))
    rw [hright] at hgoal
    by_cases hroom : l.length + new.length - pat.length ≤ s.capacity
    · have hlength := hholds.length
      have hcopy : memcpy (opened l pat new i s).mem i (.apart r.mem) r.len =
          some (overwrite (opened l pat new i s).mem i new) := by
        rw [hr.len]
        apply memcpy_eq (feeds_apart (prefix_of_shows hr) _ _)
        rw [length_opened hholds hle hroom]
        omega
      have hstep := longerRound_step (.apart f) (.apart r) hholds hf.cstring_eq hf.len hpat hk hi
        hat hlast hlt hdiff hroom hcopy
      refine .inr (.inl ⟨_, hstep, ⟨i, _, rfl, ?_, hholds.fills hle hr.nonzero hroom, hgoal⟩, rfl,
        ?_, ?_⟩)
      · omega
      · dsimp only
        omega
      · omega
    · refine .inr (.inr ⟨?_, ?_⟩)
      · exact longerRound_overruns (.apart f) (.apart r) hholds hf.cstring_eq hf.len hpat hk hi hat
          hlast hlt
          (by have hsmall := hr.small; have hrlen := hr.length_le; omega) hdiff (Nat.not_le.mp hroom)
      · rw [← hgoal]
        omega

/-- With `find` and `replace` apart from the receiver the loop replaces from right to left, as long
as the buffer suffices for what comes of it. -/
lemma replaceLonger_run {f : WString} (hf : Holds pat f) (hr : Holds new r) (hpat : pat ≠ [])
    (hlt : pat.length < new.length) (hdiff : diff = new.length - pat.length) {fuel : ℕ}
    (h : Holds l s) (hfuel : l.length < fuel)
    (hcapacity : (replaceRight pat new l.length l).length ≤ s.capacity) :
    ∃ s', replaceLonger (.apart f) (.apart r) diff fuel (l.length - 1) s = some s' ∧
      Holds (replaceRight pat new l.length l) s' ∧
      ∀ p ∈ Loop.visited (longerRound (.apart f) (.apart r) diff) fuel (l.length - 1, s),
        p.2.len ≤ p.2.capacity := by
  have hround : ∀ p : ℤ × WString,
      Growing pat new (replaceRight pat new l.length l) p ∧ p.2.capacity = s.capacity →
      (∃ s', longerRound (.apart f) (.apart r) diff p = some (.inr s') ∧
        Holds (replaceRight pat new l.length l) s') ∨
      ∃ p', longerRound (.apart f) (.apart r) diff p = some (.inl p') ∧
        (Growing pat new (replaceRight pat new l.length l) p' ∧ p'.2.capacity = s.capacity) ∧
        (p'.1 + 1).toNat < (p.1 + 1).toNat := by
    rintro p ⟨hp, hsame⟩
    rcases longerRound_spec _ hf hr hpat hlt hdiff hp with ⟨hstop, hholds⟩ |
      ⟨p', hstep, hp', hkeep, hless, hpos⟩ | ⟨-, hover⟩
    · exact .inl ⟨_, hstop, hholds⟩
    · exact .inr ⟨p', hstep, ⟨hp', hkeep.trans hsame⟩, by omega⟩
    · omega
  have hstart : Growing pat new (replaceRight pat new l.length l) ((l.length : ℤ) - 1, s) :=
    ⟨l.length, l, rfl, Nat.le_refl _, h, rfl⟩
  have hvariant : ((l.length : ℤ) - 1 + 1).toNat < fuel := by omega
  obtain ⟨s', hrun, hholds⟩ :=
    Loop.run_total (fun p : ℤ × WString => (p.1 + 1).toNat) hround ⟨hstart, rfl⟩ hvariant
  rw [replaceLonger_eq]
  refine ⟨s', hrun, hholds, fun p hp => ?_⟩
  obtain ⟨⟨k, t, -, -, hp', -⟩, -⟩ := Loop.visited_total _ hround ⟨hstart, rfl⟩ fuel p hp
  exact hp'.len_le

lemma replaceLonger_some {f s' : WString} (hf : Holds pat f) (hr : Holds new r) (hpat : pat ≠ [])
    (hlt : pat.length < new.length) (hdiff : diff = new.length - pat.length) {fuel : ℕ}
    (h : Holds l s)
    (hs : replaceLonger (.apart f) (.apart r) diff fuel (l.length - 1) s = some s') :
    Holds (replaceRight pat new l.length l) s' := by
  have hstart : Growing pat new (replaceRight pat new l.length l) ((l.length : ℤ) - 1, s) :=
    ⟨l.length, l, rfl, Nat.le_refl _, h, rfl⟩
  rw [replaceLonger_eq] at hs
  refine Loop.run_partial (fun p p' hp hstep => ?_) (fun p s' hp hend => ?_) hstart hs
  · rcases longerRound_spec _ hf hr hpat hlt hdiff hp with ⟨hstop, -⟩ |
      ⟨p'', hstep', hp'', -⟩ | ⟨hnone, -⟩
    · rw [hstop] at hstep
      cases hstep
    · rw [hstep'] at hstep
      cases hstep
      exact hp''
    · rw [hnone] at hstep
      cases hstep
  · rcases longerRound_spec _ hf hr hpat hlt hdiff hp with ⟨hstop, hholds⟩ |
      ⟨p'', hstep', -⟩ | ⟨hnone, -⟩
    · rw [hstop] at hend
      cases hend
      exact hholds
    · rw [hstep'] at hend
      cases hend
    · rw [hnone] at hend
      cases hend

variable (find replace) in
/-- Where the pattern occurs at the front only, the loop makes one round. -/
lemma replaceLonger_once (h : Holds l s) (hneedle : cstring (find.get s).mem = some pat)
    (hfind : (find.get s).len = pat.length) (hpat : pat ≠ []) (hat : pat <+: l)
    (hlast : ∀ q, 0 < q → ¬pat <+: l.drop q) (hlt : pat.length < new.length)
    (hdiff : diff = new.length - pat.length) (hnew : 0 ∉ new)
    (hcapacity : (replaceRight pat new l.length l).length ≤ s.capacity)
    (hcopy : l.length + new.length - pat.length ≤ s.capacity →
      memcpy (opened l pat new 0 s).mem 0 replace.src
          (replace.get (opened l pat new 0 s)).len =
        some (overwrite (opened l pat new 0 s).mem 0 new)) :
    ∃ s', replaceLonger find replace diff (l.length + 1) (l.length - 1) s = some s' ∧
      Holds (replaceRight pat new l.length l) s' ∧
      ∀ p ∈ Loop.visited (longerRound find replace diff) (l.length + 1) (l.length - 1, s),
        p.2.len ≤ p.2.capacity := by
  have hle := hat.length_le
  have hpos := List.length_pos_of_ne_nil hpat
  have hright : replaceRight pat new l.length l =
      l.take 0 ++ new ++ l.drop (0 + pat.length) := by
    rw [replaceRight_skip new (j := 1) (by omega) fun q hq _ => hlast q hq]
    exact replaceRight_at new hat
  have hreplaced := length_replaced new (n := 0) (by omega : 0 + pat.length ≤ l.length)
  rw [hright] at hcapacity
  replace hcapacity : l.length + new.length - pat.length ≤ s.capacity := by omega
  obtain ⟨fuel, hfuel⟩ : ∃ fuel, l.length = fuel + 1 := Nat.exists_eq_succ_of_ne_zero (by omega)
  have hstep := longerRound_step find replace h hneedle hfind hpat (Nat.le_refl _) (i := 0)
    (by omega) hat (fun q hq _ => hlast q hq) hlt hdiff hcapacity (hcopy hcapacity)
  have hholds := h.fills (i := 0) (by omega) hnew hcapacity
  have hstop : ∀ t : WString,
      longerRound find replace diff (((0 : ℕ) : ℤ) - 1, t) = some (.inr t) := by
    intro t
    have hneg : ((0 : ℕ) : ℤ) - 1 < 0 := by decide
    rw [longerRound]
    exact if_pos hneg
  obtain ⟨hrun, hvisited⟩ := Loop.run_twice hstep (hstop _) fuel
  have hrounds : l.length + 1 = fuel + 2 := by omega
  rw [replaceLonger_eq, hright, hrounds]
  refine ⟨_, hrun, hholds, fun p hp => ?_⟩
  rcases hvisited p hp with rfl | rfl
  · exact h.len_le
  · exact hholds.len_le

/-- A replacement that is the receiver is copied onto itself when it goes to the front. -/
lemma memcpy_opened_own (h : Holds l s) (hle : pat.length ≤ l.length)
    (hcapacity : l.length + l.length - pat.length ≤ s.capacity) :
    memcpy (opened l pat l 0 s).mem 0 (.own 0) (opened l pat l 0 s).len =
      some (overwrite (opened l pat l 0 s).mem 0 l) := by
  have hlength := h.length
  have hopenlen : (opened l pat l 0 s).mem.length = s.mem.length :=
    length_opened h (by omega) hcapacity
  have hfront : l <+: (opened l pat l 0 s).mem := by
    have htake : (opened l pat l 0 s).mem.take l.length = s.mem.take l.length :=
      take_overwrite_of_le (by omega) (by omega)
    obtain ⟨rest, hrest⟩ := h.mem_eq
    have hprefix := List.take_prefix l.length (opened l pat l 0 s).mem
    rwa [htake, hrest, List.take_left] at hprefix
  rw [overwrite_of_shown hfront]
  apply memcpy_self
  rw [hopenlen]
  change l.length + l.length - pat.length ≤ s.mem.length
  omega

end Longer

section ReplaceString

variable {l pat new : List Byte} {s : WString} {find replace : Arg} {fresh : Fresh}

/-- The size that is computed for a longer text, from the occurrences from left to right. -/
def sizeFor (pat new l : List Byte) : ℕ :=
  (l.length + occurrences pat l * (new.length - pat.length)) % 2 ^ 32

/-- The buffer is too small for what comes of replacing from right to left, or `replace` is the
receiver, which changes, and goes behind its front; and there is memory for the computed size. -/
def ReplaceOverruns (find replace : Arg) (fresh : Fresh) (s : WString) : Prop :=
  let l := s.text
  let pat := (find.get s).text
  let new := (replace.get s).text
  let size := sizeFor pat new l
  l ≠ [] ∧ pat ≠ [] ∧ pat.length < new.length ∧ size ≠ l.length ∧
    (size + 1 = 2 ^ 32 ∨ (size ≤ s.capacity ∨ fresh.isSome ∧ size + 1 < 2 ^ 31) ∧
      (max s.capacity size < (replaceRight pat new l.length l).length ∨
        replace = .own ∧ (firstIn pat l.tail).isSome))

instance (find replace : Arg) (fresh : Fresh) (s : WString) :
    Decidable (ReplaceOverruns find replace fresh s) :=
  inferInstanceAs (Decidable (_ ∧ _ ∧ _ ∧ _ ∧ (_ ∨ _ ∧ (_ ∨ _ ∧ _))))

/-- A longer replacement that fits replaces from right to left; the receiver can replace an
occurrence at its front only. -/
lemma replaceLonger_exact (h : Holds l s) (hf : HasText pat (find.get s))
    (hr : HasText new (replace.get s)) (hpat : pat ≠ []) (hlt : pat.length < new.length)
    {n : ℕ} (hat : firstIn pat l = some n)
    (hcapacity : (replaceRight pat new l.length l).length ≤ s.capacity)
    (hown : replace = .own → firstIn pat l.tail = none) :
    ∃ s', replaceLonger find replace ((new.length - pat.length : ℕ) : ℤ) (s.len + 1)
        (Int.bmod (s.len - 1) (2 ^ 32)) s = some s' ∧
      Holds (replaceRight pat new l.length l) s' ∧
      ∀ p ∈ Loop.visited (longerRound find replace ((new.length - pat.length : ℕ) : ℤ))
        (s.len + 1) (Int.bmod (s.len - 1) (2 ^ 32), s), p.2.len ≤ p.2.capacity := by
  have hsmall := h.small
  have hinside := h.length_le
  have hindex : Int.bmod (l.length - 1) (2 ^ 32) = (l.length : ℤ) - 1 := by
    apply Int.bmod_eq_of_le <;> omega
  rw [h.len, hindex]
  have hnew : new ≠ [] := List.ne_nil_of_length_pos (by omega)
  obtain ⟨hocc, -⟩ := firstIn_some hat
  have hle := le_of_occurs hpat hocc
  have hneedle : cstring (find.get s).mem = some pat := (hf.holds_of_ne_nil hpat).cstring_eq
  cases replace with
  | apart r =>
    have hr' : Holds new r := HasText.holds_of_ne_nil hr hnew
    cases find with
    | apart f =>
      have hf' : Holds pat f := HasText.holds_of_ne_nil hf hpat
      exact replaceLonger_run hf' hr' hpat hlt rfl h (Nat.lt_succ_self _) hcapacity
    | own =>
      have hself : pat = l := (HasText.text_eq hf).symm.trans h.text_eq
      subst hself
      apply replaceLonger_once .own (.apart r) h hneedle h.len hpat (List.prefix_refl _) _ hlt rfl
        hr.nonzero hcapacity
      · intro hroom
        change memcpy _ 0 (.apart r.mem) r.len = _
        rw [hr'.len]
        have hlength := h.length
        apply memcpy_eq (feeds_apart (prefix_of_shows hr') _ _)
        rw [length_opened h (by omega) hroom]
        omega
      · intro q hq hself
        have hinside := le_of_occurs hpat hself
        omega
  | own =>
    have hself : new = l := (HasText.text_eq hr).symm.trans h.text_eq
    subst hself
    have hlast : ∀ q, 0 < q → ¬pat <+: new.drop q := by
      intro q hq hbehind
      have hno := firstIn_none (hown rfl) (q - 1)
      rw [List.drop_tail, Nat.sub_add_cancel hq] at hno
      exact hno hbehind
    have hzero : n = 0 := by
      by_contra hne
      exact hlast n (Nat.pos_of_ne_zero hne) hocc
    subst hzero
    exact replaceLonger_once find .own h hneedle hf.len hpat hocc hlast hlt rfl h.nonzero
      hcapacity fun hroom => memcpy_opened_own h (by omega) hroom

lemma HasText.get {s₁ : WString} {a : Arg} (ha : HasText pat (a.get s)) (h : Holds l s)
    (h₁ : Holds l s₁) : HasText pat (a.get s₁) := by
  cases a with
  | apart t => exact ha
  | own =>
    have hself : pat = l := (HasText.text_eq ha).symm.trans h.text_eq
    subst hself
    exact .inl h₁

lemma sizeNeeded_sizeFor (h : Holds l s) (hneedle : cstring (find.get s).mem = some pat)
    (hfind : (find.get s).len = pat.length) (hpat : pat ≠ []) (new : List Byte) :
    sizeNeeded find ((new.length - pat.length : ℕ) : ℤ) s (s.mem.length + 1) 0 s.len =
      some (sizeFor pat new l) := by
  have hlength := h.length
  have hcapacity := h.length_le
  have hsmall := h.small
  have hstart : s.len < 2 ^ 32 := by
    rw [h.len]
    omega
  have hfuel : l.length < s.mem.length + 1 := by omega
  have hsize :=
    sizeNeeded_eq (w := []) h hneedle hfind hpat (new.length - pat.length) hstart hfuel
  rw [occurrencesIn_eq hpat (by omega) (Nat.lt_add_one l.length), h.len] at hsize
  rw [h.len]
  exact hsize

/-- Unless the buffer is overrun, what comes of it fits whenever there is memory for the computed
size, and that size leaves room for a terminator. -/
lemma fits_of_not_overruns (h : Holds l s) (hf : HasText pat (find.get s))
    (hr : HasText new (replace.get s)) (hl : l ≠ []) (hpat : pat ≠ [])
    (hlt : pat.length < new.length) (hsize : sizeFor pat new l ≠ l.length)
    (hok : ¬ReplaceOverruns find replace fresh s) :
    sizeFor pat new l + 1 ≠ 2 ^ 32 ∧
      (sizeFor pat new l ≤ s.capacity ∨ fresh.isSome ∧ sizeFor pat new l + 1 < 2 ^ 31 →
        (replaceRight pat new l.length l).length ≤ max s.capacity (sizeFor pat new l) ∧
          (replace = .own → firstIn pat l.tail = none)) := by
  unfold ReplaceOverruns at hok
  rw [h.text_eq, hf.text_eq, hr.text_eq] at hok
  have hbad := fun hbad => hok ⟨hl, hpat, hlt, hsize, hbad⟩
  refine ⟨fun hwrap => hbad (.inl hwrap), fun hmemory => ⟨?_, ?_⟩⟩
  · exact Nat.not_lt.mp fun hover => hbad (.inr ⟨hmemory, .inl hover⟩)
  · intro hown
    rw [← Option.not_isSome_iff_eq_none]
    exact fun hsome => hbad (.inr ⟨hmemory, .inr ⟨hown, hsome⟩⟩)

lemma exists_firstIn (hsmall : l.length < 2 ^ 32) (hsize : sizeFor pat new l ≠ l.length) :
    ∃ n, firstIn pat l = some n := by
  rw [← Option.ne_none_iff_exists']
  intro hnone
  apply hsize
  unfold sizeFor occurrences
  rw [occurrencesIn, hnone, Nat.zero_mul, Nat.add_zero, Nat.mod_eq_of_lt hsmall]

/-! The branches of `replace`. -/

lemma bmod_diff (hf : HasText pat (find.get s)) (hr : HasText new (replace.get s)) :
    Int.bmod (↑(replace.get s).len - ↑(find.get s).len) (2 ^ 32) =
      (new.length : ℤ) - pat.length := by
  have hfsmall := hf.small
  have hrsmall := hr.small
  rw [hr.len, hf.len]
  apply Int.bmod_eq_of_le <;> omega

lemma replaceString_same (hs : ¬(s.len = 0 ∨ (find.get s).len = 0))
    (hf : HasText pat (find.get s)) (hr : HasText new (replace.get s))
    (hsame : new.length = pat.length) :
    replaceString find replace fresh s = replaceSame find replace (s.mem.length + 1) 0 s := by
  unfold replaceString
  rw [if_neg hs, bmod_diff hf hr]
  dsimp only
  rw [if_pos (by omega)]

lemma replaceString_shorter (hs : ¬(s.len = 0 ∨ (find.get s).len = 0))
    (hf : HasText pat (find.get s)) (hr : HasText new (replace.get s))
    (hshort : new.length < pat.length) :
    replaceString find replace fresh s =
      replaceShorter find replace ((new.length : ℤ) - pat.length) (s.mem.length + 1) 0 0 s := by
  unfold replaceString
  rw [if_neg hs, bmod_diff hf hr]
  dsimp only
  rw [if_neg (by omega), if_pos (by omega)]

lemma replaceString_longer (h : Holds l s) (hs : ¬(s.len = 0 ∨ (find.get s).len = 0))
    (hf : HasText pat (find.get s)) (hr : HasText new (replace.get s)) (hpat : pat ≠ [])
    (hlt : pat.length < new.length) :
    replaceString find replace fresh s =
      if sizeFor pat new l = s.len then some s
      else if sizeFor pat new l > s.capacity then
        (s.changeBuffer (sizeFor pat new l) fresh).bind fun r =>
          if r.1 then replaceLonger find replace ((new.length - pat.length : ℕ) : ℤ) (r.2.len + 1)
            (Int.bmod (r.2.len - 1) (2 ^ 32)) r.2
          else some r.2
      else replaceLonger find replace ((new.length - pat.length : ℕ) : ℤ) (s.len + 1)
        (Int.bmod (s.len - 1) (2 ^ 32)) s := by
  have hcast : (new.length : ℤ) - pat.length = ((new.length - pat.length : ℕ) : ℤ) := by omega
  have hneedle := (hf.holds_of_ne_nil hpat).cstring_eq
  unfold replaceString
  rw [if_neg hs, bmod_diff hf hr, hcast]
  dsimp only
  rw [if_neg (by omega), if_neg (by omega), sizeNeeded_sizeFor h hneedle hf.len hpat new,
    Option.bind_some]

lemma replaceLonger_sound (h : Holds l s) (hs : ¬(s.len = 0 ∨ (find.get s).len = 0))
    (hf : HasText pat (find.get s)) (hr : HasText new (replace.get s)) (hpat : pat ≠ [])
    (hlt : pat.length < new.length) (hok : ¬ReplaceOverruns find replace fresh s) :
    ∃ s', replaceString find replace fresh s = some s' ∧ s'.Sound := by
  have hsmall := h.small
  have hle := h.length_le
  rw [replaceString_longer h hs hf hr hpat hlt]
  by_cases hsame : sizeFor pat new l = s.len
  · rw [if_pos hsame]
    exact ⟨s, rfl, h.sound⟩
  · rw [if_neg hsame]
    rw [h.len] at hsame
    obtain ⟨n, hat⟩ := exists_firstIn (by omega) hsame
    have hpos := List.length_pos_of_ne_nil hpat
    have hinside := le_of_occurs hpat (firstIn_some hat).1
    have hl : l ≠ [] := List.ne_nil_of_length_pos (by omega)
    obtain ⟨hwrap, hfits⟩ := fits_of_not_overruns h hf hr hl hpat hlt hsame hok
    have hsizelt : sizeFor pat new l < 2 ^ 32 := Nat.mod_lt _ (by decide)
    split
    · rename_i hgrow
      by_cases hmemory : fresh.isSome ∧ sizeFor pat new l + 1 < 2 ^ 31
      · obtain ⟨s₁, hchange, h₁, hcapacity⟩ := h.changeBuffer (by omega) hmemory.1 hmemory.2
        obtain ⟨hlen, hown⟩ := hfits (.inr hmemory)
        have hroom : (replaceRight pat new l.length l).length ≤ s₁.capacity := by omega
        obtain ⟨s', hrun, hright, -⟩ :=
          replaceLonger_exact h₁ (hf.get h h₁) (hr.get h h₁) hpat hlt hat hroom hown
        rw [hchange, Option.bind_some, if_pos rfl]
        exact ⟨s', hrun, hright.sound⟩
      · rw [changeBuffer_fails (by omega) hmemory]
        exact ⟨s, rfl, h.sound⟩
    · rename_i hgrow
      obtain ⟨hlen, hown⟩ := hfits (.inl (by omega))
      obtain ⟨s', hrun, hright, -⟩ := replaceLonger_exact h hf hr hpat hlt hat (by omega) hown
      exact ⟨s', hrun, hright.sound⟩

/-- `replace` keeps a string valid unless the longer branch overruns the buffer. -/
theorem HasText.replaceString (h : HasText l s) (hf : HasText pat (find.get s))
    (hr : HasText new (replace.get s)) (hok : ¬ReplaceOverruns find replace fresh s) :
    ∃ s', replaceString find replace fresh s = some s' ∧ s'.Sound := by
  have hlen := h.len
  have hflen := hf.len
  by_cases hempty : s.len = 0 ∨ (find.get s).len = 0
  · unfold WString.replaceString
    rw [if_pos hempty]
    exact ⟨s, rfl, h.sound⟩
  · have hpat : pat ≠ [] := List.ne_nil_of_length_pos (by omega)
    have hholds : Holds l s := h.holds (by omega)
    rcases Nat.lt_trichotomy new.length pat.length with hlt | heq | hlt
    · rw [replaceString_shorter hempty hf hr hlt]
      obtain ⟨s', hrun, hleft, -⟩ := replaceShorter_exact hholds hf hr hlt rfl
      exact ⟨s', hrun, hleft.sound⟩
    · rw [replaceString_same hempty hf hr heq]
      obtain ⟨s', hrun, hleft, -⟩ := replaceSame_exact hholds hf hr hpat heq
      exact ⟨s', hrun, hleft.sound⟩
    · exact replaceLonger_sound hholds hempty hf hr hpat hlt hok

end ReplaceString

end WString

end FrameworkXC32
