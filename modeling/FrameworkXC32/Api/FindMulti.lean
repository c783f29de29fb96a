import FrameworkXC32.Api.Stream
import FrameworkXC32.Lib.Borders

/-!
# `Stream::findMulti`

Several strings are looked for at once, in a stream that is read only once. A target keeps how many
of its characters have been matched; what it falls back to after a mismatch is found by comparing
the matched part with itself.
-/

namespace FrameworkXC32
open Machine

/-- The string is what can be read from its address on. -/
structure MultiTarget where
  str : List Byte
  len : ℕ
  index : ℕ
deriving DecidableEq, Repr

namespace MultiTarget

def text (target : MultiTarget) : List Byte := target.str.take target.len

/-- The loop over `i`, with the number of turns that are left: where the matched part first differs
from itself `diff` characters later. -/
def overlapLoop (str : List Byte) (diff : ℕ) : ℕ → ℕ → Option ℕ
  | 0, i => some i
  | turns + 1, i => do
    let char ← str[i]?
    let later ← str[i + diff]?
    if char ≠ later then some i else overlapLoop str diff turns (i + 1)

/-- The `do` loop, entered or continued with the last argument as `index`. -/
def fallBack (str : List Byte) (c : ℤ) (origIndex : ℕ) : ℕ → Option ℕ
  | 0 => some 0
  | index + 1 => do
    let char ← str[index]?
    if c ≠ char.toInt then fallBack str c origIndex index
    else if index = 0 then some (index + 1)
    else
      let i ← overlapLoop str (origIndex - index) index 0
      if i = index then some (index + 1) else fallBack str c origIndex index

/-- One turn of the loop over the targets, and whether the target is complete. -/
def offer (c : ℤ) (target : MultiTarget) : Option (Bool × MultiTarget) := do
  let char ← target.str[target.index]?
  if c = char.toInt then
    some (target.index + 1 == target.len, { target with index := target.index + 1 })
  else if target.index = 0 then some (false, target)
  else
    let index ← fallBack target.str c target.index target.index
    some (false, { target with index := index })

/-- The loop over the targets, the first of which has the index `i`. -/
def offerAll (c : ℤ) : ℕ → List MultiTarget → Option (Option ℕ × List MultiTarget)
  | _, [] => some (none, [])
  | i, target :: targets => do
    let (complete, target) ← offer c target
    if complete then some (some i, target :: targets)
    else
      let (found, targets) ← offerAll c (i + 1) targets
      some (found, target :: targets)

/-- A target that the search can start with: not empty, and its characters are there. -/
structure Fresh (target : MultiTarget) : Prop where
  nonempty : 0 < target.len
  fits : target.len ≤ target.str.length
  index_zero : target.index = 0
  ascii : ∀ b ∈ target.text, b.toNat < 0x80

end MultiTarget

namespace Stream

open MultiTarget

variable {σ : Type} (S : Stream σ) (clock : ℕ → Word) (timeout : Word)

/-- The loop of `timedRead`. -/
def timedReadLoop (startMillis : Word) : ℕ → ℕ → σ → Option (ℤ × ℕ × σ)
  | 0, _, _ => none
  | polls + 1, t, s =>
    let (c, s) := S.read s
    if c ≥ 0 then some (c, t, s)
    else if clock t - startMillis < timeout then timedReadLoop startMillis polls (t + 1) s
    else some (-1, t + 1, s)

def timedRead (polls t : ℕ) (s : σ) : Option (ℤ × ℕ × σ) :=
  timedReadLoop S clock timeout (clock t) polls (t + 1) s

def findMultiLoop (polls : ℕ) :
    ℕ → List MultiTarget → ℕ → σ → Option (ℤ × List MultiTarget × ℕ × σ)
  | 0, _, _, _ => none
  | turns + 1, targets, t, s => do
    let (c, t, s) ← timedRead S clock timeout polls t s
    if c < 0 then some (-1, targets, t, s)
    else
      match ← offerAll c 0 targets with
      | (some i, targets) => some ((i : ℤ), targets, t, s)
      | (none, targets) => findMultiLoop polls turns targets t s

/-- An empty target is found at once. -/
def findMulti (polls turns : ℕ) (targets : List MultiTarget) (t : ℕ) (s : σ) :
    Option (ℤ × List MultiTarget × ℕ × σ) :=
  match targets.findIdx? (·.len == 0) with
  | some i => some ((i : ℤ), targets, t, s)
  | none => findMultiLoop S clock timeout polls turns targets t s

end Stream

namespace MultiTarget

open Search

/-- The target after the text, of which it has matched as much as the text ends with. -/
def after (text : List Byte) (target : MultiTarget) : MultiTarget :=
  { target with index := longestEnd target.text text }

@[simp] lemma after_text (w : List Byte) (target : MultiTarget) :
    (target.after w).text = target.text := rfl

@[simp] lemma after_str (w : List Byte) (target : MultiTarget) :
    (target.after w).str = target.str := rfl

@[simp] lemma after_len (w : List Byte) (target : MultiTarget) :
    (target.after w).len = target.len := rfl

@[simp] lemma after_index (w : List Byte) (target : MultiTarget) :
    (target.after w).index = longestEnd target.text w := rfl

variable {target : MultiTarget}

lemma Fresh.after_nil (h : target.Fresh) : target.after [] = target := by
  unfold after
  rw [longestEnd_nil, ← h.index_zero]

lemma Fresh.length_text (h : target.Fresh) : target.text.length = target.len := by
  rw [text, List.length_take, Nat.min_eq_left h.fits]

lemma getElem?_str {i : ℕ} (hi : i < target.len) : target.str[i]? = target.text[i]? := by
  rw [text, List.getElem?_take, if_pos hi]

lemma Fresh.eq_toInt_iff (h : target.Fresh) (c : Byte) {char : Byte} {i : ℕ}
    (hchar : target.text[i]? = some char) : (c.toNat : ℤ) = char.toInt ↔ c = char := by
  have hascii := h.ascii char (List.mem_of_getElem? hchar)
  rw [BitVec.toInt_eq_toNat_of_lt (by omega), Int.natCast_inj, BitVec.toNat_inj]

lemma Fresh.exists_char (h : target.Fresh) {i : ℕ} (hi : i < target.len) :
    ∃ char, target.str[i]? = some char ∧ target.text[i]? = some char := by
  have hlt : i < target.str.length := lt_of_lt_of_le hi h.fits
  exact ⟨target.str[i], List.getElem?_eq_getElem hlt,
    (getElem?_str hi).symm.trans (List.getElem?_eq_getElem hlt)⟩

lemma Fresh.overlapLoop_eq (h : target.Fresh) (j diff : ℕ) (hj : j + diff ≤ target.len)
    {turns i : ℕ} (hi : i + turns = j)
    (hsame : ∀ n < i, target.text[n]? = target.text[n + diff]?) :
    ∃ m, overlapLoop target.str diff turns i = some m ∧
      (m = j ↔ ∀ n < j, target.text[n]? = target.text[n + diff]?) := by
  induction turns generalizing i with
  | zero =>
    subst hi
    exact ⟨i, rfl, iff_of_true rfl hsame⟩
  | succ turns ih =>
    obtain ⟨char, hstr, htext⟩ := h.exists_char (i := i) (by omega)
    obtain ⟨later, hstr', htext'⟩ := h.exists_char (i := i + diff) (by omega)
    rw [overlapLoop, hstr, hstr']
    dsimp only [Option.bind_eq_bind, Option.bind_some]
    by_cases hchar : char = later
    · rw [if_neg (not_not.mpr hchar)]
      apply ih (by omega)
      intro n hn
      rcases Nat.lt_succ_iff_lt_or_eq.mp hn with hn | rfl
      · exact hsame n hn
      · rw [htext, htext', hchar]
    · rw [if_pos hchar]
      refine ⟨i, rfl, iff_of_false (by omega) ?_⟩
      intro hall
      have heq := hall i (by omega)
      rw [htext, htext'] at heq
      exact hchar (Option.some.inj heq)

/-- The `do` loop stops at the longest beginning that the text still ends with. -/
lemma Fresh.fallBack_eq (h : target.Fresh) (w : List Byte) (c : Byte) {index : ℕ}
    (hindex : index ≤ longestEnd target.text w) (hlt : longestEnd target.text w < target.len) :
    fallBack target.str c.toNat (longestEnd target.text w) index =
      some (Nat.findGreatest (fun j => target.text.take j <:+ w ++ [c]) index) := by
  induction index with
  | zero => rfl
  | succ j ih =>
    have hj : j < target.text.length := by
      rw [h.length_text]
      omega
    obtain ⟨char, hstr, htext⟩ := h.exists_char (i := j) (by omega)
    have hends : target.text.take (j + 1) <:+ w ++ [c] ↔
        target.text.take j <:+ w ∧ c = char := by
      rw [take_succ_suffix_concat_iff hj, htext, Option.some_inj, eq_comm (a := char)]
    rw [fallBack, hstr, Nat.findGreatest_succ]
    dsimp only [Option.bind_eq_bind, Option.bind_some]
    simp only [hends, ne_eq, h.eq_toInt_iff c htext]
    by_cases hc : c = char
    · rw [if_neg (not_not.mpr hc)]
      by_cases hzero : j = 0
      · subst hzero
        rw [if_pos rfl, if_pos ⟨List.nil_suffix, hc⟩]
      · obtain ⟨m, hloop, hm⟩ := h.overlapLoop_eq j (longestEnd target.text w - j) (by omega)
          (Nat.zero_add j) (fun n hn => absurd hn (Nat.not_lt_zero n))
        rw [← take_suffix_iff (by omega)] at hm
        rw [if_neg hzero, hloop, Option.bind_some]
        by_cases hsuffix : target.text.take j <:+ w
        · rw [if_pos (hm.mpr hsuffix), if_pos ⟨hsuffix, hc⟩]
        · rw [if_neg (mt hm.mp hsuffix), if_neg (fun hand => hsuffix hand.1), ih (by omega)]
    · rw [if_pos hc, if_neg (fun hand => hc hand.2), ih (by omega)]

lemma Fresh.offer_after (h : target.Fresh) {w : List Byte} (hw : ¬target.text <:+ w) (c : Byte) :
    offer c.toNat (target.after w) =
      some (decide (target.text <:+ w ++ [c]), target.after (w ++ [c])) := by
  have hlt : longestEnd target.text w < target.len := by
    have hne := mt longestEnd_eq_length_iff.mp hw
    have hle := longestEnd_le target.text w
    rw [h.length_text] at hne hle
    omega
  obtain ⟨char, hstr, htext⟩ := h.exists_char hlt
  have hcomplete : (longestEnd target.text (w ++ [c]) == target.len) =
      decide (target.text <:+ w ++ [c]) := by
    rw [Bool.eq_iff_iff, beq_iff_eq, decide_eq_true_iff, ← h.length_text]
    exact longestEnd_eq_length_iff
  unfold offer
  rw [after_index, after_str, hstr]
  dsimp only [Option.bind_eq_bind, Option.bind_some]
  simp only [h.eq_toInt_iff c htext]
  by_cases hc : c = char
  · have hmatch := longestEnd_concat_match (htext.trans (congrArg some hc.symm))
    rw [if_pos hc, after_len, ← hmatch, hcomplete]
    rfl
  · have hmismatch := longestEnd_concat_mismatch (c := c) (by rwa [h.length_text])
      (fun heq => hc (Option.some.inj (heq.symm.trans htext)))
    have hincomplete : decide (target.text <:+ w ++ [c]) = false := by
      rw [decide_eq_false_iff_not, ← longestEnd_eq_length_iff, h.length_text, hmismatch]
      have hle := Nat.findGreatest_le (P := fun j => target.text.take j <:+ w ++ [c])
        (longestEnd target.text w)
      omega
    rw [if_neg hc, hincomplete]
    by_cases hzero : longestEnd target.text w = 0
    · rw [if_pos hzero, after, after, hmismatch, hzero, Nat.findGreatest_zero]
    · rw [if_neg hzero, h.fallBack_eq w c le_rfl hlt, Option.bind_some, ← hmismatch]
      rfl

variable {targets : List MultiTarget}

/-- Where the text ends with no target yet, the loop over the targets stops at the first one that
the next character completes, and otherwise goes through them all. -/
lemma offerAll_after (h : ∀ target ∈ targets, target.Fresh) {w : List Byte}
    (hw : ∀ target ∈ targets, ¬target.text <:+ w) (c : Byte) (i : ℕ) :
    ∃ found targets', offerAll c.toNat i (targets.map (after w)) = some (found, targets') ∧
      (found = none → targets' = targets.map (after (w ++ [c]))) ∧
      found = (targets.findIdx? (fun target => target.text <:+ w ++ [c])).map (i + ·) := by
  induction targets generalizing i with
  | nil => exact ⟨none, [], rfl, fun _ => rfl, rfl⟩
  | cons target targets ih =>
    obtain ⟨hfresh, hrest⟩ := List.forall_mem_cons.mp h
    obtain ⟨hwt, hwrest⟩ := List.forall_mem_cons.mp hw
    rw [List.map_cons, offerAll, hfresh.offer_after hwt, Option.bind_eq_bind, Option.bind_some]
    dsimp only
    by_cases hends : target.text <:+ w ++ [c]
    · refine ⟨some i, _, if_pos (decide_eq_true hends), fun hnone => absurd hnone (by simp), ?_⟩
      rw [List.findIdx?_cons, if_pos (decide_eq_true hends)]
      rfl
    · obtain ⟨found, targets', hoffer, hnone, hfound⟩ := ih hrest hwrest (i + 1)
      refine ⟨found, target.after (w ++ [c]) :: targets', ?_, ?_, ?_⟩
      · rw [if_neg (by simpa using hends), hoffer]
        rfl
      · intro h'
        rw [hnone h', List.map_cons]
      · rw [hfound, List.findIdx?_cons, if_neg (by simpa using hends), Option.map_map]
        congr 1
        funext n
        exact (Nat.add_assoc i 1 n).trans (congrArg (i + ·) (Nat.add_comm 1 n))

end MultiTarget

namespace Stream

open MultiTarget Search

variable {σ : Type} {S : Stream σ} {clock : ℕ → Word} {timeout : Word}
  {R : ℕ → σ → List Byte → Prop} {targets : List MultiTarget}

/-! ### A stream that ends in silence -/

/-- The stream after some calls of `read`. -/
def polled (S : Stream σ) (n : ℕ) (s : σ) : σ := (fun s => (S.read s).2)^[n] s

lemma polled_succ (n : ℕ) (s : σ) : S.polled (n + 1) s = S.polled n (S.read s).2 := rfl

/-- `R t s l`: from the reading `t` of the clock on, the bytes `l` come from the state `s`, each of
them within the timeout that starts when the one before has been read, and nothing after them. -/
structure Supplies (S : Stream σ) (clock : ℕ → Word) (timeout : Word)
    (R : ℕ → σ → List Byte → Prop) : Prop where
  byte : ∀ t s c l, R t s (c :: l) → ∃ n,
    (∀ k < n, (S.read (S.polled k s)).1 < 0 ∧ clock (t + 1 + k) - clock t < timeout) ∧
    (S.read (S.polled n s)).1 = (c.toNat : ℤ) ∧ R (t + 1 + n) (S.polled (n + 1) s) l
  silence : ∀ t s, R t s [] → ∀ k, (S.read (S.polled k s)).1 < 0 ∧ ∀ t', R t' (S.polled k s) []

lemma Delivers.supplies {R : σ → List Byte → Prop} (h : S.Delivers R) :
    Supplies S clock timeout fun _ => R where
  byte := fun _ s c l hs =>
    ⟨0, fun k hk => absurd hk (Nat.not_lt_zero k), (h s (c :: l) hs .read).1,
      (h s (c :: l) hs .read).2⟩
  silence := by
    intro t s hs k
    induction k generalizing s with
    | zero =>
      have hread : (S.read s).1 = -1 := (h s [] hs .read).1
      refine ⟨?_, fun _ => hs⟩
      change (S.read s).1 < 0
      omega
    | succ k ih => exact ih (S.read s).2 (h s [] hs .read).2

lemma timedReadLoop_wait (startMillis : Word) {n t : ℕ} {s : σ}
    (hwait : ∀ k < n, (S.read (S.polled k s)).1 < 0 ∧ clock (t + k) - startMillis < timeout)
    (polls : ℕ) : timedReadLoop S clock timeout startMillis (n + polls) t s =
      timedReadLoop S clock timeout startMillis polls (t + n) (S.polled n s) := by
  induction n generalizing t s with
  | zero =>
    rw [Nat.zero_add]
    rfl
  | succ n ih =>
    obtain ⟨hread, hclock⟩ := hwait 0 (Nat.zero_lt_succ n)
    change (S.read s).1 < 0 at hread
    change clock t - startMillis < timeout at hclock
    have hlater : ∀ k < n, (S.read (S.polled k (S.read s).2)).1 < 0 ∧
        clock (t + 1 + k) - startMillis < timeout := by
      intro k hk
      have hk' := hwait (k + 1) (Nat.succ_lt_succ hk)
      rwa [polled_succ, ← Nat.add_assoc, Nat.add_right_comm] at hk'
    rw [Nat.add_right_comm, timedReadLoop]
    dsimp only
    rw [if_neg (not_le.mpr hread), if_pos hclock, ih hlater, polled_succ, Nat.add_assoc,
      Nat.add_comm 1]

lemma Supplies.timedRead_byte (h : Supplies S clock timeout R) {t : ℕ} {s : σ} {c : Byte}
    {l : List Byte} (hs : R t s (c :: l)) : ∃ enough t' s', R t' s' l ∧
      ∀ polls ≥ enough, timedRead S clock timeout polls t s = some ((c.toNat : ℤ), t', s') := by
  obtain ⟨n, hwait, hread, hrest⟩ := h.byte t s c l hs
  refine ⟨n + 1, t + 1 + n, S.polled (n + 1) s, hrest, fun polls hpolls => ?_⟩
  obtain ⟨polls, rfl⟩ : ∃ p, polls = n + (p + 1) := ⟨polls - n - 1, by omega⟩
  have hnext : (S.read (S.polled n s)).2 = S.polled (n + 1) s :=
    (Function.iterate_succ_apply' (fun s => (S.read s).2) n s).symm
  rw [timedRead, timedReadLoop_wait _ hwait, timedReadLoop]
  dsimp only
  rw [hread, if_pos (by omega), hnext]

lemma Supplies.timedRead_silence (h : Supplies S clock timeout R) (hpass : Passes clock timeout)
    {t : ℕ} {s : σ} (hs : R t s []) : ∃ enough t' s', R t' s' [] ∧
      ∀ polls ≥ enough, timedRead S clock timeout polls t s = some (-1, t', s') := by
  classical
  have hstops : ∃ n, ¬clock (t + 1 + n) - clock t < timeout := by
    obtain ⟨n, hn⟩ := hpass t
    rw [Nat.add_right_comm] at hn
    exact ⟨n, hn⟩
  -- the first reading that has passed the timeout
  let n := Nat.find hstops
  have hwait : ∀ k < n, (S.read (S.polled k s)).1 < 0 ∧ clock (t + 1 + k) - clock t < timeout :=
    fun k hk => ⟨(h.silence t s hs k).1, not_not.mp (Nat.find_min hstops hk)⟩
  refine ⟨n + 1, t + 1 + n + 1, S.polled (n + 1) s, (h.silence t s hs (n + 1)).2 _,
    fun polls hpolls => ?_⟩
  obtain ⟨polls, rfl⟩ : ∃ p, polls = n + (p + 1) := ⟨polls - n - 1, by omega⟩
  have hnext : (S.read (S.polled n s)).2 = S.polled (n + 1) s :=
    (Function.iterate_succ_apply' (fun s => (S.read s).2) n s).symm
  have hread := (h.silence t s hs n).1
  rw [timedRead, timedReadLoop_wait _ hwait, timedReadLoop]
  dsimp only
  rw [if_neg (not_le.mpr hread), if_neg (Nat.find_spec hstops), hnext]

/-! ### The search -/

/-- No target has been complete in the text. -/
def NoneEnds (targets : List MultiTarget) (w : List Byte) : Prop :=
  ∀ target ∈ targets, ¬target.text <:+ w

lemma findMultiLoop_next (htargets : ∀ target ∈ targets, target.Fresh)
    {w : List Byte} {c : Byte} (hw : NoneEnds targets w) (hnext : NoneEnds targets (w ++ [c]))
    {polls t t' : ℕ} {s s' : σ}
    (hread : timedRead S clock timeout polls t s = some ((c.toNat : ℤ), t', s')) (turns : ℕ) :
    findMultiLoop S clock timeout polls (turns + 1) (targets.map (after w)) t s =
      findMultiLoop S clock timeout polls turns (targets.map (after (w ++ [c]))) t' s' := by
  obtain ⟨found, targets', hoffer, hnone, hfound⟩ := offerAll_after htargets hw c 0
  have hidx : targets.findIdx? (fun target => target.text <:+ w ++ [c]) = none := by
    rw [List.findIdx?_eq_none_iff]
    intro target htarget
    exact decide_eq_false (hnext target htarget)
  rw [hidx, Option.map_none] at hfound
  subst hfound
  rw [findMultiLoop, hread]
  dsimp only [Option.bind_eq_bind, Option.bind_some]
  rw [if_neg (by omega), hoffer, Option.bind_some, hnone rfl]

lemma findMultiLoop_found (htargets : ∀ target ∈ targets, target.Fresh)
    {w : List Byte} {c : Byte} (hw : NoneEnds targets w) {i : ℕ}
    (hi : targets.findIdx? (fun target => target.text <:+ w ++ [c]) = some i)
    (t : ℕ) (s : σ) {t' : ℕ} {s' : σ} : ∃ targets', ∀ polls turns,
      timedRead S clock timeout polls t s = some ((c.toNat : ℤ), t', s') →
      findMultiLoop S clock timeout polls (turns + 1) (targets.map (after w)) t s =
        some ((i : ℤ), targets', t', s') := by
  obtain ⟨found, targets', hoffer, -, hfound⟩ := offerAll_after htargets hw c 0
  rw [hi, Option.map_some, Nat.zero_add] at hfound
  subst hfound
  refine ⟨targets', fun polls turns hread => ?_⟩
  rw [findMultiLoop, hread]
  dsimp only [Option.bind_eq_bind, Option.bind_some]
  rw [if_neg (by omega), hoffer, Option.bind_some]

/-- As long as no target ends, every target has matched as much of it as the text ends with. -/
lemma findMultiLoop_reads (h : Supplies S clock timeout R)
    (htargets : ∀ target ∈ targets, target.Fresh) {l₁ l₂ w : List Byte}
    (hnone : ∀ e ≤ l₁.length, NoneEnds targets (w ++ l₁.take e)) {t : ℕ} {s : σ}
    (hs : R t s (l₁ ++ l₂)) : ∃ enough t' s', R t' s' l₂ ∧ ∀ polls ≥ enough, ∀ turns,
      findMultiLoop S clock timeout polls (l₁.length + turns) (targets.map (after w)) t s =
        findMultiLoop S clock timeout polls turns (targets.map (after (w ++ l₁))) t' s' := by
  induction l₁ generalizing w t s with
  | nil =>
    refine ⟨0, t, s, hs, fun polls _ turns => ?_⟩
    rw [List.length_nil, Nat.zero_add, List.append_nil]
  | cons c l₁ ih =>
    have hw : NoneEnds targets w := by
      have hzero := hnone 0 (Nat.zero_le _)
      rwa [List.take_zero, List.append_nil] at hzero
    have hlater : ∀ e ≤ l₁.length, NoneEnds targets (w ++ [c] ++ l₁.take e) := by
      intro e he
      rw [List.append_assoc]
      exact hnone (e + 1) (Nat.succ_le_succ he)
    have hnext : NoneEnds targets (w ++ [c]) := by
      have hzero := hlater 0 (Nat.zero_le _)
      rwa [List.take_zero, List.append_nil] at hzero
    obtain ⟨m, t', s', hs', hread⟩ := h.timedRead_byte hs
    obtain ⟨n, t'', s'', hs'', hrun⟩ := ih hlater hs'
    refine ⟨max m n, t'', s'', hs'', fun polls hpolls turns => ?_⟩
    have hturns : (c :: l₁).length + turns = l₁.length + turns + 1 := by
      rw [List.length_cons]
      omega
    rw [hturns, findMultiLoop_next htargets hw hnext (hread polls (by omega)),
      hrun polls (by omega), List.append_assoc]
    rfl

/-- What a search in a list of characters is to return, and what it is to leave unread. -/
structure FindsFirst (targets : List MultiTarget) (l : List Byte) (result : ℤ)
    (unread : List Byte) : Prop where
  none_iff : result = -1 ↔ ∀ target ∈ targets, ¬target.text <:+: l
  first : result ≠ -1 → ∃ i e : ℕ, result = i ∧ FirstEnd (targets.map text) l i e ∧
    unread = l.drop e
  exhausted : result = -1 → unread = []

lemma findMulti_of_fresh (htargets : ∀ target ∈ targets, target.Fresh) (polls turns t : ℕ) (s : σ) :
    findMulti S clock timeout polls turns targets t s =
      findMultiLoop S clock timeout polls turns (targets.map (after [])) t s := by
  have hidx : targets.findIdx? (fun target => target.len == 0) = none := by
    rw [List.findIdx?_eq_none_iff]
    intro target htarget
    have hpos := (htargets target htarget).nonempty
    exact beq_false_of_ne (by omega)
  have hstart : targets.map (after []) = targets := by
    rw [List.map_congr_left (fun target htarget => (htargets target htarget).after_nil),
      List.map_id']
  unfold findMulti
  rw [hidx, hstart]

lemma findIdx?_of_firstEnd {l : List Byte} {i e : ℕ}
    (h : FirstEnd (targets.map text) l i e) :
    targets.findIdx? (fun target => target.text <:+ l.take e) = some i := by
  obtain ⟨pat, hpat, hends⟩ := h.occurs
  rw [List.getElem?_map, Option.map_eq_some_iff] at hpat
  obtain ⟨target, htarget, rfl⟩ := hpat
  obtain ⟨hi, rfl⟩ := List.getElem?_eq_some_iff.mp htarget
  rw [List.findIdx?_eq_some_iff_getElem]
  refine ⟨hi, decide_eq_true hends, fun j hj => ?_⟩
  have hlow := h.lowest j hj targets[j].text (by
    rw [List.getElem?_map, List.getElem?_eq_getElem (by omega), Option.map_some])
  simpa using hlow

lemma findMulti_reads (h : Supplies S clock timeout R)
    (htargets : ∀ target ∈ targets, target.Fresh) {t : ℕ} {s : σ} {l : List Byte} (hs : R t s l)
    {n : ℕ} (hn : n ≤ l.length) (hnone : ∀ target ∈ targets, ¬target.text <:+: l.take n) :
    ∃ enough t' s', R t' s' (l.drop n) ∧ ∀ polls ≥ enough, ∀ turns,
      findMulti S clock timeout polls (n + turns) targets t s =
        findMultiLoop S clock timeout polls turns (targets.map (after (l.take n))) t' s' := by
  have hlen : (l.take n).length = n := by rw [List.length_take, Nat.min_eq_left hn]
  have hends : ∀ e ≤ (l.take n).length, NoneEnds targets ([] ++ (l.take n).take e) :=
    fun e he target htarget hend =>
      hnone target htarget (infix_iff_ends.mpr ⟨e, he, hend⟩)
  rw [← List.take_append_drop n l] at hs
  obtain ⟨enough, t', s', hs', hrun⟩ := findMultiLoop_reads h htargets hends hs
  refine ⟨enough, t', s', hs', fun polls hpolls turns => ?_⟩
  have hrun' := hrun polls hpolls turns
  rw [hlen, List.nil_append] at hrun'
  rw [findMulti_of_fresh htargets, hrun']

lemma findMulti_exhausts (h : Supplies S clock timeout R) (hpass : Passes clock timeout)
    (htargets : ∀ target ∈ targets, target.Fresh) {t : ℕ} {s : σ} {l : List Byte} (hs : R t s l)
    (hnone : ∀ target ∈ targets, ¬target.text <:+: l) :
    ∃ enough targets' t' s', R t' s' [] ∧ ∀ polls ≥ enough, ∀ turns ≥ enough,
      findMulti S clock timeout polls turns targets t s = some (-1, targets', t', s') := by
  obtain ⟨m, t', s', hs', hrun⟩ := findMulti_reads h htargets hs le_rfl
    (by rwa [List.take_length])
  rw [List.drop_length] at hs'
  obtain ⟨n, t'', s'', hs'', hwait⟩ := h.timedRead_silence hpass hs'
  refine ⟨m + n + l.length + 1, targets.map (after (l.take l.length)), t'', s'', hs'',
    fun polls hpolls turns hturns => ?_⟩
  obtain ⟨turns, rfl⟩ : ∃ k, turns = l.length + (k + 1) := ⟨turns - l.length - 1, by omega⟩
  rw [hrun polls (by omega), findMultiLoop, hwait polls (by omega)]
  rfl

lemma findMulti_finds (h : Supplies S clock timeout R)
    (htargets : ∀ target ∈ targets, target.Fresh) {t : ℕ} {s : σ} {l : List Byte} (hs : R t s l)
    {i e : ℕ} (hfirst : FirstEnd (targets.map text) l i e) :
    ∃ enough targets' t' s', R t' s' (l.drop e) ∧ ∀ polls ≥ enough, ∀ turns ≥ enough,
      findMulti S clock timeout polls turns targets t s = some ((i : ℤ), targets', t', s') := by
  have hidx := findIdx?_of_firstEnd hfirst
  obtain ⟨k, rfl⟩ : ∃ k, e = k + 1 := by
    obtain ⟨pat, hpat, hends⟩ := hfirst.occurs
    rw [List.getElem?_map, Option.map_eq_some_iff] at hpat
    obtain ⟨target, htarget, rfl⟩ := hpat
    have hfresh := htargets target (List.mem_of_getElem? htarget)
    have hle := hends.length_le
    have hpos := hfresh.nonempty
    rw [hfresh.length_text, List.length_take] at hle
    exact ⟨e - 1, by omega⟩
  have hk : k < l.length := hfirst.within
  have hearlier : ∀ e' ≤ k, NoneEnds targets (l.take e') := fun e' he' target htarget =>
    hfirst.earliest e' (by omega) target.text (List.mem_map_of_mem htarget)
  have hnone : ∀ target ∈ targets, ¬target.text <:+: l.take k := by
    intro target htarget hinfix
    obtain ⟨e', he', hends⟩ := infix_iff_ends.mp hinfix
    rw [List.take_take] at hends
    exact hearlier _ (Nat.min_le_right e' k) target htarget hends
  obtain ⟨m, t', s', hs', hrun⟩ := findMulti_reads h htargets hs hk.le hnone
  rw [List.drop_eq_getElem_cons hk] at hs'
  rw [List.take_succ_eq_append_getElem hk] at hidx
  obtain ⟨n, t'', s'', hs'', hread⟩ := h.timedRead_byte hs'
  obtain ⟨targets', hfound⟩ := findMultiLoop_found htargets (hearlier k le_rfl) hidx t' s'
  refine ⟨m + n + k + 1, targets', t'', s'', hs'', fun polls hpolls turns hturns => ?_⟩
  obtain ⟨turns, rfl⟩ : ∃ j, turns = k + (j + 1) := ⟨turns - k - 1, by omega⟩
  rw [hrun polls (by omega), hfound polls turns (hread polls (by omega))]

/-- The first end of an occurrence is found and nothing behind it is read, also where strings
repeat themselves and overlap each other: after every part of the stream in which none occurs, each
target has matched the longest of its beginnings that this part ends with. -/
theorem findMulti_finds_first (h : Supplies S clock timeout R) (hpass : Passes clock timeout)
    (htargets : ∀ target ∈ targets, target.Fresh) {t : ℕ} {s : σ} {l : List Byte}
    (hs : R t s l) :
    (∃ enough result unread targets' t' s', FindsFirst targets l result unread ∧ R t' s' unread ∧
      ∀ polls ≥ enough, ∀ turns ≥ enough,
        findMulti S clock timeout polls turns targets t s = some (result, targets', t', s')) ∧
    ∀ n ≤ l.length, (∀ target ∈ targets, ¬target.text <:+: l.take n) →
      ∃ enough t' s', R t' s' (l.drop n) ∧ ∀ polls ≥ enough, ∀ turns,
        findMulti S clock timeout polls (n + turns) targets t s =
          findMultiLoop S clock timeout polls turns (targets.map (after (l.take n))) t' s' := by
  constructor
  · by_cases hnone : ∀ target ∈ targets, ¬target.text <:+: l
    · obtain ⟨enough, targets', t', s', hs', hruns⟩ := findMulti_exhausts h hpass htargets hs hnone
      exact ⟨enough, -1, [], targets', t', s',
        ⟨iff_of_true rfl hnone, fun hne => absurd rfl hne, fun _ => rfl⟩, hs', hruns⟩
    · have hsome : ∃ pat ∈ targets.map text, pat <:+: l := by
        rw [not_forall] at hnone
        obtain ⟨target, htarget⟩ := hnone
        rw [Classical.not_imp, not_not] at htarget
        exact ⟨target.text, List.mem_map_of_mem htarget.1, htarget.2⟩
      obtain ⟨i, e, hfirst⟩ := exists_firstEnd hsome
      obtain ⟨enough, targets', t', s', hs', hruns⟩ := findMulti_finds h htargets hs hfirst
      exact ⟨enough, i, l.drop e, targets', t', s',
        ⟨iff_of_false (by omega) hnone, fun _ => ⟨i, e, rfl, hfirst, rfl⟩,
          fun heq => absurd heq (by omega)⟩, hs', hruns⟩
  · exact fun n hn hnone => findMulti_reads h htargets hs hn hnone

theorem findMulti_finds_first_repeated :
    let targets : List MultiTarget := [⟨[0x61, 0x61, 0x62, 0], 3, 0⟩, ⟨[0x62, 0], 1, 0⟩]
    let l : List Byte := [0x61, 0x61, 0x61, 0x62, 0x63]
    ∃ enough result unread targets' t' s', FindsFirst targets l result unread ∧ s' = unread ∧
      ∀ polls ≥ enough, ∀ turns ≥ enough,
        findMulti ofList (fun t => BitVec.ofNat 32 t) 1 polls turns targets 0 l =
          some (result, targets', t', s') := by
  intro targets l
  have hfresh : ∀ target ∈ targets, target.Fresh := by
    intro target htarget
    rw [List.mem_cons, List.mem_singleton] at htarget
    rcases htarget with rfl | rfl
    · exact ⟨by decide, by decide, rfl, by decide⟩
    · exact ⟨by decide, by decide, rfl, by decide⟩
  exact (findMulti_finds_first delivers_ofList.supplies passes_ofNat hfresh rfl).1

/-- Both strings end at the fourth character. -/
example : (findMulti ofList (fun t => BitVec.ofNat 32 t) 1 1 5
    [⟨[0x61, 0x61, 0x62, 0], 3, 0⟩, ⟨[0x62, 0], 1, 0⟩] 0 [0x61, 0x61, 0x61, 0x62, 0x63]).map
      (fun r => (r.1, r.2.2.2)) = some (0, [0x63]) := by decide

end Stream

end FrameworkXC32
