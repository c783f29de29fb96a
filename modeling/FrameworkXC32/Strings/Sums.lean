import FrameworkXC32.Strings.Calls

/-!
# Sums of strings

`operator +` appends to a temporary object and invalidates it when that fails. The sum goes on from
there: what is added afterwards is kept, and what was there before is not.
-/

namespace FrameworkXC32
open Machine Block CString

/-- The right operand of a `+`. -/
inductive SumTerm
  | string (rhs : WString)
  | cstr (p : Option CText)
  | char (c : Byte)
  | number (n : WString.Number) (digits : CText)
  | flash (rhs : Option CText)
deriving DecidableEq, Repr

namespace SumTerm

/-- The `concat` that the operator calls. -/
def concat (a : WString) (fresh : Fresh) : SumTerm → Option (Bool × WString)
  | string rhs => a.concat (rhs.buffer.map .apart) rhs.len fresh
  | cstr p => a.concatCstr (p.map CText.src) fresh
  | char c => a.concatChar c fresh
  | number n digits => a.concatNumber n digits.chars fresh
  | flash rhs => a.concatFlash (rhs.map CText.src) fresh

/-- `operator +` -/
def plus (a : WString) (fresh : Fresh) (term : SumTerm) : Option WString :=
  (term.concat a fresh).map fun r => if r.1 then r.2 else r.2.invalidate

/-- The terms are added one after the other, each with what it finds when it asks for memory. -/
def sum (a : WString) : List (SumTerm × Fresh) → Option WString
  | [] => some a
  | (term, fresh) :: terms => (term.plus a fresh).bind fun a => sum a terms

/-- `String x = first + ...`: the first operand is copied to a `StringSumHelper`, and what the last
`+` returns, a reference to it, is copied to `x`. -/
def sumOf (first : WString) (fresh : Fresh) (terms : List (SumTerm × Fresh)) (fresh' : Fresh) :
    Option WString :=
  (WString.ofString first fresh).bind fun a => (sum a terms).bind fun a => WString.ofString a fresh'

/-- The characters of an operand. -/
def text : SumTerm → List Byte
  | string rhs => rhs.text
  | cstr p => p.elim [] CText.chars
  | char c => [c]
  | number _ digits => digits.chars
  | flash rhs => rhs.elim [] CText.chars

/-- There is something to append, if only an empty text. -/
def Present : SumTerm → Prop
  | string rhs => rhs.buffer.isSome
  | cstr p => p.isSome
  | flash rhs => rhs.isSome
  | _ => True

/-- An operand that the program may use: a `String` in good order, no zero as a character, and no
more digits than there is room for. -/
def Proper : SumTerm → Prop
  | string rhs => rhs.Sound
  | char c => c ≠ 0
  | number n digits => digits.chars.length < n.concatRoom
  | _ => True

/-- The operand can be appended to `a`. -/
def Appends (a : WString) (fresh : Fresh) (term : SumTerm) : Prop :=
  term.Present ∧ (term.text = [] ∨ a.CanReserve (a.len + term.text.length) fresh)

instance (term : SumTerm) : Decidable term.Present := by
  unfold Present
  split <;> infer_instance

instance (a : WString) (fresh : Fresh) (term : SumTerm) : Decidable (term.Appends a fresh) :=
  inferInstanceAs (Decidable (_ ∧ _))

variable {a first : WString} {fresh : Fresh} {term : SumTerm} {l : List Byte}

/-- What a `concat` of the text `t` does to a string with the text `l`. -/
def Concats (l t : List Byte) (s : WString) (fresh : Fresh) (r : Bool × WString) : Prop :=
  (r.1 = true ↔ t = [] ∨ s.CanReserve (s.len + t.length) fresh) ∧
    (r.1 = true → WString.HasText (l ++ t) r.2)

lemma concat_concats (h : WString.HasText l a) {m t : List Byte}
    (hp : WString.Points a (.apart m) t) (fresh : Fresh) :
    ∃ r, a.concat (some (.apart m)) t.length fresh = some r ∧ Concats l t a fresh r := by
  obtain ⟨r, hr, htrue, -⟩ := h.concat hp fresh fun hbad => Bool.noConfusion hbad.1
  refine ⟨r, hr, ?_, htrue⟩
  have hl := h.small
  have ht := hp.small
  have hlen := h.len
  unfold WString.concat at hr
  rw [Nat.mod_eq_of_lt (by omega)] at hr
  dsimp only at hr
  by_cases hempty : t.length = 0
  · rw [if_pos hempty] at hr
    rw [← Option.some.inj hr]
    exact iff_of_true rfl (.inl (List.length_eq_zero_iff.mp hempty))
  · rw [if_neg hempty] at hr
    rw [or_iff_right fun h => hempty (List.length_eq_zero_iff.mpr h)]
    by_cases hcan : a.CanReserve (a.len + t.length) fresh
    · obtain ⟨s, hreserve, -, -⟩ := h.reserve hcan
      rw [hreserve, Option.bind_some, if_pos rfl] at hr
      obtain ⟨s', -, rfl⟩ := Option.map_eq_some_iff.mp hr
      exact iff_of_true rfl hcan
    · rw [WString.reserve_fails (by omega) hcan] at hr
      rw [← Option.some.inj hr]
      exact iff_of_false Bool.false_ne_true hcan

lemma concatCstr_concats (h : WString.HasText l a) (t : CText) (fresh : Fresh) :
    ∃ r, a.concatCstr (some t.src) fresh = some r ∧ Concats l t.chars a fresh r := by
  unfold WString.concatCstr
  dsimp only
  rw [(t.points a).strlen, Option.bind_some]
  exact concat_concats h (t.points a) fresh

lemma concat_eq (h : WString.HasText l a) (hterm : term.Proper) (fresh : Fresh) :
    ∃ r, term.concat a fresh = some r ∧ (r.1 = true ↔ term.Appends a fresh) ∧
      (r.1 = true → WString.HasText (l ++ term.text) r.2) := by
  have hcstr : ∀ p : Option CText, ∃ r, a.concatCstr (p.map CText.src) fresh = some r ∧
      (r.1 = true ↔ p.isSome ∧ (p.elim [] CText.chars = [] ∨
        a.CanReserve (a.len + (p.elim [] CText.chars).length) fresh)) ∧
      (r.1 = true → WString.HasText (l ++ p.elim [] CText.chars) r.2) := by
    intro p
    cases p with
    | none => exact ⟨(false, a), rfl, by simp, fun h => Bool.noConfusion h⟩
    | some t =>
      obtain ⟨r, hr, hiff, htrue⟩ := concatCstr_concats h t fresh
      exact ⟨r, hr, hiff.trans (and_iff_right rfl).symm, htrue⟩
  cases term with
  | string rhs =>
    obtain ⟨t, ht | ⟨-, rfl⟩⟩ := hterm
    · have hpoints : WString.Points a (.apart rhs.mem) t := ht.points_apart a (Nat.zero_le _)
      obtain ⟨r, hr, hiff, htrue⟩ := concat_concats h hpoints fresh
      have hpresent : (string rhs).Present := by
        change rhs.buffer.isSome = true
        rw [ht.buffer]
        rfl
      have htext : (string rhs).text = t := ht.text_eq
      refine ⟨r, ?_, ?_, by rwa [htext]⟩
      · change a.concat (rhs.buffer.map .apart) rhs.len fresh = some r
        rw [ht.buffer, Option.map_some, ht.len, hr]
      · rw [hiff, Appends, and_iff_right hpresent, htext]
    · have hnull : ¬(string .init).Appends a fresh := fun hno => Bool.false_ne_true hno.1
      exact ⟨(false, a), rfl, iff_of_false Bool.false_ne_true hnull,
        fun hno => Bool.noConfusion hno⟩
  | cstr p => exact hcstr p
  | char c =>
    obtain ⟨r, hr, hiff, htrue⟩ := concat_concats h (WString.points_char a hterm) fresh
    exact ⟨r, hr, hiff.trans (and_iff_right trivial).symm, htrue⟩
  | number n digits =>
    obtain ⟨r, hr, hiff, htrue⟩ := concatCstr_concats h digits fresh
    refine ⟨r, ?_, hiff.trans (and_iff_right trivial).symm, htrue⟩
    change a.concatNumber n digits.chars fresh = some r
    exact (if_pos hterm).trans hr
  | flash rhs =>
    obtain ⟨r, hr, hiff, htrue⟩ := hcstr rhs
    exact ⟨r, (WString.concatFlash_eq _ _ _).trans hr, hiff, htrue⟩

lemma plus_eq (h : WString.HasText l a) (hterm : term.Proper) (fresh : Fresh) :
    ∃ a', term.plus a fresh = some a' ∧
      WString.HasText (if term.Appends a fresh then l ++ term.text else []) a' := by
  obtain ⟨r, hr, hiff, htrue⟩ := concat_eq h hterm fresh
  unfold plus
  rw [hr, Option.map_some]
  refine ⟨_, rfl, ?_⟩
  by_cases happends : term.Appends a fresh
  · have hret := hiff.mpr happends
    rw [if_pos happends, if_pos hret]
    exact htrue hret
  · rw [if_neg happends, if_neg (mt hiff.mp happends)]
    exact .inr ⟨rfl, rfl⟩

/-- Whether each term could be appended where its turn came. -/
def outcomes (a : WString) : List (SumTerm × Fresh) → List Bool
  | [] => []
  | (term, fresh) :: terms =>
    decide (term.Appends a fresh) :: ((term.plus a fresh).map fun a => outcomes a terms).getD []

/-- How many operands are not in the sum, from the first one on: none when every term has been
appended, and otherwise all of them up to the last one that has not been. -/
def lost : List Bool → ℕ
  | [] => 0
  | appended :: results =>
    if lost results = 0 then if appended then 0 else 2 else lost results + 1

lemma lost_eq_zero_iff (results : List Bool) : lost results = 0 ↔ ∀ r ∈ results, r = true := by
  induction results with
  | nil => simp [lost]
  | cons appended results ih =>
    rw [lost, List.forall_mem_cons, ← ih]
    by_cases hzero : lost results = 0
    · rw [if_pos hzero]
      cases appended <;> simp [hzero]
    · rw [if_neg hzero]
      exact iff_of_false (Nat.succ_ne_zero _) fun h => hzero h.2

lemma drop_lost_cons (results : List Bool) (appended : Bool) (l t : List Byte)
    (texts : List (List Byte)) :
    (((if appended then l ++ t else []) :: texts).drop (lost results)).flatten =
      ((l :: t :: texts).drop (lost (appended :: results))).flatten := by
  rw [lost]
  by_cases hzero : lost results = 0
  · rw [if_pos hzero, hzero]
    cases appended <;> simp
  · obtain ⟨n, hn⟩ := Nat.exists_eq_succ_of_ne_zero hzero
    rw [if_neg hzero, hn, List.drop_succ_cons, List.drop_succ_cons, List.drop_succ_cons]

lemma sum_eq (h : WString.HasText l a) {terms : List (SumTerm × Fresh)}
    (hterms : ∀ term ∈ terms, term.1.Proper) : ∃ a', sum a terms = some a' ∧
      WString.HasText (((l :: terms.map fun term => term.1.text).drop
        (lost (outcomes a terms))).flatten) a' := by
  induction terms generalizing a l with
  | nil =>
    refine ⟨a, rfl, ?_⟩
    simpa [lost, outcomes] using h
  | cons head terms ih =>
    obtain ⟨term, fresh⟩ := head
    obtain ⟨hterm, hrest⟩ := List.forall_mem_cons.mp hterms
    obtain ⟨a₁, hplus, htext⟩ := plus_eq h hterm fresh
    obtain ⟨a', hsum, htext'⟩ := ih htext hrest
    refine ⟨a', by rw [sum, hplus, Option.bind_some, hsum], ?_⟩
    have hcons := drop_lost_cons (outcomes a₁ terms) (decide (term.Appends a fresh)) l term.text
      (terms.map fun term => term.1.text)
    simp only [decide_eq_true_eq] at hcons
    rw [outcomes, hplus, Option.map_some, Option.getD_some, List.map_cons, ← hcons]
    exact htext'

lemma outcomes_of_memory (h : WString.HasText l a) {terms : List (SumTerm × Fresh)}
    (hterms : ∀ term ∈ terms, term.1.Proper ∧ term.1.Present ∧ term.2.isSome)
    (hsmall : (l ++ (terms.map fun term => term.1.text).flatten).length + 1 < 2 ^ 31) :
    ∀ r ∈ outcomes a terms, r = true := by
  induction terms generalizing a l with
  | nil => exact fun r hr => absurd hr List.not_mem_nil
  | cons head terms ih =>
    obtain ⟨term, fresh⟩ := head
    obtain ⟨⟨hterm, hpresent, hfresh⟩, hrest⟩ := List.forall_mem_cons.mp hterms
    rw [List.map_cons, List.flatten_cons, ← List.append_assoc] at hsmall
    dsimp only at hsmall hterm hpresent hfresh
    have happends : term.Appends a fresh := by
      have hlen := h.len
      rw [List.length_append, List.length_append] at hsmall
      exact ⟨hpresent, .inr (.inr ⟨hfresh, by omega⟩)⟩
    obtain ⟨a₁, hplus, htext⟩ := plus_eq h hterm fresh
    rw [if_pos happends] at htext
    rw [outcomes, hplus, Option.map_some, Option.getD_some, List.forall_mem_cons]
    exact ⟨decide_eq_true happends, ih htext hrest hsmall⟩

lemma ofString_eq (h : WString.HasText l a) (fresh : Fresh) :
    ∃ x, WString.ofString a fresh = some x ∧ (fresh.isSome → WString.HasText l x) ∧
      (fresh = none → x = WString.init) := by
  unfold WString.ofString WString.assign
  rcases h with h | ⟨rfl, rfl⟩
  · have hp : WString.Points WString.init (.apart a.mem) l := h.points_apart _ (Nat.zero_le _)
    obtain ⟨x, hx, hcopied⟩ := WString.sound_init.copy hp fresh
    refine ⟨x, ?_, fun hfresh => .inl (hcopied.holds (.inr ⟨hfresh, hp.small⟩)), ?_⟩
    · rw [h.buffer]
      dsimp only
      rw [h.len, hx]
    · rintro rfl
      apply hcopied.invalidated
      rintro (hsuffices | hfresh)
      · exact Bool.false_ne_true hsuffices.1
      · exact Bool.false_ne_true hfresh.1
  · exact ⟨WString.init, rfl, fun _ => .inr ⟨rfl, rfl⟩, fun _ => rfl⟩

/-- `String x = first + ...` makes `x` the concatenation of the operands behind the last one that
could not be appended, or leaves it without a buffer when there is no memory for `x` itself. With
memory, and no null pointer among the operands, it is the concatenation of them all. -/
theorem sumOf_exact (hfirst : WString.HasText l first) (fresh fresh' : Fresh)
    {terms : List (SumTerm × Fresh)} (hterms : ∀ term ∈ terms, term.1.Proper) :
    ∃ a x, WString.ofString first fresh = some a ∧ sumOf first fresh terms fresh' = some x ∧
      (fresh'.isSome → WString.HasText (((a.text :: terms.map fun term => term.1.text).drop
        (lost (outcomes a terms))).flatten) x) ∧
      (fresh' = none → x = WString.init) ∧
      (fresh.isSome → fresh'.isSome → (∀ term ∈ terms, term.1.Present ∧ term.2.isSome) →
        (l ++ (terms.map fun term => term.1.text).flatten).length + 1 < 2 ^ 31 →
        WString.HasText (l ++ (terms.map fun term => term.1.text).flatten) x) := by
  obtain ⟨a, ha, htext, hnone⟩ := ofString_eq hfirst fresh
  have hsound : a.Sound := by
    cases fresh with
    | none => exact (hnone rfl).symm ▸ WString.sound_init
    | some raw => exact ⟨l, htext rfl⟩
  obtain ⟨total, hsum, hsumtext⟩ := sum_eq hsound.hasText hterms
  obtain ⟨x, hx, hxtext, hxnone⟩ := ofString_eq hsumtext fresh'
  refine ⟨a, x, ha, ?_, hxtext, hxnone, ?_⟩
  · rw [sumOf, ha, Option.bind_some, hsum, Option.bind_some, hx]
  · intro hfresh hfresh' hpresent hsmall
    have hcopied := (htext hfresh).text_eq
    have hall := outcomes_of_memory hsound.hasText
      (fun term hmem => ⟨hterms term hmem, hpresent term hmem⟩) (hcopied.symm ▸ hsmall)
    have hsumOf := hxtext hfresh'
    rw [(lost_eq_zero_iff _).mpr hall, List.drop_zero, List.flatten_cons, hcopied] at hsumOf
    exact hsumOf

/-- With `a` for a first operand `a + nullptr + 'b'` is `b`. -/
theorem sumOf_exact_of_null : ∃ x, sumOf ⟨some [97, 0], 1, 1⟩ (some fun _ => 7)
    [(cstr none, none), (char 98, some fun _ => 7)] (some fun _ => 7) = some x ∧
      WString.HasText [98] x := by
  have hfirst : WString.HasText [97] ⟨some [97, 0], 1, 1⟩ := by
    left
    constructor <;> decide
  have hterms : ∀ term ∈ [(cstr none, (none : Fresh)), (char 98, some fun _ => 7)],
      term.1.Proper := by
    intro term hterm
    rcases List.mem_cons.mp hterm with rfl | hterm
    · trivial
    · rw [List.mem_singleton.mp hterm]
      exact show (98 : Byte) ≠ 0 by decide
  obtain ⟨a, x, ha, hx, htext, -⟩ :=
    sumOf_exact hfirst (some fun _ => 7) (some fun _ => 7) hterms
  have hcopy : WString.ofString ⟨some [97, 0], 1, 1⟩ (some fun _ => 7) =
      some ⟨some [97, 0], 1, 1⟩ := by decide
  obtain rfl : ⟨some [97, 0], 1, 1⟩ = a := Option.some.inj (hcopy.symm.trans ha)
  exact ⟨x, hx, htext rfl⟩

end SumTerm

end FrameworkXC32
