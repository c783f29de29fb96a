import FrameworkXC32.Strings.Matches

/-!
# Comparing strings

`compareTo` and the operators that ask it. The texts are ordered as lists of unsigned characters,
and a string without a buffer compares like an empty text.
-/

namespace FrameworkXC32
open Machine Block CString

namespace WString

def compareTo (s s2 : WString) : Option ℤ :=
  if s.buffer.isNone ∨ s2.buffer.isNone then
    if s2.buffer.isSome ∧ s2.len > 0 then (load s2.mem 0).map fun c => 0 - charCode c
    else if s.buffer.isSome ∧ s.len > 0 then (load s.mem 0).map charCode
    else some 0
  else strcmp charCode s.mem s2.mem

/-- `equals(const String &s2)`, which is `==`. -/
def equals (s s2 : WString) : Option Bool :=
  if s.len = s2.len then (s.compareTo s2).map fun r => r = 0 else some false

/-- `equals(const char *cstr)`: the pointer is null, or there is memory behind it. -/
def equalsCstr (cstr : Option (List Byte)) (s : WString) : Option Bool :=
  if s.len = 0 then
    match cstr with
    | none => some true
    | some p => (load p 0).map fun c => c = 0
  else
    match cstr with
    | none => (load s.mem 0).map fun c => c = 0
    | some p => (strcmp charCode s.mem p).map fun r => r = 0

/-- `operator !=` -/
def notEquals (s s2 : WString) : Option Bool := (s.equals s2).map not

/-- `operator <` -/
def less (s s2 : WString) : Option Bool := (s.compareTo s2).map fun r => r < 0

/-- `operator >` -/
def greater (s s2 : WString) : Option Bool := (s.compareTo s2).map fun r => r > 0

/-- `operator <=` -/
def lessEqual (s s2 : WString) : Option Bool := (s.compareTo s2).map fun r => r ≤ 0

/-- `operator >=` -/
def greaterEqual (s s2 : WString) : Option Bool := (s.compareTo s2).map fun r => r ≥ 0

/-- The loop of `equalsIgnoreCase`, from `p1` and `p2` on. -/
def ignoreCaseLoop : List Byte → List Byte → Option Bool
  | [], _ => none
  | c :: p1, p2 =>
    if c = 0 then some true
    else
      match p2 with
      | [] => none
      | d :: p2 => if tolower c ≠ tolower d then some false else ignoreCaseLoop p1 p2

/-- `equalsIgnoreCase` with another object. -/
def equalsIgnoreCase (s s2 : WString) : Option Bool :=
  if s.len ≠ s2.len then some false
  else if s.len = 0 then some true
  else ignoreCaseLoop s.mem s2.mem

section Order

variable {l m : List Byte} {s t : WString}

lemma lt_iff_charCode (a b : Byte) : a < b ↔ charCode a < charCode b := by
  unfold charCode
  rw [BitVec.lt_def, Int.ofNat_lt]

lemma charCode_zero : charCode 0 = 0 := rfl

lemma charCode_pos {a : Byte} (ha : a ≠ 0) : charCode 0 < charCode a := by
  have hne : a.toNat ≠ 0 := fun h => ha (BitVec.eq_of_toNat_eq h)
  rw [charCode_zero, charCode, Int.natCast_pos]
  omega

lemma HasText.fitted (h : HasText l s) : HasText l s.fitted := by
  rcases h with h | ⟨rfl, rfl⟩
  · exact .inl h.fitted
  · exact .inr ⟨rfl, rfl⟩

lemma HasText.holds_of_buffer (h : HasText l s) (hbuffer : ¬s.buffer.isNone) : Holds l s := by
  rcases h with h | ⟨-, rfl⟩
  · exact h
  · exact absurd rfl hbuffer

lemma HasText.nil_of_null (h : HasText l s) (hnull : s.buffer.isNone) : l = [] := by
  rcases h with h | ⟨rfl, -⟩
  · rw [h.buffer] at hnull
    cases hnull
  · rfl

lemma HasText.first (h : HasText l s) (hlen : s.buffer.isSome ∧ s.len > 0) :
    ∃ c l', l = c :: l' ∧ load s.mem 0 = some c ∧ charCode 0 < charCode c := by
  have hpos := hlen.2
  obtain ⟨rest, hrest⟩ := (h.holds (by omega)).mem_eq
  rw [h.len] at hpos
  cases l with
  | nil => exact absurd hpos (Nat.lt_irrefl 0)
  | cons c l =>
    refine ⟨c, l, rfl, by rw [hrest]; rfl, charCode_pos ?_⟩
    exact fun hzero => h.nonzero (hzero ▸ List.mem_cons_self)

lemma HasText.nil_of_no_first (h : HasText l s) (hlen : ¬(s.buffer.isSome ∧ s.len > 0)) :
    l = [] := by
  by_contra hne
  have hpos := List.length_pos_of_ne_nil hne
  apply hlen
  rw [(h.holds_of_ne_nil hne).buffer, h.len]
  exact ⟨rfl, hpos⟩

/-- The number is below, at or above zero as the first text is before, equal to or behind the
second one. -/
structure Orders (l m : List Byte) (r : ℤ) : Prop where
  less : r < 0 ↔ l < m
  greater : 0 < r ↔ m < l
  equal : r = 0 ↔ l = m

lemma orders_nil_cons (c : Byte) (m : List Byte) {r : ℤ} (hr : r < 0) : Orders [] (c :: m) r where
  less := iff_of_true hr (List.nil_lt_cons c m)
  greater := iff_of_false (by omega) (List.not_lt_nil _)
  equal := iff_of_false (by omega) (by simp)

lemma orders_cons_nil (c : Byte) (l : List Byte) {r : ℤ} (hr : 0 < r) : Orders (c :: l) [] r where
  less := iff_of_false (by omega) (List.not_lt_nil _)
  greater := iff_of_true hr (List.nil_lt_cons c l)
  equal := iff_of_false (by omega) (by simp)

lemma compareTo_orders (hs : HasText l s) (ht : HasText m t) :
    ∃ r, s.compareTo t = some r ∧ Orders l m r := by
  unfold compareTo
  by_cases hnull : s.buffer.isNone ∨ t.buffer.isNone
  -- at most one of the two texts has a first character
  · rw [if_pos hnull]
    by_cases hfirst : t.buffer.isSome ∧ t.len > 0
    · obtain ⟨c, m', rfl, hload, hpos⟩ := ht.first hfirst
      have hl : l = [] := by
        rcases hnull with hnull | hnull
        · exact hs.nil_of_null hnull
        · cases ht.nil_of_null hnull
      rw [charCode_zero] at hpos
      refine ⟨0 - charCode c, by rw [if_pos hfirst, hload]; rfl, ?_⟩
      rw [hl]
      exact orders_nil_cons c m' (by omega)
    · rw [if_neg hfirst, ht.nil_of_no_first hfirst]
      by_cases hown : s.buffer.isSome ∧ s.len > 0
      · obtain ⟨c, l', rfl, hload, hpos⟩ := hs.first hown
        refine ⟨charCode c, by rw [if_pos hown, hload]; rfl, orders_cons_nil c l' hpos⟩
      · rw [if_neg hown, hs.nil_of_no_first hown]
        exact ⟨0, rfl, by simp, by simp, by simp⟩
  · rw [if_neg hnull]
    have hholds := hs.holds_of_buffer fun h => hnull (.inl h)
    have hholds' := ht.holds_of_buffer fun h => hnull (.inr h)
    obtain ⟨rest, hrest⟩ := hholds.mem_eq
    obtain ⟨rest', hrest'⟩ := hholds'.mem_eq
    obtain ⟨r, hr, hless, hmore⟩ := strcmp_lex lt_iff_charCode (fun a => charCode_pos)
      hs.nonzero ht.nonzero rest rest'
    obtain ⟨r', hr', hzero⟩ := strcmp_eq charCode_injective hs.nonzero ht.nonzero rest rest'
    have hsame : r' = r := Option.some.inj (hr'.symm.trans hr)
    refine ⟨r, by rw [hrest, hrest', hr], hless, hmore, ?_⟩
    rw [← hsame]
    exact hzero

lemma ignoreCaseLoop_eq (hl : 0 ∉ l) (rest rest' : List Byte) (hlen : l.length = m.length) :
    ignoreCaseLoop (l ++ 0 :: rest) (m ++ rest') =
      some (decide (l.map tolower = m.map tolower)) := by
  induction l generalizing m with
  | nil =>
    rw [List.length_nil] at hlen
    rw [List.length_eq_zero_iff.mp hlen.symm]
    exact if_pos rfl
  | cons c l ih =>
    have hc : c ≠ 0 := fun h => hl (h ▸ List.mem_cons_self)
    cases m with
    | nil => cases hlen
    | cons d m =>
      rw [List.cons_append, List.cons_append, ignoreCaseLoop, if_neg hc]
      by_cases hcd : tolower c = tolower d
      · rw [if_neg (not_not_intro hcd), ih (fun h => hl (List.mem_cons_of_mem c h))
          (Nat.succ.inj hlen), List.map_cons, List.map_cons, hcd]
        simp only [List.cons.injEq, true_and]
      · have hne : ¬(c :: l).map tolower = (d :: m).map tolower := fun h => hcd (List.cons.inj h).1
        rw [if_pos hcd, decide_eq_false hne]

lemma equalsIgnoreCase_eq (hs : HasText l s) (ht : HasText m t) :
    s.equalsIgnoreCase t = some (decide (l.map tolower = m.map tolower)) := by
  unfold equalsIgnoreCase
  rw [hs.len, ht.len]
  by_cases hlen : l.length = m.length
  · rw [if_neg (not_not_intro hlen)]
    by_cases hzero : l.length = 0
    · rw [if_pos hzero, List.length_eq_zero_iff.mp hzero,
        List.length_eq_zero_iff.mp (hlen.symm.trans hzero)]
      rfl
    · obtain ⟨rest, hrest⟩ := (hs.holds (hs.len ▸ hzero)).mem_eq
      obtain ⟨rest', hrest'⟩ := (ht.holds (ht.len ▸ hlen ▸ hzero)).mem_eq
      rw [if_neg hzero, hrest, hrest', ignoreCaseLoop_eq hs.nonzero rest (0 :: rest') hlen]
  · have hne : ¬l.map tolower = m.map tolower := by
      intro h
      apply hlen
      rw [← List.length_map tolower, h, List.length_map]
    rw [if_pos hlen, decide_eq_false hne]

/-- Every comparison of two strings answers as the texts do. -/
structure ComparesTexts (l m : List Byte) (s t : WString) : Prop where
  compareTo : ∃ r, s.compareTo t = some r ∧ Orders l m r
  equals : s.equals t = some (decide (l = m))
  notEquals : s.notEquals t = some (decide (l ≠ m))
  less : s.less t = some (decide (l < m))
  greater : s.greater t = some (decide (m < l))
  lessEqual : s.lessEqual t = some (decide (l < m ∨ l = m))
  greaterEqual : s.greaterEqual t = some (decide (m < l ∨ l = m))
  equalsCstr : ∀ rest, s.equalsCstr (some (m ++ 0 :: rest)) = some (decide (l = m))
  equalsIgnoreCase : s.equalsIgnoreCase t = some (decide (l.map tolower = m.map tolower))
  lowered : ∃ s' t', s.toLowerCase = some s' ∧ t.toLowerCase = some t' ∧
    s'.equals t' = s.equalsIgnoreCase t

lemma equals_eq (hs : HasText l s) (ht : HasText m t) : s.equals t = some (decide (l = m)) := by
  obtain ⟨r, hr, horders⟩ := compareTo_orders hs ht
  unfold equals
  rw [hs.len, ht.len, hr, Option.map_some]
  by_cases hlen : l.length = m.length
  · rw [if_pos hlen, decide_eq_decide.mpr horders.equal]
  · rw [if_neg hlen, decide_eq_false fun h => hlen (congrArg List.length h)]

lemma equalsCstr_eq (hs : HasText l s) (hm : 0 ∉ m) (rest : List Byte) :
    s.equalsCstr (some (m ++ 0 :: rest)) = some (decide (l = m)) := by
  unfold equalsCstr
  by_cases hlen : s.len = 0
  · have hl : l = [] := List.length_eq_zero_iff.mp (hs.len.symm.trans hlen)
    rw [if_pos hlen, hl]
    cases m with
    | nil => rfl
    | cons b m =>
      have hb : ¬b = 0 := fun h => hm (h ▸ List.mem_cons_self)
      change some (decide (b = 0)) = _
      rw [decide_eq_false hb, decide_eq_false (by simp)]
  · obtain ⟨rest', hrest'⟩ := (hs.holds hlen).mem_eq
    obtain ⟨r, hr, hzero⟩ := strcmp_eq charCode_injective hs.nonzero hm rest' rest
    rw [if_neg hlen, hrest']
    dsimp only
    rw [hr, Option.map_some, decide_eq_decide.mpr hzero]

lemma equalsIgnoreCase_lowered (hs : HasText l s) (ht : HasText m t) :
    ∃ s' t', s.toLowerCase = some s' ∧ t.toLowerCase = some t' ∧
      s'.equals t' = s.equalsIgnoreCase t := by
  obtain ⟨s', hs', htext⟩ := hs.toLowerCase
  obtain ⟨t', ht', htext'⟩ := ht.toLowerCase
  refine ⟨s', t', hs', ht', ?_⟩
  rw [equals_eq htext htext', equalsIgnoreCase_eq hs ht]

lemma comparesTexts (hs : HasText l s) (ht : HasText m t) : ComparesTexts l m s t := by
  have hequals := equals_eq hs ht
  obtain ⟨r, hr, hless, hgreater, hequal⟩ := compareTo_orders hs ht
  refine ⟨⟨r, hr, hless, hgreater, hequal⟩, hequals, ?_, ?_, ?_, ?_, ?_, ?_,
    equalsIgnoreCase_eq hs ht, equalsIgnoreCase_lowered hs ht⟩
  · rw [notEquals, hequals, Option.map_some, decide_not]
  · rw [WString.less, hr, Option.map_some, decide_eq_decide.mpr hless]
  · rw [WString.greater, hr, Option.map_some, decide_eq_decide.mpr hgreater]
  · have hle : r ≤ 0 ↔ l < m ∨ l = m := by rw [← hless, ← hequal, Int.le_iff_lt_or_eq]
    rw [lessEqual, hr, Option.map_some, decide_eq_decide.mpr hle]
  · have hge : r ≥ 0 ↔ m < l ∨ l = m := by
      rw [← hgreater, ← hequal]
      omega
    rw [greaterEqual, hr, Option.map_some, decide_eq_decide.mpr hge]
  · exact equalsCstr_eq hs ht.nonzero

/-- Comparisons depend on nothing but the two texts, and read nothing behind their terminators:
strings that end there give the same answers. -/
theorem comparisons_exact (hs : HasText l s) (ht : HasText m t) :
    ComparesTexts l m s t ∧ ComparesTexts l m s.fitted t.fitted :=
  ⟨comparesTexts hs ht, comparesTexts hs.fitted ht.fitted⟩

end Order

/-- `"Ab"` against `"aB"` and against a string without a buffer. -/
theorem comparisons_exact_of_two :
    ComparesTexts [65, 98] [97, 66] ⟨some [65, 98, 0, 7], 3, 2⟩ ⟨some [97, 66, 0], 2, 2⟩ ∧
      ComparesTexts [65, 98] [] ⟨some [65, 98, 0, 7], 3, 2⟩ init := by
  have hs : HasText [65, 98] ⟨some [65, 98, 0, 7], 3, 2⟩ := by
    left
    constructor <;> decide
  have ht : HasText [97, 66] ⟨some [97, 66, 0], 2, 2⟩ := by
    left
    constructor <;> decide
  exact ⟨(comparisons_exact hs ht).1, (comparisons_exact hs (.inr ⟨rfl, rfl⟩)).1⟩

end WString

end FrameworkXC32
