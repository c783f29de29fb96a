import FrameworkXC32.Lib.Block
import FrameworkXC32.Lib.Search
import Mathlib.Algebra.Group.Defs
import Mathlib.Data.List.Infix
import Mathlib.Order.Bounds.Defs

/-!
# Strings that end at a zero

The copying functions of C on a block of memory. They copy one cell after the other, from the
first on, so that a source inside of the block shows what has been written already.
-/

namespace Block

variable {α : Type*}

lemma getElem?_overwrite {block : List α} {start : ℕ} {src : List α} (h : start ≤ block.length)
    (i : ℕ) : (overwrite block start src)[i]? =
      if start ≤ i ∧ i < start + src.length then src[i - start]? else block[i]? := by
  have hlen : (block.take start).length = start := by rw [List.length_take, Nat.min_eq_left h]
  unfold overwrite
  rw [List.append_assoc]
  by_cases hbefore : i < start
  · rw [List.getElem?_append_left (by omega), List.getElem?_take_of_lt hbefore, if_neg (by omega)]
  · rw [List.getElem?_append_right (by omega), hlen]
    by_cases hinside : i - start < src.length
    · rw [List.getElem?_append_left hinside, if_pos (by omega)]
    · rw [List.getElem?_append_right (by omega), List.getElem?_drop, if_neg (by omega)]
      congr 1
      omega

@[simp] lemma overwrite_nil (block : List α) (start : ℕ) : overwrite block start [] = block := by
  unfold overwrite
  rw [List.append_nil, List.length_nil, Nat.add_zero, List.take_append_drop]

lemma store_overwrite {block : List α} {start : ℕ} (src : List α) (a : α)
    (h : start + src.length < block.length) :
    store (overwrite block start src) (start + src.length) a =
      some (overwrite block start (src ++ [a])) := by
  have hlen : (overwrite block start src).length = block.length := length_overwrite (by omega)
  unfold store
  rw [copyIn_eq (by rw [hlen]; exact h)]
  congr 1
  apply List.ext_getElem?
  intro i
  rw [getElem?_overwrite (by omega), getElem?_overwrite (by omega), getElem?_overwrite (by omega),
    List.length_append, List.length_singleton]
  by_cases hlast : i = start + src.length
  · rw [if_pos (by omega), if_pos (by omega), hlast, Nat.add_sub_cancel_left, Nat.sub_self,
      List.getElem?_append_right (Nat.le_refl _), Nat.sub_self]
  · rw [if_neg (by omega)]
    by_cases hinside : start ≤ i ∧ i < start + src.length
    · rw [if_pos hinside, if_pos (by omega), List.getElem?_append_left (by omega)]
    · rw [if_neg hinside, if_neg (by omega)]

end Block

namespace CString

open Block

variable {α : Type*}

/-- Where a source pointer points: to memory apart from the block that is written, or into it. -/
inductive Src (α : Type*)
  | apart (mem : List α)
  | own (offset : ℕ)
deriving DecidableEq, Repr

def Src.isOwn : Src α → Bool
  | apart _ => false
  | own _ => true

/-- The memory behind the pointer. -/
def Src.view (block : List α) : Src α → List α
  | apart mem => mem
  | own offset => block.drop offset

/-- `n` more cells are copied, the first of them as cell `i` of the copy. -/
def copyFrom (dst : ℕ) (src : Src α) : ℕ → ℕ → List α → Option (List α)
  | 0, _, block => some block
  | n + 1, i, block =>
    (load (src.view block) i).bind fun a =>
      (store block (dst + i) a).bind fun block => copyFrom dst src n (i + 1) block

def memcpy (block : List α) (dst : ℕ) (src : Src α) (n : ℕ) : Option (List α) :=
  copyFrom dst src n 0 block

/-- `memmove` inside of the block. -/
def memmove (block : List α) (dst src n : ℕ) : Option (List α) :=
  (copyOut block src n).bind fun cells => copyIn block dst cells

/-- The source shows `l` while it is being copied to `dst`. -/
def Feeds (block : List α) (dst : ℕ) (src : Src α) (l : List α) : Prop :=
  ∀ i, i < l.length → load (src.view (overwrite block dst (l.take i))) i = l[i]?

lemma feeds_apart {mem l : List α} (h : l <+: mem) (block : List α) (dst : ℕ) :
    Feeds block dst (.apart mem) l := by
  obtain ⟨rest, rfl⟩ := h
  intro i hi
  exact List.getElem?_append_left hi

/-- A source in the block is not disturbed by a copy to cells before it. -/
lemma feeds_own {block l : List α} {dst offset : ℕ} (hle : dst ≤ offset)
    (h : l <+: block.drop offset) : Feeds block dst (.own offset) l := by
  intro i hi
  have hlen := h.length_le
  rw [List.length_drop] at hlen
  have hcell : l[i]? = block[offset + i]? := by
    obtain ⟨rest, hrest⟩ := h
    rw [← List.getElem?_drop, ← hrest, List.getElem?_append_left hi]
  change ((overwrite block dst (l.take i)).drop offset)[i]? = l[i]?
  rw [List.getElem?_drop, getElem?_overwrite (by omega), hcell, if_neg]
  rw [List.length_take]
  omega

lemma copyFrom_eq {block l : List α} {dst : ℕ} {src : Src α} (hfeeds : Feeds block dst src l)
    (hfit : dst + l.length ≤ block.length) {n i : ℕ} (hn : i + n = l.length) :
    copyFrom dst src n i (overwrite block dst (l.take i)) = some (overwrite block dst l) := by
  induction n generalizing i with
  | zero =>
    rw [List.take_of_length_le (by omega)]
    rfl
  | succ n ih =>
    have hi : i < l.length := by omega
    have htake : (l.take i).length = i := by
      rw [List.length_take]
      omega
    have hstore : store (overwrite block dst (l.take i)) (dst + (l.take i).length) l[i] =
        some (overwrite block dst (l.take i ++ [l[i]])) :=
      store_overwrite (l.take i) l[i] (by omega)
    rw [htake, List.take_append_getElem hi] at hstore
    rw [copyFrom, hfeeds i hi, List.getElem?_eq_getElem hi, Option.bind_some, hstore,
      Option.bind_some]
    exact ih (by omega)

lemma memcpy_eq {block l : List α} {dst : ℕ} {src : Src α} (hfeeds : Feeds block dst src l)
    (hfit : dst + l.length ≤ block.length) :
    memcpy block dst src l.length = some (overwrite block dst l) := by
  have hcopy := copyFrom_eq hfeeds hfit (Nat.zero_add l.length)
  rwa [List.take_zero, overwrite_nil] at hcopy

lemma memcpy_append {x y z l : List α} {src : Src α} (hfeeds : Feeds (x ++ y ++ z) x.length src l)
    (hfit : l.length ≤ y.length) :
    memcpy (x ++ y ++ z) x.length src l.length = some (x ++ l ++ (y.drop l.length ++ z)) := by
  have hroom : x.length + l.length ≤ (x ++ y ++ z).length := by
    rw [List.length_append, List.length_append]
    omega
  rw [memcpy_eq hfeeds hroom, overwrite_append hfit]

lemma memcpy_self {block : List α} {n : ℕ} (h : n ≤ block.length) :
    memcpy block 0 (.own 0) n = some block := by
  have hpart : block.take n <+: block := List.take_prefix n block
  have hlen : (block.take n).length = n := by rw [List.length_take, Nat.min_eq_left h]
  have hfeeds : Feeds block 0 (.own 0) (block.take n) := feeds_own (Nat.le_refl 0) hpart
  have hcopy := memcpy_eq hfeeds (by omega)
  rwa [hlen, overwrite_of_shown hpart] at hcopy

section Zero

variable [Zero α] [DecidableEq α]

/-- The cells before the first zero, `none` when the memory ends without one. -/
def cstring : List α → Option (List α)
  | [] => none
  | a :: mem => if a = 0 then some [] else (cstring mem).map fun l => a :: l

/-- `strlen` -/
def strlen (mem : List α) : Option ℕ := (cstring mem).map List.length

/-- `strstr`: where the second string occurs first in the first one. -/
def strstr (hay needle : List α) : Option (Option ℕ) :=
  (cstring hay).bind fun h => (cstring needle).map fun n => Search.firstIn n h

/-- `strrchr` from cell `i` on, with the last place that has been found. -/
def strrchrFrom (a : α) : List α → ℕ → Option ℕ → Option (Option ℕ)
  | [], _, _ => none
  | b :: mem, i, found =>
    let found := if b = a then some i else found
    if b = 0 then some found else strrchrFrom a mem (i + 1) found

/-- `strrchr`: where a cell occurs last in the string and its zero. -/
def strrchr (mem : List α) (a : α) : Option (Option ℕ) := strrchrFrom a mem 0 none

/-- The last place of a cell, if it has one. -/
def IsLast (a : α) (l : List α) : Option ℕ → Prop
  | none => a ∉ l
  | some i => IsGreatest {j | l[j]? = some a} i

/-- `strcmp`, with the codes of the characters. -/
def strcmp (code : α → ℤ) : List α → List α → Option ℤ
  | a :: mem₁, b :: mem₂ =>
    if a ≠ b then some (code a - code b) else if a = 0 then some 0 else strcmp code mem₁ mem₂
  | _, _ => none

/-- `strncmp`, which compares `n` characters at most. -/
def strncmp (code : α → ℤ) : ℕ → List α → List α → Option ℤ
  | 0, _, _ => some 0
  | n + 1, a :: mem₁, b :: mem₂ =>
    if a ≠ b then some (code a - code b) else if a = 0 then some 0 else strncmp code n mem₁ mem₂
  | _ + 1, _, _ => none

/-- The cells before the first zero are changed. -/
def mapCells (f : α → α) : List α → Option (List α)
  | [] => none
  | a :: mem => if a = 0 then some (a :: mem) else (mapCells f mem).map fun mem => f a :: mem

/-- Cells are copied up to a zero and with it. No more than `fuel` of them are, which is never
reached when it is the length of the block: the copy would have left the block. -/
def strcpyFrom (dst : ℕ) (src : Src α) : ℕ → ℕ → List α → Option (List α)
  | 0, _, _ => none
  | fuel + 1, i, block =>
    (load (src.view block) i).bind fun a =>
      (store block (dst + i) a).bind fun block =>
        if a = 0 then some block else strcpyFrom dst src fuel (i + 1) block

def strcpy (block : List α) (dst : ℕ) (src : Src α) : Option (List α) :=
  strcpyFrom dst src block.length 0 block

lemma cstring_eq {l : List α} (hl : 0 ∉ l) (rest : List α) :
    cstring (l ++ 0 :: rest) = some l := by
  induction l with
  | nil => exact if_pos rfl
  | cons a l ih =>
    have ha : a ≠ 0 := fun h => hl (h ▸ List.mem_cons_self)
    rw [List.cons_append, cstring, if_neg ha, ih fun h => hl (List.mem_cons_of_mem a h)]
    rfl

lemma strlen_eq {l : List α} (hl : 0 ∉ l) (rest : List α) :
    strlen (l ++ 0 :: rest) = some l.length := by
  rw [strlen, cstring_eq hl, Option.map_some]

omit [Zero α] in
lemma IsLast.concat {a : α} {l : List α} {found : Option ℕ} (h : IsLast a l found) (b : α) :
    IsLast a (l ++ [b]) (if b = a then some l.length else found) := by
  by_cases hb : b = a
  · rw [if_pos hb, hb]
    constructor
    · exact List.getElem?_concat_length
    · intro j hj
      have hlt := (List.getElem?_eq_some_iff.mp hj).1
      rw [List.length_append, List.length_singleton] at hlt
      omega
  · rw [if_neg hb]
    have hplace : ∀ j : ℕ, (l ++ [b])[j]? = some a ↔ l[j]? = some a := by
      intro j
      by_cases hj : j < l.length
      · rw [List.getElem?_append_left hj]
      · rw [List.getElem?_append_right (by omega), List.getElem?_eq_none (Nat.not_lt.mp hj)]
        refine iff_of_false (fun hat => hb ?_) (fun hat => by cases hat)
        have hmem := List.mem_of_getElem? hat
        exact (List.mem_singleton.mp hmem).symm
    cases found with
    | none =>
      intro hmem
      rcases List.mem_append.mp hmem with hmem | hmem
      · exact h hmem
      · exact hb (List.mem_singleton.mp hmem).symm
    | some i => exact ⟨(hplace i).mpr h.1, fun j hj => h.2 ((hplace j).mp hj)⟩

lemma strrchrFrom_isLast {a : α} (ha : a ≠ 0) {l : List α} (hl : 0 ∉ l) (rest p : List α)
    {found : Option ℕ} (hp : IsLast a p found) :
    ∃ r, strrchrFrom a (l ++ 0 :: rest) p.length found = some r ∧ IsLast a (p ++ l) r := by
  induction l generalizing p found with
  | nil =>
    refine ⟨found, ?_, by rwa [List.append_nil]⟩
    rw [List.nil_append, strrchrFrom, if_neg ha.symm]
    exact if_pos rfl
  | cons b l ih =>
    have hb : b ≠ 0 := fun h => hl (h ▸ List.mem_cons_self)
    obtain ⟨r, hr, hlast⟩ := ih (fun h => hl (List.mem_cons_of_mem b h)) (p ++ [b]) (hp.concat b)
    rw [List.length_append, List.length_singleton] at hr
    rw [List.append_assoc, List.singleton_append] at hlast
    refine ⟨r, ?_, hlast⟩
    rw [List.cons_append, strrchrFrom, if_neg hb]
    exact hr

theorem strrchr_isLast {a : α} (ha : a ≠ 0) {l : List α} (hl : 0 ∉ l) (rest : List α) :
    ∃ r, strrchr (l ++ 0 :: rest) a = some r ∧ IsLast a l r :=
  strrchrFrom_isLast ha hl rest [] (show IsLast a [] none from List.not_mem_nil)

section Compare

variable {code : α → ℤ} (hcode : Function.Injective code)
include hcode

omit [Zero α] [DecidableEq α] in
lemma code_sub_ne_zero {a b : α} (h : a ≠ b) : code a - code b ≠ 0 :=
  fun hzero => h (hcode (Int.sub_eq_zero.mp hzero))

/-- Two strings compare equal when they are, and nothing behind their zeros is looked at. -/
lemma strcmp_eq {l m : List α} (hl : 0 ∉ l) (hm : 0 ∉ m) (rest rest' : List α) :
    ∃ r, strcmp code (l ++ 0 :: rest) (m ++ 0 :: rest') = some r ∧ (r = 0 ↔ l = m) := by
  induction l generalizing m with
  | nil =>
    cases m with
    | nil => exact ⟨0, by simp [strcmp], by simp⟩
    | cons b m =>
      have hb : (0 : α) ≠ b := fun h => hm (h ▸ List.mem_cons_self)
      exact ⟨_, if_pos hb, iff_of_false (code_sub_ne_zero hcode hb) (by simp)⟩
  | cons a l ih =>
    have ha : a ≠ 0 := fun h => hl (h ▸ List.mem_cons_self)
    cases m with
    | nil => exact ⟨_, if_pos ha, iff_of_false (code_sub_ne_zero hcode ha) (by simp)⟩
    | cons b m =>
      by_cases hab : a = b
      · obtain ⟨r, hr, hiff⟩ := ih (fun h => hl (List.mem_cons_of_mem a h)) (m := m)
          fun h => hm (List.mem_cons_of_mem b h)
        refine ⟨r, ?_, by rw [hiff, hab, List.cons_inj_right]⟩
        rw [List.cons_append, List.cons_append, strcmp, if_neg (not_not_intro hab), if_neg ha, hr]
      · refine ⟨_, if_pos hab, iff_of_false (code_sub_ne_zero hcode hab) fun h => hab ?_⟩
        exact (List.cons.inj h).1

lemma strncmp_eq {l m : List α} (hl : 0 ∉ l) (hm : 0 ∉ m) (rest rest' : List α) :
    ∃ r, strncmp code m.length (l ++ 0 :: rest) (m ++ rest') = some r ∧ (r = 0 ↔ m <+: l) := by
  induction m generalizing l with
  | nil => exact ⟨0, rfl, iff_of_true rfl List.nil_prefix⟩
  | cons b m ih =>
    have hb : b ≠ 0 := fun h => hm (h ▸ List.mem_cons_self)
    cases l with
    | nil =>
      refine ⟨_, if_pos hb.symm, iff_of_false (code_sub_ne_zero hcode hb.symm) fun h => ?_⟩
      exact absurd (List.prefix_nil.mp h) (by simp)
    | cons a l =>
      by_cases hab : a = b
      · obtain ⟨r, hr, hiff⟩ := ih (l := l) (fun h => hl (List.mem_cons_of_mem a h))
          fun h => hm (List.mem_cons_of_mem b h)
        refine ⟨r, ?_, by rw [hiff, hab, List.prefix_cons_inj]⟩
        rw [List.length_cons, List.cons_append, List.cons_append, strncmp,
          if_neg (not_not_intro hab), if_neg (hab ▸ hb), hr]
      · refine ⟨_, if_pos hab, iff_of_false (code_sub_ne_zero hcode hab) fun h => hab ?_⟩
        exact (List.cons_prefix_cons.mp h).1.symm

omit hcode in
/-- Strings compare as the order of their characters does from the first difference on. The zero
behind a string comes before every other character. -/
lemma strcmp_lex [LT α] (hlt : ∀ a b : α, a < b ↔ code a < code b)
    (hzero : ∀ a : α, a ≠ 0 → code 0 < code a) {l m : List α} (hl : 0 ∉ l) (hm : 0 ∉ m)
    (rest rest' : List α) : ∃ r, strcmp code (l ++ 0 :: rest) (m ++ 0 :: rest') = some r ∧
      (r < 0 ↔ l < m) ∧ (0 < r ↔ m < l) := by
  induction l generalizing m with
  | nil =>
    cases m with
    | nil => exact ⟨0, by simp [strcmp], by simp, by simp⟩
    | cons b m =>
      have hb : b ≠ 0 := fun h => hm (h ▸ List.mem_cons_self)
      have hless := hzero b hb
      refine ⟨_, if_pos hb.symm, iff_of_true ?_ (List.nil_lt_cons b m), iff_of_false ?_ ?_⟩
      · omega
      · omega
      · exact List.not_lt_nil _
  | cons a l ih =>
    have ha : a ≠ 0 := fun h => hl (h ▸ List.mem_cons_self)
    cases m with
    | nil =>
      have hless := hzero a ha
      refine ⟨_, if_pos ha, iff_of_false ?_ (List.not_lt_nil _), iff_of_true ?_ ?_⟩
      · omega
      · omega
      · exact List.nil_lt_cons a l
    | cons b m =>
      rw [List.cons_lt_cons_iff, List.cons_lt_cons_iff, List.cons_append, List.cons_append, strcmp]
      by_cases hab : a = b
      · obtain ⟨r, hr, hless, hmore⟩ := ih (fun h => hl (List.mem_cons_of_mem a h)) (m := m)
          fun h => hm (List.mem_cons_of_mem b h)
        have hirrefl : ¬b < b := fun h => Int.lt_irrefl _ ((hlt b b).mp h)
        refine ⟨r, ?_, ?_, ?_⟩
        · rw [if_neg (not_not_intro hab), if_neg ha, hr]
        · rw [hless, hab, or_iff_right hirrefl, and_iff_right rfl]
        · rw [hmore, hab, or_iff_right hirrefl, and_iff_right rfl]
      · refine ⟨_, if_pos hab, ?_, ?_⟩
        · rw [or_iff_left fun h => hab h.1, hlt]
          omega
        · rw [or_iff_left fun h => hab h.1.symm, hlt]
          omega

end Compare

/-- `n` zeros are written from `dst` on. -/
def padZeros : ℕ → ℕ → List α → Option (List α)
  | 0, _, block => some block
  | n + 1, dst, block => (store block dst 0).bind fun block => padZeros n (dst + 1) block

/-- `n` more cells are written, the first of them as cell `i` of the copy. -/
def strncpyFrom (dst : ℕ) (src : Src α) : ℕ → ℕ → List α → Option (List α)
  | 0, _, block => some block
  | n + 1, i, block =>
    (load (src.view block) i).bind fun a =>
      (store block (dst + i) a).bind fun block =>
        if a = 0 then padZeros n (dst + i + 1) block else strncpyFrom dst src n (i + 1) block

/-- `strncpy`, which writes `n` cells and so no zero when the string is that long. -/
def strncpy (block : List α) (dst : ℕ) (src : Src α) (n : ℕ) : Option (List α) :=
  strncpyFrom dst src n 0 block

lemma strncpyFrom_eq_copyFrom {dst n i : ℕ} {src : List α} {block : List α}
    (hsrc : ∀ j, i ≤ j → j < i + n → src[j]? ≠ some 0) :
    strncpyFrom dst (.apart src) n i block = copyFrom dst (.apart src) n i block := by
  induction n generalizing i block with
  | zero => rfl
  | succ n ih =>
    rw [strncpyFrom, copyFrom]
    change (src[i]?).bind _ = (src[i]?).bind _
    cases hat : src[i]? with
    | none => rfl
    | some a =>
      have ha : a ≠ 0 := by
        rintro rfl
        exact hsrc i (Nat.le_refl i) (by omega) hat
      rw [Option.bind_some, Option.bind_some]
      congr 1
      funext block
      rw [if_neg ha]
      exact ih fun j hj hlt => hsrc j (by omega) (by omega)

lemma strncpy_eq {block src l : List α} {dst : ℕ} (hl : 0 ∉ l) (hsrc : l <+: src)
    (hfit : dst + l.length ≤ block.length) :
    strncpy block dst (.apart src) l.length = some (overwrite block dst l) := by
  rw [← memcpy_eq (feeds_apart hsrc block dst) hfit]
  apply strncpyFrom_eq_copyFrom
  intro j _ hj hat
  obtain ⟨rest, rfl⟩ := hsrc
  rw [List.getElem?_append_left (by omega)] at hat
  exact hl (List.mem_of_getElem? hat)

lemma mapCells_eq (f : α → α) {l : List α} (hl : 0 ∉ l) (rest : List α) :
    mapCells f (l ++ 0 :: rest) = some (l.map f ++ 0 :: rest) := by
  induction l with
  | nil => exact if_pos rfl
  | cons a l ih =>
    have ha : a ≠ 0 := fun h => hl (h ▸ List.mem_cons_self)
    rw [List.cons_append, mapCells, if_neg ha, ih fun h => hl (List.mem_cons_of_mem a h)]
    rfl

lemma strcpyFrom_eq {block l : List α} {dst : ℕ} {src : Src α} (hl : 0 ∉ l)
    (hfeeds : Feeds block dst src (l ++ [0])) (hfit : dst + l.length < block.length) {fuel i : ℕ}
    (hi : i ≤ l.length) (hfuel : l.length < i + fuel) :
    strcpyFrom dst src fuel i (overwrite block dst (l.take i)) =
      some (overwrite block dst (l ++ [0])) := by
  induction fuel generalizing i with
  | zero => omega
  | succ fuel ih =>
    have htake : (l.take i).length = i := by
      rw [List.length_take]
      omega
    have htext : (l ++ [0]).take i = l.take i := List.take_append_of_le_length hi
    have hload := hfeeds i (by rw [List.length_append, List.length_singleton]; omega)
    rw [htext] at hload
    rw [strcpyFrom, hload]
    by_cases hend : i = l.length
    · have hstore : store (overwrite block dst l) (dst + l.length) 0 =
          some (overwrite block dst (l ++ [0])) := store_overwrite l 0 hfit
      subst hend
      rw [List.take_length, List.getElem?_append_right (Nat.le_refl _), Nat.sub_self,
        List.getElem?_cons_zero, Option.bind_some, hstore, Option.bind_some, if_pos rfl]
    · have hlt : i < l.length := by omega
      have hne : l[i] ≠ 0 := fun h => hl (h ▸ List.getElem_mem hlt)
      have hstore : store (overwrite block dst (l.take i)) (dst + (l.take i).length) l[i] =
          some (overwrite block dst (l.take i ++ [l[i]])) :=
        store_overwrite (l.take i) l[i] (by omega)
      rw [htake, List.take_append_getElem hlt] at hstore
      rw [List.getElem?_append_left hlt, List.getElem?_eq_getElem hlt, Option.bind_some, hstore,
        Option.bind_some, if_neg hne]
      exact ih (by omega) (by omega)

/-- A string that fits and that the source goes on showing is copied with its zero. -/
theorem strcpy_eq {block l : List α} {dst : ℕ} {src : Src α} (hl : 0 ∉ l)
    (hfeeds : Feeds block dst src (l ++ [0])) (hfit : dst + l.length < block.length) :
    strcpy block dst src = some (overwrite block dst (l ++ [0])) := by
  have hcopy := strcpyFrom_eq hl hfeeds hfit (Nat.zero_le _) (by omega : l.length < 0 + block.length)
  rwa [List.take_zero, overwrite_nil] at hcopy

end Zero

end CString
