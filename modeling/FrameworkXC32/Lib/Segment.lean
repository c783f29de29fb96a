import Mathlib.Data.List.Nodup
import Mathlib.Logic.Function.Basic

/-!
# Singly linked lists in a heap

`next : α → Option α` gives the successor field of every cell. `Seg next p l q` says that
following `next` from `p` visits exactly the cells `l` and then arrives at `q`; a list that
ends in the null pointer is `Seg next p l none`.
-/

namespace LinkedHeap

variable {α : Type*}

/-- The cells `l` lead from the pointer `p` to the pointer `q`. -/
def Seg (next : α → Option α) : Option α → List α → Option α → Prop
  | p, [], q => p = q
  | p, a :: l, q => p = some a ∧ Seg next (next a) l q

@[simp] lemma seg_nil {next : α → Option α} {p q : Option α} : Seg next p [] q ↔ p = q := Iff.rfl

@[simp] lemma seg_cons {next : α → Option α} {p q : Option α} {a : α} {l : List α} :
    Seg next p (a :: l) q ↔ p = some a ∧ Seg next (next a) l q := Iff.rfl

lemma seg_append {next : α → Option α} {p q : Option α} {l m : List α} :
    Seg next p (l ++ m) q ↔ ∃ r, Seg next p l r ∧ Seg next r m q := by
  induction l generalizing p with
  | nil => simp
  | cons a l ih =>
    simp only [List.cons_append, seg_cons, ih]
    constructor
    · rintro ⟨hp, r, hl, hm⟩
      exact ⟨r, ⟨hp, hl⟩, hm⟩
    · rintro ⟨r, ⟨hp, hl⟩, hm⟩
      exact ⟨hp, r, hl, hm⟩

lemma Seg.congr {next next' : α → Option α} {p q : Option α} {l : List α}
    (h : Seg next p l q) (he : ∀ a ∈ l, next' a = next a) : Seg next' p l q := by
  induction l generalizing p with
  | nil => exact h
  | cons a l ih =>
    refine ⟨h.1, ?_⟩
    rw [he a (by simp)]
    exact ih h.2 (fun b hb => he b (by simp [hb]))

/-- The list behind the cell `a` may be replaced when the cells before `a` are as they were. -/
lemma Seg.relink {next next' : α → Option α} {p q : Option α} {l m m' : List α} {a : α}
    (h : Seg next p (l ++ a :: m) q) (he : ∀ b ∈ l, next' b = next b)
    (hm : Seg next' (next' a) m' q) : Seg next' p (l ++ a :: m') q := by
  obtain ⟨r, hl, hr⟩ := seg_append.mp h
  exact seg_append.mpr ⟨r, hl.congr he, hr.1, hm⟩

lemma Seg.unique {next : α → Option α} {p : Option α} {l m : List α}
    (hl : Seg next p l none) (hm : Seg next p m none) : l = m := by
  induction l generalizing p m with
  | nil =>
    cases m with
    | nil => rfl
    | cons b m => exact absurd (hl.symm.trans hm.1) (by simp)
  | cons a l ih =>
    cases m with
    | nil => exact absurd (hm.symm.trans hl.1) (by simp)
    | cons b m =>
      have hab : a = b := Option.some.inj (hl.1.symm.trans hm.1)
      subst hab
      rw [ih hl.2 hm.2]

lemma Seg.nodup {next : α → Option α} {p : Option α} {l : List α} (h : Seg next p l none) :
    l.Nodup := by
  induction l generalizing p with
  | nil => exact List.nodup_nil
  | cons a l ih =>
    refine List.nodup_cons.mpr ⟨fun ha => ?_, ih h.2⟩
    -- a second visit of `a` would make the list equal to a proper suffix of itself
    obtain ⟨l₁, l₂, hl⟩ := List.append_of_mem ha
    have htail := h.2
    rw [hl] at htail
    obtain ⟨r, -, hr⟩ := seg_append.mp htail
    have hself : Seg next p (a :: l₂) none := ⟨h.1, hr.2⟩
    have hlen := congrArg List.length (hself.unique h)
    simp [hl] at hlen
    omega

section Update

variable [DecidableEq α]

lemma Seg.update_of_notMem {next : α → Option α} {p q : Option α} {l : List α} {a : α}
    (h : Seg next p l q) (ha : a ∉ l) (r : Option α) : Seg (Function.update next a r) p l q :=
  h.congr (fun _ hb => Function.update_of_ne (ne_of_mem_of_not_mem hb ha) _ _)

lemma Seg.unlink {next : α → Option α} {p q : Option α} {l m : List α} {a b : α}
    (h : Seg next p (l ++ a :: b :: m) q) (ha : a ∉ l) (ham : a ∉ m) :
    Seg (Function.update next a (next b)) p (l ++ a :: m) q := by
  obtain ⟨r, hl, hr⟩ := seg_append.mp h
  refine seg_append.mpr ⟨r, hl.update_of_notMem ha _, hr.1, ?_⟩
  rw [Function.update_self]
  exact hr.2.2.update_of_notMem ham _

lemma Seg.link {next : α → Option α} {p q : Option α} {l m : List α} {a b : α}
    (h : Seg next p (l ++ a :: m) q) (ha : a ∉ l) (ham : a ∉ m) (hb : b ∉ l ++ a :: m) :
    Seg (Function.update (Function.update next b (next a)) a (some b)) p (l ++ a :: b :: m) q := by
  obtain ⟨r, hl, hr⟩ := seg_append.mp h
  simp only [List.mem_append, List.mem_cons, not_or] at hb
  have hba : b ≠ a := hb.2.1
  refine seg_append.mpr ⟨r, (hl.update_of_notMem hb.1 _).update_of_notMem ha _, hr.1, ?_⟩
  rw [Function.update_self]
  refine ⟨rfl, ?_⟩
  rw [Function.update_of_ne hba, Function.update_self]
  exact (hr.2.update_of_notMem hb.2.2 _).update_of_notMem ham _

lemma Seg.push {next : α → Option α} {p q : Option α} {l : List α} {b : α}
    (h : Seg next p l q) (hb : b ∉ l) : Seg (Function.update next b p) (some b) (b :: l) q := by
  refine ⟨rfl, ?_⟩
  rw [Function.update_self]
  exact h.update_of_notMem hb _

end Update

end LinkedHeap
