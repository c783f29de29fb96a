import Mathlib.Algebra.BigOperators.Group.List.Basic
import Mathlib.Algebra.Ring.Nat
import Mathlib.Data.List.Nodup
import Mathlib.Logic.Function.Basic

/-!
# Delta lists

A list of keys, each with a delta `δ`, stands for a set of keys with remaining times: the
remaining time of a key is the sum of the deltas from the head of the list through that
key. The lemmas say how the remaining times move when a key is linked in, taken out or
when the head is shortened, with the delta of one neighbour adjusted.
-/

namespace DeltaList

variable {α : Type*} [DecidableEq α]

/-- Remaining time of `u`: the deltas from the head through `u`. -/
def rem (δ : α → ℕ) : List α → α → ℕ
  | [], _ => 0
  | a :: l, u => δ a + if u = a then 0 else rem δ l u

/-- The set of keys with remaining times that a delta list stands for. -/
def remaining (δ : α → ℕ) (l : List α) (u : α) : Option ℕ :=
  if u ∈ l then some (rem δ l u) else none

@[simp] lemma rem_cons_self (δ : α → ℕ) (a : α) (l : List α) : rem δ (a :: l) a = δ a := by
  simp [rem]

lemma rem_cons_of_ne (δ : α → ℕ) {a u : α} (l : List α) (h : u ≠ a) :
    rem δ (a :: l) u = δ a + rem δ l u := by
  simp [rem, h]

lemma rem_congr {δ ε : α → ℕ} {l : List α} (h : ∀ a ∈ l, ε a = δ a) (u : α) :
    rem ε l u = rem δ l u := by
  induction l with
  | nil => rfl
  | cons a l ih =>
    simp only [rem, h a (by simp)]
    rw [ih (fun b hb => h b (by simp [hb]))]

lemma rem_append_of_mem (δ : α → ℕ) {l m : List α} {u : α} (h : u ∈ l) :
    rem δ (l ++ m) u = rem δ l u := by
  induction l with
  | nil => simp at h
  | cons a l ih =>
    by_cases ha : u = a
    · simp [rem, ha]
    · have hl : u ∈ l := (List.mem_cons.mp h).resolve_left ha
      rw [List.cons_append, rem_cons_of_ne δ _ ha, rem_cons_of_ne δ _ ha, ih hl]

lemma rem_append_of_notMem (δ : α → ℕ) {l m : List α} {u : α} (h : u ∉ l) :
    rem δ (l ++ m) u = (l.map δ).sum + rem δ m u := by
  induction l with
  | nil => simp
  | cons a l ih =>
    have ha : u ≠ a := fun e => h (by simp [e])
    have hl : u ∉ l := fun e => h (by simp [e])
    rw [List.cons_append, rem_cons_of_ne δ _ ha, ih hl, List.map_cons, List.sum_cons]
    omega

lemma rem_le_sum (δ : α → ℕ) (l : List α) (u : α) : rem δ l u ≤ (l.map δ).sum := by
  induction l with
  | nil => simp [rem]
  | cons a l ih =>
    simp only [rem, List.map_cons, List.sum_cons]
    split <;> omega

lemma head_le_rem (δ : α → ℕ) {l : List α} {a u : α} (ha : a ∈ l.head?) : δ a ≤ rem δ l u := by
  cases l with
  | nil => simp at ha
  | cons b l =>
    have hba : b = a := by simpa using ha
    subst hba
    exact Nat.le_add_right _ _

/-- The delta of the first key, when there is one, replaced. -/
def adjustHead (δ : α → ℕ) (f : ℕ → ℕ) : List α → α → ℕ
  | [] => δ
  | a :: _ => Function.update δ a (f (δ a))

lemma adjustHead_of_notMem (δ : α → ℕ) (f : ℕ → ℕ) {l : List α} {u : α} (h : u ∉ l) :
    adjustHead δ f l u = δ u := by
  cases l with
  | nil => rfl
  | cons a l => exact Function.update_of_ne (fun e => h (by simp [e])) _ _

lemma rem_adjustHead (δ : α → ℕ) (f : ℕ → ℕ) {a : α} {l : List α} (hnd : (a :: l).Nodup) (u : α) :
    rem (adjustHead δ f (a :: l)) (a :: l) u = f (δ a) + if u = a then 0 else rem δ l u := by
  simp only [rem, adjustHead, Function.update_self]
  have ha : a ∉ l := (List.nodup_cons.mp hnd).1
  rw [rem_congr (fun b hb => Function.update_of_ne (ne_of_mem_of_not_mem hb ha) _ _)]

/-- Linking in a key: with its delta counted from the keys in front of it and taken from the
key behind it, no other remaining time moves. -/
theorem rem_insert (δ : α → ℕ) {l m : List α} {t : α} {d : ℕ} (hnd : (l ++ m).Nodup)
    (ht : t ∉ l ++ m) (hd : ∀ a ∈ m.head?, d ≤ δ a) {u : α} (hu : u ∈ l ++ m) :
    rem (Function.update (adjustHead δ (· - d) m) t d) (l ++ t :: m) u = rem δ (l ++ m) u := by
  obtain ⟨hl, hm, hdis⟩ := List.nodup_append.mp hnd
  simp only [List.mem_append, not_or] at ht
  have hkeep : ∀ a ∈ l, Function.update (adjustHead δ (· - d) m) t d a = δ a := by
    intro a ha
    rw [Function.update_of_ne (ne_of_mem_of_not_mem ha ht.1),
      adjustHead_of_notMem δ _ (fun h => hdis a ha a h rfl)]
  by_cases hul : u ∈ l
  · rw [rem_append_of_mem _ hul, rem_append_of_mem _ hul, rem_congr hkeep]
  · have hum : u ∈ m := (List.mem_append.mp hu).resolve_left hul
    have hut : u ≠ t := fun e => ht.2 (e ▸ hum)
    rw [rem_append_of_notMem _ hul, rem_append_of_notMem _ hul, List.map_congr_left hkeep,
      rem_cons_of_ne _ _ hut, Function.update_self,
      rem_congr (fun a ha => Function.update_of_ne (ne_of_mem_of_not_mem ha ht.2) _ _)]
    cases m with
    | nil => simp at hum
    | cons a m =>
      have hda : d ≤ δ a := hd a (by simp)
      rw [rem_adjustHead δ _ hm]
      simp only [rem]
      omega

lemma rem_insert_self (δ : α → ℕ) {l m : List α} {t : α} {d : ℕ} (hdis : ∀ a ∈ l, a ∉ m)
    (ht : t ∉ l) : rem (Function.update (adjustHead δ (· - d) m) t d) (l ++ t :: m) t =
      (l.map δ).sum + d := by
  rw [rem_append_of_notMem _ ht, rem_cons_self, Function.update_self]
  congr 2
  refine List.map_congr_left (fun a ha => ?_)
  rw [Function.update_of_ne (ne_of_mem_of_not_mem ha ht), adjustHead_of_notMem δ _ (hdis a ha)]

/-- Taking out a key: with its delta added to the key behind it, no other remaining time
moves. -/
theorem rem_remove (δ : α → ℕ) {l m : List α} {t : α} (hnd : (l ++ t :: m).Nodup) {u : α}
    (hu : u ∈ l ++ m) : rem (adjustHead δ (· + δ t) m) (l ++ m) u = rem δ (l ++ t :: m) u := by
  obtain ⟨hl, htm, hdis⟩ := List.nodup_append.mp hnd
  obtain ⟨htm', hm⟩ := List.nodup_cons.mp htm
  have hkeep : ∀ a ∈ l, adjustHead δ (· + δ t) m a = δ a := fun a ha =>
    adjustHead_of_notMem δ _ (fun h => hdis a ha a (by simp [h]) rfl)
  by_cases hul : u ∈ l
  · rw [rem_append_of_mem _ hul, rem_append_of_mem _ hul, rem_congr hkeep]
  · have hum : u ∈ m := (List.mem_append.mp hu).resolve_left hul
    have hut : u ≠ t := fun e => htm' (e ▸ hum)
    rw [rem_append_of_notMem _ hul, rem_append_of_notMem _ hul, List.map_congr_left hkeep,
      rem_cons_of_ne _ _ hut]
    cases m with
    | nil => simp at hum
    | cons a m =>
      rw [rem_adjustHead δ _ hm]
      simp only [rem]
      omega

/-- Shortening the head by `e` brings every key `e` closer. -/
theorem rem_age (δ : α → ℕ) {l : List α} {e : ℕ} (hnd : l.Nodup) (he : ∀ a ∈ l.head?, e ≤ δ a)
    {u : α} (hu : u ∈ l) : rem (adjustHead δ (· - e) l) l u + e = rem δ l u := by
  cases l with
  | nil => simp at hu
  | cons a l =>
    have hea : e ≤ δ a := he a (by simp)
    rw [rem_adjustHead δ _ hnd]
    simp only [rem]
    omega

end DeltaList
