import Mathlib.Data.List.Chain
import Mathlib.Algebra.BigOperators.Group.List.Basic
import Mathlib.Algebra.Order.BigOperators.Group.List
import Mathlib.Algebra.Ring.Nat
import Mathlib.Order.Basic

/-!
# An interval cut into blocks

`Tiles a bs e` says that the blocks `bs` follow each other without a gap from `a` to `e`.
Every block has a kind; where no two neighbours are of the kind `k`, the blocks of kind `k`
are exactly the largest stretches of the interval that meet no block of another kind.
-/

namespace Tiling

structure Block (κ : Type*) where
  addr : ℕ
  size : ℕ
  kind : κ
deriving DecidableEq, Repr

variable {κ : Type*}

def Block.stop (b : Block κ) : ℕ := b.addr + b.size

/-- The blocks `bs` follow each other from `a` to `e`, and none of them is empty. -/
def Tiles : ℕ → List (Block κ) → ℕ → Prop
  | a, [], e => a = e
  | a, b :: bs, e => b.addr = a ∧ 0 < b.size ∧ Tiles b.stop bs e

@[simp] lemma tiles_nil {a e : ℕ} : Tiles a ([] : List (Block κ)) e ↔ a = e := Iff.rfl

@[simp] lemma tiles_cons {a e : ℕ} {b : Block κ} {bs : List (Block κ)} :
    Tiles a (b :: bs) e ↔ b.addr = a ∧ 0 < b.size ∧ Tiles b.stop bs e := Iff.rfl

lemma tiles_append {a e : ℕ} {bs cs : List (Block κ)} :
    Tiles a (bs ++ cs) e ↔ ∃ m, Tiles a bs m ∧ Tiles m cs e := by
  induction bs generalizing a with
  | nil => simp
  | cons b bs ih =>
    simp only [List.cons_append, tiles_cons, ih]
    constructor
    · rintro ⟨ha, hb, m, hbs, hcs⟩
      exact ⟨m, ⟨ha, hb, hbs⟩, hcs⟩
    · rintro ⟨m, ⟨ha, hb, hbs⟩, hcs⟩
      exact ⟨ha, hb, m, hbs, hcs⟩

lemma tiles_middle {a e : ℕ} {bs cs : List (Block κ)} {b : Block κ} :
    Tiles a (bs ++ b :: cs) e ↔ Tiles a bs b.addr ∧ 0 < b.size ∧ Tiles b.stop cs e := by
  simp only [tiles_append, tiles_cons]
  constructor
  · rintro ⟨m, hbs, rfl, hb, hcs⟩
    exact ⟨hbs, hb, hcs⟩
  · rintro ⟨hbs, hb, hcs⟩
    exact ⟨_, hbs, rfl, hb, hcs⟩

lemma Tiles.le {a e : ℕ} {bs : List (Block κ)} (h : Tiles a bs e) : a ≤ e := by
  induction bs generalizing a with
  | nil => exact Nat.le_of_eq h
  | cons b bs ih =>
    have hle := ih h.2.2
    have ha := h.1
    rw [Block.stop] at hle
    omega

lemma Tiles.bounds {a e : ℕ} {bs : List (Block κ)} (h : Tiles a bs e) {b : Block κ}
    (hb : b ∈ bs) : a ≤ b.addr ∧ 0 < b.size ∧ b.stop ≤ e := by
  obtain ⟨l, m, rfl⟩ := List.append_of_mem hb
  obtain ⟨hl, hpos, hm⟩ := tiles_middle.mp h
  exact ⟨hl.le, hpos, hm.le⟩

lemma Tiles.pairwise {a e : ℕ} {bs : List (Block κ)} (h : Tiles a bs e) :
    bs.Pairwise fun b c => b.stop ≤ c.addr := by
  induction bs generalizing a with
  | nil => exact List.Pairwise.nil
  | cons b bs ih =>
    exact List.pairwise_cons.mpr ⟨fun c hc => (h.2.2.bounds hc).1, ih h.2.2⟩

lemma Tiles.addr_sorted {a e : ℕ} {bs : List (Block κ)} (h : Tiles a bs e) :
    bs.Pairwise fun b c => b.addr < c.addr := by
  refine h.pairwise.imp_of_mem fun hb _ hbc => ?_
  have hpos := (h.bounds hb).2.1
  rw [Block.stop] at hbc
  omega

lemma Tiles.apart {a e : ℕ} {bs : List (Block κ)} (h : Tiles a bs e) {b c : Block κ}
    (hb : b ∈ bs) (hc : c ∈ bs) (hne : b ≠ c) : b.stop ≤ c.addr ∨ c.stop ≤ b.addr := by
  have hsymm : Std.Symm fun b c : Block κ => b.stop ≤ c.addr ∨ c.stop ≤ b.addr :=
    ⟨fun _ _ hbc => hbc.symm⟩
  have hpair : bs.Pairwise fun b c => b.stop ≤ c.addr ∨ c.stop ≤ b.addr := h.pairwise.imp Or.inl
  exact hpair.forall hb hc hne

lemma Tiles.eq_of_mem {a e : ℕ} {bs : List (Block κ)} (h : Tiles a bs e) {b c : Block κ}
    (hb : b ∈ bs) (hc : c ∈ bs) {x : ℕ} (hbx : b.addr ≤ x ∧ x < b.stop)
    (hcx : c.addr ≤ x ∧ x < c.stop) : b = c := by
  by_contra hne
  rcases h.apart hb hc hne with hlt | hlt <;> omega

lemma Tiles.eq_of_addr {a e : ℕ} {bs : List (Block κ)} (h : Tiles a bs e) {b c : Block κ}
    (hb : b ∈ bs) (hc : c ∈ bs) (haddr : b.addr = c.addr) : b = c := by
  have hposb := (h.bounds hb).2.1
  have hposc := (h.bounds hc).2.1
  refine h.eq_of_mem hb hc (x := b.addr) ?_ ?_ <;> rw [Block.stop] <;> omega

lemma Tiles.sum_size {a e : ℕ} {bs : List (Block κ)} (h : Tiles a bs e) :
    a + (bs.map Block.size).sum = e := by
  induction bs generalizing a with
  | nil => simpa using h
  | cons b bs ih =>
    have hsum := ih h.2.2
    have ha := h.1
    rw [Block.stop] at hsum
    simp only [List.map_cons, List.sum_cons]
    omega

/-! ## Cutting and joining blocks -/

/-- The front of a block, cut off at `n`. -/
def Block.front (b : Block κ) (n : ℕ) (k : κ) : Block κ := ⟨b.addr, n, k⟩

/-- What is left of a block behind its first `n` bytes. -/
def Block.back (b : Block κ) (n : ℕ) (k : κ) : Block κ := ⟨b.addr + n, b.size - n, k⟩

def Block.withKind (b : Block κ) (k : κ) : Block κ := ⟨b.addr, b.size, k⟩

def Block.join (b c : Block κ) (k : κ) : Block κ := ⟨b.addr, b.size + c.size, k⟩

@[simp] lemma Block.withKind_addr (b : Block κ) (k : κ) : (b.withKind k).addr = b.addr := rfl

@[simp] lemma Block.withKind_size (b : Block κ) (k : κ) : (b.withKind k).size = b.size := rfl

@[simp] lemma Block.withKind_kind (b : Block κ) (k : κ) : (b.withKind k).kind = k := rfl

@[simp] lemma Block.withKind_stop (b : Block κ) (k : κ) : (b.withKind k).stop = b.stop := rfl

@[simp] lemma Block.join_size (b c : Block κ) (k : κ) : (b.join c k).size = b.size + c.size := rfl

lemma tiles_withKind {a e : ℕ} {l m : List (Block κ)} {b : Block κ} (k : κ) :
    Tiles a (l ++ b.withKind k :: m) e ↔ Tiles a (l ++ b :: m) e := by
  simp only [tiles_middle, Block.withKind_addr, Block.withKind_size, Block.withKind_stop]

lemma Tiles.cut {a e : ℕ} {l m : List (Block κ)} {b : Block κ} (h : Tiles a (l ++ b :: m) e)
    {n : ℕ} (hn : 0 < n) (hnb : n < b.size) (k k' : κ) :
    Tiles a (l ++ b.front n k :: b.back n k' :: m) e := by
  obtain ⟨hl, -, hm⟩ := tiles_middle.mp h
  refine tiles_middle.mpr ⟨hl, hn, rfl, Nat.sub_pos_of_lt hnb, ?_⟩
  have hstop : (b.back n k').stop = b.stop := by
    simp only [Block.stop, Block.back]
    omega
  rw [hstop]
  exact hm

lemma Tiles.glue {a e : ℕ} {l m : List (Block κ)} {b c : Block κ}
    (h : Tiles a (l ++ b :: c :: m) e) (k : κ) : Tiles a (l ++ b.join c k :: m) e := by
  obtain ⟨hl, hpos, hc, -, hm⟩ := tiles_middle.mp h
  refine tiles_middle.mpr ⟨hl, Nat.add_pos_left hpos _, ?_⟩
  have hstop : (b.join c k).stop = c.stop := by
    simp only [Block.stop, Block.join] at hc ⊢
    omega
  rw [hstop]
  exact hm

/-! ## Neighbours of one kind -/

/-- No two neighbours are both of the kind `k`. -/
def Coalesced (k : κ) (bs : List (Block κ)) : Prop :=
  bs.IsChain fun b c => ¬(b.kind = k ∧ c.kind = k)

/-- A block in the middle only asks for neighbours of another kind when it is of the kind `k`. -/
lemma coalesced_middle {k : κ} {l m : List (Block κ)} {b : Block κ} :
    Coalesced k (l ++ b :: m) ↔ Coalesced k l ∧ Coalesced k m ∧
      (b.kind = k → (∀ c ∈ l.getLast?, c.kind ≠ k) ∧ ∀ c ∈ m.head?, c.kind ≠ k) := by
  simp only [Coalesced, List.isChain_append, List.isChain_cons]
  constructor
  · rintro ⟨hl, ⟨hbm, hm⟩, hlb⟩
    exact ⟨hl, hm, fun hb => ⟨fun c hc hk => hlb c hc b rfl ⟨hk, hb⟩,
      fun c hc hk => hbm c hc ⟨hb, hk⟩⟩⟩
  · rintro ⟨hl, hm, hb⟩
    refine ⟨hl, ⟨fun c hc hk => (hb hk.1).2 c hc hk.2, hm⟩, fun c hc d hd hk => ?_⟩
    cases hd
    exact (hb hk.2).1 c hc hk.1

/-- A stretch that meets no block of another kind lies in a single block. -/
lemma Tiles.stretch {a e : ℕ} {k : κ} {bs : List (Block κ)} (h : Tiles a bs e)
    (hbs : Coalesced k bs) {x n : ℕ} (hn : 0 < n) (hax : a ≤ x) (hxe : x + n ≤ e)
    (hfree : ∀ b ∈ bs, b.kind ≠ k → b.stop ≤ x ∨ x + n ≤ b.addr) :
    ∃ b ∈ bs, b.kind = k ∧ b.addr ≤ x ∧ x + n ≤ b.stop := by
  induction bs generalizing a with
  | nil =>
    have ha : a = e := h
    omega
  | cons b bs ih =>
    obtain ⟨hb, hpos, hrest⟩ := h
    by_cases hx : b.stop ≤ x
    · obtain ⟨c, hc, hkind, hcx⟩ := ih hrest (List.IsChain.tail hbs) hx fun c hc hk =>
        hfree c (List.mem_cons_of_mem b hc) hk
      exact ⟨c, List.mem_cons_of_mem b hc, hkind, hcx⟩
    · have hkb : b.kind = k := by
        by_contra hk
        rcases hfree b List.mem_cons_self hk with hbx | hbx <;> omega
      refine ⟨b, List.mem_cons_self, hkb, by omega, ?_⟩
      -- the block behind `b` is of another kind, so the stretch ends before it
      cases bs with
      | nil =>
        have he : b.stop = e := hrest
        omega
      | cons c cs =>
        have hkc : c.kind ≠ k := fun hk => (List.isChain_cons_cons.mp hbs).1 ⟨hkb, hk⟩
        have hc := hrest.1
        have hcpos := hrest.2.1
        rcases hfree c (by simp) hkc with hcx | hcx
        · rw [Block.stop] at hcx
          omega
        · omega

end Tiling
