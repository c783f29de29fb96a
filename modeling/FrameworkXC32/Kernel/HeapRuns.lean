import FrameworkXC32.Kernel.HeapAlloc
import FrameworkXC32.Lib.Runs
import Mathlib.Order.Bounds.Basic
import Mathlib.Data.List.Perm.Basic

/-!
# Runs of the kernel's heap

Any number of tasks request memory, write into what they were given, and give it back, in any
order. Each call runs with the scheduler suspended, except for the first step of `vPortFree`,
between which and the second one other tasks may run.
-/

namespace FrameworkXC32
open LinkedHeap Tiling PortHeap

/-- The heap, what the tasks have been given (with the size that they asked for), and the
pointers whose `vPortFree` is between its two steps. -/
structure HeapUse where
  heap : PortHeap
  owned : List (ℕ × ℕ)
  leaving : List ℕ

inductive HeapOp
  | malloc (xWantedSize : ℕ)
  | calloc (xNum xSize : ℕ)
  | free (pv : ℕ)
  | release (pv : ℕ)
  | giveBack (pv : ℕ)
  | write (p : ℕ) (v : BlockLink)
deriving DecidableEq, Repr

namespace HeapUse

variable (L : HeapPlace) (fuel : ℕ)

/-- A request was answered with `p`. -/
def given (s : HeapUse) (n : ℕ) (answer : PortHeap × ℕ) : HeapUse :=
  ⟨answer.1, if answer.2 = 0 then s.owned else (answer.2, n) :: s.owned, s.leaving⟩

def released (s : HeapUse) (pv : ℕ) (h : PortHeap) : HeapUse :=
  ⟨h, s.owned.filter fun q => q.1 ≠ pv, pv :: s.leaving⟩

def returned (s : HeapUse) (pv : ℕ) (h : PortHeap) : HeapUse :=
  ⟨h, s.owned, s.leaving.filter fun p => p ≠ pv⟩

def step (s : HeapUse) : HeapOp → Option HeapUse
  | .malloc n => (pvPortMalloc L fuel n s.heap).map (s.given n)
  | .calloc a b => (pvPortCalloc L fuel a b s.heap).map (s.given (a * b))
  | .free pv => (vPortFree L fuel pv s.heap).map fun h =>
      { s with heap := h, owned := s.owned.filter fun q => q.1 ≠ pv }
  | .release pv => (vPortFreeRelease pv s.heap).map (s.released pv)
  | .giveBack pv => (vPortFreeInsert L fuel pv s.heap).map (s.returned pv)
  | .write p v => some { s with heap := s.heap.store p v }

/-- The tasks only give back what they were given, and only write into what they have. -/
def Allowed (s : HeapUse) : HeapOp → Prop
  | .malloc _ => True
  | .calloc _ _ => True
  | .free pv => pv = 0 ∨ pv ∈ s.owned.map Prod.fst
  | .release pv => pv ∈ s.owned.map Prod.fst
  | .giveBack pv => pv ∈ s.leaving
  | .write p _ => 8 ∣ p ∧ ∃ q ∈ s.owned, q.1 ≤ p ∧ p < q.1 + q.2

instance (s : HeapUse) : DecidablePred (Allowed s)
  | .malloc _ => inferInstanceAs (Decidable True)
  | .calloc _ _ => inferInstanceAs (Decidable True)
  | .free pv => inferInstanceAs (Decidable (pv = 0 ∨ pv ∈ s.owned.map Prod.fst))
  | .release pv => inferInstanceAs (Decidable (pv ∈ s.owned.map Prod.fst))
  | .giveBack pv => inferInstanceAs (Decidable (pv ∈ s.leaving))
  | .write p _ => inferInstanceAs (Decidable (8 ∣ p ∧ ∃ q ∈ s.owned, q.1 ≤ p ∧ p < q.1 + q.2))

/-- Before the first request, whatever the memory holds. -/
def boot (h : PortHeap) : HeapUse := ⟨h, [], []⟩

/-- The blocks that are not free are those of the tasks. -/
structure Owns (bs : List HeapBlock) (s : HeapUse) : Prop where
  used : ∀ q ∈ s.owned, ∃ d ∈ bs, d.kind = .used ∧ d.addr + 8 = q.1 ∧ q.2 + 8 ≤ d.size
  owned : ∀ d ∈ bs, d.kind = .used → d.addr + 8 ∈ s.owned.map Prod.fst
  releasing : ∀ p ∈ s.leaving, ∃ d ∈ bs, d.kind = .releasing ∧ d.addr + 8 = p
  leaving : ∀ d ∈ bs, d.kind = .releasing → d.addr + 8 ∈ s.leaving
  nodup : (s.owned.map Prod.fst).Nodup
  nodup_leaving : s.leaving.Nodup

def Tracked (s : HeapUse) : Prop :=
  (s.heap.pxEnd = 0 ∧ s.owned = [] ∧ s.leaving = []) ∨
    ∃ bs, Holds L bs s.heap ∧ Owns bs s

variable {L fuel} {s t : HeapUse} {bs pre post : List HeapBlock} {b : HeapBlock} {n : ℕ}

/-! ## Requests -/

lemma malloc_of_boot {h : PortHeap} (hend : h.pxEnd = 0) :
    pvPortMalloc L fuel n h = pvPortMalloc L fuel n (prvHeapInit L h) := by
  have hne := (holds_init (L := L) h).shape.pxEnd_ne
  simp only [pvPortMalloc, if_pos hend, if_neg hne]

lemma owns_init (h : PortHeap) : Owns [wholeHeap L] (boot h) := by
  refine ⟨by simp [boot], fun d hd hk => ?_, by simp [boot], fun d hd hk => ?_, by simp [boot],
    by simp [boot]⟩
  all_goals
    rw [List.mem_singleton.mp hd] at hk
    simp [wholeHeap] at hk

/-- What has been handed out and is not in the free list again. -/
def inUse (s : HeapUse) : List ℕ := s.owned.map Prod.fst ++ s.leaving

/-- A heap in use is one with a row of blocks, or turns into one with the next request. -/
lemma Tracked.exists_row (ht : Tracked L s) (fuel : ℕ) : ∃ h bs,
    (∀ n, pvPortMalloc L fuel n s.heap = pvPortMalloc L fuel n h) ∧ Holds L bs h ∧ Owns bs s ∧
      ∀ pv ∈ s.inUse, h = s.heap := by
  rcases ht with ⟨hend, howned, hleaving⟩ | ⟨bs, hholds, howns⟩
  · refine ⟨_, _, fun n => malloc_of_boot hend, holds_init s.heap, ?_, ?_⟩
    · have howns := owns_init (L := L) s.heap
      rw [show s = boot s.heap by rw [boot, ← howned, ← hleaving]]
      exact howns
    · simp [inUse, howned, hleaving]
  · exact ⟨s.heap, bs, fun _ => rfl, hholds, howns, fun _ _ => rfl⟩

lemma Owns.given_none (ho : Owns bs s) (h : PortHeap) : Owns bs (s.given n (h, 0)) :=
  ⟨ho.used, ho.owned, ho.releasing, ho.leaving, ho.nodup, ho.nodup_leaving⟩

lemma Owns.given_some {h h' : PortHeap} {bs' : List HeapBlock} {size : ℕ} (ho : Owns bs s)
    (hh : Holds L bs h) (hb : b ∈ bs) (hk : b.kind = .free) (ht : Taken L bs b size h h' bs')
    (hn : n + 8 ≤ size) : Owns bs' (s.given n (h', b.addr + 8)) := by
  have hgiven : (s.given n (h', b.addr + 8)).owned = (b.addr + 8, n) :: s.owned := by
    rw [given, if_neg (by simp)]
  refine ⟨?_, ?_, ?_, ?_, ?_, ho.nodup_leaving⟩
  · rw [hgiven]
    intro q hq
    rcases List.mem_cons.mp hq with rfl | hq
    · exact ⟨⟨b.addr, size, .used⟩, (ht.inUse _ (by simp)).mpr (Or.inl rfl), rfl, rfl, hn⟩
    · obtain ⟨d, hd, hdk, hdq⟩ := ho.used q hq
      exact ⟨d, (ht.inUse d (by simp [hdk])).mpr (Or.inr hd), hdk, hdq⟩
  · rw [hgiven]
    intro d hd hdk
    rcases (ht.inUse d (by simp [hdk])).mp hd with rfl | hd
    · simp
    · exact List.mem_cons_of_mem _ (ho.owned d hd hdk)
  · intro p hp
    obtain ⟨d, hd, hdk, hdp⟩ := ho.releasing p hp
    exact ⟨d, (ht.inUse d (by simp [hdk])).mpr (Or.inr hd), hdk, hdp⟩
  · intro d hd hdk
    rcases (ht.inUse d (by simp [hdk])).mp hd with rfl | hd
    · simp at hdk
    · exact ho.leaving d hd hdk
  · rw [hgiven, List.map_cons, List.nodup_cons]
    refine ⟨fun hmem => ?_, ho.nodup⟩
    obtain ⟨q, hq, hqb⟩ := List.mem_map.mp hmem
    obtain ⟨d, hd, hdk, hdq, -⟩ := ho.used q hq
    -- a block in use and a free one do not start at one address
    have heq : d = b := hh.shape.tiles.eq_of_addr hd hb (by omega)
    rw [heq, hk] at hdk
    exact absurd hdk (by decide)

lemma Tracked.malloc (ht : Tracked L s) (hfuel : 4096 ≤ fuel) (n : ℕ) :
    ∃ answer, pvPortMalloc L fuel n s.heap = some answer ∧ Tracked L (s.given n answer) := by
  obtain ⟨h, bs, hmalloc, hholds, howns, -⟩ := ht.exists_row fuel
  rw [hmalloc n]
  by_cases hfit : 0 < wantedBlockSize n ∧
      ∃ b ∈ bs, b.kind = .free ∧ wantedBlockSize n ≤ b.size
  · obtain ⟨pre, b, post, h', bs', size, rfl, hk, -, -, hanswer, htaken, hsize, -⟩ :=
      hholds.malloc_fit hfit.1 hfit.2 hfuel
    obtain ⟨-, -, hn⟩ := (wantedBlockSize_spec n).resolve_left hfit.1.ne'
    exact ⟨_, hanswer, Or.inr ⟨bs', htaken.holds,
      howns.given_some hholds (by simp) hk htaken (hn.trans hsize)⟩⟩
  · exact ⟨_, hholds.malloc_none (size_lt_of_not_fit hfit) hfuel,
      Or.inr ⟨bs, hholds, howns.given_none h⟩⟩

/-! ## Returns -/

lemma Owns.block_of (ho : Owns bs s) {pv : ℕ} (hpv : pv ∈ s.owned.map Prod.fst) :
    ∃ pre d post, bs = pre ++ d :: post ∧ d.kind = .used ∧ d.addr + 8 = pv := by
  obtain ⟨q, hq, rfl⟩ := List.mem_map.mp hpv
  obtain ⟨d, hd, hk, hdq, -⟩ := ho.used q hq
  obtain ⟨pre, post, rfl⟩ := List.append_of_mem hd
  exact ⟨pre, d, post, rfl, hk, hdq⟩

lemma Owns.leaving_block (ho : Owns bs s) {pv : ℕ} (hpv : pv ∈ s.leaving) :
    ∃ pre d post, bs = pre ++ d :: post ∧ d.kind = .releasing ∧ d.addr + 8 = pv := by
  obtain ⟨d, hd, hk, hdp⟩ := ho.releasing pv hpv
  obtain ⟨pre, post, rfl⟩ := List.append_of_mem hd
  exact ⟨pre, d, post, rfl, hk, hdp⟩

lemma Owns.released {h h' : PortHeap} (ho : Owns (pre ++ b :: post) s)
    (hs : Shape L (pre ++ b :: post) h) (hk : b.kind = .used) :
    Owns (pre ++ b.withKind .releasing :: post) (s.released (b.addr + 8) h') := by
  refine ⟨?_, ?_, ?_, ?_, ?_, ?_⟩
  · intro q hq
    obtain ⟨hq, hne⟩ := List.mem_filter.mp hq
    obtain ⟨d, hd, hdk, hdq, hsize⟩ := ho.used q hq
    rcases eq_or_mem_sides hd with rfl | hd
    · exact absurd hdq.symm (by simpa using hne)
    · exact ⟨d, mem_of_mem_sides hd, hdk, hdq, hsize⟩
  · intro d hd hdk
    rcases eq_or_mem_sides hd with rfl | hd
    · simp at hdk
    · obtain ⟨q, hq, hqd⟩ := List.mem_map.mp (ho.owned d (mem_of_mem_sides hd) hdk)
      refine List.mem_map.mpr ⟨q, List.mem_filter.mpr ⟨hq, ?_⟩, hqd⟩
      have hne := hs.addr_ne hd
      simp only [decide_eq_true_eq]
      omega
  · intro p hp
    rcases List.mem_cons.mp hp with rfl | hp
    · exact ⟨b.withKind .releasing, by simp, rfl, rfl⟩
    · obtain ⟨d, hd, hdk, hdp⟩ := ho.releasing p hp
      rcases eq_or_mem_sides hd with rfl | hd
      · exact absurd (hk.symm.trans hdk) (by decide)
      · exact ⟨d, mem_of_mem_sides hd, hdk, hdp⟩
  · intro d hd hdk
    rcases eq_or_mem_sides hd with rfl | hd
    · exact List.mem_cons_self
    · exact List.mem_cons_of_mem _ (ho.leaving d (mem_of_mem_sides hd) hdk)
  · exact ho.nodup.sublist (List.Sublist.map _ List.filter_sublist)
  · refine List.nodup_cons.mpr ⟨fun hmem => ?_, ho.nodup_leaving⟩
    obtain ⟨d, hd, hdk, hdp⟩ := ho.releasing _ hmem
    have heq : d = b := hs.tiles.eq_of_addr hd (by simp) (by omega)
    rw [heq, hk] at hdk
    exact absurd hdk (by decide)

lemma Owns.returned {h h' : PortHeap} {bs' : List HeapBlock} (ho : Owns (pre ++ b :: post) s)
    (hs : Shape L (pre ++ b :: post) h) (hk : b.kind = .releasing)
    (hsame : SameInUse bs' (pre ++ post)) : Owns bs' (s.returned (b.addr + 8) h') := by
  refine ⟨?_, ?_, ?_, ?_, ho.nodup, ho.nodup_leaving.filter _⟩
  · intro q hq
    obtain ⟨d, hd, hdk, hdq⟩ := ho.used q hq
    rcases eq_or_mem_sides hd with rfl | hd
    · exact absurd (hk.symm.trans hdk) (by decide)
    · exact ⟨d, (hsame d (by simp [hdk])).mpr hd, hdk, hdq⟩
  · intro d hd hdk
    exact ho.owned d (mem_of_mem_sides ((hsame d (by simp [hdk])).mp hd)) hdk
  · intro p hp
    obtain ⟨hp, hne⟩ := List.mem_filter.mp hp
    obtain ⟨d, hd, hdk, hdp⟩ := ho.releasing p hp
    rcases eq_or_mem_sides hd with rfl | hd
    · exact absurd hdp.symm (by simpa using hne)
    · exact ⟨d, (hsame d (by simp [hdk])).mpr hd, hdk, hdp⟩
  · intro d hd hdk
    have hside := (hsame d (by simp [hdk])).mp hd
    refine List.mem_filter.mpr ⟨ho.leaving d (mem_of_mem_sides hside) hdk, ?_⟩
    have hne := hs.addr_ne hside
    simp only [decide_eq_true_eq]
    omega

lemma returned_released {pv : ℕ} (hpv : pv ∉ s.leaving) (h h' : PortHeap) :
    (s.released pv h).returned pv h' =
      { s with heap := h', owned := s.owned.filter fun q => q.1 ≠ pv } := by
  have hfilter : (pv :: s.leaving).filter (fun p => p ≠ pv) = s.leaving := by
    rw [List.filter_cons_of_neg (by simp)]
    refine List.filter_eq_self.mpr fun p hp => ?_
    simpa using fun hpp : p = pv => hpv (hpp ▸ hp)
  rw [returned, HeapUse.released, hfilter]

lemma Tracked.row_of_owned (ht : Tracked L s) {pv : ℕ} (hpv : pv ∈ s.owned.map Prod.fst) :
    ∃ bs, Holds L bs s.heap ∧ Owns bs s := by
  rcases ht with ⟨-, howned, -⟩ | hrow
  · simp [howned] at hpv
  · exact hrow

lemma Tracked.row_of_leaving (ht : Tracked L s) {pv : ℕ} (hpv : pv ∈ s.leaving) :
    ∃ bs, Holds L bs s.heap ∧ Owns bs s := by
  rcases ht with ⟨-, -, hleaving⟩ | hrow
  · simp [hleaving] at hpv
  · exact hrow

lemma Tracked.release (ht : Tracked L s) {pv : ℕ} (hpv : pv ∈ s.owned.map Prod.fst) :
    ∃ h', vPortFreeRelease pv s.heap = some h' ∧ Tracked L (s.released pv h') := by
  obtain ⟨bs, hholds, howns⟩ := ht.row_of_owned hpv
  obtain ⟨pre, d, post, rfl, hk, rfl⟩ := howns.block_of hpv
  obtain ⟨h', hrelease, hholds', -⟩ := hholds.release hk
  exact ⟨h', hrelease, Or.inr ⟨_, hholds', howns.released hholds.shape hk⟩⟩

lemma Tracked.giveBack (ht : Tracked L s) {pv : ℕ} (hpv : pv ∈ s.leaving)
    (hfuel : 4096 ≤ fuel) :
    ∃ h', vPortFreeInsert L fuel pv s.heap = some h' ∧ Tracked L (s.returned pv h') := by
  obtain ⟨bs, hholds, howns⟩ := ht.row_of_leaving hpv
  obtain ⟨pre, d, post, rfl, hk, rfl⟩ := howns.leaving_block hpv
  obtain ⟨h', bs', hinsert, hholds', hsame, -⟩ := hholds.giveBack hk hfuel
  exact ⟨h', hinsert, Or.inr ⟨bs', hholds', howns.returned hholds.shape hk hsame⟩⟩

lemma Tracked.notMem_leaving (ht : Tracked L s) {pv : ℕ} (hpv : pv ∈ s.owned.map Prod.fst) :
    pv ∉ s.leaving := by
  obtain ⟨bs, hholds, howns⟩ := ht.row_of_owned hpv
  obtain ⟨pre, d, post, rfl, hk, rfl⟩ := howns.block_of hpv
  intro hmem
  obtain ⟨e, he, hek, hed⟩ := howns.releasing _ hmem
  have heq : e = d := hholds.shape.tiles.eq_of_addr he (by simp) (by omega)
  rw [heq, hk] at hek
  exact absurd hek (by decide)

lemma Tracked.owned_pos (ht : Tracked L s) {q : ℕ × ℕ} (hq : q ∈ s.owned) : q.1 ≠ 0 := by
  obtain ⟨bs, -, howns⟩ := ht.row_of_owned (List.mem_map_of_mem hq)
  obtain ⟨d, -, -, hdq, -⟩ := howns.used q hq
  omega

lemma Tracked.free (ht : Tracked L s) {pv : ℕ} (hpv : pv = 0 ∨ pv ∈ s.owned.map Prod.fst)
    (hfuel : 4096 ≤ fuel) : ∃ h', vPortFree L fuel pv s.heap = some h' ∧
      Tracked L { s with heap := h', owned := s.owned.filter fun q => q.1 ≠ pv } := by
  rcases hpv with rfl | hpv
  · have hfilter : s.owned.filter (fun q => q.1 ≠ 0) = s.owned :=
      List.filter_eq_self.mpr fun q hq => by simpa using ht.owned_pos hq
    refine ⟨s.heap, by simp [vPortFree], ?_⟩
    rw [hfilter]
    exact ht
  · obtain ⟨h₁, hrelease, ht₁⟩ := ht.release hpv
    have hleaving : pv ∈ (s.released pv h₁).leaving := List.mem_cons_self
    obtain ⟨h₂, hinsert, ht₂⟩ := ht₁.giveBack hleaving hfuel
    rw [returned_released (ht.notMem_leaving hpv)] at ht₂
    have hne : pv ≠ 0 := by
      obtain ⟨q, hq, rfl⟩ := List.mem_map.mp hpv
      exact ht.owned_pos hq
    refine ⟨h₂, ?_, ht₂⟩
    rw [vPortFree, if_pos hne, hrelease]
    exact hinsert

lemma Tracked.write (ht : Tracked L s) {p : ℕ} {v : BlockLink} {q : ℕ × ℕ} (hq : q ∈ s.owned)
    (hp : q.1 ≤ p ∧ p < q.1 + q.2) : Tracked L { s with heap := s.heap.store p v } := by
  obtain ⟨bs, hholds, howns⟩ := ht.row_of_owned (List.mem_map_of_mem hq)
  obtain ⟨d, hd, hk, hdq, hsize⟩ := howns.used q hq
  obtain ⟨pre, post, rfl⟩ := List.append_of_mem hd
  refine Or.inr ⟨_, hholds.store_inside (by omega) (by rw [Block.stop]; omega), ?_⟩
  exact ⟨howns.used, howns.owned, howns.releasing, howns.leaving, howns.nodup,
    howns.nodup_leaving⟩

/-- Every call of a run comes back, and leaves a heap with a row of blocks. -/
theorem Tracked.step_some (ht : Tracked L s) {op : HeapOp} (hop : Allowed s op)
    (hfuel : 4096 ≤ fuel) : ∃ t, step L fuel s op = some t ∧ Tracked L t := by
  cases op with
  | malloc n =>
    obtain ⟨answer, hanswer, ht'⟩ := ht.malloc hfuel n
    exact ⟨_, by rw [step, hanswer, Option.map_some], ht'⟩
  | calloc a b =>
    rw [step, pvPortCalloc]
    by_cases hover : heapMultiplyWillOverflow a b
    · rw [if_pos hover]
      exact ⟨_, rfl, ht⟩
    · obtain ⟨answer, hanswer, ht'⟩ := ht.malloc hfuel (a * b)
      exact ⟨_, by rw [if_neg hover, hanswer, Option.map_some], ht'⟩
  | free pv =>
    obtain ⟨h', hfree, ht'⟩ := ht.free hop hfuel
    exact ⟨_, by rw [step, hfree, Option.map_some], ht'⟩
  | release pv =>
    obtain ⟨h', hrelease, ht'⟩ := ht.release hop
    exact ⟨_, by rw [step, hrelease, Option.map_some], ht'⟩
  | giveBack pv =>
    obtain ⟨h', hinsert, ht'⟩ := ht.giveBack hop hfuel
    exact ⟨_, by rw [step, hinsert, Option.map_some], ht'⟩
  | write p v =>
    obtain ⟨-, q, hq, hp⟩ := hop
    exact ⟨_, rfl, ht.write hq hp⟩

lemma tracked_boot {h : PortHeap} (hend : h.pxEnd = 0) : Tracked L (boot h) :=
  Or.inl ⟨hend, rfl, rfl⟩

/-- What the tasks have lies in the heap, is aligned, and does not overlap. -/
lemma Tracked.disjoint (ht : Tracked L s) :
    (∀ q ∈ s.owned, 8 ∣ q.1 ∧ L.ucHeap ≤ q.1 ∧ q.1 + q.2 ≤ L.ucHeap + configTotalHeapSize) ∧
      s.owned.Pairwise fun q r => q.1 + q.2 ≤ r.1 ∨ r.1 + r.2 ≤ q.1 := by
  rcases ht with ⟨-, howned, -⟩ | ⟨bs, hholds, howns⟩
  · simp [howned]
  constructor
  · intro q hq
    obtain ⟨d, hd, -, hdq, hsize⟩ := howns.used q hq
    obtain ⟨haddr, -, -⟩ := hholds.shape.wellSized d hd
    have hbounds := hholds.shape.bounds hd
    have hstart := HeapPlace.ucHeap_le_start (L := L)
    have hstop := HeapPlace.stop_le (L := L)
    exact ⟨by omega, by omega, by omega⟩
  · have hnodup := List.pairwise_map.mp howns.nodup
    refine hnodup.imp_of_mem fun {q r} hq hr hne => ?_
    obtain ⟨d, hd, -, hdq, hdsize⟩ := howns.used q hq
    obtain ⟨e, he, -, her, hesize⟩ := howns.used r hr
    have hde : d ≠ e := by
      rintro rfl
      exact hne (by omega)
    have hapart := hholds.shape.tiles.apart hd he hde
    rw [Block.stop, Block.stop] at hapart
    omega

/-- In every run of requests, returns and writes of any number of tasks, whose calls of
`vPortFree` may be interrupted, each call comes back, and what the tasks have at any time are
aligned stretches of `ucHeap` that do not overlap. -/
theorem heap_shares_out {h : PortHeap} {ops : List HeapOp} (hend : h.pxEnd = 0)
    (hops : Runs.Guarded (step L fuel) Allowed (boot h) ops) (hfuel : 4096 ≤ fuel) :
    ∃ s, Runs.run (step L fuel) (boot h) ops = some s ∧
      (∀ q ∈ s.owned, 8 ∣ q.1 ∧ L.ucHeap ≤ q.1 ∧ q.1 + q.2 ≤ L.ucHeap + configTotalHeapSize) ∧
      s.owned.Pairwise fun q r => q.1 + q.2 ≤ r.1 ∨ r.1 + r.2 ≤ q.1 := by
  obtain ⟨s, hrun, ht⟩ := Runs.run_progress (fun s op hs hop => Tracked.step_some hs hop hfuel)
    (tracked_boot hend) hops
  exact ⟨s, hrun, ht.disjoint⟩

/-- A `ucHeap` that the linker has not aligned. -/
def misalignedPlace : HeapPlace :=
  ⟨0x80000104, 0x80000020, by decide, by decide, by decide, by decide⟩

def powerOn : PortHeap := ⟨fun _ => ⟨0xDEAD, 0xBEEF⟩, 0, 0, 0, 0, 0⟩

/-- A block is given back while another task requests one. -/
def interruptedReturn : List HeapOp :=
  [.malloc 24, .calloc 5 20, .write 0x80000110 ⟨1, 2⟩, .release 0x80000110, .malloc 7,
    .giveBack 0x80000110]

theorem interruptedReturn_shares_out :
    ∃ s, Runs.run (step misalignedPlace 4096) (boot powerOn) interruptedReturn = some s ∧
      (∀ q ∈ s.owned, 8 ∣ q.1 ∧ misalignedPlace.ucHeap ≤ q.1 ∧
        q.1 + q.2 ≤ misalignedPlace.ucHeap + configTotalHeapSize) ∧
      s.owned.Pairwise fun q r => q.1 + q.2 ≤ r.1 ∨ r.1 + r.2 ≤ q.1 :=
  heap_shares_out rfl (by decide +kernel) (by decide)

end HeapUse

end FrameworkXC32
