import FrameworkXC32.Kernel.HeapRuns
import Mathlib.Algebra.BigOperators.Group.List.Basic

/-!
# What the heap can serve

A request is given the lowest stretch of the heap that is free and large enough, and is refused
only when there is none; the counter of free bytes is what the blocks in use leave over, and the
other counter is its least value so far.
-/

namespace FrameworkXC32
open LinkedHeap Tiling PortHeap

namespace HeapUse

variable {L : HeapPlace} {fuel : ℕ} {s t : HeapUse} {bs pre post : List HeapBlock}
  {b : HeapBlock} {h h' : PortHeap} {w n : ℕ}

/-- The size of the block, header and padding included, that was handed out as `pv`. -/
def blockSize (h : PortHeap) (pv : ℕ) : ℕ := (h.mem (pv - 8)).xBlockSize % 2 ^ 31

/-- Where a block of the size `w` fits: the bytes from `x` on belong to no block in use. -/
def Fits (L : HeapPlace) (s : HeapUse) (w : ℕ) : Set ℕ :=
  {x | L.start ≤ x ∧ x + w ≤ L.stop ∧
    ∀ pv ∈ s.inUse, pv - 8 + blockSize s.heap pv ≤ x ∨ x + w ≤ pv - 8}

lemma blockSize_of_header (hs : Shape L bs h) (hb : b ∈ bs) :
    blockSize h (b.addr + 8) = b.size := by
  have hlt := hs.size_lt hb
  have hhead := hs.header b hb
  rw [blockSize, Nat.add_sub_cancel]
  by_cases hk : b.kind = .used
  · rw [Header, hk] at hhead
    rw [hhead, Nat.add_mod_right, Nat.mod_eq_of_lt (by omega)]
  · rw [hhead.size hk, Nat.mod_eq_of_lt (by omega)]

lemma Owns.mem_inUse (ho : Owns bs s) {pv : ℕ} :
    pv ∈ s.inUse ↔ ∃ d ∈ bs, d.kind ≠ .free ∧ d.addr + 8 = pv := by
  rw [inUse, List.mem_append]
  constructor
  · rintro (hpv | hpv)
    · obtain ⟨q, hq, rfl⟩ := List.mem_map.mp hpv
      obtain ⟨d, hd, hk, hdq, -⟩ := ho.used q hq
      exact ⟨d, hd, by simp [hk], hdq⟩
    · obtain ⟨d, hd, hk, hdp⟩ := ho.releasing pv hpv
      exact ⟨d, hd, by simp [hk], hdp⟩
  · rintro ⟨d, hd, hk, rfl⟩
    cases hkind : d.kind with
    | free => exact absurd hkind hk
    | used => exact Or.inl (ho.owned d hd hkind)
    | releasing => exact Or.inr (ho.leaving d hd hkind)

/-! ## First fit -/

lemma mem_fits_iff (hs : Shape L bs h) (ho : Owns bs s) (hheap : ∀ pv ∈ s.inUse, h = s.heap)
    {x : ℕ} : x ∈ Fits L s w ↔ L.start ≤ x ∧ x + w ≤ L.stop ∧
      ∀ d ∈ bs, d.kind ≠ .free → d.stop ≤ x ∨ x + w ≤ d.addr := by
  refine and_congr_right fun _ => and_congr_right fun _ => ⟨fun hout d hd hk => ?_,
    fun hout pv hpv => ?_⟩
  · have hpv := ho.mem_inUse.mpr ⟨d, hd, hk, rfl⟩
    have hsize := hout _ hpv
    rw [← hheap _ hpv, blockSize_of_header hs hd, Nat.add_sub_cancel] at hsize
    exact hsize
  · obtain ⟨d, hd, hk, rfl⟩ := ho.mem_inUse.mp hpv
    rw [← hheap _ hpv, blockSize_of_header hs hd, Nat.add_sub_cancel]
    exact hout d hd hk

lemma isLeast_fits (hh : Holds L (pre ++ b :: post) h) (ho : Owns (pre ++ b :: post) s)
    (hheap : ∀ pv ∈ s.inUse, h = s.heap) (hk : b.kind = .free) (hw : 0 < w) (hb : w ≤ b.size)
    (hpre : ∀ d ∈ pre, d.kind = .free → d.size < w) : IsLeast (Fits L s w) b.addr := by
  have hbm : b ∈ pre ++ b :: post := by simp
  have hbounds := hh.shape.bounds hbm
  constructor
  · refine (mem_fits_iff hh.shape ho hheap).mpr ⟨hbounds.1, by omega, fun d hd hkd => ?_⟩
    have hne : d ≠ b := by
      rintro rfl
      exact hkd hk
    have hapart := hh.shape.tiles.apart hd hbm hne
    have hstop : b.stop = b.addr + b.size := rfl
    omega
  · intro x hx
    obtain ⟨hlow, hhigh, hout⟩ := (mem_fits_iff hh.shape ho hheap).mp hx
    -- the stretch lies in a free block, which is not before `b`
    obtain ⟨c, hc, hkc, hcx, hxc⟩ := hh.shape.tiles.stretch hh.coalesced hw hlow hhigh hout
    rw [Block.stop] at hxc
    rcases eq_or_mem_sides hc with rfl | hc
    · exact hcx
    · rcases List.mem_append.mp hc with hc | hc
      · have hsmall := hpre c hc hkc
        omega
      · have hle := hh.shape.stop_le_of_mem_right hc
        rw [Block.stop] at hle
        omega

lemma fits_eq_empty (hh : Holds L bs h) (ho : Owns bs s) (hheap : ∀ pv ∈ s.inUse, h = s.heap)
    (hw : 0 < w) (hsmall : ∀ d ∈ bs, d.kind = .free → d.size < w) : Fits L s w = ∅ := by
  refine Set.eq_empty_iff_forall_notMem.mpr fun x hx => ?_
  obtain ⟨hlow, hhigh, hout⟩ := (mem_fits_iff hh.shape ho hheap).mp hx
  obtain ⟨c, hc, hkc, hcx, hxc⟩ := hh.shape.tiles.stretch hh.coalesced hw hlow hhigh hout
  have hlt := hsmall c hc hkc
  rw [Block.stop] at hxc
  omega

lemma Tracked.first_fit (ht : Tracked L s) (hfuel : 4096 ≤ fuel) (n : ℕ) :
    ∃ h' p, pvPortMalloc L fuel n s.heap = some (h', p) ∧
      (p = 0 ↔ wantedBlockSize n = 0 ∨ Fits L s (wantedBlockSize n) = ∅) ∧
      (p ≠ 0 → IsLeast (Fits L s (wantedBlockSize n)) (p - 8)) := by
  obtain ⟨h, bs, hmalloc, hholds, howns, hheap⟩ := ht.exists_row fuel
  rw [hmalloc n]
  by_cases hfit : 0 < wantedBlockSize n ∧
      ∃ b ∈ bs, b.kind = .free ∧ wantedBlockSize n ≤ b.size
  · obtain ⟨pre, b, post, h', bs', size, rfl, hk, hb, hpre, hanswer, -, -, -⟩ :=
      hholds.malloc_fit hfit.1 hfit.2 hfuel
    have hleast := isLeast_fits hholds howns hheap hk hfit.1 hb hpre
    refine ⟨h', _, hanswer, ⟨fun h0 => by omega, ?_⟩, fun _ => by rwa [Nat.add_sub_cancel]⟩
    rintro (h0 | hempty)
    · omega
    · have hmem := hleast.1
      rw [hempty] at hmem
      exact absurd hmem (Set.notMem_empty _)
  · have hnone : wantedBlockSize n = 0 ∨
        ∀ b ∈ bs, b.kind = .free → b.size < wantedBlockSize n := size_lt_of_not_fit hfit
    refine ⟨h, 0, hholds.malloc_none hnone hfuel, ⟨fun _ => ?_, fun _ => rfl⟩,
      fun h0 => absurd rfl h0⟩
    by_cases hw : wantedBlockSize n = 0
    · exact Or.inl hw
    · exact Or.inr (fits_eq_empty hholds howns hheap (Nat.pos_of_ne_zero hw)
        (hnone.resolve_left hw))

/-- A request is refused only when no stretch of the heap that is large enough is free, and is
otherwise given the one at the lowest address: the blocks given back in any order never leave
the heap more fragmented than the blocks in use make it. -/
theorem malloc_first_fit {ops : List HeapOp} (hend : h.pxEnd = 0)
    (hops : Runs.Guarded (step L fuel) Allowed (boot h) ops) (hfuel : 4096 ≤ fuel)
    (hs : Runs.run (step L fuel) (boot h) ops = some s) (n : ℕ) :
    ∃ h' p, pvPortMalloc L fuel n s.heap = some (h', p) ∧
      (p = 0 ↔ wantedBlockSize n = 0 ∨ Fits L s (wantedBlockSize n) = ∅) ∧
      (p ≠ 0 → IsLeast (Fits L s (wantedBlockSize n)) (p - 8)) := by
  obtain ⟨s', hs', ht⟩ := Runs.run_progress (fun s op hs hop => Tracked.step_some hs hop hfuel)
    (tracked_boot hend) hops
  rw [hs] at hs'
  cases hs'
  exact ht.first_fit hfuel n

theorem interruptedReturn_first_fit :
    ∃ s, Runs.run (step misalignedPlace 4096) (boot powerOn) interruptedReturn = some s ∧
      ∃ h' p, pvPortMalloc misalignedPlace 4096 16 s.heap = some (h', p) ∧
        (p = 0 ↔ wantedBlockSize 16 = 0 ∨
          Fits misalignedPlace s (wantedBlockSize 16) = ∅) ∧
        (p ≠ 0 → IsLeast (Fits misalignedPlace s (wantedBlockSize 16)) (p - 8)) := by
  have hsome : (Runs.run (step misalignedPlace 4096) (boot powerOn) interruptedReturn).isSome := by
    decide +kernel
  obtain ⟨s, hs⟩ := Option.isSome_iff_exists.mp hsome
  exact ⟨s, hs, malloc_first_fit rfl (by decide +kernel) (by decide) hs 16⟩

/-! ## The counters -/

lemma freeSize_add_inUse (ht : Tiles L.start bs L.stop) :
    freeSize bs + ((bs.filter fun b => b.kind ≠ .free).map Block.size).sum =
      L.stop - L.start := by
  have hsum := ht.sum_size
  have hsplit : freeSize bs + ((bs.filter fun b => b.kind ≠ .free).map Block.size).sum =
      (bs.map Block.size).sum := by
    clear hsum ht
    induction bs with
    | nil => rfl
    | cons b bs ih =>
      by_cases hk : b.kind = .free
      · rw [freeSize_cons_free hk, List.filter_cons_of_neg (by simp [hk]), List.map_cons,
          List.sum_cons]
        omega
      · rw [freeSize_cons_of_ne hk, List.filter_cons_of_pos (by simp [hk]), List.map_cons,
          List.sum_cons, List.map_cons, List.sum_cons]
        omega
  omega

lemma Owns.nodup_inUse (ho : Owns bs s) (hs : Shape L bs h) : s.inUse.Nodup := by
  refine List.nodup_append.mpr ⟨ho.nodup, ho.nodup_leaving, ?_⟩
  rintro a ha c hc rfl
  obtain ⟨q, hq, rfl⟩ := List.mem_map.mp ha
  obtain ⟨d, hd, hk, hdq, -⟩ := ho.used q hq
  obtain ⟨e, he, hke, heq⟩ := ho.releasing _ hc
  have hde : d = e := hs.tiles.eq_of_addr hd he (by omega)
  rw [hde, hke] at hk
  exact absurd hk (by decide)

lemma Owns.sum_inUse (ho : Owns bs s) (hs : Shape L bs h) :
    (s.inUse.map (blockSize h)).sum =
      ((bs.filter fun b => b.kind ≠ .free).map Block.size).sum := by
  have hperm : s.inUse.Perm ((bs.filter fun b => b.kind ≠ .free).map fun b => b.addr + 8) := by
    refine (List.perm_ext_iff_of_nodup (ho.nodup_inUse hs) ?_).mpr fun pv => ?_
    · refine List.pairwise_map.mpr (List.Pairwise.filter _ (hs.tiles.addr_sorted.imp ?_))
      intro a c hlt heq
      omega
    · rw [ho.mem_inUse, List.mem_map]
      constructor
      · rintro ⟨d, hd, hk, hdp⟩
        exact ⟨d, List.mem_filter.mpr ⟨hd, by simpa using hk⟩, hdp⟩
      · rintro ⟨d, hd, hdp⟩
        obtain ⟨hd, hk⟩ := List.mem_filter.mp hd
        exact ⟨d, hd, by simpa using hk, hdp⟩
  rw [(hperm.map (blockSize h)).sum_eq, List.map_map]
  congr 1
  refine List.map_congr_left fun d hd => ?_
  exact blockSize_of_header hs (List.mem_filter.mp hd).1

lemma Tracked.row_of_end (ht : Tracked L s) (hend : s.heap.pxEnd ≠ 0) :
    ∃ bs, Holds L bs s.heap ∧ Owns bs s :=
  ht.resolve_left fun h0 => hend h0.1

lemma malloc_minimum (hh : Holds L bs h) (hfuel : 4096 ≤ fuel)
    (hle : h.xMinimumEverFreeBytesRemaining ≤ h.xFreeBytesRemaining) {p : ℕ}
    (hm : pvPortMalloc L fuel n h = some (h', p)) :
    h'.pxEnd ≠ 0 ∧ h'.xFreeBytesRemaining ≤ L.stop - L.start ∧
      h'.xMinimumEverFreeBytesRemaining =
        min h.xMinimumEverFreeBytesRemaining h'.xFreeBytesRemaining := by
  have hfree : ∀ {bs : List HeapBlock} {h : PortHeap}, Holds L bs h →
      h.xFreeBytesRemaining ≤ L.stop - L.start := by
    intro bs h hh
    rw [hh.remaining]
    exact Nat.le_of_add_right_le (freeSize_add_inUse hh.shape.tiles).le
  by_cases hfit : 0 < wantedBlockSize n ∧
      ∃ b ∈ bs, b.kind = .free ∧ wantedBlockSize n ≤ b.size
  · obtain ⟨_, _, _, h₁, _, _, _, _, _, _, hanswer, htaken, -, -⟩ :=
      hh.malloc_fit hfit.1 hfit.2 hfuel
    rw [hanswer] at hm
    cases hm
    exact ⟨htaken.holds.shape.pxEnd_ne, hfree htaken.holds, htaken.minimum⟩
  · rw [hh.malloc_none (size_lt_of_not_fit hfit) hfuel] at hm
    cases hm
    exact ⟨hh.shape.pxEnd_ne, hfree hh, (min_eq_left hle).symm⟩

/-- The least number of free bytes takes the heap `h'` into account, after `h`. -/
structure Records (h h' : PortHeap) : Prop where
  pxEnd : h'.pxEnd ≠ 0
  minimum : h'.xMinimumEverFreeBytesRemaining =
    min h.xMinimumEverFreeBytesRemaining h'.xFreeBytesRemaining

lemma records_refl (hend : h.pxEnd ≠ 0)
    (hle : h.xMinimumEverFreeBytesRemaining ≤ h.xFreeBytesRemaining) : Records h h :=
  ⟨hend, (min_eq_left hle).symm⟩

lemma release_counters {pv : ℕ} (hr : vPortFreeRelease pv h = some h') : SameCounters h' h := by
  simp only [vPortFreeRelease] at hr
  split_ifs at hr
  cases hr
  exact ⟨rfl, rfl, rfl⟩

lemma release_records {pv : ℕ} (hend : h.pxEnd ≠ 0)
    (hle : h.xMinimumEverFreeBytesRemaining ≤ h.xFreeBytesRemaining)
    (hr : vPortFreeRelease pv h = some h') : Records h h' := by
  have hsame := release_counters hr
  exact ⟨hsame.pxEnd ▸ hend, by rw [hsame.minimum, hsame.free, min_eq_left hle]⟩

lemma giveBack_records (hh : Holds L (pre ++ b :: post) h) (hk : b.kind = .releasing)
    (hle : h.xMinimumEverFreeBytesRemaining ≤ h.xFreeBytesRemaining) (hfuel : 4096 ≤ fuel)
    (hi : vPortFreeInsert L fuel (b.addr + 8) h = some h') : Records h h' := by
  obtain ⟨h₁, bs', hinsert, hholds, -, hfree, hmin⟩ := hh.giveBack hk hfuel
  rw [hinsert] at hi
  cases hi
  exact ⟨hholds.shape.pxEnd_ne, by rw [hmin, min_eq_left (by omega)]⟩

lemma Tracked.step_records (ht : Tracked L s) {op : HeapOp} (hop : Allowed s op)
    (hstep : step L fuel s op = some t) (hfuel : 4096 ≤ fuel) (hend : s.heap.pxEnd ≠ 0)
    (hle : s.heap.xMinimumEverFreeBytesRemaining ≤ s.heap.xFreeBytesRemaining) :
    Records s.heap t.heap := by
  obtain ⟨bs, hholds, howns⟩ := ht.row_of_end hend
  cases op with
  | malloc n =>
    obtain ⟨answer, hanswer, rfl⟩ := Option.map_eq_some_iff.mp hstep
    obtain ⟨hend', -, hmin⟩ := malloc_minimum hholds hfuel hle hanswer
    exact ⟨hend', hmin⟩
  | calloc a b =>
    obtain ⟨answer, hanswer, rfl⟩ := Option.map_eq_some_iff.mp hstep
    rw [pvPortCalloc] at hanswer
    split_ifs at hanswer
    · cases hanswer
      exact records_refl hend hle
    · obtain ⟨hend', -, hmin⟩ := malloc_minimum hholds hfuel hle hanswer
      exact ⟨hend', hmin⟩
  | free pv =>
    obtain ⟨h₂, hfree, rfl⟩ := Option.map_eq_some_iff.mp hstep
    rw [vPortFree] at hfree
    split_ifs at hfree with hpv
    · obtain ⟨h₁, hrelease, hinsert⟩ := Option.bind_eq_some_iff.mp hfree
      obtain ⟨pre, d, post, rfl, hk, rfl⟩ := howns.block_of (hop.resolve_left hpv)
      obtain ⟨h₁', hrelease', hholds', -⟩ := hholds.release hk
      rw [hrelease] at hrelease'
      cases hrelease'
      have hsame := release_counters hrelease
      have hrecords := giveBack_records hholds' rfl (by rw [hsame.minimum, hsame.free]; exact hle)
        hfuel hinsert
      exact ⟨hrecords.pxEnd, by rw [hrecords.minimum, hsame.minimum]⟩
    · cases hfree
      exact records_refl hend hle
  | release pv =>
    obtain ⟨h₁, hrelease, rfl⟩ := Option.map_eq_some_iff.mp hstep
    exact release_records hend hle hrelease
  | giveBack pv =>
    obtain ⟨h₁, hinsert, rfl⟩ := Option.map_eq_some_iff.mp hstep
    obtain ⟨pre, d, post, rfl, hk, rfl⟩ := howns.leaving_block hop
    exact giveBack_records hholds hk hle hfuel hinsert
  | write p v =>
    cases hstep
    exact ⟨hend, (min_eq_left hle).symm⟩

lemma malloc_first {p : ℕ} (hend : h.pxEnd = 0) (hfuel : 4096 ≤ fuel)
    (hm : pvPortMalloc L fuel n h = some (h', p)) :
    h'.xMinimumEverFreeBytesRemaining = h'.xFreeBytesRemaining := by
  have hinit := holds_init (L := L) h
  have hfree : (prvHeapInit L h).xFreeBytesRemaining = L.stop - L.start := by
    rw [prvHeapInit_eq, setFreeBytes_free]
  have hminimum : (prvHeapInit L h).xMinimumEverFreeBytesRemaining = L.stop - L.start := by
    rw [prvHeapInit_eq, setFreeBytes_minimum]
  rw [malloc_of_boot hend] at hm
  obtain ⟨-, hle, hmin⟩ := malloc_minimum hinit hfuel (by omega) hm
  rw [hmin, hminimum, min_eq_right hle]

lemma Tracked.step_first (ht : Tracked L s) {op : HeapOp} (hop : Allowed s op)
    (hstep : step L fuel s op = some t) (hfuel : 4096 ≤ fuel) (hend : s.heap.pxEnd = 0)
    (hend' : t.heap.pxEnd ≠ 0) :
    t.heap.xMinimumEverFreeBytesRemaining = t.heap.xFreeBytesRemaining := by
  have hnone : s.owned = [] ∧ s.leaving = [] := by
    rcases ht with ⟨-, hnone⟩ | ⟨bs, hholds, -⟩
    · exact hnone
    · exact absurd hend hholds.shape.pxEnd_ne
  cases op with
  | malloc n =>
    obtain ⟨answer, hanswer, rfl⟩ := Option.map_eq_some_iff.mp hstep
    exact malloc_first hend hfuel hanswer
  | calloc a b =>
    obtain ⟨answer, hanswer, rfl⟩ := Option.map_eq_some_iff.mp hstep
    rw [pvPortCalloc] at hanswer
    split_ifs at hanswer
    · cases hanswer
      exact absurd hend hend'
    · exact malloc_first hend hfuel hanswer
  | free pv =>
    obtain ⟨h₂, hfree, rfl⟩ := Option.map_eq_some_iff.mp hstep
    rcases hop with rfl | hpv
    · rw [vPortFree, if_neg (by simp)] at hfree
      cases hfree
      exact absurd hend hend'
    · simp [hnone.1] at hpv
  | release pv => simp [Allowed, hnone.1] at hop
  | giveBack pv => simp [Allowed, hnone.2] at hop
  | write p v => simp [Allowed, hnone.1] at hop

/-- The least number of free bytes is not above the present one. -/
def Sound (L : HeapPlace) (s : HeapUse) : Prop :=
  Tracked L s ∧ (s.heap.pxEnd ≠ 0 →
    s.heap.xMinimumEverFreeBytesRemaining ≤ s.heap.xFreeBytesRemaining)

lemma sound_step (hs : Sound L s) {op : HeapOp} (hop : Allowed s op) (hfuel : 4096 ≤ fuel) :
    ∃ t, step L fuel s op = some t ∧ Sound L t := by
  obtain ⟨ht, hle⟩ := hs
  obtain ⟨t, hstep, ht'⟩ := ht.step_some hop hfuel
  refine ⟨t, hstep, ht', fun hend' => ?_⟩
  by_cases hend : s.heap.pxEnd = 0
  · exact (ht.step_first hop hstep hfuel hend hend').le
  · rw [(ht.step_records hop hstep hfuel hend (hle hend)).minimum]
    exact min_le_right _ _

lemma sound_run {ops : List HeapOp} (hs : Sound L s)
    (hops : Runs.Guarded (step L fuel) Allowed s ops)
    (hrun : Runs.run (step L fuel) s ops = some t) (hfuel : 4096 ≤ fuel) : Sound L t := by
  obtain ⟨t', hrun', ht⟩ := Runs.run_progress (fun s op hs hop => sound_step hs hop hfuel) hs hops
  rw [hrun] at hrun'
  cases hrun'
  exact ht

lemma sound_boot (hend : h.pxEnd = 0) : Sound L (boot h) :=
  ⟨tracked_boot hend, fun hne => absurd hend hne⟩

lemma Sound.run_pxEnd (hs : Sound L s) {ops : List HeapOp} (hend : s.heap.pxEnd ≠ 0)
    (hops : Runs.Guarded (step L fuel) Allowed s ops)
    (hrun : Runs.run (step L fuel) s ops = some t) (hfuel : 4096 ≤ fuel) :
    t.heap.pxEnd ≠ 0 := by
  have hkeep : ∀ u op v, (Sound L u ∧ u.heap.pxEnd ≠ 0) → Allowed u op →
      step L fuel u op = some v → Sound L v ∧ v.heap.pxEnd ≠ 0 := by
    rintro u op v ⟨hu, hend⟩ hop hstep
    obtain ⟨v', hv', hv⟩ := sound_step hu hop hfuel
    rw [hstep] at hv'
    cases hv'
    exact ⟨hv, (hu.1.step_records hop hstep hfuel hend (hu.2 hend)).pxEnd⟩
  exact (Runs.run_invariant hkeep ⟨hs, hend⟩ hops hrun).2

/-- The numbers of free bytes that were seen along a run. -/
def seen (L : HeapPlace) (fuel : ℕ) (h : PortHeap) (ops : List HeapOp) : Set ℕ :=
  {r | ∃ ops' t, ops' <+: ops ∧ Runs.run (step L fuel) (boot h) ops' = some t ∧
    t.heap.pxEnd ≠ 0 ∧ xPortGetFreeHeapSize t.heap = r}

lemma seen_append {ops : List HeapOp} {op : HeapOp}
    (hs : Runs.run (step L fuel) (boot h) (ops ++ [op]) = some s) (hend : s.heap.pxEnd ≠ 0) :
    seen L fuel h (ops ++ [op]) = insert (xPortGetFreeHeapSize s.heap) (seen L fuel h ops) := by
  ext r
  simp only [seen, Set.mem_insert_iff, Set.mem_ofPred_eq, List.prefix_concat_iff]
  constructor
  · rintro ⟨ops', t, rfl | hpre, ht, htend, rfl⟩
    · rw [hs] at ht
      cases ht
      exact Or.inl rfl
    · exact Or.inr ⟨ops', t, hpre, ht, htend, rfl⟩
  · rintro (rfl | ⟨ops', t, hpre, ht⟩)
    · exact ⟨_, s, Or.inl rfl, hs, hend, rfl⟩
    · exact ⟨ops', t, Or.inr hpre, ht⟩

lemma seen_eq_empty {ops : List HeapOp} (hend : h.pxEnd = 0)
    (hops : Runs.Guarded (step L fuel) Allowed (boot h) ops) (hfuel : 4096 ≤ fuel)
    (hs : Runs.run (step L fuel) (boot h) ops = some s) (hs0 : s.heap.pxEnd = 0) :
    seen L fuel h ops = ∅ := by
  refine Set.eq_empty_iff_forall_notMem.mpr ?_
  rintro r ⟨ops', t, ⟨rest, rfl⟩, ht, htend, -⟩
  have hsound := sound_run (sound_boot hend) hops.append_left ht hfuel
  obtain ⟨u, hu, hrest⟩ := (Runs.run_append_some _).mp hs
  rw [ht] at hu
  cases hu
  exact hsound.run_pxEnd htend (hops.append_right ht) hrest hfuel hs0

lemma minimum_isLeast {ops : List HeapOp} (hend : h.pxEnd = 0)
    (hops : Runs.Guarded (step L fuel) Allowed (boot h) ops) (hfuel : 4096 ≤ fuel)
    (hs : Runs.run (step L fuel) (boot h) ops = some s) (hinit : s.heap.pxEnd ≠ 0) :
    IsLeast (seen L fuel h ops) (xPortGetMinimumEverFreeHeapSize s.heap) := by
  induction ops using List.reverseRecOn generalizing s with
  | nil =>
    cases hs
    exact absurd hend hinit
  | append_singleton ops op ih =>
    have hprefix := hops.append_left
    obtain ⟨u, hu, hstep⟩ := (Runs.run_append_some _).mp hs
    have hlast := hops.append_right hu
    obtain ⟨v, hv, hvs⟩ := (Runs.run_cons_some _).mp hstep
    cases hvs
    have hsound := sound_run (sound_boot hend) hprefix hu hfuel
    rw [seen_append hs hinit]
    by_cases huend : u.heap.pxEnd = 0
    · have hfirst := hsound.1.step_first hlast.1 hv hfuel huend hinit
      rw [seen_eq_empty hend hprefix hfuel hu huend, xPortGetMinimumEverFreeHeapSize, hfirst,
        insert_empty_eq]
      exact isLeast_singleton
    · have hleast := ih hprefix hu huend
      have hrecords := hsound.1.step_records hlast.1 hv hfuel huend (hsound.2 huend)
      have hinsert := hleast.insert (xPortGetFreeHeapSize s.heap)
      rw [min_comm] at hinsert
      rw [xPortGetMinimumEverFreeHeapSize, hrecords.minimum]
      exact hinsert

/-- From the first request on, the free bytes and the blocks in use make up the heap, and the
least number of free bytes is the least that any state of the run has shown. -/
theorem heap_counts_exactly {ops : List HeapOp} (hend : h.pxEnd = 0)
    (hops : Runs.Guarded (step L fuel) Allowed (boot h) ops) (hfuel : 4096 ≤ fuel)
    (hs : Runs.run (step L fuel) (boot h) ops = some s) (hinit : s.heap.pxEnd ≠ 0) :
    xPortGetFreeHeapSize s.heap + (s.inUse.map (blockSize s.heap)).sum = L.stop - L.start ∧
      IsLeast (seen L fuel h ops) (xPortGetMinimumEverFreeHeapSize s.heap) := by
  refine ⟨?_, minimum_isLeast hend hops hfuel hs hinit⟩
  have hsound := sound_run (sound_boot hend) hops hs hfuel
  obtain ⟨bs, hholds, howns⟩ := hsound.1.row_of_end hinit
  rw [xPortGetFreeHeapSize, hholds.remaining, howns.sum_inUse hholds.shape,
    freeSize_add_inUse hholds.shape.tiles]

theorem interruptedReturn_counts :
    ∃ s, Runs.run (step misalignedPlace 4096) (boot powerOn) interruptedReturn = some s ∧
      xPortGetFreeHeapSize s.heap + (s.inUse.map (blockSize s.heap)).sum =
        misalignedPlace.stop - misalignedPlace.start ∧
      IsLeast (seen misalignedPlace 4096 powerOn interruptedReturn)
        (xPortGetMinimumEverFreeHeapSize s.heap) := by
  have hend : ((Runs.run (step misalignedPlace 4096) (boot powerOn) interruptedReturn).map
      fun s => s.heap.pxEnd) = some 0x800100F8 := by
    decide +kernel
  obtain ⟨s, hs, hpx⟩ := Option.map_eq_some_iff.mp hend
  have hinit : s.heap.pxEnd ≠ 0 := by
    rw [hpx]
    decide
  exact ⟨s, hs, heap_counts_exactly rfl (by decide +kernel) (by decide) hs hinit⟩

end HeapUse

end FrameworkXC32
