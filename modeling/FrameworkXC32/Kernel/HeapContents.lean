import FrameworkXC32.Kernel.HeapRuns

/-!
# What the heap keeps

The calls of the heap leave what the tasks have written alone, a request is given the lowest
stretch that is large enough, and the counters of free bytes are exact.
-/

namespace FrameworkXC32
open LinkedHeap Tiling PortHeap

namespace HeapUse

variable {L : HeapPlace} {fuel : ℕ} {s t : HeapUse} {bs pre post : List HeapBlock}
  {b : HeapBlock} {h h' : PortHeap} {x n : ℕ}

/-! ## Addresses inside of blocks in use -/

/-- The address lies behind the head of a block that belongs to a task. -/
def Inside (bs : List HeapBlock) (x : ℕ) : Prop :=
  ∃ e ∈ bs, e.kind = .used ∧ e.addr < x ∧ x < e.stop

lemma Owns.inside (ho : Owns bs s) {q : ℕ × ℕ} (hq : q ∈ s.owned) (hx : q.1 ≤ x)
    (hxe : x < q.1 + q.2) : Inside bs x := by
  obtain ⟨d, hd, hk, hdq, hsize⟩ := ho.used q hq
  exact ⟨d, hd, hk, by omega, by rw [Block.stop]; omega⟩

lemma Inside.ne_addr (hin : Inside bs x) (hs : Shape L bs h) : ∀ d ∈ bs, x ≠ d.addr := by
  rintro d hd rfl
  obtain ⟨e, he, -, hlow, hhigh⟩ := hin
  have hpos := (hs.tiles.bounds hd).2.1
  have heq := hs.tiles.eq_of_mem hd he (x := d.addr) ⟨le_rfl, by rw [Block.stop]; omega⟩
    ⟨hlow.le, hhigh⟩
  rw [heq] at hlow
  exact lt_irrefl _ hlow

lemma Inside.outside_free (hin : Inside bs x) (hs : Shape L bs h) :
    ∀ d ∈ bs, d.kind = .free → x < d.addr ∨ d.stop ≤ x := by
  intro d hd hk
  obtain ⟨e, he, hke, hlow, hhigh⟩ := hin
  by_contra hout
  have heq := hs.tiles.eq_of_mem hd he (x := x) (by omega) ⟨hlow.le, hhigh⟩
  rw [heq, hke] at hk
  exact absurd hk (by decide)

lemma Inside.ne_xStart (hin : Inside bs x) (hs : Shape L bs h) : x ≠ L.xStart := by
  obtain ⟨e, he, -, hlow, hhigh⟩ := hin
  have hbounds := hs.bounds he
  rw [Block.stop] at hhigh
  exact HeapPlace.xStart_apart (by omega) (by omega)

/-! ## The calls leave it alone -/

lemma malloc_mem (hh : Holds L bs h) (hin : Inside bs x) (hfuel : 4096 ≤ fuel) {p : ℕ}
    (hm : pvPortMalloc L fuel n h = some (h', p)) : h'.mem x = h.mem x := by
  by_cases hfit : 0 < wantedBlockSize n ∧
      ∃ b ∈ bs, b.kind = .free ∧ wantedBlockSize n ≤ b.size
  · obtain ⟨_, _, _, h₁, _, _, _, _, _, _, hanswer, -, -, hchanged⟩ :=
      hh.malloc_fit hfit.1 hfit.2 hfuel
    rw [hanswer] at hm
    cases hm
    exact hchanged x (hin.ne_xStart hh.shape) (hin.outside_free hh.shape)
  · rw [hh.malloc_none (size_lt_of_not_fit hfit) hfuel] at hm
    cases hm
    rfl

lemma release_mem {pv : ℕ} (hr : vPortFreeRelease pv h = some h')
    (hx : x ≠ sizeSub pv xHeapStructSize) : h'.mem x = h.mem x := by
  simp only [vPortFreeRelease] at hr
  split_ifs at hr
  cases hr
  exact setSize_mem_of_ne hx

lemma sizeSub_header (hs : Shape L (pre ++ b :: post) h) :
    sizeSub (b.addr + 8) xHeapStructSize = b.addr := by
  have hbounds := hs.bounds (b := b) (by simp)
  have hstop := HeapPlace.stop_lt (L := L)
  rw [xHeapStructSize_eq, sizeSub_eq (by omega) (by omega), Nat.add_sub_cancel]

lemma insert_mem (hh : Holds L (pre ++ b :: post) h) (hk : b.kind = .releasing)
    (hin : Inside (pre ++ b :: post) x) (hfuel : 4096 ≤ fuel)
    (hi : vPortFreeInsert L fuel (b.addr + 8) h = some h') : h'.mem x = h.mem x := by
  have hlink := sizeSub_header hh.shape
  have hlen := hh.shape.length_le
  rw [freeAddrs_append, List.length_append] at hlen
  simp only [vPortFreeInsert, hlink, Option.bind_eq_bind, Option.bind_eq_some_iff] at hi
  obtain ⟨h₂, hins, hcalls⟩ := hi
  cases hcalls
  obtain ⟨h₁, hh₁⟩ : ∃ h₁, h₁ = h.setFreeBytes
      (addSize h.xFreeBytesRemaining (h.mem b.addr).xBlockSize)
      h.xMinimumEverFreeBytesRemaining := ⟨_, rfl⟩
  rw [← hh₁] at hins
  have hshape : Shape L (pre ++ b :: post) h₁ := by
    rw [hh₁]
    exact hh.shape.congr rfl rfl rfl fun _ _ => rfl
  have hchain : x ∉ L.xStart :: freeAddrs pre := by
    have hout := notMem_chain_of_outside hh.shape (hin.ne_xStart hh.shape)
      (hin.outside_free hh.shape)
    rw [freeAddrs_append, ← List.cons_append] at hout
    exact fun hmem => hout (List.mem_append_left _ hmem)
  rw [setCalls_mem, hshape.insert_mem hk (by omega) hins (hin.ne_addr hh.shape b (by simp)) hchain,
    hh₁, setFreeBytes_mem]

lemma Inside.withKind (hin : Inside (pre ++ b :: post) x) {k : BlockKind}
    (hout : x < b.addr ∨ b.stop ≤ x) : Inside (pre ++ b.withKind k :: post) x := by
  obtain ⟨e, he, hke, hlow, hhigh⟩ := hin
  rcases eq_or_mem_sides he with rfl | he
  · omega
  · exact ⟨e, mem_of_mem_sides he, hke, hlow, hhigh⟩

lemma Owns.outside (ho : Owns (pre ++ b :: post) s) (hs : Shape L (pre ++ b :: post) h)
    {q : ℕ × ℕ} (hq : q ∈ s.owned) (hne : b.addr + 8 ≠ q.1) (hx : q.1 ≤ x)
    (hxe : x < q.1 + q.2) : x < b.addr ∨ b.stop ≤ x := by
  obtain ⟨d, hd, -, hdq, hsize⟩ := ho.used q hq
  have hdb : d ≠ b := by
    rintro rfl
    exact hne hdq
  have hapart := hs.tiles.apart hd (by simp) hdb
  rw [Block.stop, Block.stop] at hapart
  rw [Block.stop]
  omega

/-- One call of another task, or of this one for another block: what is stored at `x` and the
block around it stay. -/
lemma Tracked.step_mem (ht : Tracked L s) {op : HeapOp} (hop : Allowed s op)
    (hstep : step L fuel s op = some t) (hfuel : 4096 ≤ fuel) {q : ℕ × ℕ} (hq : q ∈ s.owned)
    (hx : q.1 ≤ x) (hxe : x < q.1 + q.2)
    (hkeep : (∀ v, op ≠ .write x v) ∧ op ≠ .free q.1 ∧ op ≠ .release q.1) :
    t.heap.mem x = s.heap.mem x ∧ q ∈ t.owned := by
  obtain ⟨bs, hholds, howns⟩ := ht.row_of_owned (List.mem_map_of_mem hq)
  have hin := howns.inside hq hx hxe
  have hgiven : ∀ (n : ℕ) (answer : PortHeap × ℕ), q ∈ (s.given n answer).owned := by
    intro n answer
    rw [given]
    split_ifs
    · exact hq
    · exact List.mem_cons_of_mem _ hq
  cases op with
  | malloc n =>
    obtain ⟨answer, hanswer, rfl⟩ := Option.map_eq_some_iff.mp hstep
    exact ⟨malloc_mem hholds hin hfuel hanswer, hgiven n answer⟩
  | calloc a b =>
    obtain ⟨answer, hanswer, rfl⟩ := Option.map_eq_some_iff.mp hstep
    rw [pvPortCalloc] at hanswer
    split_ifs at hanswer
    · cases hanswer
      exact ⟨rfl, hgiven _ _⟩
    · exact ⟨malloc_mem hholds hin hfuel hanswer, hgiven _ _⟩
  | free pv =>
    obtain ⟨h₂, hfree, rfl⟩ := Option.map_eq_some_iff.mp hstep
    have hne : q.1 ≠ pv := fun heq => hkeep.2.1 (by rw [heq])
    refine ⟨?_, List.mem_filter.mpr ⟨hq, by simpa using hne⟩⟩
    rw [vPortFree] at hfree
    split_ifs at hfree with hpv
    · obtain ⟨h₁, hrelease, hinsert⟩ := Option.bind_eq_some_iff.mp hfree
      obtain ⟨pre, d, post, rfl, hk, rfl⟩ := howns.block_of (hop.resolve_left hpv)
      obtain ⟨h₁', hrelease', hholds', -⟩ := hholds.release hk
      rw [hrelease] at hrelease'
      cases hrelease'
      have hout := howns.outside hholds.shape hq hne.symm hx hxe
      have hlink := sizeSub_header hholds.shape
      rw [insert_mem hholds' rfl (hin.withKind hout) hfuel hinsert,
        release_mem hrelease (by rw [hlink]; exact hin.ne_addr hholds.shape d (by simp))]
    · cases hfree
      rfl
  | release pv =>
    obtain ⟨h₁, hrelease, rfl⟩ := Option.map_eq_some_iff.mp hstep
    have hne : q.1 ≠ pv := fun heq => hkeep.2.2 (by rw [heq])
    obtain ⟨pre, d, post, rfl, hk, rfl⟩ := howns.block_of hop
    have hlink := sizeSub_header hholds.shape
    exact ⟨release_mem hrelease (by rw [hlink]; exact hin.ne_addr hholds.shape d (by simp)),
      List.mem_filter.mpr ⟨hq, by simpa using hne⟩⟩
  | giveBack pv =>
    obtain ⟨h₁, hinsert, rfl⟩ := Option.map_eq_some_iff.mp hstep
    obtain ⟨pre, d, post, rfl, hk, rfl⟩ := howns.leaving_block hop
    exact ⟨insert_mem hholds hk hin hfuel hinsert, hq⟩
  | write p v =>
    cases hstep
    exact ⟨store_mem_of_ne fun hxp => hkeep.1 v (by rw [hxp]), hq⟩

lemma Tracked.run_mem (ht : Tracked L s) {ops : List HeapOp}
    (hops : Runs.Guarded (step L fuel) Allowed s ops)
    (hrun : Runs.run (step L fuel) s ops = some t) (hfuel : 4096 ≤ fuel) {q : ℕ × ℕ}
    (hq : q ∈ s.owned) (hx : q.1 ≤ x) (hxe : x < q.1 + q.2)
    (hkeep : ∀ op ∈ ops, (∀ v, op ≠ .write x v) ∧ op ≠ .free q.1 ∧ op ≠ .release q.1) :
    t.heap.mem x = s.heap.mem x ∧ q ∈ t.owned := by
  induction ops generalizing s with
  | nil =>
    cases hrun
    exact ⟨rfl, hq⟩
  | cons op ops ih =>
    obtain ⟨u, hu, hut⟩ := (Runs.run_cons_some _).mp hrun
    obtain ⟨hmem, hqu⟩ := ht.step_mem hops.1 hu hfuel hq hx hxe (hkeep op List.mem_cons_self)
    obtain ⟨u', hu', htu⟩ := ht.step_some hops.1 hfuel
    rw [hu] at hu'
    cases hu'
    obtain ⟨hmem', hqt⟩ := ih htu (hops.tail hu) hut hqu fun op hop =>
      hkeep op (List.mem_cons_of_mem _ hop)
    exact ⟨hmem'.trans hmem, hqt⟩

/-- A task reads back what it has written into its memory, whatever it and the others request,
give back and write elsewhere in the meantime. -/
theorem heap_keeps_writes {ops ops' : List HeapOp} {p : ℕ} {v : BlockLink} {q : ℕ × ℕ}
    (hend : h.pxEnd = 0)
    (hops : Runs.Guarded (step L fuel) Allowed (boot h) (ops ++ .write p v :: ops'))
    (hfuel : 4096 ≤ fuel) (hs : Runs.run (step L fuel) (boot h) ops = some s) (hq : q ∈ s.owned)
    (hp : q.1 ≤ p ∧ p < q.1 + q.2)
    (hkeep : ∀ op ∈ ops', (∀ w, op ≠ .write p w) ∧ op ≠ .free q.1 ∧ op ≠ .release q.1) :
    ∃ t, Runs.run (step L fuel) (boot h) (ops ++ .write p v :: ops') = some t ∧
      q ∈ t.owned ∧ t.heap.mem p = v := by
  have hsafe : ∀ s op, Tracked L s → Allowed s op →
      ∃ t, step L fuel s op = some t ∧ Tracked L t := fun s op hs hop => hs.step_some hop hfuel
  obtain ⟨t, hrun, -⟩ := Runs.run_progress hsafe (tracked_boot hend) hops
  obtain ⟨s', hs', ht⟩ := Runs.run_progress hsafe (tracked_boot hend) hops.append_left
  rw [hs] at hs'
  cases hs'
  have hrest := hops.append_right hs
  obtain ⟨u, hu, hrun'⟩ := (Runs.run_append_some _).mp hrun
  rw [hs] at hu
  cases hu
  obtain ⟨w, hw, hwt⟩ := (Runs.run_cons_some _).mp hrun'
  have htw : Tracked L w := by
    obtain ⟨w', hw', htw⟩ := ht.step_some hrest.1 hfuel
    rw [hw] at hw'
    cases hw'
    exact htw
  cases hw
  obtain ⟨hmem, hqt⟩ := htw.run_mem (hrest.tail rfl) hwt hfuel hq hp.1 hp.2 hkeep
  refine ⟨t, hrun, hqt, hmem.trans ?_⟩
  exact store_mem_self

theorem interruptedReturn_keeps_write :
    ∃ t, Runs.run (step misalignedPlace 4096) (boot powerOn) ([.malloc 24, .calloc 5 20] ++
        .write 0x80000138 ⟨1, 2⟩ :: [.release 0x80000110, .malloc 7, .giveBack 0x80000110]) =
        some t ∧ (0x80000138, 100) ∈ t.owned ∧ t.heap.mem 0x80000138 = ⟨1, 2⟩ := by
  have hrun : ((Runs.run (step misalignedPlace 4096) (boot powerOn)
      [.malloc 24, .calloc 5 20]).map fun s => s.owned) =
        some [(0x80000138, 100), (0x80000110, 24)] := by
    decide +kernel
  obtain ⟨s, hs, howned⟩ := Option.map_eq_some_iff.mp hrun
  refine heap_keeps_writes rfl (by decide +kernel) (by decide) hs ?_ (by decide) ?_
  · rw [howned]
    exact List.mem_cons_self
  · intro op hop
    simp only [List.mem_cons, List.not_mem_nil, or_false] at hop
    rcases hop with rfl | rfl | rfl <;> simp

end HeapUse

end FrameworkXC32
