import FrameworkXC32.Kernel.Heap
import FrameworkXC32.Lib.Segment
import FrameworkXC32.Lib.Tiling

/-!
# The heap as a row of blocks

Between the first address and `pxEnd` the heap is a row of blocks without gaps: free ones, that
are in the list, ones that belong to the application, and ones that are on their way back.
`Shape` relates the row to the memory; the operations of `heap_4.c` keep it.
-/

namespace FrameworkXC32
open LinkedHeap Tiling PortHeap

inductive BlockKind
  | free
  | used
  | releasing
deriving DecidableEq, Repr

abbrev HeapBlock := Block BlockKind

namespace HeapPlace

def start (L : HeapPlace) : ℕ := (L.ucHeap + 7) / 8 * 8

def stop (L : HeapPlace) : ℕ := (L.ucHeap + configTotalHeapSize - 8) / 8 * 8

variable {L : HeapPlace}

lemma start_pos : 0 < L.start := by
  have hpos := L.nonnull
  rw [start]
  omega

lemma start_le_stop : L.start + 65512 ≤ L.stop := by
  simp only [start, stop, configTotalHeapSize]
  omega

lemma stop_le : L.stop + 8 ≤ L.ucHeap + configTotalHeapSize := by
  have hle := start_le_stop (L := L)
  simp only [start, stop, configTotalHeapSize] at hle ⊢
  omega

lemma stop_lt : L.stop + 8 < 2 ^ 32 := by
  have hle := L.fits
  have hstop := stop_le (L := L)
  rw [heapSizeMax] at hle
  omega

lemma length_lt : L.stop < L.start + 2 ^ 16 := by
  have hstop := stop_le (L := L)
  simp only [start, configTotalHeapSize] at hstop ⊢
  omega

lemma ucHeap_le_start : L.ucHeap ≤ L.start := by
  rw [start]
  omega

lemma xStart_apart {x : ℕ} (hx : L.start ≤ x) (hxe : x ≤ L.stop) : x ≠ L.xStart := by
  have hstop := stop_le (L := L)
  have hstart := ucHeap_le_start (L := L)
  rcases L.apart with h | h <;> omega

end HeapPlace

namespace PortHeap

/-- The successor of a block in the free list. -/
def next (h : PortHeap) (p : ℕ) : Option ℕ := some (h.mem p).pxNextFreeBlock

def freeAddrs (bs : List HeapBlock) : List ℕ :=
  (bs.filter fun b => b.kind = .free).map Block.addr

def freeSize (bs : List HeapBlock) : ℕ :=
  ((bs.filter fun b => b.kind = .free).map Block.size).sum

@[simp] lemma freeAddrs_append (bs cs : List HeapBlock) :
    freeAddrs (bs ++ cs) = freeAddrs bs ++ freeAddrs cs := by
  simp [freeAddrs]

@[simp] lemma freeAddrs_nil : freeAddrs [] = [] := rfl

lemma freeAddrs_cons_free {b : HeapBlock} (hb : b.kind = .free) (bs : List HeapBlock) :
    freeAddrs (b :: bs) = b.addr :: freeAddrs bs := by
  simp [freeAddrs, hb]

lemma freeAddrs_cons_of_ne {b : HeapBlock} (hb : b.kind ≠ .free) (bs : List HeapBlock) :
    freeAddrs (b :: bs) = freeAddrs bs := by
  simp [freeAddrs, hb]

lemma mem_freeAddrs {bs : List HeapBlock} {a : ℕ} :
    a ∈ freeAddrs bs ↔ ∃ b ∈ bs, b.kind = .free ∧ b.addr = a := by
  simp [freeAddrs, and_assoc]

@[simp] lemma freeSize_nil : freeSize [] = 0 := rfl

@[simp] lemma freeSize_append (bs cs : List HeapBlock) :
    freeSize (bs ++ cs) = freeSize bs + freeSize cs := by
  simp [freeSize]

lemma freeSize_cons_free {b : HeapBlock} (hb : b.kind = .free) (bs : List HeapBlock) :
    freeSize (b :: bs) = b.size + freeSize bs := by
  simp [freeSize, hb]

lemma freeSize_cons_of_ne {b : HeapBlock} (hb : b.kind ≠ .free) (bs : List HeapBlock) :
    freeSize (b :: bs) = freeSize bs := by
  simp [freeSize, hb]

/-- What the memory shows at the head of a block. -/
def Header (h : PortHeap) (b : HeapBlock) : Prop :=
  match b.kind with
  | .free => (h.mem b.addr).xBlockSize = b.size
  | .used => h.mem b.addr = ⟨0, b.size + 2 ^ 31⟩
  | .releasing => (h.mem b.addr).xBlockSize = b.size

lemma Header.size {h : PortHeap} {b : HeapBlock} (hh : Header h b) (hk : b.kind ≠ .used) :
    (h.mem b.addr).xBlockSize = b.size := by
  rw [Header] at hh
  cases hkind : b.kind with
  | used => exact absurd hkind hk
  | free => simpa [hkind] using hh
  | releasing => simpa [hkind] using hh

lemma Header.congr {h h' : PortHeap} {b : HeapBlock} (hh : Header h b)
    (hmem : h'.mem b.addr = h.mem b.addr) : Header h' b := by
  rw [Header, hmem]
  exact hh

/-- The memory shows the row of blocks `bs`. -/
structure Shape (L : HeapPlace) (bs : List HeapBlock) (h : PortHeap) : Prop where
  tiles : Tiles L.start bs L.stop
  atEnd : h.pxEnd = L.stop
  sentinel : h.mem L.stop = ⟨0, 0⟩
  anchor : (h.mem L.xStart).xBlockSize = 0
  chain : Seg h.next (some L.xStart) (L.xStart :: freeAddrs bs) (some L.stop)
  header : ∀ b ∈ bs, Header h b
  wellSized : ∀ b ∈ bs, 8 ∣ b.addr ∧ 8 ∣ b.size ∧ 16 ≤ b.size

/-! ## Memory -/

section Memory

variable {h : PortHeap} {p q n : ℕ} {b : BlockLink}

@[simp] lemma store_mem_self : (h.store p b).mem p = b := Function.update_self ..

@[simp] lemma store_mem_of_ne (hne : q ≠ p) : (h.store p b).mem q = h.mem q :=
  Function.update_of_ne hne ..

@[simp] lemma setNext_mem_self : (h.setNext p n).mem p = ⟨n, (h.mem p).xBlockSize⟩ :=
  Function.update_self ..

@[simp] lemma setNext_mem_of_ne (hne : q ≠ p) : (h.setNext p n).mem q = h.mem q :=
  Function.update_of_ne hne ..

@[simp] lemma setSize_mem_self : (h.setSize p n).mem p = ⟨(h.mem p).pxNextFreeBlock, n⟩ :=
  Function.update_self ..

@[simp] lemma setSize_mem_of_ne (hne : q ≠ p) : (h.setSize p n).mem q = h.mem q :=
  Function.update_of_ne hne ..

@[simp] lemma setNext_pxEnd : (h.setNext p n).pxEnd = h.pxEnd := rfl

@[simp] lemma setSize_pxEnd : (h.setSize p n).pxEnd = h.pxEnd := rfl

@[simp] lemma setNext_free : (h.setNext p n).xFreeBytesRemaining = h.xFreeBytesRemaining := rfl

@[simp] lemma setSize_free : (h.setSize p n).xFreeBytesRemaining = h.xFreeBytesRemaining := rfl

@[simp] lemma setNext_minimum :
    (h.setNext p n).xMinimumEverFreeBytesRemaining = h.xMinimumEverFreeBytesRemaining := rfl

@[simp] lemma setSize_minimum :
    (h.setSize p n).xMinimumEverFreeBytesRemaining = h.xMinimumEverFreeBytesRemaining := rfl

@[simp] lemma setEnd_mem : (h.setEnd p).mem = h.mem := rfl

@[simp] lemma setEnd_pxEnd : (h.setEnd p).pxEnd = p := rfl

@[simp] lemma store_pxEnd : (h.store p b).pxEnd = h.pxEnd := rfl

@[simp] lemma setFreeBytes_mem : (h.setFreeBytes p n).mem = h.mem := rfl

@[simp] lemma setFreeBytes_pxEnd : (h.setFreeBytes p n).pxEnd = h.pxEnd := rfl

@[simp] lemma setFreeBytes_free : (h.setFreeBytes p n).xFreeBytesRemaining = p := rfl

@[simp] lemma setFreeBytes_minimum :
    (h.setFreeBytes p n).xMinimumEverFreeBytesRemaining = n := rfl

@[simp] lemma setCalls_mem : (h.setCalls p n).mem = h.mem := rfl

@[simp] lemma setCalls_pxEnd : (h.setCalls p n).pxEnd = h.pxEnd := rfl

@[simp] lemma setCalls_free : (h.setCalls p n).xFreeBytesRemaining = h.xFreeBytesRemaining := rfl

@[simp] lemma setCalls_minimum :
    (h.setCalls p n).xMinimumEverFreeBytesRemaining = h.xMinimumEverFreeBytesRemaining := rfl

/-- Only the memory and the counters' owner differ: the counters are as they were. -/
structure SameCounters (h' h : PortHeap) : Prop where
  pxEnd : h'.pxEnd = h.pxEnd
  free : h'.xFreeBytesRemaining = h.xFreeBytesRemaining
  minimum : h'.xMinimumEverFreeBytesRemaining = h.xMinimumEverFreeBytesRemaining

end Memory

/-! ## Addresses of a row of blocks -/

section Addresses

variable {L : HeapPlace} {bs pre post : List HeapBlock} {h h' : PortHeap} {b c : HeapBlock}

lemma Shape.bounds (hs : Shape L bs h) (hb : b ∈ bs) :
    L.start ≤ b.addr ∧ b.addr + b.size ≤ L.stop ∧ b.addr < L.stop := by
  obtain ⟨hlow, hpos, hhigh⟩ := hs.tiles.bounds hb
  rw [Block.stop] at hhigh
  exact ⟨hlow, hhigh, by omega⟩

lemma Shape.ne_xStart (hs : Shape L bs h) (hb : b ∈ bs) : b.addr ≠ L.xStart :=
  HeapPlace.xStart_apart (hs.bounds hb).1 (hs.bounds hb).2.2.le

lemma Shape.ne_stop (hs : Shape L bs h) (hb : b ∈ bs) : b.addr ≠ L.stop :=
  (hs.bounds hb).2.2.ne

lemma Shape.size_lt (hs : Shape L bs h) (hb : b ∈ bs) : b.size < 2 ^ 16 := by
  have hbounds := hs.bounds hb
  have hlen := HeapPlace.length_lt (L := L)
  omega

lemma stop_ne_xStart : L.stop ≠ L.xStart :=
  HeapPlace.xStart_apart (by have := HeapPlace.start_le_stop (L := L); omega) le_rfl

/-- The shape depends on the memory at the heads of the blocks and at the ends only. -/
lemma Shape.congr (hs : Shape L bs h) (hend : h'.pxEnd = h.pxEnd)
    (hstart : h'.mem L.xStart = h.mem L.xStart) (hstop : h'.mem L.stop = h.mem L.stop)
    (hmem : ∀ b ∈ bs, h'.mem b.addr = h.mem b.addr) : Shape L bs h' where
  tiles := hs.tiles
  atEnd := hend.trans hs.atEnd
  sentinel := hstop.trans hs.sentinel
  anchor := by rw [hstart, hs.anchor]
  chain := by
    refine hs.chain.congr fun a ha => ?_
    rcases List.mem_cons.mp ha with rfl | ha
    · rw [next, next, hstart]
    · obtain ⟨b, hb, -, rfl⟩ := mem_freeAddrs.mp ha
      rw [next, next, hmem b hb]
  header := fun b hb => (hs.header b hb).congr (hmem b hb)
  wellSized := hs.wellSized

lemma Shape.stop_le_of_mem_left (hs : Shape L (pre ++ b :: post) h) (hc : c ∈ pre) :
    c.stop ≤ b.addr :=
  ((tiles_middle.mp hs.tiles).1.bounds hc).2.2

lemma Shape.stop_le_of_mem_right (hs : Shape L (pre ++ b :: post) h) (hc : c ∈ post) :
    b.stop ≤ c.addr :=
  ((tiles_middle.mp hs.tiles).2.2.bounds hc).1

lemma Shape.addr_ne (hs : Shape L (pre ++ b :: post) h) (hc : c ∈ pre ++ post) :
    c.addr ≠ b.addr := by
  have hb := (tiles_middle.mp hs.tiles).2.1
  rcases List.mem_append.mp hc with hc | hc
  · have hpos := (hs.tiles.bounds (List.mem_append_left _ hc)).2.1
    have hle := hs.stop_le_of_mem_left hc
    rw [Block.stop] at hle
    omega
  · have hle := hs.stop_le_of_mem_right hc
    rw [Block.stop] at hle
    omega

lemma Shape.nodup (hs : Shape L bs h) : (L.xStart :: freeAddrs bs).Nodup := by
  refine List.nodup_cons.mpr ⟨fun hx => ?_, ?_⟩
  · obtain ⟨b, hb, -, haddr⟩ := mem_freeAddrs.mp hx
    exact hs.ne_xStart hb haddr
  · refine List.pairwise_map.mpr (List.Pairwise.filter _ ?_)
    exact hs.tiles.addr_sorted.imp fun hlt => hlt.ne

lemma Shape.ne_of_mem_chain (hs : Shape L bs h) (hb : b ∈ bs) (hk : b.kind ≠ .free) {a : ℕ}
    (ha : a ∈ L.xStart :: freeAddrs bs) : b.addr ≠ a := by
  intro haddr
  rcases List.mem_cons.mp ha with rfl | ha
  · exact hs.ne_xStart hb haddr
  · obtain ⟨c, hc, hkc, hca⟩ := mem_freeAddrs.mp ha
    have hbc : b = c := hs.tiles.eq_of_addr hb hc (haddr.trans hca.symm)
    rw [hbc] at hk
    exact hk hkc

end Addresses

/-! ## Writing a header -/

section Writing

variable {L : HeapPlace} {bs pre post : List HeapBlock} {h : PortHeap} {b d : HeapBlock}
  {p n it : ℕ} {l : List ℕ}

lemma Header.setNext (hh : Header h d) (hp : d.kind = .used → d.addr ≠ p) :
    Header (h.setNext p n) d := by
  by_cases hd : d.addr = p
  · have hk : d.kind ≠ .used := fun hk => hp hk hd
    have hsize := hh.size hk
    subst hd
    rw [Header]
    cases hkind : d.kind with
    | used => exact absurd hkind hk
    | free => simpa using hsize
    | releasing => simpa using hsize
  · exact hh.congr (setNext_mem_of_ne hd)

lemma Header.setSize (hh : Header h d) (hp : d.addr ≠ p) : Header (h.setSize p n) d :=
  hh.congr (setSize_mem_of_ne hp)

lemma header_of_size (hk : d.kind ≠ .used) (hsize : (h.mem d.addr).xBlockSize = d.size) :
    Header h d := by
  rw [Header]
  cases hkind : d.kind with
  | used => exact absurd hkind hk
  | free => exact hsize
  | releasing => exact hsize

lemma Shape.chain_at (hs : Shape L (pre ++ b :: post) h) (hk : b.kind ≠ .free)
    (hit : L.xStart :: freeAddrs pre = l ++ [it]) :
    Seg h.next (some L.xStart) (l ++ it :: freeAddrs post) (some L.stop) := by
  have hchain := hs.chain
  rw [freeAddrs_append, freeAddrs_cons_of_ne hk, ← List.cons_append, hit, List.append_assoc]
    at hchain
  exact hchain

lemma Shape.nodup_at (hs : Shape L (pre ++ b :: post) h) (hk : b.kind ≠ .free)
    (hit : L.xStart :: freeAddrs pre = l ++ [it]) : (l ++ it :: freeAddrs post).Nodup := by
  have hnodup := hs.nodup
  rw [freeAddrs_append, freeAddrs_cons_of_ne hk, ← List.cons_append, hit, List.append_assoc]
    at hnodup
  exact hnodup

lemma mem_chain (hit : L.xStart :: freeAddrs pre = l ++ [it]) {a : ℕ}
    (ha : a ∈ l ++ it :: freeAddrs post) :
    a ∈ L.xStart :: freeAddrs (pre ++ b :: post) := by
  have hmem : a ∈ (L.xStart :: freeAddrs pre) ++ freeAddrs post := by
    rw [hit, List.append_assoc]
    exact ha
  rcases List.mem_append.mp hmem with hm | hm
  · rcases List.mem_cons.mp hm with rfl | hm
    · exact List.mem_cons_self
    · exact List.mem_cons_of_mem _ (by
        rw [freeAddrs_append]
        exact List.mem_append_left _ hm)
  · obtain ⟨c, hc, hkc, rfl⟩ := mem_freeAddrs.mp hm
    exact List.mem_cons_of_mem _ (mem_freeAddrs.mpr ⟨c, by simp [hc], hkc, rfl⟩)

lemma Shape.ne_stop_of_mem_chain (hs : Shape L bs h) {a : ℕ}
    (ha : a ∈ L.xStart :: freeAddrs bs) : L.stop ≠ a := by
  rintro rfl
  rcases List.mem_cons.mp ha with hx | hx
  · exact stop_ne_xStart hx
  · obtain ⟨c, hc, -, hca⟩ := mem_freeAddrs.mp hx
    exact hs.ne_stop hc hca

lemma Shape.used_ne_of_mem_chain (hs : Shape L bs h) (hd : d ∈ bs) {a : ℕ}
    (ha : a ∈ L.xStart :: freeAddrs bs) : d.kind = .used → d.addr ≠ a := fun hk =>
  hs.ne_of_mem_chain hd (by simp [hk]) ha

lemma mem_of_mem_sides (hd : d ∈ pre ++ post) : d ∈ pre ++ b :: post := by
  rcases List.mem_append.mp hd with hd | hd <;> simp [hd]

lemma eq_or_mem_sides (hd : d ∈ pre ++ b :: post) : d = b ∨ d ∈ pre ++ post := by
  rcases List.mem_append.mp hd with hd | hd
  · simp [hd]
  · rcases List.mem_cons.mp hd with rfl | hd <;> simp [*]

/-- A block that was on its way back is linked behind the last free block before it. -/
lemma Shape.link (hs : Shape L (pre ++ b :: post) h) (hk : b.kind = .releasing)
    (hit : L.xStart :: freeAddrs pre = l ++ [it]) :
    Shape L (pre ++ b.withKind .free :: post)
      ((h.setNext b.addr (h.mem it).pxNextFreeBlock).setNext it b.addr) := by
  have hkf : b.kind ≠ .free := by simp [hk]
  have hb : b ∈ pre ++ b :: post := by simp
  have hne : ∀ a ∈ l ++ it :: freeAddrs post, a ≠ b.addr := fun a ha =>
    (hs.ne_of_mem_chain hb hkf (mem_chain hit ha)).symm
  have hitb : it ≠ b.addr := hne it (by simp)
  have hitmem : it ∈ L.xStart :: freeAddrs (pre ++ b :: post) := mem_chain hit (by simp)
  have hnot : it ∉ l ++ freeAddrs post :=
    (List.nodup_cons.mp (List.nodup_middle.mp (hs.nodup_at hkf hit))).1
  have hseg := hs.chain_at hkf hit
  constructor
  · exact (tiles_withKind _).mpr hs.tiles
  · exact hs.atEnd
  · rw [setNext_mem_of_ne (hs.ne_stop_of_mem_chain hitmem), setNext_mem_of_ne (hs.ne_stop hb).symm,
      hs.sentinel]
  · have hx : L.xStart ≠ b.addr := (hs.ne_xStart hb).symm
    by_cases hxi : L.xStart = it
    · rw [hxi, setNext_mem_self, setNext_mem_of_ne hitb, ← hxi]
      exact hs.anchor
    · rw [setNext_mem_of_ne hxi, setNext_mem_of_ne hx, hs.anchor]
  · rw [freeAddrs_append, freeAddrs_cons_free (by simp), ← List.cons_append, hit, List.append_assoc]
    refine hseg.relink (fun a ha => ?_) ?_
    · have hai : a ≠ it := fun hai => hnot (List.mem_append_left _ (hai ▸ ha))
      rw [next, setNext_mem_of_ne hai, setNext_mem_of_ne (hne a (by simp [ha])), next]
    · obtain ⟨r, -, hr, hrest⟩ := seg_append.mp hseg
      refine ⟨by rw [next, setNext_mem_self, Block.withKind_addr], ?_⟩
      rw [Block.withKind_addr, next, setNext_mem_of_ne hitb.symm, setNext_mem_self]
      refine Seg.congr hrest fun a ha => ?_
      have hai : a ≠ it := fun hai => hnot (List.mem_append_right _ (hai ▸ ha))
      rw [next, setNext_mem_of_ne hai, setNext_mem_of_ne (hne a (by simp [ha])), next]
  · intro d hd
    rcases eq_or_mem_sides hd with rfl | hd
    · refine header_of_size (by simp) ?_
      rw [Block.withKind_addr, setNext_mem_of_ne hitb.symm, setNext_mem_self]
      exact (hs.header b hb).size (by simp [hk])
    · have hd' := mem_of_mem_sides hd (b := b)
      exact ((hs.header d hd').setNext fun _ => hs.addr_ne hd).setNext
        (hs.used_ne_of_mem_chain hd' hitmem)
  · intro d hd
    rcases eq_or_mem_sides hd with rfl | hd
    · exact hs.wellSized b hb
    · exact hs.wellSized d (mem_of_mem_sides hd)

lemma Shape.chain_congr {bs' : List HeapBlock} {h' : PortHeap} (hs : Shape L bs h)
    (hfree : freeAddrs bs' = freeAddrs bs)
    (hmem : ∀ a ∈ L.xStart :: freeAddrs bs,
      (h'.mem a).pxNextFreeBlock = (h.mem a).pxNextFreeBlock) :
    Seg h'.next (some L.xStart) (L.xStart :: freeAddrs bs') (some L.stop) := by
  rw [hfree]
  refine hs.chain.congr fun a ha => ?_
  rw [next, next, hmem a ha]

/-- Two free neighbours become one block: the list goes on behind the second one. -/
lemma Shape.joinBehind {c : HeapBlock} (hs : Shape L (pre ++ b :: c :: post) h)
    (hb : b.kind = .free) (hc : c.kind = .free) :
    Shape L (pre ++ b.join c .free :: post)
      ((h.setSize b.addr (b.size + c.size)).setNext b.addr (h.mem c.addr).pxNextFreeBlock) := by
  have hbm : b ∈ pre ++ b :: c :: post := by simp
  have hcm : c ∈ pre ++ b :: c :: post := by simp
  have hchain := hs.chain
  rw [freeAddrs_append, freeAddrs_cons_free hb, freeAddrs_cons_free hc, ← List.cons_append]
    at hchain
  have hnodup := hs.nodup
  rw [freeAddrs_append, freeAddrs_cons_free hb, freeAddrs_cons_free hc, ← List.cons_append]
    at hnodup
  have hnot := (List.nodup_cons.mp (List.nodup_middle.mp hnodup)).1
  constructor
  · exact hs.tiles.glue .free
  · exact hs.atEnd
  · rw [setNext_mem_of_ne (hs.ne_stop hbm).symm, setSize_mem_of_ne (hs.ne_stop hbm).symm,
      hs.sentinel]
  · rw [setNext_mem_of_ne (hs.ne_xStart hbm).symm, setSize_mem_of_ne (hs.ne_xStart hbm).symm,
      hs.anchor]
  · rw [freeAddrs_append, freeAddrs_cons_free rfl, ← List.cons_append]
    refine hchain.relink (fun a ha => ?_) ?_
    · have hab : a ≠ b.addr := fun hab => hnot (List.mem_append_left _ (hab ▸ ha))
      rw [next, setNext_mem_of_ne hab, setSize_mem_of_ne hab, next]
    · obtain ⟨r, -, hr, hcr, hrest⟩ := seg_append.mp hchain
      rw [next, setNext_mem_self]
      refine Seg.congr hrest fun a ha => ?_
      have hab : a ≠ b.addr := fun hab =>
        hnot (List.mem_append_right _ (List.mem_cons_of_mem _ (hab ▸ ha)))
      rw [next, setNext_mem_of_ne hab, setSize_mem_of_ne hab, next]
  · intro d hd
    rcases eq_or_mem_sides hd with rfl | hd
    · refine header_of_size (by simp [Block.join]) ?_
      rw [Block.join, setNext_mem_self, setSize_mem_self]
    · have hd' : d ∈ pre ++ c :: post := mem_of_mem_sides hd
      have hne := hs.addr_ne hd'
      exact ((hs.header d (mem_of_mem_sides hd')).setSize hne).setNext fun _ => hne
  · intro d hd
    rcases eq_or_mem_sides hd with rfl | hd
    · obtain ⟨haddr, hsize, hmin⟩ := hs.wellSized b hbm
      obtain ⟨-, hsizec, -⟩ := hs.wellSized c hcm
      exact ⟨haddr, Nat.dvd_add hsize hsizec, Nat.le_add_right_of_le hmin⟩
    · exact hs.wellSized d (mem_of_mem_sides (mem_of_mem_sides hd (b := c)))

/-- A block that was on its way back is added to the free block before it. -/
lemma Shape.joinBefore {c : HeapBlock} (hs : Shape L (pre ++ c :: b :: post) h)
    (hc : c.kind = .free) (hb : b.kind = .releasing) :
    Shape L (pre ++ c.join b .free :: post) (h.setSize c.addr (c.size + b.size)) := by
  have hcm : c ∈ pre ++ c :: b :: post := by simp
  have hbm : b ∈ pre ++ c :: b :: post := by simp
  constructor
  · exact hs.tiles.glue .free
  · exact hs.atEnd
  · rw [setSize_mem_of_ne (hs.ne_stop hcm).symm, hs.sentinel]
  · rw [setSize_mem_of_ne (hs.ne_xStart hcm).symm, hs.anchor]
  · refine hs.chain_congr ?_ fun a _ => ?_
    · rw [freeAddrs_append, freeAddrs_append, freeAddrs_cons_free rfl, freeAddrs_cons_free hc,
        freeAddrs_cons_of_ne (by simp [hb])]
      rfl
    · by_cases ha : a = c.addr
      · rw [ha, setSize_mem_self]
      · rw [setSize_mem_of_ne ha]
  · intro d hd
    rcases eq_or_mem_sides hd with rfl | hd
    · refine header_of_size (by simp [Block.join]) ?_
      rw [Block.join, setSize_mem_self]
    · have hd' : d ∈ pre ++ b :: post := mem_of_mem_sides hd
      exact (hs.header d (mem_of_mem_sides hd')).setSize (hs.addr_ne hd')
  · intro d hd
    rcases eq_or_mem_sides hd with rfl | hd
    · obtain ⟨haddr, hsize, hmin⟩ := hs.wellSized c hcm
      obtain ⟨-, hsizeb, -⟩ := hs.wellSized b hbm
      exact ⟨haddr, Nat.dvd_add hsize hsizeb, Nat.le_add_right_of_le hmin⟩
    · exact hs.wellSized d (mem_of_mem_sides (mem_of_mem_sides hd (b := b)))

lemma Shape.unlink (hs : Shape L (pre ++ b :: post) h) (hk : b.kind = .free)
    (hit : L.xStart :: freeAddrs pre = l ++ [it]) :
    Shape L (pre ++ b.withKind .releasing :: post)
      (h.setNext it (h.mem b.addr).pxNextFreeBlock) := by
  have hb : b ∈ pre ++ b :: post := by simp
  have hchain := hs.chain
  rw [freeAddrs_append, freeAddrs_cons_free hk, ← List.cons_append, hit, List.append_assoc,
    List.singleton_append] at hchain
  have hnodup := hs.nodup
  rw [freeAddrs_append, freeAddrs_cons_free hk, ← List.cons_append, hit, List.append_assoc,
    List.singleton_append] at hnodup
  have hnot := (List.nodup_cons.mp (List.nodup_middle.mp hnodup)).1
  have hitmem : it ∈ L.xStart :: freeAddrs (pre ++ b :: post) := by
    rw [freeAddrs_append, freeAddrs_cons_free hk, ← List.cons_append, hit]
    simp
  constructor
  · exact (tiles_withKind _).mpr hs.tiles
  · exact hs.atEnd
  · rw [setNext_mem_of_ne (hs.ne_stop_of_mem_chain hitmem), hs.sentinel]
  · by_cases hxi : L.xStart = it
    · rw [hxi, setNext_mem_self, ← hxi]
      exact hs.anchor
    · rw [setNext_mem_of_ne hxi, hs.anchor]
  · rw [freeAddrs_append, freeAddrs_cons_of_ne (by simp), ← List.cons_append, hit,
      List.append_assoc]
    refine hchain.relink (fun a ha => ?_) ?_
    · have hai : a ≠ it := fun hai => hnot (List.mem_append_left _ (hai ▸ ha))
      rw [next, setNext_mem_of_ne hai, next]
    · obtain ⟨r, -, hr, hrb, hrest⟩ := seg_append.mp hchain
      rw [next, setNext_mem_self]
      refine Seg.congr hrest fun a ha => ?_
      have hai : a ≠ it := fun hai =>
        hnot (List.mem_append_right _ (List.mem_cons_of_mem _ (hai ▸ ha)))
      rw [next, setNext_mem_of_ne hai, next]
  · intro d hd
    rcases eq_or_mem_sides hd with rfl | hd
    · have hsize := (hs.header b hb).setNext (hs.used_ne_of_mem_chain hb hitmem)
        (n := (h.mem b.addr).pxNextFreeBlock)
      exact header_of_size (by simp) (hsize.size (by simp [hk]))
    · have hd' := mem_of_mem_sides hd (b := b)
      exact (hs.header d hd').setNext (hs.used_ne_of_mem_chain hd' hitmem)
  · intro d hd
    rcases eq_or_mem_sides hd with rfl | hd
    · exact hs.wellSized b hb
    · exact hs.wellSized d (mem_of_mem_sides hd)

lemma Shape.split (hs : Shape L (pre ++ b :: post) h) (hk : b.kind = .releasing) (hn : 8 ∣ n)
    (hmin : 16 ≤ n) (hrest : n + 16 ≤ b.size) :
    Shape L (pre ++ b.front n .releasing :: b.back n .releasing :: post)
      ((h.setSize (b.addr + n) (b.size - n)).setSize b.addr n) := by
  have hb : b ∈ pre ++ b :: post := by simp
  have htiles := hs.tiles.cut (by omega) (by omega) .releasing .releasing (n := n)
  have hback : b.back n .releasing ∈
      pre ++ b.front n .releasing :: b.back n .releasing :: post := by simp
  have hbounds := hs.bounds hb
  have hin : L.start ≤ b.addr + n ∧ b.addr + n < L.stop := by omega
  have hbn : b.addr + n ≠ b.addr := by omega
  have hnx : L.xStart ≠ b.addr + n := (HeapPlace.xStart_apart hin.1 hin.2.le).symm
  have hfree : freeAddrs (pre ++ b.front n .releasing :: b.back n .releasing :: post) =
      freeAddrs (pre ++ b :: post) := by
    rw [freeAddrs_append, freeAddrs_append, freeAddrs_cons_of_ne (by simp [Block.front]),
      freeAddrs_cons_of_ne (by simp [Block.back]), freeAddrs_cons_of_ne (by simp [hk])]
  constructor
  · exact htiles
  · exact hs.atEnd
  · rw [setSize_mem_of_ne (hs.ne_stop hb).symm, setSize_mem_of_ne (by omega), hs.sentinel]
  · rw [setSize_mem_of_ne (hs.ne_xStart hb).symm, setSize_mem_of_ne hnx, hs.anchor]
  · refine hs.chain_congr hfree fun a _ => ?_
    by_cases ha : a = b.addr
    · rw [ha, setSize_mem_self, setSize_mem_of_ne hbn.symm]
    · by_cases han : a = b.addr + n
      · rw [han, setSize_mem_of_ne hbn, setSize_mem_self]
      · rw [setSize_mem_of_ne ha, setSize_mem_of_ne han]
  · intro d hd
    rcases eq_or_mem_sides hd with rfl | hd
    · refine header_of_size (by simp [Block.front]) ?_
      simp only [Block.front, setSize_mem_self]
    · rcases eq_or_mem_sides hd with rfl | hd
      · refine header_of_size (by simp [Block.back]) ?_
        simp only [Block.back, setSize_mem_of_ne hbn, setSize_mem_self]
      · have hd' := mem_of_mem_sides hd (b := b)
        have hne : d.addr ≠ b.addr + n := by
          intro hdn
          have hpos := (hs.tiles.bounds hd').2.1
          have heq := hs.tiles.eq_of_mem hd' hb (x := d.addr)
            ⟨le_rfl, by rw [Block.stop]; omega⟩ ⟨by omega, by rw [Block.stop]; omega⟩
          exact hs.addr_ne hd (congrArg Block.addr heq)
        exact ((hs.header d hd').setSize hne).setSize (hs.addr_ne hd)
  · intro d hd
    obtain ⟨haddr, hsize, -⟩ := hs.wellSized b hb
    rcases eq_or_mem_sides hd with rfl | hd
    · exact ⟨haddr, hn, hmin⟩
    · rcases eq_or_mem_sides hd with rfl | hd
      · refine ⟨Nat.dvd_add haddr hn, Nat.dvd_sub hsize hn, ?_⟩
        simp only [Block.back]
        omega
      · exact hs.wellSized d (mem_of_mem_sides hd)

lemma Shape.remark {h' : PortHeap} {k : BlockKind} (hs : Shape L (pre ++ b :: post) h)
    (hb : b.kind ≠ .free) (hk : k ≠ .free) (hend : h'.pxEnd = h.pxEnd)
    (hmem : ∀ a, a ≠ b.addr → h'.mem a = h.mem a) (hhead : Header h' (b.withKind k)) :
    Shape L (pre ++ b.withKind k :: post) h' := by
  have hbm : b ∈ pre ++ b :: post := by simp
  constructor
  · exact (tiles_withKind _).mpr hs.tiles
  · exact hend.trans hs.atEnd
  · rw [hmem _ (hs.ne_stop hbm).symm, hs.sentinel]
  · rw [hmem _ (hs.ne_xStart hbm).symm, hs.anchor]
  · refine hs.chain_congr ?_ fun a ha => ?_
    · rw [freeAddrs_append, freeAddrs_append, freeAddrs_cons_of_ne (by simpa using hk),
        freeAddrs_cons_of_ne hb]
    · rw [hmem a (hs.ne_of_mem_chain hbm hb ha).symm]
  · intro d hd
    rcases eq_or_mem_sides hd with rfl | hd
    · exact hhead
    · exact (hs.header d (mem_of_mem_sides hd)).congr (hmem _ (hs.addr_ne hd))
  · intro d hd
    rcases eq_or_mem_sides hd with rfl | hd
    · exact hs.wellSized b hbm
    · exact hs.wellSized d (mem_of_mem_sides hd)

end Writing

end PortHeap

end FrameworkXC32
