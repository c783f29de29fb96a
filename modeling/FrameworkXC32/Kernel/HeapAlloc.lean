import FrameworkXC32.Kernel.HeapLists
import Mathlib.Algebra.Order.Group.Nat

/-!
# Requests and returns on the row of blocks

`pvPortMalloc` takes the first free block that is large enough, or answers `NULL` when there is
none; `vPortFree` makes a block free again in its two steps.
-/

namespace FrameworkXC32
open LinkedHeap Tiling

namespace PortHeap

/-- The heap shows the row of blocks `bs`, no two free blocks are neighbours, and the count of
free bytes is right. -/
structure Holds (L : HeapPlace) (bs : List HeapBlock) (h : PortHeap) : Prop where
  shape : Shape L bs h
  coalesced : Coalesced .free bs
  remaining : h.xFreeBytesRemaining = freeSize bs

variable {L : HeapPlace} {bs pre post : List HeapBlock} {h : PortHeap} {b : HeapBlock}
  {l : List ℕ} {it n w : ℕ} {fuel : ℕ}

/-! ## The size of the block that a request needs -/

lemma wantedBlockSize_spec (n : ℕ) : wantedBlockSize n = 0 ∨
    8 ∣ wantedBlockSize n ∧ 16 ≤ wantedBlockSize n ∧ n + 8 ≤ wantedBlockSize n := by
  by_cases hn : 0 < n
  · by_cases hover : n > heapSizeMax - (xHeapStructSize + portByteAlignment - n % 8)
    · left
      simp only [wantedBlockSize, if_pos hn, and_alignmentMask, if_pos hover]
    · right
      have hmod : n % 8 < 8 := Nat.mod_lt _ (by decide)
      simp only [wantedBlockSize, if_pos hn, and_alignmentMask, if_neg hover]
      simp only [xHeapStructSize_eq, portByteAlignment, heapSizeMax] at hover ⊢
      rw [addSize_eq (by omega)]
      omega
  · left
    rw [wantedBlockSize, if_neg hn]
    omega

/-! ## Taking a block -/

lemma Shape.freeSize_lt (hs : Shape L bs h) : freeSize bs < 2 ^ 16 := by
  have hsum := hs.tiles.sum_size
  have hlen := HeapPlace.length_lt (L := L)
  have hle : freeSize bs ≤ (bs.map Block.size).sum :=
    List.Sublist.sum_le_sum (List.Sublist.map _ List.filter_sublist) fun _ _ => Nat.zero_le _
  omega

lemma Shape.size_le_freeSize (hb : b ∈ bs) (hk : b.kind = .free) : b.size ≤ freeSize bs := by
  obtain ⟨pre, post, rfl⟩ := List.append_of_mem hb
  rw [freeSize_append, freeSize_cons_free hk]
  omega

lemma Shape.length_le (hs : Shape L bs h) : (freeAddrs bs).length < 4096 := by
  have hsum := hs.tiles.sum_size
  have hlen := HeapPlace.length_lt (L := L)
  have hle : bs.length * 16 ≤ (bs.map Block.size).sum := by
    have hcard := List.card_nsmul_le_sum (bs.map Block.size) 16 fun x hx => by
      obtain ⟨d, hd, rfl⟩ := List.mem_map.mp hx
      exact (hs.wellSized d hd).2.2
    simpa using hcard
  have hfilter : (freeAddrs bs).length ≤ bs.length := by
    rw [freeAddrs, List.length_map]
    exact List.length_filter_le _ _
  omega

lemma exists_last_link (bs : List HeapBlock) :
    ∃ l it, L.xStart :: freeAddrs bs = l ++ [it] :=
  ⟨_, _, (List.dropLast_append_getLast (List.cons_ne_nil _ _)).symm⟩

lemma length_last_link (hit : L.xStart :: freeAddrs bs = l ++ [it]) :
    l.length = (freeAddrs bs).length := by
  have hcongr := congrArg List.length hit
  simp only [List.length_cons, List.length_append, List.length_nil] at hcongr
  omega

lemma Shape.addr_pos (hs : Shape L bs h) (hb : b ∈ bs) : b.addr ≠ 0 := by
  have hlow := (hs.bounds hb).1
  have hpos := HeapPlace.start_pos (L := L)
  omega

lemma Shape.small_of_mem (hs : Shape L bs h) (hpre : ∀ d ∈ pre, d ∈ bs)
    (hsmall : ∀ d ∈ pre, d.kind = .free → d.size < w)
    (hit : L.xStart :: freeAddrs pre = l ++ [it]) :
    ∀ a ∈ (l ++ [it]).tail, (h.mem a).xBlockSize < w ∧ a ≠ 0 := by
  rw [← hit, List.tail_cons]
  intro a ha
  obtain ⟨d, hd, hk, rfl⟩ := mem_freeAddrs.mp ha
  rw [(hs.header d (hpre d hd)).size (by simp [hk])]
  exact ⟨hsmall d hd hk, hs.addr_pos (hpre d hd)⟩

lemma Shape.search_found (hs : Shape L (pre ++ b :: post) h) (hk : b.kind = .free)
    (hw : w ≤ b.size) (hsmall : ∀ d ∈ pre, d.kind = .free → d.size < w)
    (hit : L.xStart :: freeAddrs pre = l ++ [it]) (hfuel : 4096 ≤ fuel) :
    searchLoop h w fuel L.xStart (h.mem L.xStart).pxNextFreeBlock = some (it, b.addr) := by
  have hb : b ∈ pre ++ b :: post := by simp
  have hlen := hs.length_le
  have hl := length_last_link hit
  rw [freeAddrs_append, List.length_append] at hlen
  refine searchLoop_eq ?_ (hs.small_of_mem (fun d hd => by simp [hd]) hsmall hit)
    (hs.addr_pos hb) ?_ (by omega)
  · have hchain := hs.chain
    rw [freeAddrs_append, freeAddrs_cons_free hk, ← List.cons_append, hit] at hchain
    obtain ⟨r, hl, hr, -⟩ := seg_append.mp hchain
    rw [hr] at hl
    exact hl
  · rw [(hs.header b hb).size (by simp [hk])]
    omega

lemma Shape.search_none (hs : Shape L bs h) (hsmall : ∀ d ∈ bs, d.kind = .free → d.size < w)
    (hfuel : 4096 ≤ fuel) :
    ∃ it, searchLoop h w fuel L.xStart (h.mem L.xStart).pxNextFreeBlock = some (it, L.stop) := by
  obtain ⟨l, it, hit⟩ := exists_last_link (L := L) bs
  have hlen := hs.length_le
  have hl := length_last_link hit
  refine ⟨it, searchLoop_eq ?_ (hs.small_of_mem (fun d hd => hd) hsmall hit) ?_ ?_ (by omega)⟩
  · have hchain := hs.chain
    rw [hit] at hchain
    exact hchain
  · have hstart := HeapPlace.start_pos (L := L)
    have hle := HeapPlace.start_le_stop (L := L)
    omega
  · rw [hs.sentinel]
    simp

/-! ## The claimed block -/

lemma claimBlock_mem_self (p : ℕ) :
    (claimBlock p h).mem p = ⟨0, (h.mem p).xBlockSize ||| heapBlockAllocatedBitmask⟩ := by
  rw [claimBlock, setCalls_mem, setNext_mem_self, setSize_mem_self, spendBytes, setFreeBytes_mem]

lemma claimBlock_mem_of_ne {p a : ℕ} (ha : a ≠ p) : (claimBlock p h).mem a = h.mem a := by
  rw [claimBlock, setCalls_mem, setNext_mem_of_ne ha, setSize_mem_of_ne ha, spendBytes,
    setFreeBytes_mem]

lemma claimBlock_pxEnd (p : ℕ) : (claimBlock p h).pxEnd = h.pxEnd := by
  rw [claimBlock, setCalls_pxEnd, setNext_pxEnd, setSize_pxEnd, spendBytes, setFreeBytes_pxEnd]

lemma claimBlock_free (p : ℕ) : (claimBlock p h).xFreeBytesRemaining =
    sizeSub h.xFreeBytesRemaining (h.mem p).xBlockSize := by
  rw [claimBlock, setCalls_free, setNext_free, setSize_free, spendBytes, setFreeBytes_free]

lemma claimBlock_minimum (p : ℕ) : (claimBlock p h).xMinimumEverFreeBytesRemaining =
    min h.xMinimumEverFreeBytesRemaining (claimBlock p h).xFreeBytesRemaining := by
  rw [claimBlock_free, claimBlock, setCalls_minimum, setNext_minimum, setSize_minimum, spendBytes,
    setFreeBytes_minimum]
  generalize sizeSub _ _ = remaining
  by_cases hlt : remaining < h.xMinimumEverFreeBytesRemaining
  · rw [if_pos hlt, min_eq_right hlt.le]
  · rw [if_neg hlt, min_eq_left (not_lt.mp hlt)]

lemma Shape.claim (hs : Shape L (pre ++ b :: post) h) (hk : b.kind = .releasing) :
    Shape L (pre ++ b.withKind .used :: post) (claimBlock b.addr h) := by
  have hb : b ∈ pre ++ b :: post := by simp
  refine hs.remark (by simp [hk]) (by simp) (claimBlock_pxEnd _)
    (fun a ha => claimBlock_mem_of_ne ha) ?_
  have hsize := hs.size_lt hb
  rw [Header, Block.withKind_kind, Block.withKind_addr, Block.withKind_size, claimBlock_mem_self,
    (hs.header b hb).size (by simp [hk]), or_allocatedBitmask (by omega)]

/-- The row of blocks after the block `b` was handed out: `s` is the size that it has then. -/
structure Taken (L : HeapPlace) (bs : List HeapBlock) (b : HeapBlock) (s : ℕ)
    (h h' : PortHeap) (bs' : List HeapBlock) : Prop where
  holds : Holds L bs' h'
  inUse : ∀ d : HeapBlock, d.kind ≠ .free → (d ∈ bs' ↔ d = ⟨b.addr, s, .used⟩ ∨ d ∈ bs)
  minimum : h'.xMinimumEverFreeBytesRemaining =
    min h.xMinimumEverFreeBytesRemaining h'.xFreeBytesRemaining

lemma Shape.taken_of_claim {rest : List HeapBlock} (hs : Shape L (pre ++ b :: post) h)
    (hk : b.kind = .releasing) (hc : Coalesced .free (pre ++ b :: post))
    (hremaining : h.xFreeBytesRemaining = freeSize (pre ++ b :: post) + b.size)
    (hrest : ∀ d : HeapBlock, d.kind ≠ .free → (d ∈ pre ++ post ↔ d ∈ rest)) :
    Taken L rest b b.size h (claimBlock b.addr h) (pre ++ b.withKind .used :: post) := by
  have hb : b ∈ pre ++ b :: post := by simp
  have hsize := (hs.header b hb).size (by simp [hk])
  have hlt := hs.freeSize_lt
  have hblt := hs.size_lt hb
  obtain ⟨hpre, hpost, -⟩ := coalesced_middle.mp hc
  refine ⟨⟨hs.claim hk, coalesced_middle.mpr ⟨hpre, hpost, fun hu => by simp at hu⟩, ?_⟩,
    fun d hd => ?_, claimBlock_minimum _⟩
  · rw [claimBlock_free, hsize, hremaining, sizeSub_eq (by omega) (by omega), freeSize_append,
      freeSize_append, freeSize_cons_of_ne (by simp [hk]), freeSize_cons_of_ne (by simp)]
    omega
  · rw [← hrest d hd]
    simp only [List.mem_append, List.mem_cons, Block.withKind]
    tauto

/-- Only the anchor of the list and what lies in free blocks has changed. -/
def ChangedInFree (L : HeapPlace) (bs : List HeapBlock) (h h' : PortHeap) : Prop :=
  ∀ a, a ≠ L.xStart → (∀ d ∈ bs, d.kind = .free → a < d.addr ∨ d.stop ≤ a) →
    h'.mem a = h.mem a

lemma notMem_chain_of_outside {a : ℕ} (hs : Shape L bs h) (hx : a ≠ L.xStart)
    (ha : ∀ d ∈ bs, d.kind = .free → a < d.addr ∨ d.stop ≤ a) :
    a ∉ L.xStart :: freeAddrs bs := by
  intro hmem
  rcases List.mem_cons.mp hmem with hmem | hmem
  · exact hx hmem
  · obtain ⟨d, hd, hk, rfl⟩ := mem_freeAddrs.mp hmem
    have hpos := (hs.tiles.bounds hd).2.1
    have hout := ha d hd hk
    rw [Block.stop] at hout
    omega

lemma mem_sides_of_ne_free {d : HeapBlock} (hk : b.kind = .free) (hd : d.kind ≠ .free) :
    d ∈ pre ++ post ↔ d ∈ pre ++ b :: post :=
  (sameInUse_middle hk d hd).symm

lemma Shape.split_whole (hs : Shape L (pre ++ b :: post) h) (hk : b.kind = .releasing)
    (hw : w ≤ b.size) (hrest : b.size ≤ w + 16) : splitBlock L fuel w b.addr h = some h := by
  have hb : b ∈ pre ++ b :: post := by simp
  have hlt := hs.size_lt hb
  rw [splitBlock, (hs.header b hb).size (by simp [hk]), sizeSub_eq hw (by omega),
    heapMinimumBlockSize_eq, if_neg (by omega)]

lemma Shape.split_cut (hs : Shape L (pre ++ b :: post) h) (hk : b.kind = .releasing)
    (hc : Coalesced .free (pre ++ b :: post)) (hdvd : 8 ∣ w) (hmin : 16 ≤ w)
    (hrest : w + 16 < b.size) (hfuel : 4096 ≤ fuel) :
    ∃ h' bs', splitBlock L fuel w b.addr h = some h' ∧ SameCounters h' h ∧
      Inserted L (pre ++ [b.front w .releasing]) post (b.back w .releasing) h' bs' ∧
      ∀ a, a ∉ L.xStart :: freeAddrs pre → a < b.addr ∨ b.stop ≤ a → h'.mem a = h.mem a := by
  have hb : b ∈ pre ++ b :: post := by simp
  have hlt := hs.size_lt hb
  have hsum := hs.sum_lt hb
  obtain ⟨hpre, hpost, -⟩ := coalesced_middle.mp hc
  have hcut := hs.split hk hdvd hmin hrest.le
  have hcoal : Coalesced .free
      ((pre ++ [b.front w .releasing]) ++ b.back w .releasing :: post) := by
    refine coalesced_middle.mpr ⟨?_, hpost, fun hback => by simp [Block.back] at hback⟩
    exact coalesced_middle.mpr ⟨hpre, List.isChain_nil, fun hfront => by
      simp [Block.front] at hfront⟩
  have hlen := hs.length_le
  rw [freeAddrs_append, List.length_append] at hlen
  rw [List.append_cons] at hcut
  have hfree : freeAddrs (pre ++ [b.front w .releasing]) = freeAddrs pre := by
    rw [freeAddrs_append, freeAddrs_cons_of_ne (by simp [Block.front]), freeAddrs_nil,
      List.append_nil]
  have hlen' : (freeAddrs (pre ++ [b.front w .releasing])).length < fuel := by
    rw [hfree]
    omega
  obtain ⟨h', bs', hins, hbs⟩ := hcut.insert rfl hcoal hlen'
  have halign : (b.addr + w) % 8 = 0 := by
    obtain ⟨haddr, -, -⟩ := hs.wellSized b hb
    omega
  refine ⟨h', bs', ?_, ?_, hbs, fun a ha hout => ?_⟩
  · rw [splitBlock, (hs.header b hb).size (by simp [hk]), sizeSub_eq (by omega) (by omega),
      heapMinimumBlockSize_eq, if_pos (by omega), addSize_eq (by omega)]
    simp only [and_alignmentMask, halign, if_true]
    exact hins
  · have hcounters := insert_counters hins
    exact ⟨hcounters.pxEnd, hcounters.free, hcounters.minimum⟩
  · rw [Block.stop] at hout
    have haddr : a ≠ b.addr ∧ a ≠ b.addr + w := by omega
    rw [hcut.insert_mem rfl hlen' hins haddr.2 (by rw [hfree]; exact ha),
      setSize_mem_of_ne haddr.1, setSize_mem_of_ne haddr.2]

/-- `pvPortMalloc` behind its search: the block that was found is handed out. -/
lemma Shape.take (hs : Shape L (pre ++ b :: post) h) (hk : b.kind = .free)
    (hc : Coalesced .free (pre ++ b :: post))
    (hremaining : h.xFreeBytesRemaining = freeSize (pre ++ b :: post))
    (hit : L.xStart :: freeAddrs pre = l ++ [it]) (hdvd : 8 ∣ w) (hmin : 16 ≤ w)
    (hw : w ≤ b.size) (hfuel : 4096 ≤ fuel) :
    ∃ h' bs' s, takeBlock L fuel w it b.addr h = some (h', b.addr + 8) ∧
      Taken L (pre ++ b :: post) b s h h' bs' ∧ w ≤ s ∧
      ChangedInFree L (pre ++ b :: post) h h' := by
  have hb : b ∈ pre ++ b :: post := by simp
  have hunlink := hs.unlink hk hit
  have hb' : b.withKind .releasing ∈ pre ++ b.withKind .releasing :: post := by simp
  obtain ⟨hpre, hpost, -⟩ := coalesced_middle.mp hc
  have hcoal : Coalesced .free (pre ++ b.withKind .releasing :: post) :=
    coalesced_middle.mpr ⟨hpre, hpost, fun hr => by simp at hr⟩
  have hnext : (h.mem it).pxNextFreeBlock = b.addr := by
    have hchain := hs.chain
    rw [freeAddrs_append, freeAddrs_cons_free hk, ← List.cons_append, hit, List.append_assoc,
      List.singleton_append] at hchain
    obtain ⟨r, -, -, hrest⟩ := seg_append.mp hchain
    exact next_headD hrest
  have hfree : freeSize (pre ++ b :: post) = freeSize (pre ++ post) + b.size :=
    freeSize_middle hk
  have hreturn : addSize (h.mem it).pxNextFreeBlock xHeapStructSize = b.addr + 8 := by
    have hlt := (hs.bounds hb).2.2
    have hstop := HeapPlace.stop_lt (L := L)
    rw [hnext, xHeapStructSize_eq, addSize_eq (by omega)]
  have hpos := (hs.tiles.bounds hb).2.1
  have hitmem : it ∈ L.xStart :: freeAddrs (pre ++ b :: post) := by
    rw [freeAddrs_append, ← List.cons_append, hit]
    simp
  set h₁ := h.setNext it (h.mem b.addr).pxNextFreeBlock with hh₁
  -- an address outside the free blocks is neither the link before `b` nor in `b`
  have houtside : ∀ a, a ≠ L.xStart →
      (∀ d ∈ pre ++ b :: post, d.kind = .free → a < d.addr ∨ d.stop ≤ a) →
      a ∉ L.xStart :: freeAddrs pre ∧ (a < b.addr ∨ b.stop ≤ a) ∧ a ≠ b.addr ∧
        h₁.mem a = h.mem a := by
    intro a hx ha
    have hchain := notMem_chain_of_outside hs hx ha
    have hin := ha b hb hk
    refine ⟨fun hmem => hchain ?_, hin, ?_, ?_⟩
    · rw [freeAddrs_append, ← List.cons_append]
      exact List.mem_append_left _ hmem
    · rw [Block.stop] at hin
      omega
    · exact setNext_mem_of_ne fun hai => hchain (hai ▸ hitmem)
  by_cases hcut : w + 16 < b.size
  · obtain ⟨h₂, bs₂, hsplit, hcounters, hins, hmem₂⟩ :=
      hunlink.split_cut rfl hcoal hdvd hmin hcut hfuel
    set front := (b.withKind .releasing).front w .releasing with hfront
    have hmem : front ∈ bs₂ := (hins.inUse front (by simp [hfront, Block.front])).mpr (by simp)
    obtain ⟨l₂, m₂, rfl⟩ := List.append_of_mem hmem
    have hnotin : ∀ d ∈ pre ++ post, d ≠ front := fun d hd heq =>
      hs.addr_ne hd (by rw [heq]; rfl)
    have hsides : ∀ d : HeapBlock, d.kind ≠ .free →
        (d ∈ l₂ ++ m₂ ↔ d ∈ pre ++ b :: post) := by
      intro d hd
      rw [← mem_sides_of_ne_free hk hd]
      have hiff := hins.inUse d hd
      constructor
      · intro hdm
        have hin := hiff.mp (mem_of_mem_sides hdm)
        have hne : d ≠ front := fun heq => hins.shape.addr_ne hdm (congrArg Block.addr heq)
        simpa [hne] using hin
      · intro hdm
        have hne := hnotin d hdm
        have hin := hiff.mpr (by
          rcases List.mem_append.mp hdm with hdm | hdm <;> simp [hdm])
        exact (eq_or_mem_sides hin).resolve_left hne
    have hsingle : freeSize [front] = 0 :=
      freeSize_cons_of_ne (by simp [hfront, Block.front]) []
    have hremaining₂ : h₂.xFreeBytesRemaining = freeSize (l₂ ++ front :: m₂) + front.size := by
      rw [hcounters.free, hins.freeSize, freeSize_append, freeSize_append pre, hsingle, hh₁,
        setNext_free, hremaining, hfree, freeSize_append]
      simp only [hfront, Block.front, Block.back, Block.withKind_size]
      omega
    have htaken := hins.shape.taken_of_claim (b := front) rfl hins.coalesced hremaining₂ hsides
    refine ⟨_, _, w, ?_, ⟨htaken.holds, htaken.inUse, ?_⟩, le_rfl, fun a hx ha => ?_⟩
    · rw [takeBlock, hreturn]
      simp only [← hh₁]
      rw [show b.addr = (b.withKind BlockKind.releasing).addr from rfl, hsplit]
      rfl
    · rw [htaken.minimum, hcounters.minimum, hh₁, setNext_minimum]
    · obtain ⟨hchain, hout, hne, heq⟩ := houtside a hx ha
      exact (claimBlock_mem_of_ne (p := front.addr) hne).trans ((hmem₂ a hchain hout).trans heq)
  · have hremaining₁ : h₁.xFreeBytesRemaining =
        freeSize (pre ++ b.withKind .releasing :: post) + (b.withKind .releasing).size := by
      rw [hh₁, setNext_free, hremaining, hfree, freeSize_append, freeSize_append,
        freeSize_cons_of_ne (by simp), Block.withKind_size]
    have hsides : ∀ d : HeapBlock, d.kind ≠ .free → (d ∈ pre ++ post ↔ d ∈ pre ++ b :: post) :=
      fun d hd => mem_sides_of_ne_free hk hd
    have htaken := hunlink.taken_of_claim rfl hcoal hremaining₁ hsides
    refine ⟨_, _, b.size, ?_, ⟨htaken.holds, htaken.inUse, ?_⟩, hw, fun a hx ha => ?_⟩
    · rw [takeBlock, hreturn]
      simp only [← hh₁]
      rw [show b.addr = (b.withKind BlockKind.releasing).addr from rfl,
        hunlink.split_whole rfl hw (not_lt.mp hcut)]
      rfl
    · rw [htaken.minimum, hh₁, setNext_minimum]
    · obtain ⟨-, -, hne, heq⟩ := houtside a hx ha
      exact (claimBlock_mem_of_ne (p := b.addr) hne).trans heq

/-! ## pvPortMalloc -/

lemma Shape.pxEnd_ne (hs : Shape L bs h) : h.pxEnd ≠ 0 := by
  have hstart := HeapPlace.start_pos (L := L)
  have hle := HeapPlace.start_le_stop (L := L)
  rw [hs.atEnd]
  omega

lemma exists_first_fit (h : ∃ b ∈ bs, b.kind = .free ∧ w ≤ b.size) :
    ∃ pre b post, bs = pre ++ b :: post ∧ b.kind = .free ∧ w ≤ b.size ∧
      ∀ d ∈ pre, d.kind = .free → d.size < w := by
  have hsome : (bs.find? fun b => b.kind = .free ∧ w ≤ b.size).isSome := by
    rw [List.find?_isSome]
    obtain ⟨b, hb, hfit⟩ := h
    exact ⟨b, hb, by simpa using hfit⟩
  obtain ⟨b, hfind⟩ := Option.isSome_iff_exists.mp hsome
  obtain ⟨hfit, pre, post, rfl, hpre⟩ := List.find?_eq_some_iff_append.mp hfind
  have hb : b.kind = .free ∧ w ≤ b.size := by simpa using hfit
  refine ⟨pre, b, post, rfl, hb.1, hb.2, fun d hd hk => ?_⟩
  have hnot := hpre d hd
  simp only [hk, true_and, Bool.not_eq_true', decide_eq_false_iff_not, not_le] at hnot
  exact hnot

/-- A request that some free block can satisfy is given the first such block. -/
theorem Holds.malloc_fit (hh : Holds L bs h) (hw : 0 < wantedBlockSize n)
    (hfit : ∃ b ∈ bs, b.kind = .free ∧ wantedBlockSize n ≤ b.size) (hfuel : 4096 ≤ fuel) :
    ∃ pre b post h' bs' s, bs = pre ++ b :: post ∧ b.kind = .free ∧ wantedBlockSize n ≤ b.size ∧
      (∀ d ∈ pre, d.kind = .free → d.size < wantedBlockSize n) ∧
      pvPortMalloc L fuel n h = some (h', b.addr + 8) ∧ Taken L bs b s h h' bs' ∧
      wantedBlockSize n ≤ s ∧ ChangedInFree L bs h h' := by
  obtain ⟨hdvd, hmin, -⟩ := (wantedBlockSize_spec n).resolve_left hw.ne'
  obtain ⟨pre, b, post, rfl, hk, hb, hpre⟩ := exists_first_fit hfit
  obtain ⟨l, it, hit⟩ := exists_last_link (L := L) pre
  have hbm : b ∈ pre ++ b :: post := by simp
  have hsearch := hh.shape.search_found hk hb hpre hit hfuel
  obtain ⟨h', bs', s, htake, htaken, hs, hchanged⟩ :=
    hh.shape.take hk hh.coalesced hh.remaining hit hdvd hmin hb hfuel
  refine ⟨pre, b, post, h', bs', s, rfl, hk, hb, hpre, ?_, htaken, hs, hchanged⟩
  have hle := Shape.size_le_freeSize hbm hk
  have hlt := hh.shape.freeSize_lt
  have hvalid : blockSizeIsValid (wantedBlockSize n) = true := blockSizeIsValid_of_lt (by omega)
  have hcond : blockSizeIsValid (wantedBlockSize n) = true ∧ 0 < wantedBlockSize n ∧
      wantedBlockSize n ≤ h.xFreeBytesRemaining := ⟨hvalid, hw, by rw [hh.remaining]; omega⟩
  have hend : b.addr ≠ h.pxEnd := by
    rw [hh.shape.atEnd]
    exact hh.shape.ne_stop hbm
  obtain ⟨haddr, -, -⟩ := hh.shape.wellSized b hbm
  have halign : (b.addr + 8) % 8 = 0 := by omega
  simp only [pvPortMalloc, if_neg hh.shape.pxEnd_ne, if_pos hcond, hsearch, Option.bind_eq_bind,
    Option.bind_some, if_pos hend, htake, and_alignmentMask, halign, if_true]

lemma size_lt_of_not_fit {w : ℕ} (h : ¬(0 < w ∧ ∃ b ∈ bs, b.kind = .free ∧ w ≤ b.size)) :
    w = 0 ∨ ∀ b ∈ bs, b.kind = .free → b.size < w := by
  by_cases hw : 0 < w
  · refine Or.inr fun b hb hk => ?_
    by_contra hlt
    exact h ⟨hw, b, hb, hk, not_lt.mp hlt⟩
  · exact Or.inl (Nat.eq_zero_of_not_pos hw)

/-- A request that no free block can satisfy is answered with `NULL`, and nothing changes. -/
theorem Holds.malloc_none (hh : Holds L bs h)
    (hnone : wantedBlockSize n = 0 ∨ ∀ b ∈ bs, b.kind = .free → b.size < wantedBlockSize n)
    (hfuel : 4096 ≤ fuel) : pvPortMalloc L fuel n h = some (h, 0) := by
  have hnull : 0 &&& portByteAlignmentMask = 0 := Nat.zero_and _
  simp only [pvPortMalloc, if_neg hh.shape.pxEnd_ne]
  by_cases hcond : blockSizeIsValid (wantedBlockSize n) = true ∧ 0 < wantedBlockSize n ∧
      wantedBlockSize n ≤ h.xFreeBytesRemaining
  · have hsmall := hnone.resolve_left hcond.2.1.ne'
    obtain ⟨it, hsearch⟩ := hh.shape.search_none hsmall hfuel
    rw [← hh.shape.atEnd] at hsearch
    simp only [if_pos hcond, hsearch, Option.bind_eq_bind, Option.bind_some, ne_eq,
      not_true_eq_false, if_false, if_pos hnull]
  · simp only [if_neg hcond, Option.bind_eq_bind, Option.bind_some, if_pos hnull]

/-! ## vPortFree -/

/-- The first step of `vPortFree` on a block that belongs to the application. -/
theorem Holds.release (hh : Holds L (pre ++ b :: post) h) (hk : b.kind = .used) :
    ∃ h', vPortFreeRelease (b.addr + 8) h = some h' ∧
      Holds L (pre ++ b.withKind .releasing :: post) h' ∧ SameCounters h' h := by
  have hb : b ∈ pre ++ b :: post := by simp
  have hlt := hh.shape.size_lt hb
  have hbounds := hh.shape.bounds hb
  have hstop := HeapPlace.stop_lt (L := L)
  have hheader : h.mem b.addr = ⟨0, b.size + 2 ^ 31⟩ := by
    have hhead := hh.shape.header b hb
    rw [Header, hk] at hhead
    exact hhead
  have hlink : sizeSub (b.addr + 8) xHeapStructSize = b.addr := by
    rw [xHeapStructSize_eq, sizeSub_eq (by omega) (by omega), Nat.add_sub_cancel]
  have hallocated : blockIsAllocated ⟨0, b.size + 2 ^ 31⟩ = true := by
    have hne := and_allocatedBitmask (show b.size < 2 ^ 31 by omega)
    simpa [blockIsAllocated] using hne
  obtain ⟨hpre, hpost, -⟩ := coalesced_middle.mp hh.coalesced
  refine ⟨h.setSize b.addr b.size, ?_, ⟨?_, ?_, ?_⟩, ⟨rfl, rfl, rfl⟩⟩
  · simp only [vPortFreeRelease, hlink, hheader, hallocated, and_self, if_true]
    rw [and_not_allocatedBitmask (by omega)]
  · refine hh.shape.remark (by simp [hk]) (by simp) rfl (fun a ha => setSize_mem_of_ne ha) ?_
    refine header_of_size (by simp) ?_
    rw [Block.withKind_addr, setSize_mem_self, Block.withKind_size]
  · exact coalesced_middle.mpr ⟨hpre, hpost, fun hr => by simp at hr⟩
  · rw [setSize_free, hh.remaining, freeSize_append, freeSize_append,
      freeSize_cons_of_ne (by simp [hk]), freeSize_cons_of_ne (by simp)]

/-- The second step: the block is free again. -/
theorem Holds.giveBack (hh : Holds L (pre ++ b :: post) h) (hk : b.kind = .releasing)
    (hfuel : 4096 ≤ fuel) :
    ∃ h' bs', vPortFreeInsert L fuel (b.addr + 8) h = some h' ∧ Holds L bs' h' ∧
      SameInUse bs' (pre ++ post) ∧
      h'.xFreeBytesRemaining = h.xFreeBytesRemaining + b.size ∧
      h'.xMinimumEverFreeBytesRemaining = h.xMinimumEverFreeBytesRemaining := by
  have hb : b ∈ pre ++ b :: post := by simp
  have hlt := hh.shape.size_lt hb
  have hfree := hh.shape.freeSize_lt
  have hbounds := hh.shape.bounds hb
  have hstop := HeapPlace.stop_lt (L := L)
  have hlink : sizeSub (b.addr + 8) xHeapStructSize = b.addr := by
    rw [xHeapStructSize_eq, sizeSub_eq (by omega) (by omega), Nat.add_sub_cancel]
  have hsize := (hh.shape.header b hb).size (by simp [hk])
  have hlen := hh.shape.length_le
  rw [freeAddrs_append, List.length_append] at hlen
  obtain ⟨h₁, hh₁⟩ : ∃ h₁, h₁ = h.setFreeBytes
      (addSize h.xFreeBytesRemaining (h.mem b.addr).xBlockSize)
      h.xMinimumEverFreeBytesRemaining := ⟨_, rfl⟩
  have hshape : Shape L (pre ++ b :: post) h₁ := by
    rw [hh₁]
    exact hh.shape.congr rfl rfl rfl fun _ _ => rfl
  have hlen' : (freeAddrs pre).length < fuel := by omega
  obtain ⟨h₂, bs', hins, hbs⟩ := hshape.insert hk hh.coalesced hlen'
  have hcounters := insert_counters hins
  refine ⟨h₂.setCalls h₂.xNumberOfSuccessfulAllocations
    (addSize h₂.xNumberOfSuccessfulFrees 1), bs', ?_, ⟨?_, hbs.coalesced, ?_⟩, hbs.inUse, ?_, ?_⟩
  · simp only [vPortFreeInsert, hlink, ← hh₁, hins, Option.bind_eq_bind, Option.bind_some]
  · exact hbs.shape.congr rfl rfl rfl fun _ _ => rfl
  · rw [setCalls_free, hcounters.free, hh₁, setFreeBytes_free, hsize, hh.remaining,
      addSize_eq (by omega), hbs.freeSize, freeSize_append, freeSize_append,
      freeSize_cons_of_ne (by simp [hk])]
  · rw [setCalls_free, hcounters.free, hh₁, setFreeBytes_free, hsize, hh.remaining,
      addSize_eq (by omega)]
  · rw [setCalls_minimum, hcounters.minimum, hh₁, setFreeBytes_minimum]

/-- What the application writes between the heads of the blocks changes nothing. -/
lemma Holds.store_inside (hh : Holds L (pre ++ b :: post) h) {p : ℕ} {v : BlockLink}
    (hlow : b.addr < p) (hhigh : p < b.stop) : Holds L (pre ++ b :: post) (h.store p v) := by
  have hb : b ∈ pre ++ b :: post := by simp
  have hbounds := hh.shape.bounds hb
  rw [Block.stop] at hhigh
  have hin : L.start ≤ p ∧ p < L.stop := by omega
  refine ⟨hh.shape.congr rfl ?_ ?_ fun d hd => ?_, hh.coalesced, hh.remaining⟩
  · exact store_mem_of_ne (HeapPlace.xStart_apart hin.1 hin.2.le).symm
  · exact store_mem_of_ne hin.2.ne'
  · refine store_mem_of_ne fun hdp => ?_
    have hpos := (hh.shape.tiles.bounds hd).2.1
    have heq := hh.shape.tiles.eq_of_mem hd hb (x := p) (by rw [Block.stop]; omega)
      (by rw [Block.stop]; omega)
    rw [← hdp, heq] at hlow
    omega

/-! ## Initialisation -/

lemma init_start : (if L.ucHeap &&& portByteAlignmentMask ≠ 0 then
      let aligned := alignDown (addSize L.ucHeap (portByteAlignment - 1))
      (aligned, sizeSub configTotalHeapSize (sizeSub aligned L.ucHeap))
    else (L.ucHeap, configTotalHeapSize)) =
    (L.start, L.ucHeap + configTotalHeapSize - L.start) := by
  have hfits := L.fits
  have htotal : configTotalHeapSize = 65536 := by decide
  rw [heapSizeMax, htotal] at hfits
  have hadd : addSize L.ucHeap (portByteAlignment - 1) = L.ucHeap + 7 := by
    rw [addSize_eq (by rw [portByteAlignment]; omega), portByteAlignment]
  have hdown : alignDown (L.ucHeap + 7) = L.start := alignDown_eq (by omega)
  have hle := HeapPlace.ucHeap_le_start (L := L)
  have hstart : L.start = (L.ucHeap + 7) / 8 * 8 := rfl
  have hsub : sizeSub L.start L.ucHeap = L.start - L.ucHeap := sizeSub_eq hle (by omega)
  by_cases halign : L.ucHeap &&& portByteAlignmentMask ≠ 0
  · simp only [if_pos halign, hadd, hdown, hsub, htotal]
    rw [sizeSub_eq (by omega) (by omega)]
    exact Prod.ext rfl (by omega)
  · rw [if_neg halign, htotal]
    rw [and_alignmentMask, not_not] at halign
    exact Prod.ext (by omega) (by omega)

/-- The heap before anything is requested: one free block. -/
def wholeHeap (L : HeapPlace) : HeapBlock := ⟨L.start, L.stop - L.start, .free⟩

lemma prvHeapInit_eq (h : PortHeap) :
    prvHeapInit L h = ((((h.store L.xStart ⟨L.start, 0⟩).setEnd L.stop).store L.stop ⟨0, 0⟩).store
      L.start ⟨L.stop, L.stop - L.start⟩).setFreeBytes (L.stop - L.start) (L.stop - L.start) := by
  have hfits := L.fits
  have htotal : configTotalHeapSize = 65536 := by decide
  have hle := HeapPlace.ucHeap_le_start (L := L)
  have hstart := HeapPlace.start_le_stop (L := L)
  have hstop := HeapPlace.stop_lt (L := L)
  have hdef : L.stop = (L.ucHeap + configTotalHeapSize - 8) / 8 * 8 := rfl
  rw [heapSizeMax, htotal] at hfits
  rw [htotal] at hdef
  have hstart' : L.start = (L.ucHeap + 7) / 8 * 8 := rfl
  have hend : alignDown (sizeSub (addSize L.start (L.ucHeap + configTotalHeapSize - L.start))
      xHeapStructSize) = L.stop := by
    rw [htotal, addSize_eq (by omega), xHeapStructSize_eq, sizeSub_eq (by omega) (by omega),
      alignDown_eq (by omega), hdef]
    congr 2
    omega
  have hsub : sizeSub L.stop L.start = L.stop - L.start := sizeSub_eq (by omega) (by omega)
  simp only [prvHeapInit, init_start, hend, hsub, store_mem_self]

theorem holds_init (h : PortHeap) : Holds L [wholeHeap L] (prvHeapInit L h) := by
  have hle := HeapPlace.start_le_stop (L := L)
  have hx := HeapPlace.xStart_apart (L := L) le_rfl (by omega)
  have hne : L.start ≠ L.stop := by omega
  have hdvd : 8 ∣ L.start := Nat.dvd_mul_left 8 _
  have hdvd' : 8 ∣ L.stop := Nat.dvd_mul_left 8 _
  rw [prvHeapInit_eq]
  refine ⟨⟨⟨rfl, ?_, ?_⟩, ?_, ?_, ?_, ⟨rfl, ?_, ?_⟩, ?_, ?_⟩, List.isChain_singleton _, ?_⟩
  · simp only [wholeHeap]
    omega
  · simp only [Block.stop, wholeHeap, tiles_nil]
    omega
  · rw [setFreeBytes_pxEnd, store_pxEnd, store_pxEnd, setEnd_pxEnd]
  · rw [setFreeBytes_mem, store_mem_of_ne hne.symm, store_mem_self]
  · rw [setFreeBytes_mem, store_mem_of_ne hx.symm, store_mem_of_ne stop_ne_xStart.symm, setEnd_mem,
      store_mem_self]
  · rw [next, setFreeBytes_mem, store_mem_of_ne hx.symm, store_mem_of_ne stop_ne_xStart.symm,
      setEnd_mem, store_mem_self]
    rfl
  · rw [next, setFreeBytes_mem]
    simp only [wholeHeap, store_mem_self]
    rfl
  · intro b hb
    rw [List.mem_singleton.mp hb]
    refine header_of_size (by simp [wholeHeap]) ?_
    simp only [wholeHeap, setFreeBytes_mem, store_mem_self]
  · intro b hb
    rw [List.mem_singleton.mp hb]
    refine ⟨hdvd, Nat.dvd_sub hdvd' hdvd, ?_⟩
    simp only [wholeHeap]
    omega
  · rw [setFreeBytes_free, freeSize_cons_free rfl, freeSize_nil]
    rfl

end PortHeap

end FrameworkXC32
