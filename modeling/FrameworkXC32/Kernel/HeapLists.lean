import FrameworkXC32.Kernel.HeapBlocks

/-!
# Searching and filling the free list

What the two loops find, and what `prvInsertBlockIntoFreeList` makes of a row of blocks: a block
that comes back is free again, and it is one block with a free neighbour.
-/

namespace FrameworkXC32
open LinkedHeap Tiling

namespace PortHeap

variable {L : HeapPlace} {bs pre post : List HeapBlock} {h : PortHeap} {b : HeapBlock}
  {l : List ℕ} {it : ℕ} {fuel : ℕ}

/-! ## The loops -/

lemma next_headD {p e : ℕ} {m : List ℕ} (hseg : Seg h.next (h.next p) m (some e)) :
    (h.mem p).pxNextFreeBlock = m.headD e := by
  cases m with
  | nil => exact Option.some.inj hseg
  | cons a m => exact Option.some.inj hseg.1

lemma insertLoop_eq {p e block : ℕ} {rest : List ℕ}
    (hseg : Seg h.next (some p) (l ++ it :: rest) (some e))
    (hbelow : ∀ a ∈ (l ++ [it]).tail, a < block) (habove : ∀ a ∈ rest ++ [e], block ≤ a)
    (hfuel : l.length < fuel) : insertLoop h block fuel p = some it := by
  induction l generalizing p fuel with
  | nil =>
    obtain ⟨fuel, rfl⟩ := Nat.exists_eq_add_of_lt hfuel
    obtain ⟨hp, hrest⟩ := hseg
    cases hp
    have hnext : (h.mem it).pxNextFreeBlock ∈ rest ++ [e] := by
      rw [next_headD hrest]
      cases rest <;> simp
    rw [List.length_nil, Nat.zero_add, insertLoop, if_neg (not_lt.mpr (habove _ hnext))]
  | cons x l ih =>
    cases fuel with
    | zero => exact absurd hfuel (Nat.not_lt_zero _)
    | succ fuel =>
      obtain ⟨hp, hrest⟩ := hseg
      cases hp
      have hnext : (h.mem x).pxNextFreeBlock ∈ l ++ [it] := by
        rw [next_headD hrest]
        cases l <;> simp
      rw [insertLoop, if_pos (hbelow _ hnext)]
      refine ih hrest (fun a ha => hbelow a (List.mem_of_mem_tail ha)) ?_
      simp only [List.length_cons] at hfuel
      omega

lemma searchLoop_eq {p e wanted : ℕ} (hseg : Seg h.next (some p) (l ++ [it]) (some e))
    (hsmall : ∀ a ∈ (l ++ [it]).tail, (h.mem a).xBlockSize < wanted ∧ a ≠ 0) (he : e ≠ 0)
    (hend : ¬((h.mem e).xBlockSize < wanted ∧ (h.mem e).pxNextFreeBlock ≠ 0))
    (hfuel : l.length < fuel) :
    searchLoop h wanted fuel p (h.mem p).pxNextFreeBlock = some (it, e) := by
  induction l generalizing p fuel with
  | nil =>
    obtain ⟨fuel, rfl⟩ := Nat.exists_eq_add_of_lt hfuel
    obtain ⟨hp, hrest⟩ := hseg
    cases hp
    have hnext : (h.mem it).pxNextFreeBlock = e := next_headD hrest
    rw [List.length_nil, Nat.zero_add, searchLoop, hnext, if_neg hend]
  | cons x l ih =>
    cases fuel with
    | zero => exact absurd hfuel (Nat.not_lt_zero _)
    | succ fuel =>
      obtain ⟨hp, hrest⟩ := hseg
      cases hp
      obtain ⟨q, hq⟩ : ∃ q, (h.mem x).pxNextFreeBlock = q := ⟨_, rfl⟩
      have hqmem : q ∈ l ++ [it] := by
        rw [← hq, next_headD hrest]
        cases l <;> simp
      -- the block looked at is not the last one, so its own link is not `NULL`
      have hqnext : (h.mem q).pxNextFreeBlock ≠ 0 := by
        cases l with
        | nil =>
          have hqit : q = it := by simpa using hqmem
          obtain ⟨-, hlast⟩ := hrest
          rw [hqit, show (h.mem it).pxNextFreeBlock = e from next_headD hlast]
          exact he
        | cons y l =>
          have hqy : q = y := hq.symm.trans (Option.some.inj hrest.1)
          have hmem : (h.mem y).pxNextFreeBlock ∈ l ++ [it] := by
            rw [next_headD hrest.2]
            cases l <;> simp
          rw [hqy]
          exact (hsmall _ (List.mem_cons_of_mem _ hmem)).2
      rw [next, hq] at hrest
      rw [hq, searchLoop, if_pos ⟨(hsmall q hqmem).1, hqnext⟩]
      refine ih hrest (fun a ha => hsmall a (List.mem_of_mem_tail ha)) ?_
      simp only [List.length_cons] at hfuel
      omega

/-! ## Merging -/

/-- No neighbour at this end is free. -/
def NotFree (c : Option HeapBlock) : Prop := ∀ d ∈ c, d.kind ≠ .free

lemma Shape.sum_lt (hs : Shape L bs h) {b : HeapBlock} (hb : b ∈ bs) :
    b.addr + b.size < 2 ^ 32 := by
  have hbounds := hs.bounds hb
  have hstop := HeapPlace.stop_lt (L := L)
  omega

lemma Shape.next_before (hs : Shape L (pre ++ b :: post) h) (hk : b.kind ≠ .free)
    (hit : L.xStart :: freeAddrs pre = l ++ [it]) :
    (h.mem it).pxNextFreeBlock = (freeAddrs post).headD L.stop := by
  obtain ⟨r, -, -, hrest⟩ := seg_append.mp (hs.chain_at hk hit)
  exact next_headD hrest

lemma Shape.next_free (hs : Shape L (pre ++ b :: post) h) (hk : b.kind = .free) :
    (h.mem b.addr).pxNextFreeBlock = (freeAddrs post).headD L.stop := by
  have hchain := hs.chain
  rw [freeAddrs_append, freeAddrs_cons_free hk, ← List.cons_append] at hchain
  obtain ⟨r, -, -, hrest⟩ := seg_append.mp hchain
  exact next_headD hrest

/-- Behind a block without a free neighbour, only the end of the heap can touch it. -/
lemma Shape.touches_end (hs : Shape L (pre ++ b :: post) h) (hpost : NotFree post.head?)
    (htouch : b.addr + b.size = (freeAddrs post).headD L.stop) :
    (freeAddrs post).headD L.stop = L.stop := by
  cases post with
  | nil => rw [freeAddrs_nil, List.headD_nil]
  | cons c cs =>
    have hkc : c.kind ≠ .free := hpost c rfl
    obtain ⟨-, -, hc, hcpos, hcs⟩ := tiles_middle.mp hs.tiles
    rw [freeAddrs_cons_of_ne hkc] at htouch ⊢
    cases hfree : freeAddrs cs with
    | nil => rw [List.headD_nil]
    | cons a as =>
      -- the free block lies behind `c`, which lies behind `b`
      obtain ⟨d, hd, -, hda⟩ := mem_freeAddrs.mp (hfree ▸ List.mem_cons_self : a ∈ freeAddrs cs)
      have hle := (hcs.bounds hd).1
      rw [hfree, List.headD_cons] at htouch
      rw [Block.stop] at hle hc
      omega

lemma Shape.touches_free {c : HeapBlock} (hs : Shape L (pre ++ b :: c :: post) h)
    (hc : c.kind = .free) :
    (freeAddrs (c :: post)).headD L.stop = c.addr ∧ b.addr + b.size = c.addr := by
  refine ⟨by rw [freeAddrs_cons_free hc, List.headD_cons], ?_⟩
  exact (tiles_middle.mp hs.tiles).2.2.1.symm

section MergeBehind

variable {c : HeapBlock}

lemma mergeBehind_of_not (hsum : b.addr + (h.mem b.addr).xBlockSize < 2 ^ 32)
    (hnot : b.addr + (h.mem b.addr).xBlockSize = (h.mem it).pxNextFreeBlock →
      (h.mem it).pxNextFreeBlock = h.pxEnd) :
    mergeBehind h it b.addr =
      if it ≠ b.addr then
        (h.setNext b.addr (h.mem it).pxNextFreeBlock).setNext it b.addr
      else h.setNext b.addr (h.mem it).pxNextFreeBlock := by
  rw [mergeBehind, addSize_eq hsum]
  by_cases htouch : b.addr + (h.mem b.addr).xBlockSize = (h.mem it).pxNextFreeBlock
  · have hend := htouch.trans (hnot htouch)
    simp only [hnot htouch, hend, ne_eq, not_true_eq_false, if_true, if_false]
  · simp only [if_neg htouch]

lemma mergeBehind_of_touch {p : ℕ} (hsum : b.addr + (h.mem b.addr).xBlockSize = p)
    (hnext : (h.mem it).pxNextFreeBlock = p) (hp : p ≠ h.pxEnd) (hlt : p < 2 ^ 32) :
    mergeBehind h it b.addr =
      let h' := (h.setSize b.addr (addSize (h.mem b.addr).xBlockSize (h.mem p).xBlockSize)).setNext
        b.addr (h.mem p).pxNextFreeBlock
      if it ≠ b.addr then h'.setNext it b.addr else h' := by
  rw [mergeBehind, addSize_eq (by omega), hnext]
  simp only [hsum, ↓reduceIte, hp, ne_eq, not_false_eq_true]

/-- A block that is in the list already, and has a neighbour behind it that is not free. -/
lemma Shape.mergeBehind_self (hs : Shape L (pre ++ b :: post) h) (hk : b.kind = .free)
    (hpost : NotFree post.head?) : Shape L (pre ++ b :: post) (mergeBehind h b.addr b.addr) := by
  have hb : b ∈ pre ++ b :: post := by simp
  have hsize := (hs.header b hb).size (by simp [hk])
  have hnext := hs.next_free hk
  have heq : mergeBehind h b.addr b.addr = h.setNext b.addr (h.mem b.addr).pxNextFreeBlock := by
    rw [mergeBehind_of_not (by rw [hsize]; exact hs.sum_lt hb), if_neg (by simp)]
    intro htouch
    rw [hsize, hnext] at htouch
    rw [hnext, hs.atEnd, hs.touches_end hpost htouch]
  rw [heq]
  have hmem : ∀ a, (h.setNext b.addr (h.mem b.addr).pxNextFreeBlock).mem a = h.mem a := by
    intro a
    by_cases ha : a = b.addr
    · rw [ha, setNext_mem_self]
    · rw [setNext_mem_of_ne ha]
  exact hs.congr rfl (hmem _) (hmem _) fun d _ => hmem _

lemma Shape.mergeBehind_self_join (hs : Shape L (pre ++ b :: c :: post) h) (hk : b.kind = .free)
    (hc : c.kind = .free) :
    Shape L (pre ++ b.join c .free :: post) (mergeBehind h b.addr b.addr) := by
  have hb : b ∈ pre ++ b :: c :: post := by simp
  have hcm : c ∈ pre ++ b :: c :: post := by simp
  have hsize := (hs.header b hb).size (by simp [hk])
  have hsizec := (hs.header c hcm).size (by simp [hc])
  obtain ⟨hhead, htouch⟩ := hs.touches_free hc
  have hcsum := hs.sum_lt hcm
  rw [mergeBehind_of_touch (p := c.addr) (by rw [hsize, htouch])
    (by rw [hs.next_free hk, hhead]) (by rw [hs.atEnd]; exact hs.ne_stop hcm) (by omega)]
  simp only [ne_eq, not_true_eq_false, if_false, hsize, hsizec]
  rw [addSize_eq (by have := hs.size_lt hb; have := hs.size_lt hcm; omega)]
  exact hs.joinBehind hk hc

/-- A block that was on its way back, with a neighbour behind it that is not free. -/
lemma Shape.mergeBehind_link (hs : Shape L (pre ++ b :: post) h) (hk : b.kind = .releasing)
    (hit : L.xStart :: freeAddrs pre = l ++ [it]) (hpost : NotFree post.head?) :
    Shape L (pre ++ b.withKind .free :: post) (mergeBehind h it b.addr) := by
  have hb : b ∈ pre ++ b :: post := by simp
  have hkf : b.kind ≠ .free := by simp [hk]
  have hsize := (hs.header b hb).size (by simp [hk])
  have hnext := hs.next_before hkf hit
  have hmem : it ∈ l ++ it :: freeAddrs post := by simp
  have hitb : it ≠ b.addr := (hs.ne_of_mem_chain hb hkf (mem_chain hit hmem)).symm
  rw [mergeBehind_of_not (by rw [hsize]; exact hs.sum_lt hb) ?_, if_pos hitb]
  · exact hs.link hk hit
  · intro htouch
    rw [hsize, hnext] at htouch
    rw [hnext, hs.atEnd, hs.touches_end hpost htouch]

lemma Shape.mergeBehind_link_join (hs : Shape L (pre ++ b :: c :: post) h)
    (hk : b.kind = .releasing) (hit : L.xStart :: freeAddrs pre = l ++ [it])
    (hc : c.kind = .free) :
    Shape L (pre ++ b.join c .free :: post) (mergeBehind h it b.addr) := by
  have hb : b ∈ pre ++ b :: c :: post := by simp
  have hcm : c ∈ pre ++ b :: c :: post := by simp
  have hkf : b.kind ≠ .free := by simp [hk]
  have hsize := (hs.header b hb).size (by simp [hk])
  have hsizec := (hs.header c hcm).size (by simp [hc])
  have hmem : it ∈ l ++ it :: freeAddrs (c :: post) := by simp
  have hitb : it ≠ b.addr := (hs.ne_of_mem_chain hb hkf (mem_chain hit hmem)).symm
  have hcb : c.addr ≠ b.addr := hs.addr_ne (by simp)
  obtain ⟨hhead, htouch⟩ := hs.touches_free hc
  have hcsum := hs.sum_lt hcm
  have hcit : c.addr ≠ it := by
    have hnodup := hs.nodup_at hkf hit
    rw [freeAddrs_cons_free hc] at hnodup
    have hne := (List.nodup_cons.mp (List.nodup_append.mp hnodup).2.1).1
    exact fun heq => hne (heq ▸ List.mem_cons_self)
  rw [mergeBehind_of_touch (p := c.addr) (by rw [hsize, htouch])
    (by rw [hs.next_before hkf hit, hhead]) (by rw [hs.atEnd]; exact hs.ne_stop hcm) (by omega)]
  simp only [ne_eq, hitb, not_false_eq_true, if_true, hsize, hsizec]
  rw [addSize_eq (by have := hs.size_lt hb; have := hs.size_lt hcm; omega)]
  -- the same memory as linking the block first and joining it then
  have hjoin := (hs.link hk hit).joinBehind (by simp) hc
  rw [Block.withKind_addr, Block.withKind_size, setNext_mem_of_ne hcit, setNext_mem_of_ne hcb]
    at hjoin
  have hmem : ∀ a, (((h.setSize b.addr (b.size + c.size)).setNext b.addr
      (h.mem c.addr).pxNextFreeBlock).setNext it b.addr).mem a =
      ((((h.setNext b.addr (h.mem it).pxNextFreeBlock).setNext it b.addr).setSize b.addr
        (b.size + c.size)).setNext b.addr (h.mem c.addr).pxNextFreeBlock).mem a := by
    intro a
    by_cases hab : a = b.addr
    · rw [hab, setNext_mem_of_ne hitb.symm, setNext_mem_self, setNext_mem_self, setSize_mem_self,
        setSize_mem_self]
    · by_cases hai : a = it
      · rw [hai, setNext_mem_self, setNext_mem_of_ne hitb, setNext_mem_of_ne hitb,
          setSize_mem_of_ne hitb, setSize_mem_of_ne hitb, setNext_mem_self, setNext_mem_of_ne hitb]
      · rw [setNext_mem_of_ne hai, setNext_mem_of_ne hab, setNext_mem_of_ne hab,
          setSize_mem_of_ne hab, setSize_mem_of_ne hab, setNext_mem_of_ne hai,
          setNext_mem_of_ne hab]
  exact hjoin.congr rfl (hmem _) (hmem _) fun d _ => hmem _

end MergeBehind

/-! ## Giving a block back -/

/-- The row of blocks `bs'` is the row `bs` as far as the blocks that are not free go. -/
def SameInUse (bs' bs : List HeapBlock) : Prop :=
  ∀ d : HeapBlock, d.kind ≠ .free → (d ∈ bs' ↔ d ∈ bs)

/-- The heap `h` shows the row `bs'` in which the block `b` between `pre` and `post` has become
free, and is one block with its free neighbours. -/
structure Inserted (L : HeapPlace) (pre post : List HeapBlock) (b : HeapBlock)
    (h : PortHeap) (bs' : List HeapBlock) : Prop where
  shape : Shape L bs' h
  coalesced : Coalesced .free bs'
  inUse : SameInUse bs' (pre ++ post)
  freeSize : freeSize bs' = freeSize (pre ++ post) + b.size

lemma sameInUse_middle {d : HeapBlock} (hd : d.kind = .free) :
    SameInUse (pre ++ d :: post) (pre ++ post) := by
  intro e he
  have hne : e ≠ d := fun hed => he (hed ▸ hd)
  simp [hne]

lemma freeSize_middle {d : HeapBlock} (hd : d.kind = .free) :
    freeSize (pre ++ d :: post) = freeSize (pre ++ post) + d.size := by
  rw [freeSize_append, freeSize_append, freeSize_cons_free hd]
  omega

lemma exists_free_head (hfirst : ¬NotFree post.head?) :
    ∃ c cs, post = c :: cs ∧ c.kind = .free := by
  cases post with
  | nil => exact absurd (fun d hd => absurd hd (by simp)) hfirst
  | cons c cs =>
    refine ⟨c, cs, rfl, by_contra fun hc => hfirst fun d hd => ?_⟩
    cases hd
    exact hc

lemma Shape.inserted_alone {d : HeapBlock} (hs : Shape L (pre ++ d :: post) h)
    (hd : d.kind = .free) (hsize : d.size = b.size) (hpre : Coalesced .free pre)
    (hpost : Coalesced .free post) (hlast : NotFree pre.getLast?) (hfirst : NotFree post.head?) :
    Inserted L pre post b h (pre ++ d :: post) where
  shape := hs
  coalesced := coalesced_middle.mpr ⟨hpre, hpost, fun _ => ⟨hlast, hfirst⟩⟩
  inUse := sameInUse_middle hd
  freeSize := by rw [freeSize_middle hd, hsize]

lemma Shape.inserted_joined {c : HeapBlock} (hs : Shape L (pre ++ b.join c .free :: post) h)
    (hc : c.kind = .free) (hpre : Coalesced .free pre) (hpost : Coalesced .free (c :: post))
    (hlast : NotFree pre.getLast?) :
    Inserted L pre (c :: post) b h (pre ++ b.join c .free :: post) where
  shape := hs
  coalesced := by
    obtain ⟨-, hrest, hnext⟩ := coalesced_middle (l := []).mp hpost
    exact coalesced_middle.mpr ⟨hpre, hrest, fun _ => ⟨hlast, (hnext hc).2⟩⟩
  inUse := fun d hd => by rw [sameInUse_middle rfl d hd, sameInUse_middle hc d hd]
  freeSize := by
    rw [freeSize_middle rfl, freeSize_middle hc, Block.join_size]
    omega

/-- The second half of the insertion, for a block that is in the list already. -/
lemma Shape.inserted_self (hs : Shape L (pre ++ b :: post) h) (hk : b.kind = .free)
    (hpre : Coalesced .free pre) (hpost : Coalesced .free post) (hlast : NotFree pre.getLast?) :
    ∃ bs', Inserted L pre post b (mergeBehind h b.addr b.addr) bs' := by
  by_cases hfirst : NotFree post.head?
  · exact ⟨_, (hs.mergeBehind_self hk hfirst).inserted_alone hk rfl hpre hpost hlast hfirst⟩
  · obtain ⟨c, cs, rfl, hc⟩ := exists_free_head hfirst
    exact ⟨_, (hs.mergeBehind_self_join hk hc).inserted_joined hc hpre hpost hlast⟩

/-- The second half, for a block that is not in the list. -/
lemma Shape.inserted_link (hs : Shape L (pre ++ b :: post) h) (hk : b.kind = .releasing)
    (hit : L.xStart :: freeAddrs pre = l ++ [it]) (hpre : Coalesced .free pre)
    (hpost : Coalesced .free post) (hlast : NotFree pre.getLast?) :
    ∃ bs', Inserted L pre post b (mergeBehind h it b.addr) bs' := by
  by_cases hfirst : NotFree post.head?
  · exact ⟨_, (hs.mergeBehind_link hk hit hfirst).inserted_alone rfl rfl hpre hpost hlast hfirst⟩
  · obtain ⟨c, cs, rfl, hc⟩ := exists_free_head hfirst
    exact ⟨_, (hs.mergeBehind_link_join hk hit hc).inserted_joined hc hpre hpost hlast⟩

lemma Shape.mergeBefore_none (hs : Shape L (pre ++ b :: post) h) (hlast : NotFree pre.getLast?)
    (hit : L.xStart :: freeAddrs pre = l ++ [it]) : mergeBefore h it b.addr = (h, b.addr) := by
  have hmem : it ∈ L.xStart :: freeAddrs pre := by simp [hit]
  have hapart : addSize it (h.mem it).xBlockSize ≠ b.addr := by
    rcases List.mem_cons.mp hmem with hx | hx
    · have hanchored := L.anchored
      rw [heapSizeMax] at hanchored
      rw [hx, hs.anchor, addSize_eq (by omega)]
      exact (hs.ne_xStart (by simp)).symm
    · obtain ⟨d, hd, hkd, rfl⟩ := mem_freeAddrs.mp hx
      have hd' : d ∈ pre ++ b :: post := by simp [hd]
      rw [(hs.header d hd').size (by simp [hkd]), addSize_eq (hs.sum_lt hd')]
      rcases pre.eq_nil_or_concat with rfl | ⟨pre, c, rfl⟩
      · exact absurd hd List.not_mem_nil
      · rw [List.concat_eq_append] at hd hlast hs
        have hkc : c.kind ≠ .free := hlast c (by simp)
        have hdc : d ∈ pre := by
          rcases List.mem_append.mp hd with hd | hd
          · exact hd
          · exact absurd (List.mem_singleton.mp hd ▸ hkd) hkc
        rw [List.append_assoc, List.singleton_append] at hs
        have hle := hs.stop_le_of_mem_left hdc
        have hc := (tiles_middle.mp hs.tiles).2.2.1
        have hpos := (tiles_middle.mp hs.tiles).2.1
        rw [Block.stop] at hle hc
        omega
  rw [mergeBefore, if_neg hapart]

lemma Shape.mergeBefore_some {c : HeapBlock} (hs : Shape L (pre ++ c :: b :: post) h)
    (hc : c.kind = .free) (hk : b.kind = .releasing) :
    mergeBefore h c.addr b.addr = (h.setSize c.addr (c.size + b.size), c.addr) := by
  have hcm : c ∈ pre ++ c :: b :: post := by simp
  have hbm : b ∈ pre ++ c :: b :: post := by simp
  have hsizec := (hs.header c hcm).size (by simp [hc])
  have hsizeb := (hs.header b hbm).size (by simp [hk])
  have htouch : c.addr + c.size = b.addr := (tiles_middle.mp hs.tiles).2.2.1.symm
  have hsum := hs.sum_lt hcm
  have hlt : c.size + b.size < 2 ^ 32 := by
    have := hs.size_lt hcm
    have := hs.size_lt hbm
    omega
  rw [mergeBefore, hsizec, hsizeb, addSize_eq hsum, if_pos htouch, addSize_eq hlt]

lemma Shape.insertLoop_eq (hs : Shape L (pre ++ b :: post) h) (hk : b.kind = .releasing)
    (hit : L.xStart :: freeAddrs pre = l ++ [it]) (hfuel : (freeAddrs pre).length < fuel) :
    insertLoop h b.addr fuel L.xStart = some it := by
  have hlen : l.length = (freeAddrs pre).length := by
    have hcongr := congrArg List.length hit
    simp only [List.length_cons, List.length_append, List.length_nil] at hcongr
    omega
  refine PortHeap.insertLoop_eq (hs.chain_at (by simp [hk]) hit) ?_ ?_ (by omega)
  · rw [← hit, List.tail_cons]
    intro a ha
    obtain ⟨d, hd, -, rfl⟩ := mem_freeAddrs.mp ha
    have hpos := (hs.tiles.bounds (List.mem_append_left _ hd)).2.1
    have hle := hs.stop_le_of_mem_left hd
    rw [Block.stop] at hle
    omega
  · intro a ha
    rcases List.mem_append.mp ha with ha | ha
    · obtain ⟨d, hd, -, rfl⟩ := mem_freeAddrs.mp ha
      have hle := hs.stop_le_of_mem_right hd
      rw [Block.stop] at hle
      omega
    · rw [List.mem_singleton.mp ha]
      exact (hs.bounds (by simp)).2.2.le

lemma mergeBefore_mem {p a : ℕ} (hit : a ≠ it) : (mergeBefore h it p).1.mem a = h.mem a := by
  rw [mergeBefore]
  split_ifs
  · exact setSize_mem_of_ne hit
  · rfl

lemma mergeBehind_mem {p a : ℕ} (hit : a ≠ it) (hp : a ≠ p) :
    (mergeBehind h it p).mem a = h.mem a := by
  simp only [mergeBehind]
  split_ifs <;> simp [hit, hp]

/-- The insertion writes to the head of the block and to links of the list before it. -/
lemma Shape.insert_mem {h' : PortHeap} {a : ℕ} (hs : Shape L (pre ++ b :: post) h)
    (hk : b.kind = .releasing) (hfuel : (freeAddrs pre).length < fuel)
    (hins : prvInsertBlockIntoFreeList L fuel b.addr h = some h') (hb : a ≠ b.addr)
    (ha : a ∉ L.xStart :: freeAddrs pre) : h'.mem a = h.mem a := by
  obtain ⟨l, it, hit⟩ : ∃ l it, L.xStart :: freeAddrs pre = l ++ [it] :=
    ⟨_, _, (List.dropLast_append_getLast (List.cons_ne_nil _ _)).symm⟩
  have hait : a ≠ it := by
    rintro rfl
    exact ha (by simp [hit])
  rw [prvInsertBlockIntoFreeList, hs.insertLoop_eq hk hit hfuel] at hins
  cases hins
  have hblock : a ≠ (mergeBefore h it b.addr).2 := by
    rw [mergeBefore]
    split_ifs
    · exact hait
    · exact hb
  exact (mergeBehind_mem hait hblock).trans (mergeBefore_mem hait)

/-- `prvInsertBlockIntoFreeList` makes a block free that is not in the list. -/
theorem Shape.insert (hs : Shape L (pre ++ b :: post) h) (hk : b.kind = .releasing)
    (hc : Coalesced .free (pre ++ b :: post)) (hfuel : (freeAddrs pre).length < fuel) :
    ∃ h' bs', prvInsertBlockIntoFreeList L fuel b.addr h = some h' ∧
      Inserted L pre post b h' bs' := by
  obtain ⟨hpre, hpost, -⟩ := coalesced_middle.mp hc
  obtain ⟨l, it, hit⟩ : ∃ l it, L.xStart :: freeAddrs pre = l ++ [it] :=
    ⟨_, _, (List.dropLast_append_getLast (List.cons_ne_nil _ _)).symm⟩
  rw [prvInsertBlockIntoFreeList, hs.insertLoop_eq hk hit hfuel, Option.map_some]
  by_cases hlast : NotFree pre.getLast?
  · rw [hs.mergeBefore_none hlast hit]
    obtain ⟨bs', hbs⟩ := hs.inserted_link hk hit hpre hpost hlast
    exact ⟨_, bs', rfl, hbs⟩
  · rcases pre.eq_nil_or_concat with rfl | ⟨pre, c, rfl⟩
    · exact absurd (fun d hd => absurd hd (by simp)) hlast
    · rw [List.concat_eq_append] at *
      have hkc : c.kind = .free := by
        by_contra hkc
        exact hlast fun d hd => by
          rw [List.getLast?_append_cons, List.getLast?_singleton] at hd
          cases hd
          exact hkc
      have hitc : it = c.addr := by
        rw [freeAddrs_append, freeAddrs_cons_free hkc, freeAddrs_nil, ← List.cons_append] at hit
        exact (List.cons.inj (List.append_inj' hit rfl).2).1.symm
      rw [List.append_assoc, List.singleton_append] at hs
      obtain ⟨hpre, -, hside⟩ := coalesced_middle.mp hpre
      rw [hitc, hs.mergeBefore_some hkc hk]
      obtain ⟨bs', hbs⟩ := (hs.joinBefore hkc hk).inserted_self rfl hpre hpost (hside hkc).1
      refine ⟨_, bs', rfl, hbs.shape, hbs.coalesced, fun d hd => ?_, ?_⟩
      · rw [hbs.inUse d hd, List.append_assoc, List.singleton_append,
          sameInUse_middle hkc d hd]
      · rw [hbs.freeSize, List.append_assoc, List.singleton_append, freeSize_middle hkc,
          Block.join_size]
        omega

lemma mergeBehind_counters {p : ℕ} : SameCounters (mergeBehind h it p) h := by
  simp only [mergeBehind]
  split_ifs <;> exact ⟨rfl, rfl, rfl⟩

lemma mergeBefore_counters {p : ℕ} : SameCounters (mergeBefore h it p).1 h := by
  simp only [mergeBefore]
  split_ifs <;> exact ⟨rfl, rfl, rfl⟩

lemma insert_counters {h' : PortHeap} {p : ℕ}
    (hi : prvInsertBlockIntoFreeList L fuel p h = some h') : SameCounters h' h := by
  obtain ⟨it, -, rfl⟩ := Option.map_eq_some_iff.mp hi
  have hbefore : SameCounters (mergeBefore h it p).1 h := mergeBefore_counters
  have hbehind : SameCounters
      (mergeBehind (mergeBefore h it p).1 it (mergeBefore h it p).2) (mergeBefore h it p).1 :=
    mergeBehind_counters
  exact ⟨hbehind.pxEnd.trans hbefore.pxEnd, hbehind.free.trans hbefore.free,
    hbehind.minimum.trans hbefore.minimum⟩

end PortHeap

end FrameworkXC32
