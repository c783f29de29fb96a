import FrameworkXC32.Critical.Processes
import FrameworkXC32.Lib.Segment
import Mathlib.Data.List.Basic

/-!
# The list of background processes

What `addProcess` and `delProcess` do to the nodes that `pListProcess` leads to.
-/

namespace FrameworkXC32
open Machine LinkedHeap

namespace Processes

def next (s : Processes) (p : ℕ) : Option ℕ := (s.heap p).bind ProcessNode.next

def cbAt (s : Processes) (p : ℕ) : Option ℕ := (s.heap p).map ProcessNode.cb

def head (s : Processes) : Option ℕ := s.pListProcess.getD none

/-- The list consists of the nodes `l`, all of which are allocated. -/
structure Lists (s : Processes) (l : List ℕ) : Prop where
  seg : Seg s.next s.head l none
  live : ∀ p ∈ l, (s.heap p).isSome

variable {s : Processes} {l : List ℕ}

lemma Lists.nodup (h : s.Lists l) : l.Nodup := h.seg.nodup

lemma Lists.notMem_of_concat {a : ℕ} (h : s.Lists (l ++ [a])) : a ∉ l :=
  fun hal => (List.nodup_append.mp h.nodup).2.2 a hal a (List.mem_singleton_self a) rfl

lemma next_setNode (s : Processes) (p : ℕ) (node : Option ProcessNode) :
    (s.setNode p node).next = Function.update s.next p (node.bind ProcessNode.next) := by
  funext q
  unfold next setNode
  dsimp only
  by_cases hq : q = p
  · rw [hq, Function.update_self, Function.update_self]
  · rw [Function.update_of_ne hq, Function.update_of_ne hq]

lemma cbAt_setNode_of_ne {p q : ℕ} (hq : q ≠ p) (s : Processes) (node : Option ProcessNode) :
    (s.setNode p node).cbAt q = s.cbAt q := by
  unfold cbAt setNode
  dsimp only
  rw [Function.update_of_ne hq]

lemma heap_setNode_self (s : Processes) (p : ℕ) (node : Option ProcessNode) :
    (s.setNode p node).heap p = node :=
  Function.update_self _ _ _

lemma heap_setNode_of_ne {p q : ℕ} (hq : q ≠ p) (s : Processes) (node : Option ProcessNode) :
    (s.setNode p node).heap q = s.heap q :=
  Function.update_of_ne hq _ _

/-! ### Walks -/

lemma lastProcess_spec {fuel p z : ℕ} {m : List ℕ} (hseg : Seg s.next (some p) (m ++ [z]) none)
    (hlive : ∀ q ∈ m ++ [z], (s.heap q).isSome) (hfuel : m.length < fuel) :
    lastProcess fuel s p = some z := by
  induction m generalizing fuel p with
  | nil =>
    obtain ⟨fuel, rfl⟩ := Nat.exists_eq_succ_of_ne_zero (Nat.ne_of_gt hfuel)
    obtain ⟨hp, hend⟩ := hseg
    cases hp
    obtain ⟨node, hnode⟩ := Option.isSome_iff_exists.mp (hlive z (by simp))
    have hnext : node.next = none := by
      rw [seg_nil, next, hnode] at hend
      exact hend
    rw [lastProcess, hnode]
    simp [hnext]
  | cons q m ih =>
    obtain ⟨fuel, rfl⟩ := Nat.exists_eq_succ_of_ne_zero (Nat.ne_of_gt (Nat.zero_lt_of_lt hfuel))
    obtain ⟨hp, hrest⟩ := hseg
    cases hp
    obtain ⟨node, hnode⟩ := Option.isSome_iff_exists.mp (hlive q (by simp))
    have hnext : s.next q = node.next := by
      rw [next, hnode]
      rfl
    have hfuel' : m.length < fuel := by simpa using hfuel
    rw [hnext] at hrest
    rw [lastProcess, hnode]
    cases hn : node.next with
    | none =>
      rw [hn] at hrest
      cases m with
      | nil => exact absurd hrest.1 (by simp)
      | cons _ _ => exact absurd hrest.1 (by simp)
    | some q' =>
      rw [hn] at hrest
      simpa [hn] using ih hrest (fun r hr => hlive r (List.mem_cons_of_mem _ hr)) hfuel'

lemma findProcess_none {cb p : Option ℕ} {fuel previous : ℕ} {m : List ℕ}
    (hseg : Seg s.next p m none) (hlive : ∀ q ∈ m, (s.heap q).isSome)
    (hmiss : ∀ q ∈ m, s.cbAt q ≠ cb) (hfuel : m.length < fuel) :
    findProcess cb fuel s previous p = some none := by
  induction m generalizing fuel previous p with
  | nil =>
    obtain ⟨fuel, rfl⟩ := Nat.exists_eq_succ_of_ne_zero (Nat.ne_of_gt hfuel)
    cases hseg
    rfl
  | cons q m ih =>
    obtain ⟨fuel, rfl⟩ := Nat.exists_eq_succ_of_ne_zero (Nat.ne_of_gt (Nat.zero_lt_of_lt hfuel))
    obtain ⟨rfl, hrest⟩ := hseg
    obtain ⟨node, hnode⟩ := Option.isSome_iff_exists.mp (hlive q List.mem_cons_self)
    have hcb : some node.cb ≠ cb := by
      have hq := hmiss q List.mem_cons_self
      rwa [cbAt, hnode] at hq
    have hnext : s.next q = node.next := by
      rw [next, hnode]
      rfl
    rw [hnext] at hrest
    rw [findProcess, hnode]
    simpa [hcb] using ih hrest (fun r hr => hlive r (List.mem_cons_of_mem _ hr))
      (fun r hr => hmiss r (List.mem_cons_of_mem _ hr)) (by simpa using hfuel)

lemma findProcess_first {cb : ℕ} {p : Option ℕ} {fuel q : ℕ} {m m' : List ℕ} (previous : ℕ)
    (hseg : Seg s.next p (m ++ q :: m') none) (hlive : ∀ r ∈ m ++ [q], (s.heap r).isSome)
    (hmiss : ∀ r ∈ m, s.cbAt r ≠ some cb) (hq : s.cbAt q = some cb) (hfuel : m.length < fuel) :
    findProcess (some cb) fuel s previous p = some (some (m.getLastD previous, q)) := by
  induction m generalizing fuel previous p with
  | nil =>
    obtain ⟨fuel, rfl⟩ := Nat.exists_eq_succ_of_ne_zero (Nat.ne_of_gt hfuel)
    obtain ⟨rfl, -⟩ := hseg
    obtain ⟨node, hnode⟩ := Option.isSome_iff_exists.mp (hlive q (by simp))
    have hcb : node.cb = cb := by
      rw [cbAt, hnode] at hq
      exact Option.some.inj hq
    rw [findProcess, hnode]
    simp [hcb]
  | cons r m ih =>
    obtain ⟨fuel, rfl⟩ := Nat.exists_eq_succ_of_ne_zero (Nat.ne_of_gt (Nat.zero_lt_of_lt hfuel))
    obtain ⟨rfl, hrest⟩ := hseg
    obtain ⟨node, hnode⟩ := Option.isSome_iff_exists.mp (hlive r (by simp))
    have hcb : node.cb ≠ cb := by
      have hr := hmiss r List.mem_cons_self
      rw [cbAt, hnode] at hr
      exact fun h => hr (congrArg some h)
    have hnext : s.next r = node.next := by
      rw [next, hnode]
      rfl
    rw [hnext] at hrest
    have hfound := ih r hrest (fun t ht => hlive t (List.mem_cons_of_mem _ ht))
      (fun t ht => hmiss t (List.mem_cons_of_mem _ ht)) (by simpa using hfuel)
    have hne : some node.cb ≠ some cb := fun h => hcb (Option.some.inj h)
    rw [findProcess, hnode, Option.bind_eq_bind, Option.bind_some, if_neg hne,
      List.getLastD_cons]
    exact hfound

/-! ### Changes of the list -/

/-- What a change of the list leaves of the nodes that stay. -/
def SameOn (s t : Processes) (l : List ℕ) : Prop := ∀ p ∈ l, t.cbAt p = s.cbAt p

lemma isSome_cbAt (s : Processes) (p : ℕ) : (s.cbAt p).isSome = (s.heap p).isSome :=
  Option.isSome_map

lemma SameOn.live {t : Processes} (h : SameOn s t l) (hlive : ∀ p ∈ l, (s.heap p).isSome) :
    ∀ p ∈ l, (t.heap p).isSome := by
  intro p hp
  rw [← isSome_cbAt, h p hp, isSome_cbAt]
  exact hlive p hp

lemma cbAt_setNext {p : ℕ} {node : ProcessNode} (hnode : s.heap p = some node) (next : Option ℕ)
    (q : ℕ) : (s.setNode p (some { node with next := next })).cbAt q = s.cbAt q := by
  by_cases hq : q = p
  · rw [hq, cbAt, heap_setNode_self, cbAt, hnode]
    rfl
  · exact cbAt_setNode_of_ne hq _ _

lemma Lists.setHead_none (h : s.Lists l) (hnull : s.pListProcess = none) :
    l = [] ∧ (s.setHead none).Lists [] := by
  have hhead : s.head = none := by simp [head, hnull]
  refine ⟨?_, rfl, by simp⟩
  have hseg := h.seg
  rw [hhead] at hseg
  exact hseg.unique (m := []) rfl

lemma append_empty (s : Processes) (fuel : ℕ) (malloc : Option ℕ) (cb : ℕ) :
    ∃ t, s.append fuel malloc cb none = some t ∧ t.pListProcess ≠ none ∧
      t.Lists malloc.toList ∧ ∀ a, malloc = some a → t.cbAt a = some cb := by
  cases malloc with
  | none =>
    exact ⟨s.setHead none, rfl, by simp [setHead], ⟨rfl, by simp⟩, fun a ha => by cases ha⟩
  | some a =>
    have hheap := heap_setNode_self s a (some ⟨cb, none⟩)
    have hnext : (s.setNode a (some ⟨cb, none⟩)).next a = none := by
      rw [next, hheap]
      rfl
    refine ⟨(s.setNode a (some ⟨cb, none⟩)).setHead (some a), rfl, by simp [setHead],
      ⟨⟨rfl, hnext⟩, ?_⟩, ?_⟩
    · intro p hp
      obtain rfl : p = a := by simpa using hp
      exact congrArg Option.isSome hheap
    · intro b hb
      cases hb
      exact congrArg (Option.map ProcessNode.cb) hheap

section Last

variable {m : List ℕ} {z head fuel : ℕ} {node : ProcessNode}

/-- Without memory for a node the last successor is written again. -/
lemma Lists.append_failed (h : s.Lists (m ++ [z])) (hhead : s.pListProcess = some (some head))
    (hlast : lastProcess fuel s head = some z) (hnode : s.heap z = some node)
    (hend : s.next z = none) (cb : ℕ) :
    ∃ t, s.append fuel none cb (some head) = some t ∧ t.pListProcess ≠ none ∧
      t.Lists (m ++ [z]) ∧ SameOn s t (m ++ [z]) := by
  have hsame : SameOn s (s.setNode z (some { node with next := none })) (m ++ [z]) :=
    fun p _ => cbAt_setNext hnode none p
  refine ⟨s.setNode z (some { node with next := none }), ?_, by simp [setNode, hhead],
    ⟨?_, hsame.live h.live⟩, hsame⟩
  · unfold append
    dsimp only
    rw [hlast]
    simp [createProcess, hnode]
  · change Seg (s.setNode z _).next s.head _ _
    rw [next_setNode]
    apply h.seg.congr
    intro p hp
    by_cases hpz : p = z
    · rw [hpz, Function.update_self, hend]
      rfl
    · rw [Function.update_of_ne hpz]

lemma Lists.append_allocated (h : s.Lists (m ++ [z])) (hhead : s.pListProcess = some (some head))
    (hlast : lastProcess fuel s head = some z) (hnode : s.heap z = some node)
    (hend : s.next z = none) {a : ℕ} (hfresh : a ∉ m ++ [z]) (cb : ℕ) :
    ∃ t, s.append fuel (some a) cb (some head) = some t ∧ t.pListProcess ≠ none ∧
      t.Lists (m ++ [z] ++ [a]) ∧ SameOn s t (m ++ [z]) ∧ t.cbAt a = some cb := by
  have haz : z ≠ a := fun hza => hfresh (by simp [hza])
  have hz : z ∉ m := h.notMem_of_concat
  have hnode' : (s.setNode a (some ⟨cb, none⟩)).heap z = some node :=
    (heap_setNode_of_ne haz s (some ⟨cb, none⟩)).trans hnode
  have hsame : SameOn s ((s.setNode a (some ⟨cb, none⟩)).setNode z
      (some { node with next := some a })) (m ++ [z]) := by
    intro p hp
    have hpa : p ≠ a := fun hpa => hfresh (hpa ▸ hp)
    rw [cbAt_setNext hnode', cbAt_setNode_of_ne hpa]
  have hadded : ((s.setNode a (some ⟨cb, none⟩)).setNode z
      (some { node with next := some a })).cbAt a = some cb := by
    rw [cbAt_setNext hnode', cbAt, heap_setNode_self]
    rfl
  refine ⟨(s.setNode a (some ⟨cb, none⟩)).setNode z (some { node with next := some a }), ?_,
    by simp [setNode, hhead], ⟨?_, ?_⟩, hsame, hadded⟩
  · unfold append
    dsimp only
    rw [hlast]
    simp [createProcess, hnode']
  · change Seg ((s.setNode a _).setNode z _).next s.head (m ++ [z] ++ [a]) none
    rw [next_setNode, next_setNode]
    have hlink := Seg.link (l := m) (m := []) (a := z) (b := a) h.seg hz (by simp) hfresh
    rw [hend] at hlink
    simpa using hlink
  · intro p hp
    rcases List.mem_append.mp hp with hp | hp
    · exact hsame.live h.live p hp
    · rw [List.mem_singleton.mp hp, ← isSome_cbAt, hadded]
      rfl

end Last

lemma Lists.append {fuel : ℕ} (h : s.Lists l) {head : Option ℕ} (hhead : s.pListProcess = some head)
    {malloc : Option ℕ} (hfresh : ∀ a, malloc = some a → s.heap a = none) (cb : ℕ)
    (hfuel : l.length ≤ fuel) :
    ∃ t, s.append fuel malloc cb head = some t ∧ t.pListProcess ≠ none ∧
      t.Lists (l ++ malloc.toList) ∧ SameOn s t l ∧ ∀ a, malloc = some a → t.cbAt a = some cb := by
  have hseg := h.seg
  rw [Processes.head, hhead, Option.getD_some] at hseg
  cases head with
  | none =>
    obtain rfl : l = [] := hseg.unique (m := []) rfl
    obtain ⟨t, happend, hlist, hlists, hadded⟩ := append_empty s fuel malloc cb
    exact ⟨t, happend, hlist, hlists, by simp [SameOn], hadded⟩
  | some head =>
    have hne : l ≠ [] := by
      rintro rfl
      cases hseg
    obtain ⟨m, z, rfl⟩ : ∃ m z, l = m ++ [z] := ⟨_, _, (List.dropLast_append_getLast hne).symm⟩
    rw [List.length_append, List.length_singleton] at hfuel
    have hlast : lastProcess fuel s head = some z := lastProcess_spec hseg h.live hfuel
    obtain ⟨node, hnode⟩ := Option.isSome_iff_exists.mp (h.live z (by simp))
    have hend : s.next z = none := by
      obtain ⟨r, -, hr⟩ := seg_append.mp hseg
      exact hr.2
    cases malloc with
    | none =>
      obtain ⟨t, happend, hlist, hlists, hsame⟩ := h.append_failed hhead hlast hnode hend cb
      rw [Option.toList_none, List.append_nil]
      exact ⟨t, happend, hlist, hlists, hsame, fun a ha => by cases ha⟩
    | some a =>
      have ha : a ∉ m ++ [z] := by
        intro hal
        have hsome := h.live a hal
        rw [hfresh a rfl] at hsome
        cases hsome
      obtain ⟨t, happend, hlist, hlists, hsame, hadded⟩ :=
        h.append_allocated hhead hlast hnode hend ha cb
      refine ⟨t, happend, hlist, hlists, hsame, ?_⟩
      intro b hb
      cases hb
      exact hadded

lemma Lists.pListProcess_eq (h : s.Lists l) (hne : l ≠ []) : s.pListProcess = some s.head := by
  cases hlist : s.pListProcess with
  | none => exact absurd (h.setHead_none hlist).1 hne
  | some head => rw [Processes.head, hlist, Option.getD_some]

lemma next_eq {p : ℕ} {node : ProcessNode} (hnode : s.heap p = some node) :
    s.next p = node.next := by
  rw [next, hnode]
  rfl

/-- The head of the list is its own predecessor; the list goes on behind it. -/
lemma Lists.remove_head {q : ℕ} {m : List ℕ} (h : s.Lists (q :: m)) :
    ∃ t, s.remove q q = some t ∧ t.pListProcess ≠ none ∧ t.Lists m ∧ SameOn s t m := by
  obtain ⟨node, hnode⟩ := Option.isSome_iff_exists.mp (h.live q List.mem_cons_self)
  have hlist : s.pListProcess = some (some q) := by
    rw [h.pListProcess_eq (by simp)]
    exact congrArg some h.seg.1
  have hstay : ∀ p ∈ m, p ≠ q := fun p hp hpq => (List.nodup_cons.mp h.nodup).1 (hpq ▸ hp)
  have hsame : SameOn s (((s.setNode q (some { node with next := node.next })).setHead
      node.next).setNode q none) m := by
    intro p hp
    rw [cbAt_setNode_of_ne (hstay p hp)]
    exact cbAt_setNext hnode node.next p
  refine ⟨((s.setNode q (some { node with next := node.next })).setHead node.next).setNode q none,
    ?_, by simp [setNode, setHead], ⟨?_, ?_⟩, hsame⟩
  · unfold Processes.remove
    rw [hnode]
    simp [setNode, hlist]
  · have hrest := h.seg.2
    rw [next_eq hnode] at hrest
    apply hrest.congr
    intro p hp
    rw [next_setNode, Function.update_of_ne (hstay p hp)]
    change (s.setNode q _).next p = s.next p
    rw [next_setNode, Function.update_of_ne (hstay p hp)]
  · exact hsame.live fun p hp => h.live p (List.mem_cons_of_mem q hp)

lemma Lists.remove_behind {a q : ℕ} {m m' : List ℕ} (h : s.Lists (m ++ a :: q :: m')) :
    ∃ t, s.remove a q = some t ∧ t.pListProcess ≠ none ∧ t.Lists (m ++ a :: m') ∧
      SameOn s t (m ++ a :: m') := by
  obtain ⟨node, hnode⟩ := Option.isSome_iff_exists.mp (h.live q (by simp))
  obtain ⟨before, hbefore⟩ := Option.isSome_iff_exists.mp (h.live a (by simp))
  have hlist := h.pListProcess_eq (by simp)
  have hnodup := h.nodup
  have ham := (List.nodup_cons.mp (List.nodup_middle.mp hnodup)).1
  have hq : q ∉ m ++ a :: m' := by
    rw [List.append_cons, List.nodup_middle, ← List.append_cons] at hnodup
    exact (List.nodup_cons.mp hnodup).1
  have hstay : ∀ p ∈ m ++ a :: m', p ≠ q := fun p hp hpq => hq (hpq ▸ hp)
  have haq : a ≠ q := hstay a (by simp)
  have hhead : s.head ≠ some q := by
    intro hhead
    have hseg := h.seg
    cases m with
    | nil => exact haq (Option.some.inj (hseg.1.symm.trans hhead))
    | cons r m => exact hstay r (by simp) (Option.some.inj (hseg.1.symm.trans hhead))
  have hsame : SameOn s ((s.setNode a (some { before with next := node.next })).setNode q none)
      (m ++ a :: m') := by
    intro p hp
    rw [cbAt_setNode_of_ne (hstay p hp)]
    exact cbAt_setNext hbefore node.next p
  have hqa := heap_setNode_of_ne haq.symm s (some { before with next := node.next })
  refine ⟨(s.setNode a (some { before with next := node.next })).setNode q none,
    ?_, by simp [setNode, hlist], ⟨?_, ?_⟩, hsame⟩
  · unfold Processes.remove
    rw [hnode, Option.bind_eq_bind, Option.bind_some, hbefore, Option.bind_eq_bind,
      Option.bind_some]
    dsimp only
    rw [hqa, hnode]
    change (s.pListProcess.bind fun head => _) = _
    rw [hlist, Option.bind_some, Option.bind_some, if_neg hhead.symm]
  · change Seg ((s.setNode a _).setNode q none).next s.head _ _
    rw [next_setNode, next_setNode]
    have hunlink := Seg.unlink h.seg (fun ha => ham (by simp [ha])) (fun ha => ham (by simp [ha]))
    rw [next_eq hnode] at hunlink
    exact hunlink.update_of_notMem hq none
  · apply hsame.live
    intro p hp
    apply h.live
    rcases List.mem_append.mp hp with hp | hp
    · exact List.mem_append_left _ hp
    · rcases List.mem_cons.mp hp with rfl | hp <;> simp [*]

lemma Lists.remove {q : ℕ} {m m' : List ℕ} (h : s.Lists (m ++ q :: m')) :
    ∃ t, s.remove (m.getLastD q) q = some t ∧ t.pListProcess ≠ none ∧ t.Lists (m ++ m') ∧
      SameOn s t (m ++ m') := by
  rcases List.eq_nil_or_concat' m with rfl | ⟨m, a, rfl⟩
  · exact h.remove_head
  · rw [← List.append_cons] at h ⊢
    rw [List.getLastD_concat]
    exact h.remove_behind

end Processes

/-! ### The calls -/

namespace Cpu

open Processes

variable {c : Cpu} {l : List ℕ} {fuel : ℕ}

/-- The node that a call of `addProcess` allocates, when all its allocations succeed. -/
def addedNode (c : Cpu) (mallocList : Bool) (mallocNode cb : Option ℕ) : Option ℕ :=
  if cb.isSome && (c.processes.pListProcess.isSome || mallocList) then mallocNode else none

lemma addProcess_spec (h : c.processes.Lists l) (hfuel : l.length ≤ fuel) (mallocList : Bool)
    {mallocNode : Option ℕ} (hfresh : ∀ a, mallocNode = some a → c.processes.heap a = none)
    (cb : Option ℕ) :
    ∃ c', c.addProcess fuel mallocList mallocNode cb = some c' ∧
      c'.processes.Lists (l ++ (c.addedNode mallocList mallocNode cb).toList) ∧
      SameOn c.processes c'.processes l ∧
      (∀ a, c.addedNode mallocList mallocNode cb = some a → c'.processes.cbAt a = cb) ∧
      (c.processes.pListProcess ≠ none → c'.processes.pListProcess ≠ none) := by
  cases cb with
  | none => exact ⟨c, rfl, by simpa [addedNode] using h, fun p _ => rfl, by simp [addedNode], id⟩
  | some cb =>
    -- the list after its allocation, and whether there is one
    have hallocated : ∃ s, c.processes.allocated mallocList = s ∧ s.Lists l ∧
        s.heap = c.processes.heap ∧
        (s.pListProcess.isSome = (c.processes.pListProcess.isSome || mallocList)) := by
      refine ⟨_, rfl, ?_⟩
      unfold allocated
      split
      · rename_i hnew
        obtain ⟨rfl, hempty⟩ := h.setHead_none hnew.1
        exact ⟨hempty, rfl, by simp [setHead, hnew.2]⟩
      · rename_i hkept
        refine ⟨h, rfl, ?_⟩
        cases hlist : c.processes.pListProcess with
        | none => simpa [hlist] using hkept
        | some head => rfl
    obtain ⟨s, hs, hlists, hheap, hsome⟩ := hallocated
    have hcb : SameOn c.processes s l := by
      intro p _
      rw [cbAt, hheap, cbAt]
    unfold Cpu.addProcess
    dsimp only
    rw [hs]
    cases hlist : s.pListProcess with
    | none =>
      rw [hlist] at hsome
      have hadded : c.addedNode mallocList mallocNode (some cb) = none := by
        unfold addedNode
        rw [← hsome]
        rfl
      rw [hadded, Option.toList_none, List.append_nil]
      refine ⟨c.withProcesses s, by simp [withProcesses, hlist], hlists, hcb, by simp, ?_⟩
      intro hne
      rw [Option.isSome_none, eq_comm, Bool.or_eq_false_iff, Option.isSome_eq_false_iff] at hsome
      exact absurd (Option.isNone_iff_eq_none.mp hsome.1) hne
    | some head =>
      rw [hlist] at hsome
      have hadded : c.addedNode mallocList mallocNode (some cb) = mallocNode := by
        unfold addedNode
        rw [← hsome]
        rfl
      rw [hadded]
      obtain ⟨t, happend, hne, hlists', hsame, hnew⟩ := hlists.append hlist
        (fun a ha => by rw [hheap]; exact hfresh a ha) cb hfuel
      refine ⟨(c.withProcesses t).withStatus (exitCritical c.status (di c.status)), ?_, hlists',
        fun p hp => (hsame p hp).trans (hcb p hp), hnew, fun _ => hne⟩
      simp [withProcesses, withStatus, hlist, happend]

lemma delProcess_spec (h : c.processes.Lists l) (hlist : c.processes.pListProcess ≠ none)
    (hfuel : l.length < fuel) (cb : Option ℕ) :
    ∃ c', c.delProcess fuel cb = some c' ∧
      c'.processes.Lists (l.eraseP fun p => c.processes.cbAt p = cb) ∧
      SameOn c.processes c'.processes (l.eraseP fun p => c.processes.cbAt p = cb) ∧
      c'.processes.pListProcess ≠ none := by
  obtain ⟨head, hhead⟩ := Option.ne_none_iff_exists'.mp hlist
  have hseg := h.seg
  rw [Processes.head, hhead, Option.getD_some] at hseg
  by_cases hmiss : ∀ p ∈ l, c.processes.cbAt p ≠ cb
  · have hkept : (l.eraseP fun p => c.processes.cbAt p = cb) = l :=
      List.eraseP_of_forall_not fun p hp => by simpa using hmiss p hp
    rw [hkept]
    refine ⟨c, ?_, h, fun p _ => rfl, hlist⟩
    unfold Cpu.delProcess search
    rw [hhead]
    cases head with
    | none => rfl
    | some head => simp [findProcess_none hseg h.live hmiss hfuel]
  · push Not at hmiss
    obtain ⟨p, hp, hpcb⟩ := hmiss
    obtain ⟨q, m, m', hm, hq, rfl, herase⟩ := List.exists_of_eraseP
      (p := fun p => decide (c.processes.cbAt p = cb)) hp (decide_eq_true hpcb)
    rw [herase]
    have hqcb : c.processes.cbAt q = cb := of_decide_eq_true hq
    obtain ⟨node, hnode⟩ := Option.isSome_iff_exists.mp (h.live q (by simp))
    obtain ⟨cb, rfl⟩ : ∃ n, cb = some n := ⟨node.cb, by rw [← hqcb, cbAt, hnode]; rfl⟩
    have hlength : m.length < fuel := by
      rw [List.length_append, List.length_cons] at hfuel
      omega
    have hlive : ∀ r ∈ m ++ [q], (c.processes.heap r).isSome := by
      intro r hr
      apply h.live
      rcases List.mem_append.mp hr with hr | hr
      · simp [hr]
      · rw [List.mem_singleton.mp hr]
        simp
    have hmiss : ∀ r ∈ m, c.processes.cbAt r ≠ some cb := fun r hr => by simpa using hm r hr
    obtain ⟨t, hremove, hne, hlists, hsame⟩ := h.remove
    refine ⟨(c.withProcesses t).withStatus (exitCritical c.status (di c.status)), ?_, hlists, hsame,
      hne⟩
    have hheadq : head ≠ none := by
      rintro rfl
      cases m with
      | nil => exact absurd hseg.1 (by simp)
      | cons _ _ => exact absurd hseg.1 (by simp)
    obtain ⟨first, rfl⟩ := Option.ne_none_iff_exists'.mp hheadq
    have hprevious : m.getLastD first = m.getLastD q := by
      cases m with
      | nil => exact Option.some.inj hseg.1
      | cons r m => rfl
    have hfind := findProcess_first first hseg hlive hmiss hqcb hlength
    rw [hprevious] at hfind
    generalize m.getLastD q = previous at hfind hremove
    unfold Cpu.delProcess search
    rw [hhead]
    simp [hfind, withStatus, withProcesses, hremove]

end Cpu

end FrameworkXC32
