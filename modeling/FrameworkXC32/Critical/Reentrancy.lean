import FrameworkXC32.Critical.ProcessList
import FrameworkXC32.Lib.Runs
import FrameworkXC32.Lib.Sublists
import Mathlib.Data.List.Perm.Subperm

/-!
# Background processes that change their own list

`exeProcess` walks the list of background processes, and the callbacks that it runs may call
`addProcess` and `delProcess`. Beside the memory a history is kept of what the calls have asked
for: every successful `addProcess` is a registration with a number of its own.
-/

namespace FrameworkXC32
open Machine LinkedHeap Runs

/-- What the program does: the three calls, and the return of the callback that `exeProcess` runs
together with the `yield` behind it. Calls before that return are made by the callback. -/
inductive ProcessOp
  | add (mallocList : Bool) (mallocNode cb : Option ℕ)
  | del (cb : Option ℕ)
  | exe
  | ret
deriving DecidableEq, Repr

/-- A pass of `exeProcess`: the registrations present from its begin on, and those called so far,
by their numbers. -/
structure Pass where
  throughout : List ℕ
  called : List ℕ
deriving DecidableEq, Repr

/-- Every registration that was present during the whole pass was called once, in the order of
the registrations. -/
def Pass.Complete (pass : Pass) : Prop :=
  pass.called.filter (fun i => i ∈ pass.throughout) = pass.throughout

/-- `label` is the number of the registration for which a node was allocated. -/
structure ProcessHistory where
  registered : List (ℕ × Option ℕ)
  count : ℕ
  label : ℕ → ℕ
  pass : Pass
  ended : List Pass

namespace ProcessHistory

def numbers (h : ProcessHistory) : List ℕ := h.registered.map Prod.fst

/-- A call of `addProcess` that has allocated this node, or none. -/
def added (node cb : Option ℕ) (h : ProcessHistory) : ProcessHistory :=
  match node with
  | none => h
  | some a =>
    { h with
      registered := h.registered ++ [(h.count, cb)]
      count := h.count + 1
      label := Function.update h.label a h.count }

lemma numbers_added (h : ProcessHistory) (a : ℕ) (cb : Option ℕ) :
    (h.added (some a) cb).numbers = h.numbers ++ [h.count] := by
  unfold numbers added
  rw [List.map_append]
  rfl

/-- The first registration of a callback ends. -/
def removed (cb : Option ℕ) (h : ProcessHistory) : ProcessHistory :=
  let registered := h.registered.eraseP fun r => r.2 = cb
  { h with
    registered := registered
    pass := { h.pass with
      throughout := h.pass.throughout.filter fun i => i ∈ registered.map Prod.fst } }

def begun (h : ProcessHistory) : ProcessHistory := { h with pass := ⟨h.numbers, []⟩ }

def visits (p : ℕ) (h : ProcessHistory) : ProcessHistory :=
  { h with pass := { h.pass with called := h.pass.called ++ [h.label p] } }

def finished (h : ProcessHistory) : ProcessHistory := { h with ended := h.ended ++ [h.pass] }

/-- The registration that `delProcess` removes. -/
def firstOf (cb : Option ℕ) (h : ProcessHistory) : Option ℕ :=
  (h.registered.find? fun r => r.2 = cb).map Prod.fst

end ProcessHistory

/-- `current` is that of `exeProcess` while it runs. -/
structure ProcessLoop where
  cpu : Cpu
  current : Option ℕ
  history : ProcessHistory

namespace ProcessLoop

/-- `exeProcess` takes the callback out of a node and calls it. -/
def enter (p : ℕ) (s : ProcessLoop) : Option ProcessLoop := do
  let _ ← s.cpu.processes.heap p
  some { s with current := some p, history := s.history.visits p }

def leave (s : ProcessLoop) : ProcessLoop :=
  { s with current := none, history := s.history.finished }

/-- One operation. It is `none` where the code reads through a null or a freed pointer, or walks
longer than `fuel`. -/
def step (fuel : ℕ) (s : ProcessLoop) : ProcessOp → Option ProcessLoop
  | .add mallocList mallocNode cb => do
    let cpu ← s.cpu.addProcess fuel mallocList mallocNode cb
    some { s with
      cpu := cpu, history := s.history.added (s.cpu.addedNode mallocList mallocNode cb) cb }
  | .del cb => do
    let cpu ← s.cpu.delProcess fuel cb
    some { s with cpu := cpu, history := s.history.removed cb }
  | .exe => do
    let head ← s.cpu.processes.pListProcess
    let s := { s with history := s.history.begun }
    match head with
    | some p => s.enter p
    | none => some s.leave
  | .ret => do
    let p ← s.current
    let node ← s.cpu.processes.heap p
    match node.next with
    | some q => s.enter q
    | none => some s.leave

/-- The operations that can happen: `malloc` returns memory that is not allocated, `exeProcess` is
not called from a callback, and a callback returns while one runs. -/
def Possible (s : ProcessLoop) : ProcessOp → Prop
  | .add _ mallocNode _ => ∀ a ∈ mallocNode, s.cpu.processes.heap a = none
  | .del _ => True
  | .exe => s.current = none
  | .ret => s.current ≠ none

/-- Nothing walks a list that does not exist yet, and no callback ends the registration that is
running. -/
def Careful (s : ProcessLoop) : ProcessOp → Prop
  | .add _ _ _ => True
  | .del cb => s.cpu.processes.pListProcess ≠ none ∧
    ∀ p ∈ s.current, s.history.firstOf cb ≠ some (s.history.label p)
  | .exe => s.cpu.processes.pListProcess ≠ none
  | .ret => True

instance (s : ProcessLoop) : DecidablePred s.Possible
  | .add _ mallocNode _ =>
    inferInstanceAs (Decidable (∀ a ∈ mallocNode, s.cpu.processes.heap a = none))
  | .del _ => inferInstanceAs (Decidable True)
  | .exe => inferInstanceAs (Decidable (s.current = none))
  | .ret => inferInstanceAs (Decidable (s.current ≠ none))

instance (s : ProcessLoop) : DecidablePred s.Careful
  | .add _ _ _ => inferInstanceAs (Decidable True)
  | .del cb => inferInstanceAs (Decidable (s.cpu.processes.pListProcess ≠ none ∧
      ∀ p ∈ s.current, s.history.firstOf cb ≠ some (s.history.label p)))
  | .exe => inferInstanceAs (Decidable (s.cpu.processes.pListProcess ≠ none))
  | .ret => inferInstanceAs (Decidable True)

/-- The state at the start. -/
def boot (cpu : Cpu) : ProcessLoop where
  cpu := cpu.withProcesses ⟨fun _ => none, none⟩
  current := none
  history := ⟨[], 0, fun _ => 0, ⟨[], []⟩, []⟩

/-! ### The invariant -/

/-- A registration, of a node. -/
def registration (s : ProcessLoop) (p : ℕ) : ℕ × Option ℕ :=
  (s.history.label p, s.cpu.processes.cbAt p)

/-- The nodes `l` of the list are the registrations, each with its number and callback. -/
structure Represents (s : ProcessLoop) (l : List ℕ) : Prop where
  lists : s.cpu.processes.Lists l
  registered : s.history.registered = l.map s.registration
  increasing : s.history.numbers.Pairwise (· < ·)
  numbers_lt : ∀ i ∈ s.history.numbers, i < s.history.count

/-- The registrations up to the running one have been called, and those behind it have not. -/
def Progress (s : ProcessLoop) (l : List ℕ) : Prop :=
  ∀ p ∈ s.current, ∃ m m', l = m ++ p :: m' ∧
    s.history.pass.called.filter (fun i => i ∈ s.history.numbers) = (m ++ [p]).map s.history.label

structure Sound (s : ProcessLoop) (l : List ℕ) : Prop extends s.Represents l where
  called_lt : ∀ i ∈ s.history.pass.called, i < s.history.count
  throughout : s.history.pass.throughout.Sublist s.history.numbers
  progress : s.Progress l
  ended : ∀ pass ∈ s.history.ended, pass.Complete

variable {s : ProcessLoop} {l : List ℕ} {fuel : ℕ}

lemma Represents.numbers_eq (h : s.Represents l) : s.history.numbers = l.map s.history.label := by
  unfold ProcessHistory.numbers
  rw [h.registered, List.map_map]
  rfl

lemma Represents.nodup (h : s.Represents l) : s.history.numbers.Nodup :=
  h.increasing.imp fun hlt => Nat.ne_of_lt hlt

lemma Represents.length_le (h : s.Represents l) : l.length ≤ s.history.count := by
  have hrange : s.history.numbers ⊆ List.range s.history.count :=
    fun i hi => List.mem_range.mpr (h.numbers_lt i hi)
  have hle := (List.subperm_of_subset h.nodup hrange).length_le
  rwa [h.numbers_eq, List.length_map, List.length_range] at hle

/-! ### Calls of `addProcess` and `delProcess` -/

lemma Represents.add {cpu : Cpu} (h : s.Represents l) {node cb : Option ℕ}
    (hlists : cpu.processes.Lists (l ++ node.toList))
    (hsame : s.cpu.processes.SameOn cpu.processes l)
    (hnew : ∀ a, node = some a → cpu.processes.cbAt a = cb) :
    ProcessLoop.Represents { s with cpu := cpu, history := s.history.added node cb }
      (l ++ node.toList) := by
  cases node with
  | none =>
    rw [Option.toList_none, List.append_nil] at hlists ⊢
    refine ⟨hlists, ?_, h.increasing, h.numbers_lt⟩
    refine h.registered.trans (List.map_congr_left fun p hp => ?_)
    exact congrArg (Prod.mk _) (hsame p hp).symm
  | some a =>
    have ha : a ∉ l := hlists.notMem_of_concat
    have hnumbers := s.history.numbers_added a cb
    refine ⟨hlists, ?_, ?_, ?_⟩
    · change s.history.registered ++ [(s.history.count, cb)] = _
      rw [h.registered, Option.toList_some, List.map_append, List.map_singleton]
      congr 1
      · refine List.map_congr_left fun p hp => ?_
        have hpa : p ≠ a := fun hpa => ha (hpa ▸ hp)
        unfold registration
        rw [hsame p hp]
        exact congrArg (·, _) (Function.update_of_ne hpa _ _).symm
      · unfold registration
        change _ = [(Function.update s.history.label a s.history.count a, cpu.processes.cbAt a)]
        rw [hnew a rfl, Function.update_self]
    · change (s.history.added (some a) cb).numbers.Pairwise _
      rw [hnumbers, List.pairwise_append]
      refine ⟨h.increasing, List.pairwise_singleton _ _, ?_⟩
      intro i hi j hj
      rw [List.mem_singleton.mp hj]
      exact h.numbers_lt i hi
    · change ∀ i ∈ (s.history.added (some a) cb).numbers, i < s.history.count + 1
      rw [hnumbers]
      intro i hi
      rcases List.mem_append.mp hi with hi | hi
      · exact Nat.lt_succ_of_lt (h.numbers_lt i hi)
      · rw [List.mem_singleton.mp hi]
        exact Nat.lt_succ_self _

lemma Sound.add {cpu : Cpu} (h : s.Sound l) {node cb : Option ℕ}
    (hlists : cpu.processes.Lists (l ++ node.toList))
    (hsame : s.cpu.processes.SameOn cpu.processes l)
    (hnew : ∀ a, node = some a → cpu.processes.cbAt a = cb) :
    ProcessLoop.Sound { s with cpu := cpu, history := s.history.added node cb }
      (l ++ node.toList) := by
  have hrep := h.toRepresents.add hlists hsame hnew
  cases node with
  | none =>
    rw [Option.toList_none, List.append_nil] at hrep ⊢
    exact ⟨hrep, h.called_lt, h.throughout, h.progress, h.ended⟩
  | some a =>
    have ha : a ∉ l := hlists.notMem_of_concat
    have hnumbers := s.history.numbers_added a cb
    refine ⟨hrep, fun i hi => Nat.lt_succ_of_lt (h.called_lt i hi), ?_, ?_, h.ended⟩
    · change List.Sublist _ (s.history.added (some a) cb).numbers
      rw [hnumbers]
      exact h.throughout.trans (List.sublist_append_left _ _)
    · intro p hp
      obtain ⟨m, m', rfl, hcalled⟩ := h.progress p hp
      refine ⟨m, m' ++ [a], by simp, ?_⟩
      change s.history.pass.called.filter
          (fun i => i ∈ (s.history.added (some a) cb).numbers) =
        (m ++ [p]).map (Function.update s.history.label a s.history.count)
      have hlabel : (m ++ [p]).map (Function.update s.history.label a s.history.count) =
          (m ++ [p]).map s.history.label := by
        refine List.map_congr_left fun q hq => Function.update_of_ne ?_ _ _
        rintro rfl
        apply ha
        rw [List.append_cons]
        exact List.mem_append_left _ hq
      rw [hlabel, ← hcalled, hnumbers]
      apply List.filter_congr
      intro i hi
      have hne : i ≠ s.history.count := Nat.ne_of_lt (h.called_lt i hi)
      simp [hne]

lemma Represents.firstOf_eq (h : s.Represents l) (cb : Option ℕ) : s.history.firstOf cb =
    (l.find? fun p => s.cpu.processes.cbAt p = cb).map s.history.label := by
  unfold ProcessHistory.firstOf
  rw [h.registered, List.find?_map, Option.map_map]
  rfl

lemma Represents.del {cpu : Cpu} (h : s.Represents l) {cb : Option ℕ}
    (hlists : cpu.processes.Lists (l.eraseP fun p => s.cpu.processes.cbAt p = cb))
    (hsame : s.cpu.processes.SameOn cpu.processes
      (l.eraseP fun p => s.cpu.processes.cbAt p = cb)) :
    ProcessLoop.Represents { s with cpu := cpu, history := s.history.removed cb }
      (l.eraseP fun p => s.cpu.processes.cbAt p = cb) := by
  have hsub : (s.history.removed cb).numbers.Sublist s.history.numbers :=
    List.Sublist.map _ List.eraseP_sublist
  refine ⟨hlists, ?_, h.increasing.sublist hsub, fun i hi => h.numbers_lt i (hsub.subset hi)⟩
  change s.history.registered.eraseP _ = _
  rw [h.registered, List.eraseP_map]
  refine List.map_congr_left fun p hp => ?_
  exact congrArg (Prod.mk _) (hsame p hp).symm

lemma Sound.del {cpu : Cpu} (h : s.Sound l) {cb : Option ℕ}
    (hcareful : ∀ p ∈ s.current, s.history.firstOf cb ≠ some (s.history.label p))
    (hlists : cpu.processes.Lists (l.eraseP fun p => s.cpu.processes.cbAt p = cb))
    (hsame : s.cpu.processes.SameOn cpu.processes
      (l.eraseP fun p => s.cpu.processes.cbAt p = cb)) :
    ProcessLoop.Sound { s with cpu := cpu, history := s.history.removed cb }
      (l.eraseP fun p => s.cpu.processes.cbAt p = cb) := by
  have hrep := h.toRepresents.del hlists hsame
  have hsub : (s.history.removed cb).numbers.Sublist s.history.numbers :=
    List.Sublist.map _ List.eraseP_sublist
  have hkept : s.history.numbers.filter (fun i => i ∈ (s.history.removed cb).numbers) =
      (s.history.removed cb).numbers := Sublists.filter_mem_eq hsub h.nodup
  refine ⟨hrep, h.called_lt, ?_, ?_, h.ended⟩
  · have hfilter := h.throughout.filter fun i => i ∈ (s.history.removed cb).numbers
    rw [hkept] at hfilter
    exact hfilter
  · intro p hp
    obtain ⟨m, m', rfl, hcalled⟩ := h.progress p hp
    have hfirst := hcareful p hp
    rw [h.firstOf_eq] at hfirst
    -- the node that goes lies before the running one, or behind it
    obtain ⟨k, k', hk, hk', herase⟩ := Sublists.eraseP_around
      (P := fun p => s.cpu.processes.cbAt p = cb) fun hfind => hfirst (by rw [hfind]; rfl)
    refine ⟨k, k', herase, ?_⟩
    change s.history.pass.called.filter (fun i => i ∈ (s.history.removed cb).numbers) =
      (k ++ [p]).map s.history.label
    have hnumbers : (s.history.removed cb).numbers =
        (k ++ [p]).map s.history.label ++ k'.map s.history.label := by
      have heq := hrep.numbers_eq
      rw [herase] at heq
      refine heq.trans ?_
      rw [List.append_cons, List.map_append]
      rfl
    have hnodup := h.nodup
    rw [h.numbers_eq, List.append_cons, List.map_append] at hnodup
    rw [Sublists.filter_mem_of_subset hsub.subset, hcalled, hnumbers]
    exact Sublists.filter_mem_append
      (List.Sublist.map _ (List.Sublist.append hk (List.Sublist.refl [p])))
      (List.Sublist.map _ hk') hnodup

/-! ### The walk of `exeProcess` -/

lemma enter_spec {p : ℕ} {m m' : List ℕ} (h : s.Sound (m ++ p :: m'))
    (hcalled : s.history.pass.called.filter (fun i => i ∈ s.history.numbers) =
      m.map s.history.label) :
    ∃ t, s.enter p = some t ∧ t.Sound (m ++ p :: m') ∧ t.history.count = s.history.count := by
  obtain ⟨node, hnode⟩ := Option.isSome_iff_exists.mp (h.lists.live p (by simp))
  refine ⟨{ s with current := some p, history := s.history.visits p }, by rw [enter, hnode]; rfl,
    ?_, rfl⟩
  have hp : s.history.label p ∈ s.history.numbers := by
    rw [h.numbers_eq]
    exact List.mem_map_of_mem (by simp)
  refine ⟨⟨h.lists, h.registered, h.increasing, h.numbers_lt⟩, ?_, h.throughout, ?_, h.ended⟩
  · intro i hi
    rcases List.mem_append.mp hi with hi | hi
    · exact h.called_lt i hi
    · rw [List.mem_singleton.mp hi]
      exact h.numbers_lt _ hp
  · intro q hq
    obtain rfl : p = q := Option.some.inj hq
    refine ⟨m, m', rfl, ?_⟩
    change (s.history.pass.called ++ [s.history.label p]).filter
      (fun i => i ∈ s.history.numbers) = (m ++ [p]).map s.history.label
    rw [List.filter_append, hcalled, List.map_append]
    simp [hp]

lemma leave_spec (h : s.Sound l) (hcalled : s.history.pass.called.filter
    (fun i => i ∈ s.history.numbers) = s.history.numbers) : s.leave.Sound l := by
  refine ⟨⟨h.lists, h.registered, h.increasing, h.numbers_lt⟩, h.called_lt, h.throughout, ?_, ?_⟩
  · intro p hp
    cases hp
  · intro pass hpass
    rcases List.mem_append.mp hpass with hpass | hpass
    · exact h.ended pass hpass
    · rw [List.mem_singleton.mp hpass]
      unfold Pass.Complete
      rw [Sublists.filter_mem_of_subset h.throughout.subset, hcalled]
      exact Sublists.filter_mem_eq h.throughout h.nodup

lemma begun_spec (h : s.Sound l) (hidle : s.current = none) :
    ProcessLoop.Sound { s with history := s.history.begun } l := by
  refine ⟨⟨h.lists, h.registered, h.increasing, h.numbers_lt⟩, ?_, List.Sublist.refl _, ?_, h.ended⟩
  · intro i hi
    cases hi
  · intro p hp
    change p ∈ s.current at hp
    rw [hidle] at hp
    cases hp

/-! ### Whole runs -/

lemma step_sound {op : ProcessOp} (h : s.Sound l) (hpossible : s.Possible op)
    (hcareful : s.Careful op) (hfuel : s.history.count < fuel) :
    ∃ t l', step fuel s op = some t ∧ t.Sound l' ∧ t.history.count ≤ s.history.count + 1 := by
  have hlength := Nat.lt_of_le_of_lt h.length_le hfuel
  cases op with
  | add mallocList mallocNode cb =>
    obtain ⟨cpu, hcpu, hlists, hsame, hnew, -⟩ := Cpu.addProcess_spec h.lists (Nat.le_of_lt hlength)
      mallocList (fun a ha => hpossible a ha) cb
    refine ⟨_, _, by rw [step, hcpu]; rfl, h.add hlists hsame hnew, ?_⟩
    dsimp only
    cases s.cpu.addedNode mallocList mallocNode cb with
    | none => exact Nat.le_succ _
    | some a => exact Nat.le_refl _
  | del cb =>
    obtain ⟨cpu, hcpu, hlists, hsame, -⟩ := Cpu.delProcess_spec h.lists hcareful.1 hlength cb
    exact ⟨_, _, by rw [step, hcpu]; rfl, h.del hcareful.2 hlists hsame, Nat.le_succ _⟩
  | exe =>
    obtain ⟨head, hhead⟩ := Option.ne_none_iff_exists'.mp hcareful
    have hbegun := begun_spec h hpossible
    have hseg := h.lists.seg
    rw [Processes.head, hhead, Option.getD_some] at hseg
    rw [step, hhead]
    cases l with
    | nil =>
      cases hseg
      refine ⟨_, [], rfl, leave_spec hbegun ?_, Nat.le_succ _⟩
      exact hbegun.numbers_eq.symm
    | cons p m' =>
      obtain ⟨rfl, -⟩ := hseg
      obtain ⟨t, ht, hsound, hcount⟩ := enter_spec (m := []) hbegun rfl
      exact ⟨t, _, ht, hsound, hcount.trans_le (Nat.le_succ _)⟩
  | ret =>
    obtain ⟨p, hp⟩ := Option.ne_none_iff_exists'.mp hpossible
    obtain ⟨m, m', rfl, hcalled⟩ := h.progress p hp
    obtain ⟨node, hnode⟩ := Option.isSome_iff_exists.mp (h.lists.live p (by simp))
    obtain ⟨r, -, -, hseg⟩ := seg_append.mp h.lists.seg
    have hnext : s.cpu.processes.next p = node.next := by
      rw [Processes.next, hnode]
      rfl
    rw [hnext] at hseg
    rw [step, hp, Option.bind_eq_bind, Option.bind_some, hnode, Option.bind_eq_bind,
      Option.bind_some]
    cases m' with
    | nil =>
      rw [seg_nil] at hseg
      rw [hseg]
      refine ⟨_, _, rfl, leave_spec h ?_, Nat.le_succ _⟩
      rw [hcalled, h.numbers_eq]
    | cons q m' =>
      rw [hseg.1]
      rw [List.append_cons] at h
      obtain ⟨t, ht, hsound, hcount⟩ := enter_spec h hcalled
      exact ⟨t, _, ht, hsound, hcount.trans_le (Nat.le_succ _)⟩

lemma sound_boot (cpu : Cpu) : (boot cpu).Sound [] := by
  refine ⟨⟨⟨rfl, by simp⟩, rfl, List.Pairwise.nil, ?_⟩, ?_, List.Sublist.refl _, ?_, ?_⟩
  · intro i hi
    cases hi
  · intro i hi
    cases hi
  · intro p hp
    cases hp
  · intro pass hpass
    cases hpass

lemma run_sound {ops : List ProcessOp} (h : s.Sound l)
    (hguarded : Guarded (step fuel) (fun s op => s.Possible op ∧ s.Careful op) s ops)
    (hfuel : s.history.count + ops.length ≤ fuel) :
    ∃ t l', run (step fuel) s ops = some t ∧ t.Sound l' := by
  induction ops generalizing s l with
  | nil => exact ⟨s, l, rfl, h⟩
  | cons op ops ih =>
    rw [List.length_cons] at hfuel
    have hfuel' : s.history.count < fuel := by omega
    obtain ⟨t, l', hstep, hsound, hcount⟩ := step_sound h hguarded.1.1 hguarded.1.2 hfuel'
    obtain ⟨u, m, hrun, hu⟩ := ih hsound (hguarded.tail hstep) (by omega)
    exact ⟨u, m, (run_cons_some _).mpr ⟨t, hstep, hrun⟩, hu⟩

/-- In every run in which nothing walks the list before it exists and no callback ends its own
registration, no null or freed pointer is followed and every walk ends; the list has no cycle and
is the sequence of the registrations; and every pass that has ended has called each registration
that was present throughout once, in order. -/
theorem processes_safe (cpu : Cpu) {ops : List ProcessOp} {fuel : ℕ} (hfuel : ops.length ≤ fuel)
    (hguarded : Guarded (step fuel) (fun s op => s.Possible op ∧ s.Careful op) (boot cpu) ops) :
    ∃ s, run (step fuel) (boot cpu) ops = some s ∧
      (∃ l, s.cpu.processes.Lists l ∧ l.Nodup ∧
        s.history.registered = l.map fun p => (s.history.label p, s.cpu.processes.cbAt p)) ∧
      ∀ pass ∈ s.history.ended, pass.Complete := by
  obtain ⟨s, l, hrun, hsound⟩ := run_sound (sound_boot cpu) hguarded
    (by rw [show (boot cpu).history.count = 0 from rfl, Nat.zero_add]; exact hfuel)
  exact ⟨s, hrun, ⟨l, hsound.lists, hsound.lists.nodup, hsound.registered⟩, hsound.ended⟩

/-- Of two processes the first adds a third and ends the second. -/
def editing : List ProcessOp :=
  [.add true (some 10) (some 1), .add true (some 11) (some 2), .exe, .add true (some 12) (some 3),
    .del (some 2), .ret, .ret]

def resetCpu : Cpu where
  status := 1
  sfr := fun _ => 0
  timer := coreTimerAtBoot 200000000
  processes := ⟨fun _ => none, none⟩

theorem processes_safe_editing :
    ∃ s, run (step 7) (boot resetCpu) editing = some s ∧
      (∃ l, s.cpu.processes.Lists l ∧ l.Nodup ∧
        s.history.registered = l.map fun p => (s.history.label p, s.cpu.processes.cbAt p)) ∧
      ∀ pass ∈ s.history.ended, pass.Complete :=
  processes_safe resetCpu (by decide) (by decide)

/-- A process that ends itself is freed while it runs. -/
theorem running_process_freed : ¬ ∀ (cpu : Cpu) (ops : List ProcessOp) (fuel : ℕ),
    ops.length ≤ fuel → Guarded (step fuel) Possible (boot cpu) ops →
    ∃ s, run (step fuel) (boot cpu) ops = some s := by
  intro h
  obtain ⟨s, hs⟩ := h resetCpu
    [.add true (some 10) (some 1), .exe, .del (some 1), .ret] 4 (by decide) (by decide)
  have hfault : (run (step 4) (boot resetCpu)
      [.add true (some 10) (some 1), .exe, .del (some 1), .ret]).isNone = true := by rfl
  rw [hs] at hfault
  cases hfault

end ProcessLoop

end FrameworkXC32
