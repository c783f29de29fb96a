import FrameworkXC32.Critical.Processes

/-!
# Nested critical sections

Well-nested code made of the four pairs and of the functions that open a section themselves, run
from an arbitrary Status word. A run records every section that closes, with the enable bit before
it and after it.
-/

namespace FrameworkXC32
open Machine

/-- The functions that open sections of their own, with what they read from their environment. -/
inductive Call
  | pinMux (reg : Sfr) (val : Word)
  | micros (current : Word)
  | addProcess (mallocList : Bool) (mallocNode : Option ℕ) (cb : Option ℕ)
  | delProcess (cb : Option ℕ)
deriving Repr

def Call.exec (fcpu : Word) (fuel : ℕ) : Call → Cpu → Option Cpu
  | .pinMux reg val, c => some (c.pinMux reg val)
  | .micros current, c => some (c.micros fcpu current).2
  | .addProcess mallocList mallocNode cb, c => c.addProcess fuel mallocList mallocNode cb
  | .delProcess cb, c => c.delProcess fuel cb

/-- The section that a call opens and closes when it runs in a state. -/
def Call.opens (fuel : ℕ) : Call → Cpu → Option SectionKind
  | .pinMux _ _, _ => some (.pair .system)
  | .micros _, _ => some .micros
  | .addProcess mallocList _ cb, c =>
    if cb ≠ none ∧ (c.processes.allocated mallocList).pListProcess ≠ none then
      some (.pair .critical)
    else none
  | .delProcess cb, c =>
    match c.processes.search fuel cb with
    | some (some _) => some (.pair .critical)
    | _ => none

/-- Code in which every section that is opened is closed. -/
inductive Code
  | done
  | pair (idiom : Idiom) (body rest : Code)
  | call (f : Call) (rest : Code)
deriving Repr

/-- A section of a run, whether another one was open around it, and the enable bit before and
after it. -/
structure Span where
  kind : SectionKind
  nested : Bool
  before : Bool
  after : Bool
deriving DecidableEq, Repr

/-- The sections that close in a run of the code, and the state at its end, `none` when a call
faults. -/
def Code.exec (fcpu : Word) (fuel : ℕ) : Bool → Code → Cpu → List Span × Option Cpu
  | _, .done, c => ([], some c)
  | nested, .pair idiom body rest, c =>
    match exec fcpu fuel true body (c.withStatus (di c.status)) with
    | (inner, none) => (inner, none)
    | (inner, some c') =>
      let closed := c'.withStatus (SectionKind.exit (.pair idiom) c.status c'.status)
      let span : Span := ⟨.pair idiom, nested, interruptsEnabled c.status,
        interruptsEnabled closed.status⟩
      let (after, final) := exec fcpu fuel nested rest closed
      (inner ++ span :: after, final)
  | nested, .call f rest, c =>
    match f.exec fcpu fuel c with
    | none => ([], none)
    | some c' =>
      let spans := (f.opens fuel c).toList.map fun kind => (⟨kind, nested,
        interruptsEnabled c.status, interruptsEnabled c'.status⟩ : Span)
      let (after, final) := exec fcpu fuel nested rest c'
      (spans ++ after, final)

lemma Call.exec_status {fcpu : Word} {fuel : ℕ} {f : Call} {c c' : Cpu}
    (h : f.exec fcpu fuel c = some c') :
    c'.status = match f.opens fuel c with
      | some kind => kind.exit c.status (di c.status)
      | none => c.status := by
  cases f with
  | pinMux reg val =>
    cases h
    rfl
  | micros current =>
    cases h
    rfl
  | addProcess mallocList mallocNode cb =>
    cases cb with
    | none =>
      cases h
      rfl
    | some cb =>
      simp only [Call.exec, Cpu.addProcess, Cpu.withProcesses, Cpu.withStatus] at h
      cases hlist : (c.processes.allocated mallocList).pListProcess with
      | none =>
        rw [hlist] at h
        cases h
        simp [Call.opens, hlist]
      | some head =>
        rw [hlist] at h
        obtain ⟨processes, -, h⟩ := Option.bind_eq_some_iff.mp h
        cases h
        simp [Call.opens, hlist, SectionKind.exit]
  | delProcess cb =>
    simp only [Call.exec, Cpu.delProcess, Cpu.withProcesses, Cpu.withStatus] at h
    obtain ⟨found, hfound, h⟩ := Option.bind_eq_some_iff.mp h
    cases found with
    | none =>
      cases h
      simp [Call.opens, hfound]
    | some nodes =>
      obtain ⟨processes, -, h⟩ := Option.bind_eq_some_iff.mp h
      cases h
      simp [Call.opens, hfound, SectionKind.exit]

/-! ### Sections of a run -/

/-- The enable bit before code that is or is not inside a section, when sections restore it. -/
def enabledAt (enabled nested : Bool) : Bool := !nested && enabled

/-- The sections whose enable bit is looked at: those inside another one, and the outermost ones
when `all` is set. -/
def Span.Watched (all : Bool) (x : Span) : Prop := x.nested = true ∨ all = true

def Span.Restored (x : Span) : Prop := x.after = x.before

/-- The section can be where it is, in code that starts with the Status word. -/
def Span.Allowed (status : Word) (x : Span) : Prop :=
  enabledAt (interruptsEnabled status) x.nested = false → x.kind.Nestable status

/-- The sections `spans` of a run of code in a program started with `status`: the watched ones
restore the enable bit exactly when they are allowed, and then it follows the nesting. -/
structure Nests (all : Bool) (status : Word) (nested : Bool) (spans : List Span)
    (final : Option Cpu) : Prop where
  restored_iff : (∀ x ∈ spans, x.Watched all → x.Restored) ↔
    ∀ x ∈ spans, x.Watched all → x.Allowed status
  before : (∀ x ∈ spans, x.Watched all → x.Restored) → ∀ x ∈ spans, x.Watched all →
    x.before = enabledAt (interruptsEnabled status) x.nested
  enabled : (∀ x ∈ spans, x.Watched all → x.Restored) → nested = true ∨ all = true →
    ∀ c ∈ final, interruptsEnabled c.status = enabledAt (interruptsEnabled status) nested

lemma Nestable.of_di_eq {kind : SectionKind} {status status' : Word}
    (h : di status = di status') : kind.Nestable status ↔ kind.Nestable status' := by
  unfold SectionKind.Nestable
  rw [h]

/-- A section closes around a body that nests, and the code behind it nests. -/
lemma Nests.close (kind : SectionKind) {all nested : Bool} {status : Word} {saved : Word}
    {inner after : List Span} {body : Cpu} {final : Option Cpu}
    (hsaved : nested = true ∨ all = true →
      interruptsEnabled saved = enabledAt (interruptsEnabled status) nested)
    (hrest : di saved = di status) (hinner : Nests all status true inner (some body))
    (hafter : (nested = true ∨ all = true →
      interruptsEnabled (kind.exit saved body.status) =
        enabledAt (interruptsEnabled status) nested) →
      Nests all status nested after final) :
    Nests all status nested (inner ++ ⟨kind, nested, interruptsEnabled saved,
      interruptsEnabled (kind.exit saved body.status)⟩ :: after) final := by
  have hspan : (∀ x ∈ inner, x.Watched all → x.Restored) → nested = true ∨ all = true →
      (interruptsEnabled (kind.exit saved body.status) = interruptsEnabled saved ↔
        (enabledAt (interruptsEnabled status) nested = false → kind.Nestable status)) := by
    intro hr hw
    have hbody := hinner.enabled hr (Or.inl rfl) body rfl
    rw [exit_restores_iff kind hbody, hsaved hw, Nestable.of_di_eq hrest]
  have hclosed : (nested = true ∨ all = true →
      interruptsEnabled (kind.exit saved body.status) = interruptsEnabled saved) →
      nested = true ∨ all = true → interruptsEnabled (kind.exit saved body.status) =
        enabledAt (interruptsEnabled status) nested :=
    fun h hw => (h hw).trans (hsaved hw)
  constructor
  · simp only [List.forall_mem_append, List.forall_mem_cons]
    constructor
    · intro ⟨hi, hs, ha⟩
      refine ⟨hinner.restored_iff.mp hi, fun hw => (hspan hi hw).mp (hs hw), ?_⟩
      exact (hafter (hclosed hs)).restored_iff.mp ha
    · intro ⟨hi, hs, ha⟩
      have hr := hinner.restored_iff.mpr hi
      have hs' := fun hw => (hspan hr hw).mpr (hs hw)
      exact ⟨hr, hs', (hafter (hclosed hs')).restored_iff.mpr ha⟩
  · simp only [List.forall_mem_append, List.forall_mem_cons]
    intro ⟨hi, hs, ha⟩
    exact ⟨hinner.before hi, hsaved, (hafter (hclosed hs)).before ha⟩
  · simp only [List.forall_mem_append, List.forall_mem_cons]
    intro ⟨hi, hs, ha⟩
    exact (hafter (hclosed hs)).enabled ha

lemma Nests.nil {all nested : Bool} {status : Word} {final : Option Cpu}
    (henabled : nested = true ∨ all = true → ∀ c ∈ final,
      interruptsEnabled c.status = enabledAt (interruptsEnabled status) nested) :
    Nests all status nested [] final :=
  ⟨by simp, by simp, fun _ => henabled⟩

lemma exec_di {fcpu : Word} {fuel : ℕ} {code : Code} {nested : Bool} {c c' : Cpu}
    (h : (code.exec fcpu fuel nested c).2 = some c') : di c'.status = di c.status := by
  induction code generalizing nested c c' with
  | done =>
    cases h
    rfl
  | pair idiom body rest ihbody ihrest =>
    simp only [Code.exec] at h
    split at h
    · cases h
    · rename_i inner end' hbody
      have hend := ihbody (congrArg Prod.snd hbody)
      have hrest := ihrest h
      rw [hrest]
      simpa using hend
  | call f rest ih =>
    simp only [Code.exec] at h
    split at h
    · cases h
    · rename_i end' hf
      rw [ih h, f.exec_status hf]
      split
      · rw [di_exit, di_di]
      · rfl

theorem exec_nests (fcpu : Word) (fuel : ℕ) (all : Bool) (status : Word) (code : Code) :
    ∀ (nested : Bool) (c : Cpu), di c.status = di status →
      (nested = true ∨ all = true →
        interruptsEnabled c.status = enabledAt (interruptsEnabled status) nested) →
      Nests all status nested (code.exec fcpu fuel nested c).1 (code.exec fcpu fuel nested c).2 := by
  induction code with
  | done =>
    intro nested c _ henabled
    apply Nests.nil
    intro hw c' hc'
    cases hc'
    exact henabled hw
  | pair idiom body rest ihbody ihrest =>
    intro nested c hrest henabled
    have hinner := ihbody true (c.withStatus (di c.status)) (by simpa using hrest)
      (fun _ => interruptsEnabled_di c.status)
    simp only [Code.exec]
    split
    · rename_i inner hbody
      rw [hbody] at hinner
      exact ⟨hinner.restored_iff, hinner.before, by simp⟩
    · rename_i inner end' hbody
      rw [hbody] at hinner
      have hend := exec_di (congrArg Prod.snd hbody)
      apply Nests.close _ henabled hrest hinner
      intro hclosed
      apply ihrest nested _ ?_ hclosed
      simpa [hrest] using hend
  | call f rest ih =>
    intro nested c hrest henabled
    simp only [Code.exec]
    split
    · exact Nests.nil (by simp)
    · rename_i end' hf
      have hstatus := f.exec_status hf
      cases hopens : f.opens fuel c with
      | none =>
        rw [hopens] at hstatus
        have hnext := ih nested end' (hstatus ▸ hrest) (hstatus ▸ henabled)
        simpa using hnext
      | some kind =>
        -- a call is a section around an empty body
        rw [hopens] at hstatus
        have hempty : Nests all status true [] (some (c.withStatus (di c.status))) := by
          apply Nests.nil
          intro _ c' hc'
          cases hc'
          exact interruptsEnabled_di c.status
        have hcall := Nests.close kind henabled hrest hempty
          (fun hclosed => ih nested end' (by rw [hstatus, di_exit, di_di, hrest])
            (by rw [hstatus]; exact hclosed))
        rw [hstatus]
        simpa using hcall

/-- What nesting promises: an inner section leaves the enable bit as it was, and interrupts stay
disabled while an outer section is open. -/
structure SectionsNest (spans : List Span) : Prop where
  restores : ∀ x ∈ spans, x.nested = true → x.after = x.before
  disabled : ∀ x ∈ spans, x.nested = true → x.before = false ∧ x.after = false

lemma sectionsNest_iff {status : Word} {nested : Bool} {spans : List Span} {final : Option Cpu}
    (h : Nests false status nested spans final) :
    SectionsNest spans ↔ ∀ x ∈ spans, x.Watched false → x.Restored := by
  have hwatched : ∀ x : Span, x.Watched false ↔ x.nested = true := by
    intro x
    simp [Span.Watched]
  simp only [hwatched]
  constructor
  · intro hn
    exact hn.restores
  · intro hr
    refine ⟨hr, ?_⟩
    intro x hx hnested
    have hbefore := h.before (fun y hy hw => hr y hy ((hwatched y).mp hw)) x hx (Or.inl hnested)
    rw [hnested] at hbefore
    exact ⟨hbefore, (hr x hx hnested).trans hbefore⟩

/-- Sections nest in a run exactly when every inner one is nestable: `IRQ_INT_Disable`,
`disableInterrupts`, or `ENTER_CRITICAL` on a Status word whose other bits are all zero. Every
section of the run restores the enable bit exactly when, besides, the outermost ones are nestable
or opened with interrupts enabled. -/
theorem sections_nest_iff (fcpu : Word) (fuel : ℕ) (code : Code) (c : Cpu) :
    (SectionsNest (code.exec fcpu fuel false c).1 ↔
      ∀ x ∈ (code.exec fcpu fuel false c).1, x.nested = true → x.kind.Nestable c.status) ∧
    ((∀ x ∈ (code.exec fcpu fuel false c).1, x.after = x.before) ↔
      ∀ x ∈ (code.exec fcpu fuel false c).1,
        x.nested = true ∨ interruptsEnabled c.status = false → x.kind.Nestable c.status) := by
  have hinner := exec_nests fcpu fuel false c.status code false c rfl (by simp)
  have hevery := exec_nests fcpu fuel true c.status code false c rfl (fun _ => rfl)
  constructor
  · rw [sectionsNest_iff hinner, hinner.restored_iff]
    apply forall₂_congr
    intro x _
    unfold Span.Watched Span.Allowed enabledAt
    cases x.nested <;> simp
  · have hiff := hevery.restored_iff
    simp only [Span.Watched, or_true, forall_true_left] at hiff
    refine Iff.trans hiff ?_
    apply forall₂_congr
    intro x _
    unfold Span.Allowed enabledAt
    cases x.nested <;> simp

/-- A critical section inside a critical section, with `CU0` and `IE` set in the Status word: the
inner `EXIT_CRITICAL` enables interrupts. -/
theorem sections_do_not_nest : ¬ ∀ (fcpu : Word) (fuel : ℕ) (code : Code) (c : Cpu),
    SectionsNest (code.exec fcpu fuel false c).1 := by
  intro h
  have hrun := h 200000000 0 (.pair .critical (.pair .critical .done .done) .done)
    ⟨0x10000001, fun _ => 0, coreTimerAtBoot 200000000, ⟨fun _ => none, none⟩⟩
  have hinner := hrun.restores ⟨.pair .critical, true, false, true⟩ (by decide) rfl
  exact absurd hinner (by decide)

end FrameworkXC32
