import FrameworkXC32.Lib.Word

/-!
# The interrupt-enable bit

The CP0 Status word and the ways in which the framework closes a critical section. Every section
opens with `di`; what its closing half looks at is the Status word that `di` returned.
-/

namespace FrameworkXC32
open Machine

/-- The `di` instruction and `__builtin_disable_interrupts()`. -/
def di (status : Word) : Word := regClr status 1

/-- The `ei` instruction and `__builtin_enable_interrupts()`. -/
def ei (status : Word) : Word := regSet status 1

def interruptsEnabled (status : Word) : Bool := status.getLsbD 0

/-- `EXIT_CRITICAL()`. -/
def exitCritical (isrStatus status : Word) : Word :=
  if isrStatus ≠ 0 then status ||| 0x0001 else status

/-- `IRQ_INT_Disable()` returns the enable bit alone. -/
def irqIntState (status : Word) : Bool := status &&& 0x01 ≠ 0

def irqIntRestore (state : Bool) (status : Word) : Word :=
  if state then ei status else status

def restoreInterrupts (st status : Word) : Word :=
  if st &&& 1 ≠ 0 then ei status else di status

/-- The pairs that open and close a section around a body. -/
inductive Idiom
  /-- `ENTER_CRITICAL()` and `EXIT_CRITICAL()` -/
  | critical
  /-- `SystemUnlock()` and `SystemLock()` -/
  | system
  /-- `IRQ_INT_Disable()` and `IRQ_INT_Restore(state)` -/
  | irqInt
  /-- `disableInterrupts()` and `restoreInterrupts(saved)` -/
  | interrupts
deriving DecidableEq, Repr

/-- A section: one of the pairs, or the inline `di` and `ei` of `micros()`. -/
inductive SectionKind
  | pair (idiom : Idiom)
  | micros
deriving DecidableEq, Repr

/-- The closing half, on the Status word `saved` that the opening `di` returned. -/
def SectionKind.exit : SectionKind → Word → Word → Word
  | .pair .critical, saved, status => exitCritical saved status
  | .pair .system, _, status => ei status
  | .pair .irqInt, saved, status => irqIntRestore (irqIntState saved) status
  | .pair .interrupts, saved, status => restoreInterrupts saved status
  | .micros, _, status => ei status

/-- The section may be opened with interrupts disabled. -/
def SectionKind.Nestable (status : Word) : SectionKind → Prop
  | .pair .irqInt | .pair .interrupts => True
  | .pair .critical => di status = 0
  | .pair .system | .micros => False

@[simp] lemma interruptsEnabled_di (status : Word) : interruptsEnabled (di status) = false := by
  simp only [interruptsEnabled, di, getLsbD_regClr]
  simp

@[simp] lemma interruptsEnabled_ei (status : Word) : interruptsEnabled (ei status) = true := by
  simp only [interruptsEnabled, ei, getLsbD_regSet]
  simp

@[simp] lemma di_di (status : Word) : di (di status) = di status := by
  apply BitVec.eq_of_getLsbD_eq
  intro i hi
  simp only [di, getLsbD_regClr]
  cases status.getLsbD i <;> cases (1 : Word).getLsbD i <;> rfl

@[simp] lemma di_ei (status : Word) : di (ei status) = di status := by
  apply BitVec.eq_of_getLsbD_eq
  intro i hi
  simp only [di, ei, getLsbD_regClr, getLsbD_regSet]
  cases status.getLsbD i <;> cases (1 : Word).getLsbD i <;> rfl

lemma getLsbD_status (status : Word) (i : ℕ) : status.getLsbD i =
    if i = 0 then interruptsEnabled status else (di status).getLsbD i := by
  split
  · rename_i hi
    rw [hi]
    rfl
  · rename_i hi
    simp only [di, getLsbD_regClr]
    simp [hi]

lemma status_ext {status status' : Word}
    (henabled : interruptsEnabled status = interruptsEnabled status')
    (hrest : di status = di status') : status = status' := by
  apply BitVec.eq_of_getLsbD_eq
  intro i hi
  rw [getLsbD_status status, getLsbD_status status', henabled, hrest]

lemma status_eq_zero_iff (status : Word) :
    status = 0 ↔ interruptsEnabled status = false ∧ di status = 0 := by
  constructor
  · intro h
    rw [h]
    decide
  · intro ⟨henabled, hrest⟩
    apply status_ext henabled
    rw [hrest]
    decide

lemma and_one_ne_zero_iff (status : Word) :
    status &&& 1 ≠ 0 ↔ interruptsEnabled status = true := by
  have hmask : interruptsEnabled (status &&& 1) = interruptsEnabled status := by
    simp only [interruptsEnabled, BitVec.getLsbD_and]
    simp
  have hrest : di (status &&& 1) = 0 := by
    apply BitVec.eq_of_getLsbD_eq
    intro i hi
    simp only [di, getLsbD_regClr, BitVec.getLsbD_and]
    cases status.getLsbD i <;> cases (1 : Word).getLsbD i <;> simp
  rw [ne_eq, status_eq_zero_iff, hmask, hrest]
  cases interruptsEnabled status <;> simp

lemma irqIntState_eq (status : Word) : irqIntState status = interruptsEnabled status := by
  unfold irqIntState
  rw [Bool.eq_iff_iff, decide_eq_true_iff]
  exact and_one_ne_zero_iff status

lemma interruptsEnabled_exit (kind : SectionKind) (saved status : Word) :
    interruptsEnabled (kind.exit saved status) =
      match kind with
      | .pair .critical => decide (saved ≠ 0) || interruptsEnabled status
      | .pair .system | .micros => true
      | .pair .irqInt => interruptsEnabled saved || interruptsEnabled status
      | .pair .interrupts => interruptsEnabled saved := by
  match kind with
  | .pair .critical =>
    simp only [SectionKind.exit, exitCritical]
    by_cases h : saved = 0
    · simp [h]
    · rw [if_pos h, decide_eq_true h, Bool.true_or]
      exact interruptsEnabled_ei status
  | .pair .system | .micros => exact interruptsEnabled_ei status
  | .pair .irqInt =>
    simp only [SectionKind.exit, irqIntRestore, irqIntState_eq]
    cases interruptsEnabled saved <;> simp
  | .pair .interrupts =>
    simp only [SectionKind.exit, restoreInterrupts, and_one_ne_zero_iff]
    cases interruptsEnabled saved <;> simp

@[simp] lemma di_exit (kind : SectionKind) (saved status : Word) :
    di (kind.exit saved status) = di status := by
  match kind with
  | .pair .critical =>
    simp only [SectionKind.exit, exitCritical]
    split
    · exact di_ei status
    · rfl
  | .pair .system | .micros => exact di_ei status
  | .pair .irqInt =>
    simp only [SectionKind.exit, irqIntRestore]
    split <;> simp
  | .pair .interrupts =>
    simp only [SectionKind.exit, restoreInterrupts]
    split <;> simp

/-- After a body that ends with interrupts disabled, the closing half restores the enable bit
unless the section was opened with interrupts disabled and is not nestable. -/
lemma exit_restores_iff (kind : SectionKind) {saved status : Word}
    (hbody : interruptsEnabled status = false) :
    interruptsEnabled (kind.exit saved status) = interruptsEnabled saved ↔
      (interruptsEnabled saved = false → kind.Nestable saved) := by
  rw [interruptsEnabled_exit, hbody]
  match kind with
  | .pair .critical =>
    have hzero := status_eq_zero_iff saved
    simp only [SectionKind.Nestable, Bool.or_false]
    cases hsaved : interruptsEnabled saved <;> simp [hsaved] at hzero ⊢
    · exact hzero
    · exact hzero
  | .pair .system | .micros =>
    simp only [SectionKind.Nestable]
    cases interruptsEnabled saved <;> simp
  | .pair .irqInt | .pair .interrupts =>
    simp [SectionKind.Nestable]

end FrameworkXC32
