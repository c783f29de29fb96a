import FrameworkXC32.Lib.Cells
import FrameworkXC32.Spi.Model

/-!
# Remapped pins

The remap registers under calls of `setRPins`, `setPins` and `begin` of `SPIClass` and of
`setRPins` of `Uart`. Each call resets the output registers of its own arguments, not those of the
calls before it, and whether it does so depends on the table of the board.
-/

namespace FrameworkXC32
open Machine

/-- A line of `uart_context`. -/
structure UartContext where
  rpinTx : Option ℕ
  rvalTx : Word
  rpinRx : Option ℕ
  rvalRx : Word
deriving DecidableEq, Repr

/-- `Uart::setRPins` -/
def UartContext.setRPins (u : UartContext) (rpinTx : Option ℕ) (rvalTx : Word) (rpinRx : Option ℕ)
    (rvalRx : Word) (c : Cpu) : Option Cpu := do
  let c := c.systemUnlock
  let c ← c.storeIf u.rpinTx rpinTx 0
  let c ← c.storeIf rpinTx rpinTx rvalTx
  let c ← c.storeIf rpinRx rpinRx rvalRx
  some c.systemLock

/-- A call on the remap registers: the outputs that it resets, each where the entry of the table
before it is not NULL, and the registers that it selects with their values. What it resets it also
selects. -/
structure Remap where
  resets : List (Option ℕ × Option ℕ)
  writes : List (Option ℕ × Word)
  covers : ∀ g r, (g, some r) ∈ resets → ∃ v, (some r, v) ∈ writes

namespace Remap

/-- The output registers that the call selects. -/
def outputs (m : Remap) : List ℕ := m.resets.filterMap Prod.snd

/-- All registers that it selects. -/
def registers (m : Remap) : List ℕ := m.writes.filterMap Prod.fst

/-- What one write puts into a register. -/
def put (w : Option ℕ × Word) (r : ℕ) : Option Word := if w.1 = some r then some w.2 else none

/-- The value that the call leaves in a register, when it selects it. -/
def value (m : Remap) (r : ℕ) : Option Word := Cells.last put m.writes r

def reset (c : Cpu) (g : Option ℕ × Option ℕ) : Option Cpu := c.storeIf g.1 g.2 0

def select (c : Cpu) (w : Option ℕ × Word) : Option Cpu := c.storeIf w.1 w.1 w.2

def exec (m : Remap) (c : Cpu) : Option Cpu := do
  let c ← Runs.run reset c.systemUnlock m.resets
  let c ← Runs.run select c m.writes
  some c.systemLock

/-- No reset goes through a null pointer. -/
def NonNull (m : Remap) : Prop := ∀ g ∈ m.resets, g.1.isSome → g.2.isSome

end Remap

def Cpu.remapped (c : Cpu) (r : ℕ) : Word := c.sfr (.rpr r)

namespace Cpu

@[simp] lemma remapped_systemUnlock (c : Cpu) : c.systemUnlock.remapped = c.remapped := by
  funext r
  simp [remapped, systemUnlock, sysKeyUnlock, write, withStatus]

@[simp] lemma remapped_systemLock (c : Cpu) : c.systemLock.remapped = c.remapped := by
  funext r
  simp [remapped, systemLock, sysKeyLock, write, withStatus]

lemma remapped_write (c : Cpu) (r i : ℕ) (val : Word) :
    (c.write (.rpr r) val).remapped i = if r = i then val else c.remapped i := by
  unfold remapped write
  by_cases h : r = i
  · rw [h, if_pos rfl]
    exact Function.update_self _ _ _
  · have hne : Sfr.rpr i ≠ Sfr.rpr r := fun heq => h (Sfr.rpr.inj heq).symm
    rw [if_neg h]
    exact Function.update_of_ne hne _ _

/-- A guarded write fails only through a null pointer. -/
lemma storeIf_eq_none (c : Cpu) (guard reg : Option ℕ) (val : Word) :
    c.storeIf guard reg val = none ↔ guard.isSome = true ∧ reg = none := by
  unfold storeIf store
  cases guard <;> cases reg <;> simp

lemma remapped_storeIf {c t : Cpu} {guard reg : Option ℕ} {val : Word}
    (h : c.storeIf guard reg val = some t) (i : ℕ) :
    t.remapped i = if guard.isSome ∧ reg = some i then val else c.remapped i := by
  unfold storeIf store at h
  cases guard with
  | none =>
    cases h
    simp
  | some g =>
    cases reg with
    | none => cases h
    | some r =>
      cases h
      simp [remapped_write]

end Cpu

namespace Remap

variable (m : Remap) {c t : Cpu}

lemma mem_outputs (r : ℕ) : r ∈ m.outputs ↔ ∃ g, (g, some r) ∈ m.resets := by
  simp [outputs, List.mem_filterMap]

lemma mem_registers (r : ℕ) : r ∈ m.registers ↔ ∃ v, (some r, v) ∈ m.writes := by
  simp [registers, List.mem_filterMap]

lemma registers_of_outputs {r : ℕ} (h : r ∈ m.outputs) : r ∈ m.registers := by
  obtain ⟨g, hg⟩ := (m.mem_outputs r).mp h
  exact (m.mem_registers r).mpr (m.covers g r hg)

lemma value_eq_none (r : ℕ) : m.value r = none ↔ r ∉ m.registers := by
  rw [value, Cells.last_eq_none, mem_registers]
  constructor
  · rintro h ⟨v, hv⟩
    have hput := h _ hv
    simp [put] at hput
  · rintro h ⟨reg, v⟩ hw
    have hne : reg ≠ some r := by
      rintro rfl
      exact h ⟨v, hw⟩
    simp [put, hne]

lemma mem_of_value {r : ℕ} {v : Word} (h : m.value r = some v) : (some r, v) ∈ m.writes := by
  obtain ⟨⟨reg, val⟩, hw, hput⟩ := Cells.exists_of_last put h
  unfold put at hput
  split at hput
  · rename_i heq
    cases heq
    cases hput
    exact hw
  · cases hput

lemma remapped_resets {gs : List (Option ℕ × Option ℕ)} {r : ℕ}
    (hr : ∀ g, (g, some r) ∉ gs) (h : Runs.run reset c gs = some t) :
    t.remapped r = c.remapped r := by
  induction gs generalizing c with
  | nil =>
    cases h
    rfl
  | cons g gs ih =>
    obtain ⟨u, hu, hut⟩ := (Runs.run_cons_some reset).mp h
    have hne : g.2 ≠ some r := fun heq => hr g.1 (by rw [← heq]; exact List.mem_cons_self)
    rw [ih (fun g' hg' => hr g' (List.mem_cons_of_mem g hg')) hut, Cpu.remapped_storeIf hu,
      if_neg fun hand => hne hand.2]

lemma run_resets_eq_none (c : Cpu) (gs : List (Option ℕ × Option ℕ)) :
    Runs.run reset c gs = none ↔ ¬∀ g ∈ gs, g.1.isSome = true → g.2.isSome = true := by
  induction gs generalizing c with
  | nil => simp
  | cons g gs ih =>
    rw [Runs.run_cons, List.forall_mem_cons, not_and_or]
    cases hg : reset c g with
    | none =>
      have hnull := (Cpu.storeIf_eq_none c g.1 g.2 0).mp hg
      simp [hnull]
    | some u =>
      have hhead : ¬(g.1.isSome = true ∧ g.2 = none) := by
        intro hnull
        have hnone := (Cpu.storeIf_eq_none c g.1 g.2 0).mpr hnull
        rw [reset, hnone] at hg
        cases hg
      rw [Option.bind_some, ih]
      constructor
      · exact Or.inr
      · rintro (hfirst | hrest)
        · refine absurd (fun hsome => ?_) hfirst
          rw [Option.isSome_iff_ne_none]
          exact fun hnone => hhead ⟨hsome, hnone⟩
        · exact hrest

lemma run_select (c : Cpu) (ws : List (Option ℕ × Word)) : ∃ t, Runs.run select c ws = some t := by
  induction ws generalizing c with
  | nil => exact ⟨c, rfl⟩
  | cons w ws ih =>
    cases hw : select c w with
    | none =>
      obtain ⟨hsome, hnone⟩ := (Cpu.storeIf_eq_none c w.1 w.1 w.2).mp hw
      rw [hnone] at hsome
      cases hsome
    | some u =>
      rw [Runs.run_cons, hw]
      exact ih u

lemma remapped_select {ws : List (Option ℕ × Word)} (h : Runs.run select c ws = some t) (r : ℕ) :
    t.remapped r = (Cells.last put ws r).getD (c.remapped r) := by
  refine Cells.observe_run (fun s w u i hu => ?_) h r
  rw [Cpu.remapped_storeIf hu, put]
  by_cases hw : w.1 = some i <;> simp [hw]

lemma exec_eq_none (c : Cpu) : m.exec c = none ↔ ¬m.NonNull := by
  rw [NonNull, ← run_resets_eq_none c.systemUnlock]
  unfold exec
  cases hr : Runs.run reset c.systemUnlock m.resets with
  | none => simp
  | some u =>
    obtain ⟨v, hv⟩ := run_select u m.writes
    simp [hv]

/-- The registers that the call selects get their value, the others are left alone. -/
theorem remapped_exec (h : m.exec c = some t) (r : ℕ) :
    t.remapped r = (m.value r).getD (c.remapped r) := by
  simp only [exec, Option.bind_eq_bind, Option.bind_eq_some_iff, Option.some.injEq] at h
  obtain ⟨u, hu, v, hv, rfl⟩ := h
  rw [Cpu.remapped_systemLock, remapped_select hv r]
  cases hvalue : m.value r with
  | some val =>
    rw [show Cells.last put m.writes r = some val from hvalue]
    rfl
  | none =>
    rw [show Cells.last put m.writes r = none from hvalue, Option.getD_none, Option.getD_none]
    have hout : ∀ g, (g, some r) ∉ m.resets := by
      intro g hg
      have hreg := m.registers_of_outputs ((m.mem_outputs r).mpr ⟨g, hg⟩)
      exact (m.value_eq_none r).mp hvalue hreg
    rw [remapped_resets hout hu, Cpu.remapped_systemUnlock]

lemma remapped_exec_other (h : m.exec c = some t) {r : ℕ} (hr : r ∉ m.registers) :
    t.remapped r = c.remapped r := by
  rw [m.remapped_exec h, (m.value_eq_none r).mpr hr, Option.getD_none]

lemma remapped_exec_selected_iff (h : m.exec c = some t) :
    (∀ r v, (some r, v) ∈ m.writes → t.remapped r = v) ↔
      ∀ r v v', (some r, v) ∈ m.writes → (some r, v') ∈ m.writes → v = v' := by
  constructor
  · intro hselected r v v' hv hv'
    rw [← hselected r v hv, ← hselected r v' hv']
  · intro hagree r v hv
    rw [m.remapped_exec h]
    cases hvalue : m.value r with
    | some v' => exact hagree r v' v (m.mem_of_value hvalue) hv
    | none => exact absurd ((m.mem_registers r).mpr ⟨v, hv⟩) ((m.value_eq_none r).mp hvalue)

end Remap

/-- What is asked of the registers after a call: the outputs selected earlier and not now are 0, and
what is selected holds its value. -/
structure HandedOver (earlier : List Remap) (m : Remap) (c : Cpu) : Prop where
  released : ∀ r, (∃ m' ∈ earlier, r ∈ m'.outputs) → r ∉ m.registers → c.remapped r = 0
  selected : ∀ r v, (some r, v) ∈ m.writes → c.remapped r = v

/-- The value that was asked for last in a register. -/
def requested (earlier : List Remap) (r : ℕ) : Option Word := Cells.last Remap.value earlier r

/-- A call after which the registers are handed over: it resets nothing through a null pointer, asks
for one value in each register, and of the outputs selected earlier it gives up those only in which
0 was asked for last. -/
structure CleanCall (earlier : List Remap) (m : Remap) : Prop where
  nonNull : m.NonNull
  agree : ∀ r v v', (some r, v) ∈ m.writes → (some r, v') ∈ m.writes → v = v'
  givenUp : ∀ r, (∃ m' ∈ earlier, r ∈ m'.outputs) → r ∉ m.registers → requested earlier r = some 0

section Histories

variable {σ α : Type*} {step : σ → α → Option σ} {cpu : σ → Cpu} {remap : α → Remap}

lemma remapped_run (hstep : ∀ s a, (step s a).map cpu = (remap a).exec (cpu s)) {s t : σ}
    {calls : List α} (h : Runs.run step s calls = some t) (r : ℕ) :
    (cpu t).remapped r = (requested (calls.map remap) r).getD ((cpu s).remapped r) := by
  have hrun : Runs.run (fun c m => Remap.exec m c) (cpu s) (calls.map remap) = some (cpu t) := by
    induction calls generalizing s with
    | nil =>
      cases h
      rfl
    | cons a calls ih =>
      obtain ⟨u, hu, hut⟩ := (Runs.run_cons_some step).mp h
      have hexec := hstep s a
      rw [hu] at hexec
      exact (Runs.run_cons_some _).mpr ⟨cpu u, hexec.symm, ih hut⟩
  exact Cells.observe_run (fun c m t i hm => m.remapped_exec hm i) hrun r

lemma handedOver_step_iff (hstep : ∀ s a, (step s a).map cpu = (remap a).exec (cpu s)) {s t : σ}
    {done : List α} (h : Runs.run step s done = some t) (a : α) :
    (∃ u, Runs.run step s (done ++ [a]) = some u ∧
      HandedOver (done.map remap) (remap a) (cpu u)) ↔ CleanCall (done.map remap) (remap a) := by
  have hlast : ∀ u, Runs.run step s (done ++ [a]) = some u →
      (remap a).exec (cpu t) = some (cpu u) := by
    intro u hu
    obtain ⟨t', ht', hu'⟩ := (Runs.run_append_some step).mp hu
    obtain ⟨u', hu', hnil⟩ := (Runs.run_cons_some step).mp hu'
    cases h.symm.trans ht'
    cases hnil
    rw [← hstep, hu']
    rfl
  constructor
  · rintro ⟨u, hu, hover⟩
    have hexec := hlast u hu
    refine ⟨?_, ?_, ?_⟩
    · by_contra hnull
      rw [((remap a).exec_eq_none (cpu t)).mpr hnull] at hexec
      cases hexec
    · exact ((remap a).remapped_exec_selected_iff hexec).mp hover.selected
    · intro r hout hr
      have hzero := hover.released r hout hr
      rw [(remap a).remapped_exec_other hexec hr, remapped_run hstep h] at hzero
      cases hreq : requested (done.map remap) r with
      | some v =>
        rw [hreq] at hzero
        exact congrArg some hzero
      | none =>
        obtain ⟨m, hm, hmr⟩ := hout
        have hno := (Cells.last_eq_none Remap.value _ r).mp hreq m hm
        exact absurd (m.registers_of_outputs hmr) ((m.value_eq_none r).mp hno)
  · intro hclean
    have hsome : (remap a).exec (cpu t) ≠ none := by
      rw [ne_eq, (remap a).exec_eq_none]
      exact not_not_intro hclean.nonNull
    obtain ⟨u, hu⟩ : ∃ u, step t a = some u := by
      cases hta : step t a with
      | some u => exact ⟨u, rfl⟩
      | none =>
        rw [← hstep, hta] at hsome
        exact absurd rfl hsome
    have hrun : Runs.run step s (done ++ [a]) = some u := by
      rw [Runs.run_append, h, Option.bind_some, Runs.run_cons, hu]
      rfl
    have hexec := hlast u hrun
    refine ⟨u, hrun, ?_, ?_⟩
    · intro r hout hr
      rw [(remap a).remapped_exec_other hexec hr, remapped_run hstep h, hclean.givenUp r hout hr]
      rfl
    · exact ((remap a).remapped_exec_selected_iff hexec).mpr hclean.agree

/-- Every call of a history hands the registers over exactly when every call of it is clean. -/
theorem handedOver_iff (hstep : ∀ s a, (step s a).map cpu = (remap a).exec (cpu s)) (s : σ)
    (calls : List α) :
    (∀ done a, done ++ [a] <+: calls → ∃ t, Runs.run step s (done ++ [a]) = some t ∧
        HandedOver (done.map remap) (remap a) (cpu t)) ↔
      ∀ done a, done ++ [a] <+: calls → CleanCall (done.map remap) (remap a) := by
  constructor
  · intro h done a hdone
    obtain ⟨t, ht, hover⟩ := h done a hdone
    obtain ⟨t', ht', -⟩ := (Runs.run_append_some step).mp ht
    exact (handedOver_step_iff hstep ht' a).mp ⟨t, ht, hover⟩
  · intro h done a hdone
    have hrun : ∀ done, done <+: calls → ∃ t, Runs.run step s done = some t := by
      intro done
      induction done using List.reverseRecOn with
      | nil => exact fun _ => ⟨s, rfl⟩
      | append_singleton done a ih =>
        intro hdone
        obtain ⟨t, ht⟩ := ih ((List.prefix_append done [a]).trans hdone)
        obtain ⟨u, hu, -⟩ := (handedOver_step_iff hstep ht a).mpr (h done a hdone)
        exact ⟨u, hu⟩
    obtain ⟨t, ht⟩ := hrun done ((List.prefix_append done [a]).trans hdone)
    exact (handedOver_step_iff hstep ht a).mpr (h done a hdone)

end Histories

/-- The request of `SPIClass::setRPins`. -/
def SpiContext.remap (u : SpiContext) (rpinMiso : Option ℕ) (rvalMiso : Word)
    (rpinMosi : Option ℕ) (rvalMosi : Word) (rpinCs : Option ℕ) (rvalCs : Word) : Remap where
  resets := [(u.rpinMosi, rpinMosi), (u.rpinCs, rpinCs)]
  writes := [(rpinMiso, rvalMiso), (rpinMosi, rvalMosi), (rpinCs, rvalCs)]
  covers := by
    intro g r h
    simp only [List.mem_cons, Prod.mk.injEq, List.not_mem_nil, or_false] at h
    rcases h with ⟨-, rfl⟩ | ⟨-, rfl⟩
    · exact ⟨rvalMosi, by simp⟩
    · exact ⟨rvalCs, by simp⟩

/-- The request of `Uart::setRPins`, of which the table entry plays the same part. -/
def UartContext.remap (u : UartContext) (rpinTx : Option ℕ) (rvalTx : Word) (rpinRx : Option ℕ)
    (rvalRx : Word) : Remap where
  resets := [(u.rpinTx, rpinTx)]
  writes := [(rpinTx, rvalTx), (rpinRx, rvalRx)]
  covers := by
    intro g r h
    simp only [List.mem_cons, Prod.mk.injEq, List.not_mem_nil, or_false] at h
    obtain ⟨-, rfl⟩ := h
    simp

/-- The calls of `SPIClass` on its pins, less the clock pin, which they ignore. -/
inductive SpiPinCall
  | begin (miso mosi cs : ℤ)
  | setPins (miso mosi cs : ℤ)
  | setRPins (rpinMiso : Option ℕ) (rvalMiso : Word) (rpinMosi : Option ℕ) (rvalMosi : Word)
      (rpinCs : Option ℕ) (rvalCs : Word)
deriving DecidableEq, Repr

namespace SpiPinCall

variable (fcpu : Word) (u : SpiContext)

def exec (s : Spi) : SpiPinCall → Option Spi
  | begin miso mosi cs => s.begin fcpu u miso mosi cs
  | setPins miso mosi cs => s.setPins u miso mosi cs
  | setRPins rmiso vmiso rmosi vmosi rcs vcs =>
    (Spi.setRPins u rmiso vmiso rmosi vmosi rcs vcs s.cpu).map fun cpu => { s with cpu := cpu }

/-- A pin that is PIN_HARD selects the register of the table. -/
def selected (pin : ℤ) (rpin : Option ℕ) : Option ℕ := if pin = pinHard then rpin else none

def selectedValue (pin : ℤ) (rval : Word) : Word := if pin = pinHard then rval else 0

def pinsRemap (miso mosi cs : ℤ) : Remap :=
  u.remap (selected miso u.rpinMiso) (selectedValue miso u.rvalMiso) (selected mosi u.rpinMosi)
    (selectedValue mosi u.rvalMosi) (selected cs u.rpinCs) (selectedValue cs u.rvalCs)

def remap : SpiPinCall → Remap
  | begin miso mosi cs => pinsRemap u miso mosi cs
  | setPins miso mosi cs => pinsRemap u miso mosi cs
  | setRPins rmiso vmiso rmosi vmosi rcs vcs => u.remap rmiso vmiso rmosi vmosi rcs vcs

end SpiPinCall

/-- A call of `Uart::setRPins`. -/
structure UartPinCall where
  rpinTx : Option ℕ
  rvalTx : Word
  rpinRx : Option ℕ
  rvalRx : Word
deriving DecidableEq, Repr

namespace UartPinCall

variable (u : UartContext)

def exec (c : Cpu) (a : UartPinCall) : Option Cpu :=
  u.setRPins a.rpinTx a.rvalTx a.rpinRx a.rvalRx c

def remap (a : UartPinCall) : Remap := u.remap a.rpinTx a.rvalTx a.rpinRx a.rvalRx

lemma exec_eq (c : Cpu) (a : UartPinCall) :
    (exec u c a).map id = (remap u a).exec c := by
  rw [Option.map_id]
  unfold exec UartContext.setRPins remap UartContext.remap Remap.exec
  simp only [Runs.run, Remap.reset, Remap.select, Option.bind_eq_bind, Option.bind_assoc,
    Option.bind_some, id_eq]

end UartPinCall

namespace Spi

variable (fcpu : Word) (u : SpiContext)

lemma setRPins_eq (rmiso : Option ℕ) (vmiso : Word) (rmosi : Option ℕ) (vmosi : Word)
    (rcs : Option ℕ) (vcs : Word) (c : Cpu) :
    setRPins u rmiso vmiso rmosi vmosi rcs vcs c =
      (u.remap rmiso vmiso rmosi vmosi rcs vcs).exec c := by
  unfold setRPins SpiContext.remap Remap.exec
  simp only [Runs.run, Remap.reset, Remap.select, Option.bind_eq_bind, Option.bind_assoc,
    Option.bind_some]

lemma cpu_setPins (miso mosi cs : ℤ) (s : Spi) :
    (s.setPins u miso mosi cs).map Spi.cpu = (SpiPinCall.pinsRemap u miso mosi cs).exec s.cpu := by
  have hcpu : (if cs = pinHard ∧ u.rpinCs.isSome then
      (s.writeCon false spiMssen).writeCon true spiMssen
      else s.writeCon false spiMssen).cpu = s.cpu := by
    split <;> rfl
  unfold setPins SpiPinCall.pinsRemap
  simp only [Option.bind_eq_bind, hcpu, setRPins_eq]
  unfold SpiPinCall.selected SpiPinCall.selectedValue
  cases (u.remap _ _ _ _ _ _).exec s.cpu <;> rfl

lemma cpu_setDataMode (mode : Byte) (s : Spi) : (s.setDataMode mode).cpu = s.cpu := by
  unfold setDataMode
  split <;> rfl

lemma cpu_setBitOrder (order : Byte) (s : Spi) : (s.setBitOrder order).cpu = s.cpu := by
  unfold setBitOrder
  split <;> rfl

lemma exists_setFrequency (hz : Word) (hhz : hz ≠ 0) (s : Spi) :
    ∃ t, s.setFrequency fcpu hz = some t ∧ t.cpu = s.cpu := by
  unfold setFrequency
  rw [if_neg hhz]
  split
  · exact ⟨_, rfl, rfl⟩
  · exact ⟨s, rfl, rfl⟩

/-- The clock that `begin` asks for is not zero, so it fails nowhere but in `setPins`. -/
lemma cpu_begin (miso mosi cs : ℤ) (s : Spi) :
    (s.begin fcpu u miso mosi cs).map Spi.cpu =
      (SpiPinCall.pinsRemap u miso mosi cs).exec s.cpu := by
  have hpins := cpu_setPins u miso mosi cs s.«end»
  rw [show s.«end».cpu = s.cpu from rfl] at hpins
  unfold begin beginTransaction
  rw [← hpins]
  cases s.«end».setPins u miso mosi cs with
  | none => rfl
  | some t =>
    obtain ⟨v, hv, hcpu⟩ := exists_setFrequency fcpu defaultSettings.clock (by decide) t
    simp only [Option.bind_eq_bind, Option.bind_some, hv, Option.map_some]
    rw [← hcpu, ← cpu_setDataMode defaultSettings.mode v]
    exact congrArg some (cpu_setBitOrder defaultSettings.order _)

end Spi

lemma SpiPinCall.exec_eq (fcpu : Word) (u : SpiContext) (s : Spi) (a : SpiPinCall) :
    (exec fcpu u s a).map Spi.cpu = (remap u a).exec s.cpu := by
  cases a with
  | begin miso mosi cs => exact Spi.cpu_begin fcpu u miso mosi cs s
  | setPins miso mosi cs => exact Spi.cpu_setPins u miso mosi cs s
  | setRPins rmiso vmiso rmosi vmosi rcs vcs =>
    rw [exec, Option.map_map, Spi.setRPins_eq]
    exact Option.map_id'

/-- In any history of calls of either class, from any state and with any entry of the tables, no
call writes through a null pointer and each hands the registers over, exactly when each is clean. -/
theorem remapped_pins_handed_over_iff (fcpu : Word) (u : SpiContext) (s : Spi)
    (calls : List SpiPinCall) (uart : UartContext) (c : Cpu) (uartCalls : List UartPinCall) :
    ((∀ done a, done ++ [a] <+: calls →
        ∃ t, Runs.run (SpiPinCall.exec fcpu u) s (done ++ [a]) = some t ∧
          HandedOver (done.map (SpiPinCall.remap u)) (a.remap u) t.cpu) ↔
      ∀ done a, done ++ [a] <+: calls →
        CleanCall (done.map (SpiPinCall.remap u)) (a.remap u)) ∧
    ((∀ done a, done ++ [a] <+: uartCalls →
        ∃ t, Runs.run (UartPinCall.exec uart) c (done ++ [a]) = some t ∧
          HandedOver (done.map (UartPinCall.remap uart)) (a.remap uart) t) ↔
      ∀ done a, done ++ [a] <+: uartCalls →
        CleanCall (done.map (UartPinCall.remap uart)) (a.remap uart)) :=
  ⟨handedOver_iff (SpiPinCall.exec_eq fcpu u) s calls,
    handedOver_iff (UartPinCall.exec_eq uart) c uartCalls⟩

namespace EFM100

/-- Line 0 of `spi_context`: SDI1R, RPD3R and RPD4R, numbered in this order. -/
def spiContext : SpiContext := ⟨some 0, 11, some 1, 5, some 2, 9⟩

def spi : Spi where
  mode := -1
  brgHz := -1
  bitOrder := -1
  bitSize := 8
  con := 0
  sta := 0
  brg := 0
  buf := []
  cpu := ⟨1, fun _ => 0, coreTimerAtBoot 200000000, ⟨fun _ => none, none⟩⟩

end EFM100

/-- `begin` with its defaults resets CS through a null pointer. With all pins selected nothing
fails, but moving MOSI leaves the register that it had with its value. -/
theorem remapped_pins_not_handed_over :
    (SpiPinCall.exec 200000000 EFM100.spiContext EFM100.spi (.begin pinHard pinHard (-1))).isNone ∧
      ∃ t, Runs.run (SpiPinCall.exec 200000000 EFM100.spiContext) EFM100.spi
          [.setPins pinHard pinHard pinHard, .setRPins (some 0) 11 (some 3) 5 (some 2) 9] = some t ∧
        ¬HandedOver [SpiPinCall.remap EFM100.spiContext (.setPins pinHard pinHard pinHard)]
          (SpiPinCall.remap EFM100.spiContext (.setRPins (some 0) 11 (some 3) 5 (some 2) 9))
          t.cpu := by
  refine ⟨rfl, _, rfl, fun h => ?_⟩
  have hzero := h.released 1 (by decide) (by decide)
  revert hzero
  decide

end FrameworkXC32
