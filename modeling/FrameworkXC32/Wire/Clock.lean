import FrameworkXC32.Lib.CachedRegister
import FrameworkXC32.Lib.Runs
import FrameworkXC32.Wire.History

/-!
# The clock of the bus

`begin`, `end` and `setClock` in any order. `_speed` is a cache of `I2CxBRG`, which `begin` loads
with a constant of its own.
-/

namespace FrameworkXC32
open Machine CachedRegister

/-- Reads and writes of the hardware change `I2CxBRG` only by a write to it. -/
structure BrgLaws {β : Type} (P : I2cPort β) (brg : β → Word) : Prop where
  read : ∀ r b, brg (P.read r b).2 = brg b
  write_brg : ∀ v b, brg (P.write .brg .reg v b) = v
  write_other : ∀ r a v b, r ≠ .brg → brg (P.write r a v b) = brg b

/-- The calls that concern the clock. -/
inductive ClockCall
  | begin
  | beginAt (address : Byte)
  | endWire
  | setClock (speedHz : Word)
deriving DecidableEq, Repr

/-- What `setClock` computes. -/
def clockValue (fcpu speedHz : Word) : Word :=
  sysClkBusPeripheral1 fcpu / speedHz - sysClkBusPeripheral1 fcpu / 10000000 - 1

/-- What `begin` writes, for 100 kHz. -/
def beginBrg : Word := 157

section Step

variable {β : Type} (P : I2cPort β) (fcpu : Word) (fuel : ℕ)

def clockStep (w : Wire β) : ClockCall → Option (Wire β)
  | .begin => TwoWire.begin P fuel w.dev.slaveAddress w
  | .beginAt address => TwoWire.begin P fuel address w
  | .endWire => some (TwoWire.endWire P w)
  | .setClock speedHz => some (TwoWire.setClock P fcpu speedHz w)

end Step

/-- A call, as it concerns the cache and the register. -/
def ClockCall.op : ClockCall → Op Word
  | .begin => .preset
  | .beginAt _ => .preset
  | .endWire => .other
  | .setClock speedHz => .put speedHz

/-- The clock that was set last. -/
def lastClock (calls : List ClockCall) : Option Word := lastPut (calls.map ClockCall.op)

section Laws

variable {β : Type} {P : I2cPort β} {brg : β → Word} (hP : BrgLaws P brg) {fcpu : Word} {fuel : ℕ}

/-- The cache and the register. -/
def clockState (brg : β → Word) (w : Wire β) : State Word Word := ⟨w.dev.speed, brg w.bus⟩

include hP

lemma BrgLaws.flush (w : Wire β) : brg (TwoWire.flush P w).bus = brg w.bus := by
  change brg (P.write .sta .reg 0 (P.read .rcv w.bus).2) = brg w.bus
  rw [hP.write_other _ _ _ _ (by decide), hP.read]

lemma BrgLaws.begin {address : Byte} {w w' : Wire β}
    (h : TwoWire.begin P fuel address w = some w') :
    clockState brg w' = ⟨w.dev.speed, beginBrg⟩ := by
  obtain ⟨bus, hstop, hw'⟩ := Option.bind_eq_some_iff.mp h
  have hbrg : brg bus = beginBrg := by
    rw [TwoWire.waitCon_keeps (hP.read .con) hstop, hP.write_other _ _ _ _ (by decide), hP.flush]
    dsimp only
    rw [hP.write_other _ _ _ _ (by decide), hP.write_brg]
    rfl
  rw [← Option.some.inj hw']
  unfold clockState
  rw [hbrg]
  rfl

lemma BrgLaws.step {call : ClockCall} {w w' : Wire β}
    (h : clockStep P fcpu fuel w call = some w') :
    clockState brg w' = next (clockValue fcpu) beginBrg (clockState brg w) call.op := by
  cases call with
  | begin => exact hP.begin h
  | beginAt address => exact hP.begin h
  | endWire =>
    rw [← Option.some.inj h]
    unfold clockState TwoWire.endWire
    dsimp only
    rw [hP.write_other _ _ _ _ (by decide), hP.write_other _ _ _ _ (by decide)]
    rfl
  | setClock speedHz =>
    rw [← Option.some.inj h]
    by_cases hnew : w.dev.speed ≠ speedHz
    · have hnext : next (clockValue fcpu) beginBrg (clockState brg w) (.put speedHz) =
          ⟨speedHz, clockValue fcpu speedHz⟩ := if_pos hnew
      unfold TwoWire.setClock
      rw [if_pos hnew, ClockCall.op, hnext]
      unfold clockState
      dsimp only
      rw [hP.write_brg]
      rfl
    · have hnext : next (clockValue fcpu) beginBrg (clockState brg w) (.put speedHz) =
          clockState brg w := if_neg hnew
      unfold TwoWire.setClock
      rw [if_neg hnew, ClockCall.op, hnext]

lemma BrgLaws.run {calls : List ClockCall} {w w' : Wire β}
    (h : Runs.run (clockStep P fcpu fuel) w calls = some w') :
    clockState brg w' =
      (calls.map ClockCall.op).foldl (next (clockValue fcpu) beginBrg) (clockState brg w) := by
  induction calls generalizing w with
  | nil =>
    cases h
    rfl
  | cons call calls ih =>
    obtain ⟨w₁, hstep, hrun⟩ := (Runs.run_cons_some _).mp h
    rw [ih hrun, hP.step hstep, List.map_cons, List.foldl_cons]

/-- The constructor takes the register for the one of 100 kHz. -/
lemma BrgLaws.run_new {calls : List ClockCall} {b : β} {w : Wire β}
    (h : Runs.run (clockStep P fcpu fuel) ⟨.new, b⟩ calls = some w) :
    clockState brg w = (calls.map ClockCall.op).foldl (next (clockValue fcpu) beginBrg)
      (⟨100000, brg b⟩ : State Word Word) :=
  hP.run h

end Laws

section Clock

variable {β : Type} (P : I2cPort β) (brg : β → Word) (fcpu : Word) (fuel : ℕ)

/-- In every state of a run from the constructor the cache and the register are as the last
`setClock` asked for, and no `setClock` skips a write that is needed. -/
structure ClockSurvives (b : β) (calls : List ClockCall) : Prop where
  shown : ∀ done w speedHz, done <+: calls →
    Runs.run (clockStep P fcpu fuel) ⟨.new, b⟩ done = some w → lastClock done = some speedHz →
    w.dev.speed = speedHz ∧ brg w.bus = clockValue fcpu speedHz
  skips : ∀ done w speedHz, done ++ [.setClock speedHz] <+: calls →
    Runs.run (clockStep P fcpu fuel) ⟨.new, b⟩ done = some w → w.dev.speed = speedHz →
    brg w.bus = clockValue fcpu speedHz

/-- `begin` has been called. -/
def begun (done : List ClockCall) : Bool :=
  done.any fun call => match call with
    | .begin => true
    | .beginAt _ => true
    | .endWire => false
    | .setClock _ => false

/-- The register, with the content `content` at the start, is as it should be after the call: a
`begin` finds no clock set that needs another value than its own, and the first `setClock` does not
ask for the 100 kHz of the constructor, unless their value is in the register. -/
def SafeCall (content : Word) (done : List ClockCall) : ClockCall → Prop
  | .begin => ∀ speedHz, lastClock done = some speedHz → clockValue fcpu speedHz = beginBrg
  | .beginAt _ => ∀ speedHz, lastClock done = some speedHz → clockValue fcpu speedHz = beginBrg
  | .endWire => True
  | .setClock speedHz => lastClock done = none → speedHz = 100000 →
    (if begun done then beginBrg else content) = clockValue fcpu speedHz

end Clock

section Survival

variable {β : Type} {P : I2cPort β} {brg : β → Word} {fcpu : Word} {fuel : ℕ} {b : β}
  {calls : List ClockCall}

lemma begun_iff (done : List ClockCall) : begun done = true ↔ .preset ∈ done.map ClockCall.op := by
  induction done with
  | nil => simp [begun]
  | cons call done ih =>
    rw [List.map_cons, List.mem_cons, ← ih]
    cases call <;> simp [begun, ClockCall.op]

lemma harmless_iff (content : Word) (done : List ClockCall) (call : ClockCall) :
    Harmless (clockValue fcpu) beginBrg ⟨100000, content⟩ (done.map ClockCall.op) call.op ↔
      SafeCall fcpu content done call := by
  cases call with
  | begin => rfl
  | beginAt address => rfl
  | endWire => rfl
  | setClock speedHz =>
    unfold SafeCall
    simp only [begun_iff]
    rfl

lemma concat_prefix_map {done : List (Op Word)} {op : Op Word}
    (h : done ++ [op] <+: calls.map ClockCall.op) :
    ∃ done' call, done' ++ [call] <+: calls ∧ done'.map ClockCall.op = done ∧ call.op = op := by
  obtain ⟨l, hl, heq⟩ := List.prefix_map_iff.mp h
  obtain ⟨done', last, rfl, hdone, hlast⟩ := List.map_eq_append_iff.mp heq.symm
  obtain ⟨call, rfl, hop⟩ := List.map_eq_singleton_iff.mp hlast
  exact ⟨done', call, hl, hdone, hop⟩

lemma survives_of_clock (hP : BrgLaws P brg)
    (hreturns : ∀ done, done <+: calls →
      ∃ w, Runs.run (clockStep P fcpu fuel) ⟨.new, b⟩ done = some w)
    (h : ClockSurvives P brg fcpu fuel b calls) :
    Survives (clockValue fcpu) beginBrg ⟨100000, brg b⟩ (calls.map ClockCall.op) := by
  constructor
  · intro ops hops k hk
    obtain ⟨done, hdone, rfl⟩ := List.prefix_map_iff.mp hops
    obtain ⟨w, hw⟩ := hreturns done hdone
    rw [← hP.run_new hw]
    exact h.shown done w k hdone hw hk
  · intro ops k hops hskip
    obtain ⟨done, call, hdone, rfl, hcall⟩ := concat_prefix_map hops
    obtain ⟨w, hw⟩ := hreturns done ((List.prefix_append done _).trans hdone)
    have hstate := hP.run_new hw
    rw [← hstate] at hskip ⊢
    cases call with
    | setClock speedHz =>
      obtain rfl : speedHz = k := Op.put.inj hcall
      exact h.skips done w speedHz hdone hw hskip
    | begin => cases hcall
    | beginAt address => cases hcall
    | endWire => cases hcall

lemma clock_of_survives (hP : BrgLaws P brg)
    (h : Survives (clockValue fcpu) beginBrg ⟨100000, brg b⟩ (calls.map ClockCall.op)) :
    ClockSurvives P brg fcpu fuel b calls := by
  constructor
  · intro done w speedHz hdone hw hlast
    have hshown := h.shown _ (hdone.map ClockCall.op) speedHz hlast
    have hstate := hP.run_new hw
    rw [← hstate] at hshown
    exact hshown
  · intro done w speedHz hdone hw hskip
    have hprefix := hdone.map ClockCall.op
    rw [List.map_append] at hprefix
    have hskips := h.skips _ speedHz hprefix
    have hstate := hP.run_new hw
    rw [← hstate] at hskips
    exact hskips hskip

/-- The clock survives exactly the runs of safe calls. -/
theorem clockSurvives_iff (hP : BrgLaws P brg) {w : Wire β}
    (hrun : Runs.run (clockStep P fcpu fuel) ⟨.new, b⟩ calls = some w) :
    ClockSurvives P brg fcpu fuel b calls ↔
      ∀ done call, done ++ [call] <+: calls → SafeCall fcpu (brg b) done call := by
  have hreturns : ∀ done, done <+: calls →
      ∃ w, Runs.run (clockStep P fcpu fuel) ⟨.new, b⟩ done = some w := by
    rintro done ⟨rest, rfl⟩
    obtain ⟨v, hv, -⟩ := (Runs.run_append_some _).mp hrun
    exact ⟨v, hv⟩
  constructor
  · intro h done call hdone
    have hprefix := hdone.map ClockCall.op
    rw [List.map_append] at hprefix
    rw [← harmless_iff]
    exact (survives_iff _ _).mp (survives_of_clock hP hreturns h) _ _ hprefix
  · intro hsafe
    apply clock_of_survives hP
    rw [survives_iff]
    intro ops op hops
    obtain ⟨done, call, hdone, rfl, rfl⟩ := concat_prefix_map hops
    exact (harmless_iff _ _ _).mpr (hsafe done call hdone)

end Survival

lemma brgLaws_i2cBus : BrgLaws i2cBus I2cBus.brg := by
  have hsetCon : ∀ (v : Word) (b : I2cBus), (b.setCon v).brg = b.brg := by
    intro v b
    unfold I2cBus.setCon
    split_ifs
    all_goals rfl
  have htransmit : ∀ (c : Byte) (b : I2cBus), (b.transmit c).brg = b.brg := by
    intro c b
    unfold I2cBus.transmit
    dsimp only
    split_ifs
    all_goals rfl
  constructor
  · intro r b
    cases r <;> rfl
  · intro v b
    rfl
  · intro r a v b hr
    cases r with
    | brg => exact absurd rfl hr
    | con =>
      cases a with
      | set => exact hsetCon v b
      | reg => rfl
      | clr => rfl
      | inv => rfl
    | sta => cases a <;> rfl
    | trn => exact htransmit _ b
    | rcv => rfl

/-- 400 kHz after `begin`, on a processor of 200 MHz. -/
theorem clockSurvives_of_begin_first :
    ClockSurvives i2cBus I2cBus.brg 200000000 1 idleWire.bus
      [.begin, .setClock 400000, .endWire] := by
  have hrun : (Runs.run (clockStep i2cBus 200000000 1) ⟨.new, idleWire.bus⟩
      [.begin, .setClock 400000, .endWire]).isSome := by rfl
  obtain ⟨w, hw⟩ := Option.isSome_iff_exists.mp hrun
  apply (clockSurvives_iff brgLaws_i2cBus hw).mpr
  intro done call hdone
  rcases done with _ | ⟨first, _ | ⟨second, _ | ⟨third, rest⟩⟩⟩
  · obtain ⟨rfl, -⟩ := List.cons_prefix_cons.mp hdone
    exact fun _ hlast => nomatch hlast
  · obtain ⟨rfl, hrest⟩ := List.cons_prefix_cons.mp hdone
    obtain ⟨rfl, -⟩ := List.cons_prefix_cons.mp hrest
    intro _ hcached
    exact absurd hcached (by decide)
  · obtain ⟨rfl, hrest⟩ := List.cons_prefix_cons.mp hdone
    obtain ⟨rfl, hlast⟩ := List.cons_prefix_cons.mp hrest
    obtain ⟨rfl, -⟩ := List.cons_prefix_cons.mp hlast
    trivial
  · have hlength := hdone.length_le
    simp only [List.length_append, List.length_cons, List.length_nil] at hlength
    omega

/-- A second `begin` loads its constant, and the `setClock` behind it is skipped. -/
theorem clock_lost_by_begin :
    ¬ClockSurvives i2cBus I2cBus.brg 200000000 1 idleWire.bus
      [.setClock 400000, .begin, .setClock 400000] := by
  intro h
  have hrun : (Runs.run (clockStep i2cBus 200000000 1) ⟨.new, idleWire.bus⟩
      [.setClock 400000, .begin, .setClock 400000]).map (·.bus.brg) = some 157 := by rfl
  obtain ⟨w, hw, hbrg⟩ := Option.map_eq_some_iff.mp hrun
  have hshown := (h.shown _ w 400000 (List.prefix_refl _) hw rfl).2
  rw [hbrg] at hshown
  exact absurd hshown (by decide)

end FrameworkXC32
