import FrameworkXC32.Lib.Runs
import FrameworkXC32.Pins.Board
import FrameworkXC32.Serial.SoftwareSerial

/-!
# Ownership of the receive slots

A slot of `ss_context` should point to the live receiver that has recorded it, and to nothing else.
The constructor records a free slot in `m_rx_id` before it knows whether it will claim it, and the
destructor frees the slot that is recorded there.
-/

namespace FrameworkXC32
open Machine Runs

/-- The calls of a sketch that make, start, stop and destroy instances. -/
inductive SerialOp
  | construct (this : ℕ) (raw : SoftwareSerial) (transmitPin receivePin : Word)
      (inverseLogic : Bool) (buffSize : Word) (malloc : Bool)
  | destroy (this : ℕ)
  | begin (this : ℕ) (speed : Word)
  | endSerial (this : ℕ)

namespace SerialBoard

variable (board : Board) (fcpu : Word)

/-- A constructor runs on memory without an object, the other calls need one. -/
def step (w : SerialBoard) : SerialOp → Option SerialBoard
  | .construct this raw transmitPin receivePin inverseLogic buffSize malloc =>
    if (w.object this).isNone then
      some (construct board this raw transmitPin receivePin inverseLogic buffSize malloc w)
    else none
  | .destroy this => (w.object this).map fun s => destroy board this s w
  | .begin this speed => (w.object this).bind fun s => begin board fcpu speed this s w
  | .endSerial this => (w.object this).map fun s => endSerial board this s w

/-- No instance has been constructed. -/
def boot (pins : Pins ℕ) : SerialBoard := ⟨pins, fun _ => none, fun _ => none⟩

/-- The instance at `this` receives through slot `i`. -/
def Receives (w : SerialBoard) (this : ℕ) (i : Fin softwareSerialMax) : Prop :=
  ∃ s, w.object this = some s ∧ s.rxValid = true ∧ s.rxId.toNat = i

structure SlotsOwned (w : SerialBoard) : Prop where
  /-- A receiver has recorded a slot of the table. -/
  inRange : ∀ this s, w.object this = some s → s.rxValid = true → s.rxId.toNat < softwareSerialMax
  /-- A slot points to the receiver that has recorded it, and is null where there is none. -/
  owner : ∀ i this, w.context i = some this ↔ w.Receives this i
  /-- No two receivers share a slot. -/
  distinct : ∀ i p q, w.Receives p i → w.Receives q i → p = q
  /-- The interrupt handler of a receiver's slot runs on this receiver. -/
  served : ∀ (i : Fin softwareSerialMax) (this : ℕ) (s : SoftwareSerial),
    w.object this = some s → s.rxValid = true → s.rxId.toNat = i →
      w.softwareSerialRx i = some (this, s)

/-- The step takes no slot from an instance that it does not destroy. -/
def KeepsOthers (w : SerialBoard) (op : SerialOp) (w' : SerialBoard) : Prop :=
  ∀ i this, op ≠ .destroy this → w.context i = some this → w'.context i = some this

/-- An instance without a receiver is not destroyed while another one owns the slot that it has
recorded. -/
def SlotFree (w : SerialBoard) : SerialOp → Prop
  | .destroy this => ∀ s, w.object this = some s → s.rxValid = false →
      ∀ i : Fin softwareSerialMax, s.rxId.toNat = i → w.context i = none
  | _ => True

variable {board fcpu}

/-! ### What the calls do to the table and to the objects -/

lemma SlotsOwned.mk' {w : SerialBoard}
    (hrange : ∀ this s, w.object this = some s → s.rxValid = true →
      s.rxId.toNat < softwareSerialMax)
    (howner : ∀ i this, w.context i = some this ↔ w.Receives this i) : w.SlotsOwned := by
  refine ⟨hrange, howner, ?_, ?_⟩
  · intro i p q hp hq
    have hip := (howner i p).mpr hp
    rw [(howner i q).mpr hq] at hip
    exact (Option.some.inj hip).symm
  · intro i this s hs hvalid hid
    have hcontext := (howner i this).mpr ⟨s, hs, hvalid, hid⟩
    simp [softwareSerialRx, hcontext, hs]

variable (board) in
lemma constructTx_eq (transmitPin : Word) (inverseLogic : Bool) (raw : SoftwareSerial)
    (w : SerialBoard) :
    (constructTx board transmitPin inverseLogic raw w).1.rxValid = false ∧
      (constructTx board transmitPin inverseLogic raw w).2.context = w.context ∧
      (constructTx board transmitPin inverseLogic raw w).2.object = w.object := by
  unfold constructTx
  dsimp only
  split <;> exact ⟨rfl, rfl, rfl⟩

lemma ssGetInterface_free {context : Fin softwareSerialMax → Option ℕ}
    (h : (ssGetInterface context).toNat < softwareSerialMax) :
    ∃ i : Fin softwareSerialMax, (ssGetInterface context).toNat = i ∧ context i = none := by
  unfold ssGetInterface at h ⊢
  cases hfind : (List.finRange softwareSerialMax).find? fun i => (context i).isNone with
  | none =>
    rw [hfind] at h
    exact absurd h (by decide)
  | some i =>
    refine ⟨i, ?_, by simpa using List.find?_some hfind⟩
    have hlt : (i : ℕ) < 2 := i.isLt
    rw [BitVec.toNat_ofNat]
    omega

lemma setSerial_context {w : SerialBoard} {id : Word} {i : Fin softwareSerialMax}
    (hid : id.toNat = i) (serial : Option ℕ) :
    (w.setSerial id serial).context = Function.update w.context i serial := by
  funext j
  unfold setSerial
  by_cases hji : j = i
  · subst hji
    simp [hid]
  · have hne : j.val ≠ id.toNat := by
      rw [hid]
      exact fun h => hji (Fin.ext h)
    simp [hne, hji]

variable (board) in
lemma construct_cases (this : ℕ) (raw : SoftwareSerial) (transmitPin receivePin : Word)
    (inverseLogic : Bool) (buffSize : Word) (malloc : Bool) (w : SerialBoard) :
    ∃ s, (construct board this raw transmitPin receivePin inverseLogic buffSize malloc w).object =
        Function.update w.object this (some s) ∧
      (s.rxValid = false ∧
          (construct board this raw transmitPin receivePin inverseLogic buffSize malloc w).context =
            w.context ∨
        ∃ i : Fin softwareSerialMax, s.rxValid = true ∧ s.rxId.toNat = i ∧ w.context i = none ∧
          (construct board this raw transmitPin receivePin inverseLogic buffSize malloc w).context =
            Function.update w.context i (some this)) := by
  obtain ⟨hvalid, hcontext, hobject⟩ := constructTx_eq board transmitPin inverseLogic raw w
  unfold construct
  generalize constructTx board transmitPin inverseLogic raw w = tx at hvalid hcontext hobject ⊢
  obtain ⟨s, u⟩ := tx
  dsimp only at hvalid hcontext hobject ⊢
  rw [← hobject, ← hcontext]
  unfold constructRx
  dsimp only
  split
  · rename_i hclaim
    have hid : (ssGetInterface u.context).toNat < softwareSerialMax := by
      simp only [Bool.and_eq_true, decide_eq_true_eq] at hclaim
      exact hclaim.1.2
    obtain ⟨i, hi, hfree⟩ := ssGetInterface_free hid
    exact ⟨_, rfl, Or.inr ⟨i, rfl, hi, hfree, setSerial_context hi (some this)⟩⟩
  · exact ⟨_, rfl, Or.inl ⟨hvalid, rfl⟩⟩

variable (board) in
lemma enableRx_eq (on : Bool) (s : SoftwareSerial) (w : SerialBoard) :
    (enableRx board on s w).1.rxValid = s.rxValid ∧ (enableRx board on s w).1.rxId = s.rxId ∧
      (enableRx board on s w).2.context = w.context ∧
      (enableRx board on s w).2.object = w.object := by
  unfold enableRx
  split <;> exact ⟨rfl, rfl, rfl, rfl⟩

variable (board) in
lemma restart_cases (on : Bool) (this : ℕ) (s t : SoftwareSerial) (w : SerialBoard)
    (hvalid : t.rxValid = s.rxValid) (hid : t.rxId = s.rxId) :
    ∃ u, ((enableRx board on t w).2.setObject this (some (enableRx board on t w).1)).object =
        Function.update w.object this (some u) ∧ u.rxValid = s.rxValid ∧ u.rxId = s.rxId ∧
      ((enableRx board on t w).2.setObject this (some (enableRx board on t w).1)).context =
        w.context := by
  obtain ⟨hv, hi, hcontext, hobject⟩ := enableRx_eq board on t w
  refine ⟨_, ?_, hv.trans hvalid, hi.trans hid, hcontext⟩
  change Function.update _ _ _ = _
  rw [hobject]

variable (board) in
lemma destroy_object (this : ℕ) (s : SoftwareSerial) (w : SerialBoard) :
    (destroy board this s w).object = Function.update w.object this none := by
  obtain ⟨-, -, -, hobject⟩ := enableRx_eq board false s w
  unfold destroy
  generalize enableRx board false s w = r at hobject ⊢
  obtain ⟨t, u⟩ := r
  dsimp only at hobject ⊢
  rw [← hobject]
  split <;> rfl

/-- The destructor frees the recorded slot, whoever owns it. -/
lemma destroy_context (this : ℕ) (s : SoftwareSerial) (w : SerialBoard)
    (i : Fin softwareSerialMax) :
    (destroy board this s w).context i = if s.rxId.toNat = i then none else w.context i := by
  obtain ⟨-, hid, hcontext, -⟩ := enableRx_eq board false s w
  unfold destroy
  generalize enableRx board false s w = r at hid hcontext ⊢
  obtain ⟨t, u⟩ := r
  dsimp only at hid hcontext ⊢
  rw [hid]
  by_cases hlt : s.rxId.toNat < softwareSerialMax
  · rw [if_pos hlt]
    have hset : (u.setSerial s.rxId none).context =
        Function.update u.context ⟨s.rxId.toNat, hlt⟩ none := setSerial_context rfl none
    change (u.setSerial s.rxId none).context i = _
    rw [hset, ← hcontext]
    by_cases hi : s.rxId.toNat = i
    · have heq : i = ⟨s.rxId.toNat, hlt⟩ := Fin.ext hi.symm
      rw [if_pos hi, heq, Function.update_self]
    · have hne : i ≠ ⟨s.rxId.toNat, hlt⟩ := fun h => hi (by rw [h])
      rw [if_neg hi, Function.update_of_ne hne]
  · have hne : s.rxId.toNat ≠ i := by
      have := i.isLt
      omega
    rw [if_neg hlt, if_neg hne, ← hcontext]
    rfl

/-! ### One step -/

lemma Receives.of_update {w w' : SerialBoard} {this p : ℕ} {o : Option SoftwareSerial}
    (hobject : w'.object = Function.update w.object this o) (hne : p ≠ this)
    (i : Fin softwareSerialMax) : w'.Receives p i ↔ w.Receives p i := by
  unfold Receives
  rw [hobject, Function.update_of_ne hne]

lemma Receives.of_update_self {w w' : SerialBoard} {this : ℕ} {s : SoftwareSerial}
    (hobject : w'.object = Function.update w.object this (some s)) (i : Fin softwareSerialMax) :
    w'.Receives this i ↔ s.rxValid = true ∧ s.rxId.toNat = i := by
  unfold Receives
  rw [hobject, Function.update_self]
  constructor
  · rintro ⟨t, ht, hvalid, hid⟩
    cases ht
    exact ⟨hvalid, hid⟩
  · rintro ⟨hvalid, hid⟩
    exact ⟨s, rfl, hvalid, hid⟩

lemma not_receives_of_none {w : SerialBoard} {this : ℕ} (h : w.object this = none)
    (i : Fin softwareSerialMax) : ¬ w.Receives this i := by
  rintro ⟨s, hs, -⟩
  rw [h] at hs
  cases hs

lemma SlotsOwned.construct {w : SerialBoard} (h : w.SlotsOwned) {this : ℕ}
    (hfresh : w.object this = none) (raw : SoftwareSerial) (transmitPin receivePin : Word)
    (inverseLogic : Bool) (buffSize : Word) (malloc : Bool) {w' : SerialBoard}
    (hw' : construct board this raw transmitPin receivePin inverseLogic buffSize malloc w = w') :
    w'.SlotsOwned ∧ ∀ i p, w.context i = some p → w'.context i = some p := by
  obtain ⟨s, hobject, hcases⟩ := construct_cases board this raw transmitPin receivePin
    inverseLogic buffSize malloc w
  rw [hw'] at hobject hcases
  have hself := Receives.of_update_self hobject
  have hother : ∀ p, p ≠ this → ∀ i, w'.Receives p i ↔ w.Receives p i :=
    fun p hp i => Receives.of_update hobject hp i
  have hold : ∀ i, w.context i ≠ some this :=
    fun i hi => not_receives_of_none hfresh i ((h.owner i this).mp hi)
  have hrange : ∀ p t, w'.object p = some t → t.rxValid = true →
      (s.rxValid = true → s.rxId.toNat < softwareSerialMax) →
      t.rxId.toNat < softwareSerialMax := by
    intro p t ht hvalid hs
    rw [hobject] at ht
    by_cases hp : p = this
    · rw [hp, Function.update_self] at ht
      cases ht
      exact hs hvalid
    · rw [Function.update_of_ne hp] at ht
      exact h.inRange p t ht hvalid
  rcases hcases with ⟨hinvalid, hcontext⟩ | ⟨j, hvalid, hid, hfree, hcontext⟩
  · refine ⟨SlotsOwned.mk' (fun p t ht hv => hrange p t ht hv (by simp [hinvalid])) ?_,
      fun i p hp => by rw [hcontext, hp]⟩
    intro i p
    rw [hcontext]
    by_cases hp : p = this
    · subst hp
      simp [hself, hinvalid, hold]
    · rw [hother p hp, h.owner]
  · have hlt : s.rxId.toNat < softwareSerialMax := by rw [hid]; exact j.isLt
    refine ⟨SlotsOwned.mk' (fun p t ht hv => hrange p t ht hv fun _ => hlt) ?_, ?_⟩
    · intro i p
      rw [hcontext]
      by_cases hi : i = j
      · subst hi
        rw [Function.update_self]
        by_cases hp : p = this
        · subst hp
          simp [hself, hvalid, hid]
        · have hnot : ¬ w.Receives p i := by
            rw [← h.owner, hfree]
            exact Option.some_ne_none p ∘ Eq.symm
          simp [hother p hp, hnot, Ne.symm hp]
      · rw [Function.update_of_ne hi]
        by_cases hp : p = this
        · subst hp
          have hne : s.rxId.toNat ≠ i := by
            rw [hid]
            exact fun hij => hi (Fin.ext hij.symm)
          simp [hself, hold, hne]
        · rw [hother p hp, h.owner]
    · intro i p hp
      have hi : i ≠ j := by
        intro hij
        rw [hij, hfree] at hp
        cases hp
      rw [hcontext, Function.update_of_ne hi, hp]

lemma SlotsOwned.restart {w w' : SerialBoard} (h : w.SlotsOwned) {this : ℕ} {s u : SoftwareSerial}
    (hs : w.object this = some s) (hobject : w'.object = Function.update w.object this (some u))
    (hvalid : u.rxValid = s.rxValid) (hid : u.rxId = s.rxId) (hcontext : w'.context = w.context) :
    w'.SlotsOwned := by
  have hreceives : ∀ p i, w'.Receives p i ↔ w.Receives p i := by
    intro p i
    by_cases hp : p = this
    · subst hp
      rw [Receives.of_update_self hobject, hvalid, hid]
      simp [Receives, hs]
    · exact Receives.of_update hobject hp i
  refine SlotsOwned.mk' ?_ fun i p => by rw [hcontext, hreceives, h.owner]
  intro p t ht hv
  rw [hobject] at ht
  by_cases hp : p = this
  · rw [hp, Function.update_self] at ht
    cases ht
    rw [hid]
    exact h.inRange this s hs (hvalid ▸ hv)
  · rw [Function.update_of_ne hp] at ht
    exact h.inRange p t ht hv

/-- Where the slot that a destroyed instance has recorded is its own or free, nobody else
receives through it. -/
lemma SlotsOwned.others {w : SerialBoard} (h : w.SlotsOwned) {this : ℕ} {s : SoftwareSerial}
    (hs : w.object this = some s) (hfree : w.SlotFree (.destroy this)) {p : ℕ} (hp : p ≠ this)
    {i : Fin softwareSerialMax} (hid : s.rxId.toNat = i) : w.context i ≠ some p := by
  intro hcontext
  cases hvalid : s.rxValid with
  | true =>
    have hthis : w.Receives this i := ⟨s, hs, hvalid, hid⟩
    exact hp (h.distinct i p this ((h.owner i p).mp hcontext) hthis)
  | false =>
    rw [hfree s hs hvalid i hid] at hcontext
    cases hcontext

lemma SlotsOwned.destroy {w : SerialBoard} (h : w.SlotsOwned) {this : ℕ} {s : SoftwareSerial}
    (hs : w.object this = some s) (hfree : w.SlotFree (.destroy this)) :
    (destroy board this s w).SlotsOwned := by
  have hobject := destroy_object board this s w
  refine SlotsOwned.mk' ?_ ?_
  · intro p t ht hv
    rw [hobject] at ht
    by_cases hp : p = this
    · rw [hp, Function.update_self] at ht
      cases ht
    · rw [Function.update_of_ne hp] at ht
      exact h.inRange p t ht hv
  · intro i p
    rw [destroy_context]
    by_cases hp : p = this
    · subst hp
      have hgone : ¬ (SerialBoard.destroy board p s w).Receives p i :=
        not_receives_of_none (by rw [hobject, Function.update_self]) i
      refine iff_of_false ?_ hgone
      split
      · simp
      · rename_i hne
        rw [h.owner]
        rintro ⟨t, ht, -, hid⟩
        rw [hs] at ht
        cases ht
        exact hne hid
    · rw [Receives.of_update hobject hp, ← h.owner]
      split
      · rename_i hid
        simp [h.others hs hfree hp hid]
      · rfl

lemma SlotsOwned.step_iff {w w' : SerialBoard} {op : SerialOp} (h : w.SlotsOwned)
    (hstep : step board fcpu w op = some w') :
    w'.SlotsOwned ∧ w.KeepsOthers op w' ↔ w.SlotFree op := by
  cases op with
  | construct this raw transmitPin receivePin inverseLogic buffSize malloc =>
    unfold step at hstep
    simp only [Option.ite_none_right_eq_some, Option.some.injEq, Option.isNone_iff_eq_none] at hstep
    obtain ⟨howned, hkeeps⟩ := h.construct hstep.1 raw transmitPin receivePin inverseLogic buffSize
      malloc hstep.2
    exact iff_of_true ⟨howned, fun i p _ => hkeeps i p⟩ trivial
  | begin this speed =>
    obtain ⟨s, hs, hbegin⟩ := Option.bind_eq_some_iff.mp hstep
    unfold begin at hbegin
    simp only [Option.ite_none_left_eq_some, Option.some.injEq] at hbegin
    obtain ⟨u, hobject, hvalid, hid, hcontext⟩ := restart_cases board true this s
      { s with bitTime := sysClkBusPeripheral1 fcpu / speed } w rfl rfl
    rw [← hbegin.2]
    exact iff_of_true ⟨h.restart hs hobject hvalid hid hcontext,
      fun i p _ hp => (congrFun hcontext i).trans hp⟩ trivial
  | endSerial this =>
    obtain ⟨s, hs, rfl⟩ := Option.map_eq_some_iff.mp hstep
    obtain ⟨u, hobject, hvalid, hid, hcontext⟩ :=
      restart_cases board false this s s w rfl rfl
    exact iff_of_true ⟨h.restart hs hobject hvalid hid hcontext,
      fun i p _ hp => (congrFun hcontext i).trans hp⟩ trivial
  | destroy this =>
    obtain ⟨s, hs, rfl⟩ := Option.map_eq_some_iff.mp hstep
    constructor
    · rintro ⟨-, hkeeps⟩ t ht hinvalid i hid
      rw [hs] at ht
      cases ht
      by_contra hsome
      obtain ⟨p, hp⟩ := Option.ne_none_iff_exists'.mp hsome
      have hne : p ≠ this := by
        rintro rfl
        obtain ⟨t, ht, hvalid, -⟩ := (h.owner i p).mp hp
        rw [hs] at ht
        cases ht
        rw [hinvalid] at hvalid
        cases hvalid
      have hlost := hkeeps i p (by simp [hne.symm]) hp
      rw [destroy_context, if_pos hid] at hlost
      cases hlost
    · intro hfree
      refine ⟨h.destroy hs hfree, fun i p hop hp => ?_⟩
      have hne : p ≠ this := fun hpt => hop (by rw [hpt])
      have hid : s.rxId.toNat ≠ i := fun hid => h.others hs hfree hne hid hp
      rw [destroy_context, if_neg hid, hp]

lemma slotsOwned_boot (pins : Pins ℕ) : (boot pins).SlotsOwned := by
  refine SlotsOwned.mk' ?_ ?_
  · intro this s hs
    cases hs
  · intro i this
    refine iff_of_false (by simp [boot]) (not_receives_of_none rfl i)

/-! ### Whole runs -/

/-- In a run from the start every slot belongs to the receiver that has recorded it and no step
takes one from another instance, exactly when every destruction of an instance without a receiver
finds the slot that it has recorded free. -/
theorem slots_owned_iff (pins : Pins ℕ) (ops : List SerialOp) :
    (∀ done w, done <+: ops → run (step board fcpu) (boot pins) done = some w → w.SlotsOwned) ∧
        (∀ done op w w', done ++ [op] <+: ops → run (step board fcpu) (boot pins) done = some w →
          step board fcpu w op = some w' → w.KeepsOthers op w') ↔
      Guarded (step board fcpu) SlotFree (boot pins) ops := by
  refine holds_along_run_iff (fun w op w' h hstep => h.step_iff hstep) ?_ (slotsOwned_boot pins) ops
  intro w op hnone
  cases op with
  | destroy this =>
    intro s hs
    simp [step, hs] at hnone
  | _ => trivial

/-- A transmitter, a receiver on slot 0, and the end of the transmitter, which has recorded slot 0
too. -/
def orphaning (raw : SoftwareSerial) : List SerialOp :=
  [.construct 1 raw 0 (-1) false 64 true, .construct 2 raw 1 2 false 64 true, .destroy 1]

/-- The destructor of a transmitter detaches a receiver. -/
theorem slot_lost : ¬ ∀ (board : Board) (fcpu : Word) (pins : Pins ℕ) (ops : List SerialOp)
    (w : SerialBoard), run (step board fcpu) (boot pins) ops = some w → w.SlotsOwned := by
  intro h
  let raw : SoftwareSerial := ⟨0, 0, 0, false, false, false, false, false, false, 0, 0, 0, 0, false,
    fun _ => 0, 0⟩
  have htaken : (run (step EFM100.board 200000000) (boot EFM100.idle)
      (orphaning raw)).isSome = true := by rfl
  obtain ⟨w, hw⟩ := Option.isSome_iff_exists.mp htaken
  have howned := h EFM100.board 200000000 EFM100.idle (orphaning raw) w hw
  have hrun : (run (step EFM100.board 200000000) (boot EFM100.idle) (orphaning raw)).map
      (fun w => (w.context 0, (w.object 2).map fun s => (s.rxValid, s.rxId.toNat))) =
        some (none, some (true, 0)) := by rfl
  rw [hw] at hrun
  simp only [Option.map_some, Option.some.injEq, Prod.mk.injEq] at hrun
  obtain ⟨hcontext, hobject⟩ := hrun
  obtain ⟨s, hs, hfields⟩ := Option.map_eq_some_iff.mp hobject
  simp only [Prod.mk.injEq] at hfields
  have hreceives : w.Receives 2 0 := ⟨s, hs, hfields⟩
  rw [← howned.owner, hcontext] at hreceives
  cases hreceives

end SerialBoard

end FrameworkXC32
