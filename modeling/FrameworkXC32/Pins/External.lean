import FrameworkXC32.Lib.Runs
import FrameworkXC32.Pins.Board
import FrameworkXC32.Pins.Calls

/-!
# Edges of the external interrupts

Runs of calls and of level changes, each served by `i_handler` before the next one. The polarity
bit of INTx is 1 for rising edges; `attachInterrupt` can only set it, and `i_handler` inverts it
behind every edge of a pin in the mode CHANGE.
-/

namespace FrameworkXC32
open Machine

variable {κ : Type}

/-- The edges that a mode with exactly one of RISING, FALLING and CHANGE asks for. -/
inductive EdgeKind
  | rising | falling | change
deriving DecidableEq, Repr

def edgeKind (mode : Word) : Option EdgeKind :=
  match Mode.has mode Mode.rising, Mode.has mode Mode.falling, Mode.has mode Mode.change with
  | true, false, false => some .rising
  | false, true, false => some .falling
  | false, false, true => some .change
  | _, _, _ => none

/-- The callback is to run on an edge to `level`. -/
def EdgeKind.wants : EdgeKind → Bool → Bool
  | .rising, level => level
  | .falling, level => !level
  | .change, _ => true

/-- The polarity bit that the kind needs while the line is at `level`. -/
def EdgeKind.polarity : EdgeKind → Bool → Bool
  | .rising, _ => true
  | .falling, _ => false
  | .change, level => !level

/-- The pins with the level of each line, and with the callback and the mode of each pin that is
attached with EXTERNAL. -/
structure PinRun (κ : Type) where
  pins : Pins κ
  level : ℕ → Bool
  request : ℕ → Option (κ × Word)

inductive PinOp (κ : Type)
  | call (c : PinCall κ)
  | edge (pin : ℕ)
deriving DecidableEq, Repr

namespace Board

/-- The external interrupt of a pin, by its index. -/
def eintOf (board : Board) (pin : ℕ) : Option ℕ := (board.pins[pin]?).bind fun p => p.eint

end Board

namespace PinRun

variable (board : Board)

/-- What a call requests of its pin. -/
def requested : PinCall κ → Option (κ × Word)
  | .attach pin func mode =>
    if (board.eintOf pin).isSome ∧ Mode.has mode Mode.external = true then
      func.map fun func => (func, mode)
    else none
  | .detach _ => none

def call (c : PinCall κ) (r : PinRun κ) : PinRun κ where
  pins := c.exec board r.pins
  level := r.level
  request := if c.Effective board then Function.update r.request c.pin (requested board c)
    else r.request

/-- The hardware raises the interrupt on the edge that the polarity bit selects. -/
def raised (e : Eint) (level : Bool) (s : Pins κ) : Pins κ :=
  if s.intcon.getLsbD e.id = level then s.withIrq (Irq.raise e.irq) else s

/-- A level change of a line, with the callbacks that it runs. -/
def edge (pin : ℕ) (r : PinRun κ) : List κ × PinRun κ :=
  let level := !r.level pin
  let levels := Function.update r.level pin level
  match board.eintOf pin with
  | none => ([], ⟨r.pins, levels, r.request⟩)
  | some e =>
    let eint := board.eint e
    let s := raised eint level r.pins
    if s.irq.isEnabled eint.irq && s.irq.get eint.irq then
      let (funcs, s) := s.iHandler board eint.irq
      (funcs, ⟨s, levels, r.request⟩)
    else ([], ⟨s, levels, r.request⟩)

def step (r : PinRun κ) : PinOp κ → PinRun κ
  | .call c => r.call board c
  | .edge pin => (r.edge board pin).2

/-- The polarity bit of an external interrupt. -/
def polarity (e : ℕ) (r : PinRun κ) : Bool := r.pins.intcon.getLsbD (board.eint e).id

/-- A level change of the pin would now run its callback once if its mode asks for that edge, and
nothing else. -/
def EdgeServed (pin : ℕ) (r : PinRun κ) : Prop :=
  ∀ func mode kind, r.request pin = some (func, mode) → edgeKind mode = some kind →
    (r.edge board pin).1 = if kind.wants (!r.level pin) then [func] else []

/-- An `attachInterrupt` with EXTERNAL finds the polarity bit as its mode needs it. RISING sets it
itself. -/
def AttachSound (r : PinRun κ) : PinOp κ → Prop
  | .call (.attach pin (some _) mode) => ∀ e kind, board.eintOf pin = some e →
      Mode.has mode Mode.external = true → edgeKind mode = some kind → kind ≠ .rising →
      r.polarity board e = kind.polarity (r.level pin)
  | _ => True

end PinRun

lemma Board.eint_inj {board : Board} {i j e e' : ℕ} (hi : board.eintOf i = some e)
    (hj : board.eintOf j = some e') (h : (board.eint e).irq = (board.eint e').irq) : i = j := by
  unfold eintOf at hi hj
  obtain ⟨p, hp, hpe⟩ := Option.bind_eq_some_iff.mp hi
  obtain ⟨q, hq, hqe⟩ := Option.bind_eq_some_iff.mp hj
  obtain ⟨hilt, rfl⟩ := List.getElem?_eq_some_iff.mp hp
  obtain ⟨hjlt, rfl⟩ := List.getElem?_eq_some_iff.mp hq
  have hpairs := List.pairwise_iff_getElem.mp (List.pairwise_filterMap.mp board.distinct)
  by_contra hne
  rcases Nat.lt_or_gt_of_ne hne with hlt | hlt
  · exact hpairs i j hilt hjlt hlt _ (by simp [hpe]) _ (by simp [hqe]) h
  · exact hpairs j i hjlt hilt hlt _ (by simp [hqe]) _ (by simp [hpe]) h.symm

lemma Board.lt_of_eintOf {board : Board} {pin e : ℕ} (h : board.eintOf pin = some e) :
    pin < board.pins.length := by
  obtain ⟨p, hp, _⟩ := Option.bind_eq_some_iff.mp h
  exact (List.getElem?_eq_some_iff.mp hp).1

lemma Eint.id_inj {e e' : Eint} (h : e.id = e'.id) : e.irq = e'.irq := by
  rw [e.irq_eq, e'.irq_eq, h]

namespace Pins

variable {board : Board}

lemma candidate_eq_some {irq i e : ℕ} {func : κ} {s : Pins κ} :
    s.candidate board irq i = some (func, e) ↔
      s.callback i = some func ∧ board.eintOf i = some e ∧ (board.eint e).irq = irq := by
  unfold candidate Board.eintOf
  simp only [Option.bind_eq_bind, Option.bind_eq_some_iff, Option.ite_none_right_eq_some,
    Option.some.injEq, Prod.mk.injEq]
  constructor
  · rintro ⟨f, hf, p, hp, e', he', hirq, rfl, rfl⟩
    exact ⟨hf, ⟨p, hp, he'⟩, hirq⟩
  · rintro ⟨hf, ⟨p, hp, he'⟩, hirq⟩
    exact ⟨func, hf, p, hp, e, he', hirq, rfl, rfl⟩

lemma findExternal_eq {pin e : ℕ} {func : κ} {s : Pins κ} (hfunc : s.callback pin = some func)
    (he : board.eintOf pin = some e) :
    s.findExternal board (board.eint e).irq = some (func, e) := by
  have hpin : s.candidate board (board.eint e).irq pin = some (func, e) :=
    candidate_eq_some.mpr ⟨hfunc, he, rfl⟩
  unfold findExternal
  cases hfind : (List.range board.pins.length).findSome? (s.candidate board (board.eint e).irq) with
  | none =>
    have hnone := List.findSome?_eq_none_iff.mp hfind pin
      (List.mem_range.mpr (Board.lt_of_eintOf he))
    rw [hpin] at hnone
    cases hnone
  | some found =>
    obtain ⟨i, _, hi⟩ := List.exists_of_findSome?_eq_some hfind
    have hirq := (candidate_eq_some.mp hi).2
    have hsame := Board.eint_inj hirq.1 he hirq.2
    rw [hsame, hpin] at hi
    exact hi.symm

lemma iHandler_frame (board : Board) (irq : ℕ) (s : Pins κ) :
    (s.iHandler board irq).2.callback = s.callback ∧
    (s.iHandler board irq).2.eintMode = s.eintMode ∧
    (s.iHandler board irq).2.irq = s.irq.clear irq := by
  unfold iHandler
  cases s.findExternal board irq with
  | none => exact ⟨rfl, rfl, rfl⟩
  | some found =>
    dsimp only
    split <;> exact ⟨rfl, rfl, rfl⟩

lemma iHandler_intcon_other {irq : ℕ} {e : Eint} (h : e.irq ≠ irq) (s : Pins κ) :
    (s.iHandler board irq).2.intcon.getLsbD e.id = s.intcon.getLsbD e.id := by
  unfold iHandler
  cases hfind : s.findExternal board irq with
  | none => rfl
  | some found =>
    obtain ⟨i, _, hi⟩ := List.exists_of_findSome?_eq_some hfind
    have hirq : (board.eint found.2).irq = irq := (candidate_eq_some.mp hi).2.2
    have hne : e.id ≠ (board.eint found.2).id := by
      intro hid
      apply h
      rw [Eint.id_inj hid, hirq]
    dsimp only
    split
    · change (regInv s.intcon ((1 : Word) <<< (board.eint found.2).id)).getLsbD e.id = _
      rw [getLsbD_regInv, getLsbD_one_shift (Eint.id_lt _)]
      simp [hne]
    · rfl

lemma iHandler_eq {pin e : ℕ} {func : κ} {s : Pins κ} (hfunc : s.callback pin = some func)
    (he : board.eintOf pin = some e) :
    (s.iHandler board (board.eint e).irq).1 = [func] ∧
    (s.iHandler board (board.eint e).irq).2.intcon.getLsbD (board.eint e).id =
      (s.intcon.getLsbD (board.eint e).id ^^ Mode.has (s.eintMode e) Mode.change) := by
  unfold iHandler
  rw [findExternal_eq hfunc he]
  dsimp only
  cases Mode.has (s.eintMode e) Mode.change with
  | true =>
    refine ⟨rfl, ?_⟩
    change (regInv s.intcon ((1 : Word) <<< (board.eint e).id)).getLsbD _ = _
    rw [getLsbD_regInv, getLsbD_one_shift (Eint.id_lt _)]
    simp
  | false => exact ⟨rfl, by simp [withIrq]⟩

end Pins

namespace PinRun

variable {board : Board}

lemma raised_irq (e : Eint) (level : Bool) (s : Pins κ) : (raised e level s).irq =
    if s.intcon.getLsbD e.id = level then s.irq.raise e.irq else s.irq := by
  unfold raised
  split <;> rfl

lemma raised_frame (e : Eint) (level : Bool) (s : Pins κ) :
    (raised e level s).callback = s.callback ∧ (raised e level s).eintMode = s.eintMode ∧
    (raised e level s).intcon = s.intcon := by
  unfold raised
  split <;> exact ⟨rfl, rfl, rfl⟩

lemma raised_isEnabled (e : Eint) (level : Bool) (s : Pins κ) (i : ℕ) :
    (raised e level s).irq.isEnabled i = s.irq.isEnabled i := by
  rw [raised_irq]
  split <;> rfl

lemma edge_frame (board : Board) (pin : ℕ) (r : PinRun κ) :
    (r.edge board pin).2.pins.callback = r.pins.callback ∧
    (r.edge board pin).2.pins.eintMode = r.pins.eintMode ∧
    (∀ i, (r.edge board pin).2.pins.irq.isEnabled i = r.pins.irq.isEnabled i) ∧
    (r.edge board pin).2.request = r.request ∧
    (r.edge board pin).2.level = Function.update r.level pin (!r.level pin) := by
  unfold edge
  cases board.eintOf pin with
  | none => exact ⟨rfl, rfl, fun _ => rfl, rfl, rfl⟩
  | some e =>
    have hraised := raised_frame (board.eint e) (!r.level pin) r.pins
    have henabled := raised_isEnabled (board.eint e) (!r.level pin) r.pins
    have hhandler := Pins.iHandler_frame board (board.eint e).irq
      (raised (board.eint e) (!r.level pin) r.pins)
    dsimp only
    split
    · refine ⟨hhandler.1.trans hraised.1, hhandler.2.1.trans hraised.2.1, ?_, rfl, rfl⟩
      intro i
      rw [hhandler.2.2]
      exact henabled i
    · exact ⟨hraised.1, hraised.2.1, henabled, rfl, rfl⟩

lemma edge_other {pin : ℕ} (e' : ℕ) (h : ∀ e, board.eintOf pin = some e →
    (board.eint e').irq ≠ (board.eint e).irq) (r : PinRun κ) :
    (r.edge board pin).2.pins.irq.get (board.eint e').irq = r.pins.irq.get (board.eint e').irq ∧
    (r.edge board pin).2.polarity board e' = r.polarity board e' := by
  unfold edge polarity
  cases hpin : board.eintOf pin with
  | none => exact ⟨rfl, rfl⟩
  | some e =>
    have hne := h e hpin
    have hget : (raised (board.eint e) (!r.level pin) r.pins).irq.get (board.eint e').irq =
        r.pins.irq.get (board.eint e').irq := by
      rw [raised_irq]
      split
      · rw [Irq.get_raise, if_neg hne]
      · rfl
    have hintcon := (raised_frame (board.eint e) (!r.level pin) r.pins).2.2
    dsimp only
    split
    · constructor
      · rw [(Pins.iHandler_frame board _ _).2.2, Irq.get_clear, if_neg hne]
        exact hget
      · rw [Pins.iHandler_intcon_other hne, hintcon]
    · exact ⟨hget, by rw [hintcon]⟩

/-- The pin is attached with EXTERNAL: its interrupt is enabled, with no edge pending. -/
structure Listening (board : Board) (pin e : ℕ) (func : κ) (mode : Word) (r : PinRun κ) : Prop where
  eint : board.eintOf pin = some e
  callback : r.pins.callback pin = some func
  mode_eq : r.pins.eintMode e = mode
  enabled : r.pins.irq.isEnabled (board.eint e).irq = true
  served : r.pins.irq.get (board.eint e).irq = false

/-- A level change of an attached pin: the callback runs when the polarity bit is the new level, and
then the bit is inverted in the mode CHANGE. -/
lemma Listening.edge_eq {pin e : ℕ} {func : κ} {mode : Word} {r : PinRun κ}
    (h : r.Listening board pin e func mode) :
    (r.edge board pin).1 = (if r.polarity board e = !r.level pin then [func] else []) ∧
    (r.edge board pin).2.pins.irq.get (board.eint e).irq = false ∧
    (r.edge board pin).2.polarity board e = (r.polarity board e ^^
      (decide (r.polarity board e = !r.level pin) && Mode.has mode Mode.change)) := by
  have hraised := raised_frame (board.eint e) (!r.level pin) r.pins
  have henabled := raised_isEnabled (board.eint e) (!r.level pin) r.pins (board.eint e).irq
  have hget : (raised (board.eint e) (!r.level pin) r.pins).irq.get (board.eint e).irq =
      decide (r.polarity board e = !r.level pin) := by
    rw [raised_irq]
    unfold polarity
    split <;> simp [*, h.served]
  have hhandler := Pins.iHandler_eq (s := raised (board.eint e) (!r.level pin) r.pins)
    (by rw [hraised.1]; exact h.callback) h.eint
  rw [hraised.2.1, hraised.2.2, h.mode_eq] at hhandler
  unfold edge
  rw [h.eint]
  dsimp only
  rw [henabled, h.enabled, hget, Bool.true_and]
  by_cases hfires : r.polarity board e = !r.level pin
  · rw [if_pos hfires, if_pos (decide_eq_true hfires), decide_eq_true hfires, Bool.true_and]
    refine ⟨hhandler.1, ?_, hhandler.2⟩
    rw [(Pins.iHandler_frame board _ _).2.2, Irq.get_clear, if_pos rfl]
  · rw [if_neg hfires, if_neg (by simpa using hfires), decide_eq_false hfires, Bool.false_and,
      Bool.xor_false]
    refine ⟨rfl, hget.trans (decide_eq_false hfires), ?_⟩
    unfold polarity
    rw [hraised.2.2]

/-- Every pin that is attached with EXTERNAL listens. -/
def Book (board : Board) (r : PinRun κ) : Prop :=
  ∀ pin func mode, r.request pin = some (func, mode) →
    ∃ e, r.Listening board pin e func mode

lemma Book.edge {r : PinRun κ} (h : r.Book board) (pin : ℕ) : (r.edge board pin).2.Book board := by
  obtain ⟨hcallback, hmode, henabled, hrequest, _⟩ := edge_frame board pin r
  intro pin' func mode hreq
  rw [hrequest] at hreq
  obtain ⟨e, hlistening⟩ := h pin' func mode hreq
  refine ⟨e, hlistening.eint, ?_, ?_, ?_, ?_⟩
  · rw [hcallback]
    exact hlistening.callback
  · rw [hmode]
    exact hlistening.mode_eq
  · rw [henabled]
    exact hlistening.enabled
  · by_cases hpin : pin' = pin
    · subst hpin
      exact hlistening.edge_eq.2.1
    · rw [(edge_other _ _ r).1]
      · exact hlistening.served
      · intro e' he' hirq
        exact hpin (Board.eint_inj hlistening.eint he' hirq)

lemma eintOf_eq {board : Board} {pin : ℕ} {p : Pin} (hp : board.pins[pin]? = some p) :
    board.eintOf pin = p.eint := by
  unfold Board.eintOf
  rw [hp]
  rfl

lemma exec_other {c : PinCall κ} (e' : ℕ) (h : ∀ e, board.eintOf c.pin = some e →
    (board.eint e').irq ≠ (board.eint e).irq) (s : Pins κ) :
    (c.exec board s).eintMode e' = s.eintMode e' ∧
    (c.exec board s).irq.isEnabled (board.eint e').irq = s.irq.isEnabled (board.eint e').irq ∧
    (s.irq.get (board.eint e').irq = false →
      (c.exec board s).irq.get (board.eint e').irq = false) ∧
    (c.exec board s).intcon.getLsbD (board.eint e').id = s.intcon.getLsbD (board.eint e').id := by
  cases heff : c.Effective board with
  | false =>
    rw [PinCall.exec_of_not_effective heff]
    exact ⟨rfl, rfl, id, rfl⟩
  | true =>
    obtain ⟨p, hp, houtcome⟩ := Pins.exec_outcome heff s
    rw [eintOf_eq hp] at h
    have hdetach : (s.detachIrq board p).isEnabled (board.eint e').irq =
        s.irq.isEnabled (board.eint e').irq := by
      rw [Pins.isEnabled_detachIrq_external, if_neg]
      rintro ⟨e, he, hirq⟩
      exact h e he hirq.symm
    generalize c.exec board s = t at houtcome
    cases houtcome with
    | external pin func mode e reg cpu he hmode =>
      have hne := h e he
      have hmode_ne : e' ≠ e := fun heq => hne (by rw [heq])
      have hid : (board.eint e').id ≠ (board.eint e).id := fun hid => hne (Eint.id_inj hid)
      refine ⟨Function.update_of_ne hmode_ne _ _, ?_, ?_, ?_⟩
      · rw [Irq.isEnabled_enable, if_neg hne]
        exact hdetach
      · intro hget
        rw [Irq.get_enable, Irq.get_clear, if_neg hne]
        exact (Pins.get_detachIrq board p s _).trans hget
      · dsimp only
        rw [getLsbD_or_flag (Eint.id_lt _)]
        simp [hid]
    | notice pin func mode reg hmode =>
      have hne : (board.eint e').irq ≠ irqChangeNoticeA + p.gpio := by
        have hlt := (board.eint e').irq_lt
        omega
      refine ⟨rfl, ?_, ?_, rfl⟩
      · rw [Irq.isEnabled_enable, if_neg hne]
        exact hdetach
      · intro hget
        rw [Irq.get_enable, Irq.get_clear, if_neg hne]
        exact (Pins.get_detachIrq board p s _).trans hget
    | detached _ reg hnotices hexternal =>
      refine ⟨rfl, hdetach, ?_, rfl⟩
      intro hget
      exact (Pins.get_detachIrq board p s _).trans hget

lemma exec_callback_other {c : PinCall κ} {pin : ℕ} (h : pin ≠ c.pin) (s : Pins κ) :
    (c.exec board s).callback pin = s.callback pin := by
  cases heff : c.Effective board with
  | false => rw [PinCall.exec_of_not_effective heff]
  | true =>
    obtain ⟨p, hp, houtcome⟩ := Pins.exec_outcome heff s
    generalize c.exec board s = t at houtcome
    cases houtcome <;> exact Function.update_of_ne h _ _

lemma exec_requested {c : PinCall κ} {func : κ} {mode : Word} {r : PinRun κ}
    (heff : c.Effective board = true) (h : requested board c = some (func, mode)) :
    ∃ e, (r.call board c).Listening board c.pin e func mode ∧
      (r.call board c).polarity board e = (r.polarity board e || Mode.has mode Mode.rising) := by
  obtain ⟨p, hp, houtcome⟩ := Pins.exec_outcome heff r.pins
  unfold polarity call
  generalize c.exec board r.pins = t at houtcome
  cases houtcome with
  | external pin func' mode' e reg cpu he hmode =>
    have heint : board.eintOf pin = some e := (eintOf_eq hp).trans he
    have hreq : func' = func ∧ mode' = mode := by simpa [requested, heint, hmode] using h
    obtain ⟨rfl, rfl⟩ := hreq
    refine ⟨e, ⟨heint, Function.update_self _ _ _, Function.update_self _ _ _, ?_, ?_⟩, ?_⟩
    · rw [Irq.isEnabled_enable, if_pos rfl]
    · rw [Irq.get_enable, Irq.get_clear, if_pos rfl]
    · dsimp only
      rw [getLsbD_or_flag (Eint.id_lt _), decide_eq_true rfl, Bool.and_true]
  | notice pin func' mode' reg hmode => simp [requested, hmode] at h
  | detached _ reg hnotices hexternal =>
    cases c with
    | attach pin func' mode' =>
      have heint : board.eintOf pin = none := (eintOf_eq hp).trans (hexternal pin func' mode' rfl)
      simp [requested, heint] at h
    | detach pin => cases h

lemma requested_eq_some {c : PinCall κ} {func : κ} {mode : Word} :
    requested board c = some (func, mode) ↔ c = .attach c.pin (some func) mode ∧
      (board.eintOf c.pin).isSome ∧ Mode.has mode Mode.external = true := by
  cases c with
  | attach pin func' mode' =>
    change (if (board.eintOf pin).isSome ∧ Mode.has mode' Mode.external = true then
      func'.map fun func => (func, mode') else none) = some (func, mode) ↔
      PinCall.attach pin func' mode' = .attach pin (some func) mode ∧
        (board.eintOf pin).isSome ∧ Mode.has mode Mode.external = true
    by_cases h : (board.eintOf pin).isSome ∧ Mode.has mode' Mode.external = true
    · rw [if_pos h]
      cases func' with
      | none => simp
      | some func' =>
        constructor
        · intro heq
          cases heq
          exact ⟨rfl, h⟩
        · rintro ⟨heq, _⟩
          cases heq
          rfl
    · rw [if_neg h]
      constructor
      · intro heq
        cases heq
      · rintro ⟨heq, hext⟩
        cases heq
        exact absurd hext h
  | detach pin => simp [requested]

lemma effective_of_requested {c : PinCall κ} {request : κ × Word}
    (h : requested board c = some request) : c.Effective board = true := by
  obtain ⟨hc, hsome, _⟩ := requested_eq_some.mp h
  obtain ⟨e, he⟩ := Option.isSome_iff_exists.mp hsome
  have hlt := Board.lt_of_eintOf he
  rw [hc]
  simpa [PinCall.Effective] using hlt

lemma call_of_not_effective {c : PinCall κ} (h : c.Effective board = false) (r : PinRun κ) :
    r.call board c = r := by
  simp [PinRun.call, PinCall.exec_of_not_effective h, h]

lemma Book.call {r : PinRun κ} (h : r.Book board) (c : PinCall κ) : (r.call board c).Book board := by
  intro pin func mode hreq
  by_cases hpin : c.Effective board = true ∧ pin = c.pin
  · obtain ⟨heff, rfl⟩ := hpin
    have hrequested : requested board c = some (func, mode) := by
      simpa [PinRun.call, heff] using hreq
    obtain ⟨e, hlistening, _⟩ := exec_requested heff hrequested
    exact ⟨e, hlistening⟩
  · cases heff : c.Effective board with
    | false =>
      rw [call_of_not_effective heff] at hreq ⊢
      exact h pin func mode hreq
    | true =>
      have hne : pin ≠ c.pin := fun heq => hpin ⟨heff, heq⟩
      have hkept : r.request pin = some (func, mode) := by
        simpa [PinRun.call, heff, Function.update_of_ne hne] using hreq
      obtain ⟨e, hl⟩ := h pin func mode hkept
      have hother := exec_other e (c := c)
        (fun e' he' hirq => hne (Board.eint_inj hl.eint he' hirq)) r.pins
      exact ⟨e, hl.eint, (exec_callback_other hne r.pins).trans hl.callback,
        hother.1.trans hl.mode_eq, hother.2.1.trans hl.enabled, hother.2.2.1 hl.served⟩

lemma Book.step {r : PinRun κ} (h : r.Book board) (op : PinOp κ) : (r.step board op).Book board := by
  cases op with
  | call c => exact h.call c
  | edge pin => exact h.edge pin

/-- The polarity bit of a pin is what its mode needs. -/
def PolarityRight (board : Board) (pin : ℕ) (r : PinRun κ) : Prop :=
  ∀ func mode kind e, r.request pin = some (func, mode) → edgeKind mode = some kind →
    board.eintOf pin = some e → r.polarity board e = kind.polarity (r.level pin)

lemma callbacks_iff (kind : EdgeKind) (func : κ) (bit level : Bool) :
    ((if bit = !level then [func] else []) = if kind.wants (!level) then [func] else []) ↔
      bit = kind.polarity level := by
  cases kind <;> cases bit <;> cases level <;> simp [EdgeKind.wants, EdgeKind.polarity]

lemma edgeServed_iff {r : PinRun κ} (h : r.Book board) (pin : ℕ) :
    r.EdgeServed board pin ↔ r.PolarityRight board pin := by
  constructor
  · intro hserved func mode kind e hreq hkind he
    obtain ⟨e', hl⟩ := h pin func mode hreq
    have hee : e = e' := Option.some.inj (he.symm.trans hl.eint)
    have hfuncs := hserved func mode kind hreq hkind
    rw [hl.edge_eq.1, callbacks_iff] at hfuncs
    rw [hee]
    exact hfuncs
  · intro hright func mode kind hreq hkind
    obtain ⟨e, hl⟩ := h pin func mode hreq
    rw [hl.edge_eq.1, callbacks_iff]
    exact hright func mode kind e hreq hkind hl.eint

lemma has_of_edgeKind {mode : Word} {kind : EdgeKind} (h : edgeKind mode = some kind) :
    Mode.has mode Mode.rising = decide (kind = .rising) ∧
    Mode.has mode Mode.change = decide (kind = .change) := by
  unfold edgeKind at h
  split at h <;> cases h <;> simp [*]

lemma polarityRight_edge {r : PinRun κ} (h : r.Book board) (changed : ℕ)
    (hright : ∀ pin, r.PolarityRight board pin) (pin : ℕ) :
    (r.edge board changed).2.PolarityRight board pin := by
  obtain ⟨_, _, _, hrequest, hlevel⟩ := edge_frame board changed r
  intro func mode kind e hreq hkind he
  rw [hrequest] at hreq
  rw [hlevel]
  have hbefore := hright pin func mode kind e hreq hkind he
  by_cases hpin : pin = changed
  · subst hpin
    obtain ⟨e', hl⟩ := h pin func mode hreq
    have hee : e = e' := Option.some.inj (he.symm.trans hl.eint)
    subst hee
    rw [hl.edge_eq.2.2, hbefore, (has_of_edgeKind hkind).2, Function.update_self]
    cases kind <;> cases r.level pin <;> rfl
  · have hother := (edge_other e
      (fun e' he' hirq => hpin (Board.eint_inj he he' hirq)) r).2
    rw [hother, hbefore, Function.update_of_ne hpin]

lemma attachSound_iff {c : PinCall κ} {r : PinRun κ} : r.AttachSound board (.call c) ↔
    ∀ func mode kind e, requested board c = some (func, mode) → edgeKind mode = some kind →
      board.eintOf c.pin = some e → kind ≠ .rising →
      r.polarity board e = kind.polarity (r.level c.pin) := by
  constructor
  · intro h func mode kind e hreq hkind he hrising
    obtain ⟨hc, _, hmode⟩ := requested_eq_some.mp hreq
    rw [hc] at h
    exact h e kind he hmode hkind hrising
  · intro h
    cases c with
    | attach pin func mode =>
      cases func with
      | none => trivial
      | some func =>
        intro e kind he hmode hkind hrising
        apply h func mode kind e _ hkind he hrising
        have he' : board.eintOf (PinCall.attach pin (some func) mode).pin = some e := he
        exact requested_eq_some.mpr ⟨rfl, by rw [he']; rfl, hmode⟩
    | detach pin => trivial

lemma polarityRight_call_iff {r : PinRun κ} (c : PinCall κ)
    (hright : ∀ pin, r.PolarityRight board pin) :
    (∀ pin, (r.call board c).PolarityRight board pin) ↔ r.AttachSound board (.call c) := by
  rw [attachSound_iff]
  constructor
  · intro hafter func mode kind e hreq hkind he hrising
    have heff := effective_of_requested hreq
    obtain ⟨e', hl, hpolarity⟩ := exec_requested (r := r) heff hreq
    have hee : e = e' := Option.some.inj (he.symm.trans hl.eint)
    subst hee
    have hrequest : (r.call board c).request c.pin = some (func, mode) := by
      simp [PinRun.call, heff, hreq]
    have hbit := hafter c.pin func mode kind e hrequest hkind he
    rw [hpolarity, (has_of_edgeKind hkind).1, decide_eq_false hrising, Bool.or_false] at hbit
    exact hbit
  · intro hsound pin func mode kind e hreq hkind he
    cases heff : c.Effective board with
    | false =>
      rw [call_of_not_effective heff] at hreq ⊢
      exact hright pin func mode kind e hreq hkind he
    | true =>
      by_cases hpin : pin = c.pin
      · subst hpin
        have hrequested : requested board c = some (func, mode) := by
          simpa [PinRun.call, heff] using hreq
        obtain ⟨e', hl, hpolarity⟩ := exec_requested (r := r) heff hrequested
        have hee : e = e' := Option.some.inj (he.symm.trans hl.eint)
        subst hee
        rw [hpolarity, (has_of_edgeKind hkind).1]
        by_cases hrising : kind = .rising
        · simp [hrising, EdgeKind.polarity]
        · rw [decide_eq_false hrising, Bool.or_false]
          exact hsound func mode kind e hrequested hkind he hrising
      · have hkept : r.request pin = some (func, mode) := by
          simpa [PinRun.call, heff, Function.update_of_ne hpin] using hreq
        have hother := (exec_other e (c := c)
          (fun e' he' hirq => hpin (Board.eint_inj he he' hirq)) r.pins).2.2.2
        exact hother.trans (hright pin func mode kind e hkept hkind he)

lemma polarityRight_step_iff {r : PinRun κ} (h : r.Book board) (op : PinOp κ)
    (hright : ∀ pin, r.PolarityRight board pin) :
    (∀ pin, (r.step board op).PolarityRight board pin) ↔ r.AttachSound board op := by
  cases op with
  | call c => exact polarityRight_call_iff c hright
  | edge pin => exact iff_of_true (polarityRight_edge h pin hright) trivial

/-- In a run that begins with no pin attached, in every state, the next level change of every pin is
served as its mode says exactly when every `attachInterrupt` of the run finds the polarity bit as
its mode needs it: 0 for FALLING, the opposite of the level of the line for CHANGE. -/
theorem edges_follow_iff (ops : List (PinOp κ)) {r : PinRun κ} (h : ∀ pin, r.request pin = none) :
    (∀ done, done <+: ops → ∀ pin, (done.foldl (step board) r).EdgeServed board pin) ↔
    ∀ done op, done ++ [op] <+: ops → (done.foldl (step board) r).AttachSound board op := by
  have hbook : r.Book board := by
    intro pin func mode hreq
    rw [h] at hreq
    cases hreq
  have hserved : ∀ pin, r.EdgeServed board pin := by
    intro pin func mode kind hreq
    rw [h] at hreq
    cases hreq
  have hpolarity : ∀ t : PinRun κ, t.Book board →
      ((∀ pin, t.EdgeServed board pin) ↔ ∀ pin, t.PolarityRight board pin) := by
    intro t ht
    exact forall_congr' (edgeServed_iff ht)
  have hstep : ∀ (s : PinRun κ) (op : PinOp κ), s.Book board → (∀ pin, s.EdgeServed board pin) →
      ((∀ pin, (s.step board op).EdgeServed board pin) ↔ s.AttachSound board op) := by
    intro s op hs hright
    rw [hpolarity _ (hs.step op)]
    exact polarityRight_step_iff hs op ((hpolarity s hs).mp hright)
  exact Runs.holds_along_iff (P := fun s => ∀ pin, s.EdgeServed board pin)
    (fun _ op hs => hs.step op) hstep hbook hserved ops

/-- The board with every line low and no pin attached. -/
def atLow : PinRun ℕ := ⟨EFM100.idle, fun _ => false, fun _ => none⟩

/-- Rising edges of pin 14, which is INT1. -/
theorem rising_edges_follow : (∀ pin, atLow.request pin = none) ∧
    ∀ done, done <+: [PinOp.call (.attach 14 (some 1) (Mode.external ||| Mode.rising)), .edge 14] →
      ∀ pin, (done.foldl (step EFM100.board) atLow).EdgeServed EFM100.board pin := by
  refine ⟨fun _ => rfl, (edges_follow_iff _ fun _ => rfl).mpr ?_⟩
  intro done op hops
  have hop := hops.subset (List.mem_append_right done List.mem_cons_self)
  simp only [List.mem_cons, List.not_mem_nil, or_false] at hop
  rcases hop with rfl | rfl
  · intro e kind _ _ hkind hrising
    exact absurd (Option.some.inj hkind).symm hrising
  · trivial

/-- A pin attached for rising edges and then for falling ones is served on rising ones still; one
attached for both with its line low misses the first. -/
theorem edges_do_not_follow :
    ¬([PinOp.call (.attach 14 (some 1) (Mode.external ||| Mode.rising)),
      .call (.attach 14 (some 2) (Mode.external ||| Mode.falling))].foldl
        (step EFM100.board) atLow).EdgeServed EFM100.board 14 ∧
    ¬([PinOp.call (.attach 14 (some 1) (Mode.external ||| Mode.change))].foldl
        (step EFM100.board) atLow).EdgeServed EFM100.board 14 := by
  constructor
  · intro h
    exact absurd (h 2 (Mode.external ||| Mode.falling) .falling rfl rfl) (by decide)
  · intro h
    exact absurd (h 1 (Mode.external ||| Mode.change) .change rfl rfl) (by decide)

end PinRun

end FrameworkXC32
