import FrameworkXC32.Pins.Board
import FrameworkXC32.Pins.Calls
import Mathlib.Data.List.Induction

/-!
# Bookkeeping of the change notices

`cn_counter` should count the pins of a port that wait for change notices. `detachInterrupt`
decrements it for every pin, also for one that was never counted, and `attachInterrupt` begins
with a `detachInterrupt`.
-/

namespace FrameworkXC32
open Machine

variable {κ : Type}

namespace PinCall

/-- An effective call on a pin of the port. -/
def On (board : Board) (port : Gpio) (c : PinCall κ) : Bool :=
  c.Effective board && (board.pins[c.pin]?).any fun p => decide (p.gpio = port)

/-- A call that leaves the counter of the port one lower. -/
def Decrements (board : Board) (port : Gpio) (c : PinCall κ) : Bool :=
  c.On board port && !c.Notices

end PinCall

/-- The pin waits for change notices: the last effective call on it asks for them. -/
def noticed (board : Board) (calls : List (PinCall κ)) (pin : ℕ) : Bool :=
  match (calls.filter fun c => decide (c.pin = pin) && c.Effective board).getLast? with
  | some c => c.Notices
  | none => false

/-- The number of pins of a port that wait for change notices. -/
def noticedPins (board : Board) (calls : List (PinCall κ)) (port : Gpio) : ℕ :=
  (List.range board.pins.length).countP fun pin =>
    ((board.pins[pin]?).any fun p => decide (p.gpio = port)) && noticed board calls pin

/-- The counter of a port is the number of its waiting pins, and its interrupt is enabled exactly
when there is one. -/
structure BookExact (board : Board) (calls : List (PinCall κ)) (s : Pins κ) (port : Gpio) :
    Prop where
  counter : (s.cnCounter port).toNat = noticedPins board calls port
  enabled : s.irq.isEnabled (irqChangeNoticeA + port) = true ↔ 0 < noticedPins board calls port

/-- The change notices after a reset. -/
structure NoticeReset (s : Pins κ) : Prop where
  counter : ∀ port, s.cnCounter port = 0
  disabled : ∀ port : Gpio, s.irq.isEnabled (irqChangeNoticeA + port) = false

variable {board : Board}

lemma cnCounter_effective {c : PinCall κ} (h : c.Effective board = true) (s : Pins κ) :
    ∃ p, board.pins[c.pin]? = some p ∧ (c.exec board s).cnCounter = if c.Notices then s.cnCounter
      else Function.update s.cnCounter p.gpio (s.cnCounter p.gpio - 1) := by
  obtain ⟨p, hp, houtcome⟩ := Pins.exec_outcome h s
  refine ⟨p, hp, ?_⟩
  generalize c.exec board s = t at houtcome
  cases houtcome with
  | external pin func mode e reg cpu he hmode => simp [PinCall.Notices, hmode]
  | notice pin func mode reg hmode => simp [PinCall.Notices, hmode]
  | detached _ reg hnotices => simp [hnotices]

lemma cnCounter_exec (c : PinCall κ) (s : Pins κ) (port : Gpio) :
    (c.exec board s).cnCounter port =
      s.cnCounter port - (if c.Decrements board port then 1 else 0) := by
  cases heff : c.Effective board with
  | true =>
    obtain ⟨p, hp, hcounter⟩ := cnCounter_effective heff s
    rw [hcounter]
    unfold PinCall.Decrements PinCall.On
    rw [heff, hp]
    cases c.Notices with
    | true => simp
    | false =>
      by_cases hport : p.gpio = port
      · subst hport
        simp
      · simp [hport, Function.update_of_ne (Ne.symm hport)]
  | false =>
    rw [PinCall.exec_of_not_effective heff]
    simp [PinCall.Decrements, PinCall.On, heff]

/-- After a run of calls the counter has lost one for each call that decrements it, modulo 256. -/
theorem cnCounter_run (calls : List (PinCall κ)) (s : Pins κ) (port : Gpio) :
    (calls.foldl (PinCall.exec board) s).cnCounter port =
      s.cnCounter port - BitVec.ofNat 8 (calls.countP fun c => c.Decrements board port) := by
  induction calls generalizing s with
  | nil => simp
  | cons c calls ih =>
    rw [List.foldl_cons, ih, cnCounter_exec, List.countP_cons]
    apply BitVec.eq_of_toNat_eq
    split
    · simp [BitVec.toNat_sub]
      omega
    · simp [BitVec.toNat_sub]

lemma isEnabled_exec (c : PinCall κ) (s : Pins κ) (port : Gpio) :
    (c.exec board s).irq.isEnabled (irqChangeNoticeA + port) =
      if c.On board port ∧ (c.Notices = true ∨ s.cnCounter port - 1 = 0) then c.Notices
      else s.irq.isEnabled (irqChangeNoticeA + port) := by
  cases heff : c.Effective board with
  | false =>
    rw [PinCall.exec_of_not_effective heff]
    simp [PinCall.On, heff]
  | true =>
    obtain ⟨p, hp, houtcome⟩ := Pins.exec_outcome heff s
    have hon : c.On board port = true ↔ p.gpio = port := by
      simp [PinCall.On, heff, hp]
    have hdetach := Pins.isEnabled_detachIrq_notice board p s port
    have hexternal : ∀ e : Eint, irqChangeNoticeA + (port : ℕ) ≠ e.irq := by
      intro e
      have hlt := e.irq_lt
      omega
    simp only [hon]
    generalize c.exec board s = t at houtcome
    by_cases hport : p.gpio = port
    · subst hport
      simp only [true_and] at hdetach ⊢
      cases houtcome with
      | external pin func mode e reg cpu he hmode =>
        rw [Irq.isEnabled_enable, if_neg (hexternal _)]
        simpa [PinCall.Notices, hmode] using hdetach
      | notice pin func mode reg hmode =>
        rw [Irq.isEnabled_enable, if_pos rfl]
        simp [PinCall.Notices, hmode]
      | detached _ reg hnotices => simpa [hnotices] using hdetach
    · rw [if_neg (fun h => hport h.1)] at hdetach ⊢
      cases houtcome with
      | external pin func mode e reg cpu he hmode =>
        rw [Irq.isEnabled_enable, if_neg (hexternal _)]
        exact hdetach
      | notice pin func mode reg hmode =>
        have hne : irqChangeNoticeA + (port : ℕ) ≠ irqChangeNoticeA + p.gpio := by
          intro heq
          exact hport (Fin.ext (Nat.add_left_cancel heq).symm)
        rw [Irq.isEnabled_enable, if_neg hne]
        exact hdetach
      | detached _ reg hnotices => exact hdetach

/-- After a reset and up to the 256th call that decrements the counter, the interrupt of a port is
enabled once any pin of it has asked for change notices, whatever is detached. -/
theorem isEnabled_run (calls : List (PinCall κ)) {s : Pins κ} (h : NoticeReset s) (port : Gpio)
    (hfew : (calls.countP fun c => c.Decrements board port) < 256) :
    (calls.foldl (PinCall.exec board) s).irq.isEnabled (irqChangeNoticeA + port) =
      calls.any fun c => c.On board port && c.Notices := by
  induction calls using List.reverseRecOn with
  | nil => exact h.disabled port
  | append_singleton calls c ih =>
    rw [List.countP_append, List.countP_singleton] at hfew
    have hbefore := ih (by omega)
    rw [List.foldl_append, List.foldl_cons, List.foldl_nil, isEnabled_exec, hbefore,
      List.any_append, cnCounter_run, h.counter]
    cases hon : c.On board port with
    | false => simp [hon]
    | true =>
      cases hnotices : c.Notices with
      | true => simp [hon, hnotices]
      | false =>
        have hdec : c.Decrements board port = true := by
          simp [PinCall.Decrements, hon, hnotices]
        rw [if_pos hdec] at hfew
        have hcounter : (0 : Byte) - BitVec.ofNat 8 (calls.countP fun c => c.Decrements board port) -
            1 ≠ 0 := by
          intro hzero
          have hnat := congrArg BitVec.toNat hzero
          simp [BitVec.toNat_sub] at hnat
          omega
        rw [if_neg]
        · simp [hnotices]
        · rintro ⟨_, hn | hzero⟩
          · cases hn
          · exact hcounter hzero

lemma run_of_none_effective {calls : List (PinCall κ)}
    (h : ∀ c ∈ calls, c.Effective board = false) (s : Pins κ) :
    calls.foldl (PinCall.exec board) s = s := by
  induction calls with
  | nil => rfl
  | cons c calls ih =>
    rw [List.foldl_cons, PinCall.exec_of_not_effective (h c List.mem_cons_self)]
    exact ih fun c' hc' => h c' (List.mem_cons_of_mem c hc')

lemma noticed_first {calls : List (PinCall κ)} (h : ∀ c ∈ calls, c.Effective board = false)
    (c : PinCall κ) (pin : ℕ) : noticed board (calls ++ [c]) pin =
      (decide (c.pin = pin) && c.Effective board && c.Notices) := by
  have hfilter : (calls.filter fun c => decide (c.pin = pin) && c.Effective board) = [] := by
    apply List.filter_eq_nil_iff.mpr
    intro c hc
    simp [h c hc]
  unfold noticed
  rw [List.filter_append, hfilter, List.nil_append, List.filter_singleton]
  cases decide (c.pin = pin) && c.Effective board <;> rfl

lemma noticedPins_of_none_effective {calls : List (PinCall κ)}
    (h : ∀ c ∈ calls, c.Effective board = false) (port : Gpio) :
    noticedPins board calls port = 0 := by
  apply List.countP_eq_zero.mpr
  intro pin _
  have hfilter : (calls.filter fun c => decide (c.pin = pin) && c.Effective board) = [] := by
    apply List.filter_eq_nil_iff.mpr
    intro c hc
    simp [h c hc]
  simp [noticed, hfilter]

lemma noticedPins_first {calls : List (PinCall κ)} (h : ∀ c ∈ calls, c.Effective board = false)
    {c : PinCall κ} {p : Pin} (hc : c.Effective board = true) (hp : board.pins[c.pin]? = some p) :
    noticedPins board (calls ++ [c]) p.gpio = if c.Notices then 1 else 0 := by
  have hcount : noticedPins board (calls ++ [c]) p.gpio =
      (List.range board.pins.length).countP fun pin => decide (c.pin = pin) && c.Notices := by
    apply List.countP_congr
    intro pin _
    rw [noticed_first h, hc, Bool.and_true]
    by_cases hpin : c.pin = pin
    · subst hpin
      simp [hp]
    · simp [hpin]
  rw [hcount]
  cases c.Notices with
  | true =>
    have hlt : c.pin < board.pins.length := (List.getElem?_eq_some_iff.mp hp).1
    have hone : (List.range board.pins.length).count c.pin = 1 := by
      rw [List.count_range, if_pos hlt]
    rw [← hone]
    apply List.countP_congr
    intro pin _
    rw [Bool.and_true, decide_eq_true_eq, beq_iff_eq]
    exact eq_comm
  | false => simp

/-- The bookkeeping is exact after every call of a run exactly when no call of it is effective: the
first one that is leaves the counter at 0 with a pin waiting, or at 255 with none. -/
theorem changeNotice_exact_iff (calls : List (PinCall κ)) {s : Pins κ} (h : NoticeReset s) :
    (∀ done, done <+: calls → ∀ port,
      BookExact board done (done.foldl (PinCall.exec board) s) port) ↔
    ∀ c ∈ calls, c.Effective board = false := by
  constructor
  · intro hexact
    induction calls using List.reverseRecOn with
    | nil => simp
    | append_singleton calls c ih =>
      have hcalls : ∀ c ∈ calls, c.Effective board = false := by
        apply ih
        intro done hdone
        exact hexact done (hdone.trans (List.prefix_append calls [c]))
      have hc : c.Effective board = false := by
        by_contra heff
        have hc : c.Effective board = true := by simpa using heff
        obtain ⟨p, hp, _⟩ := Pins.exec_outcome hc s
        have hbefore : (calls.countP fun c => c.Decrements board p.gpio) = 0 := by
          apply List.countP_eq_zero.mpr
          intro c' hc'
          simp [PinCall.Decrements, PinCall.On, hcalls c' hc']
        have hlast : c.Decrements board p.gpio = !c.Notices := by
          simp [PinCall.Decrements, PinCall.On, hc, hp]
        have hcounter := (hexact (calls ++ [c]) List.prefix_rfl p.gpio).counter
        rw [noticedPins_first hcalls hc hp, cnCounter_run, h.counter, List.countP_append,
          hbefore, List.countP_singleton, hlast] at hcounter
        revert hcounter
        cases c.Notices <;> decide
      intro c' hc'
      rcases List.mem_append.mp hc' with hmem | hmem
      · exact hcalls c' hmem
      · rw [List.mem_singleton.mp hmem]
        exact hc
  · intro hnone done hdone port
    have hdone' : ∀ c ∈ done, c.Effective board = false := fun c hc => hnone c (hdone.subset hc)
    rw [run_of_none_effective hdone']
    constructor
    · rw [h.counter, noticedPins_of_none_effective hdone']
      rfl
    · rw [h.disabled, noticedPins_of_none_effective hdone']
      simp

lemma idle_noticeReset : NoticeReset EFM100.idle where
  counter := fun _ => rfl
  disabled := fun port => by
    rw [Irq.isEnabled_eq]
    exact BitVec.getLsbD_zero

/-- A call on pin 31, which the board does not have, leaves the bookkeeping exact. -/
theorem changeNotice_exact_pin_31 : NoticeReset EFM100.idle ∧
    ∀ done, done <+: [PinCall.attach 31 (some 1) Mode.change] → ∀ port,
      BookExact EFM100.board done (done.foldl (PinCall.exec EFM100.board) EFM100.idle) port :=
  ⟨idle_noticeReset, (changeNotice_exact_iff _ idle_noticeReset).mpr (by decide)⟩

/-- One pin attached for change notices is counted as none; detached again it is counted as 255, and
the interrupt of its port stays enabled. -/
theorem changeNotice_miscounts :
    ¬BookExact EFM100.board [.attach 0 (some 1) Mode.change]
      (EFM100.idle.attachInterrupt EFM100.board 0 (some 1) Mode.change) 4 ∧
    ((EFM100.idle.attachInterrupt EFM100.board 0 (some 1) Mode.change).detachInterrupt
      EFM100.board 0).cnCounter 4 = 255 ∧
    ((EFM100.idle.attachInterrupt EFM100.board 0 (some 1) Mode.change).detachInterrupt
      EFM100.board 0).irq.isEnabled (irqChangeNoticeA + 4) = true := by
  refine ⟨?_, by decide, by decide⟩
  intro h
  exact absurd h.counter (by decide)

end FrameworkXC32
