import FrameworkXC32.CoreTimer.Model
import FrameworkXC32.Lib.Polling

/-!
# Differences of clock readings

`pulseIn`, `Elapsed` and the delay loops on clocks of 32 bits. A delay loop subtracts its start
first; `pulseIn` compares readings with a deadline, and `Elapsed` two readings.
-/

namespace FrameworkXC32
open Machine Polling

/-- `Elapsed` -/
def elapsed (startTime currentTime : Word) : Word :=
  if currentTime ≥ startTime then currentTime - startTime
  else 0xFFFFFFFF - currentTime + startTime

/-- The result of `pulseIn`, and how often its three loops have polled. -/
structure PulseRun where
  value : Word
  ended : ℕ
  started : ℕ
  stopped : ℕ
deriving DecidableEq, Repr

/-- `pulseIn` on the polls that it makes: the readings of `micros()` with the pin behind each, the
first one before the loops. -/
def pulseIn (state timeout : Word) (polls : List (Word × Word)) : Option PulseRun := do
  let (initTime, _) ← polls.head?
  let maxTime := initTime + timeout
  let (ended, polls) ← waitWhile (fun p => p.2 == state && p.1 < maxTime) polls
  let (started, polls) ← waitWhile (fun p => p.2 != state && p.1 < maxTime) polls
  let (currTime, _) ← polls.head?
  let initTime := if started = 0 then initTime else currTime
  let (stopped, polls) ← waitWhile (fun p => p.2 == state && p.1 < maxTime) polls
  let (currTime, _) ← polls.head?
  some ⟨if currTime < maxTime then currTime - initTime else 0, ended, started, stopped⟩

namespace Pulse

variable (state timeout : Word) (polls : List (Word × Word))

def timeAt (k : ℕ) : Word := polls[k]?.elim 0 Prod.fst

/-- The poll at which a pulse that is on already has ended, the one at which the pulse has started,
and the one at which it has stopped. -/
def ended : ℕ := nextIdx (fun p => !(p.2 == state)) 0 polls

def started : ℕ := nextIdx (fun p => !(p.2 != state)) (ended state polls) polls

def stopped : ℕ := nextIdx (fun p => !(p.2 == state)) (started state polls) polls

/-- The first poll whose reading is not below the deadline. -/
def deadline : ℕ := nextIdx (fun p => !decide (p.1 < timeAt polls 0 + timeout)) 0 polls

/-- What is measured of a pulse up to some poll: the pulse, if it has stopped before. -/
def measured (last : ℕ) : Option PulseRun :=
  let stop := min (stopped state polls) last
  if stop < polls.length then
    some {
      value := if stopped state polls < last then
        timeAt polls (stopped state polls) - timeAt polls (started state polls) else 0
      ended := min (ended state polls) stop
      started := min (started state polls) stop - min (ended state polls) stop
      stopped := stop - min (started state polls) stop }
  else none

lemma deadline_le_length : deadline timeout polls ≤ polls.length :=
  nextIdx_le_length (Nat.zero_le _)

lemma ended_le_started : ended state polls ≤ started state polls := le_nextIdx

lemma started_le_stopped : started state polls ≤ stopped state polls := le_nextIdx

variable {state timeout polls}

lemma ended_lt_started (h : started state polls < polls.length) :
    ended state polls < started state polls := by
  have hlt : ended state polls < polls.length := lt_of_le_of_lt (ended_le_started state polls) h
  have hended := nextIdx_holds (p := fun p : Word × Word => !(p.2 == state)) hlt
  refine lt_of_le_of_ne (ended_le_started state polls) fun heq => ?_
  have hstarted := (nextIdx_eq_self (p := fun p : Word × Word => !(p.2 != state)) hlt).mp heq.symm
  have hended' : (!(polls[ended state polls].2 == state)) = true := hended
  rw [bne, hended'] at hstarted
  exact Bool.noConfusion hstarted

lemma waitWhile_deadline (b : Word × Word → Bool) {j : ℕ} (hj : j ≤ deadline timeout polls) :
    waitWhile (fun p => b p && p.1 < timeAt polls 0 + timeout) (polls.drop j) =
      if min (nextIdx (fun p => !b p) j polls) (deadline timeout polls) < polls.length then
        some (min (nextIdx (fun p => !b p) j polls) (deadline timeout polls) - j,
          polls.drop (min (nextIdx (fun p => !b p) j polls) (deadline timeout polls)))
      else none := by
  have hlen := hj.trans (deadline_le_length timeout polls)
  have hstop : nextIdx (fun p => !(b p && decide (p.1 < timeAt polls 0 + timeout))) j polls =
      min (nextIdx (fun p => !b p) j polls) (deadline timeout polls) := by
    have hor : (fun p : Word × Word => !(b p && decide (p.1 < timeAt polls 0 + timeout))) =
        fun p => !b p || !decide (p.1 < timeAt polls 0 + timeout) := by
      funext p
      exact Bool.not_and _ _
    rw [hor, nextIdx_or]
    congr 1
    exact nextIdx_of_le (Nat.zero_le j) hj hlen
  rw [waitWhile_drop _ hlen, hstop]

lemma head?_drop_eq {k : ℕ} (hk : k < polls.length) :
    (polls.drop k).head? = some (timeAt polls k, polls[k].2) := by
  rw [List.head?_drop, timeAt, List.getElem?_eq_getElem hk]
  rfl

/-- Behind the loops the deadline is compared once more. -/
lemma lt_deadline_iff {k : ℕ} (hk : k ≤ deadline timeout polls) (hlen : k < polls.length) :
    timeAt polls k < timeAt polls 0 + timeout ↔ k < deadline timeout polls := by
  have hat : timeAt polls k = polls[k].1 := by
    rw [timeAt, List.getElem?_eq_getElem hlen]
    rfl
  have hself := nextIdx_eq_self (p := fun p : Word × Word =>
    !decide (p.1 < timeAt polls 0 + timeout)) hlen
  rw [nextIdx_of_le (Nat.zero_le k) hk hlen.le, Bool.not_eq_true', decide_eq_false_iff_not,
    ← hat] at hself
  have hself' : deadline timeout polls = k ↔ ¬timeAt polls k < timeAt polls 0 + timeout := hself
  rw [← not_iff_not, ← hself']
  omega

/-! Where the three loops stop. -/

lemma waitWhile_ended : waitWhile (fun p => p.2 == state && p.1 < timeAt polls 0 + timeout) polls =
    if min (ended state polls) (deadline timeout polls) < polls.length then
      some (min (ended state polls) (deadline timeout polls),
        polls.drop (min (ended state polls) (deadline timeout polls)))
    else none :=
  waitWhile_deadline (fun p => p.2 == state) (Nat.zero_le _)

lemma waitWhile_started : waitWhile (fun p => p.2 != state && p.1 < timeAt polls 0 + timeout)
    (polls.drop (min (ended state polls) (deadline timeout polls))) =
    if min (started state polls) (deadline timeout polls) < polls.length then
      some (min (started state polls) (deadline timeout polls) -
          min (ended state polls) (deadline timeout polls),
        polls.drop (min (started state polls) (deadline timeout polls)))
    else none := by
  rw [waitWhile_deadline (fun p => p.2 != state) (Nat.min_le_right _ _), min_nextIdx_min]
  rfl

lemma waitWhile_stopped : waitWhile (fun p => p.2 == state && p.1 < timeAt polls 0 + timeout)
    (polls.drop (min (started state polls) (deadline timeout polls))) =
    if min (stopped state polls) (deadline timeout polls) < polls.length then
      some (min (stopped state polls) (deadline timeout polls) -
          min (started state polls) (deadline timeout polls),
        polls.drop (min (stopped state polls) (deadline timeout polls)))
    else none := by
  rw [waitWhile_deadline (fun p => p.2 == state) (Nat.min_le_right _ _), min_nextIdx_min]
  rfl

lemma value_eq (h : min (stopped state polls) (deadline timeout polls) < polls.length) :
    (if timeAt polls (min (stopped state polls) (deadline timeout polls)) <
        timeAt polls 0 + timeout then
      timeAt polls (min (stopped state polls) (deadline timeout polls)) -
        (if min (started state polls) (deadline timeout polls) -
            min (ended state polls) (deadline timeout polls) = 0 then timeAt polls 0
          else timeAt polls (min (started state polls) (deadline timeout polls)))
      else 0) =
    if stopped state polls < deadline timeout polls then
      timeAt polls (stopped state polls) - timeAt polls (started state polls) else 0 := by
  have hes := ended_le_started state polls
  have hss := started_le_stopped state polls
  simp only [lt_deadline_iff (Nat.min_le_right _ _) h]
  by_cases hlt : stopped state polls < deadline timeout polls
  · have hstarted : started state polls < polls.length := by omega
    have hpolled := ended_lt_started hstarted
    rw [Nat.min_eq_left hlt.le, Nat.min_eq_left (hss.trans hlt.le),
      Nat.min_eq_left ((hes.trans hss).trans hlt.le), if_neg (by omega : ¬started state polls -
        ended state polls = 0)]
  · rw [if_neg hlt, if_neg (by omega)]

/-- `pulseIn` measures the pulse up to the deadline. -/
theorem pulseIn_eq :
    pulseIn state timeout polls = measured state polls (deadline timeout polls) := by
  have hes := ended_le_started state polls
  have hss := started_le_stopped state polls
  cases hpolls : polls with
  | nil => rfl
  | cons p rest =>
    rw [← hpolls]
    have hpos : 0 < polls.length := by
      rw [hpolls]
      exact Nat.zero_lt_succ _
    have hhead : polls.head? = some (timeAt polls 0, polls[0].2) := head?_drop_eq hpos
    have hfirst : min (ended state polls) (deadline timeout polls) ≤
        min (started state polls) (deadline timeout polls) := min_le_min_right _ hes
    have hlast : min (started state polls) (deadline timeout polls) ≤
        min (stopped state polls) (deadline timeout polls) := min_le_min_right _ hss
    unfold pulseIn measured
    simp only [hhead, waitWhile_ended, Option.bind_eq_bind, Option.bind_some]
    by_cases hended : min (ended state polls) (deadline timeout polls) < polls.length
    · rw [if_pos hended, Option.bind_some]
      simp only [waitWhile_started]
      by_cases hstarted : min (started state polls) (deadline timeout polls) < polls.length
      · rw [if_pos hstarted, Option.bind_some]
        simp only [head?_drop_eq hstarted, waitWhile_stopped, Option.bind_some]
        by_cases hstopped : min (stopped state polls) (deadline timeout polls) < polls.length
        · rw [if_pos hstopped, if_pos hstopped, Option.bind_some]
          simp only [head?_drop_eq hstopped, Option.bind_some, value_eq hstopped]
          have hmin₁ : min (ended state polls) (min (stopped state polls) (deadline timeout polls)) =
              min (ended state polls) (deadline timeout polls) := by omega
          have hmin₂ : min (started state polls)
              (min (stopped state polls) (deadline timeout polls)) =
                min (started state polls) (deadline timeout polls) := by omega
          rw [hmin₁, hmin₂]
        · rw [if_neg hstopped, if_neg hstopped]
          rfl
      · rw [if_neg hstarted, if_neg (fun h => hstarted (lt_of_le_of_lt hlast h))]
        rfl
    · rw [if_neg hended, if_neg (fun h => hended (lt_of_le_of_lt (hfirst.trans hlast) h))]
      rfl

/-! ### Readings that are shifted -/

/-- Another clock, ahead of the first one by `c`. -/
def shift (c : Word) (polls : List (Word × Word)) : List (Word × Word) :=
  polls.map fun p => (p.1 + c, p.2)

lemma length_shift (c : Word) : (shift c polls).length = polls.length := List.length_map _

lemma nextIdx_shift (c : Word) (p : Word → Bool) (j : ℕ) :
    nextIdx (fun x => p x.2) j (shift c polls) = nextIdx (fun x => p x.2) j polls := by
  unfold nextIdx shift
  rw [← List.map_drop, List.findIdx_map]
  rfl

lemma timeAt_shift (c : Word) {k : ℕ} (hk : k < polls.length) :
    timeAt (shift c polls) k = timeAt polls k + c := by
  unfold timeAt shift
  rw [List.getElem?_map, List.getElem?_eq_getElem hk]
  rfl

lemma started_shift (c : Word) : started state (shift c polls) = started state polls := by
  unfold started ended
  rw [nextIdx_shift c (fun x => !(x == state)), nextIdx_shift c (fun x => !(x != state))]

lemma stopped_shift (c : Word) : stopped state (shift c polls) = stopped state polls := by
  unfold stopped
  rw [started_shift, nextIdx_shift c (fun x => !(x == state))]

lemma measured_shift (c : Word) {last : ℕ} (hlast : last ≤ polls.length) :
    measured state (shift c polls) last = measured state polls last := by
  have hended : ended state (shift c polls) = ended state polls :=
    nextIdx_shift c (fun x => !(x == state)) 0
  have hss := started_le_stopped state polls
  unfold measured
  rw [hended, started_shift, stopped_shift, length_shift]
  by_cases hlt : stopped state polls < last
  · rw [if_pos hlt, timeAt_shift c (by omega), timeAt_shift c (by omega), if_pos hlt]
    have hdiff : timeAt polls (stopped state polls) + c - (timeAt polls (started state polls) + c) =
        timeAt polls (stopped state polls) - timeAt polls (started state polls) := by
      bv_omega
    rw [hdiff]
  · rw [if_neg hlt, if_neg hlt]

lemma measured_eq_iff {d d' : ℕ} (hd : d ≤ polls.length) (hd' : d' ≤ polls.length) :
    measured state polls d = measured state polls d' ↔
      min (stopped state polls) d = min (stopped state polls) d' ∧
      ((stopped state polls < d ↔ stopped state polls < d') ∨
        timeAt polls (stopped state polls) = timeAt polls (started state polls)) := by
  have hes := ended_le_started state polls
  have hss := started_le_stopped state polls
  have hzero : timeAt polls (stopped state polls) - timeAt polls (started state polls) = 0 ↔
      timeAt polls (stopped state polls) = timeAt polls (started state polls) := by
    constructor
    · intro h
      bv_omega
    · intro h
      bv_omega
  unfold measured
  by_cases hm : min (stopped state polls) d < polls.length
  · by_cases hm' : min (stopped state polls) d' < polls.length
    · rw [if_pos hm, if_pos hm', Option.some_inj, PulseRun.mk.injEq, ← hzero]
      constructor
      · rintro ⟨hvalue, hended, hstarted, hstopped⟩
        refine ⟨by omega, ?_⟩
        by_cases hlt : stopped state polls < d
        · by_cases hlt' : stopped state polls < d'
          · exact Or.inl (iff_of_true hlt hlt')
          · rw [if_pos hlt, if_neg hlt'] at hvalue
            exact Or.inr hvalue
        · by_cases hlt' : stopped state polls < d'
          · rw [if_neg hlt, if_pos hlt'] at hvalue
            exact Or.inr hvalue.symm
          · exact Or.inl (iff_of_false hlt hlt')
      · rintro ⟨hmin, hvalue⟩
        refine ⟨?_, by rw [hmin], by rw [hmin], by rw [hmin]⟩
        rcases hvalue with hiff | hnone
        · simp only [hiff]
        · rw [hnone, ite_self, ite_self]
    · rw [if_pos hm, if_neg hm']
      refine iff_of_false (by simp) (fun h => ?_)
      rw [h.1] at hm
      exact hm' hm
  · by_cases hm' : min (stopped state polls) d' < polls.length
    · rw [if_neg hm, if_pos hm']
      refine iff_of_false (by simp) (fun h => ?_)
      rw [h.1] at hm
      exact hm hm'
    · rw [if_neg hm, if_neg hm']
      exact iff_of_true rfl ⟨by omega, Or.inl (iff_of_false (by omega) (by omega))⟩

/-- The two clocks come to the deadline at the same poll, or both behind the end of the pulse; a
pulse for which no time has been measured makes no difference. -/
def SameDeadline (c state timeout : Word) (polls : List (Word × Word)) : Prop :=
  min (stopped state polls) (deadline timeout (shift c polls)) =
      min (stopped state polls) (deadline timeout polls) ∧
    ((stopped state polls < deadline timeout (shift c polls) ↔
        stopped state polls < deadline timeout polls) ∨
      timeAt polls (stopped state polls) = timeAt polls (started state polls))

lemma pulseIn_shift_iff (c state timeout : Word) (polls : List (Word × Word)) :
    pulseIn state timeout (shift c polls) = pulseIn state timeout polls ↔
      SameDeadline c state timeout polls := by
  have hlen : deadline timeout (shift c polls) ≤ polls.length := by
    rw [← length_shift c]
    exact deadline_le_length timeout (shift c polls)
  rw [pulseIn_eq, pulseIn_eq, measured_shift c hlen]
  exact measured_eq_iff hlen (deadline_le_length timeout polls)

/-- A deadline that wraps is behind the clock at once. -/
lemma deadline_of_wrap (hpolls : polls ≠ [])
    (hwrap : 2 ^ 32 ≤ (timeAt polls 0).toNat + timeout.toNat) : deadline timeout polls = 0 := by
  have hpos := List.length_pos_of_ne_nil hpolls
  have hself := lt_deadline_iff (Nat.zero_le (deadline timeout polls)) hpos
  have hnot : ¬timeAt polls 0 < timeAt polls 0 + timeout := by
    bv_omega
  rw [hself] at hnot
  omega

/-- With such a deadline `pulseIn` measures nothing, whatever the pin does. -/
theorem pulseIn_of_wrap (hpolls : polls ≠ [])
    (hwrap : 2 ^ 32 ≤ (timeAt polls 0).toNat + timeout.toNat) :
    pulseIn state timeout polls = some ⟨0, 0, 0, 0⟩ := by
  have hpos := List.length_pos_of_ne_nil hpolls
  rw [pulseIn_eq, deadline_of_wrap hpolls hwrap, measured]
  simp only [Nat.min_zero, if_pos hpos, Nat.not_lt_zero, if_false, Nat.sub_zero]

lemma deadline_of_no_wrap (hdeadline : (timeAt polls 0).toNat + timeout.toNat < 2 ^ 32)
    (hpolls : ∀ p ∈ polls, timeAt polls 0 ≤ p.1) :
    deadline timeout polls = polls.findIdx fun p => !decide (p.1 - timeAt polls 0 < timeout) := by
  have hbelow : ∀ p ∈ polls, (p.1 < timeAt polls 0 + timeout ↔ p.1 - timeAt polls 0 < timeout) := by
    intro p hp
    have hle := hpolls p hp
    constructor
    · intro h
      bv_omega
    · intro h
      bv_omega
  unfold deadline nextIdx
  rw [List.drop_zero, Nat.zero_add]
  apply le_antisymm
  · apply List.findIdx_le_findIdx
    intro p hp h
    rwa [decide_eq_decide.mpr (hbelow p hp)]
  · apply List.findIdx_le_findIdx
    intro p hp h
    rwa [← decide_eq_decide.mpr (hbelow p hp)]

/-- Two clocks that do not wrap come to the deadline at the same poll. -/
theorem sameDeadline_of_no_wrap (c state : Word)
    (hdeadline : (timeAt polls 0).toNat + timeout.toNat < 2 ^ 32)
    (hshifted : (timeAt polls 0 + c).toNat + timeout.toNat < 2 ^ 32)
    (hpolls : ∀ p ∈ polls, timeAt polls 0 ≤ p.1 ∧ timeAt polls 0 + c ≤ p.1 + c) :
    SameDeadline c state timeout polls := by
  suffices hsame : deadline timeout (shift c polls) = deadline timeout polls by
    unfold SameDeadline
    rw [hsame]
    exact ⟨rfl, Or.inl Iff.rfl⟩
  cases hempty : polls with
  | nil => rfl
  | cons p rest =>
    rw [← hempty]
    have hpos : 0 < polls.length := by
      rw [hempty]
      exact Nat.zero_lt_succ _
    have hfirst := timeAt_shift c hpos
    have hshift : ∀ p ∈ shift c polls, timeAt (shift c polls) 0 ≤ p.1 := by
      intro p hp
      obtain ⟨p', hp', rfl⟩ := List.mem_map.mp hp
      rw [hfirst]
      exact (hpolls p' hp').2
    rw [deadline_of_no_wrap hdeadline (fun p hp => (hpolls p hp).1),
      deadline_of_no_wrap (by rwa [hfirst]) hshift, hfirst]
    unfold shift
    rw [List.findIdx_map]
    congr 1
    funext p
    have hdiff : p.1 + c - (timeAt polls 0 + c) = p.1 - timeAt polls 0 := by
      bv_omega
    dsimp only [Function.comp]
    rw [hdiff]

end Pulse

/-! ### Shifted clocks -/

lemma delayLoop_shift (c startTime period : Word) (readings : List Word) :
    delayLoop (startTime + c) period (readings.map (· + c)) =
      delayLoop startTime period readings := by
  induction readings with
  | nil => rfl
  | cons reading readings ih =>
    have hdiff : reading + c - (startTime + c) = reading - startTime := by
      bv_omega
    rw [List.map_cons, delayLoop, delayLoop, hdiff, ih]

lemma elapsed_eq_iff (s d : Word) : elapsed s (s + d) = d ↔ s.toNat + d.toNat < 2 ^ 32 := by
  unfold elapsed
  split
  · constructor
    · intro _
      bv_omega
    · intro _
      bv_omega
  · constructor
    · intro _
      bv_omega
    · intro _
      bv_omega

lemma elapsed_shift_iff (c s d : Word) :
    elapsed (s + c) (s + d + c) = elapsed s (s + d) ∧ elapsed s (s + d) = d ↔
      s.toNat + d.toNat < 2 ^ 32 ∧ (s + c).toNat + d.toNat < 2 ^ 32 := by
  have hswap : s + d + c = s + c + d := by
    rw [BitVec.add_assoc, BitVec.add_comm d c, ← BitVec.add_assoc]
  rw [hswap, ← elapsed_eq_iff, ← elapsed_eq_iff]
  constructor
  · rintro ⟨hsame, hright⟩
    exact ⟨hright, hsame.trans hright⟩
  · rintro ⟨hright, hright'⟩
    exact ⟨hright'.trans hright.symm, hright⟩

/-- Moving the clocks by `c` changes nothing exactly when the deadline of `pulseIn` is not met
elsewhere, and no clock wraps between the two readings of `Elapsed`. The delay loops do not mind. -/
theorem timing_shift_iff (c state timeout us ms startTime s d : Word)
    (polls : List (Word × Word)) (readings : List Word) :
    (pulseIn state timeout (Pulse.shift c polls) = pulseIn state timeout polls ∧
      delayMicroseconds us (startTime + c) (readings.map (· + c)) =
        delayMicroseconds us startTime readings ∧
      delayMillis ms (startTime + c) (readings.map (· + c)) = delayMillis ms startTime readings ∧
      elapsed (s + c) (s + d + c) = elapsed s (s + d) ∧ elapsed s (s + d) = d) ↔
      Pulse.SameDeadline c state timeout polls ∧
        s.toNat + d.toNat < 2 ^ 32 ∧ (s + c).toNat + d.toNat < 2 ^ 32 := by
  have hmicros : delayMicroseconds us (startTime + c) (readings.map (· + c)) =
      delayMicroseconds us startTime readings := delayLoop_shift c startTime us readings
  have hmillis : delayMillis ms (startTime + c) (readings.map (· + c)) =
      delayMillis ms startTime readings := delayLoop_shift c startTime ms readings
  rw [Pulse.pulseIn_shift_iff, elapsed_shift_iff]
  constructor
  · rintro ⟨hsame, -, -, helapsed⟩
    exact ⟨hsame, helapsed⟩
  · rintro ⟨hsame, helapsed⟩
    exact ⟨hsame, hmicros, hmillis, helapsed⟩

/-- A pulse of 20 microseconds is missed, and 32 units that have passed are told wrong, when the
clock wraps meanwhile. -/
theorem timing_shift_wrap :
    pulseIn 1 100 [(0, 0), (10, 1), (30, 0)] = some ⟨20, 0, 1, 1⟩ ∧
      pulseIn 1 100 (Pulse.shift 0xFFFFFFF0 [(0, 0), (10, 1), (30, 0)]) = some ⟨0, 0, 0, 0⟩ ∧
      elapsed 0 32 = 32 ∧ elapsed (0 + 0xFFFFFFF0) (32 + 0xFFFFFFF0) = 0xFFFFFFDF := by
  decide

end FrameworkXC32
