import FrameworkXC32.Lib.Wave
import FrameworkXC32.Serial.Buffer
import Mathlib.Algebra.Order.BigOperators.Group.Finset

/-!
# From one `SoftwareSerial` to another

The waveform that `write` puts on a line and what `rxRead` makes of it, in ticks of the core timer.
The line is driven with exact bit times. An interrupt comes some ticks after its edge, and a wait of
the receiver ends some ticks late.
-/

namespace FrameworkXC32
open Machine Wave

namespace SoftwareSerial

/-! ### The transmitter -/

/-- The loop over the data bits, from time `now` on. -/
def sendBits (T : ℕ) : ℕ → Byte → ℕ → List Event × ℕ
  | 0, _, now => ([], now)
  | n + 1, b, now =>
    let rest := sendBits T n (b >>> 1) (now + T)
    ((now, b &&& 1 != 0) :: rest.1, rest.2)

/-- `write` at time `now`: what it drives the line to, and the time at which it returns. -/
def write (s : SoftwareSerial) (b : Byte) (now : ℕ) : List Event × ℕ :=
  if !s.txValid then ([], now)
  else
    let b := if s.invert then ~~~b else b
    let T := s.bitTime.toNat
    let data := sendBits T 8 b (now + T)
    ((now, true) :: (now, false) :: (data.1 ++ [(data.2, true)]), data.2 + T)

/-- A list of bytes is sent, each after an idle gap. -/
def sendAll (s : SoftwareSerial) : ℕ → List (ℕ × Byte) → List Event
  | _, [] => []
  | now, (gap, b) :: rest => (s.write b (now + gap)).1 ++ sendAll s (s.write b (now + gap)).2 rest

/-- The level to which the constructor sets the line. -/
def idleLevel (s : SoftwareSerial) : Bool := !s.invert

/-! ### The receiver -/

/-- What is late at one interrupt: its delivery, and the ends of the ten waits of `rxRead`. -/
structure RxTiming where
  latency : ℕ
  overshoot : ℕ → ℕ

/-- All of it. -/
def RxTiming.delay (timing : RxTiming) : ℕ :=
  timing.latency + ∑ i ∈ Finset.range 10, timing.overshoot i

/-- The time of the sample of bit `k`, the start bit being bit 0, for an edge at time `e`. -/
def sampleTime (bitTime : Word) (timing : RxTiming) (e : ℕ) : ℕ → ℕ
  | 0 => e + timing.latency + (bitTime / 9).toNat + timing.overshoot 0
  | k + 1 => sampleTime bitTime timing e k + bitTime.toNat + timing.overshoot (k + 1)

def stopTime (bitTime : Word) (timing : RxTiming) (e : ℕ) : ℕ :=
  sampleTime bitTime timing e 8 + (bitTime * 8 / 9).toNat + timing.overshoot 9

/-- The edge that `enableRx` asks for. -/
def selects (s : SoftwareSerial) (before after : Bool) : Bool :=
  if s.invert then !before && after else before && !after

/-- `rxRead` after an edge at time `e`, on a line whose level at time `t` is `line t`, with the time
at which it returns. -/
def interrupt (timing : RxTiming) (e : ℕ) (line : ℕ → Bool) (s : SoftwareSerial) :
    Option (SoftwareSerial × ℕ) :=
  let start := line (sampleTime s.bitTime timing e 0)
  let bits := (List.range 8).map fun i => line (sampleTime s.bitTime timing e (i + 1))
  let stop := line (stopTime s.bitTime timing e)
  (s.rxRead start bits stop).map fun t =>
    (t, if start then sampleTime s.bitTime timing e 0 else stopTime s.bitTime timing e)

/-- The receiver at a line that is at `level` and whose events are still to come. Edges before
time `free` are discarded, and `k` interrupts have been served. -/
def receive (timing : ℕ → RxTiming) : Bool → List Event → ℕ → ℕ → SoftwareSerial →
    Option SoftwareSerial
  | _, [], _, _, s => some s
  | level, (e, v) :: es, free, k, s =>
    if s.selects level v && free ≤ e then
      (interrupt (timing k) e (levelAt v es) s).bind fun r =>
        receive timing v es (r.2 + 1) (k + 1) r.1
    else receive timing v es free k s

variable {s tx rx : SoftwareSerial}

/-! ### The frame of a byte -/

/-- The levels of a frame behind its start bit. -/
def frameLevels (b : Byte) : List Bool := (List.range 8).map b.getLsbD ++ [true]

lemma sendBits_eq (T n : ℕ) (b : Byte) (now : ℕ) :
    sendBits T n b now = (cells T now ((List.range n).map b.getLsbD), now + n * T) := by
  induction n generalizing b now with
  | zero => simp [sendBits, cells]
  | succ n ih =>
    have hbit : (b &&& 1 != 0) = b.getLsbD 0 := by
      revert b
      decide
    have hshift : ∀ i, (b >>> 1).getLsbD i = b.getLsbD (i + 1) := by
      intro i
      rw [BitVec.getLsbD_ushiftRight, Nat.add_comm]
    have hrest : (List.range (n + 1)).map b.getLsbD =
        b.getLsbD 0 :: (List.range n).map (b >>> 1).getLsbD := by
      rw [List.range_succ_eq_map, List.map_cons, List.map_map]
      congr 1
      apply List.map_congr_left
      intro i _
      exact (hshift i).symm
    rw [sendBits, ih, hrest, cells, hbit]
    congr 1
    rw [Nat.succ_mul]
    dsimp only
    omega

/-- A frame: the line goes high and low at once, and then takes the levels of the frame. -/
lemma write_eq (hvalid : tx.txValid = true) (b : Byte) (now : ℕ) :
    tx.write b now = ((now, true) :: (now, false) ::
      cells tx.bitTime.toNat (now + tx.bitTime.toNat) (frameLevels (if tx.invert then ~~~b else b)),
      now + 10 * tx.bitTime.toNat) := by
  unfold write
  rw [hvalid]
  simp only [Bool.not_true, Bool.false_eq_true, if_false]
  rw [sendBits_eq, frameLevels, cells_append, List.length_map, List.length_range]
  refine Prod.ext rfl ?_
  dsimp only
  omega

lemma shiftIn_bits (b : Byte) : shiftIn ((List.range 8).map b.getLsbD) 0 = b := by
  revert b
  decide +kernel

/-! ### The samples -/

/-- What is late stays within the part of a bit time that the receiver leaves for it. -/
def OnTime (T : ℕ) (timing : RxTiming) : Prop :=
  1 ≤ timing.delay ∧ timing.delay < T - T / 9

section Samples

variable {T : Word} {timing : RxTiming}

lemma sampleTime_eq (e k : ℕ) : sampleTime T timing e k =
    e + T.toNat / 9 + k * T.toNat +
      (timing.latency + ∑ i ∈ Finset.range (k + 1), timing.overshoot i) := by
  induction k with
  | zero =>
    have hwait : (T / 9).toNat = T.toNat / 9 := BitVec.toNat_udiv
    rw [sampleTime, hwait, Finset.sum_range_one]
    omega
  | succ k ih =>
    rw [sampleTime, ih, Finset.sum_range_succ _ (k + 1), Nat.succ_mul]
    omega

lemma sampleTime_in_cell (htime : OnTime T.toNat timing) (e : ℕ) {k : ℕ} (hk : k < 10) :
    e + k * T.toNat ≤ sampleTime T timing e k ∧
      sampleTime T timing e k < e + (k + 1) * T.toNat := by
  have hpart : ∑ i ∈ Finset.range (k + 1), timing.overshoot i ≤
      ∑ i ∈ Finset.range 10, timing.overshoot i :=
    Finset.sum_le_sum_of_subset (Finset.range_subset_range.mpr hk)
  obtain ⟨-, hdelay⟩ := htime
  unfold RxTiming.delay at hdelay
  rw [sampleTime_eq, Nat.succ_mul]
  omega

lemma stopTime_in_cell (hlo : 9 ≤ T.toNat) (hT : T.toNat < 2 ^ 29) (htime : OnTime T.toNat timing)
    (e : ℕ) : e + 9 * T.toNat ≤ stopTime T timing e ∧
      stopTime T timing e < e + 10 * T.toNat := by
  have hwait : (T * 8 / 9).toNat = T.toNat * 8 / 9 := by
    have hmul : (T * 8).toNat = T.toNat * 8 := by
      rw [BitVec.toNat_mul]
      exact Nat.mod_eq_of_lt (by change T.toNat * 8 < _; omega)
    rw [BitVec.toNat_udiv, hmul]
    rfl
  obtain ⟨hone, hdelay⟩ := htime
  unfold RxTiming.delay at hone hdelay
  rw [Finset.sum_range_succ] at hone hdelay
  unfold stopTime
  rw [sampleTime_eq, hwait]
  simp only [Nat.reduceAdd]
  omega

end Samples

/-! ### One frame at the receiver -/

/-- A receiver whose bit time suits its interrupts. -/
structure Listens (timing : ℕ → RxTiming) (s : SoftwareSerial) : Prop where
  valid : s.rxValid = true
  inBuffer : s.InBuffer
  bitTime_ge : 9 ≤ s.bitTime.toNat
  bitTime_lt : s.bitTime.toNat < 2 ^ 29
  onTime : ∀ k, OnTime s.bitTime.toNat (timing k)

variable {timing : ℕ → RxTiming}

lemma Listens.push (h : Listens timing s) (hroom : s.unreadCount + 1 < s.buffSize.toNat)
    (c : Byte) : Listens timing (s.push c) := by
  refine ⟨h.valid, ?_, h.bitTime_ge, h.bitTime_lt, h.onTime⟩
  have hstore := store_eq_push h.inBuffer h.valid hroom (if s.invert then ~~~c else c)
  have hkept := h.inBuffer.store hstore
  cases hinvert : s.invert <;> simpa [hinvert] using hkept

/-- Edges that come while `rxRead` runs are discarded. -/
lemma receive_discards {es : List Event} {free : ℕ} (hbefore : ∀ e ∈ es, e.1 < free)
    (level : Bool) (later : List Event) (k : ℕ) (s : SoftwareSerial) :
    receive timing level (es ++ later) free k s =
      receive timing (levelAfter level es) later free k s := by
  induction es generalizing level with
  | nil => rfl
  | cons e es ih =>
    obtain ⟨u, v⟩ := e
    have hu : u < free := hbefore (u, v) List.mem_cons_self
    rw [List.cons_append, receive, if_neg (by simp [hu])]
    exact ih (fun e he => hbefore e (List.mem_cons_of_mem _ he)) v

lemma receive_other {level v : Bool} (h : s.selects level v = false) (e : ℕ) (es : List Event)
    (free k : ℕ) : receive timing level ((e, v) :: es) free k s =
      receive timing v es free k s := by
  rw [receive, if_neg (by simp [h])]

lemma interrupt_frame (h : Listens timing s) {e k : ℕ} {c : Byte} {later : List Event}
    (hlater : StartsAfter (e + 10 * s.bitTime.toNat) later) {line : ℕ → Bool}
    (hline : ∀ t, e ≤ t → line t = levelAt false
      (cells s.bitTime.toNat (e + s.bitTime.toNat) (frameLevels c) ++ later) t) :
    interrupt (timing k) e line s =
      (s.store c).map fun t => (t, stopTime s.bitTime (timing k) e) := by
  have hlength : (frameLevels c).length = 9 := rfl
  have hafter : StartsAfter (e + s.bitTime.toNat + (frameLevels c).length * s.bitTime.toNat)
      later := by
    rw [hlength]
    exact hlater.mono (by omega)
  have hcells : StartsAfter (e + s.bitTime.toNat)
      (cells s.bitTime.toNat (e + s.bitTime.toNat) (frameLevels c) ++ later) :=
    (startsAfter_cells _ _ _).append (hlater.mono (by omega))
  have hsample : ∀ {j : ℕ}, j < 10 → e + j * s.bitTime.toNat ≤ sampleTime s.bitTime (timing k) e j ∧
      sampleTime s.bitTime (timing k) e j < e + (j + 1) * s.bitTime.toNat :=
    fun hj => sampleTime_in_cell (h.onTime k) e hj
  have hstart : line (sampleTime s.bitTime (timing k) e 0) = false := by
    obtain ⟨hlo, hhi⟩ := hsample (j := 0) (by omega)
    rw [hline _ (by omega)]
    exact levelAt_before (by omega) hcells false
  have hbit : ∀ i, i < 8 → line (sampleTime s.bitTime (timing k) e (i + 1)) = c.getLsbD i := by
    intro i hi
    obtain ⟨hlo, hhi⟩ := hsample (j := i + 1) (by omega)
    rw [Nat.succ_mul] at hlo hhi
    have hlevel : (frameLevels c)[i]? = some (c.getLsbD i) := by
      unfold frameLevels
      rw [List.getElem?_append_left (by simpa using hi), List.getElem?_map,
        List.getElem?_range hi]
      rfl
    rw [hline _ (by omega)]
    exact levelAt_cells hlevel (by omega) (by rw [Nat.succ_mul] at hhi ⊢; omega) hafter false
  have hstop : line (stopTime s.bitTime (timing k) e) = true := by
    obtain ⟨hlo, hhi⟩ := stopTime_in_cell h.bitTime_ge h.bitTime_lt (h.onTime k) e
    have hlevel : (frameLevels c)[8]? = some true := by
      unfold frameLevels
      rw [List.getElem?_append_right (by simp)]
      rfl
    rw [hline _ (by omega)]
    exact levelAt_cells hlevel (by omega) (by omega) hafter false
  have hbits : (List.range 8).map (fun i => line (sampleTime s.bitTime (timing k) e (i + 1))) =
      (List.range 8).map c.getLsbD :=
    List.map_congr_left fun i hi => hbit i (List.mem_range.mp hi)
  unfold interrupt
  dsimp only
  rw [hstart, hbits, hstop]
  unfold rxRead
  rw [if_neg (by decide), if_pos rfl, shiftIn_bits]
  rfl

/-- A frame whose first selected edge finds the receiver free ends up in its buffer; `early` are
the events at the time of that edge. -/
lemma receive_frame (h : Listens timing s) {level v : Bool} (hselects : s.selects level v = true)
    {e free : ℕ} (hfree : free ≤ e) (k : ℕ) (b : Byte) (early : List Event) {later : List Event}
    (hearly : ∀ x ∈ early, x.1 = e) (hlow : levelAfter v early = false)
    (hlater : StartsAfter (e + 10 * s.bitTime.toNat) later)
    (hroom : s.unreadCount + 1 < s.buffSize.toNat) :
    receive timing level ((e, v) :: (early ++ (cells s.bitTime.toNat (e + s.bitTime.toNat)
        (frameLevels (if s.invert then ~~~b else b)) ++ later))) free k s =
      receive timing true later (stopTime s.bitTime (timing k) e + 1) (k + 1) (s.push b) := by
  have hline : ∀ t, e ≤ t → levelAt v (early ++ (cells s.bitTime.toNat (e + s.bitTime.toNat)
        (frameLevels (if s.invert then ~~~b else b)) ++ later)) t =
      levelAt false (cells s.bitTime.toNat (e + s.bitTime.toNat)
        (frameLevels (if s.invert then ~~~b else b)) ++ later) t := by
    intro t ht
    rw [levelAt_append fun x hx => by rw [hearly x hx]; exact ht, hlow]
  have hbyte : (if s.invert then ~~~(if s.invert then ~~~b else b)
      else if s.invert then ~~~b else b) = b := by
    cases s.invert <;> simp
  have hstore := store_eq_push h.inBuffer h.valid hroom (if s.invert then ~~~b else b)
  rw [hbyte] at hstore
  have hrun := interrupt_frame h (k := k) hlater hline
  rw [hstore, Option.map_some] at hrun
  have hstop := (stopTime_in_cell h.bitTime_ge h.bitTime_lt (h.onTime k) e).1
  rw [receive, if_pos (by simp [hselects, hfree]), hrun, Option.bind_some, ← List.append_assoc,
    receive_discards, levelAfter_append]
  · dsimp only
    unfold frameLevels
    rw [levelAfter_cells]
  · intro x hx
    rcases List.mem_append.mp hx with hx | hx
    · rw [hearly x hx]
      dsimp only
      omega
    · have hend := cells_before_end _ _ _ x hx
      have hlength : (frameLevels (if s.invert then ~~~b else b)).length = 9 := rfl
      rw [hlength] at hend
      dsimp only
      omega

/-! ### Whole transmissions -/

lemma startsAfter_write (hvalid : tx.txValid = true) (b : Byte) (now : ℕ) :
    StartsAfter now (tx.write b now).1 := by
  rw [write_eq hvalid]
  intro x hx
  simp only [List.mem_cons] at hx
  rcases hx with rfl | rfl | hx
  · exact Nat.le_refl now
  · exact Nat.le_refl now
  · exact Nat.le_trans (Nat.le_add_right _ _) (startsAfter_cells _ _ _ x hx)

lemma startsAfter_sendAll (hvalid : tx.txValid = true) (now : ℕ) (sends : List (ℕ × Byte)) :
    StartsAfter now (sendAll tx now sends) := by
  induction sends generalizing now with
  | nil => simp [sendAll, StartsAfter]
  | cons send rest ih =>
    obtain ⟨gap, b⟩ := send
    refine StartsAfter.append ((startsAfter_write hvalid b _).mono (Nat.le_add_right _ _)) ?_
    refine (ih _).mono ?_
    rw [write_eq hvalid]
    dsimp only
    omega

lemma sendAll_cons (hvalid : tx.txValid = true) (now gap : ℕ) (b : Byte)
    (rest : List (ℕ × Byte)) : sendAll tx now ((gap, b) :: rest) =
      (now + gap, true) :: (now + gap, false) ::
        (cells tx.bitTime.toNat (now + gap + tx.bitTime.toNat)
            (frameLevels (if tx.invert then ~~~b else b)) ++
          sendAll tx (now + gap + 10 * tx.bitTime.toNat) rest) := by
  rw [sendAll, write_eq hvalid]
  rfl

/-- Both ends agree. -/
structure Linked (tx rx : SoftwareSerial) : Prop where
  valid : tx.txValid = true
  bitTime : tx.bitTime = rx.bitTime
  invert : tx.invert = rx.invert

lemma Linked.push (h : Linked tx rx) (c : Byte) : Linked tx (rx.push c) :=
  ⟨h.valid, h.bitTime, h.invert⟩

/-- Without inversion the line is high between two frames, and every frame starts with the falling
edge for which the receiver waits. -/
lemma receive_plain (hlink : Linked tx rx) (h : Listens timing rx) (hplain : rx.invert = false)
    (sends : List (ℕ × Byte)) {now free : ℕ} (hfree : free ≤ now) (k : ℕ)
    (hroom : rx.unreadCount + sends.length < rx.buffSize.toNat) :
    ∃ rx', receive timing true (sendAll tx now sends) free k rx = some rx' ∧
      rx'.unread = rx.unread ++ sends.map Prod.snd := by
  induction sends generalizing now free k rx with
  | nil => exact ⟨rx, rfl, by simp⟩
  | cons send rest ih =>
    obtain ⟨gap, b⟩ := send
    rw [List.length_cons] at hroom
    have hone : rx.unreadCount + 1 < rx.buffSize.toNat := by omega
    have hlater : StartsAfter (now + gap + 10 * rx.bitTime.toNat)
        (sendAll tx (now + gap + 10 * tx.bitTime.toNat) rest) := by
      rw [← hlink.bitTime]
      exact startsAfter_sendAll hlink.valid _ rest
    have hselects : rx.selects true false = true := by simp [selects, hplain]
    have hframe := receive_frame h hselects (Nat.le_trans hfree (Nat.le_add_right now gap)) k b []
      (by simp) rfl hlater hone
    have hstop := (stopTime_in_cell h.bitTime_ge h.bitTime_lt (h.onTime k) (now + gap)).2
    have hcount := (unreadCount_push h.inBuffer h.valid hone b).2
    have hfree' : stopTime rx.bitTime (timing k) (now + gap) + 1 ≤
        now + gap + 10 * tx.bitTime.toNat := by
      rw [hlink.bitTime]
      omega
    obtain ⟨rx', hrest, hunread⟩ := ih (hlink.push b) (h.push hone b) hplain hfree' (k + 1)
      (by change (rx.push b).unreadCount + _ < rx.buffSize.toNat; omega)
    refine ⟨rx', ?_, ?_⟩
    · rw [sendAll_cons hlink.valid, receive_other (by simp [selects, hplain]), hlink.bitTime,
        hlink.invert]
      rw [hlink.bitTime] at hframe hrest
      exact hframe.trans hrest
    · rw [hunread, unread_push h.inBuffer h.valid hone, List.append_assoc]
      rfl

/-- A rising edge within a frame is taken for a start bit, and the level behind it refused. -/
lemma receive_cells_deaf (h : Listens timing s) (hinvert : s.invert = true) (vs : List Bool)
    (level : Bool) (u free k : ℕ) {later : List Event}
    (hlater : StartsAfter (u + vs.length * s.bitTime.toNat) later) :
    ∃ free' k', receive timing level (cells s.bitTime.toNat u vs ++ later) free k s =
      receive timing (levelAfter level (cells s.bitTime.toNat u vs)) later free' k' s := by
  induction vs generalizing level u free k with
  | nil => exact ⟨free, k, rfl⟩
  | cons v vs ih =>
    have hrest : StartsAfter (u + s.bitTime.toNat + vs.length * s.bitTime.toNat) later := by
      rw [List.length_cons, Nat.succ_mul] at hlater
      exact hlater.mono (by omega)
    rw [cells, List.cons_append, receive]
    split
    · rename_i hedge
      have hv : v = true := by
        simp only [selects, hinvert, if_true, Bool.and_eq_true] at hedge
        exact hedge.1.2
      subst hv
      have hnext : StartsAfter (u + s.bitTime.toNat)
          (cells s.bitTime.toNat (u + s.bitTime.toNat) vs ++ later) :=
        (startsAfter_cells _ _ _).append (hrest.mono (Nat.le_add_right _ _))
      have hsample := (sampleTime_in_cell (h.onTime k) u (k := 0) (by decide)).2
      have hhigh : levelAt true (cells s.bitTime.toNat (u + s.bitTime.toNat) vs ++ later)
          (sampleTime s.bitTime (timing k) u 0) = true := levelAt_before (by omega) hnext true
      have hrefused : interrupt (timing k) u (levelAt true
          (cells s.bitTime.toNat (u + s.bitTime.toNat) vs ++ later)) s =
            some (s, sampleTime s.bitTime (timing k) u 0) := by
        unfold interrupt rxRead
        rw [hhigh]
        rfl
      rw [hrefused, Option.bind_some]
      exact ih _ _ _ _ hrest
    · exact ih _ _ _ _ hrest

/-- With inversion the line stays high behind a frame, and no rising edge starts one any more. -/
lemma receive_deaf (hlink : Linked tx rx) (h : Listens timing rx) (hinvert : rx.invert = true)
    (sends : List (ℕ × Byte)) (now free k : ℕ) :
    receive timing true (sendAll tx now sends) free k rx = some rx := by
  induction sends generalizing now free k with
  | nil => rfl
  | cons send rest ih =>
    obtain ⟨gap, b⟩ := send
    rw [sendAll_cons hlink.valid, receive_other (by simp [selects, hinvert]),
      receive_other (by simp [selects, hinvert]), hlink.bitTime]
    have hlater : StartsAfter (now + gap + rx.bitTime.toNat +
        (frameLevels (if tx.invert then ~~~b else b)).length * rx.bitTime.toNat)
        (sendAll tx (now + gap + 10 * rx.bitTime.toNat) rest) := by
      refine (startsAfter_sendAll hlink.valid _ rest).mono ?_
      change _ + 9 * _ ≤ _
      omega
    obtain ⟨free', k', hcells⟩ := receive_cells_deaf h hinvert
      (frameLevels (if tx.invert then ~~~b else b)) false (now + gap + rx.bitTime.toNat) free k
      hlater
    rw [hcells]
    unfold frameLevels
    rw [levelAfter_cells]
    exact ih _ free' k'

lemma receive_all (hlink : Linked tx rx) (h : Listens timing rx) (sends : List (ℕ × Byte))
    (hroom : rx.unreadCount + sends.length < rx.buffSize.toNat) :
    ∃ rx', receive timing tx.idleLevel (sendAll tx 0 sends) 0 0 rx = some rx' ∧
      rx'.unread = rx.unread ++
        if rx.invert then (sends.map Prod.snd).take 1 else sends.map Prod.snd := by
  unfold idleLevel
  rw [hlink.invert]
  cases hinvert : rx.invert with
  | false =>
    exact receive_plain hlink h hinvert sends (Nat.le_refl 0) 0 hroom
  | true =>
    cases sends with
    | nil => exact ⟨rx, rfl, by simp⟩
    | cons send rest =>
      obtain ⟨gap, b⟩ := send
      rw [List.length_cons] at hroom
      have hone : rx.unreadCount + 1 < rx.buffSize.toNat := by omega
      have hlater : StartsAfter (0 + gap + 10 * rx.bitTime.toNat)
          (sendAll tx (0 + gap + 10 * tx.bitTime.toNat) rest) := by
        rw [← hlink.bitTime]
        exact startsAfter_sendAll hlink.valid _ rest
      have hselects : rx.selects false true = true := by simp [selects, hinvert]
      have hframe := receive_frame h hselects (Nat.zero_le (0 + gap)) 0 b [(0 + gap, false)]
        (by simp) rfl hlater hone
      refine ⟨rx.push b, ?_, ?_⟩
      · rw [sendAll_cons hlink.valid, hlink.bitTime, hlink.invert]
        rw [hlink.bitTime] at hframe
        refine hframe.trans ?_
        exact receive_deaf (hlink.push b) (h.push hone b) hinvert rest _ _ _
      · rw [unread_push h.inBuffer h.valid hone]
        rfl

/-- A receiver with an empty buffer, on a line with exact bit times, receives what the transmitter
has sent since its construction, exactly when the logic is not inverted or at most one byte was
sent. -/
theorem received_iff (hlink : Linked tx rx) (h : Listens timing rx) (hempty : rx.unread = [])
    (sends : List (ℕ × Byte)) (hroom : sends.length < rx.buffSize.toNat) :
    ∃ rx', receive timing tx.idleLevel (sendAll tx 0 sends) 0 0 rx = some rx' ∧
      (rx'.unread = sends.map Prod.snd ↔ rx.invert = false ∨ sends.length ≤ 1) := by
  have hcount : rx.unreadCount = 0 := by
    rw [← length_unread h.valid, hempty]
    rfl
  obtain ⟨rx', hreceive, hunread⟩ := receive_all hlink h sends (by omega)
  refine ⟨rx', hreceive, ?_⟩
  rw [hunread, hempty, List.nil_append]
  cases rx.invert with
  | false => simp
  | true =>
    rw [if_pos rfl]
    constructor
    · intro htake
      have hlength := congrArg List.length htake
      rw [List.length_take, List.length_map] at hlength
      exact Or.inr (by omega)
    · intro hone
      apply List.take_of_length_le
      rw [List.length_map]
      simpa using hone

/-- One end of a line with nine ticks for a bit and a buffer of 64 bytes, which can be either. -/
def lineEnd (invert : Bool) : SoftwareSerial where
  rxPin := 2
  txPin := 1
  txEnablePin := 0
  rxValid := true
  rxEnabled := true
  txValid := true
  txEnabled := false
  invert := invert
  overflow := false
  bitTime := 9
  inPos := 0
  outPos := 0
  buffSize := 64
  allocated := true
  buffer := fun _ => 0
  rxId := 0

/-- Every interrupt is one tick late. -/
def oneLate : ℕ → RxTiming := fun _ => ⟨1, fun _ => 0⟩

lemma linked_lineEnd (invert : Bool) : Linked (lineEnd invert) (lineEnd invert) := ⟨rfl, rfl, rfl⟩

lemma listens_lineEnd (invert : Bool) : Listens oneLate (lineEnd invert) := by
  have hdelay : ∀ k, (oneLate k).delay = 1 := by
    intro k
    simp [RxTiming.delay, oneLate]
  cases invert with
  | _ =>
    refine ⟨rfl, fun _ => ⟨by decide, by decide, by decide⟩, by decide, by decide, fun k => ?_⟩
    unfold OnTime
    rw [hdelay]
    decide

/-- Two bytes, the second one after a pause. -/
theorem received_of_two : ∃ rx', receive oneLate true
      (sendAll (lineEnd false) 0 [(0, 0x55), (20, 0x0f)]) 0 0 (lineEnd false) = some rx' ∧
    rx'.unread = [0x55, 0x0f] := by
  obtain ⟨rx', hreceive, hiff⟩ := received_iff (linked_lineEnd false) (listens_lineEnd false)
    (by decide) [(0, 0x55), (20, 0x0f)] (by decide)
  exact ⟨rx', hreceive, hiff.mpr (Or.inl rfl)⟩

/-- Of two bytes sent with inverted logic the second is lost. -/
theorem inverted_byte_lost : ¬ ∀ (tx rx rx' : SoftwareSerial) (timing : ℕ → RxTiming)
    (sends : List (ℕ × Byte)), Linked tx rx → Listens timing rx → rx.unread = [] →
    sends.length < rx.buffSize.toNat →
    receive timing tx.idleLevel (sendAll tx 0 sends) 0 0 rx = some rx' →
    rx'.unread = sends.map Prod.snd := by
  intro h
  have hrun : (receive oneLate false (sendAll (lineEnd true) 0 [(0, 0x55), (20, 0x0f)]) 0 0
      (lineEnd true)).map unread = some [0x55] := by decide +kernel
  obtain ⟨rx', hreceive, hunread⟩ := Option.map_eq_some_iff.mp hrun
  have hall := h (lineEnd true) (lineEnd true) rx' oneLate [(0, 0x55), (20, 0x0f)]
    (linked_lineEnd true) (listens_lineEnd true) (by decide) (by decide) hreceive
  rw [hunread] at hall
  exact absurd hall (by decide)

end SoftwareSerial

end FrameworkXC32
