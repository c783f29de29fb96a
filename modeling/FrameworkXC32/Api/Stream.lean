import FrameworkXC32.Api.RingFifo

/-!
# `Stream`

The class of `Stream.h`: the functions that a derived class provides, and the parsers over them.
What they promise is said by a stream that is the list of its unread bytes.
-/

namespace FrameworkXC32
open Machine

/-- The virtual functions of a derived class whose objects have the states `σ`. -/
structure Stream (σ : Type) where
  available : σ → ℤ × σ
  read : σ → ℤ × σ
  peek : σ → ℤ × σ

inductive StreamCall
  | available
  | read
  | peek
deriving DecidableEq, Repr

inductive LookaheadMode
  | skipAll
  | skipNone
  | skipWhitespace
deriving DecidableEq, Repr

namespace Stream

variable {σ : Type} (S : Stream σ)

def exec (s : σ) : StreamCall → ℤ × σ
  | .available => S.available s
  | .read => S.read s
  | .peek => S.peek s

section Parsers

/-! The readings of `millis()` are `clock 0`, `clock 1` and so on, and `t` of them have been taken.
A loop makes at most as many turns as its last argument but one allows. -/

variable (clock : ℕ → Word) (timeout : Word)

/-- The loop of `timedPeek`. -/
def timedPeekLoop (startMillis : Word) : ℕ → ℕ → σ → Option (ℤ × ℕ × σ)
  | 0, _, _ => none
  | polls + 1, t, s =>
    let (c, s) := S.peek s
    if c ≥ 0 then some (c, t, s)
    else if clock t - startMillis < timeout then timedPeekLoop startMillis polls (t + 1) s
    else some (-1, t + 1, s)

def timedPeek (polls t : ℕ) (s : σ) : Option (ℤ × ℕ × σ) :=
  timedPeekLoop S clock timeout (clock t) polls (t + 1) s

/-- The characters on which `peekNextDigit` returns. -/
def stopsAt (detectDecimal : Bool) (c : ℤ) : Bool :=
  c < 0 || c = 0x2d || (0x30 ≤ c && c ≤ 0x39) || detectDecimal && c = 0x2e

/-- A character that is no digit is skipped. -/
def skips (lookahead : LookaheadMode) (c : ℤ) : Bool :=
  match lookahead with
  | .skipNone => false
  | .skipWhitespace => c = 0x20 || c = 0x09 || c = 0x0d || c = 0x0a
  | .skipAll => true

def peekNextDigit (lookahead : LookaheadMode) (detectDecimal : Bool) (polls : ℕ) :
    ℕ → ℕ → σ → Option (ℤ × ℕ × σ)
  | 0, _, _ => none
  | turns + 1, t, s => do
    let (c, t, s) ← timedPeek S clock timeout polls t s
    if stopsAt detectDecimal c then some (c, t, s)
    else if skips lookahead c then
      peekNextDigit lookahead detectDecimal polls turns t (S.read s).2
    else some (-1, t, s)

/-- The call returns. -/
def Terminates (lookahead : LookaheadMode) (detectDecimal : Bool) (t : ℕ) (s : σ) : Prop :=
  ∃ polls turns, (peekNextDigit S clock timeout lookahead detectDecimal polls turns t s).isSome

/-- From every reading on the clock passes the timeout. -/
def Passes : Prop := ∀ t, ∃ n, ¬ clock (t + n + 1) - clock t < timeout

end Parsers

/-- The contract of the three functions in one state, with nothing arriving meanwhile. -/
structure Contract (s : σ) : Prop where
  peek_none : (S.peek s).1 = -1 ↔ (S.available s).1 = 0
  read_none : (S.read s).1 = -1 ↔ (S.available s).1 = 0
  /-- What `peek` returns otherwise is a byte, and the one that the next `read` returns. -/
  peek_byte : (S.peek s).1 ≠ -1 →
    0 ≤ (S.peek s).1 ∧ (S.peek s).1 ≤ 255 ∧ (S.read (S.peek s).2).1 = (S.peek s).1
  /-- `peek` consumes nothing: all later calls answer as they do without it. -/
  peek_keeps : ∀ calls, Mealy.answers S.exec (S.peek s).2 calls = Mealy.answers S.exec s calls

/-! ### The stream of a list -/

/-- The stream whose unread bytes are a list. -/
def ofList : Stream (List Byte) where
  available := fun l => (l.length, l)
  read := fun l => (RingOp.offered l.head?, l.tail)
  peek := fun l => (RingOp.offered l.head?, l)

/-- Every call answers as the stream of the list does, and keeps the relation. -/
def Delivers (R : σ → List Byte → Prop) : Prop :=
  ∀ s l, R s l → ∀ call, (S.exec s call).1 = (ofList.exec l call).1 ∧
    R (S.exec s call).2 (ofList.exec l call).2

variable {S} {R : σ → List Byte → Prop} {clock : ℕ → Word} {timeout : Word}

lemma Delivers.answers_eq (h : S.Delivers R) {s : σ} {l : List Byte} (hs : R s l)
    (calls : List StreamCall) :
    Mealy.answers S.exec s calls = Mealy.answers ofList.exec l calls := by
  induction calls generalizing s l with
  | nil => rfl
  | cons call calls ih =>
    obtain ⟨hanswer, hnext⟩ := h s l hs call
    rw [Mealy.answers, Mealy.answers, hanswer, ih hnext]

lemma Delivers.contract (h : S.Delivers R) {s : σ} {l : List Byte} (hs : R s l) :
    S.Contract s := by
  have havailable : (S.available s).1 = l.length := (h s l hs .available).1
  have hread : (S.read s).1 = RingOp.offered l.head? := (h s l hs .read).1
  obtain ⟨hpeek, hkept⟩ := h s l hs .peek
  change (S.peek s).1 = RingOp.offered l.head? at hpeek
  change R (S.peek s).2 l at hkept
  have hagain : (S.read (S.peek s).2).1 = RingOp.offered l.head? := (h _ l hkept .read).1
  have hnone : RingOp.offered l.head? = -1 ↔ (l.length : ℤ) = 0 := by
    rw [RingBufferN.offered_eq_neg_one_iff, ← List.length_eq_zero_iff]
    omega
  refine ⟨by rw [hpeek, havailable, hnone], by rw [hread, havailable, hnone], ?_, ?_⟩
  · rw [hagain, hpeek]
    intro hsome
    cases l with
    | nil => exact absurd rfl hsome
    | cons c l =>
      have hc := c.isLt
      change 0 ≤ ((c.toNat : ℕ) : ℤ) ∧ ((c.toNat : ℕ) : ℤ) ≤ 255 ∧ _
      refine ⟨by omega, by omega, rfl⟩
  · intro calls
    rw [h.answers_eq hkept, h.answers_eq hs]

/-! ### Termination of the parsers -/

lemma timedPeek_cons (h : S.Delivers R) {s : σ} {c : Byte} {l : List Byte} (hs : R s (c :: l))
    (polls t : ℕ) : timedPeek S clock timeout (polls + 1) t s =
      some ((c.toNat : ℤ), t + 1, (S.peek s).2) := by
  have hpeek : (S.peek s).1 = (c.toNat : ℤ) := (h s (c :: l) hs .peek).1
  unfold timedPeek timedPeekLoop
  dsimp only
  rw [hpeek]
  simp

lemma timedPeekLoop_nil (h : S.Delivers R) (startMillis : Word) {n t : ℕ}
    (hpass : ¬ clock (t + n) - startMillis < timeout) {s : σ} (hs : R s []) :
    ∃ u s', timedPeekLoop S clock timeout startMillis (n + 1) t s = some (-1, u, s') ∧ R s' [] := by
  induction n generalizing t s with
  | zero =>
    obtain ⟨hpeek, hkept⟩ := h s [] hs .peek
    change (S.peek s).1 = -1 at hpeek
    refine ⟨t + 1, (S.peek s).2, ?_, hkept⟩
    unfold timedPeekLoop
    dsimp only
    rw [hpeek]
    simp only [Nat.add_zero] at hpass
    simp [hpass]
  | succ n ih =>
    obtain ⟨hpeek, hkept⟩ := h s [] hs .peek
    change (S.peek s).1 = -1 at hpeek
    rw [timedPeekLoop]
    dsimp only
    rw [hpeek, if_neg (by decide)]
    split
    · exact ih (by rw [Nat.add_right_comm, Nat.add_assoc]; exact hpass) hkept
    · exact ⟨t + 1, (S.peek s).2, rfl, hkept⟩

/-- A parser over a stream with finitely many bytes returns once they have been read. -/
theorem Delivers.terminates (h : S.Delivers R) (hpass : Passes clock timeout)
    (lookahead : LookaheadMode) (detectDecimal : Bool) (t : ℕ) {s : σ} {l : List Byte}
    (hs : R s l) : Terminates S clock timeout lookahead detectDecimal t s := by
  suffices hsome : ∃ polls turns, (peekNextDigit S clock timeout lookahead detectDecimal
      (polls + 1) turns t s).isSome by
    obtain ⟨polls, turns, hreturns⟩ := hsome
    exact ⟨polls + 1, turns, hreturns⟩
  induction l generalizing t s with
  | nil =>
    obtain ⟨n, hn⟩ := hpass t
    rw [Nat.add_right_comm] at hn
    obtain ⟨u, s', hpeek, -⟩ := timedPeekLoop_nil h (clock t) hn hs
    refine ⟨n, 1, ?_⟩
    rw [peekNextDigit, timedPeek, hpeek]
    simp [stopsAt]
  | cons c l ih =>
    have hkept : R (S.peek s).2 (c :: l) := (h s (c :: l) hs .peek).2
    obtain ⟨polls, turns, hreturns⟩ := ih (t + 1) (h _ (c :: l) hkept .read).2
    refine ⟨polls, turns + 1, ?_⟩
    rw [peekNextDigit, timedPeek_cons h hs, Option.bind_eq_bind, Option.bind_some]
    dsimp only
    split
    · rfl
    · split
      · exact hreturns
      · rfl

/-- A stream that always offers the same character, one that `peekNextDigit` skips, holds it for
ever. -/
theorem not_terminates_of_constant {s : σ} {c : ℤ} (hpeek : S.peek s = (c, s))
    (hread : (S.read s).2 = s) (hbyte : 0 ≤ c) {detectDecimal : Bool}
    (hskip : stopsAt detectDecimal c = false) (t : ℕ) :
    ¬ Terminates S clock timeout .skipAll detectDecimal t s := by
  rintro ⟨polls, turns, hreturns⟩
  suffices hnone : ∀ t, peekNextDigit S clock timeout .skipAll detectDecimal polls turns t s =
      none by
    rw [hnone] at hreturns
    cases hreturns
  clear hreturns
  induction turns with
  | zero => exact fun _ => rfl
  | succ turns ih =>
    intro t
    cases polls with
    | zero => rfl
    | succ polls =>
      have hwait : timedPeek S clock timeout (polls + 1) t s = some (c, t + 1, s) := by
        unfold timedPeek timedPeekLoop
        rw [hpeek]
        simp [hbyte]
      rw [peekNextDigit, hwait, Option.bind_eq_bind, Option.bind_some]
      dsimp only
      rw [hskip, hread]
      exact ih (t + 1)

/-! ### A list with a clock of its own -/

lemma delivers_ofList : ofList.Delivers (· = ·) := by
  intro s l hs call
  subst hs
  exact ⟨rfl, rfl⟩

lemma passes_ofNat : Passes (fun t => BitVec.ofNat 32 t) 1 := by
  intro t
  refine ⟨0, ?_⟩
  dsimp only
  rw [BitVec.ofNat_add, BitVec.ofNat_add]
  bv_omega

end Stream

end FrameworkXC32
