import FrameworkXC32.Api.Print
import FrameworkXC32.Api.Stream
import Mathlib.Order.Lattice

/-!
# `Stream::parseInt`

An integer that `print` has written is read back, with the sign and at both ends of its range: the
arithmetic of a `long` wraps on either side.
-/

namespace FrameworkXC32
open Machine Numeral

namespace Stream

variable {σ : Type} (S : Stream σ) (clock : ℕ → Word) (timeout : Word)

def isDigit (c : ℤ) : Bool := 0x30 ≤ c && c ≤ 0x39

/-- What one turn of the loop makes of the sign and of the value. -/
def parseChar (ignore : Byte) (c : ℤ) (isNegative : Bool) (value : Word) : Bool × Word :=
  if c = ignore.toInt then (isNegative, value)
  else if c = 0x2d then (true, value)
  else if isDigit c then (isNegative, value * 10 + BitVec.ofInt 32 c - 0x30)
  else (isNegative, value)

/-- The loop of `parseInt`, entered with the character `c`. -/
def parseIntLoop (ignore : Byte) (polls : ℕ) :
    ℕ → ℤ → Bool → Word → ℕ → σ → Option (Word × ℕ × σ)
  | 0, _, _, _, _, _ => none
  | turns + 1, c, isNegative, value, t, s => do
    let (isNegative, value) := parseChar ignore c isNegative value
    let s := (S.read s).2
    let (c, t, s) ← timedPeek S clock timeout polls t s
    if isDigit c || c = ignore.toInt then parseIntLoop ignore polls turns c isNegative value t s
    else some (if isNegative then -value else value, t, s)

def parseInt (lookahead : LookaheadMode) (ignore : Byte) (polls turns t : ℕ) (s : σ) :
    Option (Word × ℕ × σ) := do
  let (c, t, s) ← peekNextDigit S clock timeout lookahead false polls turns t s
  if c < 0 then some (0, t, s)
  else parseIntLoop S clock timeout ignore polls turns c false 0 t s

/-- `NO_IGNORE_CHAR` -/
def noIgnoreChar : Byte := 0x01

variable {S} {clock} {timeout} {R : σ → List Byte → Prop}

/-! ### Looking ahead -/

lemma timedPeekLoop_succ (startMillis : Word) {polls t : ℕ} {s : σ} {r : ℤ × ℕ × σ}
    (h : timedPeekLoop S clock timeout startMillis polls t s = some r) :
    timedPeekLoop S clock timeout startMillis (polls + 1) t s = some r := by
  induction polls generalizing t s with
  | zero => cases h
  | succ polls ih =>
    rw [timedPeekLoop] at h ⊢
    dsimp only at h ⊢
    split
    · rename_i hbyte
      rw [if_pos hbyte] at h
      exact h
    · rename_i hnone
      rw [if_neg hnone] at h
      split
      · rename_i hwait
        rw [if_pos hwait] at h
        exact ih h
      · rename_i hover
        rw [if_neg hover] at h
        exact h

lemma timedPeekLoop_of_le (startMillis : Word) {polls polls' t : ℕ} {s : σ} {r : ℤ × ℕ × σ}
    (h : timedPeekLoop S clock timeout startMillis polls t s = some r) (hle : polls ≤ polls') :
    timedPeekLoop S clock timeout startMillis polls' t s = some r := by
  induction hle with
  | refl => exact h
  | step _ ih => exact timedPeekLoop_succ startMillis ih

lemma timedPeek_ahead (h : S.Delivers R) (hpass : Passes clock timeout) (t : ℕ) {s : σ}
    {l : List Byte} (hs : R s l) : ∃ enough t' s', R s' l ∧ ∀ polls ≥ enough,
      timedPeek S clock timeout polls t s = some (RingOp.offered l.head?, t', s') := by
  cases l with
  | nil =>
    obtain ⟨n, hn⟩ := hpass t
    rw [Nat.add_right_comm] at hn
    obtain ⟨t', s', hpeek, hs'⟩ := timedPeekLoop_nil h (clock t) hn hs
    exact ⟨n + 1, t', s', hs', fun polls hle => timedPeekLoop_of_le _ hpeek hle⟩
  | cons c l =>
    refine ⟨1, t + 1, (S.peek s).2, (h s (c :: l) hs .peek).2, fun polls hle => ?_⟩
    obtain ⟨polls, rfl⟩ : ∃ k, polls = k + 1 := ⟨polls - 1, by omega⟩
    exact timedPeek_cons h hs polls t

lemma peekNextDigit_skips (h : S.Delivers R) (hpass : Passes clock timeout) {pre l : List Byte}
    (hpre : ∀ b ∈ pre, stopsAt false b.toNat = false)
    (hstop : stopsAt false (RingOp.offered l.head?) = true) (t : ℕ) {s : σ}
    (hs : R s (pre ++ l)) : ∃ enough t' s', R s' l ∧ ∀ polls ≥ enough, ∀ turns > pre.length,
      peekNextDigit S clock timeout .skipAll false polls turns t s =
        some (RingOp.offered l.head?, t', s') := by
  induction pre generalizing t s with
  | nil =>
    obtain ⟨enough, t', s', hs', hpeek⟩ := timedPeek_ahead h hpass t hs
    refine ⟨enough, t', s', hs', fun polls hpolls turns hturns => ?_⟩
    obtain ⟨turns, rfl⟩ : ∃ k, turns = k + 1 := ⟨turns - 1, by omega⟩
    rw [peekNextDigit, hpeek polls hpolls, Option.bind_eq_bind, Option.bind_some]
    exact if_pos hstop
  | cons b pre ih =>
    obtain ⟨m, t', s', hs', hpeek⟩ := timedPeek_ahead h hpass t hs
    obtain ⟨n, t'', s'', hs'', hrest⟩ := ih (fun c hc => hpre c (List.mem_cons_of_mem b hc)) t'
      (h s' _ hs' .read).2
    refine ⟨max m n, t'', s'', hs'', fun polls hpolls turns hturns => ?_⟩
    obtain ⟨turns, rfl⟩ : ∃ k, turns = k + 1 := ⟨turns - 1, by omega⟩
    have hskip := hpre b List.mem_cons_self
    rw [peekNextDigit, hpeek polls (le_trans (le_max_left m n) hpolls), Option.bind_eq_bind,
      Option.bind_some]
    change (if stopsAt false (b.toNat : ℤ) = true then _ else _) = _
    rw [hskip, if_neg (by decide), if_pos (show skips .skipAll _ = true from rfl)]
    apply hrest polls (le_trans (le_max_right m n) hpolls)
    rw [List.length_cons] at hturns
    omega

/-! ### The characters of a number -/

/-- The value that digits make of a value, in the arithmetic of the machine. -/
def accumulate (value : Word) (cs : List Byte) : Word :=
  cs.foldl (fun value c => value * 10 + BitVec.ofInt 32 c.toNat - 0x30) value

lemma parseIntLoop_turn {ignore : Byte} {polls t t' : ℕ} {s s' : σ} {c' : ℤ}
    (hpeek : timedPeek S clock timeout polls t (S.read s).2 = some (c', t', s')) (turns : ℕ) (c : ℤ)
    (isNegative : Bool) (value : Word) :
    parseIntLoop S clock timeout ignore polls (turns + 1) c isNegative value t s =
      if isDigit c' || c' = ignore.toInt then
        parseIntLoop S clock timeout ignore polls turns c' (parseChar ignore c isNegative value).1
          (parseChar ignore c isNegative value).2 t' s'
      else some (if (parseChar ignore c isNegative value).1
        then -(parseChar ignore c isNegative value).2
        else (parseChar ignore c isNegative value).2, t', s') := by
  rw [parseIntLoop]
  simp only [Option.bind_eq_bind, hpeek, Option.bind_some]

lemma parseChar_digit {ignore b : Byte} (hignore : isDigit ignore.toInt = false)
    (hb : isDigit b.toNat = true) (isNegative : Bool) (value : Word) :
    parseChar ignore b.toNat isNegative value =
      (isNegative, value * 10 + BitVec.ofInt 32 b.toNat - 0x30) := by
  have hne : (b.toNat : ℤ) ≠ ignore.toInt := by
    intro heq
    rw [heq, hignore] at hb
    cases hb
  have hminus : (b.toNat : ℤ) ≠ 0x2d := by
    intro heq
    rw [heq] at hb
    cases hb
  rw [parseChar, if_neg hne, if_neg hminus, if_pos hb]

lemma parseIntLoop_digits (h : S.Delivers R) (hpass : Passes clock timeout) {ignore : Byte}
    (hignore : isDigit ignore.toInt = false) {l : List Byte}
    (hl : (isDigit (RingOp.offered l.head?) || RingOp.offered l.head? = ignore.toInt) = false)
    (isNegative : Bool) {c : Byte} {cs : List Byte} (hcs : ∀ b ∈ c :: cs, isDigit b.toNat = true)
    (value : Word) (t : ℕ) {s : σ} (hs : R s (c :: cs ++ l)) :
    ∃ enough t' s', R s' l ∧ ∀ polls ≥ enough, ∀ turns > cs.length,
      parseIntLoop S clock timeout ignore polls turns c.toNat isNegative value t s =
        some (if isNegative then -accumulate value (c :: cs) else accumulate value (c :: cs),
          t', s') := by
  induction cs generalizing c value t s with
  | nil =>
    have hc := parseChar_digit hignore (hcs c List.mem_cons_self) isNegative value
    have hread : R (S.read s).2 l := (h s _ hs .read).2
    obtain ⟨enough, t', s', hs', hpeek⟩ := timedPeek_ahead h hpass t hread
    refine ⟨enough, t', s', hs', fun polls hpolls turns hturns => ?_⟩
    obtain ⟨turns, rfl⟩ : ∃ k, turns = k + 1 := ⟨turns - 1, by omega⟩
    rw [parseIntLoop_turn (hpeek polls hpolls), hc, hl, if_neg (by decide)]
    rfl
  | cons d cs ih =>
    have hc := parseChar_digit hignore (hcs c List.mem_cons_self) isNegative value
    have hd : isDigit d.toNat = true := hcs d (by simp)
    have hread : R (S.read s).2 (d :: cs ++ l) := (h s _ hs .read).2
    obtain ⟨m, t', s', hs', hpeek⟩ := timedPeek_ahead h hpass t hread
    obtain ⟨n, t'', s'', hs'', hrest⟩ := ih (fun b hb => hcs b (List.mem_cons_of_mem c hb))
      (value * 10 + BitVec.ofInt 32 c.toNat - 0x30) t' hs'
    refine ⟨max m n, t'', s'', hs'', fun polls hpolls turns hturns => ?_⟩
    obtain ⟨turns, rfl⟩ : ∃ k, turns = k + 1 := ⟨turns - 1, by omega⟩
    rw [parseIntLoop_turn (hpeek polls (le_trans (le_max_left m n) hpolls)), hc]
    have hnext : RingOp.offered (d :: cs ++ l).head? = d.toNat := rfl
    rw [hnext, hd, Bool.true_or, if_pos rfl]
    apply hrest polls (le_trans (le_max_right m n) hpolls)
    rw [List.length_cons] at hturns
    omega

lemma digitChar_ten {d : ℕ} (hd : d < 10) :
    (Print.digitChar (BitVec.ofNat 8 d)).toNat = 0x30 + d := by
  have hall : ∀ d < 10, (Print.digitChar (BitVec.ofNat 8 d)).toNat = 0x30 + d := by decide
  exact hall d hd

lemma isDigit_digits {n : ℕ} {c : Byte} (hc : c ∈ Print.digits 10 n) : isDigit c.toNat = true := by
  obtain ⟨d, hd, rfl⟩ := List.mem_map.mp hc
  have hten := lt_of_mem_numeral (by decide) hd
  rw [digitChar_ten hten, isDigit]
  simp
  omega

/-- The loop computes the value of a numeral, modulo the word. -/
lemma accumulate_numeral (ds : List ℕ) (hds : ∀ d ∈ ds, d < 10) (v : ℕ) :
    accumulate (BitVec.ofNat 32 v) (ds.map fun d => Print.digitChar (BitVec.ofNat 8 d)) =
      BitVec.ofNat 32 (ds.foldl (fun v d => v * 10 + d) v) := by
  induction ds generalizing v with
  | nil => rfl
  | cons d ds ih =>
    have hdigit : BitVec.ofNat 32 v * 10 +
        BitVec.ofInt 32 (Print.digitChar (BitVec.ofNat 8 d)).toNat - 0x30 =
        BitVec.ofNat 32 (v * 10 + d) := by
      rw [digitChar_ten (hds d List.mem_cons_self), BitVec.ofInt_natCast, Nat.add_comm 0x30 d,
        BitVec.ofNat_add, ← BitVec.add_assoc, BitVec.ofNat_add, BitVec.ofNat_mul]
      exact BitVec.add_sub_cancel _ _
    rw [List.map_cons, accumulate, List.foldl_cons, hdigit, List.foldl_cons]
    exact ih (fun e he => hds e (List.mem_cons_of_mem d he)) _

lemma accumulate_digits (n : ℕ) : accumulate 0 (Print.digits 10 n) = BitVec.ofNat 32 n := by
  have h := accumulate_numeral (numeral 10 n) (fun d => lt_of_mem_numeral (by decide)) 0
  rw [Print.digits]
  refine h.trans ?_
  congr 1
  exact value_numeral (by decide) n

lemma parseIntLoop_number (h : S.Delivers R) (hpass : Passes clock timeout) {ignore : Byte}
    (hignore : isDigit ignore.toInt = false) {l : List Byte}
    (hl : (isDigit (RingOp.offered l.head?) || RingOp.offered l.head? = ignore.toInt) = false)
    (m : ℕ) : ∃ c cs, Print.digits 10 m = c :: cs ∧ isDigit c.toNat = true ∧
      ∀ isNegative t s, R s (c :: cs ++ l) → ∃ enough t' s', R s' l ∧
        ∀ polls ≥ enough, ∀ turns > cs.length,
          parseIntLoop S clock timeout ignore polls turns c.toNat isNegative 0 t s =
            some (if isNegative then -BitVec.ofNat 32 m else BitVec.ofNat 32 m, t', s') := by
  have hdigits : ∀ b ∈ Print.digits 10 m, isDigit b.toNat = true := fun b => isDigit_digits
  have hvalue := accumulate_digits m
  cases hds : Print.digits 10 m with
  | nil => exact absurd (List.map_eq_nil_iff.mp hds) (numeral_ne_nil (by decide) m)
  | cons c cs =>
    rw [hds] at hdigits hvalue
    refine ⟨c, cs, rfl, hdigits c List.mem_cons_self, fun isNegative t s hs => ?_⟩
    have hloop := parseIntLoop_digits h hpass hignore hl isNegative hdigits 0 t hs
    rw [hvalue] at hloop
    exact hloop

lemma parseInt_decimal (h : S.Delivers R) (hpass : Passes clock timeout) {ignore : Byte}
    (hignore : isDigit ignore.toInt = false) (hminus : ignore.toInt ≠ 0x2d) (n : Word)
    {pre l : List Byte} (hpre : ∀ b ∈ pre, stopsAt false b.toNat = false)
    (hl : (isDigit (RingOp.offered l.head?) || RingOp.offered l.head? = ignore.toInt) = false)
    (t : ℕ) {s : σ} (hs : R s (pre ++ (Print.decimal n ++ l))) :
    ∃ enough t' s', R s' l ∧ ∀ polls ≥ enough, ∀ turns ≥ enough,
      parseInt S clock timeout .skipAll ignore polls turns t s = some (n, t', s') := by
  unfold Print.decimal at hs
  by_cases hneg : n.toInt < 0
  · obtain ⟨c, cs, hds, hc, hloop⟩ := parseIntLoop_number h hpass hignore hl (-n).toNat
    rw [if_pos hneg, hds] at hs
    have hfirst : RingOp.offered (0x2d :: (c :: cs) ++ l).head? = 0x2d := rfl
    have hstop : stopsAt false (RingOp.offered (0x2d :: (c :: cs) ++ l).head?) = true := by
      rw [hfirst]
      rfl
    obtain ⟨i, t₁, s₁, hs₁, hskip⟩ := peekNextDigit_skips h hpass hpre hstop t hs
    have hread : R (S.read s₁).2 (c :: cs ++ l) := (h s₁ _ hs₁ .read).2
    obtain ⟨j, t₂, s₂, hs₂, hpeek⟩ := timedPeek_ahead h hpass t₁ hread
    obtain ⟨k, t₃, s₃, hs₃, hrest⟩ := hloop true t₂ s₂ hs₂
    have hsign : parseChar ignore 0x2d false 0 = (true, 0) := by
      rw [parseChar, if_neg hminus.symm, if_pos rfl]
    refine ⟨i + j + k + pre.length + cs.length + 2, t₃, s₃, hs₃, fun polls hpolls turns hturns => ?_⟩
    obtain ⟨turns, rfl⟩ : ∃ k, turns = k + 1 := ⟨turns - 1, by omega⟩
    have hnext : RingOp.offered (c :: cs ++ l).head? = c.toNat := rfl
    rw [parseInt, hskip polls (by omega) _ (by omega), hfirst, Option.bind_eq_bind,
      Option.bind_some]
    dsimp only
    rw [if_neg (by decide), parseIntLoop_turn (hpeek polls (by omega)), hsign, hnext, hc,
      Bool.true_or, if_pos rfl, hrest polls (by omega) _ (by omega), if_pos rfl,
      BitVec.ofNat_toNat, BitVec.setWidth_eq, BitVec.neg_neg]
  · obtain ⟨c, cs, hds, hc, hloop⟩ := parseIntLoop_number h hpass hignore hl n.toNat
    rw [if_neg hneg, hds] at hs
    have hstop : stopsAt false (RingOp.offered (c :: cs ++ l).head?) = true := by
      change stopsAt false c.toNat = true
      unfold isDigit at hc
      rw [stopsAt, hc]
      simp
    obtain ⟨i, t₁, s₁, hs₁, hskip⟩ := peekNextDigit_skips h hpass hpre hstop t hs
    obtain ⟨k, t₂, s₂, hs₂, hrest⟩ := hloop false t₁ s₁ hs₁
    refine ⟨i + k + pre.length + cs.length + 1, t₂, s₂, hs₂, fun polls hpolls turns hturns => ?_⟩
    have hfirst : RingOp.offered (c :: cs ++ l).head? = c.toNat := rfl
    rw [parseInt, hskip polls (by omega) _ (by omega), hfirst, Option.bind_eq_bind,
      Option.bind_some]
    dsimp only
    rw [if_neg (by omega), hrest polls (by omega) _ (by omega), if_neg (by decide),
      BitVec.ofNat_toNat, BitVec.setWidth_eq]

/-- A byte that `parseInt` skips before a number. -/
def BeforeNumber (b : Byte) : Prop := isDigit b.toNat = false ∧ b ≠ 0x2d

instance (b : Byte) : Decidable (BeforeNumber b) := inferInstanceAs (Decidable (_ ∧ _))

/-- A byte at which it stops behind the number. -/
def EndsNumber (ignore b : Byte) : Prop := isDigit b.toNat = false ∧ b ≠ ignore

instance (ignore b : Byte) : Decidable (EndsNumber ignore b) :=
  inferInstanceAs (Decidable (_ ∧ _))

/-- What `print` writes of a `long`, behind bytes that are neither digits nor a minus and before a
byte that is neither a digit nor the ignored character, or at the end of the data, is read back by
`parseInt`, which leaves that byte unread. In any base `printNumber` writes the digits of a number
and stays in its buffer. -/
theorem printed_integers_parse_back {σ τ : Type} (S : Stream σ) (R : σ → List Byte → Prop)
    (h : S.Delivers R) (clock : ℕ → Word) (timeout : Word) (hpass : Passes clock timeout)
    (p : Print τ) (written : τ → List Byte) (hp : p.Takes written) (u : τ) (n : Word)
    (pre rest : List Byte) (hpre : ∀ b ∈ pre, BeforeNumber b)
    (hrest : ∀ b ∈ rest.head?, EndsNumber noIgnoreChar b) :
    (∃ k v out, p.printLong n 10 u = some (k, v) ∧ written v = written u ++ out ∧
      ∀ t s, R s (pre ++ (out ++ rest)) → ∃ enough t' s', R s' rest ∧
        ∀ polls ≥ enough, ∀ turns ≥ enough,
          parseInt S clock timeout .skipAll noIgnoreChar polls turns t s = some (n, t', s')) ∧
    ∀ (m : Word) (base : Byte), 2 ≤ base.toNat → base.toNat ≤ 36 →
      (∃ k v, p.printNumber m base u = some (k, v) ∧
        written v = written u ++ (numeral base.toNat m.toNat).map Print.digit) ∧
      value base.toNat (numeral base.toNat m.toNat) = m.toNat ∧
      (m.toNat ≠ 0 → (numeral base.toNat m.toNat).head? ≠ some 0) := by
  constructor
  · obtain ⟨k, v, hprint, hv⟩ := hp.printLong n u
    refine ⟨k, v, Print.decimal n, hprint, hv, fun t s hs => ?_⟩
    apply parseInt_decimal h hpass (by decide) (by decide) n _ _ t hs
    · intro b hb
      obtain ⟨hdigit, hminus⟩ := hpre b hb
      have hne : (b.toNat : ℤ) ≠ 0x2d := by
        intro heq
        apply hminus
        apply BitVec.eq_of_toNat_eq
        exact Int.ofNat.inj heq
      unfold isDigit at hdigit
      rw [stopsAt, hdigit]
      simp [hne]
    · cases rest with
      | nil => rfl
      | cons b rest =>
        obtain ⟨hdigit, hignore⟩ := hrest b rfl
        have hne : (b.toNat : ℤ) ≠ noIgnoreChar.toInt := by
          intro heq
          apply hignore
          apply BitVec.eq_of_toNat_eq
          exact Int.ofNat.inj heq
        change (isDigit (b.toNat : ℤ) || decide ((b.toNat : ℤ) = _)) = false
        rw [hdigit, decide_eq_false hne]
        rfl
  · intro m base hbase hmost
    have hprint := hp.printNumber m hbase u
    rw [Print.digits_eq hbase hmost] at hprint
    exact ⟨hprint, value_numeral hbase m.toNat, head_numeral hbase⟩

/-- Printing into a list. -/
def listPrint : Print (List Byte) := ⟨fun b s => (1, s ++ [b])⟩

lemma takes_listPrint : listPrint.Takes id := fun _ _ => ⟨show (1 : Word) ≠ 0 by decide, rfl⟩

/-- The least `long`, behind a blank and before a comma. -/
theorem printed_integers_parse_back_least :
    (∃ k v out, listPrint.printLong 0x80000000 10 [] = some (k, v) ∧ id v = id [] ++ out ∧
      ∀ t s, s = [0x20] ++ (out ++ [0x2c]) → ∃ enough t' s', s' = [0x2c] ∧
        ∀ polls ≥ enough, ∀ turns ≥ enough,
          parseInt ofList (fun t => BitVec.ofNat 32 t) 1 .skipAll noIgnoreChar polls turns t s =
            some (0x80000000, t', s')) ∧
    ∀ (m : Word) (base : Byte), 2 ≤ base.toNat → base.toNat ≤ 36 →
      (∃ k v, listPrint.printNumber m base [] = some (k, v) ∧
        id v = id [] ++ (numeral base.toNat m.toNat).map Print.digit) ∧
      value base.toNat (numeral base.toNat m.toNat) = m.toNat ∧
      (m.toNat ≠ 0 → (numeral base.toNat m.toNat).head? ≠ some 0) :=
  printed_integers_parse_back ofList (· = ·) delivers_ofList _ 1 passes_ofNat listPrint id
    takes_listPrint [] 0x80000000 [0x20] [0x2c] (by decide) (by decide)

end Stream

end FrameworkXC32
