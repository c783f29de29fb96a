import FrameworkXC32.Api.FindMulti
import FrameworkXC32.Lib.Records
import FrameworkXC32.Strings.Sums

/-!
# Reading from a `Stream`

`readBytes`, `readString` and their variants with a terminator, and the searches with one target.
What arrives later is waited for as long as every byte comes within the timeout.
-/

namespace FrameworkXC32
open Machine Block Records

namespace Stream

variable {σ : Type} (S : Stream σ) (clock : ℕ → Word) (timeout : Word)

/-- `c < 0` -/
def timedOut (c : ℤ) : Bool := c < 0

/-- `c < 0 || c == terminator`. A `char` is signed, and what is read is not. -/
def breaksAt (terminator : Byte) (c : ℤ) : Bool := c < 0 || c = terminator.toInt

/-- The loop of `readBytes` and `readBytesUntil`, which differ in the results of `timedRead` that
break it. The first number is `length - count`. -/
def readLoop (stops : ℤ → Bool) (polls : ℕ) :
    ℕ → ℕ → List Byte → ℕ → σ → Option (ℕ × List Byte × ℕ × σ)
  | 0, count, buffer, t, s => some (count, buffer, t, s)
  | left + 1, count, buffer, t, s => do
    let (c, t, s) ← timedRead S clock timeout polls t s
    if stops c then some (count, buffer, t, s)
    else
      let buffer ← store buffer count (BitVec.ofInt 8 c)
      readLoop stops polls left (count + 1) buffer t s

def readBytes (polls length : ℕ) (buffer : List Byte) (t : ℕ) (s : σ) :
    Option (ℕ × List Byte × ℕ × σ) :=
  readLoop S clock timeout timedOut polls length 0 buffer t s

def readBytesUntil (terminator : Byte) (polls length : ℕ) (buffer : List Byte) (t : ℕ) (s : σ) :
    Option (ℕ × List Byte × ℕ × σ) :=
  if length < 1 then some (0, buffer, t, s)
  else readLoop S clock timeout (breaksAt terminator) polls length 0 buffer t s

/-- The loop of `readString` and `readStringUntil`. The memory for each `ret += (char)c` is
`fresh`. -/
def readStringLoop (stops : ℤ → Bool) (fresh : ℕ → Fresh) (polls : ℕ) :
    ℕ → ℕ → WString → ℕ → σ → Option (WString × ℕ × σ)
  | 0, _, _, _, _ => none
  | turns + 1, k, ret, t, s => do
    let (c, t, s) ← timedRead S clock timeout polls t s
    if stops c then some (ret, t, s)
    else
      let r ← ret.concatChar (BitVec.ofInt 8 c) (fresh k)
      readStringLoop stops fresh polls turns (k + 1) r.2 t s

/-- `String ret`, and the loop. -/
def readStringWhile (stops : ℤ → Bool) (fresh : ℕ → Fresh) (polls turns t : ℕ) (s : σ) :
    Option (WString × ℕ × σ) := do
  let ret ← WString.ofCstr (some (.apart [0])) (fresh 0)
  readStringLoop S clock timeout stops fresh polls turns 1 ret t s

def readString (fresh : ℕ → Fresh) (polls turns t : ℕ) (s : σ) : Option (WString × ℕ × σ) :=
  readStringWhile S clock timeout timedOut fresh polls turns t s

def readStringUntil (terminator : Byte) (fresh : ℕ → Fresh) (polls turns t : ℕ) (s : σ) :
    Option (WString × ℕ × σ) :=
  readStringWhile S clock timeout (breaksAt terminator) fresh polls turns t s

/-- `findUntil(target, targetLen, terminator, termLen)` -/
def findUntil (polls turns : ℕ) (target : List Byte) (targetLen : ℕ)
    (terminator : Option (List Byte)) (termLen : ℕ) (t : ℕ) (s : σ) : Option (Bool × ℕ × σ) :=
  match terminator with
  | none => (findMulti S clock timeout polls turns [⟨target, targetLen, 0⟩] t s).map
      fun r => (r.1 = 0, r.2.2)
  | some terminator =>
    (findMulti S clock timeout polls turns [⟨target, targetLen, 0⟩, ⟨terminator, termLen, 0⟩]
      t s).map fun r => (r.1 = 0, r.2.2)

/-- `find(target, length)` -/
def find (polls turns : ℕ) (target : List Byte) (length t : ℕ) (s : σ) : Option (Bool × ℕ × σ) :=
  findUntil S clock timeout polls turns target length none 0 t s

section Exact

variable {S} {clock} {timeout} {R : ℕ → σ → List Byte → Prop} {stops : ℤ → Bool}

/-- The byte breaks the loop. -/
def stopsOn (stops : ℤ → Bool) (b : Byte) : Bool := stops (b.toNat : ℤ)

lemma ofInt_toNat (b : Byte) : BitVec.ofInt 8 (b.toNat : ℤ) = b := by
  rw [BitVec.ofInt_natCast, BitVec.ofNat_toNat, BitVec.setWidth_eq]

lemma readLoop_exact (h : Supplies S clock timeout R) (hpass : Passes clock timeout)
    (htimeout : stops (-1) = true) {b w l : List Byte} {t : ℕ} {s : σ} (hs : R t s l) {n : ℕ}
    (hfit : w.length + n ≤ b.length) :
    ∃ enough t' s', R t' s' (rest (stopsOn stops) n l) ∧ ∀ polls ≥ enough,
      readLoop S clock timeout stops polls n w.length (overwrite b 0 w) t s =
        some (w.length + (record (stopsOn stops) n l).length,
          overwrite b 0 (w ++ record (stopsOn stops) n l), t', s') := by
  induction n generalizing w l t s with
  | zero =>
    refine ⟨0, t, s, by rwa [rest_zero], fun polls _ => ?_⟩
    rw [readLoop, record_zero, List.append_nil, List.length_nil, Nat.add_zero]
  | succ n ih =>
    cases l with
    | nil =>
      obtain ⟨enough, t', s', hs', hread⟩ := h.timedRead_silence hpass hs
      refine ⟨enough, t', s', by rwa [rest_nil], fun polls hpolls => ?_⟩
      rw [readLoop, hread polls hpolls]
      dsimp only [Option.bind_eq_bind, Option.bind_some]
      rw [if_pos htimeout, record_nil, List.append_nil, List.length_nil, Nat.add_zero]
    | cons a l =>
      obtain ⟨enough, t', s', hs', hread⟩ := h.timedRead_byte hs
      cases ha : stopsOn stops a with
      | true =>
        refine ⟨enough, t', s', by rwa [rest_stop ha], fun polls hpolls => ?_⟩
        rw [readLoop, hread polls hpolls]
        dsimp only [Option.bind_eq_bind, Option.bind_some]
        rw [if_pos (show stops (a.toNat : ℤ) = true from ha), record_stop ha, List.append_nil,
          List.length_nil, Nat.add_zero]
      | false =>
        have hlen : (w ++ [a]).length = w.length + 1 := by
          rw [List.length_append, List.length_singleton]
        have hstore : store (overwrite b 0 w) w.length a = some (overwrite b 0 (w ++ [a])) := by
          have hwrite : store (overwrite b 0 w) (0 + w.length) a =
              some (overwrite b 0 (w ++ [a])) := store_overwrite w a (by omega)
          rwa [Nat.zero_add] at hwrite
        obtain ⟨enough', t'', s'', hs'', hrun⟩ :=
          ih hs' (show (w ++ [a]).length + n ≤ b.length by omega)
        refine ⟨max enough enough', t'', s'', by rwa [rest_pass ha], fun polls hpolls => ?_⟩
        have hmore := hrun polls (le_of_max_le_right hpolls)
        rw [readLoop, hread polls (le_of_max_le_left hpolls)]
        dsimp only [Option.bind_eq_bind, Option.bind_some]
        rw [if_neg (show ¬stops (a.toNat : ℤ) = true from Bool.eq_false_iff.mp ha), ofInt_toNat,
          hstore, Option.bind_some, ← hlen, hmore, record_pass ha, List.append_assoc,
          List.singleton_append, List.length_cons, hlen, Nat.add_assoc, Nat.add_comm 1]

/-- A byte from `0x80` on is never taken for the terminator. -/
def endsRecord (terminator b : Byte) : Bool := b = terminator && terminator.toNat < 0x80

lemma stopsOn_until (terminator : Byte) :
    stopsOn (breaksAt terminator) = endsRecord terminator := by
  funext b
  have hb := b.isLt
  have hterminator := terminator.isLt
  have hnonneg : decide ((b.toNat : ℤ) < 0) = false := decide_eq_false (by omega)
  have hiff : (b.toNat : ℤ) = terminator.toInt ↔ b = terminator ∧ terminator.toNat < 0x80 := by
    rw [BitVec.toInt_eq_toNat_cond]
    constructor
    · intro heq
      split at heq
      · exact ⟨BitVec.eq_of_toNat_eq (by omega), by omega⟩
      · omega
    · rintro ⟨rfl, hsmall⟩
      rw [if_pos (by omega)]
  unfold stopsOn breaksAt endsRecord
  rw [hnonneg, Bool.false_or, decide_eq_decide.mpr hiff, Bool.decide_and]

lemma stopsOn_timeout : stopsOn timedOut = fun _ => false := by
  funext b
  exact decide_eq_false (Int.not_lt.mpr (Int.natCast_nonneg b.toNat))

lemma record_all (n : ℕ) (l : List Byte) : record (fun _ => false) n l = l.take n := by
  have hall : l.takeWhile (fun a => !(fun _ => false) a) = l :=
    List.takeWhile_eq_self_iff.mpr fun _ _ => rfl
  rw [record, hall]

lemma rest_all (n : ℕ) (l : List Byte) : rest (fun _ => false) n l = l.drop n := by
  rw [rest, record_all, List.length_take]
  split
  · rfl
  · rw [List.drop_of_length_le (by omega), List.drop_of_length_le (by omega)]

lemma readBytes_exact (h : Supplies S clock timeout R) (hpass : Passes clock timeout)
    {b l : List Byte} {t : ℕ} {s : σ} (hs : R t s l) {n : ℕ} (hfit : n ≤ b.length) :
    ∃ enough t' s', R t' s' (l.drop n) ∧ ∀ polls ≥ enough,
      readBytes S clock timeout polls n b t s =
        some ((l.take n).length, overwrite b 0 (l.take n), t', s') := by
  obtain ⟨enough, t', s', hs', hrun⟩ := readLoop_exact h hpass
    (show timedOut (-1) = true from rfl) hs
    (show ([] : List Byte).length + n ≤ b.length by rw [List.length_nil]; omega)
  rw [stopsOn_timeout, rest_all] at hs'
  refine ⟨enough, t', s', hs', fun polls hpolls => ?_⟩
  have hread := hrun polls hpolls
  rwa [stopsOn_timeout, record_all, overwrite_nil, List.length_nil, Nat.zero_add,
    List.nil_append] at hread

lemma readBytesUntil_exact (h : Supplies S clock timeout R) (hpass : Passes clock timeout)
    (terminator : Byte) {b l : List Byte} {t : ℕ} {s : σ} (hs : R t s l) {n : ℕ}
    (hfit : n ≤ b.length) :
    ∃ enough t' s', R t' s' (rest (endsRecord terminator) n l) ∧ ∀ polls ≥ enough,
      readBytesUntil S clock timeout terminator polls n b t s =
        some ((record (endsRecord terminator) n l).length,
          overwrite b 0 (record (endsRecord terminator) n l), t', s') := by
  by_cases hempty : n < 1
  · obtain rfl : n = 0 := by omega
    refine ⟨0, t, s, by rwa [rest_zero], fun polls _ => ?_⟩
    rw [readBytesUntil, if_pos hempty, record_zero, overwrite_nil, List.length_nil]
  · obtain ⟨enough, t', s', hs', hrun⟩ := readLoop_exact h hpass
      (show breaksAt terminator (-1) = true from rfl)
      hs (show ([] : List Byte).length + n ≤ b.length by rw [List.length_nil]; omega)
    rw [stopsOn_until] at hs'
    refine ⟨enough, t', s', hs', fun polls hpolls => ?_⟩
    have hread := hrun polls hpolls
    rw [stopsOn_until, overwrite_nil, List.length_nil, Nat.zero_add, List.nil_append] at hread
    rw [readBytesUntil, if_neg hempty, hread]

/-! ### One record after the other -/

/-- Calls of `readBytesUntil` with one buffer after the other, each of them with its whole
length, and the bytes that each call says it has placed there. -/
def readRecords (S : Stream σ) (clock : ℕ → Word) (timeout : Word) (terminator : Byte)
    (polls : ℕ) : List (List Byte) → ℕ → σ → Option (List (List Byte) × ℕ × σ)
  | [], t, s => some ([], t, s)
  | b :: buffers, t, s => do
    let (count, b, t, s) ← readBytesUntil S clock timeout terminator polls b.length b t s
    let (records, t, s) ← readRecords S clock timeout terminator polls buffers t s
    some (b.take count :: records, t, s)

lemma readRecords_exact (h : Supplies S clock timeout R) (hpass : Passes clock timeout)
    (terminator : Byte) (buffers : List (List Byte)) {l : List Byte} {t : ℕ} {s : σ}
    (hs : R t s l) :
    ∃ enough t' s', R t' s' (behind (endsRecord terminator) (buffers.map List.length) l) ∧
      ∀ polls ≥ enough, readRecords S clock timeout terminator polls buffers t s =
        some (split (endsRecord terminator) (buffers.map List.length) l, t', s') := by
  induction buffers generalizing l t s with
  | nil => exact ⟨0, t, s, hs, fun _ _ => rfl⟩
  | cons b buffers ih =>
    obtain ⟨enough, t', s', hs', hread⟩ :=
      readBytesUntil_exact h hpass terminator hs (Nat.le_refl b.length)
    obtain ⟨enough', t'', s'', hs'', hrun⟩ := ih hs'
    refine ⟨max enough enough', t'', s'', hs'', fun polls hpolls => ?_⟩
    rw [readRecords, hread polls (le_of_max_le_left hpolls)]
    dsimp only [Option.bind_eq_bind, Option.bind_some]
    rw [hrun polls (le_of_max_le_right hpolls), Option.bind_some]
    dsimp only
    rw [overwrite, List.take_zero, List.nil_append, List.take_left]
    rfl

/-- Bytes that have been sent as records with a terminator behind each of them are read back as
these records, one for each call of `readBytesUntil`, if each buffer is longer than its record. Any
other bytes are taken apart in the same way, and those behind the last call are left to be read. -/
theorem readRecords_joined (h : Supplies S clock timeout R) (hpass : Passes clock timeout)
    {terminator : Byte} (hascii : terminator.toNat < 0x80) (buffers : List (List Byte))
    {l : List Byte} {t : ℕ} {s : σ} (hs : R t s l) :
    ∃ enough t' s', R t' s' (behind (endsRecord terminator) (buffers.map List.length) l) ∧
      (∀ polls ≥ enough, readRecords S clock timeout terminator polls buffers t s =
        some (split (endsRecord terminator) (buffers.map List.length) l, t', s')) ∧
      ∀ records later, l = join terminator records ++ later →
        List.Forall₂ (fun r b => terminator ∉ r ∧ r.length < b.length) records buffers →
        R t' s' later ∧ ∀ polls ≥ enough,
          readRecords S clock timeout terminator polls buffers t s = some (records, t', s') := by
  obtain ⟨enough, t', s', hs', hrun⟩ := readRecords_exact h hpass terminator buffers hs
  refine ⟨enough, t', s', hs', hrun, ?_⟩
  rintro records later rfl hrecords
  have hstop : endsRecord terminator terminator = true := by
    unfold endsRecord
    rw [decide_eq_true rfl, decide_eq_true hascii]
    rfl
  have hfits : List.Forall₂ (fun r n => (∀ a ∈ r, endsRecord terminator a = false) ∧ r.length < n)
      records (buffers.map List.length) := by
    rw [List.forall₂_map_right_iff]
    refine hrecords.imp fun r b hr => ⟨fun a ha => ?_, hr.2⟩
    have hne : ¬a = terminator := fun heq => hr.1 (heq ▸ ha)
    unfold endsRecord
    rw [decide_eq_false hne, Bool.false_and]
  obtain ⟨hsplit, hbehind⟩ := split_join hstop hfits later
  rw [hbehind] at hs'
  rw [hsplit] at hrun
  exact ⟨hs', hrun⟩

/-! ### Strings -/

lemma concatChar_appends {m : List Byte} {ret : WString} (hret : WString.HasText m ret) {c : Byte}
    (hc : c ≠ 0) (fresh : Fresh) : ∃ r, ret.concatChar c fresh = some r ∧
      ((WString.HasText (m ++ [c]) r.2 ∧ r.1 = true) ∨ WString.HasText m r.2 ∧
        ¬(fresh.isSome ∧ m.length + 2 < 2 ^ 31)) := by
  have hlen := hret.len
  have hnot : ¬ret.AppendsZero c fresh := fun hbad => hc hbad.1
  obtain ⟨r, hr, htrue, hfalse⟩ := hret.concatChar hnot
  obtain ⟨r', hr', hiff, -⟩ := SumTerm.concat_concats hret (WString.points_char ret hc) fresh
  have hsame : r = r' := Option.some.inj (hr.symm.trans hr')
  refine ⟨r, hr, ?_⟩
  cases hflag : r.1 with
  | true => exact .inl ⟨htrue hflag, rfl⟩
  | false =>
    right
    rw [hfalse hflag]
    refine ⟨hret, fun hmemory => ?_⟩
    have hyes : r.1 = true := by
      rw [hsame]
      exact hiff.mpr (.inr (.inr ⟨hmemory.1, by rw [List.length_singleton]; omega⟩))
    rw [hflag] at hyes
    cases hyes

/-- With memory for every character. -/
def Roomy (fresh : ℕ → Fresh) (length : ℕ) : Prop := (∀ k, (fresh k).isSome) ∧ length + 1 < 2 ^ 31

lemma readStringLoop_exact (h : Supplies S clock timeout R) (hpass : Passes clock timeout)
    (htimeout : stops (-1) = true) (fresh : ℕ → Fresh) {l m : List Byte} {ret : WString}
    (hret : WString.HasText m ret) {t : ℕ} {s : σ} (hs : R t s l) {n : ℕ} (hn : l.length < n)
    (hzero : 0 ∉ record (stopsOn stops) n l) (k : ℕ) :
    ∃ enough t' s' ret' m', R t' s' (rest (stopsOn stops) n l) ∧
      WString.HasText (m ++ m') ret' ∧ List.Sublist m' (record (stopsOn stops) n l) ∧
      (Roomy fresh (m.length + (record (stopsOn stops) n l).length) →
        m' = record (stopsOn stops) n l) ∧
      ∀ polls ≥ enough, ∀ turns ≥ enough,
        readStringLoop S clock timeout stops fresh polls turns k ret t s =
          some (ret', t', s') := by
  induction n generalizing l m ret t s k with
  | zero => exact absurd hn (Nat.not_lt_zero _)
  | succ n ih =>
    cases l with
    | nil =>
      obtain ⟨enough, t', s', hs', hread⟩ := h.timedRead_silence hpass hs
      refine ⟨enough + 1, t', s', ret, [], by rwa [rest_nil], by rwa [List.append_nil],
        List.nil_sublist _, fun _ => (record_nil _ _).symm, fun polls hpolls turns hturns => ?_⟩
      obtain ⟨turns, rfl⟩ : ∃ j, turns = j + 1 := ⟨turns - 1, by omega⟩
      rw [readStringLoop, hread polls (by omega)]
      dsimp only [Option.bind_eq_bind, Option.bind_some]
      rw [if_pos htimeout]
    | cons a l =>
      obtain ⟨enough, t', s', hs', hread⟩ := h.timedRead_byte hs
      cases ha : stopsOn stops a with
      | true =>
        refine ⟨enough + 1, t', s', ret, [], by rwa [rest_stop ha], by rwa [List.append_nil],
          List.nil_sublist _, fun _ => (record_stop ha _ _).symm, fun polls hpolls turns hturns => ?_⟩
        obtain ⟨turns, rfl⟩ : ∃ j, turns = j + 1 := ⟨turns - 1, by omega⟩
        rw [readStringLoop, hread polls (by omega)]
        dsimp only [Option.bind_eq_bind, Option.bind_some]
        rw [if_pos (show stops (a.toNat : ℤ) = true from ha)]
      | false =>
        rw [record_pass ha] at hzero ⊢
        have hne : a ≠ 0 := fun heq => hzero (heq ▸ List.mem_cons_self)
        have hlater : 0 ∉ record (stopsOn stops) n l := fun hmem =>
          hzero (List.mem_cons_of_mem a hmem)
        have hshort : l.length < n := Nat.lt_of_succ_lt_succ hn
        have hnext : ∀ polls, enough ≤ polls → ∀ turns r, ret.concatChar a (fresh k) = some r →
            readStringLoop S clock timeout stops fresh polls (turns + 1) k ret t s =
              readStringLoop S clock timeout stops fresh polls turns (k + 1) r.2 t' s' := by
          intro polls hpolls turns r hr
          rw [readStringLoop, hread polls hpolls]
          dsimp only [Option.bind_eq_bind, Option.bind_some]
          rw [if_neg (show ¬stops (a.toNat : ℤ) = true from Bool.eq_false_iff.mp ha), ofInt_toNat,
            hr, Option.bind_some]
        obtain ⟨r, hr, hcases⟩ := concatChar_appends hret hne (fresh k)
        rw [rest_pass ha]
        rcases hcases with ⟨htext, -⟩ | ⟨htext, hnomem⟩
        · obtain ⟨enough', t'', s'', ret', m', hs'', hret', hsub, hroomy, hrun⟩ :=
            ih htext hs' hshort hlater (k + 1)
          refine ⟨enough + enough' + 1, t'', s'', ret', a :: m', hs'', ?_, hsub.cons_cons a, ?_,
            fun polls hpolls turns hturns => ?_⟩
          · rwa [List.append_assoc, List.singleton_append] at hret'
          · intro hroom
            rw [hroomy]
            refine ⟨hroom.1, ?_⟩
            have hsize := hroom.2
            rw [List.length_cons] at hsize
            rw [List.length_append, List.length_singleton]
            omega
          · obtain ⟨turns, rfl⟩ : ∃ j, turns = j + 1 := ⟨turns - 1, by omega⟩
            rw [hnext polls (by omega) turns r hr]
            exact hrun polls (by omega) turns (by omega)
        · obtain ⟨enough', t'', s'', ret', m', hs'', hret', hsub, -, hrun⟩ :=
            ih htext hs' hshort hlater (k + 1)
          refine ⟨enough + enough' + 1, t'', s'', ret', m', hs'', hret', hsub.cons a, ?_,
            fun polls hpolls turns hturns => ?_⟩
          · intro hroom
            have hsize := hroom.2
            rw [List.length_cons] at hsize
            exact absurd ⟨hroom.1 k, by omega⟩ hnomem
          · obtain ⟨turns, rfl⟩ : ∃ j, turns = j + 1 := ⟨turns - 1, by omega⟩
            rw [hnext polls (by omega) turns r hr]
            exact hrun polls (by omega) turns (by omega)

/-- Every byte that comes before one at which it stops, or before the silence, is read into the
string, as far as there is memory for it. -/
lemma readStringWhile_exact (h : Supplies S clock timeout R) (hpass : Passes clock timeout)
    (htimeout : stops (-1) = true) (fresh : ℕ → Fresh) {l : List Byte} {t : ℕ} {s : σ}
    (hs : R t s l) {n : ℕ} (hn : l.length < n) (hzero : 0 ∉ record (stopsOn stops) n l) :
    ∃ enough t' s' ret m, R t' s' (rest (stopsOn stops) n l) ∧ WString.HasText m ret ∧
      List.Sublist m (record (stopsOn stops) n l) ∧
      (Roomy fresh (record (stopsOn stops) n l).length → m = record (stopsOn stops) n l) ∧
      ∀ polls ≥ enough, ∀ turns ≥ enough,
        readStringWhile S clock timeout stops fresh polls turns t s = some (ret, t', s') := by
  have hempty : WString.Points WString.init (.apart [0]) [] :=
    WString.points_apart _ List.not_mem_nil (by decide) (List.prefix_refl _)
  obtain ⟨ret, hret, hcopied⟩ := WString.sound_init.copyPointer hempty (fresh 0)
  obtain ⟨enough, t', s', ret', m, hs', hret', hsub, hroomy, hrun⟩ := readStringLoop_exact h hpass
    htimeout fresh hcopied.hasText_nil hs hn hzero 1
  rw [List.nil_append] at hret'
  rw [List.length_nil, Nat.zero_add] at hroomy
  refine ⟨enough, t', s', ret', m, hs', hret', hsub, hroomy, fun polls hpolls turns hturns => ?_⟩
  rw [readStringWhile, WString.ofCstr_eq, hret]
  exact hrun polls hpolls turns hturns

/-- Calls of `readStringUntil` one after the other, each with the memory that it finds. -/
def readStrings (S : Stream σ) (clock : ℕ → Word) (timeout : Word) (terminator : Byte)
    (polls turns : ℕ) : List (ℕ → Fresh) → ℕ → σ → Option (List WString × ℕ × σ)
  | [], t, s => some ([], t, s)
  | fresh :: memories, t, s => do
    let (ret, t, s) ← readStringUntil S clock timeout terminator fresh polls turns t s
    let (strings, t, s) ← readStrings S clock timeout terminator polls turns memories t s
    some (ret :: strings, t, s)

/-- The string that a call gives for a record: the record, or what there was memory for. -/
def ReadsRecord (sent : List Byte × (ℕ → Fresh)) (ret : WString) : Prop :=
  ∃ m, WString.HasText m ret ∧ List.Sublist m sent.1 ∧ (Roomy sent.2 sent.1.length → m = sent.1)

lemma readStringUntil_exact (h : Supplies S clock timeout R) (hpass : Passes clock timeout)
    {terminator : Byte} (hascii : terminator.toNat < 0x80) (fresh : ℕ → Fresh) {r later : List Byte}
    (hterminator : terminator ∉ r) (hzero : 0 ∉ r) {t : ℕ} {s : σ}
    (hs : R t s (r ++ terminator :: later)) :
    ∃ enough t' s' ret, R t' s' later ∧ ReadsRecord (r, fresh) ret ∧
      ∀ polls ≥ enough, ∀ turns ≥ enough,
        readStringUntil S clock timeout terminator fresh polls turns t s = some (ret, t', s') := by
  generalize hl : r ++ terminator :: later = l at hs
  have hpasses : ∀ a ∈ r, endsRecord terminator a = false := by
    intro a ha
    have hne : ¬a = terminator := fun heq => hterminator (heq ▸ ha)
    rw [endsRecord, decide_eq_false hne, Bool.false_and]
  have hstop : endsRecord terminator terminator = true := by
    rw [endsRecord, decide_eq_true rfl, decide_eq_true hascii, Bool.true_and]
  have hroom : r.length < l.length + 1 := by
    rw [← hl, List.length_append]
    omega
  obtain ⟨hrecord, hunread⟩ := record_append hpasses hstop hroom later
  rw [hl, ← stopsOn_until] at hrecord hunread
  obtain ⟨enough, t', s', ret, m, hs', hret, hsub, hroomy, hread⟩ := readStringWhile_exact h hpass
    rfl fresh hs (Nat.lt_succ_self l.length) (hrecord ▸ hzero)
  rw [hrecord] at hsub hroomy
  rw [hunread] at hs'
  exact ⟨enough, t', s', ret, hs', ⟨m, hret, hsub, hroomy⟩, hread⟩

lemma readString_exact (h : Supplies S clock timeout R) (hpass : Passes clock timeout)
    (fresh : ℕ → Fresh) {l : List Byte} (hzero : 0 ∉ l) {t : ℕ} {s : σ} (hs : R t s l) :
    ∃ enough t' s' ret, R t' s' [] ∧ ReadsRecord (l, fresh) ret ∧
      ∀ polls ≥ enough, ∀ turns ≥ enough,
        readString S clock timeout fresh polls turns t s = some (ret, t', s') := by
  have hrecord : record (stopsOn timedOut) (l.length + 1) l = l := by
    rw [stopsOn_timeout, record_all, List.take_of_length_le (Nat.le_succ _)]
  have hunread : rest (stopsOn timedOut) (l.length + 1) l = [] := by
    rw [stopsOn_timeout, rest_all, List.drop_of_length_le (Nat.le_succ _)]
  obtain ⟨enough, t', s', ret, m, hs', hret, hsub, hroomy, hread⟩ := readStringWhile_exact h hpass
    rfl fresh hs (Nat.lt_succ_self l.length) (hrecord.symm ▸ hzero)
  rw [hrecord] at hsub hroomy
  rw [hunread] at hs'
  exact ⟨enough, t', s', ret, hs', ⟨m, hret, hsub, hroomy⟩, hread⟩

/-- Lines that arrive with a terminator behind each of them are read by one call of
`readStringUntil` each, and what is behind the last one by a call of `readString`. A call that runs
out of memory loses characters of its own line only. -/
theorem readStrings_joined (h : Supplies S clock timeout R) (hpass : Passes clock timeout)
    {terminator : Byte} (hascii : terminator.toNat < 0x80)
    {sent : List (List Byte × (ℕ → Fresh))} (hsent : ∀ r ∈ sent, terminator ∉ r.1 ∧ 0 ∉ r.1)
    (later : List Byte) {t : ℕ} {s : σ}
    (hs : R t s (join terminator (sent.map Prod.fst) ++ later)) :
    ∃ enough t' s' strings, R t' s' later ∧ List.Forall₂ ReadsRecord sent strings ∧
      (∀ polls ≥ enough, ∀ turns ≥ enough,
        readStrings S clock timeout terminator polls turns (sent.map Prod.snd) t s =
          some (strings, t', s')) ∧
      ∀ fresh, 0 ∉ later → ∃ enough' t'' s'' ret, R t'' s'' [] ∧ ReadsRecord (later, fresh) ret ∧
        ∀ polls ≥ enough', ∀ turns ≥ enough',
          readString S clock timeout fresh polls turns t' s' = some (ret, t'', s'') := by
  induction sent generalizing t s with
  | nil =>
    exact ⟨0, t, s, [], hs, .nil, fun _ _ _ _ => rfl,
      fun fresh hlater => readString_exact h hpass fresh hlater hs⟩
  | cons r sent ih =>
    obtain ⟨⟨hterminator, hzero⟩, hrest⟩ := List.forall_mem_cons.mp hsent
    have hjoin : join terminator ((r :: sent).map Prod.fst) ++ later =
        r.1 ++ terminator :: (join terminator (sent.map Prod.fst) ++ later) := by
      simp [join]
    rw [hjoin] at hs
    obtain ⟨enough, t', s', ret, hs', hret, hread⟩ :=
      readStringUntil_exact h hpass hascii r.2 hterminator hzero hs
    obtain ⟨enough', t'', s'', strings, hs'', hstrings, hrun, hlater⟩ := ih hrest hs'
    refine ⟨max enough enough', t'', s'', ret :: strings, hs'', .cons hret hstrings,
      fun polls hpolls turns hturns => ?_, hlater⟩
    rw [List.map_cons, readStrings,
      hread polls (le_of_max_le_left hpolls) turns (le_of_max_le_left hturns)]
    dsimp only [Option.bind_eq_bind, Option.bind_some]
    rw [hrun polls (le_of_max_le_right hpolls) turns (le_of_max_le_right hturns)]
    rfl

/-! ### Searches with one target -/

/-- The characters up to `e` end with the target, and no earlier part of them does. -/
structure EndsFirst (target l : List Byte) (e : ℕ) : Prop where
  within : e ≤ l.length
  ends : target <:+ l.take e
  earliest : ∀ e' < e, ¬target <:+ l.take e'

/-- The strings that `findUntil` looks for. -/
def searchTargets (target : List Byte) (targetLen : ℕ) (terminator : Option (List Byte))
    (termLen : ℕ) : List MultiTarget :=
  ⟨target, targetLen, 0⟩ :: (terminator.map fun str => ⟨str, termLen, 0⟩).toList

lemma findUntil_eq (polls turns : ℕ) (target : List Byte) (targetLen : ℕ)
    (terminator : Option (List Byte)) (termLen t : ℕ) (s : σ) :
    findUntil S clock timeout polls turns target targetLen terminator termLen t s =
      (findMulti S clock timeout polls turns (searchTargets target targetLen terminator termLen)
        t s).map fun r => (decide (r.1 = 0), r.2.2) := by
  cases terminator <;> rfl

variable {target : MultiTarget} {others : List MultiTarget} {l : List Byte}

lemma endsFirst_of_firstEnd {e : ℕ}
    (h : Search.FirstEnd ((target :: others).map MultiTarget.text) l 0 e) :
    EndsFirst target.text l e ∧ ∀ other ∈ others, ∀ e' < e, ¬other.text <:+ l.take e' := by
  obtain ⟨pat, hpat, hends⟩ := h.occurs
  obtain rfl : target.text = pat := Option.some.inj hpat
  refine ⟨⟨h.within, hends, fun e' he' => h.earliest e' he' _ List.mem_cons_self⟩, ?_⟩
  intro other hother e' he'
  exact h.earliest e' he' _ (List.mem_cons_of_mem _ (List.mem_map_of_mem hother))

lemma other_first_of_firstEnd {i e : ℕ}
    (h : Search.FirstEnd ((target :: others).map MultiTarget.text) l (i + 1) e) :
    ∃ other ∈ others, other.text <:+ l.take e ∧ ∀ e' ≤ e, ¬target.text <:+ l.take e' := by
  obtain ⟨pat, hpat, hends⟩ := h.occurs
  rw [List.map_cons, List.getElem?_cons_succ, List.getElem?_map] at hpat
  obtain ⟨other, hother, rfl⟩ := Option.map_eq_some_iff.mp hpat
  refine ⟨other, List.mem_of_getElem? hother, hends, fun e' he' => ?_⟩
  rcases Nat.lt_or_eq_of_le he' with hlt | rfl
  · exact h.earliest e' hlt _ List.mem_cons_self
  · exact h.lowest 0 (Nat.succ_pos i) _ rfl

lemma not_infix_of_not_ends {pat : List Byte} (h : ¬pat <:+: l) {e : ℕ} : ¬pat <:+ l.take e :=
  fun hends => h (hends.isInfix.trans (List.take_prefix e l).isInfix)

lemma EndsFirst.unique {pat : List Byte} {e e' : ℕ} (h : EndsFirst pat l e)
    (h' : EndsFirst pat l e') : e = e' := by
  rcases Nat.lt_trichotomy e e' with hlt | heq | hlt
  · exact absurd h.ends (h'.earliest e hlt)
  · exact heq
  · exact absurd h'.ends (h.earliest e' hlt)

/-- What a search for the target up to the terminator is to answer and to leave unread. -/
structure FindsUntil (target : List Byte) (terminator : Option (List Byte)) (l : List Byte)
    (found : Bool) (unread : List Byte) : Prop where
  found_iff : found = true ↔ ∃ e, EndsFirst target l e ∧
    ∀ term ∈ terminator, ∀ e' < e, ¬term <:+ l.take e'
  behind_target : found = true → ∀ e, EndsFirst target l e → unread = l.drop e
  behind_terminator : found = false → ∀ term ∈ terminator, ∀ e, EndsFirst term l e →
    unread = l.drop e
  exhausted : found = false → (∀ term ∈ terminator, ¬term <:+: l) → unread = []

lemma mem_searchTargets {str str' : List Byte} {targetLen termLen : ℕ}
    {terminator : Option (List Byte)} (h : terminator = some str') :
    ⟨str', termLen, 0⟩ ∈ searchTargets str targetLen terminator termLen := by
  rw [h]
  exact List.mem_cons_of_mem _ (List.mem_singleton_self _)

lemma findsUntil_of_firstEnd {str : List Byte} {targetLen termLen : ℕ}
    {terminator : Option (List Byte)} {i e : ℕ}
    (hfirst : Search.FirstEnd
      ((searchTargets str targetLen terminator termLen).map MultiTarget.text) l i e) :
    FindsUntil (str.take targetLen) (terminator.map (List.take termLen)) l (decide ((i : ℤ) = 0))
      (l.drop e) := by
  cases i with
  | zero =>
    obtain ⟨htarget, hothers⟩ := endsFirst_of_firstEnd hfirst
    refine ⟨iff_of_true rfl ⟨e, htarget, ?_⟩, fun _ e' he' => ?_, fun hno => Bool.noConfusion hno,
      fun hno => Bool.noConfusion hno⟩
    · intro term hterm
      obtain ⟨str', hstr', rfl⟩ := Option.map_eq_some_iff.mp hterm
      apply hothers ⟨str', termLen, 0⟩
      rw [hstr']
      exact List.mem_singleton_self _
    · rw [he'.unique htarget]
  | succ i =>
    obtain ⟨other, hother, hends, hbefore⟩ := other_first_of_firstEnd hfirst
    have hfalse : decide (((i + 1 : ℕ) : ℤ) = 0) = false := decide_eq_false (by omega)
    rw [Option.mem_toList] at hother
    obtain ⟨str', hstr', rfl⟩ := Option.map_eq_some_iff.mp hother
    have hterm' : str'.take termLen ∈ terminator.map (List.take termLen) := by
      rw [hstr']
      rfl
    rw [hfalse]
    refine ⟨iff_of_false Bool.false_ne_true ?_, fun hno => Bool.noConfusion hno, ?_, ?_⟩
    · rintro ⟨e', htarget, hterm⟩
      by_cases hle : e' ≤ e
      · exact hbefore e' hle htarget.ends
      · exact hterm _ hterm' e (Nat.lt_of_not_le hle) hends
    · rintro - term hterm e' he'
      obtain rfl := Option.mem_unique hterm' hterm
      have hsame : EndsFirst (str'.take termLen) l e := by
        refine ⟨hfirst.within, hends, fun e' hlt => ?_⟩
        exact hfirst.earliest e' hlt (MultiTarget.text ⟨str', termLen, 0⟩)
          (List.mem_map_of_mem (mem_searchTargets hstr'))
      rw [he'.unique hsame]
    · intro _ hnone
      exact absurd hends (not_infix_of_not_ends (hnone _ hterm'))

lemma findsUntil_of_none {str : List Byte} {targetLen termLen : ℕ}
    {terminator : Option (List Byte)}
    (hnone : ∀ target ∈ searchTargets str targetLen terminator termLen, ¬target.text <:+: l) :
    FindsUntil (str.take targetLen) (terminator.map (List.take termLen)) l
      (decide ((-1 : ℤ) = 0)) [] := by
  refine ⟨iff_of_false Bool.false_ne_true ?_, fun hno => Bool.noConfusion hno, ?_, fun _ _ => rfl⟩
  · rintro ⟨e, htarget, -⟩
    exact not_infix_of_not_ends (hnone _ List.mem_cons_self) htarget.ends
  · intro _ term hterm e he
    obtain ⟨str', hstr', rfl⟩ := Option.map_eq_some_iff.mp hterm
    exact absurd he.ends (not_infix_of_not_ends (hnone _ (mem_searchTargets hstr')))

/-- `findUntil`, and `find` without a terminator, finds the target exactly when it ends in the
stream and the terminator does not end before it. What is read next, by `readBytes` for one, is then
what stands right behind the target, or behind the terminator when that has been found; a search
that finds neither leaves nothing. -/
theorem findUntil_exact (h : Supplies S clock timeout R) (hpass : Passes clock timeout)
    {str : List Byte} {targetLen termLen : ℕ} {terminator : Option (List Byte)}
    (hfresh : ∀ target ∈ searchTargets str targetLen terminator termLen, target.Fresh)
    {t : ℕ} {s : σ} (hs : R t s l) :
    ∃ enough found unread t' s', R t' s' unread ∧
      FindsUntil (str.take targetLen) (terminator.map (List.take termLen)) l found unread ∧
      (∀ polls ≥ enough, ∀ turns ≥ enough,
        findUntil S clock timeout polls turns str targetLen terminator termLen t s =
            some (found, t', s') ∧
          (terminator = none →
            find S clock timeout polls turns str targetLen t s = some (found, t', s'))) ∧
      ∀ b n, n ≤ b.length → ∃ enough' t'' s'', R t'' s'' (unread.drop n) ∧ ∀ polls ≥ enough',
        readBytes S clock timeout polls n b t' s' =
          some ((unread.take n).length, overwrite b 0 (unread.take n), t'', s'') := by
  have hboth : ∀ {polls turns found t' s'},
      findUntil S clock timeout polls turns str targetLen terminator termLen t s =
          some (found, t', s') →
        findUntil S clock timeout polls turns str targetLen terminator termLen t s =
            some (found, t', s') ∧
          (terminator = none →
            find S clock timeout polls turns str targetLen t s = some (found, t', s')) := by
    intro polls turns found t' s' hruns
    refine ⟨hruns, ?_⟩
    rintro rfl
    exact hruns
  by_cases hnone : ∀ target ∈ searchTargets str targetLen terminator termLen,
      ¬target.text <:+: l
  · obtain ⟨enough, targets', t', s', hs', hruns⟩ := findMulti_exhausts h hpass hfresh hs hnone
    refine ⟨enough, _, [], t', s', hs', findsUntil_of_none hnone,
      fun polls hpolls turns hturns => hboth ?_, fun b n hfit => readBytes_exact h hpass hs' hfit⟩
    rw [findUntil_eq, hruns polls hpolls turns hturns]
    rfl
  · have hsome : ∃ pat ∈ (searchTargets str targetLen terminator termLen).map MultiTarget.text,
        pat <:+: l := by
      simpa only [not_forall, not_not, exists_prop, List.mem_map, exists_exists_and_eq_and]
        using hnone
    obtain ⟨i, e, hfirst⟩ := Search.exists_firstEnd hsome
    obtain ⟨enough, targets', t', s', hs', hruns⟩ := findMulti_finds h hfresh hs hfirst
    refine ⟨enough, _, l.drop e, t', s', hs', findsUntil_of_firstEnd hfirst,
      fun polls hpolls turns hturns => hboth ?_, fun b n hfit => readBytes_exact h hpass hs' hfit⟩
    rw [findUntil_eq, hruns polls hpolls turns hturns]
    rfl

end Exact

/-- Two records of a sensor, with a comma behind each of them and the beginning of a third. -/
theorem readRecords_joined_of_two : ∃ enough t' s', s' = [49] ∧ ∀ polls ≥ enough,
    readRecords ofList (fun t => BitVec.ofNat 32 t) 1 44 polls [[0, 0, 0], [0, 0, 0]] 0
      [50, 51, 44, 55, 44, 49] = some ([[50, 51], [55]], t', s') := by
  obtain ⟨enough, t', s', -, -, hjoined⟩ := readRecords_joined delivers_ofList.supplies
    passes_ofNat (show (44 : Byte).toNat < 0x80 by decide) [[0, 0, 0], [0, 0, 0]]
    (show [50, 51, 44, 55, 44, 49] = [50, 51, 44, 55, 44, 49] from rfl)
  obtain ⟨hs', hrun⟩ := hjoined [[50, 51], [55]] [49] rfl
    (.cons (by decide) (.cons (by decide) .nil))
  exact ⟨enough, t', s', hs', hrun⟩

/-- The same lines read as strings, the second without memory. -/
theorem readStrings_joined_of_two : ∃ enough t' s' strings, s' = [49] ∧
    List.Forall₂ ReadsRecord [([50, 51], fun _ => some fun _ => 7), ([55], fun _ => none)] strings ∧
    ∀ polls ≥ enough, ∀ turns ≥ enough,
      readStrings ofList (fun t => BitVec.ofNat 32 t) 1 44 polls turns
        [fun _ => some fun _ => 7, fun _ => none] 0 [50, 51, 44, 55, 44, 49] =
          some (strings, t', s') := by
  have hsent : ∀ r ∈ [(([50, 51] : List Byte), fun _ : ℕ => (some fun _ => 7 : Fresh)),
      ([55], fun _ => none)], (44 : Byte) ∉ r.1 ∧ (0 : Byte) ∉ r.1 := by
    intro r hr
    rcases List.mem_cons.mp hr with rfl | hr
    · decide
    · rw [List.mem_singleton.mp hr]
      decide
  obtain ⟨enough, t', s', strings, hs', hstrings, hrun, -⟩ := readStrings_joined
    delivers_ofList.supplies passes_ofNat (show (44 : Byte).toNat < 0x80 by decide) hsent [49]
    (t := 0) rfl
  exact ⟨enough, t', s', strings, hs', hstrings, hrun⟩

/-- The value behind `"a="`, before the end of the line. -/
theorem findUntil_exact_of_value : ∃ enough t' s', s' = [55, 10] ∧
    ∀ polls ≥ enough, ∀ turns ≥ enough,
      findUntil ofList (fun t => BitVec.ofNat 32 t) 1 polls turns [97, 61, 0] 2 (some [10, 0]) 1 0
        [98, 61, 97, 61, 55, 10] = some (true, t', s') := by
  have hfresh : ∀ target ∈ searchTargets [97, 61, 0] 2 (some [10, 0]) 1, target.Fresh := by
    intro target htarget
    rcases List.mem_cons.mp htarget with rfl | htarget
    · exact ⟨by decide, by decide, rfl, by decide⟩
    · rw [List.mem_singleton.mp htarget]
      exact ⟨by decide, by decide, rfl, by decide⟩
  obtain ⟨enough, found, unread, t', s', hs', hfinds, hrun, -⟩ := findUntil_exact
    delivers_ofList.supplies passes_ofNat hfresh (t := 0) rfl
  have hends : EndsFirst [97, 61] [98, 61, 97, 61, 55, 10] 4 :=
    ⟨by decide, by decide, by decide⟩
  have hfound : found = true := by
    refine hfinds.found_iff.mpr ⟨4, hends, fun term hterm => ?_⟩
    rw [← Option.some.inj hterm]
    decide
  have hunread : unread = [55, 10] := hfinds.behind_target hfound 4 hends
  rw [hunread] at hs'
  rw [hfound] at hrun
  exact ⟨enough, t', s', hs'.symm ▸ rfl, fun polls hpolls turns hturns =>
    (hrun polls hpolls turns hturns).1⟩

end Stream

end FrameworkXC32
