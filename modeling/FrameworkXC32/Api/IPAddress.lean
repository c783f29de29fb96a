import FrameworkXC32.Api.ParseInt
import Mathlib.Data.Fin.VecNotation

/-!
# `IPAddress`

The parser of dotted quads and the two printers. The parser stores each byte at the dot behind it,
and takes the digits between two dots for a number also where there are none.
-/

namespace FrameworkXC32
open Machine Numeral

/-- The four bytes of the union. -/
structure IPAddress where
  bytes : Fin 4 → Byte

namespace IPAddress

/-- The constructor from four octets. -/
def ofOctets (first second third fourth : Byte) : IPAddress := ⟨![first, second, third, fourth]⟩

def setByte (i : ℕ) (b : Byte) (a : IPAddress) : IPAddress :=
  ⟨fun j => if j.val = i then b else a.bytes j⟩

/-- The loop of `fromString` over the characters before the NUL. -/
def fromStringLoop : List Byte → BitVec 16 → ℕ → IPAddress → Bool × IPAddress
  | [], acc, dots, a => if dots ≠ 3 then (false, a) else (true, a.setByte 3 (acc.setWidth 8))
  | c :: address, acc, dots, a =>
    if Stream.isDigit c.toInt then
      let acc := acc * 10 + (c - 0x30).setWidth 16
      if acc > 255 then (false, a) else fromStringLoop address acc dots a
    else if c = 0x2e then
      if dots = 3 then (false, a)
      else fromStringLoop address 0 (dots + 1) (a.setByte dots (acc.setWidth 8))
    else (false, a)

def fromString (address : List Byte) (a : IPAddress) : Bool × IPAddress :=
  fromStringLoop address 0 0 a

section Printers

variable {σ : Type} (p : Print σ)

/-- The loop of `printTo`. -/
def printToLoop (a : IPAddress) : List (Fin 4) → Word → σ → Option (Word × σ)
  | [], n, s => some (n, s)
  | i :: is, n, s => do
    let (k, s) ← p.printUnsigned ((a.bytes i).setWidth 32) 10 s
    let n := n + k
    let (k, s) := p.write 0x2e s
    printToLoop a is (n + k) s

def printTo (a : IPAddress) (s : σ) : Option (Word × σ) := do
  let (n, s) ← printToLoop p a [0, 1, 2] 0 s
  let (k, s) ← p.printUnsigned ((a.bytes 3).setWidth 32) 10 s
  some (n + k, s)

end Printers

/-- What `sprintf` makes of `%u`. -/
def formatUnsigned (n : ℕ) : List Byte := (numeral 10 n).map fun d => BitVec.ofNat 8 (0x30 + d)

/-- Four groups with dots between them. -/
def quad (d₁ d₂ d₃ d₄ : List Byte) : List Byte :=
  d₁ ++ 0x2e :: (d₂ ++ 0x2e :: (d₃ ++ 0x2e :: d₄))

/-- What `sprintf` writes into `szRet`. -/
def text (a : IPAddress) : List Byte :=
  quad (formatUnsigned (a.bytes 0).toNat) (formatUnsigned (a.bytes 1).toNat)
    (formatUnsigned (a.bytes 2).toNat) (formatUnsigned (a.bytes 3).toNat)

/-- What `szRet` holds when it is made a `String`, `none` where the text and its NUL do not fit. -/
def toString (a : IPAddress) : Option (List Byte) :=
  if a.text.length + 1 ≤ 16 then some a.text else none

/-! ### Groups of digits -/

/-- The value of a group of digits. -/
def groupValue (g : List Byte) : ℕ := value 10 (g.map fun c => c.toNat - 0x30)

/-- Digits of a value that a byte can hold, or no digits at all. -/
def FitsByte (g : List Byte) : Prop := (∀ c ∈ g, Stream.isDigit c.toInt = true) ∧ groupValue g ≤ 255

instance (g : List Byte) : Decidable (FitsByte g) := inferInstanceAs (Decidable (_ ∧ _))

/-- The byte that a group stands for. -/
def octet (g : List Byte) : Byte := BitVec.ofNat 8 (groupValue g)

/-- The parser on groups, of which `dots` have been stored. -/
def storeGroups : List (List Byte) → ℕ → IPAddress → Bool × IPAddress
  | [], _, a => (false, a)
  | [g], dots, a => if FitsByte g ∧ dots = 3 then (true, a.setByte 3 (octet g)) else (false, a)
  | g :: g' :: gs, dots, a =>
    if FitsByte g ∧ dots ≠ 3 then storeGroups (g' :: gs) (dots + 1) (a.setByte dots (octet g))
    else (false, a)

lemma fitsByte_nil : FitsByte [] := ⟨fun _ h => absurd h List.not_mem_nil, Nat.zero_le _⟩

lemma groupValue_concat (g : List Byte) (c : Byte) :
    groupValue (g ++ [c]) = groupValue g * 10 + (c.toNat - 0x30) := by
  rw [groupValue, List.map_append, List.map_singleton, value_concat]
  rfl

lemma groupValue_le_append (g g' : List Byte) : groupValue g ≤ groupValue (g ++ g') := by
  rw [groupValue, groupValue, List.map_append]
  exact value_le_append (by decide) _ _

lemma FitsByte.of_append {g g' : List Byte} (h : FitsByte (g ++ g')) : FitsByte g :=
  ⟨fun c hc => h.1 c (List.mem_append_left g' hc), (groupValue_le_append g g').trans h.2⟩

lemma storeGroups_of_not_fits {g : List Byte} (h : ¬FitsByte g) (gs : List (List Byte)) (dots : ℕ)
    (a : IPAddress) : storeGroups (g :: gs) dots a = (false, a) := by
  cases gs with
  | nil => exact if_neg fun hand => h hand.1
  | cons g' gs => exact if_neg fun hand => h hand.1

lemma digit_range {c : Byte} (hc : Stream.isDigit c.toInt = true) :
    0x30 ≤ c.toNat ∧ c.toNat ≤ 0x39 := by
  have hlt := c.isLt
  rw [Stream.isDigit, Bool.and_eq_true, decide_eq_true_iff, decide_eq_true_iff,
    BitVec.toInt_eq_toNat_cond] at hc
  by_cases hsmall : 2 * c.toNat < 2 ^ 8
  · rw [if_pos hsmall] at hc
    omega
  · rw [if_neg hsmall] at hc
    omega

lemma acc_digit (v : ℕ) {c : Byte} (hc : Stream.isDigit c.toInt = true) :
    BitVec.ofNat 16 v * 10 + (c - 0x30).setWidth 16 =
      BitVec.ofNat 16 (v * 10 + (c.toNat - 0x30)) := by
  have hrange := digit_range hc
  have hdigit : (c - 0x30).setWidth 16 = BitVec.ofNat 16 (c.toNat - 0x30) := by
    have hle : (0x30 : Byte) ≤ c := hrange.1
    apply BitVec.eq_of_toNat_eq
    rw [BitVec.toNat_setWidth, BitVec.toNat_sub_of_le hle, BitVec.toNat_ofNat]
    rfl
  rw [hdigit, BitVec.ofNat_add, BitVec.ofNat_mul]
  rfl

lemma setWidth_acc {g : List Byte} (hg : FitsByte g) :
    (BitVec.ofNat 16 (groupValue g)).setWidth 8 = octet g := by
  have hle := hg.2
  apply BitVec.eq_of_toNat_eq
  rw [BitVec.toNat_setWidth, BitVec.toNat_ofNat, octet, BitVec.toNat_ofNat,
    Nat.mod_eq_of_lt (show groupValue g < 2 ^ 16 by omega)]

/-- The automaton over characters is the parser over groups; `p` is the part of the group that has
been read. -/
lemma fromStringLoop_eq (s p : List Byte) (hp : FitsByte p) (dots : ℕ) (a : IPAddress) :
    fromStringLoop s (BitVec.ofNat 16 (groupValue p)) dots a =
      storeGroups ((s.splitOn 0x2e).modifyHead (p ++ ·)) dots a := by
  induction s generalizing p dots a with
  | nil =>
    rw [fromStringLoop, List.splitOn_nil, List.modifyHead_cons, List.append_nil, setWidth_acc hp,
      storeGroups]
    by_cases hdots : dots = 3 <;> simp [hdots, hp]
  | cons c s ih =>
    rw [fromStringLoop, List.splitOn_cons_eq_if_modifyHead]
    by_cases hc : Stream.isDigit c.toInt = true
    · have hrange := digit_range hc
      have hdot : ¬(c == 0x2e) = true := by
        intro h
        rw [beq_iff_eq.mp h] at hrange
        exact absurd hrange.1 (by decide)
      have happend : (p ++ ·) ∘ List.cons c = ((p ++ [c]) ++ ·) := by
        funext l
        simp
      have hvalue := groupValue_concat p c
      have hp255 := hp.2
      obtain ⟨g, gs, hgs⟩ := List.exists_cons_of_ne_nil (List.splitOn_ne_nil 0x2e s)
      rw [if_pos hc, if_neg hdot, List.modifyHead_modifyHead, happend, acc_digit _ hc, ← hvalue]
      dsimp only
      by_cases hbig : groupValue (p ++ [c]) ≤ 255
      · have hsmall : ¬BitVec.ofNat 16 (groupValue (p ++ [c])) > 255 := by
          intro hgt
          have hgt' : (255 : BitVec 16).toNat < (BitVec.ofNat 16 (groupValue (p ++ [c]))).toNat := hgt
          rw [BitVec.toNat_ofNat, Nat.mod_eq_of_lt (by omega)] at hgt'
          exact absurd hbig (not_le.mpr hgt')
        have hfits : FitsByte (p ++ [c]) := by
          refine ⟨fun d hd => ?_, hbig⟩
          rcases List.mem_append.mp hd with hd | hd
          · exact hp.1 d hd
          · rw [List.mem_singleton.mp hd]
            exact hc
        rw [if_neg hsmall]
        exact ih (p ++ [c]) hfits dots a
      · have hlarge : BitVec.ofNat 16 (groupValue (p ++ [c])) > 255 := by
          change (255 : BitVec 16).toNat < (BitVec.ofNat 16 (groupValue (p ++ [c]))).toNat
          rw [BitVec.toNat_ofNat, Nat.mod_eq_of_lt (by omega)]
          exact not_le.mp hbig
        have hno : ¬FitsByte ((p ++ [c]) ++ g) := fun h => hbig h.of_append.2
        rw [if_pos hlarge, hgs, List.modifyHead_cons, storeGroups_of_not_fits hno]
    · obtain ⟨g, gs, hgs⟩ := List.exists_cons_of_ne_nil (List.splitOn_ne_nil 0x2e s)
      rw [if_neg hc]
      by_cases hdot : c = 0x2e
      · subst hdot
        have hrest := ih [] fitsByte_nil (dots + 1) (a.setByte dots (octet p))
        rw [if_pos rfl, if_pos (beq_self_eq_true _), List.modifyHead_cons, List.append_nil, hgs,
          storeGroups, setWidth_acc hp]
        rw [hgs] at hrest
        by_cases hdots : dots = 3
        · simp [hdots]
        · rw [if_neg hdots, if_pos ⟨hp, hdots⟩]
          exact hrest
      · have hno : ¬FitsByte (p ++ c :: g) := fun h => hc (h.1 c (by simp))
        rw [if_neg hdot, if_neg (fun h => hdot (beq_iff_eq.mp h)), hgs, List.modifyHead_cons,
          List.modifyHead_cons, storeGroups_of_not_fits hno]

lemma fromString_eq (s : List Byte) (a : IPAddress) :
    fromString s a = storeGroups (s.splitOn 0x2e) 0 a := by
  have h := fromStringLoop_eq s [] fitsByte_nil 0 a
  obtain ⟨g, gs, hgs⟩ := List.exists_cons_of_ne_nil (List.splitOn_ne_nil 0x2e s)
  rw [hgs] at h ⊢
  exact h

/-! ### What is accepted, and what is stored -/

/-- Four groups with the `dots` stored ones, and each of them fits. -/
def Accepted (gs : List (List Byte)) (dots : ℕ) : Prop :=
  gs.length + dots = 4 ∧ ∀ g ∈ gs, FitsByte g

instance (gs : List (List Byte)) (dots : ℕ) : Decidable (Accepted gs dots) :=
  inferInstanceAs (Decidable (_ ∧ _))

/-- The groups that a parse stores before it fails: those that end at a dot, up to the first that
does not fit, and three at most. -/
def storedGroups (gs : List (List Byte)) (dots : ℕ) : List (List Byte) :=
  (gs.dropLast.takeWhile fun g => FitsByte g).take (3 - dots)

def storeAll : List (List Byte) → ℕ → IPAddress → IPAddress
  | [], _, a => a
  | g :: gs, dots, a => storeAll gs (dots + 1) (a.setByte dots (octet g))

lemma accepted_singleton (g : List Byte) (dots : ℕ) :
    Accepted [g] dots ↔ FitsByte g ∧ dots = 3 := by
  rw [Accepted, List.forall_mem_singleton, List.length_singleton]
  constructor
  · rintro ⟨hlen, hg⟩
    exact ⟨hg, by omega⟩
  · rintro ⟨hg, rfl⟩
    exact ⟨rfl, hg⟩

lemma accepted_cons (g g' : List Byte) (gs : List (List Byte)) (dots : ℕ) :
    Accepted (g :: g' :: gs) dots ↔
      (FitsByte g ∧ dots ≠ 3) ∧ Accepted (g' :: gs) (dots + 1) := by
  rw [Accepted, Accepted, List.forall_mem_cons, List.length_cons, List.length_cons]
  constructor
  · rintro ⟨hlen, hg, hall⟩
    exact ⟨⟨hg, by omega⟩, by omega, hall⟩
  · rintro ⟨⟨hg, -⟩, hlen, hall⟩
    exact ⟨by omega, hg, hall⟩

lemma storedGroups_cons (g g' : List Byte) (gs : List (List Byte)) {dots : ℕ} (hdots : dots ≤ 3) :
    storedGroups (g :: g' :: gs) dots =
      if FitsByte g ∧ dots ≠ 3 then g :: storedGroups (g' :: gs) (dots + 1) else [] := by
  unfold storedGroups
  rw [List.dropLast_cons_cons]
  by_cases hg : FitsByte g
  · rw [List.takeWhile_cons_of_pos (by simpa using hg)]
    by_cases hthree : dots = 3
    · rw [if_neg fun h => h.2 hthree, hthree]
      rfl
    · have hleft : 3 - dots = 3 - (dots + 1) + 1 := by omega
      rw [if_pos ⟨hg, hthree⟩, hleft, List.take_succ_cons]
  · rw [List.takeWhile_cons_of_neg (by simpa using hg), if_neg fun h => hg h.1, List.take_nil]

/-- The parser over groups, by what it accepts and what it has stored when it stops. -/
lemma storeGroups_eq (g : List Byte) (gs : List (List Byte)) {dots : ℕ} (hdots : dots ≤ 3)
    (a : IPAddress) : storeGroups (g :: gs) dots a =
      if Accepted (g :: gs) dots then (true, storeAll (g :: gs) dots a)
      else (false, storeAll (storedGroups (g :: gs) dots) dots a) := by
  induction gs generalizing g dots a with
  | nil =>
    rw [storeGroups]
    by_cases hfits : FitsByte g ∧ dots = 3
    · rw [if_pos hfits, if_pos ((accepted_singleton g dots).mpr hfits), hfits.2]
      rfl
    · have hnone : storedGroups [g] dots = [] := List.take_nil
      rw [if_neg hfits, if_neg fun h => hfits ((accepted_singleton g dots).mp h), hnone]
      rfl
  | cons g' gs ih =>
    rw [storeGroups, storedGroups_cons g g' gs hdots]
    by_cases hfits : FitsByte g ∧ dots ≠ 3
    · rw [if_pos hfits, if_pos hfits, ih g' (by omega)]
      apply if_congr _ rfl rfl
      rw [accepted_cons]
      exact (and_iff_right hfits).symm
    · rw [if_neg hfits, if_neg hfits, if_neg]
      · rfl
      · rw [accepted_cons]
        exact fun h => hfits h.1

lemma bytes_storeAll (gs : List (List Byte)) (dots : ℕ) (a : IPAddress) (i : Fin 4) :
    (storeAll gs dots a).bytes i =
      if dots ≤ i then ((gs[i.val - dots]?).map octet).getD (a.bytes i) else a.bytes i := by
  induction gs generalizing dots a with
  | nil => simp [storeAll]
  | cons g gs ih =>
    rw [storeAll, ih]
    rcases lt_trichotomy i.val dots with hlt | heq | hgt
    · have hother : (a.setByte dots (octet g)).bytes i = a.bytes i := if_neg (by omega)
      rw [if_neg (by omega), if_neg (by omega), hother]
    · have hstored : (a.setByte dots (octet g)).bytes i = octet g := if_pos heq
      rw [if_neg (by omega), if_pos heq.ge, hstored, heq, Nat.sub_self]
      rfl
    · have hother : (a.setByte dots (octet g)).bytes i = a.bytes i := if_neg (by omega)
      have hindex : i.val - dots = i.val - (dots + 1) + 1 := by omega
      rw [if_pos (show dots + 1 ≤ i.val from hgt), if_pos hgt.le, hother, hindex,
        List.getElem?_cons_succ]

lemma fromString_cases (s : List Byte) (a : IPAddress) : fromString s a =
    if Accepted (s.splitOn 0x2e) 0 then (true, storeAll (s.splitOn 0x2e) 0 a)
    else (false, storeAll (storedGroups (s.splitOn 0x2e) 0) 0 a) := by
  obtain ⟨g, gs, hgs⟩ := List.exists_cons_of_ne_nil (List.splitOn_ne_nil 0x2e s)
  rw [fromString_eq, hgs]
  exact storeGroups_eq g gs (Nat.zero_le 3) a

/-! ### Dotted quads -/

/-- Digits, at least one, of a value that a byte can hold. -/
def IsOctet (g : List Byte) : Prop := g ≠ [] ∧ FitsByte g

/-- A quad with a group that is empty, and nothing wrong with the others. -/
def EmptyGroup (s : List Byte) : Prop :=
  ∃ d₁ d₂ d₃ d₄, s = quad d₁ d₂ d₃ d₄ ∧ (∀ d ∈ [d₁, d₂, d₃, d₄], FitsByte d) ∧
    [] ∈ [d₁, d₂, d₃, d₄]

lemma FitsByte.not_mem_dot {g : List Byte} (h : FitsByte g) : (0x2e : Byte) ∉ g :=
  fun hmem => absurd (h.1 _ hmem) (by decide)

lemma splitOn_quad {d₁ d₂ d₃ d₄ : List Byte} (h : ∀ d ∈ [d₁, d₂, d₃, d₄], FitsByte d) :
    (quad d₁ d₂ d₃ d₄).splitOn 0x2e = [d₁, d₂, d₃, d₄] := by
  have h₁ := (h d₁ (by simp)).not_mem_dot
  have h₂ := (h d₂ (by simp)).not_mem_dot
  have h₃ := (h d₃ (by simp)).not_mem_dot
  have h₄ := (h d₄ (by simp)).not_mem_dot
  rw [quad, List.splitOn_append_cons_self_of_not_mem h₁,
    List.splitOn_append_cons_self_of_not_mem h₂, List.splitOn_append_cons_self_of_not_mem h₃,
    List.splitOn_eq_singleton h₄]

lemma accepted_iff (s : List Byte) : Accepted (s.splitOn 0x2e) 0 ↔
    ∃ d₁ d₂ d₃ d₄, s = quad d₁ d₂ d₃ d₄ ∧ ∀ d ∈ [d₁, d₂, d₃, d₄], FitsByte d := by
  constructor
  · rintro ⟨hlen, hall⟩
    obtain ⟨d₁, d₂, d₃, d₄, hgs⟩ := List.length_eq_four.mp hlen
    rw [hgs] at hall
    have hs : [0x2e].intercalate (s.splitOn 0x2e) = s := List.intercalate_splitOn 0x2e
    refine ⟨d₁, d₂, d₃, d₄, ?_, hall⟩
    rw [← hs, hgs]
    simp [quad]
  · rintro ⟨d₁, d₂, d₃, d₄, rfl, hall⟩
    rw [splitOn_quad hall]
    exact ⟨rfl, hall⟩

lemma fromString_fst (s : List Byte) (a : IPAddress) :
    (fromString s a).1 = true ↔ Accepted (s.splitOn 0x2e) 0 := by
  rw [fromString_cases]
  by_cases h : Accepted (s.splitOn 0x2e) 0
  · rw [if_pos h]
    exact iff_of_true rfl h
  · rw [if_neg h]
    exact iff_of_false Bool.false_ne_true h

lemma fromString_quad {d₁ d₂ d₃ d₄ : List Byte} (h : ∀ d ∈ [d₁, d₂, d₃, d₄], FitsByte d)
    (a : IPAddress) : fromString (quad d₁ d₂ d₃ d₄) a =
      (true, ofOctets (octet d₁) (octet d₂) (octet d₃) (octet d₄)) := by
  have haccepted : Accepted [d₁, d₂, d₃, d₄] 0 := ⟨rfl, h⟩
  rw [fromString_cases, splitOn_quad h, if_pos haccepted]
  apply congrArg (Prod.mk true)
  apply congrArg IPAddress.mk
  funext i
  match i with
  | 0 | 1 | 2 | 3 => rfl

/-! ### The printers -/

lemma toNat_digit {d : ℕ} (hd : d < 10) : (BitVec.ofNat 8 (0x30 + d)).toNat = 0x30 + d := by
  rw [BitVec.toNat_ofNat, Nat.mod_eq_of_lt (by omega)]

lemma groupValue_formatUnsigned (n : ℕ) : groupValue (formatUnsigned n) = n := by
  have hdigits : (formatUnsigned n).map (fun c => c.toNat - 0x30) = numeral 10 n := by
    rw [formatUnsigned, List.map_map]
    apply (List.map_congr_left _).trans (List.map_id _)
    intro d hd
    have hten := lt_of_mem_numeral (by decide) hd
    change (BitVec.ofNat 8 (0x30 + d)).toNat - 0x30 = d
    rw [toNat_digit hten, Nat.add_sub_cancel_left]
  rw [groupValue, hdigits]
  exact value_numeral (by decide) n

lemma isDigit_formatUnsigned {n : ℕ} {c : Byte} (hc : c ∈ formatUnsigned n) :
    Stream.isDigit c.toInt = true := by
  have hall : ∀ d < 10, Stream.isDigit (BitVec.ofNat 8 (0x30 + d)).toInt = true := by decide
  obtain ⟨d, hd, rfl⟩ := List.mem_map.mp hc
  exact hall d (lt_of_mem_numeral (by decide) hd)

lemma isOctet_formatUnsigned (b : Byte) : IsOctet (formatUnsigned b.toNat) := by
  refine ⟨?_, fun c => isDigit_formatUnsigned, ?_⟩
  · rw [formatUnsigned, Ne, List.map_eq_nil_iff]
    exact numeral_ne_nil (by decide) _
  · rw [groupValue_formatUnsigned]
    exact Nat.le_of_lt_succ b.isLt

lemma octet_formatUnsigned (b : Byte) : octet (formatUnsigned b.toNat) = b := by
  rw [octet, groupValue_formatUnsigned, BitVec.ofNat_toNat, BitVec.setWidth_eq]

lemma length_formatUnsigned (b : Byte) : (formatUnsigned b.toNat).length ≤ 3 := by
  have hb := b.isLt
  rw [formatUnsigned, List.length_map]
  exact length_numeral_le (by decide) (by decide) (hb.trans (by decide))

lemma toString_eq (a : IPAddress) : a.toString = some a.text := by
  have h₀ := length_formatUnsigned (a.bytes 0)
  have h₁ := length_formatUnsigned (a.bytes 1)
  have h₂ := length_formatUnsigned (a.bytes 2)
  have h₃ := length_formatUnsigned (a.bytes 3)
  have hlen : a.text.length + 1 ≤ 16 := by
    simp only [text, quad, List.length_append, List.length_cons]
    omega
  exact if_pos hlen

lemma fromString_text (a b : IPAddress) : fromString a.text b = (true, a) := by
  rw [text, fromString_quad, octet_formatUnsigned, octet_formatUnsigned, octet_formatUnsigned,
    octet_formatUnsigned]
  · apply congrArg (Prod.mk true)
    apply congrArg IPAddress.mk
    funext i
    match i with
    | 0 | 1 | 2 | 3 => rfl
  · intro d hd
    simp only [List.mem_cons, List.not_mem_nil, or_false] at hd
    rcases hd with rfl | rfl | rfl | rfl <;> exact (isOctet_formatUnsigned _).2

lemma digits_eq_formatUnsigned (n : ℕ) : Print.digits 10 n = formatUnsigned n := by
  apply List.map_congr_left
  intro d hd
  have hten := lt_of_mem_numeral (by decide) hd
  apply BitVec.eq_of_toNat_eq
  rw [Stream.digitChar_ten hten, toNat_digit hten]

section Printing

variable {σ : Type} {p : Print σ} {written : σ → List Byte} (hp : p.Takes written)
include hp

lemma print_octet (b : Byte) (u : σ) : ∃ k v, p.printUnsigned (b.setWidth 32) 10 u = some (k, v) ∧
    written v = written u ++ formatUnsigned b.toNat := by
  have hbase : 2 ≤ (10 : Byte).toNat := by decide
  obtain ⟨k, v, hprint, hv⟩ := hp.printNumber (b.setWidth 32) hbase u
  refine ⟨k, v, hprint, ?_⟩
  rw [hv, ← digits_eq_formatUnsigned]
  have hb := b.isLt
  have hwide : (b.setWidth 32).toNat = b.toNat := by
    rw [BitVec.toNat_setWidth, Nat.mod_eq_of_lt (by omega)]
  rw [hwide]
  rfl

lemma printToLoop_text (a : IPAddress) (is : List (Fin 4)) (n : Word) (u : σ) :
    ∃ k v, printToLoop p a is n u = some (k, v) ∧ written v = written u ++
      is.flatMap fun i => formatUnsigned (a.bytes i).toNat ++ [0x2e] := by
  induction is generalizing n u with
  | nil => exact ⟨n, u, rfl, (List.append_nil _).symm⟩
  | cons i is ih =>
    obtain ⟨k₁, v₁, hprint, hv₁⟩ := print_octet hp (a.bytes i) u
    obtain ⟨-, hdot⟩ := hp 0x2e v₁
    obtain ⟨k, v, hrest, hv⟩ := ih (n + k₁ + (p.write 0x2e v₁).1) (p.write 0x2e v₁).2
    refine ⟨k, v, ?_, ?_⟩
    · rw [printToLoop, hprint]
      exact hrest
    · rw [hv, hdot, hv₁, List.flatMap_cons, List.append_assoc, List.append_assoc,
        List.append_assoc]

lemma printTo_text (a : IPAddress) (u : σ) :
    ∃ k v, printTo p a u = some (k, v) ∧ written v = written u ++ a.text := by
  obtain ⟨n, v₁, hloop, hv₁⟩ := printToLoop_text hp a [0, 1, 2] 0 u
  obtain ⟨k, v, hprint, hv⟩ := print_octet hp (a.bytes 3) v₁
  refine ⟨n + k, v, ?_, ?_⟩
  · rw [printTo, hloop]
    change (p.printUnsigned ((a.bytes 3).setWidth 32) 10 v₁ >>= _) = _
    rw [hprint]
    rfl
  · rw [hv, hv₁, List.append_assoc]
    simp [text, quad]

end Printing

/-! ### The parser against its grammar -/

/-- The parser takes the string exactly when it is a dotted quad, and stores its four values. -/
structure ParsesExactly (s : List Byte) (a : IPAddress) : Prop where
  accepts : (fromString s a).1 = true ↔
    ∃ d₁ d₂ d₃ d₄, s = quad d₁ d₂ d₃ d₄ ∧ ∀ d ∈ [d₁, d₂, d₃, d₄], IsOctet d
  stores : ∀ d₁ d₂ d₃ d₄, s = quad d₁ d₂ d₃ d₄ → (∀ d ∈ [d₁, d₂, d₃, d₄], IsOctet d) →
    (fromString s a).2 = ofOctets (octet d₁) (octet d₂) (octet d₃) (octet d₄)

lemma quad_injective {d₁ d₂ d₃ d₄ e₁ e₂ e₃ e₄ : List Byte}
    (h : quad d₁ d₂ d₃ d₄ = quad e₁ e₂ e₃ e₄) (hd : ∀ d ∈ [d₁, d₂, d₃, d₄], FitsByte d)
    (he : ∀ e ∈ [e₁, e₂, e₃, e₄], FitsByte e) : [d₁, d₂, d₃, d₄] = [e₁, e₂, e₃, e₄] := by
  rw [← splitOn_quad hd, h, splitOn_quad he]

lemma parsesExactly_iff (s : List Byte) (a : IPAddress) : ParsesExactly s a ↔ ¬EmptyGroup s := by
  constructor
  · rintro ⟨accepts, -⟩ ⟨d₁, d₂, d₃, d₄, rfl, hd, hempty⟩
    have htrue : (fromString (quad d₁ d₂ d₃ d₄) a).1 = true := by rw [fromString_quad hd]
    obtain ⟨e₁, e₂, e₃, e₄, heq, he⟩ := accepts.mp htrue
    rw [quad_injective heq hd fun e hmem => (he e hmem).2] at hempty
    exact (he [] hempty).1 rfl
  · intro hfull
    constructor
    · rw [fromString_fst, accepted_iff]
      constructor
      · rintro ⟨d₁, d₂, d₃, d₄, hs, hd⟩
        refine ⟨d₁, d₂, d₃, d₄, hs, fun d hmem => ⟨?_, hd d hmem⟩⟩
        rintro rfl
        exact hfull ⟨d₁, d₂, d₃, d₄, hs, hd, hmem⟩
      · rintro ⟨d₁, d₂, d₃, d₄, hs, hd⟩
        exact ⟨d₁, d₂, d₃, d₄, hs, fun d hmem => (hd d hmem).2⟩
    · rintro d₁ d₂ d₃ d₄ rfl hd
      rw [fromString_quad fun d hmem => (hd d hmem).2]

/-- `fromString` is exact but for quads with an empty group, which it takes with a zero for it. It
reads back what `toString` makes of any address, and `printTo` writes the same text. -/
theorem fromString_exact_iff (s : List Byte) (a : IPAddress) :
    (ParsesExactly s a ↔ ¬EmptyGroup s) ∧
    ∃ text, a.toString = some text ∧ (∀ b, fromString text b = (true, a)) ∧
      ∀ (σ : Type) (p : Print σ) (written : σ → List Byte), p.Takes written → ∀ u,
        ∃ k v, printTo p a u = some (k, v) ∧ written v = written u ++ text := by
  refine ⟨parsesExactly_iff s a, a.text, toString_eq a, fromString_text a, ?_⟩
  intro σ p written hp u
  exact printTo_text hp a u

/-- "1..2.3" is taken for 1.0.2.3. -/
theorem fromString_takes_empty_group :
    fromString [0x31, 0x2e, 0x2e, 0x32, 0x2e, 0x33] (ofOctets 9 9 9 9) =
        (true, ofOctets 1 0 2 3) ∧
      ¬ParsesExactly [0x31, 0x2e, 0x2e, 0x32, 0x2e, 0x33] (ofOctets 9 9 9 9) := by
  have hd : ∀ d ∈ [[0x31], [], [0x32], [0x33]], FitsByte d := by
    simp [FitsByte, groupValue, value, Stream.isDigit]
  constructor
  · exact fromString_quad hd _
  · rw [parsesExactly_iff]
    exact not_not_intro ⟨[0x31], [], [0x32], [0x33], rfl, hd, by decide⟩

/-! ### A parse that fails -/

/-- A parse that fails stores the groups that end at a dot, up to the first that does not fit and
three at most. The other bytes keep their values, the last one always. -/
theorem fromString_failed (s : List Byte) (a : IPAddress) (hfail : (fromString s a).1 = false) :
    (∀ i : Fin 4, (fromString s a).2.bytes i =
      (((storedGroups (s.splitOn 0x2e) 0)[i.val]?).map octet).getD (a.bytes i)) ∧
    (fromString s a).2.bytes 3 = a.bytes 3 := by
  have hno : ¬Accepted (s.splitOn 0x2e) 0 := by
    intro h
    rw [(fromString_fst s a).mpr h] at hfail
    cases hfail
  have hbytes : ∀ i : Fin 4, (fromString s a).2.bytes i =
      (((storedGroups (s.splitOn 0x2e) 0)[i.val]?).map octet).getD (a.bytes i) := by
    intro i
    rw [fromString_cases, if_neg hno]
    dsimp only
    rw [bytes_storeAll, if_pos (Nat.zero_le _), Nat.sub_zero]
  have hthree : (storedGroups (s.splitOn 0x2e) 0).length ≤ 3 := List.length_take_le 3 _
  have hlast : (storedGroups (s.splitOn 0x2e) 0)[(3 : Fin 4).val]? = none :=
    List.getElem?_eq_none hthree
  refine ⟨hbytes, ?_⟩
  rw [hbytes 3, hlast]
  rfl

/-- "1.2.x" is refused, and leaves 1.2.9.9 where 9.9.9.9 was. -/
theorem fromString_failed_changes :
    (fromString [0x31, 0x2e, 0x32, 0x2e, 0x78] (ofOctets 9 9 9 9)).1 = false ∧
      (fromString [0x31, 0x2e, 0x32, 0x2e, 0x78] (ofOctets 9 9 9 9)).2.bytes 0 ≠
        (ofOctets 9 9 9 9).bytes 0 := by
  refine ⟨rfl, fun heq => ?_⟩
  have hbyte : (1 : Byte) = 9 := heq
  exact absurd hbyte (by decide)

theorem fromString_failed_of_letter :
    (∀ i : Fin 4, (fromString [0x31, 0x2e, 0x32, 0x2e, 0x78] (ofOctets 9 9 9 9)).2.bytes i =
      (((storedGroups (([0x31, 0x2e, 0x32, 0x2e, 0x78] : List Byte).splitOn 0x2e) 0)[i.val]?).map
        octet).getD ((ofOctets 9 9 9 9).bytes i)) ∧
    (fromString [0x31, 0x2e, 0x32, 0x2e, 0x78] (ofOctets 9 9 9 9)).2.bytes 3 =
      (ofOctets 9 9 9 9).bytes 3 :=
  fromString_failed _ _ rfl

end IPAddress

end FrameworkXC32
