import FrameworkXC32.Lib.Search

/-!
# Replacing from the left and from the right

A list is cut at the occurrences of a pattern that are found from left to right: `gaps` are the
pieces in front of them and `rest` is what follows the last one. With a longer replacement, the
search from the right meets the same occurrences exactly when no replacement makes the pattern
occur between the one it stands in for and the one before.
-/

namespace Search

variable {α : Type*} [DecidableEq α]

/-! ### Cutting at the occurrences from left to right -/

def gapsIn (pat : List α) : ℕ → List α → List (List α)
  | 0, _ => []
  | fuel + 1, l =>
    match firstIn pat l with
    | none => []
    | some n => l.take n :: gapsIn pat fuel (l.drop (n + pat.length))

def restIn (pat : List α) : ℕ → List α → List α
  | 0, l => l
  | fuel + 1, l =>
    match firstIn pat l with
    | none => l
    | some n => restIn pat fuel (l.drop (n + pat.length))

def gaps (pat l : List α) : List (List α) := gapsIn pat (l.length + 1) l

def rest (pat l : List α) : List α := restIn pat (l.length + 1) l

def replaceLeft (pat new l : List α) : List α := replaceLeftIn pat new (l.length + 1) l

lemma replaceLeft_none {pat l : List α} (h : firstIn pat l = none) {new : List α} :
    replaceLeft pat new l = l := by
  rw [replaceLeft, replaceLeftIn, h]

omit [DecidableEq α] in
/-- The pieces joined, each followed by `p`. -/
def fill (p : List α) : List (List α) → List α
  | [] => []
  | x :: xs => x ++ p ++ fill p xs

omit [DecidableEq α] in
lemma fill_append (p : List α) (xs ys : List (List α)) :
    fill p (xs ++ ys) = fill p xs ++ fill p ys := by
  induction xs with
  | nil => rfl
  | cons x xs ih =>
    rw [List.cons_append, fill, fill, ih]
    simp only [List.append_assoc]

omit [DecidableEq α] in
lemma fill_concat (p : List α) (xs : List (List α)) (x : List α) :
    fill p (xs ++ [x]) = fill p xs ++ x ++ p := by
  rw [fill_append, fill, fill]
  simp only [List.append_assoc, List.append_nil]

omit [DecidableEq α] in
lemma length_fill (p q : List α) (xs : List (List α)) :
    (fill q xs).length + xs.length * p.length = (fill p xs).length + xs.length * q.length := by
  induction xs with
  | nil => simp [fill]
  | cons x xs ih =>
    simp only [fill, List.length_append, List.length_cons, Nat.add_mul, Nat.one_mul]
    omega

omit [DecidableEq α] in
lemma length_fill_add {p q : List α} (h : p.length ≤ q.length) (xs : List (List α)) :
    (fill q xs).length = (fill p xs).length + xs.length * (q.length - p.length) := by
  have hfill := length_fill p q xs
  obtain ⟨d, hd⟩ := Nat.exists_eq_add_of_le h
  rw [hd, Nat.mul_add] at hfill
  rw [hd, Nat.add_sub_cancel_left]
  omega

lemma take_append_of_firstIn {pat l : List α} {n : ℕ} (h : firstIn pat l = some n) :
    l.take n ++ pat ++ l.drop (n + pat.length) = l := by
  obtain ⟨t, ht⟩ := (firstIn_some h).1
  rw [← List.drop_drop, ← ht, List.drop_left, List.append_assoc, ht, List.take_append_drop]

lemma fill_gapsIn (pat : List α) (fuel : ℕ) (l : List α) :
    fill pat (gapsIn pat fuel l) ++ restIn pat fuel l = l := by
  induction fuel generalizing l with
  | zero => rfl
  | succ fuel ih =>
    rw [gapsIn, restIn]
    cases h : firstIn pat l with
    | none => rfl
    | some n =>
      have htail := ih (l.drop (n + pat.length))
      dsimp only
      rw [fill, List.append_assoc, htail, take_append_of_firstIn h]

lemma replaceLeftIn_eq (pat new : List α) (fuel : ℕ) (l : List α) :
    replaceLeftIn pat new fuel l = fill new (gapsIn pat fuel l) ++ restIn pat fuel l := by
  induction fuel generalizing l with
  | zero => rfl
  | succ fuel ih =>
    rw [replaceLeftIn, gapsIn, restIn]
    cases firstIn pat l with
    | none => rfl
    | some n =>
      dsimp only
      rw [ih, fill]
      simp only [List.append_assoc]

lemma length_gapsIn (pat : List α) (fuel : ℕ) (l : List α) :
    (gapsIn pat fuel l).length = occurrencesIn pat fuel l := by
  induction fuel generalizing l with
  | zero => rfl
  | succ fuel ih =>
    rw [gapsIn, occurrencesIn]
    cases firstIn pat l with
    | none => rfl
    | some n =>
      dsimp only
      rw [List.length_cons, ih]

lemma fill_gaps (pat l : List α) : fill pat (gaps pat l) ++ rest pat l = l := fill_gapsIn pat _ l

lemma replaceLeft_eq (pat new l : List α) :
    replaceLeft pat new l = fill new (gaps pat l) ++ rest pat l := replaceLeftIn_eq pat new _ l

lemma length_gaps (pat l : List α) : (gaps pat l).length = occurrences pat l :=
  length_gapsIn pat _ l

lemma replaceLeftIn_fuel {pat : List α} (new : List α) (hpat : pat ≠ []) {fuel fuel' : ℕ}
    {l : List α} (h : l.length < fuel) (h' : l.length < fuel') :
    replaceLeftIn pat new fuel l = replaceLeftIn pat new fuel' l := by
  induction fuel generalizing fuel' l with
  | zero => exact absurd h (Nat.not_lt_zero _)
  | succ fuel ih =>
    cases fuel' with
    | zero => exact absurd h' (Nat.not_lt_zero _)
    | succ fuel' =>
      rw [replaceLeftIn, replaceLeftIn]
      cases hfirst : firstIn pat l with
      | none => rfl
      | some n =>
        have hlt := length_rest_lt hpat hfirst
        dsimp only
        have hrest : (l.drop (n + pat.length)).length < fuel' := by omega
        rw [ih (by omega) hrest]

lemma replaceLeft_some {pat l : List α} {n : ℕ} (new : List α) (hpat : pat ≠ [])
    (h : firstIn pat l = some n) :
    replaceLeft pat new l = l.take n ++ new ++ replaceLeft pat new (l.drop (n + pat.length)) := by
  have hlt := length_rest_lt hpat h
  rw [replaceLeft, replaceLeftIn, h]
  dsimp only
  rw [replaceLeftIn_fuel new hpat hlt (Nat.lt_succ_self _)]
  rfl

lemma length_replaceLeft {pat new : List α} (hle : pat.length ≤ new.length) (l : List α) :
    (replaceLeft pat new l).length = l.length + occurrences pat l * (new.length - pat.length) := by
  have hcut := congrArg List.length (fill_gaps pat l)
  rw [List.length_append] at hcut
  rw [replaceLeft_eq, List.length_append, length_fill_add hle, ← length_gaps]
  omega

/-! ### Searching from the right -/

/-- The last of the occurrences below a bound is the next one that is replaced. -/
lemma exists_last {pat : List α} (new : List α) {l : List α} {s b : ℕ} (h : pat <+: l.drop s)
    (hs : s < b) : ∃ i, s ≤ i ∧ i < b ∧ pat <+: l.drop i ∧
      (∀ q, i < q → q < b → ¬pat <+: l.drop q) ∧
      replaceRight pat new b l =
        replaceRight pat new i (l.take i ++ new ++ l.drop (i + pat.length)) := by
  induction b with
  | zero => exact absurd hs (Nat.not_lt_zero s)
  | succ b ih =>
    by_cases hb : pat <+: l.drop b
    · exact ⟨b, by omega, Nat.lt_succ_self b, hb, fun q hq hlt => absurd hlt (by omega),
        replaceRight_at new hb⟩
    · have hsb : s < b := by
        rcases Nat.lt_or_eq_of_le (Nat.le_of_lt_succ hs) with hlt | rfl
        · exact hlt
        · exact absurd h hb
      obtain ⟨i, hsi, hib, hat, hlast, heq⟩ := ih hsb
      refine ⟨i, hsi, by omega, hat, fun q hq hlt => ?_, ?_⟩
      · rcases Nat.lt_or_eq_of_le (Nat.le_of_lt_succ hlt) with hqb | rfl
        · exact hlast q hq hqb
        · exact hb
      · rw [replaceRight, if_neg hb, heq]

omit [DecidableEq α] in
lemma replaced_after (a c new m : List α) {i : ℕ} (hi : a.length ≤ i) :
    ∃ z, (a ++ c).take i ++ new ++ m = a ++ z := by
  refine ⟨c.take (i - a.length) ++ new ++ m, ?_⟩
  rw [List.take_append, List.take_of_length_le hi]
  simp only [List.append_assoc]

omit [DecidableEq α] in
lemma fill_concat_append (p : List α) (xs : List (List α)) (x y : List α) :
    fill p (xs ++ [x]) ++ y = fill p xs ++ (x ++ (p ++ y)) := by
  rw [fill_concat]
  simp only [List.append_assoc]

omit [DecidableEq α] in
lemma occurs_last (pat : List α) (xs : List (List α)) (x y : List α) :
    pat <+: (fill pat xs ++ (x ++ (pat ++ y))).drop (fill pat xs ++ x).length := by
  rw [← List.append_assoc, List.drop_left]
  exact List.prefix_append pat y

section Longer

variable {pat new : List α} (hpat : pat ≠ []) (hle : pat.length ≤ new.length)
include hpat hle

/-- The search from the right replaces at least as many occurrences as lie side by side below its
bound. -/
lemma length_replaceRight_ge (xs : List (List α)) (y : List α) {b : ℕ}
    (hb : (fill pat xs).length < b + pat.length) :
    (fill pat xs ++ y).length + xs.length * (new.length - pat.length) ≤
      (replaceRight pat new b (fill pat xs ++ y)).length := by
  induction xs using List.reverseRecOn generalizing y b with
  | nil =>
    have hgrows := length_le_replaceRight hpat hle b y
    simpa [fill] using hgrows
  | append_singleton xs x ih =>
    have hpos := List.length_pos_of_ne_nil hpat
    rw [fill_concat, List.length_append] at hb
    obtain ⟨i, hsi, -, hat, -, heq⟩ := exists_last new (occurs_last pat xs x y) (by omega : _ < b)
    have hlen := length_replaced new (le_of_occurs hpat hat)
    rw [fill_concat_append, heq]
    rw [List.length_append] at hsi
    obtain ⟨z, hz⟩ := replaced_after (fill pat xs) (x ++ (pat ++ y)) new
      ((fill pat xs ++ (x ++ (pat ++ y))).drop (i + pat.length)) (by omega : _ ≤ i)
    rw [hz] at hlen ⊢
    have hcount := ih z (by omega : _ < i + pat.length)
    have hcons : (xs ++ [x]).length = xs.length + 1 := by simp
    rw [hcons, Nat.add_mul, Nat.one_mul]
    omega

omit [DecidableEq α] hpat hle in
/-- Two lists that start over after the same piece: the shorter one begins the longer one. -/
lemma prefix_of_shift {u a c v w : List α} (hu : u ≠ []) (ha : u ++ a = a ++ v)
    (hc : u ++ c = c ++ w) (h : a.length ≤ c.length) : a <+: c := by
  have ha' : a <+: u ++ a := ha ▸ List.prefix_append a v
  have hc' : c <+: u ++ c := hc ▸ List.prefix_append c w
  have hpos := List.length_pos_of_ne_nil hu
  have hall : ∀ n, n ≤ a.length → a.take n <+: c := by
    intro n
    induction n using Nat.strong_induction_on with
    | _ n ih =>
      intro hn
      have hshort : a.take n <+: u ++ c := by
        have htake : a.take n <+: u ++ a.take (n - u.length) := by
          have hcut : (u ++ a).take n = u.take n ++ a.take (n - u.length) := List.take_append
          have hpre : a.take n <+: (u ++ a).take n := by
            obtain ⟨t, ht⟩ := ha'
            rw [← ht, List.take_append_of_le_length hn]
          rw [hcut] at hpre
          by_cases hun : u.length ≤ n
          · rwa [List.take_of_length_le hun] at hpre
          · rw [Nat.sub_eq_zero_of_le (by omega), List.take_zero, List.append_nil] at hpre ⊢
            exact hpre.trans (List.take_prefix n u)
        by_cases hzero : n = 0
        · subst hzero
          exact List.nil_prefix
        · have hless := ih (n - u.length) (by omega) (by omega)
          exact htake.trans ((List.prefix_append_right_inj u).mpr hless)
      apply List.prefix_of_prefix_length_le hshort hc'
      rw [List.length_take]
      omega
  have hwhole := hall a.length (Nat.le_refl _)
  rwa [List.take_length] at hwhole

end Longer

/-! ### When the two agree -/

/-- No replacement makes the pattern occur behind the start of the occurrence before it. -/
def Settled (pat new : List α) (xs : List (List α)) : Prop :=
  ∀ a x b, xs = a ++ x :: b → ∀ q, (fill pat a).length < q + pat.length →
    q < (fill pat a ++ x).length → ¬pat <+: (fill pat a ++ x).drop q ++ new

omit [DecidableEq α] in
lemma settled_concat {pat new : List α} {xs : List (List α)} {x : List α} :
    Settled pat new (xs ++ [x]) ↔ Settled pat new xs ∧
      ∀ q, (fill pat xs).length < q + pat.length → q < (fill pat xs ++ x).length →
        ¬pat <+: (fill pat xs ++ x).drop q ++ new := by
  constructor
  · intro h
    refine ⟨fun a y b hab => h a y (b ++ [x]) (by rw [hab]; simp), h xs x [] rfl⟩
  · rintro ⟨hxs, hlast⟩ a y b hab
    rcases List.eq_nil_or_concat b with rfl | ⟨c, z, rfl⟩
    · obtain ⟨rfl, hy⟩ := List.append_inj' hab rfl
      cases hy
      exact hlast
    · have hsplit : xs ++ [x] = (a ++ y :: c) ++ [z] := by rw [hab]; simp
      exact hxs a y c (List.append_inj' hsplit rfl).1

section Agree

variable {pat new : List α} (hpat : pat ≠ []) (hlt : pat.length < new.length)
include hpat hlt

omit [DecidableEq α] hpat in
/-- An occurrence that starts in front of a replacement ends within it. -/
lemma occurs_before {a y : List α} {q : ℕ} (hq : q ≤ a.length) :
    pat <+: (a ++ new ++ y).drop q ↔ pat <+: a.drop q ++ new := by
  have hdrop : (a ++ new ++ y).drop q = a.drop q ++ new ++ y := by
    rw [List.append_assoc, List.drop_append_of_le_length hq, List.append_assoc]
  rw [hdrop]
  constructor
  · intro h
    apply List.prefix_of_prefix_length_le h (List.prefix_append _ y)
    rw [List.length_append]
    omega
  · intro h
    exact h.trans (List.prefix_append _ y)

omit [DecidableEq α] hpat hlt in
lemma replaced_at (a y : List α) :
    (a ++ (pat ++ y)).take a.length ++ new ++ (a ++ (pat ++ y)).drop (a.length + pat.length) =
      a ++ new ++ y := by
  rw [List.take_left, ← List.drop_drop, List.drop_left, List.drop_left]

omit [DecidableEq α] hpat hlt in
lemma exists_overlap (new : List α) {a y : List α} {i : ℕ}
    (hat : pat <+: (a ++ (pat ++ y)).drop i) (hlate : a.length < i)
    (hover : i < a.length + pat.length) :
    ∃ u v t, u ≠ [] ∧ i = (a ++ u).length ∧ u ++ pat = pat ++ v ∧ y = v ++ t ∧
      (a ++ (pat ++ y)).take i ++ new ++ (a ++ (pat ++ y)).drop (i + pat.length) =
        a ++ u ++ new ++ t := by
  obtain ⟨t, ht⟩ := hat
  obtain ⟨k, rfl⟩ := Nat.exists_eq_add_of_lt hlate
  rw [Nat.add_assoc, ← List.drop_drop, List.drop_left] at ht
  have hcut : pat ++ y = (pat ++ y).take (k + 1) ++ pat ++ t := by
    rw [List.append_assoc, ht, List.take_append_drop]
  have hu : ((pat ++ y).take (k + 1)).length = k + 1 := by
    rw [List.length_take, List.length_append]
    omega
  generalize (pat ++ y).take (k + 1) = u at hcut hu
  have hprefix : pat <+: u ++ pat := by
    apply List.prefix_of_prefix_length_le (List.prefix_append pat y)
    · rw [hcut]
      exact List.prefix_append _ t
    · rw [List.length_append]
      omega
  obtain ⟨v, hv⟩ := hprefix
  have hy : y = v ++ t := by
    rw [← hv, List.append_assoc] at hcut
    exact List.append_cancel_left hcut
  refine ⟨u, v, t, List.ne_nil_of_length_pos (by omega), ?_, hv.symm, hy, ?_⟩
  · rw [List.length_append, hu]
    omega
  · have hsplit : a ++ (pat ++ y) = (a ++ u) ++ (pat ++ t) := by
      rw [hcut]
      simp only [List.append_assoc]
    have hlen : a.length + k + 1 = (a ++ u).length := by
      rw [List.length_append, hu]
      omega
    rw [hsplit, hlen]
    exact replaced_at (a ++ u) t

omit [DecidableEq α] hpat hlt in
/-- The pattern occurs again where the text in front of its replacement repeats. -/
lemma occurs_again (hle : pat.length ≤ new.length) {u v w t : List α} (hu : u ≠ [])
    (hpatv : u ++ pat = pat ++ v) (hnew : new ++ w = u ++ (new ++ t)) : pat <+: u ++ new := by
  have hprefix : new <+: u ++ new := by
    apply List.prefix_of_prefix_length_le (List.prefix_append new w)
    · rw [hnew, ← List.append_assoc]
      exact List.prefix_append _ t
    · rw [List.length_append]
      omega
  obtain ⟨v', hv'⟩ := hprefix
  have hbegins := prefix_of_shift hu hpatv hv'.symm hle
  have hself : pat <+: u ++ pat := hpatv ▸ List.prefix_append pat v
  exact hself.trans ((List.prefix_append_right_inj u).mpr hbegins)

omit hpat hlt in
lemma replaceRight_last (a y : List α) :
    replaceRight pat new (a.length + 1) (a ++ (pat ++ y)) =
      replaceRight pat new a.length (a ++ new ++ y) := by
  have hat : pat <+: (a ++ (pat ++ y)).drop a.length := by
    rw [List.drop_left]
    exact List.prefix_append pat y
  rw [replaceRight_at new hat, replaced_at]

/-- Where the pieces are settled, the search from the right replaces what was found from the
left, starting with the last occurrence. -/
lemma replaceRight_of_settled (xs : List (List α)) (x y : List α)
    (h : Settled pat new (xs ++ [x])) :
    replaceRight pat new ((fill pat xs ++ x).length + 1) (fill pat xs ++ x ++ (pat ++ y)) =
      fill new xs ++ x ++ new ++ y := by
  induction xs using List.reverseRecOn generalizing x y with
  | nil =>
    obtain ⟨-, hlast⟩ := settled_concat.mp h
    have hpos := List.length_pos_of_ne_nil hpat
    rw [replaceRight_last, replaceRight_skip new (Nat.zero_le _)]
    · rfl
    · intro q _ hq
      rw [occurs_before hlt hq.le]
      exact hlast q (by simp only [fill, List.length_nil]; omega) hq
  | append_singleton xs z ih =>
    obtain ⟨hxs, hlast⟩ := settled_concat.mp h
    have hprevious : fill pat (xs ++ [z]) ++ x ++ new ++ y =
        fill pat xs ++ z ++ (pat ++ (x ++ new ++ y)) := by
      rw [fill_concat]
      simp only [List.append_assoc]
    have hlen : (fill pat (xs ++ [z]) ++ x).length =
        (fill pat xs ++ z).length + pat.length + x.length := by
      rw [fill_concat, List.length_append, List.length_append]
    have hpos := List.length_pos_of_ne_nil hpat
    rw [replaceRight_last, replaceRight_skip new (j := (fill pat xs ++ z).length + 1)]
    · rw [hprevious, ih z (x ++ new ++ y) hxs, fill_concat]
      simp only [List.append_assoc]
    · omega
    · intro q hq hqlt
      rw [occurs_before hlt hqlt.le]
      exact hlast q (by rw [List.length_append] at hlen; omega) hqlt

/-- Once something behind the pieces has been replaced, the search from the right replaces more
than the pieces hold. -/
lemma length_replaceRight_gt (xs : List (List α)) (y z : List α) {i : ℕ}
    (hat : pat <+: (fill pat xs ++ y).drop i) (hi : (fill pat xs).length < i + pat.length)
    (hz : (fill pat xs ++ y).take i ++ new ++ (fill pat xs ++ y).drop (i + pat.length) =
      fill pat xs ++ z) :
    (fill new xs ++ y).length < (replaceRight pat new i (fill pat xs ++ z)).length := by
  have hlen := length_replaced new (le_of_occurs hpat hat)
  have hge := length_replaceRight_ge hpat hlt.le xs z hi
  have hmore := length_fill_add hlt.le xs
  rw [hz] at hlen
  generalize xs.length * (new.length - pat.length) = more at hge hmore
  rw [List.length_append, List.length_append] at hlen
  rw [List.length_append] at hge ⊢
  omega

/-- Whatever comes of a search from the right that replaces the pieces and leaves the length of
what follows: it went through the occurrences one by one. -/
lemma settled_of_replaceRight (xs : List (List α)) (y w : List α) {b : ℕ}
    (hb : (fill pat xs).length < b + pat.length) (hw : w.length = y.length)
    (h : replaceRight pat new b (fill pat xs ++ y) = fill new xs ++ w) :
    Settled pat new xs ∧ w = y ∧ ∀ q, (fill pat xs).length < q + pat.length → q < b →
      ¬pat <+: (fill pat xs ++ y).drop q := by
  have hpos := List.length_pos_of_ne_nil hpat
  induction xs using List.reverseRecOn generalizing y w b with
  | nil =>
    have hnone : ∀ q, q < b → ¬pat <+: y.drop q := by
      intro q hq hat
      -- one occurrence is enough to make the list longer
      obtain ⟨t, ht⟩ := hat
      have hcut : fill pat [y.take q] ++ t = y := by
        rw [fill, fill, List.append_nil, List.append_assoc, ht, List.take_append_drop]
      have hge := length_replaceRight_ge hpat hlt.le [y.take q] t (b := b) (by
        simp only [fill, List.append_nil, List.length_append, List.length_take]
        omega)
      have hlen := congrArg List.length h
      rw [hcut] at hge
      simp only [fill, List.nil_append, List.length_singleton] at hge hlen
      omega
    refine ⟨fun a x c hac => absurd hac (by simp), ?_, fun q _ hq => hnone q hq⟩
    have hsame := replaceRight_skip new (Nat.zero_le b) fun q _ hq => hnone q hq
    have hid : replaceRight pat new 0 y = y := rfl
    rw [hid] at hsame
    exact h.symm.trans hsame
  | append_singleton xs x ih =>
    rw [fill_concat, List.length_append] at hb
    rw [fill_concat_append, fill_concat_append] at h
    obtain ⟨i, hsi, hib, hat, hlast, heq⟩ :=
      exists_last new (occurs_last pat xs x y) (by omega : _ < b)
    have hlenx : (fill pat xs ++ x).length = (fill pat xs).length + x.length := List.length_append
    rcases Nat.eq_or_lt_of_le hsi with rfl | hlate
    · -- the occurrence found from the left
      rw [heq, ← List.append_assoc, replaced_at, List.append_assoc, List.append_assoc] at h
      obtain ⟨hxs, hwy, hbetween⟩ := ih (x ++ (new ++ y)) (x ++ (new ++ w)) (by omega)
        (by simp only [List.length_append]; omega) h
      have hwy' : w = y := List.append_cancel_left (List.append_cancel_left hwy)
      refine ⟨settled_concat.mpr ⟨hxs, fun q hq hqlt hocc => ?_⟩, hwy', fun q hq hqb => ?_⟩
      · apply hbetween q hq hqlt
        rw [← List.append_assoc, ← List.append_assoc, occurs_before hlt hqlt.le]
        exact hocc
      · rw [fill_concat_append]
        rw [fill_concat, List.length_append] at hq
        exact hlast q (by omega) hqb
    · -- a later one: then there is one replacement too many
      exfalso
      obtain ⟨z, hz⟩ : ∃ z, (fill pat xs ++ (x ++ (pat ++ y))).take i ++ new ++
          (fill pat xs ++ (x ++ (pat ++ y))).drop (i + pat.length) = fill pat (xs ++ [x]) ++ z := by
        rw [← List.append_assoc]
        rw [← List.append_assoc] at hat
        by_cases hapart : (fill pat xs ++ x).length + pat.length ≤ i
        · have hbehind := replaced_after (fill pat xs ++ x ++ pat) y new
            ((fill pat xs ++ x ++ (pat ++ y)).drop (i + pat.length)) (i := i) (by
              rw [List.length_append]
              omega)
          rw [fill_concat]
          rwa [List.append_assoc (fill pat xs ++ x) pat y] at hbehind
        · obtain ⟨u, v, t, hu, hi, hpatv, hy, hnext⟩ :=
            exists_overlap new hat hlate (Nat.not_le.mp hapart)
          have hylen := congrArg List.length hy
          have hulen := congrArg List.length hpatv
          simp only [List.length_append] at hylen hulen
          rw [heq, ← List.append_assoc (fill pat xs), hnext] at h
          simp only [List.append_assoc] at h
          obtain ⟨-, hnew, -⟩ := ih _ (x ++ (new ++ w)) (by omega) (by
            simp only [List.length_append]
            omega) h
          obtain ⟨z, hz⟩ := occurs_again hlt.le hu hpatv (List.append_cancel_left hnew)
          refine ⟨z ++ t, ?_⟩
          rw [hnext, fill_concat_append, List.append_assoc (fill pat xs ++ x) u, ← hz]
          simp only [List.append_assoc]
      have hfill : (fill pat (xs ++ [x])).length < i + pat.length := by
        rw [fill_concat, List.length_append]
        omega
      have htotal := congrArg List.length h
      rw [heq, hz, ← fill_concat_append] at htotal
      rw [← fill_concat_append] at hat hz
      have hgt := length_replaceRight_gt hpat hlt (xs ++ [x]) y z hat hfill hz
      rw [htotal, List.length_append, List.length_append, hw] at hgt
      exact absurd hgt (lt_irrefl _)

/-- The search from the right does what the one from the left does exactly when the pieces
are settled and nothing occurs behind the last occurrence. -/
theorem replaceRight_eq_replaceLeft_iff (l : List α) :
    replaceRight pat new l.length l = replaceLeft pat new l ↔
      Settled pat new (gaps pat l) ∧ ∀ q, (fill pat (gaps pat l)).length < q + pat.length →
        ¬pat <+: l.drop q := by
  have hcut := fill_gaps pat l
  have hlen := congrArg List.length hcut
  have hpos := List.length_pos_of_ne_nil hpat
  rw [List.length_append] at hlen
  rw [replaceLeft_eq]
  constructor
  · intro h
    have heq : replaceRight pat new l.length (fill pat (gaps pat l) ++ rest pat l) =
        fill new (gaps pat l) ++ rest pat l := by rwa [hcut]
    obtain ⟨hsettled, -, hafter⟩ :=
      settled_of_replaceRight hpat hlt (gaps pat l) (rest pat l) (rest pat l) (by omega) rfl heq
    refine ⟨hsettled, fun q hq hocc => ?_⟩
    have hinside := le_of_occurs hpat hocc
    rw [hcut] at hafter
    exact hafter q hq (by omega) hocc
  · rintro ⟨hsettled, hafter⟩
    rcases List.eq_nil_or_concat (gaps pat l) with hnil | ⟨xs, x, hgaps⟩
    · rw [hnil] at hafter ⊢
      rw [replaceRight_skip new (Nat.zero_le _) fun q _ _ => hafter q (by
        simp only [fill, List.length_nil]; omega)]
      rw [hnil] at hcut
      exact hcut.symm
    · rw [List.concat_eq_append] at hgaps
      rw [hgaps] at hsettled hafter hcut hlen ⊢
      rw [fill_concat, List.length_append] at hafter hlen
      rw [replaceRight_skip new (j := (fill pat xs ++ x).length + 1) (by omega)
        fun q hq _ => hafter q (by omega)]
      rw [fill_concat_append, ← List.append_assoc] at hcut
      have hright := replaceRight_of_settled hpat hlt xs x (rest pat l) hsettled
      rw [hcut] at hright
      rw [hright, fill_concat]

end Agree

end Search
