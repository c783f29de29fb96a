import FrameworkXC32.Lib.Runs
import FrameworkXC32.Strings.Growth
import FrameworkXC32.Strings.Slices

/-!
# Programs that use strings

Any number of `String` objects under any sequence of the calls that construct, assign, append to
and edit them.
-/

namespace FrameworkXC32
open Machine Block CString Runs

/-- The characters of a C string outside of all `String`s. -/
structure CText where
  chars : List Byte
  nonzero : 0 ∉ chars
  small : chars.length + 1 < 2 ^ 31
deriving DecidableEq, Repr

/-- A `const char *`: null, a C string apart, or `c_str() + k` of a `String`, where `k` is at most
its length. -/
inductive CharPtr
  | null
  | text (t : CText)
  | tail (j k : ℕ)
deriving DecidableEq, Repr

/-- The objects, by number. One that is not alive is kept as `init()` leaves it. -/
abbrev Strings := ℕ → WString

/-- A call, with what it finds when it asks for memory. `+=` is `concat` without its result. -/
inductive StringOp
  | ofCstr (i : ℕ) (cstr : CharPtr) (fresh : Fresh)
  | ofString (i j : ℕ) (fresh : Fresh)
  | ofFlash (i : ℕ) (pstr : Option CText) (fresh : Fresh)
  | ofMove (i j : ℕ)
  | ofChar (i : ℕ) (c : Byte) (fresh : Fresh)
  | ofNumber (i : ℕ) (n : WString.Number) (digits : CText) (fresh : Fresh)
  | destroy (i : ℕ)
  | assign (i j : ℕ) (fresh : Fresh)
  | assignMove (i j : ℕ)
  | assignCstr (i : ℕ) (cstr : CharPtr) (fresh : Fresh)
  | assignFlash (i : ℕ) (pstr : Option CText) (fresh : Fresh)
  | reserve (i : ℕ) (size : Word) (fresh : Fresh)
  | concat (i j : ℕ) (fresh : Fresh)
  | concatCstr (i : ℕ) (cstr : CharPtr) (fresh : Fresh)
  | concatChar (i : ℕ) (c : Byte) (fresh : Fresh)
  | concatNumber (i : ℕ) (n : WString.Number) (digits : CText) (fresh : Fresh)
  | concatFlash (i : ℕ) (str : Option CText) (fresh : Fresh)
  | setCharAt (i : ℕ) (loc : Word) (c : Byte)
  | writeAt (i : ℕ) (index : Word) (c : Byte)
  | replaceChar (i : ℕ) (find replace : Byte)
  | replaceString (i find replace : ℕ) (fresh : Fresh)
  | remove (i : ℕ) (index count : Word)
  | substring (i j : ℕ) (left right : Word) (fresh fresh' : Fresh)
  | toLowerCase (i : ℕ)
  | toUpperCase (i : ℕ)
  | trim (i : ℕ)

def CText.src (t : CText) : Src Byte := .apart (t.chars ++ [0])

lemma CText.points (t : CText) (s : WString) : WString.Points s t.src t.chars :=
  WString.points_apart s t.nonzero t.small (List.prefix_refl _)

/-- The pointer as a method of object `i` sees it. -/
def CharPtr.src (h : Strings) (i : ℕ) : CharPtr → Option (Src Byte)
  | null => none
  | text t => some t.src
  | tail j k => (h j).buffer.map fun b =>
    if j = i then .own (min k (h j).len) else .apart (b.drop (min k (h j).len))

/-- The C string that the pointer points to. -/
def CharPtr.chars (h : Strings) : CharPtr → List Byte
  | null => []
  | text t => t.chars
  | tail j k => (h j).text.drop k

/-- The object as an argument of a method of object `i`. -/
def argument (h : Strings) (i j : ℕ) : WString.Arg := if j = i then .own else .apart (h j)

namespace StringOp

def put (h : Strings) (i : ℕ) (s : WString) : Strings := Function.update h i s

/-- A method of object `i` that returns nothing. -/
def onto (h : Strings) (i : ℕ) (s : Option WString) : Option (Bool × Strings) :=
  s.map fun s => (true, put h i s)

/-- A method of object `i` with a result. -/
def returning (h : Strings) (i : ℕ) (r : Option (Bool × WString)) : Option (Bool × Strings) :=
  r.map fun r => (r.1, put h i r.2)

/-- What the call returns, where it returns something, and what it leaves. A constructor of object
`i` begins with `init()`. -/
def exec (h : Strings) : StringOp → Option (Bool × Strings)
  | ofCstr i p fresh => onto h i (WString.ofCstr (p.src (put h i .init) i) fresh)
  | ofString i j fresh => onto h i (WString.ofString (put h i .init j) fresh)
  | ofFlash i p fresh => onto h i (WString.ofFlash (p.map CText.src) fresh)
  | ofMove i j =>
    (WString.ofMove (put h i .init j)).map fun r => (true, put (put h j r.2) i r.1)
  | ofChar i c fresh => onto h i (WString.ofChar c fresh)
  | ofNumber i n digits fresh => onto h i (WString.ofNumber n digits.chars fresh)
  | destroy i => some (true, put h i .init)
  | assign i j fresh => if j = i then some (true, h) else onto h i ((h i).assign (h j) fresh)
  | assignMove i j =>
    if j = i then some (true, h)
    else ((h i).move (h j)).map fun r => (true, put (put h j r.2) i r.1)
  | assignCstr i p fresh => onto h i ((h i).assignCstr (p.src h i) fresh)
  | assignFlash i p fresh => onto h i ((h i).assignCstr (p.map CText.src) fresh)
  | reserve i size fresh => returning h i ((h i).reserve size.toNat fresh)
  | concat i j fresh =>
    returning h i ((h i).concat ((CharPtr.tail j 0).src h i) (h j).len fresh)
  | concatCstr i p fresh => returning h i ((h i).concatCstr (p.src h i) fresh)
  | concatChar i c fresh => returning h i ((h i).concatChar c fresh)
  | concatNumber i n digits fresh => returning h i ((h i).concatNumber n digits.chars fresh)
  | concatFlash i p fresh => returning h i ((h i).concatFlash (p.map CText.src) fresh)
  | setCharAt i loc c => onto h i ((h i).setCharAt loc.toNat c)
  | writeAt i index c => onto h i ((h i).writeAt index.toNat c)
  | replaceChar i find replace => onto h i ((h i).replaceChar find replace)
  | replaceString i find replace fresh =>
    onto h i (WString.replaceString (argument h i find) (argument h i replace) fresh (h i))
  | remove i index count => onto h i ((h i).remove index.toNat count.toNat)
  | substring i j left right fresh fresh' =>
    ((h j).substring left.toNat right.toNat fresh fresh').map fun r =>
      (true, put (put h j r.2) i r.1)
  | toLowerCase i => onto h i (h i).toLowerCase
  | toUpperCase i => onto h i (h i).toUpperCase
  | trim i => onto h i (h i).trim

def step (h : Strings) (op : StringOp) : Option Strings := (op.exec h).map Prod.snd

/-- The calls that keep every `String` valid: no zero becomes a character, nothing is appended to
itself, no move leaves a text behind, and the buffers suffice. -/
def ok (h : Strings) : StringOp → Prop
  | ofNumber _ n digits _ => digits.chars.length < n.constructRoom
  | assignMove i j => j ≠ i → ¬(h i).MoveLeavesText (h j)
  | reserve i size fresh => ¬(h i).ReservesNothing size.toNat fresh
  | concat i j fresh => j = i → ¬(h i).ConcatOverlaps (.own 0) (h i).len fresh
  | concatCstr i p fresh =>
    match p.src h i with
    | some q => ¬(h i).ConcatOverlaps q (p.chars h).length fresh
    | none => True
  | concatChar i c fresh => ¬(h i).AppendsZero c fresh
  | concatNumber _ n digits _ => digits.chars.length < n.concatRoom
  | setCharAt i loc c => ¬(h i).WritesZero loc.toNat c
  | writeAt i index c => ¬(h i).WritesZero index.toNat c
  | replaceChar i find replace => ¬(h i).ReplacesByZero find replace
  | replaceString i find replace fresh =>
    ¬WString.ReplaceOverruns (argument h i find) (argument h i replace) fresh (h i)
  | _ => True

instance (h : Strings) : ∀ op : StringOp, Decidable (ok h op)
  | ofNumber _ n digits _ => inferInstanceAs (Decidable (digits.chars.length < n.constructRoom))
  | assignMove i j => inferInstanceAs (Decidable (j ≠ i → ¬(h i).MoveLeavesText (h j)))
  | reserve i size fresh => inferInstanceAs (Decidable (¬(h i).ReservesNothing size.toNat fresh))
  | concat i j fresh =>
    inferInstanceAs (Decidable (j = i → ¬(h i).ConcatOverlaps (.own 0) (h i).len fresh))
  | concatCstr i p fresh =>
    match hq : p.src h i with
    | some q => decidable_of_iff (¬(h i).ConcatOverlaps q (p.chars h).length fresh)
        (by rw [ok, hq])
    | none => isTrue (by rw [ok, hq]; trivial)
  | concatChar i c fresh => inferInstanceAs (Decidable (¬(h i).AppendsZero c fresh))
  | concatNumber _ n digits _ => inferInstanceAs (Decidable (digits.chars.length < n.concatRoom))
  | setCharAt i loc c => inferInstanceAs (Decidable (¬(h i).WritesZero loc.toNat c))
  | writeAt i index c => inferInstanceAs (Decidable (¬(h i).WritesZero index.toNat c))
  | replaceChar i find replace =>
    inferInstanceAs (Decidable (¬(h i).ReplacesByZero find replace))
  | replaceString i find replace fresh =>
    inferInstanceAs (Decidable (¬WString.ReplaceOverruns (argument h i find)
      (argument h i replace) fresh (h i)))
  | ofCstr .. | ofString .. | ofFlash .. | ofMove .. | ofChar .. | destroy _ | assign .. |
    assignCstr .. | assignFlash .. | concatFlash .. | remove .. | substring .. | toLowerCase _ |
    toUpperCase _ | trim _ => inferInstanceAs (Decidable True)

/-- A call of `concat` that returns 1 has appended its argument. -/
def Appended (h : Strings) (op : StringOp) (ret : Bool) (h' : Strings) : Prop :=
  match op with
  | concat i j _ => ret = true → (h' i).text = (h i).text ++ (h j).text
  | concatCstr i p _ => ret = true → (h' i).text = (h i).text ++ p.chars h
  | concatChar i c _ => ret = true → (h' i).text = (h i).text ++ [c]
  | concatNumber i _ digits _ => ret = true → (h' i).text = (h i).text ++ digits.chars
  | concatFlash i p _ => ret = true → (h' i).text = (h i).text ++ p.elim [] CText.chars
  | _ => True

def AllSound (h : Strings) : Prop := ∀ i, (h i).Sound

variable {h : Strings}

lemma allSound_put (hs : AllSound h) (i : ℕ) {s : WString} (hsound : s.Sound) :
    AllSound (put h i s) := by
  intro j
  unfold StringOp.put
  by_cases hj : j = i
  · rw [hj, Function.update_self]
    exact hsound
  · rw [Function.update_of_ne hj]
    exact hs j

lemma allSound_onto (hs : AllSound h) (i : ℕ) {r : Option WString}
    (hr : ∃ s, r = some s ∧ s.Sound) :
    ∃ ret t, onto h i r = some (ret, t) ∧ AllSound t := by
  obtain ⟨s, rfl, hsound⟩ := hr
  exact ⟨true, _, rfl, allSound_put hs i hsound⟩

lemma allSound_returning (hs : AllSound h) (i : ℕ) {r : Option (Bool × WString)} {t : List Byte}
    (hr : ∃ q, r = some q ∧ (q.1 = true → WString.HasText ((h i).text ++ t) q.2) ∧
      (q.1 = false → q.2 = h i)) :
    ∃ ret h', returning h i r = some (ret, h') ∧ AllSound h' ∧
      (ret = true → (h' i).text = (h i).text ++ t) := by
  obtain ⟨⟨ret, s⟩, rfl, htrue, hfalse⟩ := hr
  have hself : put h i s i = s := Function.update_self ..
  refine ⟨ret, _, rfl, ?_, ?_⟩
  · apply allSound_put hs i
    cases ret with
    | true => exact (htrue rfl).sound
    | false => exact (hfalse rfl) ▸ hs i
  · intro hret
    dsimp only
    rw [hself]
    exact (htrue hret).text_eq

lemma points_src (hs : AllSound h) {i : ℕ} {p : CharPtr} {q : Src Byte}
    (hq : p.src h i = some q) : WString.Points (h i) q (p.chars h) := by
  cases p with
  | null => cases hq
  | text t =>
    cases hq
    exact CText.points t (h i)
  | tail j k =>
    obtain ⟨b, hb, hptr⟩ := Option.map_eq_some_iff.mp hq
    obtain ⟨l, hl | ⟨-, hl⟩⟩ := hs j
    · have hmem : (h j).mem = b := by
        rw [WString.mem, hb]
        rfl
      have hchars : (h j).text.drop k = l.drop (min k (h j).len) := by
        rw [hl.text_eq, hl.len]
        rcases Nat.le_total k l.length with hle | hle
        · rw [Nat.min_eq_left hle]
        · rw [Nat.min_eq_right hle, List.drop_length, List.drop_of_length_le hle]
      have hk : min k (h j).len ≤ l.length := by
        rw [hl.len]
        exact Nat.min_le_right _ _
      rw [CharPtr.chars, hchars, ← hptr]
      split
      · rename_i hself
        subst hself
        exact hl.points_own hk
      · rw [← hmem]
        exact hl.points_apart (h i) hk
    · rw [hl] at hb
      cases hb

lemma allSound_concat (hs : AllSound h) (i : ℕ) {q : Src Byte} {t : List Byte} {fresh : Fresh}
    (hq : WString.Points (h i) q t) (hok : ¬(h i).ConcatOverlaps q t.length fresh) :
    ∃ ret h', returning h i ((h i).concatCstr (some q) fresh) = some (ret, h') ∧ AllSound h' ∧
      (ret = true → (h' i).text = (h i).text ++ t) :=
  allSound_returning hs i ((hs i).hasText.concatPointer hq hok)

/-- The text of a string is appended; it is the receiver's own only where `ok` looks at it. -/
lemma allSound_concatString (hs : AllSound h) {i j : ℕ} {q : Src Byte} {fresh : Fresh}
    (hq : (CharPtr.tail j 0).src h i = some q)
    (hok : j = i → ¬(h i).ConcatOverlaps (.own 0) (h i).len fresh) :
    ∃ ret h', returning h i ((h i).concat (some q) (h j).len fresh) = some (ret, h') ∧
      AllSound h' ∧ (ret = true → (h' i).text = (h i).text ++ (h j).text) := by
  have hpoints : WString.Points (h i) q (h j).text := points_src hs hq
  have hlen : (h j).text.length = (h j).len := (hs j).hasText.len.symm
  have hapart : ¬(h i).ConcatOverlaps q (h j).text.length fresh := by
    rw [hlen]
    intro hbad
    obtain ⟨b, -, hptr⟩ := Option.map_eq_some_iff.mp hq
    by_cases hself : j = i
    · rw [if_pos hself, Nat.zero_min] at hptr
      subst hself hptr
      exact hok rfl hbad
    · rw [if_neg hself] at hptr
      subst hptr
      exact Bool.noConfusion hbad.1
  have hconcat := (hs i).hasText.concat hpoints fresh hapart
  rw [hlen] at hconcat
  exact allSound_returning hs i hconcat

lemma sound_of_hasText {r : Option WString} {l : List Byte}
    (hr : ∃ s, r = some s ∧ WString.HasText l s) : ∃ s, r = some s ∧ s.Sound := by
  obtain ⟨s, heq, hs⟩ := hr
  exact ⟨s, heq, hs.sound⟩

lemma allSound_unchanged (hs : AllSound h) (i : ℕ) :
    ∃ ret h', returning h i (some (false, h i)) = some (ret, h') ∧ AllSound h' ∧
      ∀ t, ret = true → (h' i).text = (h i).text ++ t :=
  ⟨false, _, rfl, allSound_put hs i (hs i), fun _ hno => Bool.noConfusion hno⟩

lemma hasText_argument (hs : AllSound h) (i j : ℕ) :
    WString.HasText (h j).text ((argument h i j).get (h i)) := by
  unfold argument
  split
  · rename_i hself
    subst hself
    exact (hs j).hasText
  · exact (hs j).hasText

/-- Every call that meets the condition is defined, keeps all strings valid and appends what it
has to. -/
theorem step_sound (hs : AllSound h) {op : StringOp} (hok : ok h op) :
    ∃ ret t, op.exec h = some (ret, t) ∧ AllSound t ∧ Appended h op ret t := by
  have hnew : ∀ i, AllSound (put h i .init) := fun i => allSound_put hs i WString.sound_init
  have htext : ∀ i, WString.HasText (h i).text (h i) := fun i => (hs i).hasText
  have hflash : ∀ (p : Option CText) (s : WString) (q : Src Byte), p.map CText.src = some q →
      ∃ t, WString.Points s q t := by
    intro p s q hq
    obtain ⟨t, -, rfl⟩ := Option.map_eq_some_iff.mp hq
    exact ⟨t.chars, t.points s⟩
  have hvoid : ∀ {i r}, (∃ s, r = some s ∧ s.Sound) → (∀ ret t, Appended h op ret t) →
      ∃ ret t, onto h i r = some (ret, t) ∧ AllSound t ∧ Appended h op ret t := by
    intro i r hr happended
    obtain ⟨ret, t, hexec, hsound⟩ := allSound_onto hs i hr
    exact ⟨ret, t, hexec, hsound, happended ret t⟩
  cases op with
  | ofCstr i p fresh =>
    apply hvoid _ fun _ _ => trivial
    rw [WString.ofCstr_eq]
    apply WString.sound_init.assignCstr
    intro q hq
    have hpoints := points_src (hnew i) hq
    have hself : put h i .init i = .init := Function.update_self ..
    rw [hself] at hpoints
    exact ⟨_, hpoints⟩
  | ofString i j fresh =>
    exact hvoid (WString.sound_init.assign (hnew i j) fresh) fun _ _ => trivial
  | ofFlash i p fresh =>
    exact hvoid (WString.sound_init.assignCstr (hflash p _) fresh) fun _ _ => trivial
  | ofMove i j =>
    obtain ⟨r, hmove, hfirst, hsecond⟩ := WString.sound_init.move (hnew i j)
      fun hno => Bool.noConfusion hno.1
    refine ⟨true, _, ?_, allSound_put (allSound_put hs j hsecond) i hfirst, trivial⟩
    rw [exec, WString.ofMove, hmove]
    rfl
  | ofChar i c fresh =>
    apply hvoid _ fun _ _ => trivial
    by_cases hc : c = 0
    · apply WString.sound_init.assignPointer (t := [])
      refine WString.points_apart _ List.not_mem_nil (by decide) ?_
      rw [hc]
      exact ⟨[0], rfl⟩
    · exact WString.sound_init.assignPointer (WString.points_char _ hc) fresh
  | ofNumber i n digits fresh =>
    apply hvoid _ fun _ _ => trivial
    have hroom : digits.chars.length < n.constructRoom := hok
    unfold WString.ofNumber
    rw [if_pos hroom]
    exact WString.sound_init.assignPointer (digits.points _) fresh
  | destroy i => exact ⟨true, _, rfl, hnew i, trivial⟩
  | assign i j fresh =>
    rw [exec]
    split
    · exact ⟨true, h, rfl, hs, trivial⟩
    · exact hvoid ((hs i).assign (hs j) fresh) fun _ _ => trivial
  | assignMove i j =>
    rw [exec]
    split
    · exact ⟨true, h, rfl, hs, trivial⟩
    · rename_i hne
      obtain ⟨r, hmove, hfirst, hsecond⟩ := (hs i).move (hs j) (hok hne)
      exact ⟨true, _, congrArg (Option.map _) hmove,
        allSound_put (allSound_put hs j hsecond) i hfirst, trivial⟩
  | assignCstr i p fresh =>
    exact hvoid ((hs i).assignCstr (fun q hq => ⟨_, points_src hs hq⟩) fresh) fun _ _ => trivial
  | assignFlash i p fresh =>
    exact hvoid ((hs i).assignCstr (hflash p _) fresh) fun _ _ => trivial
  | reserve i size fresh =>
    obtain ⟨r, hreserve, hr⟩ := (htext i).reserveCall size.isLt hok
    exact ⟨r.1, _, congrArg (Option.map _) hreserve, allSound_put hs i hr.sound, trivial⟩
  | concat i j fresh =>
    rw [exec]
    cases hq : (CharPtr.tail j 0).src h i with
    | none =>
      obtain ⟨ret, t, hexec, hsound, happended⟩ := allSound_unchanged hs i
      exact ⟨ret, t, hexec, hsound, happended _⟩
    | some q =>
      exact allSound_concatString hs hq hok
  | concatCstr i p fresh =>
    rw [exec]
    cases hq : p.src h i with
    | none =>
      obtain ⟨ret, t, hexec, hsound, happended⟩ := allSound_unchanged hs i
      exact ⟨ret, t, hexec, hsound, happended _⟩
    | some q =>
      rw [ok, hq] at hok
      exact allSound_concat hs i (points_src hs hq) hok
  | concatChar i c fresh => exact allSound_returning hs i ((htext i).concatChar hok)
  | concatNumber i n digits fresh =>
    have hroom : digits.chars.length < n.concatRoom := hok
    rw [exec, WString.concatNumber, if_pos hroom]
    exact allSound_concat hs i (digits.points _) fun hno => Bool.noConfusion hno.1
  | concatFlash i p fresh =>
    rw [exec, WString.concatFlash_eq]
    cases p with
    | none =>
      obtain ⟨ret, t, hexec, hsound, happended⟩ := allSound_unchanged hs i
      exact ⟨ret, t, hexec, hsound, happended _⟩
    | some t => exact allSound_concat hs i (t.points _) fun hno => Bool.noConfusion hno.1
  | setCharAt i loc c =>
    exact hvoid (sound_of_hasText ((htext i).setCharAt hok)) fun _ _ => trivial
  | writeAt i index c =>
    exact hvoid (sound_of_hasText ((htext i).writeAt hok)) fun _ _ => trivial
  | replaceChar i find replace =>
    exact hvoid (sound_of_hasText ((htext i).replaceChar hok)) fun _ _ => trivial
  | replaceString i find replace fresh =>
    apply hvoid _ fun _ _ => trivial
    exact (htext i).replaceString (hasText_argument hs i find) (hasText_argument hs i replace) hok
  | remove i index count =>
    exact hvoid (sound_of_hasText ((htext i).remove _ _)) fun _ _ => trivial
  | substring i j left right fresh fresh' =>
    obtain ⟨out, hsub, hsound, -⟩ := (htext j).substring left.toNat right.toNat fresh fresh'
    exact ⟨true, _, congrArg (Option.map _) hsub,
      allSound_put (allSound_put hs j (hs j)) i hsound, trivial⟩
  | toLowerCase i => exact hvoid (sound_of_hasText (htext i).toLowerCase) fun _ _ => trivial
  | toUpperCase i => exact hvoid (sound_of_hasText (htext i).toUpperCase) fun _ _ => trivial
  | trim i => exact hvoid (sound_of_hasText (htext i).trim) fun _ _ => trivial

def start : Strings := fun _ => .init

/-- In a run whose calls meet the condition every call is defined, all strings are valid before
and behind it, those moved from included, and a `concat` that returns 1 has appended its argument
to the text of its receiver. -/
theorem strings_stay_valid {ops : List StringOp} (hguarded : Guarded step ok start ops)
    {pre post : List StringOp} {op : StringOp} (hops : ops = pre ++ op :: post) :
    ∃ h ret h', run step start pre = some h ∧ (∀ i, (h i).Valid) ∧
      op.exec h = some (ret, h') ∧ (∀ i, (h' i).Valid) ∧ Appended h op ret h' := by
  subst hops
  have hstart : AllSound start := fun _ => WString.sound_init
  have hstep : ∀ (h : Strings) (op : StringOp), AllSound h → ok h op →
      ∃ h', step h op = some h' ∧ AllSound h' := by
    intro h op hs hok
    obtain ⟨ret, h', hexec, hs', -⟩ := step_sound hs hok
    refine ⟨h', ?_, hs'⟩
    rw [step, hexec]
    rfl
  obtain ⟨h, hrun, hs⟩ := run_progress hstep hstart hguarded.append_left
  obtain ⟨ret, h', hexec, hs', happended⟩ := step_sound hs (hguarded.append_right hrun).1
  exact ⟨h, ret, h', hrun, fun i => (hs i).valid, hexec, fun i => (hs' i).valid, happended⟩

/-- `"ab"` -/
def ab : CText := ⟨[97, 98], by decide, by decide⟩

def memory : Fresh := some fun _ => 0

/-- A string is copied, appended to its copy and taken apart. -/
def appending : List StringOp :=
  [.ofCstr 0 (.text ab) memory, .ofString 1 0 memory, .concat 0 1 memory,
    .replaceString 0 0 1 memory, .assignCstr 0 (.tail 0 1) memory, .trim 0]

theorem strings_stay_valid_appending : ∃ h ret h',
    run step start [.ofCstr 0 (.text ab) memory, .ofString 1 0 memory] = some h ∧
    (∀ i, (h i).Valid) ∧ (StringOp.concat 0 1 memory).exec h = some (ret, h') ∧
    (∀ i, (h' i).Valid) ∧ Appended h (.concat 0 1 memory) ret h' :=
  have hguarded : Guarded step ok start appending := by decide +kernel
  strings_stay_valid hguarded rfl

/-- `move` into a buffer that is large enough leaves the other string with a text but without
its length, and `concat` of a string with itself copies over the end of its buffer. -/
theorem moved_string_invalid :
    (∃ h, run step start [.ofCstr 0 (.text ab) memory, .ofCstr 1 (.text ab) memory,
      .assignMove 0 1] = some h ∧ ¬(h 1).Valid) ∧
    run step start [.ofCstr 0 (.text ab) memory, .concat 0 0 memory] = none := by
  have hmove : ((run step start [.ofCstr 0 (.text ab) memory, .ofCstr 1 (.text ab) memory,
      .assignMove 0 1]).map fun h => decide (h 1).Valid) = some false := by
    decide +kernel
  have hconcat :
      (run step start [.ofCstr 0 (.text ab) memory, .concat 0 0 memory]).isNone = true := by
    decide +kernel
  obtain ⟨h, hrun, hvalid⟩ := Option.map_eq_some_iff.mp hmove
  exact ⟨⟨h, hrun, of_decide_eq_false hvalid⟩, Option.isNone_iff_eq_none.mp hconcat⟩

end StringOp

end FrameworkXC32
