import FrameworkXC32.Api.Heap
import FrameworkXC32.Lib.CString
import Mathlib.Data.BitVec

/-!
# `String`

The class of `WString.cpp`. A `String` owns the block behind its `buffer`, so that the block is
part of it. A `char` pointer that a method gets points to memory apart from that block or into it;
a method that makes an access outside of its block is `none`.
-/

namespace FrameworkXC32
open Machine Block CString

structure WString where
  buffer : Option (List Byte)
  capacity : ℕ
  len : ℕ
deriving DecidableEq, Repr

namespace WString

def init : WString where
  buffer := none
  capacity := 0
  len := 0

def mem (s : WString) : List Byte := s.buffer.getD []

/-- `buffer[i] = c` -/
def setByte (i : ℕ) (c : Byte) (s : WString) : Option WString :=
  (store s.mem i c).map fun b => { s with buffer := some b }

/-- The buffer is freed. -/
def invalidate (_ : WString) : WString := init

/-! ### Memory management -/

def changeBuffer (maxStrLen : ℕ) (fresh : Fresh) (s : WString) : Option (Bool × WString) :=
  (realloc s.buffer ((maxStrLen + 1) % 2 ^ 32) fresh).map fun newbuffer =>
    match newbuffer with
    | some b => (true, { s with buffer := some b, capacity := maxStrLen })
    | none => (false, s)

/-- The buffer is there and large enough. -/
def Suffices (size : ℕ) (s : WString) : Prop := s.buffer.isSome ∧ s.capacity ≥ size

instance (size : ℕ) (s : WString) : Decidable (s.Suffices size) :=
  inferInstanceAs (Decidable (_ ∧ _))

def reserve (size : ℕ) (fresh : Fresh) (s : WString) : Option (Bool × WString) :=
  if s.Suffices size then some (true, s)
  else (s.changeBuffer size fresh).bind fun r =>
    if r.1 then
      if r.2.len = 0 then (r.2.setByte 0 0).map fun s => (true, s) else some (true, r.2)
    else some (false, r.2)

/-- `strcpy` to `buffer + dst` behind a `reserve` for `size` characters. A pointer into the old
buffer points nowhere when there is another one. -/
def strcpyReserved (dst : ℕ) (cstr : Src Byte) (size : ℕ) (old s : WString) : Option WString :=
  match cstr with
  | .apart m => (strcpy s.mem dst (.apart m)).map fun b => { s with buffer := some b }
  | .own offset =>
    if old.Suffices size then
      (strcpy s.mem dst (.own offset)).map fun b => { s with buffer := some b }
    else none

/-! ### Copy and move -/

def copy (cstr : Src Byte) (length : ℕ) (fresh : Fresh) (s : WString) : Option WString :=
  (s.reserve length fresh).bind fun r =>
    if r.1 then strcpyReserved 0 cstr length s { r.2 with len := length }
    else some r.2.invalidate

/-- What becomes of the receiver and of `rhs`, which is another `String`. -/
def move (s rhs : WString) : Option (WString × WString) :=
  if s.buffer.isSome ∧ rhs.buffer.isSome ∧ s.capacity ≥ rhs.len then
    (strcpy s.mem 0 (.apart rhs.mem)).map fun b =>
      ({ s with buffer := some b, len := rhs.len }, { rhs with len := 0 })
  else some ({ buffer := rhs.buffer, capacity := rhs.capacity, len := rhs.len }, init)

/-- `operator = (const String &rhs)` for another `String`. -/
def assign (s rhs : WString) (fresh : Fresh) : Option WString :=
  match rhs.buffer with
  | some b => s.copy (.apart b) rhs.len fresh
  | none => some s.invalidate

/-- `operator = (const char *cstr)`, also for strings in flash. -/
def assignCstr (cstr : Option (Src Byte)) (fresh : Fresh) (s : WString) : Option WString :=
  match cstr with
  | some p => (strlen (p.view s.mem)).bind fun n => s.copy p n fresh
  | none => some s.invalidate

/-! ### `concat` -/

/-- `concat(cstr, length)` -/
def concat (cstr : Option (Src Byte)) (length : ℕ) (fresh : Fresh) (s : WString) :
    Option (Bool × WString) :=
  let newlen := (s.len + length) % 2 ^ 32
  match cstr with
  | none => some (false, s)
  | some p =>
    if length = 0 then some (true, s)
    else (s.reserve newlen fresh).bind fun r =>
      if r.1 then
        (strcpyReserved r.2.len p newlen s r.2).map fun s => (true, { s with len := newlen })
      else some (false, r.2)

/-- `concat(const char *cstr)`, also for strings in flash. -/
def concatCstr (cstr : Option (Src Byte)) (fresh : Fresh) (s : WString) :
    Option (Bool × WString) :=
  match cstr with
  | none => some (false, s)
  | some p => (strlen (p.view s.mem)).bind fun n => s.concat (some p) n fresh

def concatChar (c : Byte) (fresh : Fresh) (s : WString) : Option (Bool × WString) :=
  s.concat (some (.apart [c, 0])) 1 fresh

/-- `concat(const __FlashStringHelper *str)` -/
def concatFlash (str : Option (Src Byte)) (fresh : Fresh) (s : WString) :
    Option (Bool × WString) :=
  match str with
  | none => some (false, s)
  | some p =>
    (strlen (p.view s.mem)).bind fun length =>
      if length = 0 then some (true, s)
      else
        let newlen := (s.len + length) % 2 ^ 32
        (s.reserve newlen fresh).bind fun r =>
          if r.1 then
            (strcpyReserved r.2.len p newlen s r.2).map fun s => (true, { s with len := newlen })
          else some (false, r.2)

/-! ### Numbers -/

/-- The types of numbers that there are overloads for. -/
inductive Number
  | uchar
  | int
  | uint
  | long
  | ulong
  | float
  | double
deriving DecidableEq, Repr

/-- The size of `buf` in the constructor. -/
def Number.constructRoom : Number → ℕ
  | uchar => 1 + 8 * 1
  | int => 2 + 8 * 4
  | uint => 1 + 8 * 4
  | long => 2 + 8 * 4
  | ulong => 1 + 8 * 4
  | float => 33
  | double => 33

/-- The size of `buf` in `concat`. -/
def Number.concatRoom : Number → ℕ
  | uchar => 1 + 3 * 1
  | int => 2 + 3 * 4
  | uint => 1 + 3 * 4
  | long => 2 + 3 * 4
  | ulong => 1 + 3 * 4
  | float => 20
  | double => 20

/-- `concat` of a number: the C library writes its digits into `buf`. -/
def concatNumber (n : Number) (digits : List Byte) (fresh : Fresh) (s : WString) :
    Option (Bool × WString) :=
  if digits.length < n.concatRoom then s.concatCstr (some (.apart (digits ++ [0]))) fresh else none

/-! ### Constructors -/

/-- `String(const char *cstr)` -/
def ofCstr (cstr : Option (Src Byte)) (fresh : Fresh) : Option WString :=
  match cstr with
  | some p => (strlen (p.view init.mem)).bind fun n => init.copy p n fresh
  | none => some init

/-- `String(const String &value)` -/
def ofString (value : WString) (fresh : Fresh) : Option WString := init.assign value fresh

/-- `String(const __FlashStringHelper *pstr)` -/
def ofFlash (pstr : Option (Src Byte)) (fresh : Fresh) : Option WString :=
  init.assignCstr pstr fresh

/-- `String(String &&rval)` -/
def ofMove (rval : WString) : Option (WString × WString) := init.move rval

def ofChar (c : Byte) (fresh : Fresh) : Option WString :=
  init.assignCstr (some (.apart [c, 0])) fresh

def ofNumber (n : Number) (digits : List Byte) (fresh : Fresh) : Option WString :=
  if digits.length < n.constructRoom then
    init.assignCstr (some (.apart (digits ++ [0]))) fresh
  else none

/-! ### Comparison -/

/-- `unsigned char` as `strcmp` compares it. -/
def charCode (c : Byte) : ℤ := c.toNat

/-- `startsWith(s2, offset)` -/
def startsWithFrom (s s2 : WString) (offset : ℕ) : Option Bool :=
  if offset > sizeSub s.len s2.len ∨ s.buffer.isNone ∨ s2.buffer.isNone then some false
  else (strncmp charCode s2.len (s.mem.drop offset) s2.mem).map fun r => r = 0

def startsWith (s s2 : WString) : Option Bool :=
  if s.len < s2.len then some false else s.startsWithFrom s2 0

def endsWith (s s2 : WString) : Option Bool :=
  if s.len < s2.len ∨ s.buffer.isNone ∨ s2.buffer.isNone then some false
  else (strcmp charCode (s.mem.drop (s.len - s2.len)) s2.mem).map fun r => r = 0

/-! ### Character access -/

def setCharAt (loc : ℕ) (c : Byte) (s : WString) : Option WString :=
  if loc < s.len then s.setByte loc c else some s

/-- `operator [] (index)` as the target of an assignment. -/
def writeAt (index : ℕ) (c : Byte) (s : WString) : Option WString :=
  if index ≥ s.len ∨ s.buffer.isNone then some s else s.setByte index c

/-- `lastIndexOf(char ch, unsigned int fromIndex)`, which cuts the text off for the search. -/
def lastIndexOfChar (ch : Byte) (fromIndex : ℕ) (s : WString) : Option (ℤ × WString) :=
  if fromIndex ≥ s.len then some (-1, s)
  else
    (load s.mem (fromIndex + 1)).bind fun tempchar =>
      (s.setByte (fromIndex + 1) 0).bind fun s =>
        (strrchr s.mem ch).bind fun temp =>
          (s.setByte (fromIndex + 1) tempchar).map fun s => (temp.elim (-1) fun i => ↑i, s)

def substring (left right : ℕ) (fresh fresh' : Fresh) (s : WString) :
    Option (WString × WString) :=
  let (left, right) := if left > right then (right, left) else (left, right)
  (init.assignCstr (some (.apart [0])) fresh).bind fun out =>
    if left ≥ s.len then some (out, s)
    else
      let right := if right > s.len then s.len else right
      (load s.mem right).bind fun temp =>
        (s.setByte right 0).bind fun s =>
          (out.assignCstr (some (.apart (s.mem.drop left))) fresh').bind fun out =>
            (s.setByte right temp).map fun s => (out, s)

/-! ### Modification -/

/-- The loops over the characters up to the terminator. -/
def forChars (f : Byte → Byte) (s : WString) : Option WString :=
  match s.buffer with
  | none => some s
  | some b => (mapCells f b).map fun b => { s with buffer := some b }

def replaceChar (find replace : Byte) (s : WString) : Option WString :=
  s.forChars fun c => if c = find then replace else c

def tolower (c : Byte) : Byte := if 65 ≤ c.toNat ∧ c.toNat ≤ 90 then c + 32 else c

def toupper (c : Byte) : Byte := if 97 ≤ c.toNat ∧ c.toNat ≤ 122 then c - 32 else c

def toLowerCase (s : WString) : Option WString := s.forChars tolower

def toUpperCase (s : WString) : Option WString := s.forChars toupper

def remove (index count : ℕ) (s : WString) : Option WString :=
  if index ≥ s.len then some s
  else if count = 0 then some s
  else
    let count := if count > s.len - index then s.len - index else count
    let len := s.len - count
    (memmove s.mem index (index + count) (len - index)).bind fun b =>
      { s with buffer := some b, len := len }.setByte len 0

def isspace (c : Byte) : Bool := c = 32 ∨ 9 ≤ c.toNat ∧ c.toNat ≤ 13

/-- `begin` of `trim`. -/
def skipSpace : List Byte → Option ℕ
  | [] => none
  | c :: mem => if isspace c then (skipSpace mem).map (· + 1) else some 0

/-- `end + 1` of `trim`, from where it is. -/
def skipSpaceBack (mem : List Byte) (start : ℕ) : ℕ → Option ℕ
  | 0 => none
  | e + 1 =>
    (load mem e).bind fun c =>
      if isspace c ∧ e ≥ start then skipSpaceBack mem start e else some (e + 1)

def trim (s : WString) : Option WString :=
  match s.buffer with
  | none => some s
  | some b =>
    if s.len = 0 then some s
    else (skipSpace b).bind fun start =>
      (skipSpaceBack b start s.len).bind fun stop =>
        let len := sizeSub stop start
        (if start > 0 then memcpy b 0 (.own start) len else some b).bind fun b =>
          { s with buffer := some b, len := len }.setByte len 0

/-! ### `replace` -/

/-- A `const String &`: another `String`, or the receiver. -/
inductive Arg
  | apart (t : WString)
  | own
deriving DecidableEq, Repr

/-- What the reference refers to while the receiver is `s`. -/
def Arg.get (s : WString) : Arg → WString
  | apart t => t
  | own => s

def Arg.src : Arg → Src Byte
  | apart t => .apart t.mem
  | own => .own 0

/-- The loop of `lastIndexOf`, at `p` with `found`. It makes at most `fuel` rounds. -/
def lastFrom (mem needle : List Byte) (fromIndex : ℕ) : ℕ → ℕ → ℤ → Option ℤ
  | 0, _, _ => none
  | fuel + 1, p, found =>
    if p ≤ fromIndex then
      (strstr (mem.drop p) needle).bind fun r =>
        match r with
        | none => some found
        | some n =>
          lastFrom mem needle fromIndex fuel (p + n + 1)
            (if p + n ≤ fromIndex then ↑(p + n) else found)
    else some found

def lastIndexOf (s s2 : WString) (fromIndex : ℕ) : Option ℤ :=
  if s2.len = 0 ∨ s.len = 0 ∨ s2.len > s.len then some (-1)
  else
    let fromIndex := if fromIndex ≥ s.len then s.len - 1 else fromIndex
    lastFrom s.mem s2.mem fromIndex (fromIndex + 2) 0 (-1)

section Replace

variable (find replace : Arg)

/-- The loop for a replacement of the same length. -/
def replaceSame : ℕ → ℕ → WString → Option WString
  | 0, _, _ => none
  | fuel + 1, readFrom, s =>
    (strstr (s.mem.drop readFrom) (find.get s).mem).bind fun r =>
      match r with
      | none => some s
      | some n =>
        let foundAt := readFrom + n
        (memcpy s.mem foundAt replace.src (replace.get s).len).bind fun b =>
          replaceSame fuel (foundAt + (replace.get s).len) { s with buffer := some b }

/-- The loop for a shorter one, and the `strcpy` behind it. -/
def replaceShorter (diff : ℤ) : ℕ → ℕ → ℕ → WString → Option WString
  | 0, _, _, _ => none
  | fuel + 1, writeTo, readFrom, s =>
    (strstr (s.mem.drop readFrom) (find.get s).mem).bind fun r =>
      match r with
      | none => (strcpy s.mem writeTo (.own readFrom)).map fun b => { s with buffer := some b }
      | some n =>
        (memcpy s.mem writeTo (.own readFrom) n).bind fun b =>
          (memcpy b (writeTo + n) replace.src (replace.get s).len).bind fun b =>
            replaceShorter diff fuel (writeTo + n + (replace.get s).len)
              (readFrom + n + (find.get s).len)
              { s with buffer := some b, len := sizeAdd s.len diff }

/-- The loop that computes the size needed for a longer one. -/
def sizeNeeded (diff : ℤ) (s : WString) : ℕ → ℕ → ℕ → Option ℕ
  | 0, _, _ => none
  | fuel + 1, readFrom, size =>
    (strstr (s.mem.drop readFrom) (find.get s).mem).bind fun r =>
      match r with
      | none => some size
      | some n => sizeNeeded diff s fuel (readFrom + n + (find.get s).len) (sizeAdd size diff)

/-- The loop that moves the text behind an occurrence and writes a longer one over it. -/
def replaceLonger (diff : ℤ) : ℕ → ℤ → WString → Option WString
  | 0, _, _ => none
  | fuel + 1, index, s =>
    if index < 0 then some s
    else
      (s.lastIndexOf (find.get s) index.toNat).bind fun index =>
        if index < 0 then some s
        else
          let readFrom := index.toNat + (find.get s).len
          (memmove s.mem (readFrom + diff.toNat) readFrom (sizeSub s.len readFrom)).bind fun b =>
            ({ s with buffer := some b, len := sizeAdd s.len diff }.setByte
                (sizeAdd s.len diff) 0).bind fun s =>
              (memcpy s.mem index.toNat replace.src (replace.get s).len).bind fun b =>
                replaceLonger diff fuel (index - 1) { s with buffer := some b }

/-- The loops end before their fuel does: each round gets ahead by a character. -/
def replaceString (fresh : Fresh) (s : WString) : Option WString :=
  if s.len = 0 ∨ (find.get s).len = 0 then some s
  else
    let diff := Int.bmod (↑(replace.get s).len - ↑(find.get s).len) (2 ^ 32)
    if diff = 0 then replaceSame find replace (s.mem.length + 1) 0 s
    else if diff < 0 then replaceShorter find replace diff (s.mem.length + 1) 0 0 s
    else
      (sizeNeeded find diff s (s.mem.length + 1) 0 s.len).bind fun size =>
        if size = s.len then some s
        else
          let loop (s : WString) : Option WString :=
            replaceLonger find replace diff (s.len + 1) (Int.bmod (s.len - 1) (2 ^ 32)) s
          if size > s.capacity then
            (s.changeBuffer size fresh).bind fun r => if r.1 then loop r.2 else some r.2
          else loop s

end Replace

end WString

end FrameworkXC32
