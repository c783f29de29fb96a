import FrameworkXC32.Lib.Loop
import FrameworkXC32.Lib.Word

/-!
# `SerialUSB::write`

The loop over a CDC interface of the USB stack, which may take less than it is offered and whose
free space may be anything after `tud_task`.
-/

namespace FrameworkXC32
open Machine

/-- The functions of the stack that `write` calls, on its state. -/
structure TudCdc (σ : Type*) where
  task : σ → σ
  connected : σ → Bool
  writeAvailable : σ → Word
  /-- The number of bytes taken. -/
  write : List Byte → σ → Word × σ
  writeFlush : σ → σ

namespace TudCdc

variable {σ : Type*} (d : TudCdc σ)

/-- The stack takes the first bytes of what it is offered, at least one where they fit, and no
others; `queued` are all bytes it has taken so far. -/
structure Accepts (queued : σ → List Byte) : Prop where
  takes : ∀ s p, p ≠ [] → p.length ≤ (d.writeAvailable s).toNat →
    1 ≤ (d.write p s).1.toNat ∧ (d.write p s).1.toNat ≤ p.length
  queued_write : ∀ s p, p.length ≤ (d.writeAvailable s).toNat →
    queued (d.write p s).2 = queued s ++ p.take (d.write p s).1.toNat
  queued_task : ∀ s, queued (d.task s) = queued s
  queued_writeFlush : ∀ s, queued (d.writeFlush s) = queued s

/-- One turn of the loop, entered with `i`. -/
def writeRound (buf : List Byte) (size : Word) (r : Word × σ) : Option ((Word × σ) ⊕ (Word × σ)) :=
  let (i, s) := r
  if i < size then
    let n := size - i
    let s := d.task s
    let a := d.writeAvailable s
    let n := if n > a then a else n
    if n ≠ 0 then
      let (k, s) := d.write ((buf.drop i.toNat).take n.toNat) s
      some (.inl (i + k, d.writeFlush (d.task s)))
    else some (.inr (i, s))
  else some (.inr (i, s))

/-- `SerialUSB::write`, `none` where the loop makes `fuel` turns without an end. -/
def serialWrite (fuel : ℕ) (buf : List Byte) (size : Word) (s : σ) : Option (Word × σ) :=
  if d.connected s then
    (Loop.run (d.writeRound buf size) fuel (0, s)).map fun (i, s) => (i, d.task s)
  else some (0, s)

/-- The loop saw no free space in one of its turns. -/
def SawNoSpace (fuel : ℕ) (buf : List Byte) (size : Word) (s : σ) : Prop :=
  ∃ r ∈ Loop.visited (d.writeRound buf size) fuel (0, s), d.writeAvailable (d.task r.2) = 0

/-- Up to `i` the bytes of the buffer have been queued behind those that were there before. -/
structure Queued (queued : σ → List Byte) (buf : List Byte) (size : Word) (before : List Byte)
    (r : Word × σ) : Prop where
  le : r.1.toNat ≤ size.toNat
  bytes : queued r.2 = before ++ buf.take r.1.toNat

variable {d} {queued : σ → List Byte} {buf : List Byte} {size : Word} {before : List Byte}

lemma toNat_min (n a : Word) : (if n > a then a else n).toNat = min n.toNat a.toNat := by
  by_cases h : n > a
  · have hlt : a.toNat < n.toNat := h
    rw [if_pos h, Nat.min_eq_right (by omega)]
  · have hle : n.toNat ≤ a.toNat := not_lt.mp h
    rw [if_neg h, Nat.min_eq_left hle]

lemma writeRound_cases (d : TudCdc σ) (buf : List Byte) (i : Word) (s : σ) (hi : i < size) :
    ∃ n : Word,
      n.toNat = min (size.toNat - i.toNat) (d.writeAvailable (d.task s)).toNat ∧
      (n = 0 ∧ d.writeRound buf size (i, s) = some (.inr (i, d.task s)) ∨
        n ≠ 0 ∧ ∃ w, w = d.write ((buf.drop i.toNat).take n.toNat) (d.task s) ∧
          d.writeRound buf size (i, s) = some (.inl (i + w.1, d.writeFlush (d.task w.2)))) := by
  have hmin := toNat_min (size - i) (d.writeAvailable (d.task s))
  rw [BitVec.toNat_sub_of_le (BitVec.le_of_lt hi)] at hmin
  refine ⟨_, hmin, ?_⟩
  unfold writeRound
  dsimp only
  rw [if_pos hi]
  generalize (if size - i > d.writeAvailable (d.task s) then d.writeAvailable (d.task s)
    else size - i) = n
  by_cases hn : n = 0
  · exact Or.inl ⟨hn, if_neg (not_not_intro hn)⟩
  · exact Or.inr ⟨hn, _, rfl, if_pos hn⟩

lemma writeRound_end (i : Word) (s : σ) (hi : ¬i < size) :
    d.writeRound buf size (i, s) = some (.inr (i, s)) := if_neg hi

lemma no_space_of_round {r t : Word × σ} (h : d.writeRound buf size r = some (.inr t))
    (hlt : t.1 < size) : d.writeAvailable (d.task r.2) = 0 := by
  obtain ⟨i, s⟩ := r
  by_cases hi : i < size
  · have hlt' : i.toNat < size.toNat := hi
    obtain ⟨n, hmin, ⟨rfl, -⟩ | ⟨-, w, -, hround⟩⟩ := writeRound_cases d buf i s hi
    · have hzero : (0 : Word).toNat = 0 := rfl
      rw [hzero] at hmin
      apply BitVec.eq_of_toNat_eq
      rw [hzero]
      dsimp only
      omega
    · rw [hround] at h
      cases h
  · rw [writeRound_end i s hi] at h
    cases h
    exact absurd hlt hi

lemma Accepts.round (h : d.Accepts queued) (hbuf : size.toNat ≤ buf.length) {r : Word × σ}
    (hr : Queued queued buf size before r) :
    (∃ t, d.writeRound buf size r = some (.inr t) ∧ Queued queued buf size before t) ∨
      ∃ t, d.writeRound buf size r = some (.inl t) ∧ Queued queued buf size before t ∧
        size.toNat - t.1.toNat < size.toNat - r.1.toNat := by
  obtain ⟨i, s⟩ := r
  obtain ⟨hle, hbytes⟩ := hr
  dsimp only at hle hbytes
  have htask : queued (d.task s) = before ++ buf.take i.toNat := (h.queued_task s).trans hbytes
  by_cases hi : i < size
  · have hlt : i.toNat < size.toNat := hi
    obtain ⟨n, hmin, ⟨-, hround⟩ | ⟨hn, ⟨k, u⟩, hw, hround⟩⟩ :=
      writeRound_cases d buf i s hi
    · exact Or.inl ⟨_, hround, hle, htask⟩
    · have hpos : 0 < n.toNat := Nat.pos_of_ne_zero fun hzero => hn (BitVec.eq_of_toNat_eq hzero)
      have hlen : ((buf.drop i.toNat).take n.toNat).length = n.toNat := by
        rw [List.length_take, List.length_drop]
        omega
      have hne : (buf.drop i.toNat).take n.toNat ≠ [] := by
        intro hnil
        rw [hnil] at hlen
        exact absurd hlen.symm (Nat.ne_of_gt hpos)
      have hfits : ((buf.drop i.toNat).take n.toNat).length ≤
          (d.writeAvailable (d.task s)).toNat := by omega
      obtain ⟨hone, hall⟩ := h.takes (d.task s) _ hne hfits
      have hqueued := h.queued_write (d.task s) _ hfits
      rw [← hw] at hone hall hqueued
      dsimp only at hone hall hqueued
      have hsum : (i + k).toNat = i.toNat + k.toNat := by
        have hsize := size.isLt
        rw [BitVec.toNat_add, Nat.mod_eq_of_lt (by omega)]
      refine Or.inr ⟨_, hround, ⟨?_, ?_⟩, ?_⟩
      · dsimp only
        omega
      · dsimp only
        rw [h.queued_writeFlush, h.queued_task, hqueued, htask, hsum, List.append_assoc,
          List.take_add, List.take_take, Nat.min_eq_left (by omega)]
      · dsimp only
        omega
  · exact Or.inl ⟨_, writeRound_end i s hi, hle, hbytes⟩

/-- Whatever the stack does within its contract, `write` returns, the bytes queued during the call
are the first ones of the buffer, as many as it returns, and it returns fewer than it was given only
where it saw no connection or no free space. -/
theorem serialWrite_reports (d : TudCdc σ) (queued : σ → List Byte) (h : d.Accepts queued)
    (buf : List Byte) (size : Word) (hbuf : size.toNat ≤ buf.length) (s : σ) (fuel : ℕ)
    (hfuel : size.toNat < fuel) :
    ∃ r t, d.serialWrite fuel buf size s = some (r, t) ∧ r ≤ size ∧
      queued t = queued s ++ buf.take r.toNat ∧
      (r < size → d.connected s = false ∨ d.SawNoSpace fuel buf size s) := by
  unfold serialWrite
  cases hconnected : d.connected s with
  | false =>
    refine ⟨0, s, rfl, Nat.zero_le _, ?_, fun _ => Or.inl rfl⟩
    exact (List.append_nil _).symm
  | true =>
    have hstart : Queued queued buf size (queued s) (0, s) :=
      ⟨Nat.zero_le _, (List.append_nil _).symm⟩
    obtain ⟨⟨r, t⟩, hrun, hr⟩ := Loop.run_total (fun r : Word × σ => size.toNat - r.1.toNat)
      (fun r hr => h.round hbuf hr) hstart (lt_of_le_of_lt (Nat.sub_le _ _) hfuel)
    rw [if_pos rfl, hrun]
    refine ⟨r, d.task t, rfl, hr.le, (h.queued_task t).trans hr.bytes, fun hlt => Or.inr ?_⟩
    obtain ⟨q, hq, hround⟩ := Loop.exists_visited_of_run hrun
    exact ⟨q, hq, no_space_of_round hround hlt⟩

/-- A stack with a queue of `depth` bytes, which `tud_task` sends to the host. The state holds the
bytes in the queue and all bytes that it took. -/
def ofDepth (depth : Word) : TudCdc (List Byte × List Byte) where
  task := fun s => ([], s.2)
  connected := fun _ => true
  writeAvailable := fun s => depth - BitVec.ofNat 32 s.1.length
  write := fun p s =>
    let taken := p.take (depth - BitVec.ofNat 32 s.1.length).toNat
    (BitVec.ofNat 32 taken.length, s.1 ++ taken, s.2 ++ taken)
  writeFlush := id

lemma accepts_ofDepth (depth : Word) : (ofDepth depth).Accepts Prod.snd where
  takes := by
    intro s p hp hle
    have hpos : 0 < p.length := List.length_pos_iff.mpr hp
    have hlt := (depth - BitVec.ofNat 32 s.1.length).isLt
    have htaken : p.take (depth - BitVec.ofNat 32 s.1.length).toNat = p := List.take_of_length_le hle
    have hlength : p.length < 2 ^ 32 := lt_of_le_of_lt hle hlt
    have hcount : ((ofDepth depth).write p s).1.toNat = p.length := by
      change (BitVec.ofNat 32 (p.take _).length).toNat = p.length
      rw [htaken, BitVec.toNat_ofNat, Nat.mod_eq_of_lt hlength]
    omega
  queued_write := by
    intro s p hle
    have hlt := (depth - BitVec.ofNat 32 s.1.length).isLt
    have htaken : p.take (depth - BitVec.ofNat 32 s.1.length).toNat = p := List.take_of_length_le hle
    have hlength : p.length < 2 ^ 32 := lt_of_le_of_lt hle hlt
    change s.2 ++ p.take _ = s.2 ++ p.take (BitVec.ofNat 32 (p.take _).length).toNat
    rw [htaken, BitVec.toNat_ofNat, Nat.mod_eq_of_lt hlength, List.take_length]
  queued_task := fun s => rfl
  queued_writeFlush := fun s => rfl

/-- Five bytes through a queue of two. -/
theorem serialWrite_reports_five : ∃ r t,
    (ofDepth 2).serialWrite 6 [1, 2, 3, 4, 5] 5 ([], []) = some (r, t) ∧ r ≤ 5 ∧
      t.2 = [] ++ [1, 2, 3, 4, 5].take r.toNat ∧
      (r < 5 → (ofDepth 2).connected ([], []) = false ∨
        (ofDepth 2).SawNoSpace 6 [1, 2, 3, 4, 5] 5 ([], [])) :=
  serialWrite_reports (ofDepth 2) Prod.snd (accepts_ofDepth 2) [1, 2, 3, 4, 5] 5 (by decide)
    ([], []) 6 (by decide)

end TudCdc

end FrameworkXC32
