import FrameworkXC32.Lib.Budget
import FrameworkXC32.Wire.Model

/-!
# The timeouts of the bus

The counted waits of `_idle` and `_send` on any hardware. A watched port behaves like the port it is
made of and keeps a list of all accesses.
-/

namespace FrameworkXC32
open Machine Budget

/-- An access to a register of the port. -/
inductive I2cAccess
  | read (r : I2cReg) (v : Word)
  | write (r : I2cReg) (a : RegAlias) (v : Word)
deriving DecidableEq, Repr

def I2cPort.watched {β : Type} (P : I2cPort β) : I2cPort (β × List I2cAccess) where
  read r s := ((P.read r s.1).1, ((P.read r s.1).2, s.2 ++ [.read r (P.read r s.1).1]))
  write r a v s := (P.write r a v s.1, s.2 ++ [.write r a v])

namespace TwoWire

variable {β : Type} (P : I2cPort β)

/-! ### The wait of `_idle` -/

/-- A poll of `_idle`: whether it finds the bus busy. -/
def idlePoll (b : β) : Bool × β :=
  let (con, b) := P.read .con b
  if con &&& 0b11111 = 0 then (false, b)
  else
    let (sta, b) := P.read .sta b
    (sta &&& staTrstat ≠ 0, b)

/-- The poll with the number `k` finds the bus busy. -/
def IdleBusy (b : β) (k : ℕ) : Prop := BusyAt (idlePoll P) id b k

/-- What `_idle` returns when it has not timed out. -/
def ackResult (b : β) : ℤ × β :=
  let (sta, b) := P.read .sta b
  (if sta &&& staAckstat ≠ 0 then -2 else 0, b)

/-- `_idle` tells a bus that stays busy from one that does not. -/
structure IdleExact (timeout : Word) (b : β) : Prop where
  expired : (idle P timeout b).1 = -1 ↔ ∀ k < timeout.toNat, IdleBusy P b k
  stops : ∀ k < timeout.toNat, (∀ j < k, IdleBusy P b j) → ¬IdleBusy P b k →
    idle P timeout b = ackResult P (after (idlePoll P) (k + 1) b)

variable {P}

lemma idleLoop_succ (T : ℕ) (b : β) : idleLoop P (T + 1) b =
    if (idlePoll P b).1 = true then idleLoop P T (idlePoll P b).2
    else (BitVec.ofNat 32 T, (idlePoll P b).2) := by
  rw [idleLoop]
  unfold idlePoll
  dsimp only
  by_cases hcon : (P.read .con b).1 &&& 0b11111 = 0
  · simp only [hcon, if_true, Bool.false_eq_true, if_false]
  · by_cases hsta : (P.read .sta (P.read .con b).2).1 &&& staTrstat = 0
    · simp only [hcon, hsta, if_true, if_false, ne_eq, not_true_eq_false, decide_false,
        Bool.false_eq_true]
    · simp only [hcon, hsta, if_true, if_false, ne_eq, not_false_eq_true, decide_true]

/-- The counter of a loop that has expired has wrapped around. -/
lemma idleLoop_eq (T : ℕ) (b : β) : idleLoop P T b =
    ((spend (idlePoll P) id T b).1.elim 0xFFFFFFFF (BitVec.ofNat 32),
      (spend (idlePoll P) id T b).2) := by
  induction T generalizing b with
  | zero => rfl
  | succ T ih =>
    rw [idleLoop_succ, spend]
    by_cases hbusy : (idlePoll P b).1 = true
    · have hid : id (idlePoll P b).1 = true := hbusy
      rw [if_pos hbusy, if_pos hid, ih]
    · have hid : ¬id (idlePoll P b).1 = true := hbusy
      rw [if_neg hbusy, if_neg hid]
      rfl

lemma ackResult_ne (b : β) : (ackResult P b).1 ≠ -1 := by
  unfold ackResult
  dsimp only
  split <;> decide

variable {timeout : Word} {b : β}

lemma idle_of_busy (h : ∀ k < timeout.toNat, IdleBusy P b k) :
    idle P timeout b = ackResult P (after (idlePoll P) timeout.toNat b) := by
  unfold idle
  rw [idleLoop_eq, spend_of_busy h]
  rfl

/-- On the last of its polls the loop leaves the counter at zero, as if it had expired. -/
lemma idle_of_idle {k : ℕ} (hk : k < timeout.toNat) (hbefore : ∀ j < k, IdleBusy P b j)
    (hidle : ¬IdleBusy P b k) : idle P timeout b =
      if k + 1 = timeout.toNat then (-1, after (idlePoll P) (k + 1) b)
      else ackResult P (after (idlePoll P) (k + 1) b) := by
  have hzero : BitVec.ofNat 32 (timeout.toNat - 1 - k) = 0 ↔ k + 1 = timeout.toNat := by
    have hlt := timeout.isLt
    rw [← BitVec.toNat_inj, BitVec.toNat_ofNat, Nat.mod_eq_of_lt (by omega)]
    change _ = 0 ↔ _
    omega
  unfold idle
  rw [idleLoop_eq, spend_of_idle hk hbefore hidle]
  change (if BitVec.ofNat 32 (timeout.toNat - 1 - k) = 0 then _ else _) = _
  simp only [hzero]
  rfl

lemma idleExact_iff :
    IdleExact P timeout b ↔ ∃ k, k + 1 < timeout.toNat ∧ ¬IdleBusy P b k := by
  constructor
  · intro h
    rcases busy_or_first timeout.toNat b with hbusy | ⟨k, hk, hbefore, hidle⟩
    · have hres := h.expired.mpr hbusy
      rw [idle_of_busy hbusy] at hres
      exact absurd hres (ackResult_ne _)
    -- the first free poll must not be the last one, which leaves the counter at zero
    · by_cases hlast : k + 1 = timeout.toNat
      · have hres : (idle P timeout b).1 = -1 := by
          rw [idle_of_idle hk hbefore hidle, if_pos hlast]
        exact absurd (h.expired.mp hres k hk) hidle
      · exact ⟨k, by omega, hidle⟩
  · rintro ⟨n, hn, hfree⟩
    have hearly : ∀ k, (∀ j < k, IdleBusy P b j) → k + 1 ≠ timeout.toNat := by
      intro k hbefore heq
      exact hfree (hbefore n (by omega))
    rcases busy_or_first timeout.toNat b with hbusy | ⟨k, hk, hbefore, hidle⟩
    · exact absurd (hbusy n (by omega)) hfree
    · have hres := idle_of_idle hk hbefore hidle
      rw [if_neg (hearly k hbefore)] at hres
      constructor
      · rw [hres]
        exact iff_of_false (ackResult_ne _) fun hall => hidle (hall k hk)
      · intro j _ hj hj'
        rw [first_unique hj hj' hbefore hidle]
        exact hres

/-! ### The waits of `_send` -/

/-- A poll of one of the waits reads `I2CxSTAT`. -/
def staPoll (P : I2cPort β) : β → Word × β := P.read .sta

/-- The bits of `mask` are set. -/
def isSet (mask v : Word) : Bool := v &&& mask ≠ 0

lemma waitSta_eq_spend (mask : Word) (T : ℕ) (b : β) :
    waitSta P mask T b = spend (staPoll P) (isSet mask) (T + 1) b := by
  induction T generalizing b with
  | zero =>
    unfold waitSta
    rw [spend, spend]
    unfold isSet staPoll
    simp only [decide_eq_true_eq]
  | succ T ih =>
    unfold waitSta
    rw [spend]
    simp only [ih]
    unfold isSet staPoll
    simp only [decide_eq_true_eq]

/-- What the polls of a wait that gives up read, with `T` left of the budget. -/
def Expired (mask : Word) (T : ℕ) (polls : List Word) : Prop :=
  polls.length = T + 1 ∧ ∀ v ∈ polls, isSet mask v = true

/-- What they read in a wait that ends, and leaves `T'` of it. -/
def Ended (mask : Word) (T T' : ℕ) (polls : List Word) : Prop :=
  ∃ busy last, polls = busy ++ [last] ∧ busy.length + T' = T ∧
    (∀ v ∈ busy, isSet mask v = true) ∧ isSet mask last = false

/-- The reads of a list of polls. -/
def staReads (polls : List Word) : List I2cAccess := polls.map (.read .sta)

lemma after_staPoll (n : ℕ) (s : β × List I2cAccess) :
    (after (staPoll P.watched) n s).2 = s.2 ++ staReads (seen (staPoll P.watched) n s) := by
  induction n generalizing s with
  | zero => exact (List.append_nil _).symm
  | succ n ih =>
    rw [after, ih, seen]
    change _ ++ [_] ++ _ = _ ++ (_ :: _)
    rw [List.append_assoc]
    rfl

lemma waitSta_watched (mask : Word) (T : ℕ) (s : β × List I2cAccess) :
    (∃ polls b, waitSta P.watched mask T s = (none, (b, s.2 ++ staReads polls)) ∧
      Expired mask T polls) ∨
    ∃ T' polls b, waitSta P.watched mask T s = (some T', (b, s.2 ++ staReads polls)) ∧
      Ended mask T T' polls := by
  have hafter : ∀ n, after (staPoll P.watched) n s =
      ((after (staPoll P.watched) n s).1, s.2 ++ staReads (seen (staPoll P.watched) n s)) := by
    intro n
    rw [← after_staPoll]
  rw [waitSta_eq_spend]
  have hfirst : (∀ k < T + 1, BusyAt (staPoll P.watched) (isSet mask) s k) ∨ _ :=
    busy_or_first (T + 1) s
  rcases hfirst with hbusy | ⟨k, hk, hbefore, hidle⟩
  · left
    rw [spend_of_busy hbusy, hafter]
    exact ⟨_, _, rfl, length_seen _ _, busy_of_mem_seen hbusy⟩
  · right
    rw [spend_of_idle hk hbefore hidle, hafter]
    refine ⟨_, _, _, rfl, _, _, seen_succ k s, ?_, busy_of_mem_seen hbefore, ?_⟩
    · rw [length_seen]
      omega
    · exact Bool.eq_false_of_not_eq_true hidle

/-- What `_send` does behind the wait for an idle bus, with its result and what the polls of the two
waits read. -/
inductive SendTrace (T : ℕ) (data : Word) :
    ℤ → List Word → List Word → List I2cAccess → Prop
  | notIdle : SendTrace T data (-1) [] [] []
  | collision {v : Word} (hv : isSet staIwcol v = true) :
    SendTrace T data (-2) [] []
      [.write .trn .reg data, .read .sta v, .write .sta .clr staIwcol]
  | full {v : Word} {tbf : List Word} (hv : isSet staIwcol v = false)
      (htbf : Expired staTbf T tbf) :
    SendTrace T data (-3) tbf [] ([.write .trn .reg data, .read .sta v] ++ staReads tbf)
  | busy {v : Word} {tbf trstat : List Word} {T' : ℕ} (hv : isSet staIwcol v = false)
      (htbf : Ended staTbf T T' tbf) (htrstat : Expired staTrstat T' trstat) :
    SendTrace T data (-4) tbf trstat
      ([.write .trn .reg data, .read .sta v] ++ staReads tbf ++ staReads trstat)
  | sent {v last : Word} {tbf trstat : List Word} {T' T'' : ℕ} (hv : isSet staIwcol v = false)
      (htbf : Ended staTbf T T' tbf) (htrstat : Ended staTrstat T' T'' trstat) :
    SendTrace T data (if last &&& staAckstat ≠ 0 then -5 else 0) tbf trstat
      ([.write .trn .reg data, .read .sta v] ++ staReads tbf ++ staReads trstat ++
        [.read .sta last])

/-- The rest of `_send` once the byte is written and `I2CxSTAT` has been read. -/
def sendRest (P : I2cPort β) (timeout : Word) (s : Word × β) : ℤ × β :=
  if s.1 &&& staIwcol ≠ 0 then (-2, P.write .sta .clr staIwcol s.2)
  else
    match waitSta P staTbf timeout.toNat s.2 with
    | (none, b) => (-3, b)
    | (some T, b) =>
      match waitSta P staTrstat T b with
      | (none, b) => (-4, b)
      | (some _, b) => (if (P.read .sta b).1 &&& staAckstat ≠ 0 then -5 else 0, (P.read .sta b).2)

lemma send_eq (timeout : Word) (data : Byte) (b : β) : send P timeout data b =
    if (idle P timeout b).1 ≠ 0 then (-1, (idle P timeout b).2)
    else sendRest P timeout
      (P.read .sta (P.write .trn .reg (data.setWidth 32) (idle P timeout b).2)) := rfl

lemma sendTrace (timeout : Word) (data : Byte) (s : β × List I2cAccess) :
    ∃ tbf trstat trace, SendTrace timeout.toNat (data.setWidth 32)
        (send P.watched timeout data s).1 tbf trstat trace ∧
      (send P.watched timeout data s).2.2 = (idle P.watched timeout s).2.2 ++ trace := by
  rw [send_eq]
  by_cases hidle : (idle P.watched timeout s).1 ≠ 0
  · rw [if_pos hidle]
    exact ⟨[], [], [], .notIdle, (List.append_nil _).symm⟩
  · rw [if_neg hidle]
    generalize (idle P.watched timeout s).2 = s₁
    generalize hs₂ : P.watched.read .sta (P.watched.write .trn .reg (data.setWidth 32) s₁) = s₂
    have hlog : s₂.2.2 = s₁.2 ++ [.write .trn .reg (data.setWidth 32), .read .sta s₂.1] := by
      rw [← hs₂]
      exact List.append_assoc _ _ _
    unfold sendRest
    by_cases hcollision : s₂.1 &&& staIwcol ≠ 0
    · rw [if_pos hcollision]
      refine ⟨[], [], _, .collision (decide_eq_true hcollision), ?_⟩
      change s₂.2.2 ++ [_] = _
      rw [hlog, List.append_assoc]
      rfl
    · have hv : isSet staIwcol s₂.1 = false := decide_eq_false hcollision
      rw [if_neg hcollision]
      rcases waitSta_watched staTbf timeout.toNat s₂.2 with
        ⟨tbf, b, hwait, htbf⟩ | ⟨T', tbf, b, hwait, htbf⟩
      · rw [hwait]
        refine ⟨tbf, [], _, .full hv htbf, ?_⟩
        rw [hlog, List.append_assoc]
      · rw [hwait]
        dsimp only
        -- the second wait starts with what the first one has left of the budget
        rcases waitSta_watched staTrstat T' (b, s₂.2.2 ++ staReads tbf) with
          ⟨trstat, b', hwait', htrstat⟩ | ⟨T'', trstat, b', hwait', htrstat⟩
        · rw [hwait']
          refine ⟨tbf, trstat, _, .busy hv htbf htrstat, ?_⟩
          simp only [hlog, List.append_assoc]
        · rw [hwait']
          refine ⟨tbf, trstat, _, .sent hv htbf htrstat, ?_⟩
          dsimp only [I2cPort.watched]
          simp only [hlog, List.append_assoc]

/-- The polls that find the bit set. -/
def busyPolls (mask : Word) (polls : List Word) : ℕ := polls.countP (isSet mask)

lemma Expired.busyPolls {mask : Word} {T : ℕ} {polls : List Word} (h : Expired mask T polls) :
    busyPolls mask polls = T + 1 := by
  rw [← h.1]
  exact List.countP_eq_length.mpr h.2

lemma Ended.length {mask : Word} {T T' : ℕ} {polls : List Word} (h : Ended mask T T' polls) :
    polls.length + T' = T + 1 := by
  obtain ⟨busy, last, rfl, hleft, -⟩ := h
  rw [List.length_append, List.length_singleton]
  omega

lemma Ended.busyPolls {mask : Word} {T T' : ℕ} {polls : List Word} (h : Ended mask T T' polls) :
    busyPolls mask polls + T' = T := by
  obtain ⟨busy, last, rfl, hleft, hbusy, hlast⟩ := h
  have hcount : busy.countP (isSet mask) = busy.length := List.countP_eq_length.mpr hbusy
  unfold TwoWire.busyPolls
  rw [List.countP_append, hcount, List.countP_singleton, hlast]
  exact hleft

section Trace

variable {T : ℕ} {data : Word} {res : ℤ} {tbf trstat : List Word} {trace : List I2cAccess}

/-- The two waits share the budget. -/
lemma SendTrace.polls_le (h : SendTrace T data res tbf trstat trace) :
    tbf.length + trstat.length ≤ T + 2 := by
  cases h with
  | notIdle => exact Nat.zero_le _
  | collision hv => exact Nat.zero_le _
  | full hv htbf =>
    rw [htbf.1]
    exact Nat.le_succ _
  | busy hv htbf htrstat =>
    have hlength := htbf.length
    rw [htrstat.1]
    omega
  | sent hv htbf htrstat =>
    have hlength := htbf.length
    have hlength' := htrstat.length
    omega

lemma SendTrace.busy_of_gaveUp (h : SendTrace T data res tbf trstat trace)
    (hres : res = -3 ∨ res = -4) :
    T < busyPolls staTbf tbf + busyPolls staTrstat trstat := by
  cases h with
  | notIdle => omega
  | collision hv => omega
  | full hv htbf =>
    rw [htbf.busyPolls]
    omega
  | busy hv htbf htrstat =>
    have hfirst := htbf.busyPolls
    rw [htrstat.busyPolls]
    omega
  | sent hv htbf htrstat =>
    split at hres
    · omega
    · omega

end Trace

/-! ### A watched port -/

lemma idle_watched (timeout : Word) (s : β × List I2cAccess) : idle P timeout s.1 =
    ((idle P.watched timeout s).1, (idle P.watched timeout s).2.1) := by
  have hpoll : ∀ s : β × List I2cAccess,
      idlePoll P s.1 = ((idlePoll P.watched s).1, (idlePoll P.watched s).2.1) := by
    intro s
    unfold idlePoll
    dsimp only [I2cPort.watched]
    split
    · rfl
    · rfl
  unfold idle
  rw [idleLoop_eq, idleLoop_eq, spend_proj Prod.fst hpoll]
  dsimp only
  split
  · rfl
  · rfl

lemma waitSta_proj (mask : Word) (T : ℕ) (s : β × List I2cAccess) : waitSta P mask T s.1 =
    ((waitSta P.watched mask T s).1, (waitSta P.watched mask T s).2.1) := by
  rw [waitSta_eq_spend, waitSta_eq_spend]
  exact spend_proj Prod.fst (fun _ => rfl) _ _

lemma sendRest_watched (timeout v : Word) (s : β × List I2cAccess) :
    (sendRest P.watched timeout (v, s)).1 = (sendRest P timeout (v, s.1)).1 := by
  unfold sendRest
  dsimp only
  rw [waitSta_proj]
  split
  · rfl
  · rcases waitSta P.watched staTbf timeout.toNat s with ⟨_ | T, s'⟩
    · rfl
    · dsimp only
      rw [waitSta_proj]
      rcases waitSta P.watched staTrstat T s' with ⟨_ | T', s''⟩
      · rfl
      · rfl

lemma send_watched (timeout : Word) (data : Byte) (s : β × List I2cAccess) :
    (send P.watched timeout data s).1 = (send P timeout data s.1).1 := by
  rw [send_eq, send_eq, idle_watched]
  dsimp only
  split
  · rfl
  · exact sendRest_watched timeout _ _

/-! ### Both waits -/

variable (P) in
/-- The accesses of `_send` behind those of `_idle`, with the polls of its two waits: it gives up
when more of them than the timeout has are busy, and there are at most three more of them. -/
def SendBudget (timeout : Word) (data : Byte) (b : β) : Prop :=
  ∃ tbf trstat trace,
    (send P.watched timeout data (b, [])).2.2 =
      (idle P.watched timeout (b, [])).2.2 ++ trace ∧
    SendTrace timeout.toNat (data.setWidth 32) (send P timeout data b).1 tbf trstat trace ∧
    ((send P timeout data b).1 = -3 ∨ (send P timeout data b).1 = -4 →
      timeout.toNat < busyPolls staTbf tbf + busyPolls staTrstat trstat) ∧
    tbf.length + trstat.length ≤ timeout.toNat + 3

lemma sendBudget (timeout : Word) (data : Byte) (b : β) : SendBudget P timeout data b := by
  obtain ⟨tbf, trstat, trace, htrace, hlog⟩ := sendTrace (P := P) timeout data (b, [])
  rw [send_watched] at htrace
  exact ⟨tbf, trstat, trace, hlog, htrace, htrace.busy_of_gaveUp,
    htrace.polls_le.trans (Nat.le_succ _)⟩

variable (P) in
structure TimeoutsExact (timeout : Word) (data : Byte) (b : β) : Prop where
  idle : IdleExact P timeout b
  send : SendBudget P timeout data b

/-- The waits are exact on a bus that a poll before the last one finds free. -/
theorem timeoutsExact_iff (timeout : Word) (data : Byte) (b : β) :
    TimeoutsExact P timeout data b ↔ ∃ k, k + 1 < timeout.toNat ∧ ¬IdleBusy P b k := by
  rw [← idleExact_iff]
  exact ⟨TimeoutsExact.idle, fun h => ⟨h, sendBudget timeout data b⟩⟩

/-- A module whose `SEN` and `TRSTAT` never fall. -/
def stuckPort : I2cPort Unit where
  read
    | .con, _ => (conSen, ())
    | .sta, _ => (staTrstat, ())
    | _, _ => (0, ())
  write _ _ _ _ := ()

/-- On a bus that stays busy for all of the polls `_idle` finds nothing wrong. -/
theorem idle_misses_stuck_bus :
    (idle stuckPort 0x8000 ()).1 = 0 ∧ ¬TimeoutsExact stuckPort 0x8000 0x55 () := by
  have hbusy : ∀ k < (0x8000 : Word).toNat, IdleBusy stuckPort () k := by
    intro k _
    rfl
  have hres : (idle stuckPort 0x8000 ()).1 = 0 := by
    rw [idle_of_busy hbusy]
    rfl
  refine ⟨hres, fun h => ?_⟩
  have hexpired := h.idle.expired.mpr hbusy
  rw [hres] at hexpired
  exact absurd hexpired (by decide)

end TwoWire

end FrameworkXC32
