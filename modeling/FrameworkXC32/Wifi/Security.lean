import FrameworkXC32.Lib.Block
import FrameworkXC32.Lib.Hex
import FrameworkXC32.Lib.Runs

/-!
# The key of the wireless network

`SecuritySet` and `WDRV_Connect` of `wdrv_mrf24wn.c`, with the commands that they give to the
driver. A binary WEP key is written over by its text, once.
-/

namespace FrameworkXC32
open Machine Block

def wdrvSecurityOpen : Byte := 0
def wdrvSecurityWep40 : Byte := 1
def wdrvSecurityWep104 : Byte := 2
def wdrvSecurityWpaWithPassPhrase : Byte := 3
def wdrvSecurityWpa2WithPassPhrase : Byte := 4
def wdrvSecurityWpsPushButton : Byte := 6
def wdrvSecurityWpsPin : Byte := 7

def wdrvNetworkTypeInfrastructure : Byte := 1
def wdrvNetworkTypeSoftAp : Byte := 4

def wdrvMaxSsidLength : ℕ := 32

/-- `WDRV_MAX_WPA2_PASS_PHRASE_LENGTH` -/
def wdrvMaxSecurityKeyLength : ℕ := 64

def wdrvDefaultChannel : ℕ := 5

/-- `WDRV_CONFIG` -/
structure WdrvConfig where
  networkType : Byte
  ssid : Field Byte (wdrvMaxSsidLength + 1)
  ssidLen : Byte
  securityMode : Byte
  securityKey : Field Byte wdrvMaxSecurityKeyLength
  securityKeyLen : Byte
deriving DecidableEq, Repr

/-- The commands `WDRV_EXT_Cmd...`, with what their pointers point at. -/
inductive WdrvCmd
  | netModeBSSSet
  | netModeAPSet
  | channelSet (channel : ℕ)
  | ssidSet (ssid : Field Byte (wdrvMaxSsidLength + 1)) (len : Byte)
  | secNoneSet
  | secWEPSet (key : Field Byte wdrvMaxSecurityKeyLength) (len : Byte)
  | secWPASet (key : Field Byte wdrvMaxSecurityKeyLength) (len : Byte)
  | secWPA2Set (key : Field Byte wdrvMaxSecurityKeyLength) (len : Byte)
  | secWpsSet (pinMode : Bool) (key : Field Byte wdrvMaxSecurityKeyLength) (len : Byte)
  | powerSavePut (enable : Bool)
  | connect
deriving DecidableEq, Repr

/-- `s_wdrv_cfg` and the commands given so far. -/
structure Wdrv where
  cfg : WdrvConfig
  sent : List WdrvCmd
deriving DecidableEq, Repr

namespace Wdrv

def send (cmd : WdrvCmd) (s : Wdrv) : Wdrv := { s with sent := s.sent ++ [cmd] }

/-- The character for `originalKeyChar`. -/
def hexChar (originalKeyChar : Byte) : Byte :=
  if originalKeyChar > 9 then 65 + originalKeyChar - 0x0A else 48 + originalKeyChar - 0x00

/-- `asciiKey` after `i` rounds of the loop. -/
def asciiKey (securityKey : List Byte) : ℕ → Option (Field Byte 26)
  | 0 => some ⟨List.replicate 26 0, List.length_replicate⟩
  | i + 1 =>
    (asciiKey securityKey i).bind fun asciiKey =>
      (load securityKey (i / 2)).bind fun c =>
        let originalKeyChar := if i % 2 = 0 then c >>> 4 else c &&& 0x0F
        asciiKey.store i (hexChar originalKeyChar)

/-- The conversion of a key of five or thirteen bytes. -/
def convertKey (cfg : WdrvConfig) : Option WdrvConfig :=
  if cfg.securityKeyLen = 5 ∨ cfg.securityKeyLen = 13 then
    (asciiKey cfg.securityKey.cells (cfg.securityKeyLen.toNat * 2)).bind fun asciiKey =>
      let securityKeyLen := cfg.securityKeyLen * 2
      (copyOut asciiKey.cells 0 securityKeyLen.toNat).bind fun src =>
        (cfg.securityKey.copyIn 0 src).bind fun securityKey =>
          (securityKey.store securityKeyLen.toNat 0x00).map fun securityKey =>
            { cfg with securityKey, securityKeyLen }
  else some cfg

/-- `NetModeSet`. A failed assertion never returns, which is `none`. -/
def netModeSet (networkType : Byte) (s : Wdrv) : Option Wdrv :=
  if networkType = wdrvNetworkTypeInfrastructure then some (s.send .netModeBSSSet)
  else if networkType = wdrvNetworkTypeSoftAp then some (s.send .netModeAPSet)
  else none

/-- `SecuritySet` -/
def securitySet (securityMode : Byte) (s : Wdrv) : Option Wdrv :=
  if securityMode = wdrvSecurityOpen then some (s.send .secNoneSet)
  else if securityMode = wdrvSecurityWep40 ∨ securityMode = wdrvSecurityWep104 then
    (convertKey s.cfg).map fun cfg =>
      send (.secWEPSet cfg.securityKey cfg.securityKeyLen) { s with cfg }
  else if securityMode = wdrvSecurityWpaWithPassPhrase then
    some (s.send (.secWPASet s.cfg.securityKey s.cfg.securityKeyLen))
  else if securityMode = wdrvSecurityWpa2WithPassPhrase then
    some (s.send (.secWPA2Set s.cfg.securityKey s.cfg.securityKeyLen))
  else if securityMode = wdrvSecurityWpsPin ∨ securityMode = wdrvSecurityWpsPushButton then
    let pinMode := s.cfg.securityMode = wdrvSecurityWpsPin
    some (s.send (.secWpsSet pinMode s.cfg.securityKey s.cfg.securityKeyLen))
  else none

/-- The end of `WDRV_Connect`, behind `SecuritySet`. -/
def startConnection (s : Wdrv) : Wdrv :=
  let s := s.send (.powerSavePut false)
  if s.cfg.securityMode ≠ wdrvSecurityWpsPin ∧ s.cfg.securityMode ≠ wdrvSecurityWpsPushButton then
    s.send .connect
  else s

/-- `WDRV_Connect` -/
def wdrvConnect (s : Wdrv) : Option Wdrv :=
  (netModeSet s.cfg.networkType s).bind fun s =>
    let s := if s.cfg.networkType = wdrvNetworkTypeSoftAp then
      s.send (.channelSet wdrvDefaultChannel) else s
    let s := s.send (.ssidSet s.cfg.ssid s.cfg.ssidLen)
    (securitySet s.cfg.securityMode s).map startConnection

end Wdrv

/-- A call of one of the two. -/
inductive WdrvCall
  | securitySet (securityMode : Byte)
  | connect
deriving DecidableEq, Repr

namespace Wdrv

def step (s : Wdrv) : WdrvCall → Option Wdrv
  | .securitySet securityMode => s.securitySet securityMode
  | .connect => s.wdrvConnect

/-! ### The conversion of the key -/

def IsWep (mode : Byte) : Prop := mode = wdrvSecurityWep40 ∨ mode = wdrvSecurityWep104

instance (mode : Byte) : Decidable (IsWep mode) := inferInstanceAs (Decidable (_ ∨ _))

/-- The length is that of a WEP key which is not yet a text. -/
def BinaryKey (cfg : WdrvConfig) : Prop := cfg.securityKeyLen = 5 ∨ cfg.securityKeyLen = 13

instance (cfg : WdrvConfig) : Decidable (BinaryKey cfg) := inferInstanceAs (Decidable (_ ∨ _))

/-- The bytes of the key. -/
def key (cfg : WdrvConfig) : List Byte := cfg.securityKey.cells.take cfg.securityKeyLen.toNat

/-- The key of `cfg'` is the text of that of `cfg`. -/
structure ShowsKey (cfg cfg' : WdrvConfig) : Prop where
  key : key cfg' = Hex.text (key cfg)
  len : cfg'.securityKeyLen.toNat = 2 * cfg.securityKeyLen.toNat
  terminated : cfg'.securityKey.cells[cfg'.securityKeyLen.toNat]? = some 0
  decodes : Hex.decode (Wdrv.key cfg') = some (Wdrv.key cfg)
  others : { cfg' with securityKey := cfg.securityKey, securityKeyLen := cfg.securityKeyLen } = cfg

lemma hexChar_eq {d : Byte} (h : d.toNat < 16) : hexChar d = Hex.digit d.toNat := by
  have hd : d = BitVec.ofNat 8 d.toNat := by
    rw [BitVec.ofNat_toNat, BitVec.setWidth_eq]
  rw [hd]
  generalize d.toNat = n at h
  interval_cases n <;> rfl

lemma hexChar_half (c : Byte) (i : ℕ) :
    hexChar (if i % 2 = 0 then c >>> 4 else c &&& 0x0F) =
      Hex.digit (if i % 2 = 0 then c.toNat / 16 else c.toNat % 16) := by
  have hc : c.toNat < 256 := c.isLt
  split
  · have hhigh : (c >>> 4).toNat = c.toNat / 16 := by
      rw [BitVec.toNat_ushiftRight, Nat.shiftRight_eq_div_pow]
    rw [hexChar_eq (by omega), hhigh]
  · have hlow : (c &&& 0x0F).toNat = c.toNat % 16 := by
      rw [BitVec.toNat_and]
      exact Nat.and_two_pow_sub_one_eq_mod c.toNat 4
    rw [hexChar_eq (by omega), hlow]

lemma asciiKey_eq (k rest : List Byte) (hk : 2 * k.length ≤ 26) {n : ℕ}
    (hn : n ≤ 2 * k.length) :
    ∃ a, asciiKey (k ++ rest) n = some a ∧
      a.cells = (Hex.text k).take n ++ List.replicate (26 - n) 0 := by
  induction n with
  | zero => exact ⟨_, rfl, rfl⟩
  | succ i ih =>
    obtain ⟨a, ha, hcells⟩ := ih (by omega)
    have hi : i / 2 < k.length := by omega
    have hload : load (k ++ rest) (i / 2) = some k[i / 2] := by
      unfold load
      rw [List.getElem?_append_left hi, List.getElem?_eq_getElem hi]
    have hlen : ((Hex.text k).take i).length = i := by
      rw [List.length_take, Hex.length_text, Nat.min_eq_left (by omega)]
    have hzeros : List.replicate (26 - i) (0 : Byte) = 0 :: List.replicate (26 - (i + 1)) 0 := by
      rw [← List.replicate_succ]
      congr 1
      omega
    have hroom : ∀ c : Byte, i + [c].length ≤ 26 := by
      intro c
      rw [List.length_singleton]
      omega
    obtain ⟨b, hb, hover⟩ := a.copyIn_eq
      (hroom (hexChar (if i % 2 = 0 then k[i / 2] >>> 4 else k[i / 2] &&& 0x0F)))
    refine ⟨b, ?_, ?_⟩
    · rw [asciiKey, ha, Option.bind_some, hload, Option.bind_some]
      exact hb
    · have htext : (Hex.text k).take (i + 1) = (Hex.text k).take i ++
          [Hex.digit (if i % 2 = 0 then k[i / 2].toNat / 16 else k[i / 2].toNat % 16)] := by
        rw [List.take_add_one, Hex.getElem?_text, List.getElem?_eq_getElem hi]
        rfl
      have hcell := overwrite_cell ((Hex.text k).take i) 0
        (Hex.digit (if i % 2 = 0 then k[i / 2].toNat / 16 else k[i / 2].toNat % 16))
        (List.replicate (26 - (i + 1)) 0)
      rw [hlen] at hcell
      rw [hover, hcells, hzeros, hexChar_half, hcell, htext, List.append_assoc,
        List.singleton_append]

section Binary

variable {cfg : WdrvConfig} (h : BinaryKey cfg)
include h

lemma BinaryKey.toNat : cfg.securityKeyLen.toNat = 5 ∨ cfg.securityKeyLen.toNat = 13 := by
  rcases h with h | h
  · exact .inl (congrArg BitVec.toNat h)
  · exact .inr (congrArg BitVec.toNat h)

lemma BinaryKey.length_key : (key cfg).length = cfg.securityKeyLen.toNat := by
  have hlen := h.toNat
  unfold key
  rw [List.length_take, cfg.securityKey.size]
  unfold wdrvMaxSecurityKeyLength
  omega

lemma BinaryKey.double : (cfg.securityKeyLen * 2).toNat = (Hex.text (key cfg)).length := by
  rw [Hex.length_text, h.length_key]
  rcases h with h | h
  · rw [h]
    rfl
  · rw [h]
    rfl

lemma BinaryKey.asciiKey :
    ∃ a, asciiKey cfg.securityKey.cells (cfg.securityKeyLen.toNat * 2) = some a ∧
      copyOut a.cells 0 (Hex.text (key cfg)).length = some (Hex.text (key cfg)) := by
  have hlen := h.toNat
  have hkeylen := h.length_key
  have htext : (Hex.text (key cfg)).length = 2 * (key cfg).length := Hex.length_text _
  have hsplit : key cfg ++ cfg.securityKey.cells.drop cfg.securityKeyLen.toNat =
      cfg.securityKey.cells := List.take_append_drop _ _
  obtain ⟨a, ha, hcells⟩ := asciiKey_eq (key cfg)
    (cfg.securityKey.cells.drop cfg.securityKeyLen.toNat) (by omega) (Nat.le_refl _)
  rw [hsplit, Nat.mul_comm, hkeylen] at ha
  rw [← htext, List.take_length] at hcells
  refine ⟨a, ha, ?_⟩
  rw [copyOut_eq (by rw [a.size]; omega), List.drop_zero, hcells, List.take_left]

lemma convertKey_of_binary : ∃ cfg', convertKey cfg = some cfg' ∧ ShowsKey cfg cfg' := by
  have hlen := h.toNat
  have hroom : (Hex.text (key cfg)).length < wdrvMaxSecurityKeyLength := by
    rw [Hex.length_text, h.length_key]
    unfold wdrvMaxSecurityKeyLength
    omega
  obtain ⟨a, ha, hsrc⟩ := h.asciiKey
  obtain ⟨f, g, hf, hg, hcells⟩ := cfg.securityKey.copyIn_store hroom 0
  refine ⟨{ cfg with securityKey := g, securityKeyLen := cfg.securityKeyLen * 2 }, ?_, ?_⟩
  · have hbinary : cfg.securityKeyLen = 5 ∨ cfg.securityKeyLen = 13 := h
    unfold convertKey
    rw [if_pos hbinary, ha, Option.bind_some]
    dsimp only
    rw [h.double, hsrc, Option.bind_some, hf, Option.bind_some, hg]
    rfl
  · have hkey : key { cfg with securityKey := g, securityKeyLen := cfg.securityKeyLen * 2 } =
        Hex.text (key cfg) := by
      change g.cells.take (cfg.securityKeyLen * 2).toNat = _
      rw [h.double, hcells, List.take_left]
    constructor
    · exact hkey
    · exact h.double.trans (by rw [Hex.length_text, h.length_key])
    · dsimp only
      rw [h.double, hcells, List.getElem?_append_right (Nat.le_refl _), Nat.sub_self,
        List.getElem?_cons_zero]
    · rw [hkey, Hex.decode_text]
    · rfl

end Binary

lemma convertKey_of_text {cfg : WdrvConfig} (h : ¬BinaryKey cfg) : convertKey cfg = some cfg :=
  if_neg h

/-- A text is as long as no binary key. -/
lemma ShowsKey.not_binary {cfg cfg' : WdrvConfig} (hshows : ShowsKey cfg cfg')
    (h : BinaryKey cfg) : ¬BinaryKey cfg' := by
  intro h'
  have hlen := hshows.len
  have hbefore := h.toNat
  have hafter := h'.toNat
  omega

/-! ### Repeated calls -/

/-- The command of `SecuritySet` when there is nothing to convert. -/
def securityCmd (mode : Byte) (cfg : WdrvConfig) : Option WdrvCmd :=
  if mode = wdrvSecurityOpen then some .secNoneSet
  else if IsWep mode then some (.secWEPSet cfg.securityKey cfg.securityKeyLen)
  else if mode = wdrvSecurityWpaWithPassPhrase then
    some (.secWPASet cfg.securityKey cfg.securityKeyLen)
  else if mode = wdrvSecurityWpa2WithPassPhrase then
    some (.secWPA2Set cfg.securityKey cfg.securityKeyLen)
  else if mode = wdrvSecurityWpsPin ∨ mode = wdrvSecurityWpsPushButton then
    some (.secWpsSet (cfg.securityMode = wdrvSecurityWpsPin) cfg.securityKey cfg.securityKeyLen)
  else none

/-- The commands that start the connection; WPS starts it by itself. -/
def startCmds (cfg : WdrvConfig) : List WdrvCmd :=
  if cfg.securityMode ≠ wdrvSecurityWpsPin ∧ cfg.securityMode ≠ wdrvSecurityWpsPushButton then
    [.powerSavePut false, .connect]
  else [.powerSavePut false]

/-- The commands of `WDRV_Connect`. -/
def connectCmds (cfg : WdrvConfig) : Option (List WdrvCmd) :=
  (securityCmd cfg.securityMode cfg).bind fun security =>
    let behind := .ssidSet cfg.ssid cfg.ssidLen :: security :: startCmds cfg
    if cfg.networkType = wdrvNetworkTypeInfrastructure then some (.netModeBSSSet :: behind)
    else if cfg.networkType = wdrvNetworkTypeSoftAp then
      some (.netModeAPSet :: .channelSet wdrvDefaultChannel :: behind)
    else none

/-- The mode that a call passes to `SecuritySet`. -/
def mode (cfg : WdrvConfig) : WdrvCall → Byte
  | .securitySet securityMode => securityMode
  | .connect => cfg.securityMode

/-- What a call tells the driver, as a function of the configuration alone. -/
def commands (cfg : WdrvConfig) : WdrvCall → Option (List WdrvCmd)
  | .securitySet securityMode => (securityCmd securityMode cfg).map fun cmd => [cmd]
  | .connect => connectCmds cfg

/-- The mode finds no binary key that it would convert. -/
def Settled (mode : Byte) (cfg : WdrvConfig) : Prop := IsWep mode → ¬BinaryKey cfg

section Wep

variable {mode : Byte} (hwep : IsWep mode)
include hwep

lemma IsWep.ne_open : mode ≠ wdrvSecurityOpen := by
  rintro rfl
  revert hwep
  decide

lemma securitySet_of_wep (s : Wdrv) :
    s.securitySet mode = (convertKey s.cfg).map fun cfg =>
      send (.secWEPSet cfg.securityKey cfg.securityKeyLen) { s with cfg } := by
  have hopen := hwep.ne_open
  unfold IsWep at hwep
  unfold securitySet
  rw [if_neg hopen, if_pos hwep]

lemma securityCmd_of_wep (cfg : WdrvConfig) :
    securityCmd mode cfg = some (.secWEPSet cfg.securityKey cfg.securityKeyLen) := by
  unfold securityCmd
  rw [if_neg hwep.ne_open, if_pos hwep]

end Wep

lemma securitySet_of_settled {mode : Byte} {s : Wdrv} (h : Settled mode s.cfg) :
    s.securitySet mode = (securityCmd mode s.cfg).map fun cmd => s.send cmd := by
  by_cases hwep : IsWep mode
  · rw [securitySet_of_wep hwep, convertKey_of_text (h hwep), securityCmd_of_wep hwep]
    rfl
  · unfold securityCmd
    rw [if_neg hwep]
    unfold IsWep at hwep
    unfold securitySet
    rw [if_neg hwep]
    split_ifs
    all_goals rfl

lemma startConnection_eq (cfg : WdrvConfig) (sent : List WdrvCmd) :
    startConnection ⟨cfg, sent⟩ = ⟨cfg, sent ++ startCmds cfg⟩ := by
  unfold startConnection startCmds
  dsimp only [send]
  split
  · rw [List.append_assoc]
    rfl
  · rfl

lemma wdrvConnect_of_settled {s : Wdrv} (h : Settled s.cfg.securityMode s.cfg) :
    s.wdrvConnect = (connectCmds s.cfg).map fun cmds => ⟨s.cfg, s.sent ++ cmds⟩ := by
  have hset : ∀ sent, (securitySet s.cfg.securityMode ⟨s.cfg, sent⟩).map startConnection =
      (securityCmd s.cfg.securityMode s.cfg).map fun cmd =>
        ⟨s.cfg, sent ++ cmd :: startCmds s.cfg⟩ := by
    intro sent
    have hsettled := securitySet_of_settled (s := ⟨s.cfg, sent⟩) h
    rw [hsettled, Option.map_map]
    congr 1
    funext cmd
    change startConnection ⟨s.cfg, sent ++ [cmd]⟩ = _
    rw [startConnection_eq, List.append_assoc]
    rfl
  unfold wdrvConnect netModeSet connectCmds
  by_cases hbss : s.cfg.networkType = wdrvNetworkTypeInfrastructure
  · have hap : s.cfg.networkType ≠ wdrvNetworkTypeSoftAp := by
      rw [hbss]
      decide
    simp only [if_pos hbss, hap, if_false, Option.bind_some, send, hset]
    cases securityCmd s.cfg.securityMode s.cfg with
    | none => rfl
    | some cmd =>
      simp only [Option.map_some, Option.bind_some, List.append_assoc]
      rfl
  · by_cases hap : s.cfg.networkType = wdrvNetworkTypeSoftAp
    · simp only [hbss, if_false, if_pos hap, Option.bind_some, send, hset]
      cases securityCmd s.cfg.securityMode s.cfg with
      | none => rfl
      | some cmd =>
        simp only [Option.map_some, Option.bind_some, List.append_assoc]
        rfl
    · simp only [hbss, hap, if_false, Option.bind_none]
      cases securityCmd s.cfg.securityMode s.cfg <;> rfl

lemma step_of_settled {s : Wdrv} {call : WdrvCall} (h : Settled (mode s.cfg call) s.cfg) :
    step s call = (commands s.cfg call).map fun cmds => ⟨s.cfg, s.sent ++ cmds⟩ := by
  cases call with
  | securitySet securityMode =>
    have hset : s.securitySet securityMode = (securityCmd securityMode s.cfg).map fun cmd =>
        s.send cmd := securitySet_of_settled h
    rw [step, commands, hset, Option.map_map]
    rfl
  | connect => exact wdrvConnect_of_settled h

lemma run_of_settled {calls : List WdrvCall} {s : Wdrv}
    (h : ∀ call ∈ calls, Settled (mode s.cfg call) s.cfg) :
    Runs.run step s calls =
      (calls.mapM (commands s.cfg)).map fun cmds => ⟨s.cfg, s.sent ++ cmds.flatten⟩ := by
  induction calls generalizing s with
  | nil => simp
  | cons call calls ih =>
    rw [Runs.run_cons, step_of_settled (h call (List.mem_cons_self)), List.mapM_cons]
    cases hcmds : commands s.cfg call with
    | none => rfl
    | some cmds =>
      have hrest := ih (s := ⟨s.cfg, s.sent ++ cmds⟩) fun c hc => h c (List.mem_cons_of_mem _ hc)
      rw [Option.map_some, Option.bind_some, hrest]
      cases calls.mapM (commands s.cfg) with
      | none => rfl
      | some rest =>
        change some _ = some _
        dsimp only
        rw [List.flatten_cons, List.append_assoc]

lemma securitySet_settles {mode : Byte} {s s' : Wdrv} (h : s.securitySet mode = some s') :
    Settled mode s'.cfg := by
  intro hwep
  rw [securitySet_of_wep hwep, Option.map_eq_some_iff] at h
  obtain ⟨cfg', hconvert, rfl⟩ := h
  by_cases hbinary : BinaryKey s.cfg
  · obtain ⟨cfg, hcfg, hshows⟩ := convertKey_of_binary hbinary
    rw [hcfg, Option.some_inj] at hconvert
    rw [← hconvert]
    exact hshows.not_binary hbinary
  · rw [convertKey_of_text hbinary, Option.some_inj] at hconvert
    rwa [← hconvert]

/-- The modes that `SecuritySet` knows. -/
def Supported (mode : Byte) : Prop :=
  mode = wdrvSecurityOpen ∨ IsWep mode ∨ mode = wdrvSecurityWpaWithPassPhrase ∨
    mode = wdrvSecurityWpa2WithPassPhrase ∨ mode = wdrvSecurityWpsPin ∨
    mode = wdrvSecurityWpsPushButton

/-- What a call of `SecuritySet` has done, and that a later one in the same mode does it again. -/
structure PreparesKey (mode : Byte) (s s' : Wdrv) : Prop where
  shows : IsWep mode → BinaryKey s.cfg → ShowsKey s.cfg s'.cfg
  given : IsWep mode →
    s'.sent = s.sent ++ [.secWEPSet s'.cfg.securityKey s'.cfg.securityKeyLen]
  again : ∃ cmd, s'.sent = s.sent ++ [cmd] ∧ ∀ n,
    Runs.run step s' (List.replicate n (.securitySet mode)) =
      some ⟨s'.cfg, s'.sent ++ List.replicate n cmd⟩
  later : ∀ calls, (∀ call ∈ calls, Settled (Wdrv.mode s'.cfg call) s'.cfg) →
    Runs.run step s' calls =
      (calls.mapM (commands s'.cfg)).map fun cmds => ⟨s'.cfg, s'.sent ++ cmds.flatten⟩

lemma run_replicate {mode : Byte} {cmd : WdrvCmd} {s : Wdrv} (hset : Settled mode s.cfg)
    (hcmd : securityCmd mode s.cfg = some cmd) (n : ℕ) :
    Runs.run step s (List.replicate n (.securitySet mode)) =
      some ⟨s.cfg, s.sent ++ List.replicate n cmd⟩ := by
  induction n generalizing s with
  | zero =>
    rw [List.replicate_zero, List.replicate_zero, List.append_nil, Runs.run_nil]
  | succ n ih =>
    have hstep : step s (.securitySet mode) = some (s.send cmd) := by
      rw [step, securitySet_of_settled hset, hcmd, Option.map_some]
    have hrest := ih (s := s.send cmd) hset hcmd
    rw [List.replicate_succ, Runs.run_cons, hstep, Option.bind_some, hrest, List.replicate_succ]
    unfold send
    rw [List.append_assoc, List.singleton_append]

lemma isSome_securityCmd (mode : Byte) (cfg : WdrvConfig) :
    (securityCmd mode cfg).isSome ↔ Supported mode := by
  unfold securityCmd Supported
  split_ifs with hopen hwep hwpa hwpa2 hwps
  · simp [hopen]
  · simp [hwep]
  · simp [hwpa]
  · simp [hwpa2]
  · simp [hwps]
  · simp only [hopen, hwep, hwpa, hwpa2, hwps, or_false, Option.isSome_none, Bool.false_eq_true]

lemma isSome_securitySet (mode : Byte) (s : Wdrv) :
    (s.securitySet mode).isSome ↔ Supported mode := by
  by_cases hwep : IsWep mode
  · rw [securitySet_of_wep hwep, Option.isSome_map]
    apply iff_of_true _ (.inr (.inl hwep))
    by_cases hbinary : BinaryKey s.cfg
    · obtain ⟨cfg, hcfg, -⟩ := convertKey_of_binary hbinary
      rw [hcfg, Option.isSome_some]
    · rw [convertKey_of_text hbinary, Option.isSome_some]
  · rw [securitySet_of_settled fun h => absurd h hwep, Option.isSome_map, isSome_securityCmd]

lemma securitySet_sent {mode : Byte} {s s' : Wdrv} (h : s.securitySet mode = some s') :
    ∃ cmd, securityCmd mode s'.cfg = some cmd ∧ s'.sent = s.sent ++ [cmd] := by
  by_cases hwep : IsWep mode
  · rw [securitySet_of_wep hwep, Option.map_eq_some_iff] at h
    obtain ⟨cfg, -, rfl⟩ := h
    exact ⟨_, securityCmd_of_wep hwep cfg, rfl⟩
  · rw [securitySet_of_settled fun h => absurd h hwep, Option.map_eq_some_iff] at h
    obtain ⟨cmd, hcmd, rfl⟩ := h
    exact ⟨cmd, hcmd, rfl⟩

lemma securitySet_shows {mode : Byte} {s s' : Wdrv} (hwep : IsWep mode) (hbinary : BinaryKey s.cfg)
    (h : s.securitySet mode = some s') : ShowsKey s.cfg s'.cfg := by
  obtain ⟨cfg, hcfg, hshows⟩ := convertKey_of_binary hbinary
  rw [securitySet_of_wep hwep, hcfg, Option.map_some, Option.some_inj] at h
  rw [← h]
  exact hshows

/-- `SecuritySet` returns in every mode it knows, encodes a binary WEP key once, and does the same
again in every later call. -/
theorem securitySet_prepares (mode : Byte) (s : Wdrv) :
    ((s.securitySet mode).isSome ↔ Supported mode) ∧
      ∀ s', s.securitySet mode = some s' → PreparesKey mode s s' := by
  refine ⟨isSome_securitySet mode s, fun s' h => ?_⟩
  have hset := securitySet_settles h
  obtain ⟨cmd, hcmd, hsent⟩ := securitySet_sent h
  constructor
  · exact fun hwep hbinary => securitySet_shows hwep hbinary h
  · intro hwep
    rw [securityCmd_of_wep hwep, Option.some_inj] at hcmd
    rw [hsent, hcmd]
  · exact ⟨cmd, hsent, run_replicate hset hcmd⟩
  · exact fun calls hcalls => run_of_settled hcalls

/-- A WEP key of five bytes in its field. -/
def fiveBytes : WdrvConfig where
  networkType := wdrvNetworkTypeInfrastructure
  ssid := ⟨List.replicate 33 0, rfl⟩
  ssidLen := 0
  securityMode := wdrvSecurityWep40
  securityKey := ⟨[0x5A, 0xFB, 0x6C, 0x8E, 0x77] ++ List.replicate 59 0xFF, rfl⟩
  securityKeyLen := 5

/-- The key becomes `5AFB6C8E77`. -/
theorem securitySet_prepares_five :
    ∃ s', securitySet wdrvSecurityWep40 ⟨fiveBytes, []⟩ = some s' ∧
      PreparesKey wdrvSecurityWep40 ⟨fiveBytes, []⟩ s' ∧
      key s'.cfg = [53, 65, 70, 66, 54, 67, 56, 69, 55, 55] := by
  obtain ⟨hreturns, hprepares⟩ := securitySet_prepares wdrvSecurityWep40 ⟨fiveBytes, []⟩
  obtain ⟨s', hs'⟩ := Option.isSome_iff_exists.mp (hreturns.mpr (.inr (.inl (.inl rfl))))
  have h := hprepares s' hs'
  exact ⟨s', hs', h, (h.shows (.inl rfl) (.inl rfl)).key⟩

end Wdrv

end FrameworkXC32
