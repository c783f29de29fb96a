import FrameworkXC32.Lib.Runs
import FrameworkXC32.Lib.Word

/-!
# Waiting for the wireless network

`WIFI_Init` of `wdrv_mrf24wn.c` and the callbacks of the driver, with what they use of the network
stack (`netif_set_up`, `netif_set_down`, `netif_set_addr`) and of the kernel (`xTaskNotify`,
`xTaskNotifyWait`). The caller of `WIFI_Init` and the tasks of the driver take their steps in any
order.
-/

namespace FrameworkXC32
open Machine

/-- `ucNotifyState` -/
inductive NotifyState
  | notWaiting
  | waiting
  | received
deriving DecidableEq, Repr

/-- The notification of the task that calls `WIFI_Init`. -/
structure Tcb where
  notifyState : NotifyState
  notifiedValue : Word
deriving DecidableEq, Repr

structure Netif where
  ipAddr : Word
  up : Bool
  /-- `wifi_dhcp_ip_ready_callback` is registered. -/
  statusCallback : Bool
deriving DecidableEq, Repr

/-- How far the call of `WIFI_Init` is. -/
inductive InitPc
  | called
  | added
  | stored
  /-- in the list of delayed tasks -/
  | blocked
  /-- behind the first critical section of `xTaskNotifyWait` -/
  | runnable
  | returned (res : ℤ)
deriving DecidableEq, Repr

structure Wifi where
  once : Bool
  started : Bool
  wlan : Netif
  waitingTask : Bool
  tcb : Tcb
  pc : InitPc
  /-- The lines `[DHCP] READY` printed so far. -/
  ready : ℕ
deriving DecidableEq, Repr

def errTimeout : ℤ := -3

namespace Wifi

/-! ### The kernel -/

/-- `xTaskNotify(waiting_task, value, eSetBits)` -/
def xTaskNotify (value : Word) (s : Wifi) : Wifi :=
  { s with
    tcb := ⟨.received, s.tcb.notifiedValue ||| value⟩
    pc := if s.tcb.notifyState = .waiting then .runnable else s.pc }

/-- The first critical section of `xTaskNotifyWait`. -/
def notifyWaitEnter (bitsToClearOnEntry : Word) (s : Wifi) : Wifi :=
  if s.tcb.notifyState ≠ .received then
    { s with
      tcb := ⟨.waiting, s.tcb.notifiedValue &&& ~~~bitsToClearOnEntry⟩
      pc := .blocked }
  else { s with pc := .runnable }

/-- The second one, with the result of `xTaskNotifyWait`. -/
def notifyWaitLeave (bitsToClearOnExit : Word) (s : Wifi) : Bool × Wifi :=
  if s.tcb.notifyState ≠ .received then
    (false, { s with tcb := { s.tcb with notifyState := .notWaiting } })
  else
    (true, { s with tcb := ⟨.notWaiting, s.tcb.notifiedValue &&& ~~~bitsToClearOnExit⟩ })

/-! ### The callbacks of the driver -/

/-- `wifi_dhcp_ip_ready_callback` -/
def wifiDhcpIpReadyCallback (s : Wifi) : Wifi :=
  if s.wlan.ipAddr ≠ 0 then
    let s := { s with ready := s.ready + 1 }
    if s.waitingTask then s.xTaskNotify 1 else s
  else s

/-- `NETIF_STATUS_CALLBACK` -/
def netifStatusCallback (s : Wifi) : Wifi :=
  if s.wlan.statusCallback then s.wifiDhcpIpReadyCallback else s

def netifSetUp (s : Wifi) : Wifi :=
  if s.wlan.up then s else netifStatusCallback { s with wlan := { s.wlan with up := true } }

def netifSetDown (s : Wifi) : Wifi :=
  if s.wlan.up then netifStatusCallback { s with wlan := { s.wlan with up := false } } else s

def netifSetAddr (ipaddr : Word) (s : Wifi) : Wifi :=
  if ipaddr = s.wlan.ipAddr then s
  else netifStatusCallback { s with wlan := { s.wlan with ipAddr := ipaddr } }

/-- `wifi_set_state`, which starts or stops the DHCP client. -/
def wifiSetState (connected : Bool) (s : Wifi) : Wifi :=
  if connected then netifSetUp { s with wlan := { s.wlan with statusCallback := true } }
  else
    let s := s.netifSetDown.netifSetAddr 0
    { s with wlan := { s.wlan with ipAddr := 0 } }

end Wifi

/-- A step of one of the two sides. -/
inductive WifiStep
  /-- `netif_add` and with it the start of the driver, which may fail -/
  | add (ok : Bool)
  /-- the store of `waiting_task` -/
  | store
  | wait
  /-- the timeout of the wait runs out -/
  | expire
  | resume
  /-- `Connect_CB` -/
  | connect (connected : Bool)
  /-- the DHCP client sets the address of the interface -/
  | address (ipaddr : Word)
deriving DecidableEq, Repr

namespace Wifi

/-- A step of `WIFI_Init(timeout)` or of the driver, `none` where it cannot be taken. -/
def step (timeout : Word) (s : Wifi) : WifiStep → Option Wifi
  | .add ok =>
    if s.pc = .called then
      if s.once then some { s with pc := .returned 1 }
      else
        let s := { s with once := true, wlan := ⟨0, false, false⟩ }
        if ok then some { s with started := true, pc := .added }
        else some { s with pc := .returned (-1) }
    else none
  | .store =>
    if s.pc = .added then
      if timeout ≠ 0 then some { s with waitingTask := true, pc := .stored }
      else some { s with waitingTask := false, pc := .returned 0 }
    else none
  | .wait => if s.pc = .stored then some (s.notifyWaitEnter 1) else none
  | .expire => if s.pc = .blocked then some { s with pc := .runnable } else none
  | .resume =>
    if s.pc = .runnable then
      let (ok, s) := s.notifyWaitLeave 1
      some { s with pc := .returned (if ok then 0 else errTimeout) }
    else none
  | .connect connected => if s.started then some (s.wifiSetState connected) else none
  | .address ipaddr => if s.started && s.wlan.up then some (s.netifSetAddr ipaddr) else none

/-- The first call of `WIFI_Init`, by a task without a notification. -/
def atBoot (notifiedValue : Word) : Wifi where
  once := false
  started := false
  wlan := ⟨0, false, false⟩
  waitingTask := false
  tcb := ⟨.notWaiting, notifiedValue⟩
  pc := .called
  ready := 0

end Wifi

end FrameworkXC32
