import Mathlib.Logic.Relation

/-!
# The flags of the network code and the captive AP

`Flags` are the static variables of `net.c` and `net_eth.c` that decide about the captive
AP. `net_start_softap` is given twice: `softapStep` is one read, write or driver call of it,
for the tasks that interleave, and `netStartSoftap` is the call as a whole, for one that
runs alone; `softap_alone` says that the steps of a call that nobody interrupts add up to it.
-/

set_option autoImplicit false

namespace Cdc2Net.Net

/-- `MAX_RETRY` of `net.c`. -/
def maxRetry : Nat := 8

/-- `wifi_mode_t`, as far as it is used. -/
inductive WifiMode where
  | sta
  | apsta
  deriving DecidableEq, Repr

/-- The flags. `ssid` is `s_ssid_buf[0] != '\0'`; `staRecovTask` and `dnsTask` say that the
task handle is not NULL; `wifiMode` is what `esp_wifi_set_mode` was last called with. -/
structure Flags where
  connected : Bool
  ethUp : Bool
  apActive : Bool
  apTeardownPending : Bool
  externalControl : Bool
  ssid : Bool
  retryCount : Nat
  apClients : Nat
  staRecovTask : Bool
  dnsTask : Bool
  dnsStop : Bool
  wifiMode : WifiMode
  deriving DecidableEq, Repr

/-- The flags at the end of `net_init`, with or without credentials. -/
def Flags.boot (creds : Bool) : Flags :=
  { connected := false, ethUp := false, apActive := false, apTeardownPending := false,
    externalControl := false, ssid := creds, retryCount := 0, apClients := 0,
    staRecovTask := creds, dnsTask := false, dnsStop := false, wifiMode := .sta }

namespace Flags

/-- `net_uplink_is_up`, and `net_is_connected`, which reads the two the other way round. -/
def uplinkUp (f : Flags) : Bool := f.connected || f.ethUp

/-- Where a call of `net_start_softap` stands: its next read, write or driver call. -/
inductive SoftapPc where
  | active
  | eth
  | mode
  | config
  | start
  | mark
  | dnsStop
  | dns
  | recov
  deriving DecidableEq, Repr

/-- One step of `net_start_softap`, and where the call stands then, `none` at its return.
Task creation succeeds. -/
def softapStep (f : Flags) : SoftapPc → Flags × Option SoftapPc
  | .active => (f, if f.apActive then none else some .eth)
  -- the uplink is looked at here, and only the ethernet one
  | .eth => (f, if f.ethUp then none else some .mode)
  | .mode => ({ f with wifiMode := .apsta }, some .config)
  | .config => (f, some .start)
  | .start => (f, some .mark)
  | .mark => ({ f with apActive := true }, some .dnsStop)
  | .dnsStop => ({ f with dnsStop := false }, some .dns)
  | .dns => ({ f with dnsTask := true }, some .recov)
  | .recov => ({ f with staRecovTask := f.staRecovTask || f.ssid }, none)

/-- `net_start_softap` as a whole. -/
def netStartSoftap (f : Flags) : Flags :=
  if f.apActive then f
  else if f.ethUp then f
  else
    { f with
      wifiMode := .apsta, apActive := true, dnsStop := false, dnsTask := true,
      staRecovTask := f.staRecovTask || f.ssid }

/-- `net_stop_softap` as a whole. -/
def netStopSoftap (f : Flags) : Flags :=
  if f.apActive then
    { f with dnsStop := true, wifiMode := .sta, apActive := false, apClients := 0 }
  else f

/-- The steps of a call in a row. -/
def runSoftap : Nat → Flags → SoftapPc → Option Flags
  | 0, _, _ => none
  | n + 1, f, pc =>
    match softapStep f pc with
    | (f', none) => some f'
    | (f', some pc') => runSoftap n f' pc'

/-- A call that nobody interrupts is `netStartSoftap`. -/
theorem softap_alone (f : Flags) : runSoftap 9 f .active = some f.netStartSoftap := by
  by_cases hap : f.apActive = true
  · simp [runSoftap, softapStep, netStartSoftap, hap]
  · by_cases heth : f.ethUp = true
    · simp [runSoftap, softapStep, netStartSoftap, hap, heth]
    · simp [runSoftap, softapStep, netStartSoftap, hap, heth]

section Frame

variable (f : Flags) (pc : SoftapPc)

@[simp] theorem softapStep_connected : (f.softapStep pc).1.connected = f.connected := by
  cases pc <;> rfl

@[simp] theorem softapStep_ethUp : (f.softapStep pc).1.ethUp = f.ethUp := by
  cases pc <;> rfl

@[simp] theorem softapStep_pending :
    (f.softapStep pc).1.apTeardownPending = f.apTeardownPending := by
  cases pc <;> rfl

/-- The AP is marked active by one step only. -/
theorem softapStep_apActive :
    (f.softapStep pc).1.apActive = if pc = .mark then true else f.apActive := by
  cases pc <;> rfl

/-- The call touches the AP, the DNS task and the supervisor only. -/
theorem netStartSoftap_frame :
    f.netStartSoftap.connected = f.connected ∧ f.netStartSoftap.ethUp = f.ethUp ∧
      f.netStartSoftap.externalControl = f.externalControl ∧ f.netStartSoftap.ssid = f.ssid := by
  cases hap : f.apActive <;> cases heth : f.ethUp <;> simp [netStartSoftap, hap, heth]

/-- Afterwards the AP is up, unless ethernet was. -/
theorem netStartSoftap_apActive :
    f.netStartSoftap.apActive = (f.apActive || !f.ethUp) := by
  cases hap : f.apActive <;> cases heth : f.ethUp <;> simp [netStartSoftap, hap, heth]

end Frame

end Flags

end Cdc2Net.Net
