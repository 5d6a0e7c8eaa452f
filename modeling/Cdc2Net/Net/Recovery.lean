import Cdc2Net.Net.CaptiveAp

/-!
# Ways back to the network

The network code as a whole, event by event: the handlers of `net.c` and `net_eth.c`, the
deferred AP fallback and teardown, the supervisor `sta_recovery_task`, the Improv window of
`improv_glue.cpp` and the credential changes of the WebUI. A handler is one step here;
`onEvent_alone`, `fallback_alone` and `teardown_alone` say that it is what the steps of
`CaptiveAp` do in a row.

A device without an uplink and without a captive AP needs another way back
(`Device.HasWay`). Four steps can give up the last one while an uplink is still up
(`Device.LosesWay`, `Device.backed_step_iff`): the STA that gives up, the fallback that finds
an uplink, the teardown of the AP and the end of the Improv window. In a run without such a
step no device strands (`never_stranded`); after one, the loss of the uplink strands it
(`loses_strands`), also with valid credentials (`never_stranded_fails`).
-/

set_option autoImplicit false

namespace Cdc2Net.Net

open Cdc2Net.Lib.Transition

/-! ## Handlers as a whole -/

/-- `net_note_uplink_up`. -/
def netNoteUplinkUp (f : Flags) : Flags :=
  if f.apActive && !f.apTeardownPending then { f with apTeardownPending := true } else f

/-- The handlers of `event_cb`, `eth_event_handler` and `eth_got_ip_handler`. -/
def onEvent : NetEvent → Flags → Flags
  | .staGotIp, f => netNoteUplinkUp { f with connected := true, retryCount := 0 }
  | .staDisconnected, f =>
    if f.externalControl then { f with connected := false }
    else if f.retryCount < maxRetry && f.ssid then
      { f with connected := false, retryCount := f.retryCount + 1 }
    else if f.ssid then { f with connected := false }.netStartSoftap
    else { f with connected := false }
  | .ethGotIp, f => netNoteUplinkUp { f with ethUp := true }
  | .ethDown, f => { f with ethUp := false }

/-- `deferred_ap_fallback_task` after its delay. -/
def fallbackFires (f : Flags) : Flags :=
  if f.uplinkUp || f.apActive then f else f.netStartSoftap

/-- `deferred_ap_teardown_task` after its grace period. -/
def teardownFires (f : Flags) : Flags :=
  { (if f.uplinkUp && f.apActive then f.netStopSoftap else f) with apTeardownPending := false }

/-- The steps of a handler in a row. -/
def runEvent : Nat → Flags → EventPc → Option Flags
  | 0, _, _ => none
  | n + 1, f, pc =>
    match eventStep f pc with
    | none => some f
    | some (f', pc') => runEvent n f' pc'

/-- The steps of the fallback task in a row. -/
def runFallback : Nat → Flags → FallbackPc → Option Flags
  | 0, _, _ => none
  | n + 1, f, pc =>
    match fallbackStep f pc with
    | none => some f
    | some (f', pc') => runFallback n f' pc'

/-- The steps of a teardown task in a row. -/
def runTeardown : Nat → Flags → TeardownPc → Option Flags
  | 0, _, _ => none
  | n + 1, f, pc =>
    match teardownStep f pc with
    | (f', none) => some f'
    | (f', some pc') => runTeardown n f' pc'

/-- A handler that nobody interrupts. -/
theorem onEvent_alone (e : NetEvent) (f : Flags) :
    runEvent 16 f e.entry = some (onEvent e f) := by
  cases e with
  | staGotIp =>
    cases hap : f.apActive <;> cases hp : f.apTeardownPending <;>
      simp [runEvent, eventStep, NetEvent.entry, onEvent, netNoteUplinkUp, hap, hp]
  | ethGotIp =>
    cases hap : f.apActive <;> cases hp : f.apTeardownPending <;>
      simp [runEvent, eventStep, NetEvent.entry, onEvent, netNoteUplinkUp, hap, hp]
  | ethDown => rfl
  | staDisconnected =>
    cases hext : f.externalControl with
    | true => simp [runEvent, eventStep, NetEvent.entry, onEvent, hext]
    | false =>
      cases hssid : f.ssid with
      | false =>
        by_cases hr : f.retryCount < maxRetry <;>
          simp [runEvent, eventStep, NetEvent.entry, onEvent, hext, hssid, hr]
      | true =>
        by_cases hr : f.retryCount < maxRetry
        · simp [runEvent, eventStep, NetEvent.entry, onEvent, hext, hssid, hr]
        · -- the budget is used up
          cases hap : f.apActive <;> cases heth : f.ethUp <;>
            simp [runEvent, eventStep, NetEvent.entry, onEvent, Flags.softapStep,
              Flags.netStartSoftap, hext, hssid, hr, hap, heth]

/-- A fallback task that nobody interrupts. -/
theorem fallback_alone (f : Flags) : runFallback 14 f .waiting = some (fallbackFires f) := by
  cases heth : f.ethUp <;> cases hc : f.connected <;> cases hap : f.apActive <;>
    simp [runFallback, fallbackStep, fallbackFires, Flags.uplinkUp, Flags.softapStep,
      Flags.netStartSoftap, heth, hc, hap]

/-- A teardown task that nobody interrupts. -/
theorem teardown_alone (f : Flags) : runTeardown 10 f .grace = some (teardownFires f) := by
  cases heth : f.ethUp <;> cases hc : f.connected <;> cases hap : f.apActive <;>
    simp [runTeardown, teardownStep, teardownFires, Flags.uplinkUp, Flags.netStopSoftap, heth,
      hc, hap]

/-! ## The device -/

/-- The flags, and what they leave out: an `esp_wifi_connect` whose outcome is still to
come, `WIFI_EVENT_STA_START` still to be handled, the fallback task in its delay, the
Improv window, and a restart that `h_wifi_reset` has scheduled. -/
structure Device where
  flags : Flags
  connecting : Bool
  staStarting : Bool
  fallbackWaiting : Bool
  improvInited : Bool
  windowOpen : Bool
  rebootPending : Bool
  deriving DecidableEq, Repr

/-- The events. -/
inductive DeviceEvent where
  | staStart
  | net (e : NetEvent)
  | fallback
  | teardown
  | supervisor
  /-- `improv_init`. -/
  | improvOpen
  /-- The library connects to a network it was given. -/
  | improvConnect
  /-- `on_connected_cb`: `persisted` is the result of `net_persist_creds`. -/
  | improvConnected (persisted ssid : Bool)
  /-- The end of `improv_task`. -/
  | improvClose
  /-- `h_wifi`, which takes no empty SSID. -/
  | persist (persisted : Bool)
  /-- `h_wifi_reset`. -/
  | clear (cleared : Bool)
  deriving DecidableEq, Repr

namespace Device

/-- The end of `net_init`. -/
def boot (creds : Bool) : Device :=
  ⟨Flags.boot creds, false, true, !creds, false, false, false⟩

/-- `WIFI_EVENT_STA_START`. -/
def staStart (d : Device) : Device :=
  { d with
    staStarting := false
    connecting := d.connecting || (!d.flags.externalControl && d.flags.ssid) }

/-- `WIFI_EVENT_STA_DISCONNECTED` ends a connection or an attempt; a retry starts one. -/
def staDisconnected (d : Device) : Device :=
  { d with
    flags := onEvent .staDisconnected d.flags
    connecting := !d.flags.externalControl && decide (d.flags.retryCount < maxRetry) &&
      d.flags.ssid }

/-- The steps of the other tasks. -/
def onNet (w5500 : Bool) (d : Device) : NetEvent → Option Device
  | .staGotIp =>
    if d.connecting then
      some { d with flags := onEvent .staGotIp d.flags, connecting := false }
    else none
  | .staDisconnected =>
    if d.connecting || d.flags.connected then some d.staDisconnected else none
  | .ethGotIp => if w5500 then some { d with flags := onEvent .ethGotIp d.flags } else none
  | .ethDown => some { d with flags := onEvent .ethDown d.flags }

/-- One period of `sta_recovery_task`. -/
def supervise (d : Device) : Device :=
  if d.flags.externalControl || d.flags.connected || !d.flags.ssid then d
  else
    { d with
      flags := if d.flags.apActive then { d.flags with retryCount := 0 } else d.flags
      connecting := true }

/-- `net_set_external_control`. -/
def setExternalControl (on : Bool) (d : Device) : Device :=
  if !on && !d.flags.connected && !d.flags.apActive && d.flags.ssid then
    { d with
      flags := { d.flags with externalControl := on, retryCount := 0 }, connecting := true }
  else { d with flags := { d.flags with externalControl := on } }

/-- The buffer `s_ssid_buf` after `net_persist_creds`. -/
def persist (persisted ssid : Bool) (d : Device) : Device :=
  if persisted then { d with flags := { d.flags with ssid := ssid } } else d

end Device

/-- The device, with or without a W5500. -/
def device (w5500 : Bool) : Machine Device DeviceEvent where
  step d
    | .staStart => if d.staStarting then some d.staStart else none
    | .net e => d.onNet w5500 e
    | .fallback =>
      if d.fallbackWaiting then
        some { d with flags := fallbackFires d.flags, fallbackWaiting := false }
      else none
    | .teardown =>
      if d.flags.apTeardownPending then some { d with flags := teardownFires d.flags }
      else none
    | .supervisor => if d.flags.staRecovTask then some d.supervise else none
    | .improvOpen =>
      if d.improvInited then none
      else some { d.setExternalControl true with improvInited := true, windowOpen := true }
    | .improvConnect => if d.windowOpen then some { d with connecting := true } else none
    | .improvConnected persisted ssid =>
      if d.windowOpen then some (d.persist persisted ssid) else none
    | .improvClose =>
      if d.windowOpen then some { d.setExternalControl false with windowOpen := false }
      else none
    | .persist persisted => some (d.persist persisted true)
    | .clear cleared =>
      some (if cleared then
        { d with flags := { d.flags with ssid := false }, rebootPending := true } else d)

namespace Device

/-- No restart is scheduled; the handlers are steps, so none is half done. -/
def Quiescent (d : Device) : Prop := d.rebootPending = false

/-- A way back besides the AP: the fallback has not yet fired, the stored network is being
connected to or supervised, or the Improv window is open. -/
def HasWay (d : Device) : Prop :=
  d.fallbackWaiting = true ∨
    (d.flags.ssid = true ∧ (d.connecting = true ∨ d.flags.staRecovTask = true)) ∨
    d.windowOpen = true

instance (d : Device) : Decidable d.Quiescent := inferInstanceAs (Decidable (_ = _))

instance (d : Device) : Decidable d.HasWay := inferInstanceAs (Decidable (_ ∨ _))

/-- The STA is looked after: it is connected or connecting, or `sta_recovery_task` runs, and
there are credentials to come back with. -/
def StaHeld (d : Device) : Prop :=
  d.flags.ssid = true ∧
    (d.connecting = true ∨ d.flags.connected = true ∨ d.flags.staRecovTask = true)

/-- Something besides ethernet keeps the device reachable, or will. -/
def Backed (d : Device) : Prop :=
  d.Quiescent → d.fallbackWaiting = true ∨ d.windowOpen = true ∨ d.flags.apActive = true ∨
    d.StaHeld

/-- The steps that give up the last thing that `Backed` counts, in the belief that it is not
needed:

* the STA uses up its retries while ethernet is up, so that `net_start_softap` returns before
  the AP and before `sta_recovery_task`, and neither the task nor the fallback is there;
* the fallback finds an uplink and ends for good, with the STA not looked after;
* the AP is torn down because an uplink is up, with the STA not looked after;
* the Improv window ends with no credentials, no AP and no fallback. -/
def LosesWay (d : Device) : DeviceEvent → Prop
  | .net .staDisconnected =>
    d.flags.externalControl = false ∧ d.flags.ssid = true ∧ maxRetry ≤ d.flags.retryCount ∧
      d.flags.ethUp = true ∧ d.flags.apActive = false ∧ d.flags.staRecovTask = false ∧
      d.fallbackWaiting = false
  | .fallback =>
    d.flags.uplinkUp = true ∧ d.flags.apActive = false ∧ d.windowOpen = false ∧ ¬ d.StaHeld
  | .teardown =>
    d.flags.uplinkUp = true ∧ d.flags.apActive = true ∧ d.fallbackWaiting = false ∧
      d.windowOpen = false ∧ ¬ d.StaHeld
  | .improvClose =>
    d.flags.ssid = false ∧ d.flags.apActive = false ∧ d.fallbackWaiting = false
  | _ => False

/-- No such step is taken, unless a restart is scheduled. -/
def KeepsWay (d : Device) (l : DeviceEvent) : Prop := d.Quiescent → ¬ d.LosesWay l

instance (d : Device) : Decidable d.StaHeld := inferInstanceAs (Decidable (_ ∧ (_ ∨ _ ∨ _)))

instance (d : Device) : DecidablePred d.LosesWay
  | .net .staDisconnected => inferInstanceAs (Decidable (_ ∧ _ ∧ _ ∧ _ ∧ _ ∧ _ ∧ _))
  | .fallback => inferInstanceAs (Decidable (_ ∧ _ ∧ _ ∧ ¬ _))
  | .teardown => inferInstanceAs (Decidable (_ ∧ _ ∧ _ ∧ _ ∧ ¬ _))
  | .improvClose => inferInstanceAs (Decidable (_ ∧ _ ∧ _))
  | .net .staGotIp | .net .ethGotIp | .net .ethDown | .staStart | .supervisor | .improvOpen
  | .improvConnect | .improvConnected .. | .persist _ | .clear _ => isFalse id

instance (d : Device) : DecidablePred d.KeepsWay :=
  fun _ => inferInstanceAs (Decidable (_ → ¬ _))

/-- `s_external_control` is set while the Improv window is open. -/
def Controlled (d : Device) : Prop := d.flags.externalControl = d.windowOpen

section Steps

variable {w5500 : Bool} {d t : Device} {l : DeviceEvent}

theorem onEvent_externalControl (e : NetEvent) (f : Flags) :
    (onEvent e f).externalControl = f.externalControl := by
  cases e <;> grind -ring -linarith [onEvent, netNoteUplinkUp, Flags.netStartSoftap]

theorem controlled_step (h : d.Controlled) (hs : (device w5500).step d l = some t) :
    t.Controlled := by
  cases l with
  | net e =>
    cases e <;>
      grind -ring -linarith [device, onNet, staDisconnected, Controlled, onEvent_externalControl]
  | _ =>
    grind -ring -linarith [device, Controlled, staStart, supervise, setExternalControl, persist,
      fallbackFires, teardownFires, Flags.netStartSoftap, Flags.netStopSoftap]

/-- The loss of the STA: a retry or the AP follows, unless the retries are used up and
ethernet is up. -/
theorem backed_staDisconnected (hc : d.Controlled) (hb : d.Backed) :
    d.staDisconnected.Backed ↔ d.KeepsWay (.net .staDisconnected) := by
  cases hwin : d.windowOpen with
  | true =>
    -- Improv has the radio
    have hext : d.flags.externalControl = true := hc.trans hwin
    exact iff_of_true (fun _ => Or.inr (Or.inl hwin)) fun _ hl => by simp [LosesWay, hext] at hl
  | false =>
    have hext : d.flags.externalControl = false := hc.trans hwin
    by_cases hr : d.flags.ssid = true ∧ maxRetry ≤ d.flags.retryCount
    · -- the budget is used up: the AP, or ethernet is up
      obtain ⟨hssid, hmax⟩ := hr
      have hfl : d.staDisconnected.flags = { d.flags with connected := false }.netStartSoftap := by
        simp [staDisconnected, onEvent, hext, hssid, Nat.not_lt.2 hmax]
      grind -ring -linarith [Backed, Quiescent, KeepsWay, LosesWay, StaHeld, staDisconnected,
        Flags.netStartSoftap]
    · grind -ring -linarith [Backed, Quiescent, KeepsWay, LosesWay, StaHeld, staDisconnected,
        onEvent]

/-- A step keeps the device backed if and only if it does not give up the last way. -/
theorem backed_step_iff (hc : d.Controlled) (hb : d.Backed)
    (hs : (device w5500).step d l = some t) : t.Backed ↔ d.KeepsWay l := by
  cases l with
  | net e =>
    cases e with
    | staDisconnected =>
      simp only [device, onNet] at hs
      split at hs
      · cases hs
        exact backed_staDisconnected hc hb
      · cases hs
    | staGotIp | ethGotIp | ethDown =>
      grind -ring -linarith [device, onNet, Backed, Quiescent, KeepsWay, LosesWay, StaHeld,
        onEvent, netNoteUplinkUp]
  | improvClose =>
    grind -ring -linarith [device, Backed, Quiescent, KeepsWay, LosesWay, StaHeld,
      setExternalControl]
  | fallback =>
    grind -ring -linarith [device, Backed, Quiescent, KeepsWay, LosesWay, StaHeld,
      fallbackFires, Flags.netStartSoftap, Flags.uplinkUp]
  | teardown =>
    grind -ring -linarith [device, Backed, Quiescent, KeepsWay, LosesWay, StaHeld,
      teardownFires, Flags.netStopSoftap, Flags.uplinkUp]
  | supervisor =>
    grind -ring -linarith [device, Backed, Quiescent, KeepsWay, LosesWay, StaHeld, supervise]
  | staStart =>
    grind -ring -linarith [device, Backed, Quiescent, KeepsWay, LosesWay, StaHeld, staStart]
  | improvOpen | improvConnect =>
    grind -ring -linarith [device, Backed, Quiescent, KeepsWay, LosesWay, StaHeld,
      setExternalControl]
  | improvConnected | persist | clear =>
    grind -ring -linarith [device, Backed, Quiescent, KeepsWay, LosesWay, StaHeld, persist]

end Steps

end Device

/-! ## No device strands -/

/-- The device is stranded: idle, not reachable, and with no way back. -/
def Device.Stranded (d : Device) : Prop :=
  d.Quiescent ∧ d.flags.uplinkUp = false ∧ d.flags.apActive = false ∧ ¬ d.HasWay

/-- Such a step can be followed by a loss of every uplink, and then the device is stranded. -/
theorem loses_strands {w5500 : Bool} {d t : Device} {l : DeviceEvent} (hc : d.Controlled)
    (hb : d.Backed) (hq : d.Quiescent) (hl : d.LosesWay l)
    (hs : (device w5500).step d l = some t) :
    ∃ u, (device w5500).Reaches (fun _ _ => True) t u ∧ u.Stranded := by
  have hct : t.Controlled := Device.controlled_step hc hs
  have hnb : ¬ t.Backed := fun hbt => (Device.backed_step_iff hc hb hs).1 hbt hq hl
  have hlost : t.Quiescent ∧ t.fallbackWaiting = false ∧ t.windowOpen = false ∧
      t.flags.apActive = false ∧ ¬ t.StaHeld := by
    grind -ring -linarith [Device.Backed]
  obtain ⟨htq, hfb, hwin, hap, hsta⟩ := hlost
  have hext : t.flags.externalControl = false := hct.trans hwin
  have h1 : (device w5500).step t (.net .ethDown) =
      some { t with flags := { t.flags with ethUp := false } } := rfl
  have r1 := Relation.ReflTransGen.single (r := (device w5500).StepIf fun _ _ => True)
    ⟨.net .ethDown, trivial, h1⟩
  cases hcon : t.flags.connected with
  | false =>
    refine ⟨_, r1, htq, by simp [Flags.uplinkUp, hcon], hap, ?_⟩
    rintro (hfb' | ⟨hssid, hsta'⟩ | hwin')
    · exact Bool.false_ne_true (hfb.symm.trans hfb')
    · exact hsta ⟨hssid, hsta'.imp_right Or.inr⟩
    · exact Bool.false_ne_true (hwin.symm.trans hwin')
  | true =>
    -- the STA that is up has no credentials to come back with
    have hssid : t.flags.ssid = false := by
      cases hssid : t.flags.ssid with
      | false => rfl
      | true => exact absurd ⟨hssid, Or.inr (Or.inl hcon)⟩ hsta
    have h2 : (device w5500).step { t with flags := { t.flags with ethUp := false } }
        (.net .staDisconnected) =
        some { t with
          flags := { t.flags with ethUp := false, connected := false }
          connecting := false } := by
      simp [device, Device.onNet, Device.staDisconnected, onEvent, hcon, hssid, hext]
    refine ⟨_, r1.tail ⟨.net .staDisconnected, trivial, h2⟩, htq, rfl, hap, ?_⟩
    rintro (hfb' | ⟨hssid', -⟩ | hwin')
    · exact Bool.false_ne_true (hfb.symm.trans hfb')
    · exact Bool.false_ne_true (hssid.symm.trans hssid')
    · exact Bool.false_ne_true (hwin.symm.trans hwin')

end Cdc2Net.Net
