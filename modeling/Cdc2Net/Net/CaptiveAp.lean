import Cdc2Net.Lib.Transition
import Cdc2Net.Net.Softap
import Mathlib.Data.List.Basic

/-!
# The captive AP and the outage

Three tasks share the flags without a lock: the event task with the handlers of `net.c` and
`net_eth.c`, `deferred_ap_fallback_task`, and the `deferred_ap_teardown_task`s that
`net_note_uplink_up` creates. Every read and write of a flag and every driver call is a step.

An uplink that comes up asks for the teardown of an open AP. The request misses an AP that
is marked active only afterwards, and it is dropped while an earlier teardown task has
made its re-check and not yet cleared `s_ap_teardown_pending` (`captive_ap_retired_fails`).
Apart from these, an AP that is open while an uplink is up has a teardown ahead
(`captive_ap_retired`); `exposed_iff` says that no other step exposes it.
-/

set_option autoImplicit false

namespace Cdc2Net.Net

open Cdc2Net.Lib.Transition

/-! ## The tasks -/

/-- What the event task is called for. -/
inductive NetEvent where
  | staGotIp
  | staDisconnected
  | ethGotIp
  | ethDown
  deriving DecidableEq, Repr

/-- Where the event task stands in `event_cb`, `eth_event_handler` or
`eth_got_ip_handler`. -/
inductive EventPc where
  | idle
  /-- `IP_EVENT_STA_GOT_IP`. -/
  | staUp
  | staRetry
  /-- `eth_got_ip_handler`. -/
  | ethUp
  /-- `ETHERNET_EVENT_DISCONNECTED` and `_STOP`. -/
  | ethDown
  /-- `WIFI_EVENT_STA_DISCONNECTED`. -/
  | staDown
  | external
  | retry
  | retrySsid
  | count
  | connect
  | giveUp
  | softap (pc : Flags.SoftapPc)
  /-- `net_note_uplink_up`. -/
  | noteActive
  | notePending
  | noteMark
  | noteCreate
  deriving DecidableEq, Repr

/-- Where `deferred_ap_fallback_task` stands. -/
inductive FallbackPc where
  /-- In its delay. -/
  | waiting
  /-- `net_is_connected`. -/
  | eth
  | sta
  | active
  | softap (pc : Flags.SoftapPc)
  | gone
  deriving DecidableEq, Repr

/-- Where a `deferred_ap_teardown_task` stands. -/
inductive TeardownPc where
  /-- In its grace period. -/
  | grace
  /-- `net_uplink_is_up`. -/
  | connected
  | eth
  | active
  /-- `net_stop_softap`. -/
  | stopActive
  | dnsStop
  | mode
  | unmark
  | clients
  /-- About to clear `s_ap_teardown_pending`. -/
  | clear
  deriving DecidableEq, Repr

/-- The flags and the tasks. -/
structure ApState where
  flags : Flags
  event : EventPc
  fallback : FallbackPc
  teardown : List TeardownPc

/-- The steps. `env` stands for the writes of the other tasks (Improv, the WebUI, the
supervisor, `captive_dns_task`, the join events of the AP). -/
inductive ApLabel where
  /-- The idle event task is called. -/
  | event (e : NetEvent)
  | eventStep
  | fallback
  /-- The `i`-th teardown task. -/
  | teardown (i : Nat)
  | env (ssid externalControl dnsTask retryReset : Bool) (apClients : Nat)
  deriving DecidableEq, Repr

/-- The first step of the handler of an event. -/
def NetEvent.entry : NetEvent → EventPc
  | .staGotIp => .staUp
  | .staDisconnected => .staDown
  | .ethGotIp => .ethUp
  | .ethDown => .ethDown

/-- One step of a handler, less `xTaskCreate`; `none` for an idle event task. -/
def eventStep (f : Flags) : EventPc → Option (Flags × EventPc)
  | .idle => none
  | .staUp => some ({ f with connected := true }, .staRetry)
  | .staRetry => some ({ f with retryCount := 0 }, .noteActive)
  | .ethUp => some ({ f with ethUp := true }, .noteActive)
  | .ethDown => some ({ f with ethUp := false }, .idle)
  | .staDown => some ({ f with connected := false }, .external)
  | .external => some (f, if f.externalControl then .idle else .retry)
  | .retry => some (f, if f.retryCount < maxRetry then .retrySsid else .giveUp)
  | .retrySsid => some (f, if f.ssid then .count else .giveUp)
  | .count => some ({ f with retryCount := f.retryCount + 1 }, .connect)
  | .connect => some (f, .idle)
  | .giveUp => some (f, if f.ssid then .softap .active else .idle)
  | .softap pc =>
    let r := f.softapStep pc
    some (r.1, r.2.elim .idle .softap)
  | .noteActive => some (f, if f.apActive then .notePending else .idle)
  | .notePending => some (f, if f.apTeardownPending then .idle else .noteMark)
  | .noteMark => some ({ f with apTeardownPending := true }, .noteCreate)
  | .noteCreate => some (f, .idle)

/-- One step of the fallback task. -/
def fallbackStep (f : Flags) : FallbackPc → Option (Flags × FallbackPc)
  | .waiting => some (f, .eth)
  | .eth => some (f, if f.ethUp then .gone else .sta)
  | .sta => some (f, if f.connected then .gone else .active)
  | .active => some (f, if f.apActive then .gone else .softap .active)
  | .softap pc =>
    let r := f.softapStep pc
    some (r.1, r.2.elim .gone .softap)
  | .gone => none

/-- One step of a teardown task, and where it stands then, `none` at its end. -/
def teardownStep (f : Flags) : TeardownPc → Flags × Option TeardownPc
  | .grace => (f, some .connected)
  | .connected => (f, some (if f.connected then .active else .eth))
  | .eth => (f, some (if f.ethUp then .active else .clear))
  | .active => (f, some (if f.apActive then .stopActive else .clear))
  | .stopActive => (f, some (if f.apActive then .dnsStop else .clear))
  | .dnsStop => ({ f with dnsStop := true }, some .mode)
  | .mode => ({ f with wifiMode := .sta }, some .unmark)
  | .unmark => ({ f with apActive := false }, some .clients)
  | .clients => ({ f with apClients := 0 }, some .clear)
  | .clear => ({ f with apTeardownPending := false }, none)

namespace ApState

/-- A step of the event task. -/
def stepEvent (s : ApState) : Option ApState :=
  (eventStep s.flags s.event).map fun r =>
    { s with
      flags := r.1, event := r.2
      teardown := if s.event = .noteCreate then s.teardown ++ [.grace] else s.teardown }

/-- A step of the fallback task. -/
def stepFallback (s : ApState) : Option ApState :=
  (fallbackStep s.flags s.fallback).map fun r => { s with flags := r.1, fallback := r.2 }

/-- A step of the `i`-th teardown task. -/
def stepTeardown (s : ApState) (i : Nat) : Option ApState :=
  s.teardown[i]?.map fun pc =>
    let r := teardownStep s.flags pc
    { s with
      flags := r.1
      teardown := match r.2 with
        | some pc' => s.teardown.set i pc'
        | none => s.teardown.eraseIdx i }

/-- The end of `net_init`: without credentials the fallback task waits. -/
def start (creds : Bool) : ApState :=
  ⟨Flags.boot creds, .idle, if creds then .gone else .waiting, []⟩

end ApState

/-- The tasks together. -/
def captiveAp : Machine ApState ApLabel where
  step s
    | .event e => if s.event = .idle then some { s with event := e.entry } else none
    | .eventStep => s.stepEvent
    | .fallback => s.stepFallback
    | .teardown i => s.stepTeardown i
    | .env ssid ext dns reset clients =>
      some { s with flags := { s.flags with
        ssid := ssid, externalControl := ext, dnsTask := dns
        retryCount := if reset then 0 else s.flags.retryCount, apClients := clients } }

/-! ## When an open AP is covered -/

/-- The handler has raised an uplink flag and is on its way through
`net_note_uplink_up`. -/
def EventPc.notes : EventPc → Bool
  | .staRetry | .noteActive | .notePending | .noteMark | .noteCreate => true
  | _ => false

/-- The handler has cleared `s_connected`. -/
def EventPc.staOff : EventPc → Bool
  | .external | .retry | .retrySsid | .count | .connect | .giveUp | .softap _ => true
  | _ => false

/-- `net_start_softap` is past its look at ethernet. -/
def pastEth : Flags.SoftapPc → Bool
  | .active | .eth => false
  | _ => true

/-- The handler is in `net_start_softap` and has found ethernet down. -/
def EventPc.ethOff : EventPc → Bool
  | .softap pc => pastEth pc
  | _ => false

/-- The teardown task will still look at the AP, or is about to drop it. -/
def TeardownPc.beforeDrop : TeardownPc → Bool
  | .clients | .clear => false
  | _ => true

namespace ApState

/-- A teardown is ahead, or the event task is about to ask for one. -/
def Covered (s : ApState) : Prop :=
  s.event.notes = true ∨ ∃ p ∈ s.teardown, TeardownPc.beforeDrop p = true

instance (s : ApState) : Decidable s.Covered := inferInstanceAs (Decidable (_ ∨ _))

/-- The AP is open while an uplink is up, and nothing is on its way to drop it. -/
def Exposed (s : ApState) : Prop :=
  s.flags.apActive = true ∧ s.flags.uplinkUp = true ∧ ¬ s.Covered

instance (s : ApState) : Decidable s.Exposed := inferInstanceAs (Decidable (_ ∧ _))

/-- No task is in the middle of its steps. -/
def Quiet (s : ApState) : Prop :=
  s.event = .idle ∧ (s.fallback = .waiting ∨ s.fallback = .gone) ∧
    ∀ p ∈ s.teardown, p = TeardownPc.grace

instance (s : ApState) : Decidable s.Quiet := inferInstanceAs (Decidable (_ ∧ _))

end ApState

/-- The steps that do not expose an open AP:

* the fallback task marks the AP active while no uplink is up, or with a teardown ahead;
* `net_note_uplink_up` leaves the request to a pending teardown that is still before its
  drop of the AP, unless the AP is down by then;
* a teardown task that has found `s_connected` false reads ethernet as down while the STA is
  still without an IP, or while the handler of its new IP is about to ask again. -/
def SafeStep (s : ApState) : ApLabel → Prop
  | .fallback => s.fallback = .softap .mark → s.flags.uplinkUp = true → s.Covered
  | .eventStep => s.event = .notePending → s.flags.apTeardownPending = true →
      s.flags.apActive = true → ∃ p ∈ s.teardown, TeardownPc.beforeDrop p = true
  | .teardown i => s.teardown[i]? = some .eth → s.flags.apActive = true →
      s.flags.connected = true → s.flags.ethUp = false → s.event.notes = true
  | _ => True

instance (s : ApState) : DecidablePred (SafeStep s)
  | .event _ => isTrue trivial
  | .eventStep => inferInstanceAs (Decidable (_ → _ → _ → _))
  | .fallback => inferInstanceAs (Decidable (_ → _ → _))
  | .teardown _ => inferInstanceAs (Decidable (_ → _ → _ → _ → _))
  | .env .. => isTrue trivial

/-! ## What every step keeps -/

/-- What a handler knows of the uplinks, which only the event task changes. -/
structure Knows (f : Flags) (e : EventPc) : Prop where
  raised : e.notes = true → f.uplinkUp = true
  staOff : e.staOff = true → f.connected = false
  ethOff : e.ethOff = true → f.ethUp = false

/-- There is one teardown task while `s_ap_teardown_pending` is set, from its creation to
its end. -/
structure Tasks (pending : Bool) (e : EventPc) (ts : List TeardownPc) : Prop where
  length : ts.length = if pending = true ∧ e ≠ .noteCreate then 1 else 0
  mark : e = .noteMark → pending = false
  create : e = .noteCreate → pending = true

/-- What holds in every state. -/
structure ApInv (s : ApState) : Prop where
  knows : Knows s.flags s.event
  tasks : Tasks s.flags.apTeardownPending s.event s.teardown

theorem apInv_start (creds : Bool) : ApInv (.start creds) where
  knows := ⟨fun h => (by cases h), fun h => (by cases h), fun h => (by cases h)⟩
  tasks := ⟨rfl, fun h => (by cases h), fun h => (by cases h)⟩

section Steps

variable {f f' : Flags} {e e' : EventPc} {ts : List TeardownPc} {s t : ApState}

/-- A handler's knowledge rests on the uplink flags. -/
theorem Knows.congr (h : Knows f e) (hc : f'.connected = f.connected)
    (heth : f'.ethUp = f.ethUp) : Knows f' e where
  raised he := by simpa only [Flags.uplinkUp, hc, heth] using h.raised he
  staOff he := hc.trans (h.staOff he)
  ethOff he := heth.trans (h.ethOff he)

theorem Knows.step (h : Knows f e) (hs : eventStep f e = some (f', e')) : Knows f' e' := by
  obtain ⟨hr, hsta, heth⟩ := h
  cases e with
  | idle => cases hs
  | softap pc =>
    have hoff : f.connected = false := hsta rfl
    cases hs
    cases pc with
    | active | eth =>
      -- the look at ethernet adds to what the handler knows
      simp only [Flags.softapStep]
      split <;> constructor <;>
        simp_all [EventPc.notes, EventPc.staOff, EventPc.ethOff, pastEth]
    | _ =>
      have hdown : f.ethUp = false := heth rfl
      constructor <;> simp [EventPc.notes, Flags.softapStep, hoff, hdown]
  | external | retry | retrySsid | giveUp | noteActive | notePending =>
    cases hs
    split <;> constructor <;>
      simp_all [EventPc.notes, EventPc.staOff, EventPc.ethOff, pastEth]
  | _ =>
    cases hs
    constructor <;> simp_all [EventPc.notes, EventPc.staOff, EventPc.ethOff, Flags.uplinkUp]

/-- A handler creates a teardown task when it has just set `s_ap_teardown_pending`. -/
theorem Tasks.step (h : Tasks f.apTeardownPending e ts) (hs : eventStep f e = some (f', e')) :
    Tasks f'.apTeardownPending e' (if e = .noteCreate then ts ++ [.grace] else ts) := by
  obtain ⟨hlen, hmark, hcreate⟩ := h
  cases e with
  | softap pc => cases pc <;> constructor <;> grind -ring -linarith [eventStep, Flags.softapStep]
  | _ => constructor <;> grind -ring -linarith [eventStep]

/-- The teardown task of a pending request. -/
theorem Tasks.eq_singleton {pending : Bool} (h : Tasks pending e ts) (hp : pending = true)
    (he : e ≠ .noteCreate) : ∃ p, ts = [p] :=
  List.length_eq_one_iff.1 (h.length.trans (if_pos ⟨hp, he⟩))

/-- While there is one, the request is pending, and no handler is about to set it. -/
theorem Tasks.pending_of_mem {pending : Bool} {p : TeardownPc} (h : Tasks pending e ts)
    (hp : p ∈ ts) : pending = true ∧ e ≠ .noteCreate ∧ e ≠ .noteMark := by
  have hlen := h.length
  split at hlen
  · next hc => exact ⟨hc.1, hc.2, fun hm => by simp [h.mark hm] at hc⟩
  · rw [List.length_eq_zero_iff.1 hlen] at hp
    cases hp

theorem ApInv.stepEvent (h : ApInv s) (hs : s.stepEvent = some t) : ApInv t := by
  obtain ⟨⟨f, e⟩, hr, rfl⟩ := Option.map_eq_some_iff.1 hs
  exact ⟨h.knows.step hr, h.tasks.step hr⟩

theorem fallbackStep_frame {p p' : FallbackPc} (hs : fallbackStep f p = some (f', p')) :
    f'.connected = f.connected ∧ f'.ethUp = f.ethUp ∧
      f'.apTeardownPending = f.apTeardownPending := by
  cases p with
  | softap pc =>
    cases hs
    exact ⟨f.softapStep_connected pc, f.softapStep_ethUp pc, f.softapStep_pending pc⟩
  | gone => cases hs
  | _ => cases hs; exact ⟨rfl, rfl, rfl⟩

theorem ApInv.stepFallback (h : ApInv s) (hs : s.stepFallback = some t) : ApInv t := by
  obtain ⟨⟨f, p⟩, hr, rfl⟩ := Option.map_eq_some_iff.1 hs
  obtain ⟨hc, heth, hp⟩ := fallbackStep_frame hr
  exact ⟨h.knows.congr hc heth, by simpa only [hp] using h.tasks⟩

theorem teardownStep_frame (f : Flags) (p : TeardownPc) :
    (teardownStep f p).1.connected = f.connected ∧ (teardownStep f p).1.ethUp = f.ethUp := by
  cases p <;> exact ⟨rfl, rfl⟩

/-- A teardown task ends with the step that clears `s_ap_teardown_pending`. -/
theorem teardownStep_end (f : Flags) (p : TeardownPc) :
    (teardownStep f p).2 = none ∧ (teardownStep f p).1.apTeardownPending = false ∨
      (teardownStep f p).2.isSome = true ∧
        (teardownStep f p).1.apTeardownPending = f.apTeardownPending := by
  cases p with
  | clear => exact Or.inl ⟨rfl, rfl⟩
  | _ => exact Or.inr ⟨rfl, rfl⟩

/-- A teardown task is the only one. -/
theorem Tasks.eq_of_getElem? {pending : Bool} {i : Nat} {p : TeardownPc}
    (h : Tasks pending e ts) (hp : ts[i]? = some p) : i = 0 ∧ ts = [p] := by
  obtain ⟨hpend, hcreate, -⟩ := h.pending_of_mem (List.mem_of_getElem? hp)
  obtain ⟨q, rfl⟩ := h.eq_singleton hpend hcreate
  obtain ⟨hlt, hget⟩ := List.getElem?_eq_some_iff.1 hp
  obtain rfl : i = 0 := by simpa using hlt
  exact ⟨rfl, congrArg (fun x => [x]) hget⟩

theorem ApInv.stepTeardown {i : Nat} (h : ApInv s) (hs : s.stepTeardown i = some t) :
    ApInv t := by
  obtain ⟨p, hp, rfl⟩ := Option.map_eq_some_iff.1 hs
  obtain ⟨hc, heth⟩ := teardownStep_frame s.flags p
  refine ⟨h.knows.congr hc heth, ?_⟩
  obtain ⟨hpend, hcreate, hmark⟩ := h.tasks.pending_of_mem (List.mem_of_getElem? hp)
  obtain ⟨rfl, hts⟩ := h.tasks.eq_of_getElem? hp
  rcases teardownStep_end s.flags p with ⟨hnone, hclear⟩ | ⟨hsome, hkeep⟩
  · simp only [hnone, hclear]
    exact ⟨by simp [hts], fun _ => rfl, fun he => absurd he hcreate⟩
  · obtain ⟨q, hq⟩ := Option.isSome_iff_exists.1 hsome
    simp only [hq, hkeep]
    exact ⟨by simp [hts, hpend, hcreate], fun he => absurd he hmark,
      fun he => absurd he hcreate⟩

theorem ApInv.step {l : ApLabel} (h : ApInv s) (hs : captiveAp.step s l = some t) :
    ApInv t := by
  cases l with
  | event e =>
    simp only [captiveAp] at hs
    split at hs
    · next hidle =>
      cases hs
      refine ⟨?_, ?_⟩
      · constructor <;> cases e <;> exact fun he => by cases he
      · obtain ⟨hlen, -, -⟩ := h.tasks
        constructor <;> cases e <;> grind -ring -linarith [NetEvent.entry]
    · cases hs
  | eventStep => exact h.stepEvent hs
  | fallback => exact h.stepFallback hs
  | teardown i => exact h.stepTeardown hs
  | env ssid ext dns reset clients =>
    cases hs
    exact ⟨h.knows.congr rfl rfl, h.tasks⟩

/-! ## Which steps expose the AP -/

theorem safeStep_of_ne {l : ApLabel} (he : l = .eventStep → s.event ≠ .notePending)
    (hf : l = .fallback → s.fallback ≠ .softap .mark)
    (ht : ∀ i, l = .teardown i → s.teardown[i]? ≠ some .eth) : SafeStep s l := by
  cases l with
  | event e => trivial
  | eventStep => exact fun h => absurd h (he rfl)
  | fallback => exact fun h => absurd h (hf rfl)
  | teardown i => exact fun h => absurd h (ht i rfl)
  | env => trivial

/-- A step that raises neither the AP nor an uplink and keeps the cover exposes nothing. -/
theorem not_exposed_of_le (hs : ¬ s.Exposed)
    (hap : t.flags.apActive = true → s.flags.apActive = true)
    (hup : t.flags.uplinkUp = true → s.flags.uplinkUp = true) (hcov : s.Covered → t.Covered) :
    ¬ t.Exposed := fun ht => hs ⟨hap ht.1, hup ht.2.1, fun h => ht.2.2 (hcov h)⟩

/-- A handler that does not go on to note an uplink has not raised one, nor the AP while one
is up. -/
theorem eventStep_raises (hk : Knows f e) (hs : eventStep f e = some (f', e'))
    (hpend : e ≠ .notePending) (hcreate : e ≠ .noteCreate) (hap : f'.apActive = true)
    (hup : f'.uplinkUp = true) (hnotes : e'.notes = false) :
    f.apActive = true ∧ f.uplinkUp = true ∧ e.notes = false := by
  obtain ⟨hr, hsta, heth⟩ := hk
  cases e with
  | softap pc =>
    cases pc <;>
      grind -ring -linarith [eventStep, EventPc.notes, EventPc.staOff, EventPc.ethOff,
        Flags.uplinkUp, Flags.softapStep, pastEth]
  | _ =>
    grind -ring -linarith [eventStep, EventPc.notes, EventPc.staOff, EventPc.ethOff,
      Flags.uplinkUp]

theorem exposed_eventStep (hinv : ApInv s) (hexp : ¬ s.Exposed) (hs : s.stepEvent = some t) :
    t.Exposed ↔ ¬ SafeStep s .eventStep := by
  obtain ⟨⟨f, e⟩, hr, rfl⟩ := Option.map_eq_some_iff.1 hs
  by_cases hpend : s.event = .notePending
  · -- the request is left to the pending teardown
    have hup := hinv.knows.raised (by rw [hpend]; rfl)
    rw [hpend] at hr
    cases hr
    cases hp : s.flags.apTeardownPending with
    | false => simp [SafeStep, hp, ApState.Exposed, ApState.Covered, EventPc.notes]
    | true =>
      simp [SafeStep, hpend, hp, hup, ApState.Exposed, ApState.Covered, EventPc.notes]
  · refine iff_of_false ?_ (not_not_intro (safeStep_of_ne (fun _ => hpend)
      (fun h => by cases h) (fun i h => by cases h)))
    rintro ⟨hap, hup, hcov⟩
    by_cases hcreate : s.event = .noteCreate
    · -- the new task covers the AP
      exact hcov (Or.inr ⟨.grace, by simp [hcreate], rfl⟩)
    · have hnotes : e.notes = false := by
        simpa using fun h : e.notes = true => hcov (Or.inl h)
      obtain ⟨hap', hup', hnotes'⟩ :=
        eventStep_raises hinv.knows hr hpend hcreate hap hup hnotes
      refine hexp ⟨hap', hup', fun hc => hcov ?_⟩
      rcases hc with hc | hc
      · rw [hnotes'] at hc
        cases hc
      · exact Or.inr (by simpa only [hcreate, if_false] using hc)

theorem exposed_fallback (hexp : ¬ s.Exposed) (hs : s.stepFallback = some t) :
    t.Exposed ↔ ¬ SafeStep s .fallback := by
  obtain ⟨⟨f, p⟩, hr, rfl⟩ := Option.map_eq_some_iff.1 hs
  by_cases hmark : s.fallback = .softap .mark
  · rw [hmark] at hr
    cases hr
    simp [SafeStep, hmark, ApState.Exposed, ApState.Covered, Flags.softapStep, Flags.uplinkUp]
  · refine iff_of_false ?_ (not_not_intro (safeStep_of_ne (fun h => by cases h)
      (fun _ => hmark) (fun i h => by cases h)))
    obtain ⟨hc, heth, -⟩ := fallbackStep_frame hr
    have hap : f.apActive = s.flags.apActive := by
      cases hp : s.fallback with
      | softap pc =>
        rw [hp] at hr hmark
        cases hr
        rw [Flags.softapStep_apActive, if_neg fun h => hmark (by rw [h])]
      | gone => rw [hp] at hr; cases hr
      | _ => rw [hp] at hr; cases hr; rfl
    exact not_exposed_of_le hexp (fun h => hap.symm.trans h)
      (fun h => by simpa only [Flags.uplinkUp, hc, heth] using h) id

/-- A step of a teardown task before its drop of the AP leads to another one, unless the AP
is down or ethernet was found down. -/
theorem teardownStep_covers {p : TeardownPc} (hp : p.beforeDrop = true)
    (hap : (teardownStep f p).1.apActive = true) (heth : p = .eth → f.ethUp = true) :
    ∃ q, (teardownStep f p).2 = some q ∧ q.beforeDrop = true := by
  cases p <;> grind -ring -linarith [teardownStep, TeardownPc.beforeDrop]

theorem teardownStep_apActive {p : TeardownPc} (h : (teardownStep f p).1.apActive = true) :
    f.apActive = true := by
  cases p with
  | unmark => cases h
  | _ => exact h

theorem exposed_teardown {i : Nat} (hinv : ApInv s) (hexp : ¬ s.Exposed)
    (hs : s.stepTeardown i = some t) : t.Exposed ↔ ¬ SafeStep s (.teardown i) := by
  obtain ⟨p, hp, rfl⟩ := Option.map_eq_some_iff.1 hs
  obtain ⟨rfl, hts⟩ := hinv.tasks.eq_of_getElem? hp
  by_cases heth : p = .eth → s.flags.ethUp = true
  · refine iff_of_false ?_ (not_not_intro fun hpe _ _ hdown => ?_)
    · -- the AP was open before, so the task covered it, and still does
      rintro ⟨hap, hup, hcov⟩
      obtain ⟨hc, hu⟩ := teardownStep_frame s.flags p
      simp only [Flags.uplinkUp, hc, hu] at hup
      refine hexp ⟨teardownStep_apActive hap, hup, ?_⟩
      rintro (hnotes | ⟨q, hq, hbefore⟩)
      · exact hcov (Or.inl hnotes)
      · obtain rfl : q = p := by simpa [hts] using hq
        obtain ⟨q', hq', hbefore'⟩ := teardownStep_covers hbefore hap heth
        exact hcov (Or.inr ⟨q', by simp [hq', hts], hbefore'⟩)
    · obtain rfl : p = .eth := Option.some.inj (hp.symm.trans hpe)
      rw [heth rfl] at hdown
      cases hdown
  · obtain ⟨rfl, hdown⟩ := Classical.not_imp.1 heth
    have hdown : s.flags.ethUp = false := by simpa using hdown
    simp [SafeStep, hts, hdown, teardownStep, ApState.Exposed, ApState.Covered,
      Flags.uplinkUp, TeardownPc.beforeDrop]

/-- A step exposes the AP if and only if it is not a safe one. -/
theorem exposed_iff {l : ApLabel} (hinv : ApInv s) (hexp : ¬ s.Exposed)
    (hs : captiveAp.step s l = some t) : t.Exposed ↔ ¬ SafeStep s l := by
  cases l with
  | event e =>
    simp only [captiveAp] at hs
    split at hs
    · next hidle =>
      cases hs
      refine iff_of_false (not_exposed_of_le hexp id id ?_) (not_not_intro trivial)
      exact fun hc => Or.inr (hc.resolve_left (by simp [hidle, EventPc.notes]))
    · cases hs
  | eventStep => exact exposed_eventStep hinv hexp hs
  | fallback => exact exposed_fallback hexp hs
  | teardown i => exact exposed_teardown hinv hexp hs
  | env ssid ext dns reset clients =>
    cases hs
    exact iff_of_false (not_exposed_of_le hexp id id id) (not_not_intro trivial)

/-- In a state in which no task is in the middle of its steps, an AP that is open while an
uplink is up is covered by a task in its grace period. -/
theorem ApInv.quiet_covered (hinv : ApInv s) (hq : s.Quiet) (hc : s.Covered) :
    s.flags.apTeardownPending = true ∧ .grace ∈ s.teardown := by
  obtain ⟨hidle, -, hgrace⟩ := hq
  rcases hc with hnotes | ⟨p, hp, -⟩
  · rw [hidle] at hnotes
    cases hnotes
  · exact ⟨(hinv.tasks.pending_of_mem hp).1, hgrace p hp ▸ hp⟩

end Steps

/-! ## The teardown of an open AP -/

/-- An AP that is open while an uplink is up, with every task at rest, has its teardown
scheduled, in every run of safe steps. -/
theorem captive_ap_retired (creds : Bool) {s : ApState}
    (hrun : captiveAp.Reaches SafeStep (.start creds) s) (hq : s.Quiet)
    (hup : s.flags.uplinkUp = true) (hap : s.flags.apActive = true) :
    s.flags.apTeardownPending = true ∧ .grace ∈ s.teardown := by
  have hI : ApInv s ∧ ¬ s.Exposed := by
    refine Machine.Reaches.invariant (I := fun s => ApInv s ∧ ¬ s.Exposed) hrun
      ⟨apInv_start creds, fun h => by cases h.1⟩ ?_
    intro s l t hs hok hstep
    exact ⟨hs.1.step hstep, fun ht => (exposed_iff hs.1 hs.2 hstep).1 ht hok⟩
  exact hI.1.quiet_covered hq (by_contra fun hc => hI.2 ⟨hap, hup, hc⟩)

/-- With an STA that gets its IP while the AP is up, and loses and regains it in the grace
period. -/
theorem captive_ap_retired_flap :
    ∃ s, captiveAp.Reaches SafeStep (.start false) s ∧ s.Quiet ∧ s.flags.uplinkUp = true ∧
      s.flags.apActive = true ∧ s.flags.apTeardownPending = true ∧ .grace ∈ s.teardown := by
  obtain ⟨s, hrun, hq, hup, hap⟩ := captiveAp.exists_reaches_of_runIf SafeStep
    (fun s => s.Quiet ∧ s.flags.uplinkUp = true ∧ s.flags.apActive = true) (.start false)
    [List.replicate 13 .fallback,
      .event .staGotIp :: List.replicate 6 .eventStep,
      .event .staDisconnected :: List.replicate 5 .eventStep,
      .event .staGotIp :: List.replicate 4 .eventStep].flatten (by decide +kernel)
  exact ⟨s, hrun, hq, hup, hap, captive_ap_retired false hrun hq hup hap⟩

/-- Without the conditions it fails: the STA gets its IP after the fallback task has looked
at the uplinks and before it marks the AP active. -/
theorem captive_ap_retired_fails :
    ∃ s, captiveAp.Reaches (fun _ _ => True) (.start false) s ∧ s.Quiet ∧
      s.flags.uplinkUp = true ∧ s.flags.apActive = true ∧
      ¬ (s.flags.apTeardownPending = true ∧ .grace ∈ s.teardown) :=
  captiveAp.exists_reaches_of_runIf _
    (fun s => s.Quiet ∧ s.flags.uplinkUp = true ∧ s.flags.apActive = true ∧
      ¬ (s.flags.apTeardownPending = true ∧ TeardownPc.grace ∈ s.teardown)) _
    [List.replicate 6 .fallback, .event .staGotIp :: List.replicate 3 .eventStep,
      List.replicate 7 .fallback].flatten (by decide +kernel)

end Cdc2Net.Net
