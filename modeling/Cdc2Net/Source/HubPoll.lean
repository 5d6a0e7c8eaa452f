import Cdc2Net.Lib.Transition
import Mathlib.Data.List.Basic

/-!
# The status poll of an external hub

The poll in `usbh_hub.c` goes round by itself: the one-shot timer of the hub submits the interrupt
URB (`hub_int_timeout`), its completion wakes the hub thread through the message queue, or starts
the timer again (`hub_int_complete_callback`), and the hub thread starts the timer when it has
handled the changes (`usbh_hub_events`). A change on a port is collected only while the poll goes
round. `usbh_hub_connect` starts it, and wakes the thread as well when ports are occupied already.

A step is a statement of the timer task, of the interrupt or of the hub thread on shared data. The
port interrupt fills the same queue for the root hub.

`poll_alive`: the poll goes on as long as no step is fatal, and then it can still bring the hub
thread to the changes. `poll_lost`: a fatal step ends it until the hub is detached.
-/

set_option autoImplicit false

namespace Cdc2Net.Source.HubPoll

open Cdc2Net.Lib.Transition

/-- What a message of `hub_mq` points to. -/
inductive Msg where
  | hub
  | root
  deriving DecidableEq, Repr

/-- Where the hub thread stands. -/
inductive Thread where
  /-- In `usb_osal_mq_recv`. -/
  | idle
  /-- In `usbh_hub_events` of the root hub. -/
  | root
  /-- In `usbh_hub_events` of the hub, behind the test of `connected`. -/
  | events
  /-- In `usb_osal_mq_send`, waiting for room in the queue that it is to empty itself. -/
  | stuck
  deriving DecidableEq, Repr

/-- The hub, its timer and URB, and the thread that serves it. -/
structure Hub where
  connected : Bool
  /-- `int_timer` runs. -/
  timer : Bool
  /-- `hub_int_timeout` is before `usbh_submit_urb`. -/
  firing : Bool
  /-- `intin_urb` is submitted. -/
  flight : Bool
  queue : List Msg
  thread : Thread
  pollErrCount : Nat
  deriving DecidableEq, Repr

/-- `usb_osal_mq_create(7)` -/
def queueLen : Nat := 7

def Hub.init : Hub := ⟨false, false, false, false, [], .idle, 0⟩

inductive HubLabel where
  /-- The hub thread receives a message. -/
  | take
  /-- `usbh_hub_thread_wakeup` for the root hub in the port interrupt. -/
  | rootIrq
  | rootDone
  /-- The end of `usbh_hub_connect`, with the test of `initial_mask`. -/
  | attach (occupied : Bool)
  /-- The end of `usbh_hub_events`. -/
  | eventsDone
  | expire
  /-- `usbh_submit_urb` in `hub_int_timeout`, which does not look at what it returns. -/
  | submit (ok : Bool)
  /-- `hub_int_complete_callback` with data, -/
  | data
  /-- with `-USB_ERR_NAK`, -/
  | nak
  /-- with anything else. -/
  | error
  | detach
  deriving DecidableEq, Repr

namespace Hub

/-- `usbh_hub_thread_wakeup` in an interrupt: a message that finds no room is dropped. -/
def wakeup (s : Hub) (m : Msg) : Hub :=
  if s.queue.length < queueLen then { s with queue := s.queue ++ [m] } else s

/-- A hub that `usbh_hub_connect` has set up, its timer started. -/
def setUp (s : Hub) : Hub :=
  ⟨true, true, s.firing, false, s.queue, s.thread, 0⟩

def take (s : Hub) : Option Hub :=
  match s.thread, s.queue with
  | .idle, .root :: q => some { s with queue := q, thread := .root }
  | .idle, .hub :: q =>
    some (if s.connected then { s with queue := q, thread := .events } else { s with queue := q })
  | _, _ => none

def step (s : Hub) : HubLabel → Option Hub
  | .take => s.take
  | .rootIrq => some (s.wakeup .root)
  | .rootDone => if s.thread = .root then some { s with thread := .idle } else none
  | .attach occupied =>
    if s.thread = .root ∧ s.connected = false then
      -- the thread itself sends, and waits for room
      if occupied then
        if s.queue.length < queueLen then some { s.setUp with queue := s.queue ++ [.hub] }
        else some { s.setUp with thread := .stuck }
      else some s.setUp
    else none
  | .eventsDone =>
    if s.thread = .events then some { s with thread := .idle, timer := s.timer || s.connected }
    else none
  | .expire =>
    if s.timer = true ∧ s.firing = false then some { s with timer := false, firing := true }
    else none
  | .submit ok =>
    if s.firing = true ∧ (ok = true → s.flight = false ∧ s.connected = true) then
      some { s with firing := false, flight := s.flight || ok }
    else none
  | .data =>
    if s.flight = true then
      let landed : Hub := { s with flight := false }
      some (landed.wakeup .hub)
    else none
  | .nak => if s.flight = true then some { s with flight := false, timer := true } else none
  | .error =>
    if s.flight = true then
      some { s with
        flight := false, timer := s.timer || s.connected, pollErrCount := s.pollErrCount + 1 }
    else none
  | .detach =>
    if s.thread = .root ∧ s.connected = true then
      some ⟨false, false, s.firing, false, s.queue, s.thread, 0⟩
    else none

end Hub

def hubMachine : Machine Hub HubLabel := ⟨Hub.step⟩

/-- Something is under way that brings the hub thread to the changes of the hub. -/
def Hub.Token (s : Hub) : Prop :=
  s.timer = true ∨ s.firing = true ∨ s.flight = true ∨ Msg.hub ∈ s.queue ∨ s.thread = .events

/-- The poll goes round. -/
def Hub.Polling (s : Hub) : Prop := s.thread ≠ .stuck ∧ s.Token

/-- The steps that take the last token away, or the thread. -/
def Hub.Fatal (s : Hub) : HubLabel → Prop
  | .submit ok =>
    ok = false ∧ s.timer = false ∧ s.flight = false ∧ Msg.hub ∉ s.queue ∧ s.thread ≠ .events
  | .data =>
    queueLen ≤ s.queue.length ∧ s.timer = false ∧ s.firing = false ∧ Msg.hub ∉ s.queue ∧
      s.thread ≠ .events
  | .attach occupied => occupied = true ∧ queueLen ≤ s.queue.length
  | _ => False

instance : (s : Hub) → (l : HubLabel) → Decidable (s.Fatal l)
  | s, .submit ok => inferInstanceAs (Decidable (ok = false ∧ s.timer = false ∧ s.flight = false ∧
      Msg.hub ∉ s.queue ∧ s.thread ≠ .events))
  | s, .data => inferInstanceAs (Decidable (queueLen ≤ s.queue.length ∧ s.timer = false ∧
      s.firing = false ∧ Msg.hub ∉ s.queue ∧ s.thread ≠ .events))
  | s, .attach occupied =>
    inferInstanceAs (Decidable (occupied = true ∧ queueLen ≤ s.queue.length))
  | _, .take | _, .rootIrq | _, .rootDone | _, .eventsDone | _, .expire | _, .nak | _, .error
  | _, .detach => inferInstanceAs (Decidable False)

/-! ## One step -/

/-- All that a step can do. -/
inductive HubStep (s : Hub) : HubLabel → Hub → Prop where
  | takeRoot {q : List Msg} (hth : s.thread = .idle) (hq : s.queue = .root :: q) :
      HubStep s .take { s with queue := q, thread := .root }
  | takeHub {q : List Msg} (hth : s.thread = .idle) (hq : s.queue = .hub :: q)
      (hc : s.connected = true) : HubStep s .take { s with queue := q, thread := .events }
  | takeStale {q : List Msg} (hth : s.thread = .idle) (hq : s.queue = .hub :: q)
      (hc : s.connected = false) : HubStep s .take { s with queue := q }
  | rootIrq (hroom : s.queue.length < queueLen) :
      HubStep s .rootIrq { s with queue := s.queue ++ [.root] }
  | rootIrqLost (hfull : queueLen ≤ s.queue.length) : HubStep s .rootIrq s
  | rootDone (hth : s.thread = .root) : HubStep s .rootDone { s with thread := .idle }
  | attachQuiet (hth : s.thread = .root) (hc : s.connected = false) :
      HubStep s (.attach false) s.setUp
  | attachOccupied (hth : s.thread = .root) (hc : s.connected = false)
      (hroom : s.queue.length < queueLen) :
      HubStep s (.attach true) { s.setUp with queue := s.queue ++ [.hub] }
  | attachStuck (hth : s.thread = .root) (hc : s.connected = false)
      (hfull : queueLen ≤ s.queue.length) :
      HubStep s (.attach true) { s.setUp with thread := .stuck }
  | eventsDone (hth : s.thread = .events) :
      HubStep s .eventsDone { s with thread := .idle, timer := s.timer || s.connected }
  | expire (ht : s.timer = true) (hf : s.firing = false) :
      HubStep s .expire { s with timer := false, firing := true }
  | submitOk (hf : s.firing = true) (hfl : s.flight = false) (hc : s.connected = true) :
      HubStep s (.submit true) { s with firing := false, flight := true }
  | submitFails (hf : s.firing = true) : HubStep s (.submit false) { s with firing := false }
  | data (hfl : s.flight = true) (hroom : s.queue.length < queueLen) :
      HubStep s .data { s with flight := false, queue := s.queue ++ [.hub] }
  | dataLost (hfl : s.flight = true) (hfull : queueLen ≤ s.queue.length) :
      HubStep s .data { s with flight := false }
  | nak (hfl : s.flight = true) : HubStep s .nak { s with flight := false, timer := true }
  | error (hfl : s.flight = true) :
      HubStep s .error { s with
        flight := false, timer := s.timer || s.connected, pollErrCount := s.pollErrCount + 1 }
  | detach (hth : s.thread = .root) (hc : s.connected = true) :
      HubStep s .detach ⟨false, false, s.firing, false, s.queue, s.thread, 0⟩

section Step

variable {s t : Hub} {l : HubLabel}

/-- What receiving a message does. -/
theorem take_cases (h : s.take = some t) : HubStep s .take t := by
  unfold Hub.take at h
  cases hth : s.thread with
  | idle =>
    rw [hth] at h
    cases hq : s.queue with
    | nil =>
      rw [hq] at h
      cases h
    | cons m q =>
      rw [hq] at h
      cases m with
      | root =>
        obtain rfl := Option.some.inj h
        exact .takeRoot hth hq
      | hub =>
        obtain rfl := Option.some.inj h
        by_cases hc : s.connected = true
        · rw [if_pos hc]
          exact .takeHub hth hq hc
        · rw [if_neg hc, ← hth]
          exact .takeStale hth hq (Bool.eq_false_iff.mpr hc)
  | root | events | stuck =>
    rw [hth] at h
    cases h

theorem wakeup_room {m : Msg} (h : s.queue.length < queueLen) :
    s.wakeup m = { s with queue := s.queue ++ [m] } := if_pos h

theorem wakeup_full {m : Msg} (h : queueLen ≤ s.queue.length) : s.wakeup m = s :=
  if_neg (Nat.not_lt.mpr h)

theorem step_cases (h : s.step l = some t) : HubStep s l t := by
  cases l with
  | take => exact take_cases h
  | rootIrq =>
    obtain rfl := Option.some.inj h
    by_cases hr : s.queue.length < queueLen
    · rw [wakeup_room hr]
      exact .rootIrq hr
    · rw [wakeup_full (Nat.not_lt.mp hr)]
      exact .rootIrqLost (Nat.not_lt.mp hr)
  | rootDone =>
    obtain ⟨hth, h⟩ := Option.ite_none_right_eq_some.mp h
    obtain rfl := Option.some.inj h
    exact .rootDone hth
  | attach occupied =>
    obtain ⟨⟨hth, hc⟩, h⟩ := Option.ite_none_right_eq_some.mp h
    cases occupied with
    | false =>
      obtain rfl := Option.some.inj h
      exact .attachQuiet hth hc
    | true =>
      by_cases hr : s.queue.length < queueLen
      · rw [if_pos rfl, if_pos hr] at h
        obtain rfl := Option.some.inj h
        exact .attachOccupied hth hc hr
      · rw [if_pos rfl, if_neg hr] at h
        obtain rfl := Option.some.inj h
        exact .attachStuck hth hc (Nat.not_lt.mp hr)
  | eventsDone =>
    obtain ⟨hth, h⟩ := Option.ite_none_right_eq_some.mp h
    obtain rfl := Option.some.inj h
    exact .eventsDone hth
  | expire =>
    obtain ⟨⟨ht, hf⟩, h⟩ := Option.ite_none_right_eq_some.mp h
    obtain rfl := Option.some.inj h
    exact .expire ht hf
  | submit ok =>
    obtain ⟨⟨hf, hok⟩, h⟩ := Option.ite_none_right_eq_some.mp h
    obtain rfl := Option.some.inj h
    cases ok with
    | false =>
      rw [Bool.or_false]
      exact .submitFails hf
    | true =>
      rw [Bool.or_true]
      exact .submitOk hf (hok rfl).1 (hok rfl).2
  | data =>
    obtain ⟨hfl, h⟩ := Option.ite_none_right_eq_some.mp h
    obtain rfl := Option.some.inj h
    by_cases hr : s.queue.length < queueLen
    · have hw := wakeup_room (s := { s with flight := false }) (m := .hub) hr
      exact Eq.mpr (congrArg _ hw) (.data hfl hr)
    · have hw := wakeup_full (s := { s with flight := false }) (m := .hub) (Nat.not_lt.mp hr)
      exact Eq.mpr (congrArg _ hw) (.dataLost hfl (Nat.not_lt.mp hr))
  | nak =>
    obtain ⟨hfl, h⟩ := Option.ite_none_right_eq_some.mp h
    obtain rfl := Option.some.inj h
    exact .nak hfl
  | error =>
    obtain ⟨hfl, h⟩ := Option.ite_none_right_eq_some.mp h
    obtain rfl := Option.some.inj h
    exact .error hfl
  | detach =>
    obtain ⟨⟨hth, hc⟩, h⟩ := Option.ite_none_right_eq_some.mp h
    obtain rfl := Option.some.inj h
    exact .detach hth hc

/-- A step of a connected hub other than `detach` leaves it connected. -/
theorem connected_step (hc : s.connected = true) (hl : l ≠ .detach) (h : HubStep s l t) :
    t.connected = true := by
  cases h with
  | detach => exact absurd rfl hl
  | attachQuiet | attachOccupied | attachStuck => rfl
  | takeStale _ _ hc' => exact absurd (hc.symm.trans hc') (by decide)
  | _ => exact hc

/-- The poll goes on over a step exactly when the step is not fatal. -/
theorem polling_step (hp : s.connected = true → s.Polling) (h : HubStep s l t)
    (ht : t.connected = true) : t.Polling ↔ ¬ s.Fatal l := by
  unfold Hub.Polling Hub.Token at hp ⊢
  unfold Hub.Fatal
  cases h with
  | attachQuiet hth => simp [Hub.setUp, hth]
  | attachOccupied hth _ hroom => simp [Hub.setUp, hth, hroom]
  | attachStuck _ _ hfull => simp [hfull]
  | detach => cases ht
  | takeRoot hth hq =>
    obtain ⟨-, hp⟩ := hp ht
    rw [hq, hth] at hp
    simpa using hp
  | takeHub hth hq => simp
  -- the hub is gone before its message is received
  | takeStale hth hq hc => exact absurd (hc.symm.trans ht) (by decide)
  | rootIrq hroom =>
    have hp := hp ht
    simpa using hp
  | rootIrqLost =>
    have hp := hp ht
    simpa using hp
  | rootDone hth =>
    obtain ⟨-, hp⟩ := hp ht
    rw [hth] at hp
    simpa using hp
  | eventsDone hth =>
    -- the thread hands the token to the timer
    have hc : s.connected = true := ht
    simp [hc]
  | expire htimer hf =>
    obtain ⟨hs, -⟩ := hp ht
    simp [hs]
  | submitOk =>
    obtain ⟨hs, -⟩ := hp ht
    simp [hs]
  | submitFails hf =>
    obtain ⟨hs, -⟩ := hp ht
    grind
  | data hfl hroom =>
    obtain ⟨hs, -⟩ := hp ht
    simp [hs, Nat.not_le.mpr hroom]
  | dataLost hfl hfull =>
    obtain ⟨hs, -⟩ := hp ht
    grind
  | nak =>
    obtain ⟨hs, -⟩ := hp ht
    simp [hs]
  | error =>
    obtain ⟨hs, -⟩ := hp ht
    have hc : s.connected = true := ht
    simp [hs, hc]

end Step

/-! ## Runs -/

/-- A step that is not fatal and neither attaches nor detaches a hub, nor adds to the queue from
the port interrupt. -/
def Hub.Ordinary (s : Hub) (l : HubLabel) : Prop :=
  ¬ s.Fatal l ∧ l ≠ .rootIrq ∧ l ≠ .detach ∧ ∀ occupied, l ≠ .attach occupied

section Runs

variable {s t : Hub} {l : HubLabel}

theorem polling_reaches (h : hubMachine.Reaches (fun s l => ¬ s.Fatal l) Hub.init t) :
    t.connected = true → t.Polling := by
  refine Machine.Reaches.invariant (I := fun s => s.connected = true → s.Polling) h
    (fun hc => absurd hc (by decide)) ?_
  intro s l t hs hl hst hc
  exact (polling_step hs (step_cases hst) hc).mpr hl

/-- A step of a run, from what the step function gives. -/
theorem ordinary_step (h : s.step l = some t) (hl : s.Ordinary l) :
    hubMachine.StepIf Hub.Ordinary s t := ⟨l, hl, h⟩

/-- Receiving a message, ending an event and the timer's expiry are ordinary. -/
theorem ordinary_plain (hl : l = .take ∨ l = .rootDone ∨ l = .expire) : s.Ordinary l := by
  rcases hl with rfl | rfl | rfl
  all_goals exact ⟨id, by decide, by decide, fun _ => by simp⟩

/-- The hub thread works off its queue until it comes to a message of the hub, or to the end. -/
theorem exists_drained (hth : s.thread = .idle) (hc : s.connected = true) :
    ∃ t, hubMachine.Reaches Hub.Ordinary s t ∧
      (t.thread = .events ∨ (Msg.hub ∉ s.queue ∧ t = { s with queue := [] })) := by
  obtain ⟨c, ti, fi, fl, q, th, n⟩ := s
  obtain rfl : th = .idle := hth
  obtain rfl : c = true := hc
  -- on the messages in front of the hub's, each one for the root hub
  induction q with
  | nil => exact ⟨_, Relation.ReflTransGen.refl, .inr ⟨List.not_mem_nil, rfl⟩⟩
  | cons m q ih =>
    cases m with
    | root =>
      have h1 : Hub.step ⟨true, ti, fi, fl, .root :: q, .idle, n⟩ .take =
          some ⟨true, ti, fi, fl, q, .root, n⟩ := rfl
      have h2 : Hub.step ⟨true, ti, fi, fl, q, .root, n⟩ .rootDone =
          some ⟨true, ti, fi, fl, q, .idle, n⟩ := rfl
      obtain ⟨t, ht, hend⟩ := ih
      have hend' : t.thread = .events ∨ (Msg.hub ∉ Msg.root :: q ∧
          t = ⟨true, ti, fi, fl, [], .idle, n⟩) := by
        rcases hend with h | ⟨hm, h⟩
        · exact .inl h
        · exact .inr ⟨by simpa using hm, h⟩
      refine ⟨t, ?_, hend'⟩
      refine Relation.ReflTransGen.head (ordinary_step h1 (ordinary_plain (.inl rfl))) ?_
      exact Relation.ReflTransGen.head
        (ordinary_step h2 (ordinary_plain (.inr (.inl rfl)))) ht
    | hub =>
      have h1 : Hub.step ⟨true, ti, fi, fl, .hub :: q, .idle, n⟩ .take =
          some ⟨true, ti, fi, fl, q, .events, n⟩ := rfl
      exact ⟨_, Relation.ReflTransGen.single (ordinary_step h1 (ordinary_plain (.inl rfl))),
        .inl rfl⟩

/-- With an empty queue, a completion with data brings the thread to the hub. -/
theorem exists_events_of_flight (ti fi : Bool) (n : Nat) :
    ∃ t, hubMachine.Reaches Hub.Ordinary ⟨true, ti, fi, true, [], .idle, n⟩ t ∧
      t.thread = .events := by
  have h1 : Hub.step ⟨true, ti, fi, true, [], .idle, n⟩ .data =
      some ⟨true, ti, fi, false, [.hub], .idle, n⟩ := rfl
  have h2 : Hub.step ⟨true, ti, fi, false, [.hub], .idle, n⟩ .take =
      some ⟨true, ti, fi, false, [], .events, n⟩ := rfl
  have hd : Hub.Ordinary ⟨true, ti, fi, true, [], .idle, n⟩ .data :=
    ⟨fun hf => absurd hf.1 (by decide : ¬ queueLen ≤ 0), by decide, by decide, fun _ => by simp⟩
  have hrun := Relation.ReflTransGen.single (ordinary_step h2 (ordinary_plain (.inl rfl)))
  exact ⟨_, Relation.ReflTransGen.head (ordinary_step h1 hd) hrun, rfl⟩

theorem exists_events_of_firing (ti fl : Bool) (n : Nat) :
    ∃ t, hubMachine.Reaches Hub.Ordinary ⟨true, ti, true, fl, [], .idle, n⟩ t ∧
      t.thread = .events := by
  cases fl with
  | true => exact exists_events_of_flight ti true n
  | false =>
    have h1 : Hub.step ⟨true, ti, true, false, [], .idle, n⟩ (.submit true) =
        some ⟨true, ti, false, true, [], .idle, n⟩ := by simp [Hub.step]
    have hs : Hub.Ordinary ⟨true, ti, true, false, [], .idle, n⟩ (.submit true) :=
      ⟨fun hf => absurd hf.1 (by decide), by decide, by decide, fun _ => by simp⟩
    obtain ⟨t, ht, hth⟩ := exists_events_of_flight ti false n
    exact ⟨t, Relation.ReflTransGen.head (ordinary_step h1 hs) ht, hth⟩

/-- While the poll goes round, the hub thread can still come to the changes of the hub. -/
theorem exists_events (hc : s.connected = true) (hp : s.Polling) :
    ∃ t, hubMachine.Reaches Hub.Ordinary s t ∧ t.thread = .events := by
  obtain ⟨hns, htok⟩ := hp
  by_cases hev : s.thread = .events
  · exact ⟨s, Relation.ReflTransGen.refl, hev⟩
  -- the thread ends what it does for the root hub, and works off the queue
  obtain ⟨s', hs', hth, hsame⟩ : ∃ s', hubMachine.Reaches Hub.Ordinary s s' ∧
      s'.thread = .idle ∧ s' = { s with thread := .idle } := by
    cases hth : s.thread with
    | idle => exact ⟨s, Relation.ReflTransGen.refl, hth, by rw [← hth]⟩
    | root =>
      have h1 : s.step .rootDone = some { s with thread := .idle } := if_pos hth
      exact ⟨_, Relation.ReflTransGen.single
        (ordinary_step h1 (ordinary_plain (.inr (.inl rfl)))), rfl, rfl⟩
    | events => exact absurd hth hev
    | stuck => exact absurd hth hns
  have hc' : s'.connected = true := hsame ▸ hc
  obtain ⟨t, ht, hend⟩ := exists_drained hth hc'
  rcases hend with hth' | ⟨hm, rfl⟩
  · exact ⟨t, hs'.trans ht, hth'⟩
  -- no message of the hub was there: the URB, the handler or the timer is to bring one
  suffices hgo : ∃ u, hubMachine.Reaches Hub.Ordinary { s' with queue := [] } u ∧
      u.thread = .events by
    obtain ⟨u, hu, hev'⟩ := hgo
    exact ⟨u, (hs'.trans ht).trans hu, hev'⟩
  rw [hsame] at hm ⊢
  obtain ⟨c, ti, fi, fl, q, th, n⟩ := s
  obtain rfl : c = true := hc
  -- one case for each place of the token
  rcases htok with h | h | h | h | h
  · obtain rfl : ti = true := h
    cases fi with
    | true => exact exists_events_of_firing _ _ _
    | false =>
      have h1 : Hub.step ⟨true, true, false, fl, [], .idle, n⟩ .expire =
          some ⟨true, false, true, fl, [], .idle, n⟩ := rfl
      obtain ⟨u, hu, hev'⟩ := exists_events_of_firing false fl n
      exact ⟨u, Relation.ReflTransGen.head
        (ordinary_step h1 (ordinary_plain (.inr (.inr rfl)))) hu, hev'⟩
  · obtain rfl : fi = true := h
    exact exists_events_of_firing _ _ _
  · obtain rfl : fl = true := h
    exact exists_events_of_flight _ _ _
  · exact absurd h hm
  · exact absurd h hev

/-- In every run without a fatal step, the poll of a hub that is attached goes round, and the hub
thread can still come to its changes. -/
theorem poll_alive (h : hubMachine.Reaches (fun s l => ¬ s.Fatal l) Hub.init t)
    (hc : t.connected = true) :
    t.Polling ∧ ∃ u, hubMachine.Reaches Hub.Ordinary t u ∧ u.thread = .events :=
  have hp := polling_reaches h hc
  ⟨hp, exists_events hc hp⟩

/-- A hub that was attached with a device on it, and polled once. -/
def examplePoll : List HubLabel :=
  [.rootIrq, .take, .attach true, .rootDone, .take, .eventsDone, .expire, .submit true, .nak]

theorem poll_alive_examplePoll :
    ∃ t : Hub, t.connected = true ∧ t.Polling ∧
      ∃ u, hubMachine.Reaches Hub.Ordinary t u ∧ u.thread = .events := by
  have h : hubMachine.Reaches (fun s l => ¬ s.Fatal l) Hub.init
      ⟨true, true, false, false, [], .idle, 0⟩ :=
    Machine.reaches_of_runIf examplePoll (by decide)
  exact ⟨⟨true, true, false, false, [], .idle, 0⟩, rfl, poll_alive h rfl⟩

/-! ## After a fatal step -/

/-- No token, or no thread. -/
def Hub.Dead (s : Hub) : Prop := s.thread = .stuck ∨ ¬ s.Token

theorem dead_iff : s.Dead ↔ ¬ s.Polling := by
  unfold Hub.Dead Hub.Polling
  rw [not_and_or, not_not]

theorem stuck_step (hs : s.thread = .stuck) (h : HubStep s l t) : t.thread = .stuck := by
  cases h with
  | takeRoot hth | takeHub hth | takeStale hth | rootDone hth | attachQuiet hth
  | attachOccupied hth | eventsDone hth | detach hth =>
    rw [hs] at hth
    cases hth
  | attachStuck => rfl
  | _ => exact hs

/-- What has ended stays so: every step that could begin it again needs the token. -/
theorem dead_step (hd : s.Dead) (hc : s.connected = true) (hl : l ≠ .detach) (h : HubStep s l t) :
    t.Dead := by
  rcases hd with hs | hd
  · exact .inl (stuck_step hs h)
  right
  unfold Hub.Token at hd ⊢
  cases h with
  | detach => exact absurd rfl hl
  | attachQuiet _ hc' | attachOccupied _ hc' | attachStuck _ hc' =>
    rw [hc] at hc'
    cases hc'
  | takeRoot hth hq =>
    rw [hq, hth] at hd
    simpa using hd
  | takeHub hth hq | takeStale hth hq =>
    rw [hq] at hd
    simp at hd
  | rootIrq hroom => simpa using hd
  | rootIrqLost => exact hd
  | rootDone hth =>
    rw [hth] at hd
    simpa using hd
  | eventsDone hth => exact absurd (.inr (.inr (.inr (.inr hth)))) hd
  | expire ht => exact absurd (.inl ht) hd
  | submitOk hf | submitFails hf => exact absurd (.inr (.inl hf)) hd
  | data hfl | dataLost hfl | nak hfl | error hfl => exact absurd (.inr (.inr (.inl hfl))) hd

theorem fatal_dead (hf : s.Fatal l) (h : HubStep s l t) : t.Dead := by
  unfold Hub.Dead Hub.Token
  cases h with
  | attachStuck => exact .inl rfl
  | attachOccupied _ _ hroom => exact absurd hf.2 (Nat.not_le.mpr hroom)
  | attachQuiet => exact absurd hf.1 (by decide)
  | submitOk => exact absurd hf.1 (by decide)
  | submitFails =>
    -- the handler had the token, and the URB does not take it
    obtain ⟨-, h1, h2, h3, h4⟩ := hf
    simp [h1, h2, h3, h4]
  | data _ hroom => exact absurd hf.1 (Nat.not_le.mpr hroom)
  | dataLost =>
    -- the URB had the token, and the queue does not take it
    obtain ⟨-, h1, h2, h3, h4⟩ := hf
    simp [h1, h2, h3, h4]
  | _ => exact hf.elim

/-- After a fatal step, whatever runs, the hub thread does not come to the changes of the hub
again before the hub is detached; a thread that has sent into its full queue comes to nothing any
more. -/
theorem poll_lost {u : Hub} (hf : s.Fatal l) (hst : s.step l = some t) (hc : t.connected = true)
    (hu : hubMachine.Reaches (fun _ l => l ≠ .detach) t u) :
    (u.connected = true ∧ ¬ u.Polling ∧ u.thread ≠ .events) ∧
      ∀ w, t.thread = .stuck → hubMachine.Reaches (fun _ _ => True) t w → w.thread = .stuck := by
  have hd := fatal_dead hf (step_cases hst)
  have hinv : u.connected = true ∧ u.Dead := by
    refine Machine.Reaches.invariant (I := fun s => s.connected = true ∧ s.Dead) hu ⟨hc, hd⟩ ?_
    intro s l t hs hl hst
    have h := step_cases hst
    exact ⟨connected_step hs.1 hl h, dead_step hs.2 hs.1 hl h⟩
  refine ⟨⟨hinv.1, dead_iff.mp hinv.2, fun hev => ?_⟩, fun w hs hw => ?_⟩
  · rcases hinv.2 with hs | hn
    · rw [hs] at hev
      cases hev
    · exact hn (.inr (.inr (.inr (.inr hev))))
  · exact Machine.Reaches.invariant (I := fun s => s.thread = .stuck) hw hs
      fun s l t hs _ hst => stuck_step hs (step_cases hst)

/-- The submission of a URB fails, and the timer has run out; the thread goes on to serve the root
hub. -/
theorem poll_lost_submit : ∃ u,
    hubMachine.Reaches (fun _ l => l ≠ .detach) ⟨true, false, false, false, [], .idle, 0⟩ u ∧
      u.thread = .root ∧ u.connected = true ∧ ¬ u.Polling ∧ u.thread ≠ .events := by
  obtain ⟨u, hu, hroot⟩ := Machine.exists_reaches_of_runIf hubMachine (fun _ l => l ≠ .detach)
    (fun u => u.thread = .root) ⟨true, false, false, false, [], .idle, 0⟩
    [.rootIrq, .take, .rootDone, .rootIrq, .rootIrq, .take] (by decide)
  exact ⟨u, hu, hroot, (poll_lost (s := ⟨true, false, true, false, [], .idle, 0⟩)
    (l := .submit false) ⟨rfl, rfl, rfl, List.not_mem_nil, by decide⟩ rfl rfl hu).1⟩

end Runs

end Cdc2Net.Source.HubPoll
