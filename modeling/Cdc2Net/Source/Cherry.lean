import Cdc2Net.Lib.Transition
import Cdc2Net.Source.TxSection

/-!
# The CherryUSB source

`source_usb_cherry.c` between two threads. The hub thread of the stack enumerates and
releases ports: it calls `usbh_evt`, and for an instance it removes the hook
`usbh_serial_stop` before it frees it. `stick_task` waits for a claim, opens the instance by
the claimed name, publishes it in `S.ser`, serves it and closes it again. Other tasks run
`tx_mtx` sections on `S.ser`.

The threads share plain flags, each read or written in a step of its own. Where they stand
with each other is `Flow`, who may hold an instance is `Users`, and what the hub thread
keeps of the ports is `Ports`; every step keeps all three (`CherryInv.step`).
-/

set_option autoImplicit false

namespace Cdc2Net.Source.Cherry

open Cdc2Net.Lib.Transition Cdc2Net.Lib.Lifetime TxSection

/-! ## The two threads -/

/-- A port: `hub_index` and `hub_port`. -/
abbrev Port := Nat × Nat

/-- A `struct usbh_serial`, numbered as they are made, with the number in its `/dev/tty`
name and the port of its device. -/
structure Instance where
  id : Nat
  name : Nat
  port : Port
  deriving DecidableEq, Repr

/-- Where the hub thread stands in `usbh_serial_stop`. -/
inductive StopPc where
  /-- Before `!S.claimed`. -/
  | claimed
  /-- Before `serial == S.ser`. -/
  | handle
  /-- Before the comparison of the names. -/
  | name
  /-- Before `S.want_close = true`. -/
  | want
  /-- Before `S.ser = NULL` under the mutex, and with the mutex. -/
  | lock
  | unlock
  /-- Before the test of `S.rx_idle`. -/
  | poll
  deriving DecidableEq, Repr

/-- Where the hub thread stands. -/
inductive HubPc where
  | idle
  /-- In `usbh_enumerate`, between two interfaces; `own` if one of them was claimed. -/
  | enum (p : Port) (own : Bool)
  /-- `USBH_EVENT_INTERFACE_START`, before `S.claimed`. -/
  | started (x : Instance) (own : Bool)
  /-- Before the device's identity is recorded. -/
  | record (x : Instance)
  /-- Before `S.want_close = false`. -/
  | unwant (x : Instance)
  /-- Before `S.claimed = true`. -/
  | claim (x : Instance)
  /-- Before `xSemaphoreGive`. -/
  | give (x : Instance)
  /-- In `usbh_hubport_release`, between two interfaces. -/
  | release (p : Port)
  /-- In `usbh_serial_stop`. -/
  | stop (x : Instance) (pc : StopPc)
  /-- Before `usbh_serial_free`. -/
  | free (x : Instance)
  /-- `USBH_EVENT_DEVICE_DISCONNECTED`, and before `S.want_close = true`. -/
  | gone (p : Port)
  | goneWant (p : Port)
  deriving DecidableEq, Repr

/-- Where `stick_task` stands. -/
inductive StickPc where
  /-- On `connect_sem`. -/
  | wait
  /-- Before `S.rx_idle = false`. -/
  | busy
  /-- Before `usbh_serial_open`, and in it with the instance that has the name. -/
  | open
  | opening (r : Option Instance)
  /-- After an open that failed, before the test of `S.want_close`. -/
  | retry
  /-- Before `S.ser = ser`, and with the mutex. -/
  | publish (x : Instance)
  | published (x : Instance)
  /-- Before `apply_lc`, and in it. -/
  | apply (x : Instance)
  | applying (x : Instance)
  /-- Before `!S.want_close` of the RX loop. -/
  | test (x : Instance)
  /-- Before `usbh_serial_read`, and in it. -/
  | read (x : Instance)
  | reading (x : Instance)
  /-- After a read error, before the test of the port. -/
  | check (x : Instance)
  /-- Before `S.ser = NULL`, and with the mutex. -/
  | clear (x : Instance)
  | cleared (x : Instance)
  /-- Before `usbh_serial_close`, and in it. -/
  | close (x : Instance)
  | closing (x : Instance)
  /-- Before `S.rx_idle = true`. -/
  | setIdle
  /-- Before `S.claimed = false`. -/
  | unclaim
  deriving DecidableEq, Repr

/-- The instance that `stick_task` has in hand. -/
def StickPc.ref : StickPc → Option Instance
  | .opening r => r
  | .publish x | .published x | .apply x | .applying x | .test x | .read x | .reading x
  | .check x | .clear x | .cleared x | .close x | .closing x => some x
  | _ => none

/-- The instance that `stick_task` has published. -/
def StickPc.shared : StickPc → Option Instance
  | .published x | .apply x | .applying x | .test x | .read x | .reading x | .check x
  | .clear x => some x
  | _ => none

/-- The instance of the call that `stick_task` makes outside of sections. -/
def StickPc.callee : StickPc → Option Instance
  | .opening r => r
  | .reading x | .closing x => some x
  | _ => none

/-- `stick_task` has said that it may touch an instance. -/
def StickPc.active : StickPc → Bool
  | .wait | .busy | .unclaim => false
  | _ => true

/-- `stick_task` has the mutex outside of a section. -/
def StickPc.locks : StickPc → Bool
  | .published _ | .cleared _ => true
  | _ => false

/-- The hub thread is on its way to a claim. -/
def HubPc.claiming : HubPc → Bool
  | .record _ | .unwant _ | .claim _ => true
  | _ => false

/-- It has claimed and not given the semaphore. -/
def HubPc.giving : HubPc → Bool
  | .give _ => true
  | _ => false

/-- It has the mutex. -/
def HubPc.locks : HubPc → Bool
  | .stop _ .unlock => true
  | _ => false

/-- The instance it is about to free. -/
def HubPc.stopping : HubPc → Option Instance
  | .stop x _ | .free x => some x
  | _ => none

/-- The port it enumerates. -/
def HubPc.enumerating : HubPc → Option Port
  | .enum p _ => some p
  | .started x _ | .record x | .unwant x | .claim x | .give x => some x.port
  | _ => none

/-- The port it releases. -/
def HubPc.releasing : HubPc → Option Port
  | .release p => some p
  | .stop x _ | .free x => some x.port
  | _ => none

/-- The part of the static `S` that the threads share, and the stack. `pulled` are the ports
whose device is no longer plugged in; the hub thread comes to know of it later. -/
structure CherryState where
  tx : TxSide
  insts : List Instance
  next : Nat
  connected : Port → Bool
  pulled : Port → Bool
  devname : Option Nat
  hubPort : Port
  wantClose : Bool
  claimed : Bool
  rxIdle : Bool
  sem : Bool
  hub : HubPc
  stick : StickPc

/-- After `source_usb_init`. -/
def CherryState.start : CherryState where
  tx := .start
  insts := []
  next := 0
  connected _ := false
  pulled _ := false
  devname := none
  hubPort := (0, 0)
  wantClose := false
  claimed := false
  rxIdle := true
  sem := false
  hub := .idle
  stick := .wait

/-- The steps. -/
inductive CherryLabel where
  /-- The hub thread begins to enumerate the device at a port. -/
  | attach (p : Port)
  /-- The serial class makes an instance for an interface. -/
  | connect (name : Nat)
  /-- The enumeration is over. -/
  | enumerated
  /-- The hub thread begins to release a port. -/
  | release (p : Port)
  /-- The serial class removes an instance. -/
  | stop (x : Instance)
  /-- No instance is left. -/
  | disconnected
  /-- Any other step of the hub thread. -/
  | hub
  /-- A device is unplugged. -/
  | pull (p : Port)
  /-- A step of `stick_task`. -/
  | stick
  /-- `usbh_serial_open` returns. -/
  | opened (ok : Bool)
  /-- `apply_lc` has returned. -/
  | applied (ok : Bool)
  /-- `usbh_serial_read` returns, with an error or without. -/
  | readRet (err : Bool)
  /-- A task calls the vtable. -/
  | enter (t : Nat) (op : TxOp)
  /-- A step of a section. -/
  | step (a : Agent)
  deriving DecidableEq, Repr

/-- The steps of the stack outside of `usbh_evt` and `usbh_serial_stop`. -/
def CherryLabel.isStack : CherryLabel → Bool
  | .attach _ | .connect _ | .enumerated | .release _ | .stop _ | .disconnected
  | .pull _ => true
  | _ => false

namespace CherryState

/-- `usbh_find_class_instance(S.devname)`. A strict stack passes over a port that it has
begun to release. -/
def lookup (strict : Bool) (s : CherryState) : Option Instance :=
  s.insts.find? fun x => decide (s.devname = some x.name) && (!strict || s.connected x.port)

/-- A step of `stick_task` between two calls. -/
def stepStick (strict : Bool) (s : CherryState) : Option CherryState :=
  match s.stick with
  | .wait => if s.sem then some { s with sem := false, stick := .busy } else none
  | .busy => some { s with rxIdle := false, stick := .open }
  | .open => some { s with stick := .opening (s.lookup strict) }
  | .retry => some { s with stick := if s.wantClose then .setIdle else .open }
  | .publish x =>
    (s.tx.lockSet .stick (some x.id)).map fun tx => { s with tx := tx, stick := .published x }
  | .published x => some { s with tx := s.tx.unlock, stick := .apply x }
  | .apply x =>
    some { s with tx := s.tx.setPc .stick (some (.wait .apply)), stick := .applying x }
  | .test x => some { s with stick := if s.wantClose then .clear x else .read x }
  | .read x => some { s with stick := .reading x }
  | .check x => some { s with stick := if s.connected x.port then .test x else .clear x }
  | .clear x =>
    (s.tx.lockSet .stick none).map fun tx => { s with tx := tx, stick := .cleared x }
  | .cleared x => some { s with tx := s.tx.unlock, stick := .close x }
  | .close x => some { s with stick := .closing x }
  | .closing _ => some { s with stick := .setIdle }
  | .setIdle => some { s with rxIdle := true, stick := .unclaim }
  | .unclaim => some { s with claimed := false, stick := .wait }
  | _ => none

/-- A step of the hub thread in `usbh_evt`, in `usbh_serial_stop` or to free an instance. -/
def stepHub (s : CherryState) : Option CherryState :=
  match s.hub with
  | .started x own => some { s with hub := if s.claimed then .enum x.port own else .record x }
  | .record x => some { s with devname := some x.name, hubPort := x.port, hub := .unwant x }
  | .unwant x => some { s with wantClose := false, hub := .claim x }
  | .claim x => some { s with claimed := true, hub := .give x }
  | .give x => some { s with sem := true, hub := .enum x.port true }
  | .stop x .claimed => some { s with hub := if s.claimed then .stop x .handle else .free x }
  | .stop x .handle =>
    some { s with hub := if s.tx.handle = some x.id then .stop x .want else .stop x .name }
  | .stop x .name =>
    some { s with hub := if s.devname = some x.name then .stop x .want else .free x }
  | .stop x .want => some { s with wantClose := true, hub := .stop x .lock }
  | .stop x .lock =>
    (s.tx.lockSet .hub none).map fun tx => { s with tx := tx, hub := .stop x .unlock }
  | .stop x .unlock => some { s with tx := s.tx.unlock, hub := .stop x .poll }
  -- the loop's limit of 5 s is not reached
  | .stop x .poll => some { s with hub := if s.rxIdle then .free x else .stop x .poll }
  | .free x => some { s with
      insts := s.insts.filter fun y => decide (y.id ≠ x.id), hub := .release x.port }
  | .gone p => some { s with hub := if s.claimed && s.hubPort = p then .goneWant p else .idle }
  | .goneWant _ => some { s with wantClose := true, hub := .idle }
  | _ => none

end CherryState

open CherryState in
/-- The threads and the sections, on a stack that is strict or not. -/
def cherry (strict : Bool) : Machine CherryState CherryLabel where
  step s
    | .attach p =>
      if s.hub = .idle ∧ s.connected p = false then
        some { s with connected := Function.update s.connected p true,
                      pulled := Function.update s.pulled p false, hub := .enum p false }
      else none
    | .connect n =>
      match s.hub with
      | .enum p own =>
        if ∀ x ∈ s.insts, x.name ≠ n then
          some { s with insts := ⟨s.next, n, p⟩ :: s.insts, next := s.next + 1,
                        hub := .started ⟨s.next, n, p⟩ own }
        else none
      | _ => none
    | .enumerated =>
      match s.hub with
      | .enum _ _ => some { s with hub := .idle }
      | _ => none
    | .release p =>
      if s.hub = .idle ∧ s.connected p = true then
        some { s with connected := Function.update s.connected p false, hub := .release p }
      else none
    | .stop x =>
      if s.hub = .release x.port ∧ x ∈ s.insts then
        some { s with hub := .stop x .claimed }
      else none
    | .disconnected =>
      match s.hub with
      | .release p =>
        if ∀ x ∈ s.insts, x.port ≠ p then some { s with hub := .gone p } else none
      | _ => none
    | .hub => s.stepHub
    | .pull p => some { s with pulled := Function.update s.pulled p true }
    | .stick => s.stepStick strict
    | .opened ok =>
      match s.stick with
      | .opening (some x) => some { s with stick := if ok then .publish x else .retry }
      | .opening none => some { s with stick := .retry }
      | _ => none
    | .applied ok =>
      match s.stick with
      | .applying x =>
        if s.tx.pcs .stick = none then
          some { s with stick := if ok then .test x else .clear x }
        else none
      | _ => none
    | .readRet err =>
      match s.stick with
      | .reading x => some { s with stick := if err then .check x else .test x }
      | _ => none
    | .enter t op =>
      if s.tx.pcs (.user t) = none then
        some { s with tx := s.tx.setPc (.user t) (some (.wait op)) }
      else none
    | .step a => (s.tx.stepSection true a).map fun tx => { s with tx := tx }

/-! ## What every step keeps -/

/-- Where the threads stand with each other. -/
structure Flow (s : CherryState) : Prop where
  idle : s.stick.active = true → s.rxIdle = false
  claimed : s.claimed = true ↔ s.stick ≠ .wait ∨ s.sem = true ∨ s.hub.giving = true
  once : s.sem = true → s.stick = .wait
  giving : s.hub.giving = true → s.stick = .wait ∧ s.sem = false
  claiming : s.hub.claiming = true → s.claimed = false

/-- Who has the mutex and an instance through `S.ser`. -/
structure Users (s : CherryState) : Prop where
  sections : SectionInv s.tx
  held : Held (fun i => ∃ x, s.stick.shared = some x ∧ x.id = i) s.tx
  applying : s.tx.pcs .stick ≠ none → ∃ x, s.stick = .applying x
  hub : s.tx.pcs .hub = none
  stickLocks : s.stick.locks = true → s.tx.mtx = some .stick
  hubLocks : s.hub.locks = true → s.tx.mtx = some .hub

/-- What the hub thread keeps of the ports. -/
structure Ports (s : CherryState) : Prop where
  issued : ∀ x ∈ s.insts, x.id < s.next
  ids : ∀ x ∈ s.insts, ∀ y ∈ s.insts, x.id = y.id → x = y
  names : ∀ x ∈ s.insts, ∀ y ∈ s.insts, x.name = y.name → x = y
  stopping : ∀ x, s.hub.stopping = some x → x ∈ s.insts
  enumerating : ∀ p, s.hub.enumerating = some p → s.connected p = true
  off : ∀ x ∈ s.insts, s.connected x.port = false → s.hub.releasing = some x.port
  releasing : ∀ p, s.hub.releasing = some p → s.connected p = false
  gone : ∀ p, s.hub = .gone p ∨ s.hub = .goneWant p → s.connected p = false

theorem flow_start : Flow .start := by
  constructor <;> simp [CherryState.start, StickPc.active, HubPc.giving, HubPc.claiming]

theorem users_start : Users .start where
  sections := sectionInv_start
  held := held_start
  applying h := absurd rfl h
  hub := rfl
  stickLocks h := by cases h
  hubLocks h := by cases h

theorem ports_start : Ports .start := by
  constructor <;>
    simp [CherryState.start, HubPc.stopping, HubPc.enumerating, HubPc.releasing]

section Steps

variable {strict : Bool} {s t : CherryState} {l : CherryLabel}

/-- `stick_task` leaves the stack and what the hub thread has recorded. -/
theorem CherryState.stepStick_frame (hs : s.stepStick strict = some t) :
    t.insts = s.insts ∧ t.next = s.next ∧ t.connected = s.connected ∧ t.pulled = s.pulled ∧
      t.devname = s.devname ∧ t.hubPort = s.hubPort ∧ t.wantClose = s.wantClose ∧
      t.hub = s.hub := by
  rw [CherryState.stepStick] at hs
  cases hpc : s.stick with
  | publish x | clear x =>
    simp only [hpc] at hs
    obtain ⟨tx, -, rfl⟩ := Option.map_eq_some_iff.1 hs
    exact ⟨rfl, rfl, rfl, rfl, rfl, rfl, rfl, rfl⟩
  | wait =>
    simp only [hpc] at hs
    split at hs
    · cases hs
      exact ⟨rfl, rfl, rfl, rfl, rfl, rfl, rfl, rfl⟩
    · cases hs
  | opening | applying | reading => simp [hpc] at hs
  | _ =>
    rw [hpc] at hs
    cases hs
    exact ⟨rfl, rfl, rfl, rfl, rfl, rfl, rfl, rfl⟩

/-- Enumeration and release leave `stick_task`, the mutex and the flags. -/
theorem stack_frame (hl : l.isStack = true) (hs : (cherry strict).step s l = some t) :
    t.tx = s.tx ∧ t.stick = s.stick ∧ (t.devname = s.devname ∧ t.hubPort = s.hubPort ∧
      t.wantClose = s.wantClose ∧ t.claimed = s.claimed ∧ t.rxIdle = s.rxIdle ∧
      t.sem = s.sem) ∧ (t.hub.locks = true → s.hub.locks = true) := by
  cases l with
  | attach | connect | enumerated | release | stop | disconnected | pull =>
    grind -ring -linarith [cherry, HubPc.locks]
  | _ => cases hl

/-- They free no instance. -/
theorem stack_insts (hl : l.isStack = true) (hs : (cherry strict).step s l = some t) :
    (∀ x ∈ s.insts, x ∈ t.insts) ∧ ∀ x, t.hub = .free x → s.hub = .free x := by
  cases l with
  | attach | connect | enumerated | release | stop | disconnected | pull =>
    grind -ring -linarith [cherry]
  | _ => cases hl

theorem Flow.stepStick (h : Flow s) (hs : s.stepStick strict = some t) : Flow t := by
  obtain ⟨h1, h2, h3, h4, h5⟩ := h
  rw [CherryState.stepStick] at hs
  cases hpc : s.stick with
  | publish x | clear x =>
    simp only [hpc] at hs
    obtain ⟨tx, -, rfl⟩ := Option.map_eq_some_iff.1 hs
    constructor <;> grind -ring -linarith [StickPc.active]
  | wait =>
    simp only [hpc] at hs
    split at hs
    · cases hs
      constructor <;> grind -ring -linarith [StickPc.active]
    · cases hs
  | opening | applying | reading => simp [hpc] at hs
  | _ =>
    rw [hpc] at hs
    cases hs
    constructor <;> grind -ring -linarith [StickPc.active]

theorem Flow.stepHub (h : Flow s) (hs : s.stepHub = some t) : Flow t := by
  obtain ⟨h1, h2, h3, h4, h5⟩ := h
  rw [CherryState.stepHub] at hs
  cases hpc : s.hub with
  | stop x pc =>
    cases pc with
    | lock =>
      simp only [hpc] at hs
      obtain ⟨tx, -, rfl⟩ := Option.map_eq_some_iff.1 hs
      constructor <;> grind -ring -linarith [HubPc.giving, HubPc.claiming]
    | _ =>
      rw [hpc] at hs
      cases hs
      constructor <;> grind -ring -linarith [HubPc.giving, HubPc.claiming]
  | idle | enum | release => simp [hpc] at hs
  | _ =>
    rw [hpc] at hs
    cases hs
    constructor <;> grind -ring -linarith [HubPc.giving, HubPc.claiming]

theorem Flow.step (h : Flow s) (hs : (cherry strict).step s l = some t) : Flow t := by
  cases l with
  | stick => exact h.stepStick hs
  | hub => exact h.stepHub hs
  | step a =>
    obtain ⟨tx, -, rfl⟩ := Option.map_eq_some_iff.1 hs
    exact ⟨h.idle, h.claimed, h.once, h.giving, h.claiming⟩
  | _ =>
    obtain ⟨h1, h2, h3, h4, h5⟩ := h
    simp only [cherry] at hs
    constructor <;> grind -ring -linarith [StickPc.active, HubPc.giving, HubPc.claiming]

theorem Ports.stepHub (h : Ports s) (hs : s.stepHub = some t) : Ports t := by
  obtain ⟨h1, h2, h3, h4, h5, h6, h7, h8⟩ := h
  rw [CherryState.stepHub] at hs
  cases hpc : s.hub with
  | stop x pc =>
    cases pc with
    | lock =>
      simp only [hpc] at hs
      obtain ⟨tx, -, rfl⟩ := Option.map_eq_some_iff.1 hs
      constructor <;> grind -ring -linarith [HubPc.stopping, HubPc.enumerating, HubPc.releasing]
    | _ =>
      rw [hpc] at hs
      cases hs
      constructor <;> grind -ring -linarith [HubPc.stopping, HubPc.enumerating, HubPc.releasing]
  | idle | enum | release => simp [hpc] at hs
  | _ =>
    rw [hpc] at hs
    cases hs
    constructor <;> grind -ring -linarith [HubPc.stopping, HubPc.enumerating, HubPc.releasing]

/-- A step that leaves the ports and the hub thread. -/
theorem Ports.congr (h : Ports s) (hi : t.insts = s.insts) (hn : t.next = s.next)
    (hc : t.connected = s.connected) (hh : t.hub = s.hub) : Ports t where
  issued := by rw [hi, hn]; exact h.issued
  ids := by rw [hi]; exact h.ids
  names := by rw [hi]; exact h.names
  stopping := by rw [hi, hh]; exact h.stopping
  enumerating := by rw [hh, hc]; exact h.enumerating
  off := by rw [hi, hc, hh]; exact h.off
  releasing := by rw [hc, hh]; exact h.releasing
  gone := by rw [hc, hh]; exact h.gone

/-- An idle hub thread has no instance at a port that is not connected. -/
theorem Ports.not_off (h : Ports s) (hidle : s.hub = .idle) {x : Instance} (hx : x ∈ s.insts) :
    s.connected x.port = true := by
  by_contra hoff
  have hrel := h.off x hx (by simpa using hoff)
  rw [hidle] at hrel
  cases hrel

theorem Ports.attach (h : Ports s) {p : Port} (hs : (cherry strict).step s (.attach p) = some t) :
    Ports t := by
  simp only [cherry] at hs
  split at hs
  · next hidle =>
    cases hs
    refine ⟨h.issued, h.ids, h.names, fun x hx => (by cases hx), fun q hq => ?_,
      fun x hx hoff => ?_, fun q hq => (by cases hq), fun q hq => (by simp at hq)⟩
    · cases hq
      simp
    · have hon := h.not_off hidle.1 hx
      have hp : x.port ≠ p := fun hp => by simp [hp, hidle.2] at hon
      simp [hp, hon] at hoff
  · cases hs

theorem Ports.connect (h : Ports s) {n : Nat}
    (hs : (cherry strict).step s (.connect n) = some t) : Ports t := by
  simp only [cherry] at hs
  split at hs
  · next p own hpc =>
    split at hs
    · next hname =>
      cases hs
      have hon := h.enumerating p (by rw [hpc]; rfl)
      refine ⟨fun x hx => ?_, fun x hx y hy heq => ?_, fun x hx y hy heq => ?_,
        fun x hx => (by cases hx), fun q hq => (by cases hq; exact hon), fun x hx hoff => ?_,
        fun q hq => (by cases hq), fun q hq => (by simp at hq)⟩
      · rcases List.mem_cons.1 hx with rfl | hx
        · exact Nat.lt_succ_self _
        · exact Nat.lt_succ_of_lt (h.issued x hx)
      · -- the number is new
        rcases List.mem_cons.1 hx with rfl | hx <;> rcases List.mem_cons.1 hy with rfl | hy
        · rfl
        · exact absurd heq (Nat.ne_of_gt (h.issued y hy))
        · exact absurd heq (Nat.ne_of_lt (h.issued x hx))
        · exact h.ids x hx y hy heq
      · rcases List.mem_cons.1 hx with rfl | hx <;> rcases List.mem_cons.1 hy with rfl | hy
        · rfl
        · exact absurd heq.symm (hname y hy)
        · exact absurd heq (hname x hx)
        · exact h.names x hx y hy heq
      · rcases List.mem_cons.1 hx with rfl | hx
        · exact absurd hoff (by simp [hon])
        · have hrel := h.off x hx hoff
          rw [hpc] at hrel
          cases hrel
    · cases hs
  · cases hs

theorem Ports.release (h : Ports s) {p : Port}
    (hs : (cherry strict).step s (.release p) = some t) : Ports t := by
  simp only [cherry] at hs
  split at hs
  · next hidle =>
    cases hs
    refine ⟨h.issued, h.ids, h.names, fun x hx => (by cases hx), fun q hq => (by cases hq),
      fun x hx hoff => ?_, fun q hq => ?_, fun q hq => (by simp at hq)⟩
    · by_cases hp : x.port = p
      · rw [hp]
        rfl
      · simp [hp, h.not_off hidle.1 hx] at hoff
    · cases hq
      simp
  · cases hs

theorem Ports.step (h : Ports s) (hs : (cherry strict).step s l = some t) : Ports t := by
  cases l with
  | attach p => exact h.attach hs
  | connect n => exact h.connect hs
  | release p => exact h.release hs
  | hub => exact h.stepHub hs
  | stick =>
    obtain ⟨hi, hn, hc, -, -, -, -, hh⟩ := CherryState.stepStick_frame hs
    exact h.congr hi hn hc hh
  | step a =>
    obtain ⟨tx, -, rfl⟩ := Option.map_eq_some_iff.1 hs
    exact h.congr rfl rfl rfl rfl
  | pull p =>
    cases hs
    exact h.congr rfl rfl rfl rfl
  | _ =>
    obtain ⟨h1, h2, h3, h4, h5, h6, h7, h8⟩ := h
    simp only [cherry] at hs
    constructor <;> grind -ring -linarith [HubPc.stopping, HubPc.enumerating, HubPc.releasing]

/-- A step that leaves the mutex and the sections. -/
theorem Users.congr (h : Users s) (htx : t.tx = s.tx) (hsh : t.stick.shared = s.stick.shared)
    (hap : s.tx.pcs .stick ≠ none → ∃ x, t.stick = .applying x)
    (hl : t.stick.locks = true → s.stick.locks = true)
    (hh : t.hub.locks = true → s.hub.locks = true) : Users t where
  sections := by rw [htx]; exact h.sections
  held := by rw [htx, hsh]; exact h.held
  applying := by rw [htx]; exact hap
  hub := by rw [htx]; exact h.hub
  stickLocks ht := by rw [htx]; exact h.stickLocks (hl ht)
  hubLocks ht := by rw [htx]; exact h.hubLocks (hh ht)

/-- `stick_task` runs a section in `apply_lc` only. -/
theorem Users.noSection (h : Users s) (hne : ∀ x, s.stick ≠ .applying x) :
    s.tx.pcs .stick = none := by
  by_contra hsec
  obtain ⟨x, hap⟩ := h.applying hsec
  exact hne x hap

/-- `stick_task` goes on outside of sections. -/
theorem Users.moveStick (h : Users s) (htx : t.tx = s.tx) (hhub : t.hub = s.hub)
    (hne : ∀ x, s.stick ≠ .applying x) (hsh : t.stick.shared = s.stick.shared)
    (hl : t.stick.locks = false) : Users t :=
  h.congr htx hsh (fun hsec => absurd (h.noSection hne) hsec)
    (fun ht => by rw [hl] at ht; cases ht) (fun ht => by rwa [hhub] at ht)

/-- It assigns to `S.ser` under the mutex. -/
theorem Users.lockStick (h : Users s) {tx : TxSide} {pc : StickPc} {v : Option Nat}
    (htx : s.tx.lockSet .stick v = some tx) (hne : ∀ x, s.stick ≠ .applying x)
    (hv : ∀ i, v = some i → ∃ x, pc.shared = some x ∧ x.id = i) :
    Users { s with tx := tx, stick := pc } := by
  obtain ⟨hsec, hheld, hpcs, -⟩ := Held.lockSet h.sections htx hv
  obtain ⟨hfree, hmtx⟩ := TxSide.lockSet_mtx htx
  refine ⟨hsec, hheld, fun hs => ?_, ?_, fun _ => hmtx, fun hl => ?_⟩
  · exact absurd (h.noSection hne) (by rwa [← hpcs])
  · rw [hpcs]
    exact h.hub
  · -- the hub thread had the mutex
    have hm := h.hubLocks hl
    rw [hfree] at hm
    cases hm

/-- It gives the mutex back. -/
theorem Users.unlockStick (h : Users s) {pc : StickPc} (hlk : s.stick.locks = true)
    (hne : ∀ x, s.stick ≠ .applying x)
    (hsh : pc.shared = s.stick.shared) (hl : pc.locks = false) :
    Users { s with tx := s.tx.unlock, stick := pc } := by
  have hsec := h.noSection hne
  refine ⟨h.sections.unlock (h.stickLocks hlk) hsec, ⟨?_, ?_⟩, fun hs => absurd hsec hs, h.hub,
    fun ht => (by rw [hl] at ht; cases ht), fun ht => ?_⟩
  · rw [hsh]
    exact h.held.handle
  · rw [hsh]
    exact h.held.target
  · have hm := h.hubLocks ht
    rw [h.stickLocks hlk] at hm
    cases hm

theorem Users.stepStick (h : Users s) (hs : s.stepStick strict = some t) : Users t := by
  rw [CherryState.stepStick] at hs
  cases hpc : s.stick with
  | wait =>
    rw [hpc] at hs
    simp only at hs
    split at hs
    · cases hs
      exact h.moveStick rfl rfl (by simp [hpc]) (by rw [hpc]; rfl) rfl
    · cases hs
  | retry =>
    rw [hpc] at hs
    cases hs
    cases hw : s.wantClose <;>
      exact h.moveStick rfl rfl (by simp [hpc]) (by simp [hpc, StickPc.shared])
        rfl
  | test x =>
    rw [hpc] at hs
    cases hs
    cases hw : s.wantClose <;>
      exact h.moveStick rfl rfl (by simp [hpc]) (by simp [hpc, StickPc.shared])
        rfl
  | check x =>
    rw [hpc] at hs
    cases hs
    cases hw : s.connected x.port <;>
      exact h.moveStick rfl rfl (by simp [hpc]) (by simp [hpc, StickPc.shared])
        rfl
  | publish x =>
    rw [hpc] at hs
    obtain ⟨tx, htx, rfl⟩ := Option.map_eq_some_iff.1 hs
    exact h.lockStick htx (by simp [hpc]) fun i hi => ⟨x, rfl, Option.some.inj hi⟩
  | published x =>
    rw [hpc] at hs
    cases hs
    exact h.unlockStick (by rw [hpc]; rfl) (by simp [hpc]) (by rw [hpc]; rfl) rfl
  | apply x =>
    rw [hpc] at hs
    cases hs
    have hsec := h.noSection (by simp [hpc])
    have hmove : Users { s with stick := .applying x } :=
      h.moveStick rfl rfl (by simp [hpc]) (by rw [hpc]; rfl) rfl
    -- the section has read nothing yet
    exact ⟨hmove.sections.begin _ hsec, hmove.held.begin _, fun _ => ⟨x, rfl⟩,
      by simpa using hmove.hub, hmove.stickLocks, hmove.hubLocks⟩
  | clear x =>
    rw [hpc] at hs
    obtain ⟨tx, htx, rfl⟩ := Option.map_eq_some_iff.1 hs
    exact h.lockStick htx (by simp [hpc]) fun i hi => by cases hi
  | cleared x =>
    rw [hpc] at hs
    cases hs
    exact h.unlockStick (by rw [hpc]; rfl) (by simp [hpc]) (by rw [hpc]; rfl) rfl
  | opening r => simp [hpc] at hs
  | applying x => simp [hpc] at hs
  | reading x => simp [hpc] at hs
  | _ =>
    rw [hpc] at hs
    cases hs
    exact h.moveStick rfl rfl (by simp [hpc]) (by rw [hpc]; rfl) rfl

theorem Users.stepHub (h : Users s) (hs : s.stepHub = some t) : Users t := by
  rw [CherryState.stepHub] at hs
  cases hpc : s.hub with
  | stop x pc =>
    cases pc with
    | lock =>
      rw [hpc] at hs
      obtain ⟨tx, htx, rfl⟩ := Option.map_eq_some_iff.1 hs
      obtain ⟨hsec, hheld, hpcs, -⟩ := Held.lockSet (v := none) h.sections htx
        (H := fun i => ∃ x, s.stick.shared = some x ∧ x.id = i) fun i hi => by cases hi
      obtain ⟨hfree, hmtx⟩ := TxSide.lockSet_mtx htx
      refine ⟨hsec, hheld, by rw [hpcs]; exact h.applying, by rw [hpcs]; exact h.hub,
        fun hl => ?_, fun _ => hmtx⟩
      have hm := h.stickLocks hl
      rw [hfree] at hm
      cases hm
    | unlock =>
      rw [hpc] at hs
      cases hs
      have hm := h.hubLocks (by rw [hpc]; rfl)
      refine ⟨h.sections.unlock hm h.hub, ⟨h.held.handle, h.held.target⟩, h.applying, h.hub,
        fun hl => ?_, fun hl => by cases hl⟩
      have hm' := h.stickLocks hl
      rw [hm] at hm'
      cases hm'
    | _ =>
      rw [hpc] at hs
      cases hs
      refine h.congr rfl rfl h.applying id fun hl => ?_
      grind -ring -linarith [HubPc.locks]
  | idle | enum | release => simp [hpc] at hs
  | _ =>
    rw [hpc] at hs
    cases hs
    refine h.congr rfl rfl h.applying id fun hl => ?_
    grind -ring -linarith [HubPc.locks]

theorem Users.step (h : Users s) (hs : (cherry strict).step s l = some t) : Users t := by
  cases l with
  | stick => exact h.stepStick hs
  | hub => exact h.stepHub hs
  | step a =>
    obtain ⟨tx, htx, rfl⟩ := Option.map_eq_some_iff.1 hs
    have hother : ∀ b, tx.pcs b ≠ none → s.tx.pcs b ≠ none := by
      intro b hb hnone
      by_cases ha : b = a
      · subst ha
        simp [TxSide.stepSection, hnone] at htx
      · exact hb ((TxSide.stepSection_other htx ha).trans hnone)
    refine ⟨h.sections.step htx, h.held.step htx, fun hne => h.applying (hother _ hne),
      by_contra fun hne => hother _ hne h.hub, fun hl => ?_, fun hl => ?_⟩
    · refine h.sections.mtx_step htx (h.stickLocks hl) (h.noSection fun x hap => ?_)
      rw [hap] at hl
      cases hl
    · exact h.sections.mtx_step htx (h.hubLocks hl) h.hub
  | enter u op =>
    simp only [cherry] at hs
    split at hs
    · next hnone =>
      cases hs
      exact ⟨h.sections.begin op hnone, h.held.begin op, fun hne => h.applying (by simpa using hne),
        by simpa using h.hub, h.stickLocks, h.hubLocks⟩
    · cases hs
  | opened ok =>
    simp only [cherry] at hs
    split at hs
    · next x hpc =>
      cases hs
      cases ok <;> exact h.moveStick rfl rfl (by simp [hpc]) (by rw [hpc]; rfl) rfl
    · next hpc =>
      cases hs
      exact h.moveStick rfl rfl (by simp [hpc]) (by rw [hpc]; rfl) rfl
    · cases hs
  | applied ok =>
    simp only [cherry] at hs
    split at hs
    · next x hpc =>
      split at hs
      · next hsec =>
        cases hs
        cases ok <;> exact h.congr rfl (by rw [hpc]; rfl) (fun hne => absurd hsec hne)
          (fun hl => by cases hl) id
      · cases hs
    · cases hs
  | readRet err =>
    simp only [cherry] at hs
    split at hs
    · next x hpc =>
      cases hs
      cases err <;> exact h.moveStick rfl rfl (by simp [hpc]) (by rw [hpc]; rfl) rfl
    · cases hs
  | _ =>
    obtain ⟨htx, hst, -, hlk⟩ := stack_frame rfl hs
    exact h.congr htx (by rw [hst]) (by rw [hst]; exact h.applying) (by rw [hst]; exact id) hlk

/-! ## All of it -/

/-- What holds in every reachable state. -/
structure CherryInv (s : CherryState) : Prop where
  flow : Flow s
  users : Users s
  ports : Ports s

theorem cherryInv_start : CherryInv .start := ⟨flow_start, users_start, ports_start⟩

theorem CherryInv.step (h : CherryInv s) (hs : (cherry strict).step s l = some t) :
    CherryInv t := ⟨h.flow.step hs, h.users.step hs, h.ports.step hs⟩

end Steps

end Cdc2Net.Source.Cherry
