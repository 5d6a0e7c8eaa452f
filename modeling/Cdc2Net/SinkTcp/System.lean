import Cdc2Net.Lib.Transition
import Cdc2Net.SinkTcp.Slots
import Cdc2Net.SinkTcp.ComPort
import Cdc2Net.Source.LineSource

/-!
# The tasks of the TCP sink

`accept_task`, the `client_task` of every connection, the fanout `on_rx`, the
radio reboot drop, the source going down and up again, and the line-coding
source behind the bridge, as one machine. A step is one `S.mtx` section, one
bridge call, one `recv`, one `send` of `tn_send`, or the code between two of
these; steps of different tasks interleave freely.

A slot holds at most one task that has not yet run its cleanup section
(`task`). A task past that section may still have to call
`bridge_revert_line_coding`; since the call has no argument, `reverting` only
counts those tasks. `log` is not part of the program: it records what the
connection in a slot received, passed on and was sent.
-/

set_option autoImplicit false

namespace Cdc2Net.SinkTcp

open Cdc2Net.SinkTcp.Telnet
open Cdc2Net.Source
open Cdc2Net.Lib.Transition

universe u v

/-! ## State -/

/-- An open descriptor: the connection it belongs to, and whether it has been
shut down. -/
structure Sock where
  conn : Nat
  shut : Bool
  deriving DecidableEq, Repr

/-- The open descriptors. -/
abbrev Lwip := Nat → Option Sock

/-- `shutdown(fd, SHUT_RDWR)`. -/
def Lwip.shutdown (n : Lwip) (fd : Nat) : Lwip :=
  Function.update n fd ((n fd).map fun k => { k with shut := true })

/-- `close(fd)`. -/
def Lwip.close (n : Lwip) (fd : Nat) : Lwip := Function.update n fd none

/-- Where a `client_task` stands before its cleanup section. -/
inductive ClientPc where
  /-- In `recv`. -/
  | recv
  /-- In `process_rx`, with the calls it has still to make for this chunk. -/
  | rx (todo : List RxCall)
  /-- In `tn_send`; afterwards `comport_acquire` if `acq`. -/
  | tnSend (rest : List UInt8) (stalls : Nat) (acq : Bool) (todo : List RxCall)
  /-- Before `comport_acquire`. -/
  | acquire (todo : List RxCall)
  /-- In `tn_subneg`, before the snapshot of `is_controller`. -/
  | snapshot (sb : List UInt8) (todo : List RxCall)
  /-- Before `bridge_get_line_coding`. -/
  | getLc (ctrl : Bool) (sb : List UInt8) (todo : List RxCall)
  /-- In the `switch` of `tn_subneg`, with the coding read. -/
  | apply (ctrl : Bool) (sb : List UInt8) (lc : LineCoding) (todo : List RxCall)
  /-- The recv loop is left. -/
  | cleanup
  deriving DecidableEq, Repr

/-- Where `accept_task` stands. -/
inductive AcceptPc where
  /-- In `accept`. -/
  | accepting
  /-- Before the check of `source_ready`. -/
  | gate (cs : Nat)
  /-- Past the check, before the `S.mtx` section. -/
  | insert (cs : Nat)
  /-- The slot is filled, before `xTaskCreate`. -/
  | spawn (i : Slot)
  deriving DecidableEq, Repr

/-- The source's plug cycle: ready; not ready, with the notification of the
sinks to come; not ready, notified. -/
inductive PlugState where
  | up
  | closing
  | gone
  deriving DecidableEq, Repr

/-- What the connection of a slot has seen: the bytes received, the bytes passed
to `bridge_tx_to_source`, the frames handed to `tn_send`, the replayed bytes,
the bytes fanned out to it, and the bytes its socket accepted. -/
structure ConnLog where
  conn : Nat
  received : List UInt8
  toSource : List UInt8
  control : List (List UInt8)
  replayed : List UInt8
  fanned : List UInt8
  sent : List UInt8
  deriving DecidableEq, Repr

/-- The log of a connection before anything happened on it. -/
def ConnLog.start (conn : Nat) : ConnLog := ⟨conn, [], [], [], [], [], []⟩

/-- The sink, its tasks, and what surrounds them. -/
structure World (σ : Type u) where
  sink : Sink
  lwip : Lwip
  nextConn : Nat
  task : Slot → Option ClientPc
  reverting : Nat
  accept : AcceptPc
  plug : PlugState
  bridge : Option σ
  clock : Nat
  log : Slot → ConnLog

/-- The state after start-up, with a source attached or not. -/
def World.start {σ : Type u} (plug : PlugState) (bridge : Option σ) : World σ :=
  ⟨sinkTcpInit, fun _ => none, 0, fun _ => none, 0, .accepting, plug, bridge, 0,
    fun _ => .start 0⟩

namespace World

variable {σ : Type u} {ρ : Type v}

/-- `source_ready(bridge_get_source())`. -/
def ready (w : World σ) : Bool := decide (w.plug = .up) && w.bridge.isSome

/-- Move the task of a slot. -/
def setTask (w : World σ) (i : Slot) (pc : ClientPc) : World σ :=
  { w with task := Function.update w.task i (some pc) }

/-- Change the log of a slot. -/
def setLog (w : World σ) (i : Slot) (l : ConnLog) : World σ :=
  { w with log := Function.update w.log i l }

/-- `shutdown` on a slot's socket. -/
def shutdown (w : World σ) (i : Slot) : World σ :=
  match (w.sink.clients i).sock with
  | none => w
  | some fd => { w with lwip := w.lwip.shutdown fd }

/-! ## `accept_task` -/

/-- `accept` returns the descriptor `fd`, not open so far. -/
def stepAccept (w : World σ) (fd : Nat) : Option (World σ) :=
  if w.accept = .accepting ∧ w.lwip fd = none then
    some { w with
      accept := .gate fd
      lwip := Function.update w.lwip fd (some ⟨w.nextConn, false⟩)
      nextConn := w.nextConn + 1 }
  else none

/-- The check of `source_ready`; a connection without a source is closed. -/
def stepGate (w : World σ) : Option (World σ) :=
  match w.accept with
  | .gate cs =>
    if w.ready then
      some { w with
        accept := .insert cs
        sink := { w.sink with
          stats := { w.sink.stats with totalAccepts := w.sink.stats.totalAccepts + 1 } } }
    -- no live device: the connection is closed before it gets a slot
    else some { w with accept := .accepting, lwip := w.lwip.close cs }
  | _ => none

/-- The connection id of an open descriptor. -/
def connOf (w : World σ) (fd : Nat) : Nat := ((w.lwip fd).map Sock.conn).getD 0

/-- What a `client_send` to slot `i` leaves: socket, counters, and the log entry
`l` extended by the accepted bytes. -/
def sendEffect (w : World σ) (i : Slot) (e : SendEffect) (l : ConnLog) : World σ :=
  let w' := if e.shutdown then w.shutdown i else w
  { w'.setLog i { l with sent := l.sent ++ e.sent } with
    sink := { w.sink with
      stats := { w.sink.stats with
        txBytesToClients := w.sink.stats.txBytesToClients + e.sent.length
        txDroppedEagain := w.sink.stats.txDroppedEagain + e.eagain } } }

/-- The slot insertion, before the replay buffer is flushed. -/
def inserted (w : World σ) (i : Slot) (cs : Nat) : World σ :=
  { w with sink := w.sink.acceptInsert i cs, accept := .spawn i }

/-- The `S.mtx` section of `accept_task`. -/
def stepInsert (w : World σ) (res : Nat → SendResult) : Option (World σ) :=
  match w.accept with
  | .insert cs =>
    match w.sink.findFreeSlot with
    | none => some { w with accept := .accepting, lwip := w.lwip.close cs }
    | some i =>
      -- still under `S.mtx`: the replayed block comes before any fanout
      let flush := replayFlushTo w.sink.replay w.clock res
      let w' := (w.inserted i cs).sendEffect i flush.1
        { ConnLog.start (w.connOf cs) with replayed := flush.1.sent }
      some { w' with sink := { w'.sink with replay := flush.2 } }
  | _ => none

/-- `xTaskCreate(client_task)`, which may fail. -/
def stepSpawn (w : World σ) (ok : Bool) : Option (World σ) :=
  match w.accept with
  | .spawn i =>
    -- the result of `xTaskCreate` is not looked at: the slot stays active
    some { (if ok then w.setTask i .recv else w) with accept := .accepting }
  | _ => none

/-! ## `client_task` -/

/-- `recv` returns a chunk and `process_rx` starts on it. -/
def stepRecv (w : World σ) (i : Slot) (chunk : List UInt8) : Option (World σ) :=
  if w.task i = some .recv ∧ (w.sink.clients i).active ∧ (w.sink.clients i).sock ≠ none ∧
      chunk ≠ [] then
    let c := w.sink.clients i
    let r := processRx c.codec chunk
    some { (w.setTask i (.rx r.2)).setLog i
        { w.log i with received := (w.log i).received ++ chunk } with
      sink := w.sink.setClient i { c with codec := r.1 } }
  else none

/-- `recv` fails or returns end of stream. -/
def stepHangup (w : World σ) (i : Slot) : Option (World σ) :=
  if w.task i = some .recv then some (w.setTask i .cleanup) else none

/-- What follows a `tn_send`. -/
def afterSend (acq : Bool) (todo : List RxCall) : ClientPc :=
  if acq then .acquire todo else .rx todo

/-- Entry of `tn_send(c, frame)`. -/
def startSend (w : World σ) (i : Slot) (frame : List UInt8) (acq : Bool) (todo : List RxCall) :
    World σ :=
  let w' := w.setLog i { w.log i with control := (w.log i).control ++ [frame] }
  -- `tn_send` has nothing to do on a closed socket or for an empty frame
  if (w.sink.clients i).sock = none ∨ frame = [] then w'.setTask i (afterSend acq todo)
  else w'.setTask i (.tnSend frame 0 acq todo)

/-- One call of `process_rx`, up to the first shared step of the callee. -/
def callStep (w : World σ) (i : Slot) (todo : List RxCall) : RxCall → World σ
  | .toSource data =>
    { (w.setTask i (.rx todo)).setLog i
        { w.log i with toSource := (w.log i).toSource ++ data } with
      sink := { w.sink with
        stats := { w.sink.stats with
          rxBytesFromClients := w.sink.stats.rxBytesFromClients + data.length } } }
  | .tnCommit => { w.setTask i (.rx todo) with sink := w.sink.tnCommit i }
  | .tnNegotiate cmd opt =>
    match negotiateReply cmd opt with
    | none => w.setTask i (.rx todo)
    -- `comport_acquire` comes after the reply, and for COM-PORT only
    | some r => w.startSend i [tcIac, r, opt] (decide (opt = toptComport)) todo
  | .tnSubneg sb =>
    if sb.head? = some toptComport then w.setTask i (.snapshot sb todo) else w.setTask i (.rx todo)

/-- The next call of `process_rx`, or its return. -/
def stepCall (w : World σ) (i : Slot) : Option (World σ) :=
  match w.task i with
  | some (.rx []) => some (w.setTask i .recv)
  | some (.rx (c :: todo)) => some (w.callStep i todo c)
  | _ => none

/-- One `send` of `tn_send`. -/
def stepSend (w : World σ) (i : Slot) (r : SendResult) : Option (World σ) :=
  match w.task i with
  | some (.tnSend rest stalls acq todo) =>
    let a := tnSendStep rest stalls r
    let w' := w.setLog i { w.log i with sent := (w.log i).sent ++ a.1 }
    match a.2 with
    -- the rest of the frame is lost; the task goes on until `recv` fails
    | .shutdown => some ((w'.shutdown i).setTask i (afterSend acq todo))
    | .more rest' stalls' =>
      if rest' = [] then some (w'.setTask i (afterSend acq todo))
      else some (w'.setTask i (.tnSend rest' stalls' acq todo))
  | _ => none

/-- `comport_acquire`. -/
def stepAcquire (w : World σ) (i : Slot) : Option (World σ) :=
  match w.task i with
  | some (.acquire todo) => some { w.setTask i (.rx todo) with sink := w.sink.comportAcquire i }
  | _ => none

/-- The snapshot of `is_controller` in `tn_subneg`. -/
def stepSnapshot (w : World σ) (i : Slot) : Option (World σ) :=
  match w.task i with
  | some (.snapshot sb todo) => some (w.setTask i (.getLc (w.sink.clients i).isController sb todo))
  | _ => none

/-- `bridge_get_line_coding`. -/
def stepGetLc (src : LineSource σ ρ) (w : World σ) (i : Slot) : Option (World σ) :=
  match w.task i with
  | some (.getLc ctrl sb todo) =>
    some (w.setTask i (.apply ctrl sb (src.bridgeGetLineCoding w.bridge) todo))
  | _ => none

/-- The reply at the end of a subnegotiation that leaves `lc` in effect. -/
def replySubneg (w : World σ) (i : Slot) (sb : List UInt8) (lc : LineCoding)
    (todo : List RxCall) : World σ :=
  match subnegReply sb lc with
  | none => w.setTask i (.rx todo)
  | some frame => w.startSend i frame false todo

/-- The `bridge_apply_line_coding` the task of slot `i` is about to make, if any:
only a subnegotiation that sets something, and only for the controller. -/
def applyCall (w : World σ) (i : Slot) : Option LineCoding :=
  match w.task i with
  | some (.apply true sb lc _) => subnegRequest sb lc
  | _ => none

/-- The `switch` of `tn_subneg`: the line-coding call, if there is one, and the
reply. -/
def stepApply (src : LineSource σ ρ) (w : World σ) (i : Slot) (r : ρ) : Option (World σ) :=
  match w.task i with
  | some (.apply _ sb lc todo) =>
    match w.applyCall i with
    | none => some (w.replySubneg i sb lc todo)
    | some new =>
      -- the reply names the coding in effect: the old one if the call failed
      let a := src.bridgeApplyLineCoding w.bridge r new
      some { w.replySubneg i sb (if a.1 = .ok then new else lc) todo with bridge := a.2 }
  | _ => none

/-- The `S.mtx` section of `client_task`'s cleanup. -/
def stepCleanup (w : World σ) (i : Slot) : Option (World σ) :=
  if w.task i = some .cleanup then
    some { w with
      task := Function.update w.task i none
      -- the revert itself runs after `S.mtx` has been given back
      reverting := w.reverting + (if w.sink.wasCtrl i then 1 else 0)
      lwip := match (w.sink.closedSock i) with
        | none => w.lwip
        | some fd => w.lwip.close fd
      sink := w.sink.cleanup i }
  else none

/-- `bridge_revert_line_coding` of a task that has left its cleanup section. -/
def stepRevert (src : LineSource σ ρ) (w : World σ) (r : ρ) : Option (World σ) :=
  if w.reverting = 0 then none
  else some { w with
    reverting := w.reverting - 1
    bridge := src.bridgeRevertLineCoding w.bridge r }

/-! ## The other tasks -/

/-- `shutdown` on every active client. -/
def shutdownAll (w : World σ) : World σ :=
  { w with lwip := w.sink.activeSocks.foldl Lwip.shutdown w.lwip }

/-- `sink_tcp_drop_clients`. -/
def stepDrop (w : World σ) : Option (World σ) :=
  some { w.shutdownAll with sink := { w.sink.dropCtrl with replay := replayArm w.clock } }

/-- The fanout of one block to one slot. -/
def fanoutTo (data : List UInt8) (res : Slot → Nat → SendResult) (w : World σ) (i : Slot) :
    World σ :=
  if (w.sink.clients i).active ∧ (w.sink.clients i).sock ≠ none then
    w.sendEffect i (clientSend (w.sink.clients i).telnet data (res i))
      { w.log i with fanned := (w.log i).fanned ++ data }
  else w

/-- Some client gets the fanout. -/
def anyClient (w : World σ) : Bool :=
  (List.finRange sinkTcpMaxClients).any fun i =>
    (w.sink.clients i).active && (w.sink.clients i).sock.isSome

/-- `on_rx`. -/
def stepOnRx (w : World σ) (data : List UInt8) (res : Slot → Nat → SendResult) :
    Option (World σ) :=
  if data = [] then some w
  -- with nobody to fan out to, the replay buffer keeps the block if it is armed
  else if w.anyClient then
    some ((List.finRange sinkTcpMaxClients).foldl (fanoutTo data res) w)
  else some { w with
    sink := { w.sink with replay := replayCapture w.sink.replay w.clock data } }

/-- The source stops being ready. -/
def stepUnplug (w : World σ) : Option (World σ) :=
  if w.plug = .up then some { w with plug := .closing } else none

/-- `on_source_down`, called by `bridge_notify_source_down`. -/
def stepSourceDown (w : World σ) : Option (World σ) :=
  if w.plug = .closing then
    some { w.shutdownAll with plug := .gone, sink := w.sink.dropCtrl }
  else none

/-- The source is reopened. -/
def stepReplug (w : World σ) : Option (World σ) :=
  if w.plug = .gone then some { w with plug := .up } else none

/-! ## What a step does -/

section Cases

variable {w w' : World σ} {i : Slot}

theorem stepAccept_cases {fd : Nat} (h : w.stepAccept fd = some w') :
    w.lwip fd = none ∧ w' = { w with
      accept := .gate fd
      lwip := Function.update w.lwip fd (some ⟨w.nextConn, false⟩)
      nextConn := w.nextConn + 1 } := by
  rw [stepAccept] at h
  split at h
  · next hg =>
    cases h
    exact ⟨hg.2, rfl⟩
  · cases h

theorem stepGate_cases (h : w.stepGate = some w') : ∃ cs, w.accept = .gate cs ∧
    ((w.ready = true ∧ w' = { w with
        accept := .insert cs
        sink := { w.sink with
          stats := { w.sink.stats with totalAccepts := w.sink.stats.totalAccepts + 1 } } }) ∨
      w' = { w with accept := .accepting, lwip := w.lwip.close cs }) := by
  rw [stepGate] at h
  split at h
  · next cs hacc =>
    refine ⟨cs, hacc, ?_⟩
    split at h
    · next hready =>
      cases h
      exact Or.inl ⟨hready, rfl⟩
    · cases h
      exact Or.inr rfl
  · cases h

/-- The insertion closes the descriptor if no slot is free, and else fills the slot and
flushes the replay buffer. -/
theorem stepInsert_cases {res : Nat → SendResult} (h : w.stepInsert res = some w') :
    ∃ cs, w.accept = .insert cs ∧
      (w' = { w with accept := .accepting, lwip := w.lwip.close cs } ∨
        ∃ k, w.sink.findFreeSlot = some k ∧ ∃ flush log v,
          flush = replayFlushTo w.sink.replay w.clock res ∧
          log = { ConnLog.start (w.connOf cs) with replayed := flush.1.sent } ∧
          v = (w.inserted k cs).sendEffect k flush.1 log ∧
          w' = { v with sink := { v.sink with replay := flush.2 } }) := by
  rw [stepInsert] at h
  split at h
  · next cs hacc =>
    refine ⟨cs, hacc, ?_⟩
    split at h
    · cases h
      exact Or.inl rfl
    · next k hk =>
      cases h
      exact Or.inr ⟨k, hk, _, _, _, rfl, rfl, rfl, rfl⟩
  · cases h

theorem stepSpawn_cases {ok : Bool} (h : w.stepSpawn ok = some w') : ∃ k, w.accept = .spawn k ∧
    w' = { (if ok then w.setTask k .recv else w) with accept := .accepting } := by
  rw [stepSpawn] at h
  split at h
  · next k hacc =>
    cases h
    exact ⟨k, hacc, rfl⟩
  · cases h

theorem stepRecv_cases {chunk : List UInt8} (h : w.stepRecv i chunk = some w') :
    w.task i = some .recv ∧ chunk ≠ [] ∧ ∃ r, r = processRx (w.sink.clients i).codec chunk ∧
      w' = { (w.setTask i (.rx r.2)).setLog i
          { w.log i with received := (w.log i).received ++ chunk } with
        sink := w.sink.setClient i { w.sink.clients i with codec := r.1 } } := by
  rw [stepRecv] at h
  split at h
  · next hg =>
    cases h
    exact ⟨hg.1, hg.2.2.2, _, rfl, rfl⟩
  · cases h

theorem stepHangup_cases (h : w.stepHangup i = some w') :
    w.task i = some .recv ∧ w' = w.setTask i .cleanup := by
  rw [stepHangup] at h
  split at h
  · next ht =>
    cases h
    exact ⟨ht, rfl⟩
  · cases h

theorem stepCall_cases (h : w.stepCall i = some w') :
    (w.task i = some (.rx []) ∧ w' = w.setTask i .recv) ∨
      ∃ c todo, w.task i = some (.rx (c :: todo)) ∧ w' = w.callStep i todo c := by
  rw [stepCall] at h
  split at h
  · next ht =>
    cases h
    exact Or.inl ⟨ht, rfl⟩
  · next c todo ht =>
    cases h
    exact Or.inr ⟨c, todo, ht, rfl⟩
  · cases h

/-- One `send` moves the task to the rest of the frame or past it, and shuts the socket
down when it gives up. -/
theorem stepSend_cases {r : SendResult} (h : w.stepSend i r = some w') :
    ∃ rest stalls acq todo, w.task i = some (.tnSend rest stalls acq todo) ∧ ∃ v pc,
      v = w.setLog i { w.log i with sent := (w.log i).sent ++ (tnSendStep rest stalls r).1 } ∧
      (pc = afterSend acq todo ∨ ∃ rest' stalls', pc = .tnSend rest' stalls' acq todo) ∧
      (w' = v.setTask i pc ∨ w' = (v.shutdown i).setTask i pc) := by
  rw [stepSend] at h
  split at h
  · next rest stalls acq todo ht =>
    refine ⟨rest, stalls, acq, todo, ht, ?_⟩
    dsimp only at h
    split at h
    · cases h
      exact ⟨_, _, rfl, Or.inl rfl, Or.inr rfl⟩
    · split at h
      · cases h
        exact ⟨_, _, rfl, Or.inl rfl, Or.inl rfl⟩
      · cases h
        exact ⟨_, _, rfl, Or.inr ⟨_, _, rfl⟩, Or.inl rfl⟩
  · cases h

theorem stepAcquire_cases (h : w.stepAcquire i = some w') :
    ∃ todo, w.task i = some (.acquire todo) ∧
      w' = { w.setTask i (.rx todo) with sink := w.sink.comportAcquire i } := by
  rw [stepAcquire] at h
  split at h
  · next todo ht =>
    cases h
    exact ⟨todo, ht, rfl⟩
  · cases h

theorem stepSnapshot_cases (h : w.stepSnapshot i = some w') :
    ∃ sb todo, w.task i = some (.snapshot sb todo) ∧
      w' = w.setTask i (.getLc (w.sink.clients i).isController sb todo) := by
  rw [stepSnapshot] at h
  split at h
  · next sb todo ht =>
    cases h
    exact ⟨sb, todo, ht, rfl⟩
  · cases h

theorem stepGetLc_cases {src : LineSource σ ρ} (h : stepGetLc src w i = some w') :
    ∃ ctrl sb todo, w.task i = some (.getLc ctrl sb todo) ∧
      w' = w.setTask i (.apply ctrl sb (src.bridgeGetLineCoding w.bridge) todo) := by
  rw [stepGetLc] at h
  split at h
  · next ctrl sb todo ht =>
    cases h
    exact ⟨ctrl, sb, todo, ht, rfl⟩
  · cases h

theorem stepApply_cases {src : LineSource σ ρ} {r : ρ} (h : stepApply src w i r = some w') :
    ∃ ctrl sb lc todo, w.task i = some (.apply ctrl sb lc todo) ∧
      ((w.applyCall i = none ∧ w' = w.replySubneg i sb lc todo) ∨
        ∃ new a, w.applyCall i = some new ∧ a = src.bridgeApplyLineCoding w.bridge r new ∧
          w' = { w.replySubneg i sb (if a.1 = .ok then new else lc) todo with bridge := a.2 }) := by
  rw [stepApply] at h
  split at h
  · next ctrl sb lc todo ht =>
    refine ⟨ctrl, sb, lc, todo, ht, ?_⟩
    split at h
    · next hcall =>
      cases h
      exact Or.inl ⟨hcall, rfl⟩
    · next new hcall =>
      cases h
      exact Or.inr ⟨new, _, hcall, rfl, rfl⟩
  · cases h

theorem stepCleanup_cases (h : w.stepCleanup i = some w') : w.task i = some .cleanup ∧
    w' = { w with
      task := Function.update w.task i none
      reverting := w.reverting + (if w.sink.wasCtrl i then 1 else 0)
      lwip := match (w.sink.closedSock i) with
        | none => w.lwip
        | some fd => w.lwip.close fd
      sink := w.sink.cleanup i } := by
  rw [stepCleanup] at h
  split at h
  · next ht =>
    cases h
    exact ⟨ht, rfl⟩
  · cases h

theorem stepRevert_cases {src : LineSource σ ρ} {r : ρ} (h : stepRevert src w r = some w') :
    0 < w.reverting ∧ w' = { w with
      reverting := w.reverting - 1
      bridge := src.bridgeRevertLineCoding w.bridge r } := by
  rw [stepRevert] at h
  split at h
  · cases h
  · next hpos =>
    cases h
    exact ⟨Nat.pos_of_ne_zero hpos, rfl⟩

theorem stepOnRx_cases {data : List UInt8} {res : Slot → Nat → SendResult}
    (h : w.stepOnRx data res = some w') : w' = w ∨
      w' = (List.finRange sinkTcpMaxClients).foldl (fanoutTo data res) w ∨
      w' = { w with
        sink := { w.sink with replay := replayCapture w.sink.replay w.clock data } } := by
  rw [stepOnRx] at h
  split at h
  · cases h
    exact Or.inl rfl
  · split at h
    · cases h
      exact Or.inr (Or.inl rfl)
    · cases h
      exact Or.inr (Or.inr rfl)

theorem stepUnplug_cases (h : w.stepUnplug = some w') :
    w.plug = .up ∧ w' = { w with plug := .closing } := by
  rw [stepUnplug] at h
  split at h
  · next hp =>
    cases h
    exact ⟨hp, rfl⟩
  · cases h

theorem stepSourceDown_cases (h : w.stepSourceDown = some w') :
    w.plug = .closing ∧ w' = { w.shutdownAll with plug := .gone, sink := w.sink.dropCtrl } := by
  rw [stepSourceDown] at h
  split at h
  · next hp =>
    cases h
    exact ⟨hp, rfl⟩
  · cases h

theorem stepReplug_cases (h : w.stepReplug = some w') :
    w.plug = .gone ∧ w' = { w with plug := .up } := by
  rw [stepReplug] at h
  split at h
  · next hp =>
    cases h
    exact ⟨hp, rfl⟩
  · cases h

end Cases

end World

/-! ## The machine -/

/-- The steps of the system. `r : ρ` is what the drivers of the source answer to
a line-coding call. -/
inductive Label (ρ : Type v) where
  | accept (fd : Nat)
  | gate
  | insert (res : Nat → SendResult)
  | spawn (ok : Bool)
  | recv (i : Slot) (chunk : List UInt8)
  | hangup (i : Slot)
  | call (i : Slot)
  | send (i : Slot) (r : SendResult)
  | acquire (i : Slot)
  | snapshot (i : Slot)
  | getLc (i : Slot)
  | apply (i : Slot) (r : ρ)
  | cleanup (i : Slot)
  | revert (r : ρ)
  | drop
  | onRx (data : List UInt8) (res : Slot → Nat → SendResult)
  | unplug
  | sourceDown
  | replug
  | tick (us : Nat)

/-- The system of sink tasks over a line-coding source. -/
def sinkSystem {σ : Type u} {ρ : Type v} (src : LineSource σ ρ) :
    Machine (World σ) (Label ρ) where
  step w
    | .accept fd => w.stepAccept fd
    | .gate => w.stepGate
    | .insert res => w.stepInsert res
    | .spawn ok => w.stepSpawn ok
    | .recv i chunk => w.stepRecv i chunk
    | .hangup i => w.stepHangup i
    | .call i => w.stepCall i
    | .send i r => w.stepSend i r
    | .acquire i => w.stepAcquire i
    | .snapshot i => w.stepSnapshot i
    | .getLc i => World.stepGetLc src w i
    | .apply i r => World.stepApply src w i r
    | .cleanup i => w.stepCleanup i
    | .revert r => World.stepRevert src w r
    | .drop => w.stepDrop
    | .onRx data res => w.stepOnRx data res
    | .unplug => w.stepUnplug
    | .sourceDown => w.stepSourceDown
    | .replug => w.stepReplug
    | .tick us => some { w with clock := w.clock + us }

end Cdc2Net.SinkTcp
