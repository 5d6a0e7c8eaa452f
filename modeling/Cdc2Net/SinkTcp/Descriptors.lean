import Cdc2Net.Lib.Handle
import Cdc2Net.SinkTcp.SlotInvariant
import Cdc2Net.SinkTcp.Escape
import Mathlib.Data.Finset.Card
import Mathlib.Data.Fintype.Card

/-!
# Descriptors and slots

lwIP recycles descriptor numbers: a number closed by one task may be the next one
`accept` returns. Connections are numbered here in the order they are accepted, and
every socket call of the sink is recorded together with the connection it is meant
for (`World.events`). The record is a legal history of recycled handles
(`HistInv.legal`), so every `send`, `recv` and `shutdown` is made on the descriptor of
the connection that was accepted into the slot, and no connection is closed twice
(`descriptor_safety`).
-/

set_option autoImplicit false

namespace Cdc2Net.SinkTcp

open Cdc2Net.SinkTcp.Telnet
open Cdc2Net.Source
open Cdc2Net.Lib
open Cdc2Net.Lib.Transition

universe u v

variable {σ : Type u} {ρ : Type v} {src : LineSource σ ρ} {w w' w'' : World σ} {i j : Slot}
  {l : Label ρ}

/-! ## The record of socket calls -/

/-- A call on an open socket. -/
inductive SockCall where
  | send
  | recv
  | shutdown
  deriving DecidableEq, Repr

/-- What the tasks do to descriptors, -1 as `none`: `accept` returns one, `accept_task`
turns the connection away or puts it into a slot, a slot's socket is used or closed. -/
inductive SockEvent where
  | accepted (fd conn : Nat)
  | rejected (conn : Nat)
  | placed (i : Slot) (conn : Nat)
  | call (c : SockCall) (i : Slot) (sock : Option Nat) (conn : Nat)
  | closed (sock : Option Nat) (conn : Nat)
  deriving DecidableEq, Repr

/-- The event of the descriptor table. -/
def SockEvent.handle : SockEvent → Option (Handle.Event (Option Nat))
  | .accepted fd conn => some (.opened (some fd) conn)
  | .call _ _ sock conn => some (.used sock conn)
  | .closed sock conn => some (.closed sock conn)
  | _ => none

/-- The connection put last into slot `i`. -/
def lastPlaced (i : Slot) (hist : List SockEvent) : Option Nat :=
  hist.foldl (fun p e => match e with
    | .placed j conn => if j = i then some conn else p
    | _ => p) none

/-- The calls of `client_send`: one `send` per buffer up to the first that fails, and a
`shutdown` after a hard error. -/
def clientSendCalls (call : SockCall → SockEvent) (telnet : Bool) (data : List UInt8)
    (res : Nat → SendResult) : List SockEvent :=
  (sendTrace res 0 (if telnet then escBlocks [] data else [data])).map (fun _ => call .send) ++
    if (clientSend telnet data res).shutdown then [call .shutdown] else []

/-- The calls of `replay_flush_to`. -/
def replayFlushCalls (call : SockCall → SockEvent) (r : Replay) (now : Nat)
    (res : Nat → SendResult) : List SockEvent :=
  if r.untilUs = 0 ∨ r.buf = [] then []
  else if now ≤ r.untilUs then clientSendCalls call false r.buf res
  else []

namespace World

/-- A call on the socket of slot `i`, meant for the connection accepted into it. -/
def slotCall (w : World σ) (i : Slot) (c : SockCall) : SockEvent :=
  .call c i (w.sink.clients i).sock (w.log i).conn

/-- A call is made only for an active client with a socket. -/
def guarded (w : World σ) (i : Slot) (es : List SockEvent) : List SockEvent :=
  if (w.sink.clients i).active ∧ (w.sink.clients i).sock ≠ none then es else []

/-- The connection `accept_task` is working on, the last one accepted. -/
def incoming (w : World σ) : Nat := w.nextConn - 1

/-- The socket calls of a step, in order. -/
def events (w : World σ) : Label ρ → List SockEvent
  | .accept fd => [.accepted fd w.nextConn]
  | .gate =>
    match w.accept with
    | .gate cs => if w.ready then [] else [.rejected w.incoming, .closed (some cs) w.incoming]
    | _ => []
  | .insert res =>
    match w.accept with
    | .insert cs =>
      match w.sink.findFreeSlot with
      | none => [.rejected w.incoming, .closed (some cs) w.incoming]
      | some i => .placed i w.incoming ::
          replayFlushCalls (fun c => .call c i (some cs) w.incoming) w.sink.replay w.clock res
    | _ => []
  | .recv i _ => [w.slotCall i .recv]
  | .hangup i => w.guarded i [w.slotCall i .recv]
  | .send i r =>
    match w.task i with
    -- `tn_send` does not look at `sock` again
    | some (.tnSend rest stalls _ _) => w.slotCall i .send ::
        if (tnSendStep rest stalls r).2 = .shutdown then [w.slotCall i .shutdown] else []
    | _ => []
  | .cleanup i =>
    w.guarded i [w.slotCall i .shutdown, .closed (w.sink.clients i).sock (w.log i).conn]
  | .drop => (List.finRange sinkTcpMaxClients).flatMap fun i =>
      w.guarded i [w.slotCall i .shutdown]
  | .onRx data res =>
    if data = [] then []
    else (List.finRange sinkTcpMaxClients).flatMap fun i =>
      w.guarded i (clientSendCalls (w.slotCall i) (w.sink.clients i).telnet data (res i))
  | .sourceDown => (List.finRange sinkTcpMaxClients).flatMap fun i =>
      w.guarded i [w.slotCall i .shutdown]
  | _ => []

/-- The connections the open descriptors belong to. -/
def handles (w : World σ) : Handle.Table (Option Nat) :=
  ⟨fun sock => sock.bind fun fd => (w.lwip fd).map Sock.conn, w.nextConn⟩

/-- The active slots. -/
def activeSlots (w : World σ) : Finset Slot :=
  Finset.univ.filter fun i => (w.sink.clients i).active = true

@[simp] theorem mem_activeSlots : i ∈ w.activeSlots ↔ (w.sink.clients i).active = true := by
  simp [activeSlots]

end World

/-! ## Steps that move no descriptor -/

/-- `accept_task` has the descriptor in hand. -/
def AcceptPc.Holds (a : AcceptPc) (fd : Nat) : Prop := a = .gate fd ∨ a = .insert fd

/-- Slots, connections, descriptors and the client count agree. -/
structure SameConns (w w' : World σ) : Prop where
  sock : ∀ j, (w'.sink.clients j).sock = (w.sink.clients j).sock
  active : ∀ j, (w'.sink.clients j).active = (w.sink.clients j).active
  conn : ∀ j, (w'.log j).conn = (w.log j).conn
  names : ∀ fd, (w'.lwip fd).map Sock.conn = (w.lwip fd).map Sock.conn
  next : w'.nextConn = w.nextConn
  count : w'.sink.stats.activeClients = w.sink.stats.activeClients
  holds : ∀ fd, w'.accept.Holds fd ↔ w.accept.Holds fd

namespace SameConns

theorem refl (w : World σ) : SameConns w w :=
  ⟨fun _ => rfl, fun _ => rfl, fun _ => rfl, fun _ => rfl, rfl, rfl, fun _ => Iff.rfl⟩

theorem trans (h : SameConns w w') (h' : SameConns w' w'') : SameConns w w'' where
  sock j := (h'.sock j).trans (h.sock j)
  active j := (h'.active j).trans (h.active j)
  conn j := (h'.conn j).trans (h.conn j)
  names fd := (h'.names fd).trans (h.names fd)
  next := h'.next.trans h.next
  count := h'.count.trans h.count
  holds fd := (h'.holds fd).trans (h.holds fd)

theorem of_eq (hsink : w'.sink = w.sink) (hlog : w'.log = w.log) (hlwip : w'.lwip = w.lwip)
    (hnext : w'.nextConn = w.nextConn) (haccept : w'.accept = w.accept) : SameConns w w' :=
  ⟨fun _ => by rw [hsink], fun _ => by rw [hsink], fun _ => by rw [hlog], fun _ => by rw [hlwip],
    hnext, by rw [hsink], fun _ => by rw [haccept]⟩

theorem setTask (w : World σ) (i : Slot) (pc : ClientPc) : SameConns w (w.setTask i pc) :=
  of_eq rfl rfl rfl rfl rfl

theorem setLog (w : World σ) {i : Slot} {log : ConnLog} (h : log.conn = (w.log i).conn) :
    SameConns w (w.setLog i log) := by
  refine ⟨fun _ => rfl, fun _ => rfl, fun j => ?_, fun _ => rfl, rfl, rfl, fun _ => Iff.rfl⟩
  rcases eq_or_ne j i with rfl | hj
  · simp [World.setLog, h]
  · simp [World.setLog, hj]

/-- Another sink with the same slots and count. -/
theorem setSink (w : World σ) {s : Sink}
    (hs : ∀ j, (s.clients j).sock = (w.sink.clients j).sock ∧
      (s.clients j).active = (w.sink.clients j).active)
    (hcount : s.stats.activeClients = w.sink.stats.activeClients) :
    SameConns w { w with sink := s } :=
  ⟨fun j => (hs j).1, fun j => (hs j).2, fun _ => rfl, fun _ => rfl, rfl, hcount,
    fun _ => Iff.rfl⟩

theorem setClient (w : World σ) {i : Slot} {c : TcpClient}
    (hsock : c.sock = (w.sink.clients i).sock) (hactive : c.active = (w.sink.clients i).active) :
    SameConns w { w with sink := w.sink.setClient i c } := by
  refine setSink w (fun j => ?_) rfl
  rcases eq_or_ne j i with rfl | hj
  · simp [hsock, hactive]
  · simp [hj]

end SameConns

/-- Shutting a descriptor down leaves the connection it belongs to. -/
@[simp] theorem Lwip.shutdown_conn (n : Lwip) (fd fd' : Nat) :
    (n.shutdown fd fd').map Sock.conn = (n fd').map Sock.conn := by
  rcases eq_or_ne fd' fd with rfl | h
  · simp only [Lwip.shutdown, Function.update_self, Option.map_map]
    rfl
  · simp [Lwip.shutdown, h]

theorem Lwip.foldl_shutdown_conn (fd : Nat) : ∀ (fds : List Nat) (n : Lwip),
    (fds.foldl Lwip.shutdown n fd).map Sock.conn = (n fd).map Sock.conn
  | [], _ => rfl
  | fd' :: fds, n => by
    rw [List.foldl_cons, Lwip.foldl_shutdown_conn fd fds, Lwip.shutdown_conn]

namespace SameConns

theorem shutdown (w : World σ) (i : Slot) : SameConns w (w.shutdown i) := by
  rw [World.shutdown]
  split
  · exact refl w
  · exact ⟨fun _ => rfl, fun _ => rfl, fun _ => rfl, fun fd => by simp, rfl, rfl,
      fun _ => Iff.rfl⟩

theorem shutdownAll (w : World σ) : SameConns w w.shutdownAll :=
  ⟨fun _ => rfl, fun _ => rfl, fun _ => rfl, fun fd => Lwip.foldl_shutdown_conn fd _ _, rfl, rfl,
    fun _ => Iff.rfl⟩

theorem startSend (w : World σ) (i : Slot) (frame : List UInt8) (acq : Bool)
    (todo : List RxCall) : SameConns w (w.startSend i frame acq todo) := by
  have hlog : SameConns w
      (w.setLog i { w.log i with control := (w.log i).control ++ [frame] }) := setLog w rfl
  simp only [World.startSend]
  split
  · exact hlog.trans (setTask _ i _)
  · exact hlog.trans (setTask _ i _)

theorem replySubneg (w : World σ) (i : Slot) (sb : List UInt8) (lc : LineCoding)
    (todo : List RxCall) : SameConns w (w.replySubneg i sb lc todo) := by
  rw [World.replySubneg]
  split
  · exact setTask w i _
  · exact startSend w i _ _ _

theorem callStep (w : World σ) (i : Slot) (todo : List RxCall) (c : RxCall) :
    SameConns w (w.callStep i todo c) := by
  cases c with
  | toSource data =>
    have hlog : SameConns (w.setTask i (.rx todo)) ((w.setTask i (.rx todo)).setLog i
        { w.log i with toSource := (w.log i).toSource ++ data }) := setLog _ rfl
    exact ((setTask w i _).trans hlog).trans (setSink _ (fun _ => ⟨rfl, rfl⟩) rfl)
  | tnCommit => exact (setTask w i (.rx todo)).trans (setClient _ rfl rfl)
  | tnNegotiate cmd opt =>
    cases hneg : negotiateReply cmd opt with
    | none =>
      simp only [World.callStep, hneg]
      exact setTask w i _
    | some r =>
      simp only [World.callStep, hneg]
      exact startSend w i _ _ _
  | tnSubneg sb =>
    by_cases hopt : sb.head? = some toptComport
    · simp only [World.callStep, if_pos hopt]
      exact setTask w i _
    · simp only [World.callStep, if_neg hopt]
      exact setTask w i _

theorem stepSend {r : SendResult} (h : w.stepSend i r = some w') : SameConns w w' := by
  obtain ⟨rest, stalls, acq, todo, -, v, pc, rfl, -, hv⟩ := World.stepSend_cases h
  have hlog : SameConns w
      (w.setLog i { w.log i with sent := (w.log i).sent ++ (tnSendStep rest stalls r).1 }) :=
    setLog w rfl
  rcases hv with rfl | rfl
  · exact hlog.trans (setTask _ i _)
  · exact (hlog.trans (shutdown _ i)).trans (setTask _ i _)

theorem stepApply {r : ρ} (h : World.stepApply src w i r = some w') : SameConns w w' := by
  obtain ⟨ctrl, sb, lc, todo, -, ⟨-, rfl⟩ | ⟨new, a, -, -, rfl⟩⟩ := World.stepApply_cases h
  · exact replySubneg w i _ _ _
  · exact (replySubneg w i _ _ _).trans (of_eq rfl rfl rfl rfl rfl)

theorem stepAcquire (h : w.stepAcquire i = some w') : SameConns w w' := by
  obtain ⟨todo, -, rfl⟩ := World.stepAcquire_cases h
  refine (setTask w i (.rx todo)).trans (setSink _ (w.sink.comportAcquire_slot i) ?_)
  rw [Sink.comportAcquire]
  split <;> rfl

/-- A `client_send` leaves what only the new log entry could change. -/
theorem sendEffect (w : World σ) (i : Slot) (e : SendEffect) (log : ConnLog) :
    SameConns (w.setLog i log) (w.sendEffect i e log) := by
  have hsent : ∀ v : World σ, SameConns (v.setLog i log)
      (v.setLog i { log with sent := log.sent ++ e.sent }) := fun v =>
    ⟨fun _ => rfl, fun _ => rfl, fun j => by
      rcases eq_or_ne j i with rfl | hj
      · simp [World.setLog]
      · simp [World.setLog, hj], fun _ => rfl, rfl, rfl, fun _ => Iff.rfl⟩
  have hshut := shutdown w i
  rw [World.sendEffect]
  cases e.shutdown with
  | false => exact (hsent w).trans (setSink _ (fun _ => ⟨rfl, rfl⟩) rfl)
  | true =>
    have hlog : SameConns (w.setLog i log) ((w.shutdown i).setLog i log) :=
      ⟨hshut.sock, hshut.active, fun j => by simp [World.setLog], hshut.names, hshut.next,
        hshut.count, hshut.holds⟩
    exact (hlog.trans (hsent _)).trans ⟨fun j => (hshut.sock j).symm,
      fun j => (hshut.active j).symm, fun _ => rfl, fun _ => rfl, rfl, hshut.count.symm,
      fun _ => Iff.rfl⟩

theorem fanoutTo (data : List UInt8) (res : Slot → Nat → SendResult) (w : World σ) (i : Slot) :
    SameConns w (World.fanoutTo data res w i) := by
  rw [World.fanoutTo]
  split
  · have hlog : SameConns w (w.setLog i { w.log i with fanned := (w.log i).fanned ++ data }) :=
      setLog w rfl
    exact hlog.trans (sendEffect w i _ _)
  · exact refl w

theorem foldl_fanoutTo (data : List UInt8) (res : Slot → Nat → SendResult) :
    ∀ (is : List Slot) (w : World σ), SameConns w (is.foldl (World.fanoutTo data res) w)
  | [], w => refl w
  | i :: is, w => (fanoutTo data res w i).trans (foldl_fanoutTo data res is _)

theorem stepOnRx {data : List UInt8} {res : Slot → Nat → SendResult}
    (h : w.stepOnRx data res = some w') : SameConns w w' := by
  rcases World.stepOnRx_cases h with rfl | rfl | rfl
  · exact refl w'
  · exact foldl_fanoutTo data res _ w
  · exact setSink w (fun _ => ⟨rfl, rfl⟩) rfl

theorem stepSpawn {ok : Bool} (h : w.stepSpawn ok = some w') : SameConns w w' := by
  obtain ⟨k, hacc, rfl⟩ := World.stepSpawn_cases h
  refine ⟨fun j => ?_, fun j => ?_, fun j => ?_, fun fd => ?_, ?_, ?_, fun fd => ?_⟩
  · cases ok <;> rfl
  · cases ok <;> rfl
  · cases ok <;> rfl
  · cases ok <;> rfl
  · cases ok <;> rfl
  · cases ok <;> rfl
  · simp [AcceptPc.Holds, hacc]

end SameConns

/-- The steps that open or close a descriptor or put one into a slot. -/
def Label.MovesConn : Label ρ → Prop
  | .accept _ => True
  | .gate => True
  | .insert _ => True
  | .cleanup _ => True
  | _ => False

/-- Every other step leaves the connections. -/
theorem step_sameConns (hw : (sinkSystem src).step w l = some w') (hl : ¬ l.MovesConn) :
    SameConns w w' := by
  cases l with
  | accept fd => exact absurd trivial hl
  | gate => exact absurd trivial hl
  | insert res => exact absurd trivial hl
  | spawn ok => exact .stepSpawn hw
  | recv i chunk =>
    obtain ⟨-, -, r, -, rfl⟩ := World.stepRecv_cases hw
    have hlog : SameConns (w.setTask i (.rx r.2)) ((w.setTask i (.rx r.2)).setLog i
        { w.log i with received := (w.log i).received ++ chunk }) := .setLog _ rfl
    exact ((SameConns.setTask w i _).trans hlog).trans (.setClient _ rfl rfl)
  | hangup i =>
    obtain ⟨-, rfl⟩ := World.stepHangup_cases hw
    exact .setTask w i _
  | call i =>
    rcases World.stepCall_cases hw with ⟨-, rfl⟩ | ⟨c, todo, -, rfl⟩
    · exact .setTask w i _
    · exact .callStep w i _ _
  | send i r => exact .stepSend hw
  | acquire i => exact .stepAcquire hw
  | snapshot i =>
    obtain ⟨sb, todo, -, rfl⟩ := World.stepSnapshot_cases hw
    exact .setTask w i _
  | getLc i =>
    obtain ⟨ctrl, sb, todo, -, rfl⟩ := World.stepGetLc_cases hw
    exact .setTask w i _
  | apply i r => exact .stepApply hw
  | cleanup i => exact absurd trivial hl
  | revert r =>
    obtain ⟨-, rfl⟩ := World.stepRevert_cases hw
    exact .of_eq rfl rfl rfl rfl rfl
  | drop =>
    cases hw
    exact (SameConns.shutdownAll w).trans (.setSink _ (fun _ => ⟨rfl, rfl⟩) rfl)
  | onRx data res => exact .stepOnRx hw
  | unplug =>
    obtain ⟨-, rfl⟩ := World.stepUnplug_cases hw
    exact .of_eq rfl rfl rfl rfl rfl
  | sourceDown =>
    obtain ⟨-, rfl⟩ := World.stepSourceDown_cases hw
    refine (SameConns.shutdownAll w).trans ?_
    exact ⟨fun _ => rfl, fun _ => rfl, fun _ => rfl, fun _ => rfl, rfl, rfl, fun _ => Iff.rfl⟩
  | replug =>
    obtain ⟨-, rfl⟩ := World.stepReplug_cases hw
    exact .of_eq rfl rfl rfl rfl rfl
  | tick us =>
    cases hw
    exact .of_eq rfl rfl rfl rfl rfl

/-- A connection stays in its slot as long as the slot is active. -/
theorem step_conn (hw : (sinkSystem src).step w l = some w')
    (hact : (w.sink.clients i).active = true) : (w'.log i).conn = (w.log i).conn := by
  by_cases hl : l.MovesConn
  · cases l with
    | accept fd =>
      obtain ⟨-, rfl⟩ := World.stepAccept_cases hw
      rfl
    | gate =>
      obtain ⟨cs, -, ⟨-, rfl⟩ | rfl⟩ := World.stepGate_cases hw
      · rfl
      · rfl
    | insert res =>
      obtain ⟨cs, -, rfl | ⟨k, hk, flush, log, v, -, rfl, rfl, rfl⟩⟩ := World.stepInsert_cases hw
      · rfl
      · have hik : i ≠ k := by
          rintro rfl
          rw [Sink.findFreeSlot_some hk] at hact
          cases hact
        have hsame := (SameConns.sendEffect (w.inserted k cs) k flush.1
          { ConnLog.start (w.connOf cs) with replayed := flush.1.sent }).conn i
        exact hsame.trans (by simp [World.setLog, World.inserted, hik])
    | cleanup j =>
      obtain ⟨-, rfl⟩ := World.stepCleanup_cases hw
      rfl
    | _ => exact hl.elim
  · exact (step_sameConns hw hl).conn i

/-- Only its cleanup section frees a slot. -/
theorem step_active (hw : (sinkSystem src).step w l = some w')
    (hact : (w.sink.clients i).active = true) (hl : l ≠ .cleanup i) :
    (w'.sink.clients i).active = true := by
  by_cases hmove : l.MovesConn
  · cases l with
    | accept fd =>
      obtain ⟨-, rfl⟩ := World.stepAccept_cases hw
      exact hact
    | gate =>
      obtain ⟨cs, -, ⟨-, rfl⟩ | rfl⟩ := World.stepGate_cases hw
      · exact hact
      · exact hact
    | insert res =>
      obtain ⟨cs, -, rfl | ⟨k, hk, flush, log, v, -, rfl, rfl, rfl⟩⟩ := World.stepInsert_cases hw
      · exact hact
      · have hik : i ≠ k := by
          rintro rfl
          rw [Sink.findFreeSlot_some hk] at hact
          cases hact
        simpa [World.sendEffect, World.inserted, Sink.acceptInsert, hik] using hact
    | cleanup j =>
      obtain ⟨-, rfl⟩ := World.stepCleanup_cases hw
      have hij : i ≠ j := by
        rintro rfl
        exact hl rfl
      rw [Sink.cleanup_other w.sink hij]
      exact hact
    | _ => exact hmove.elim
  · rw [(step_sameConns hw hmove).active]
    exact hact

/-! ## Connections and slots -/

/-- What holds of descriptors and connections in every reachable state. -/
structure ConnInv (w : World σ) : Prop where
  conn : ∀ i fd, (w.sink.clients i).sock = some fd →
    (w.lwip fd).map Sock.conn = some (w.log i).conn
  incoming : ∀ fd, w.accept.Holds fd → (w.lwip fd).map Sock.conn = some w.incoming
  count : w.sink.stats.activeClients = (w.activeSlots.card : ℤ)

namespace ConnInv

theorem start (plug : PlugState) (bridge : Option σ) : ConnInv (World.start plug bridge) where
  conn i fd h := by cases h
  incoming fd h := by rcases h with h | h <;> cases h
  count := by simp [World.start, World.activeSlots, sinkTcpInit, TcpClient.idle]

variable (h : ConnInv w)
include h

theorem of_same (hs : SameConns w w') : ConnInv w' where
  conn i fd hi := by
    rw [hs.names, hs.conn]
    exact h.conn i fd (hs.sock i ▸ hi)
  incoming fd hfd := by
    rw [hs.names, World.incoming, hs.next]
    exact h.incoming fd ((hs.holds fd).1 hfd)
  count := by
    rw [hs.count, h.count]
    simp only [World.activeSlots, hs.active]

theorem accept_step {fd : Nat} (hslots : SlotInv w) (hw : w.stepAccept fd = some w') :
    ConnInv w' := by
  obtain ⟨hfd, rfl⟩ := World.stepAccept_cases hw
  refine ⟨fun i fd' hi => ?_, fun fd' hfd' => ?_, h.count⟩
  · have hne : fd' ≠ fd := by
      rintro rfl
      exact hslots.isOpen i _ hi hfd
    simpa [hne] using h.conn i fd' hi
  · rcases hfd' with hfd' | hfd'
    · obtain rfl : fd = fd' := by simpa using hfd'
      simp [World.incoming]
    · cases hfd'

/-- Closing the descriptor `accept_task` is working on. -/
theorem close_incoming {cs : Nat} (hslots : SlotInv w)
    (hcs : w.accept = .gate cs ∨ w.accept = .insert cs) :
    ConnInv { w with accept := .accepting, lwip := w.lwip.close cs } := by
  obtain ⟨-, hfree⟩ := hslots.incoming cs hcs
  refine ⟨fun i fd hi => ?_, fun fd hfd => ?_, h.count⟩
  · have hne : fd ≠ cs := by
      rintro rfl
      exact hfree i hi
    simpa [Lwip.close, hne] using h.conn i fd hi
  · rcases hfd with hfd | hfd <;> cases hfd

/-- The state right after a slot has been filled. -/
theorem placed {cs : Nat} {log : ConnLog} (hacc : w.accept = .insert cs)
    (hfree : (w.sink.clients i).active = false) (hlog : log.conn = w.connOf cs) :
    ConnInv ((w.inserted i cs).setLog i log) := by
  have hcs := h.incoming cs (.inr hacc)
  refine ⟨fun j fd hj => ?_, fun fd hfd => ?_, ?_⟩
  · rcases eq_or_ne j i with rfl | hji
    · obtain rfl : cs = fd := by
        simpa [World.setLog, World.inserted, Sink.acceptInsert] using hj
      simp [World.setLog, World.inserted, hlog, World.connOf, hcs]
    · have hold : (w.sink.clients j).sock = some fd := by
        simpa [World.setLog, World.inserted, Sink.acceptInsert, hji] using hj
      simpa [World.setLog, World.inserted, hji] using h.conn j fd hold
  · rcases hfd with hfd | hfd <;> cases hfd
  · -- the slot was free and is active now
    have hslots : ((w.inserted i cs).setLog i log).activeSlots = insert i w.activeSlots := by
      ext j
      rcases eq_or_ne j i with rfl | hji
      · rw [World.mem_activeSlots]
        simp [World.setLog, World.inserted, Sink.acceptInsert]
      · rw [World.mem_activeSlots, Finset.mem_insert, World.mem_activeSlots]
        simp [World.setLog, World.inserted, Sink.acceptInsert, hji]
    have hnew : i ∉ w.activeSlots := by simp [hfree]
    rw [hslots, Finset.card_insert_of_notMem hnew]
    have hcount := h.count
    simp only [World.setLog, World.inserted, Sink.acceptInsert]
    omega

theorem cleanup_step (hslots : SlotInv w) (hw : w.stepCleanup i = some w') : ConnInv w' := by
  obtain ⟨ht, rfl⟩ := World.stepCleanup_cases hw
  have hact : (w.sink.clients i).active = true := hslots.live i (by rw [ht]; simp)
  obtain ⟨fd, hfd⟩ := Option.ne_none_iff_exists'.1 ((hslots.active i).1 hact)
  have hclosed : w.sink.closedSock i = some fd := by simp [Sink.closedSock, hact, hfd]
  have hother : ∀ j, j ≠ i → (w.sink.cleanup i).clients j = w.sink.clients j :=
    fun j hj => Sink.cleanup_other w.sink hj
  rw [hclosed]
  refine ⟨fun j fd' hj => ?_, fun fd' hfd' => ?_, ?_⟩
  · rcases eq_or_ne j i with rfl | hji
    · rw [show ((w.sink.cleanup j).clients j).sock = none from Sink.cleanup_sock _ hact] at hj
      cases hj
    · have hold : (w.sink.clients j).sock = some fd' := by rw [← hother j hji]; exact hj
      have hne : fd' ≠ fd := by
        rintro rfl
        exact hji (hslots.distinct j i _ hold hfd)
      simpa [Lwip.close, hne] using h.conn j fd' hold
  · have hne : fd' ≠ fd := by
      rintro rfl
      exact (hslots.incoming _ hfd').2 i hfd
    simpa [Lwip.close, hne, World.incoming] using h.incoming fd' hfd'
  · -- the slot was active and is free now
    have hact' : ((w.sink.releaseCtrl i).clients i).active = true := by
      rw [(Sink.releaseCtrl_slot w.sink i i).1, hact]
    have hcount : (w.sink.cleanup i).stats.activeClients = w.sink.stats.activeClients - 1 := by
      rw [Sink.cleanup, Sink.closeClient, if_pos hact', Sink.releaseCtrl]
      split <;> rfl
    have hrest : w.activeSlots = insert i (Finset.univ.filter
        fun j => ((w.sink.cleanup i).clients j).active = true) := by
      ext j
      rcases eq_or_ne j i with rfl | hji
      · simp [hact]
      · simp [hother j hji, hji]
    have hgone : i ∉ Finset.univ.filter
        fun j => ((w.sink.cleanup i).clients j).active = true := by
      simp [Sink.cleanup_inactive]
    have hcard := h.count
    rw [hrest, Finset.card_insert_of_notMem hgone] at hcard
    simp only [World.activeSlots, hcount]
    push_cast at hcard
    omega

end ConnInv

/-! ## The record of a run -/

/-- The connections whose descriptor has been closed. -/
def closedConns (hist : List SockEvent) : List Nat :=
  Handle.closes (hist.filterMap SockEvent.handle)

/-- Every call is meant for the connection put last into its slot. -/
def Aimed (hist : List SockEvent) : Prop :=
  ∀ before c i sock conn after, hist = before ++ .call c i sock conn :: after →
    lastPlaced i before = some conn

theorem closedConns_append (hist es : List SockEvent) :
    closedConns (hist ++ es) = closedConns hist ++ closedConns es := by
  simp [closedConns, Handle.closes, List.filterMap_append]

/-- Only an insertion changes what was put last into a slot. -/
theorem lastPlaced_append {hist es : List SockEvent} (h : ∀ conn, .placed i conn ∉ es) :
    lastPlaced i (hist ++ es) = lastPlaced i hist := by
  rw [lastPlaced, List.foldl_append]
  induction es generalizing hist with
  | nil => rfl
  | cons e es ih =>
    have hrest := @ih hist fun conn hmem => h conn (List.mem_cons_of_mem e hmem)
    rw [List.foldl_cons]
    cases e with
    | placed k conn =>
      have hki : k ≠ i := by
        rintro rfl
        exact h conn List.mem_cons_self
      simpa only [if_neg hki] using hrest
    | accepted fd conn => exact hrest
    | rejected conn => exact hrest
    | call c k sock conn => exact hrest
    | closed sock conn => exact hrest

theorem lastPlaced_placed (hist : List SockEvent) (i : Slot) (conn : Nat) :
    lastPlaced i (hist ++ [SockEvent.placed i conn]) = some conn := by
  simp [lastPlaced, List.foldl_append]

theorem Aimed.append {hist es : List SockEvent} (h : Aimed hist)
    (hes : ∀ before c i sock conn after, es = before ++ SockEvent.call c i sock conn :: after →
      lastPlaced i (hist ++ before) = some conn) : Aimed (hist ++ es) := by
  intro before c i sock conn after heq
  rcases List.append_eq_append_iff.1 heq with ⟨mid, rfl, hmid⟩ | ⟨mid, rfl, hmid⟩
  · exact hes mid c i sock conn after hmid
  · -- the call is the first event of `es`, or lies in `hist`
    cases mid with
    | nil => simpa using hes [] c i sock conn after hmid.symm
    | cons e mid =>
      obtain ⟨rfl, -⟩ := List.cons.inj hmid
      exact h before c i sock conn mid rfl

/-- Events without a call keep the aim. -/
theorem Aimed.append_of_no_call {hist es : List SockEvent} (h : Aimed hist)
    (hes : ∀ e ∈ es, ∀ c i sock conn, e ≠ .call c i sock conn) : Aimed (hist ++ es) :=
  h.append fun before c i sock conn after heq =>
    absurd rfl (hes _ (by rw [heq]; simp) c i sock conn)

/-- The record of a run up to a state. -/
structure HistInv (w : World σ) (hist : List SockEvent) : Prop where
  slots : SlotInv w
  conns : ConnInv w
  legal : Handle.Table.empty.run (hist.filterMap SockEvent.handle) = some w.handles
  placed : ∀ i, (w.sink.clients i).active = true → lastPlaced i hist = some (w.log i).conn
  aimed : Aimed hist
  rejected : ∀ conn, .rejected conn ∈ hist → conn ∈ closedConns hist
  owned : ∀ i conn, .placed i conn ∈ hist →
    conn ∈ closedConns hist ∨ ((w.sink.clients i).active = true ∧ (w.log i).conn = conn)

/-- Closing a descriptor in the table of connections. -/
theorem World.handles_close {fd : Nat} (hlwip : w'.lwip = w.lwip.close fd)
    (hnext : w'.nextConn = w.nextConn) :
    w'.handles = { w.handles with names := Function.update w.handles.names (some fd) none } := by
  refine Handle.Table.ext (funext fun sock => ?_) hnext
  cases sock with
  | none => simp [handles]
  | some fd' =>
    rcases eq_or_ne fd' fd with rfl | hne
    · simp [handles, hlwip, Lwip.close]
    · simp [handles, hlwip, Lwip.close, hne]

/-- A new connection in the table of connections. -/
theorem World.handles_accept {fd : Nat}
    (hlwip : w'.lwip = Function.update w.lwip fd (some ⟨w.nextConn, false⟩))
    (hnext : w'.nextConn = w.nextConn + 1) :
    w'.handles = ⟨Function.update w.handles.names (some fd) (some w.nextConn), w.nextConn + 1⟩ := by
  refine Handle.Table.ext (funext fun sock => ?_) hnext
  cases sock with
  | none => simp [handles]
  | some fd' =>
    rcases eq_or_ne fd' fd with rfl | hne
    · simp [handles, hlwip]
    · simp [handles, hlwip, hne]

theorem SameConns.handles (h : SameConns w w') : w'.handles = w.handles := by
  simp only [World.handles, h.names, h.next]

namespace HistInv

variable {hist es : List SockEvent}

theorem start (plug : PlugState) (bridge : Option σ) :
    HistInv (World.start plug bridge) [] where
  slots := .start plug bridge
  conns := .start plug bridge
  legal := by
    simp only [List.filterMap_nil, Handle.Table.run_nil, Handle.Table.empty, World.handles,
      World.start, Option.map_none, Option.some.injEq, Handle.Table.mk.injEq, and_true]
    funext sock
    cases sock <;> rfl
  placed i h := by cases h
  aimed before c i sock conn after h := by simp at h
  rejected conn h := by cases h
  owned i conn h := by cases h

variable (h : HistInv w hist)
include h

/-- The socket of an active slot names the connection accepted into it. -/
theorem slot_names (hact : (w.sink.clients i).active = true) :
    w.handles.names (w.sink.clients i).sock = some (w.log i).conn := by
  obtain ⟨fd, hfd⟩ := Option.ne_none_iff_exists'.1 ((h.slots.active i).1 hact)
  rw [hfd]
  exact h.conns.conn i fd hfd

/-- Calls of active slots, and no other change. -/
theorem calls (hslots : SlotInv w') (hs : SameConns w w')
    (hes : ∀ e ∈ es, ∃ c j, e = w.slotCall j c ∧ (w.sink.clients j).active = true) :
    HistInv w' (hist ++ es) := by
  have hplaced : ∀ j conn, SockEvent.placed j conn ∉ es := by
    intro j conn hmem
    obtain ⟨c, k, he, -⟩ := hes _ hmem
    cases he
  refine ⟨hslots, h.conns.of_same hs, ?_, ?_, ?_, ?_, ?_⟩
  · -- `legal`: every call is a use of the descriptor of the slot's connection
    rw [List.filterMap_append, Handle.Table.run_append, h.legal, Option.bind_some, hs.handles]
    refine Handle.Table.run_uses fun e he => ?_
    obtain ⟨e', he', hhandle⟩ := List.mem_filterMap.1 he
    obtain ⟨c, j, rfl, hact⟩ := hes e' he'
    cases hhandle
    exact ⟨_, _, rfl, h.slot_names hact⟩
  · -- `placed`
    intro j hj
    rw [lastPlaced_append (hplaced j), hs.conn]
    exact h.placed j (hs.active j ▸ hj)
  · -- `aimed`
    refine h.aimed.append fun before c j sock conn after heq => ?_
    obtain ⟨c', k, hcall, hact⟩ := hes (.call c j sock conn) (by rw [heq]; simp)
    cases hcall
    rw [lastPlaced_append fun conn hmem => hplaced j conn (by rw [heq]; simp [hmem])]
    exact h.placed j hact
  · -- `rejected`
    intro conn hmem
    rw [closedConns_append]
    rcases List.mem_append.1 hmem with hmem | hmem
    · exact List.mem_append_left _ (h.rejected conn hmem)
    · obtain ⟨c, k, he, -⟩ := hes _ hmem
      cases he
  · -- `owned`
    intro j conn hmem
    rw [closedConns_append, hs.active, hs.conn]
    rcases List.mem_append.1 hmem with hmem | hmem
    · exact (h.owned j conn hmem).imp_left (List.mem_append_left _)
    · exact absurd hmem (hplaced j conn)

/-- A step without a socket call. -/
theorem silent (hslots : SlotInv w') (hs : SameConns w w') : HistInv w' (hist ++ []) :=
  h.calls hslots hs fun e he => by cases he

theorem accept_step {fd : Nat} (hw : w.stepAccept fd = some w') :
    HistInv w' (hist ++ [SockEvent.accepted fd w.nextConn]) := by
  have hslots := h.slots.accept_step hw
  have hconns := h.conns.accept_step h.slots hw
  obtain ⟨hfd, rfl⟩ := World.stepAccept_cases hw
  refine ⟨hslots, hconns, ?_, ?_, ?_, ?_, ?_⟩
  · -- `legal`
    have hfree : w.handles.names (some fd) = none := by simp [World.handles, hfd]
    rw [List.filterMap_append, Handle.Table.run_append, h.legal]
    simp only [List.filterMap_cons, List.filterMap_nil, SockEvent.handle, Option.bind_some,
      Handle.Table.run, Handle.Table.step]
    rw [if_pos ⟨hfree, rfl⟩]
    refine congrArg some (Eq.symm ?_)
    exact World.handles_accept rfl rfl
  · -- `placed`
    intro j hj
    rw [lastPlaced_append (by simp)]
    exact h.placed j hj
  · exact h.aimed.append_of_no_call (by simp)
  · -- `rejected`
    intro conn hmem
    rw [closedConns_append]
    exact List.mem_append_left _ (h.rejected conn (by simpa using hmem))
  · -- `owned`
    intro j conn hmem
    rw [closedConns_append]
    exact (h.owned j conn (by simpa using hmem)).imp_left (List.mem_append_left _)

/-- `accept_task` turns the connection away and closes its descriptor. -/
theorem reject {cs : Nat} (hcs : w.accept = .gate cs ∨ w.accept = .insert cs) :
    HistInv { w with accept := .accepting, lwip := w.lwip.close cs }
      (hist ++ [SockEvent.rejected w.incoming, .closed (some cs) w.incoming]) := by
  have hname : w.handles.names (some cs) = some w.incoming := h.conns.incoming cs hcs
  have hclosed : closedConns
      (hist ++ [SockEvent.rejected w.incoming, .closed (some cs) w.incoming]) =
      closedConns hist ++ [w.incoming] := by
    rw [closedConns_append]
    rfl
  refine ⟨h.slots.close_incoming hcs, h.conns.close_incoming h.slots hcs, ?_, ?_, ?_, ?_, ?_⟩
  · -- `legal`
    rw [List.filterMap_append, Handle.Table.run_append, h.legal]
    simp only [List.filterMap_cons, List.filterMap_nil, SockEvent.handle, Option.bind_some,
      Handle.Table.run, Handle.Table.step]
    rw [if_pos hname]
    refine congrArg some (Eq.symm ?_)
    exact World.handles_close rfl rfl
  · -- `placed`
    intro j hj
    rw [lastPlaced_append (by simp)]
    exact h.placed j hj
  · exact h.aimed.append_of_no_call (by simp)
  · -- `rejected`
    intro conn hmem
    rw [hclosed]
    rcases List.mem_append.1 hmem with hmem | hmem
    · exact List.mem_append_left _ (h.rejected conn hmem)
    · obtain rfl : conn = w.incoming := by simpa using hmem
      simp
  · -- `owned`
    intro j conn hmem
    rw [hclosed]
    exact (h.owned j conn (by simpa using hmem)).imp_left (List.mem_append_left _)

/-- The insertion puts the incoming connection into a free slot. -/
theorem place {cs : Nat} {log : ConnLog} (hacc : w.accept = .insert cs)
    (hfree : (w.sink.clients i).active = false) (hlog : log.conn = w.connOf cs)
    (hslots : SlotInv ((w.inserted i cs).setLog i log)) :
    HistInv ((w.inserted i cs).setLog i log) (hist ++ [SockEvent.placed i w.incoming]) := by
  have hname : (w.lwip cs).map Sock.conn = some w.incoming := h.conns.incoming cs (.inr hacc)
  have hconn : log.conn = w.incoming := by rw [hlog, World.connOf, hname, Option.getD_some]
  have hclosed : closedConns (hist ++ [SockEvent.placed i w.incoming]) = closedConns hist := by
    rw [closedConns_append]
    exact List.append_nil _
  refine ⟨hslots, h.conns.placed hacc hfree hlog, ?_, ?_, ?_, ?_, ?_⟩
  · -- `legal`
    rw [List.filterMap_append, Handle.Table.run_append, h.legal]
    rfl
  · -- `placed`
    intro j hj
    rcases eq_or_ne j i with rfl | hji
    · rw [lastPlaced_placed]
      simp [World.setLog, hconn]
    · rw [lastPlaced_append (by simpa using hji)]
      have hold : (w.sink.clients j).active = true := by
        simpa [World.setLog, World.inserted, Sink.acceptInsert, hji] using hj
      simpa [World.setLog, World.inserted, hji] using h.placed j hold
  · exact h.aimed.append_of_no_call (by simp)
  · -- `rejected`
    intro conn hmem
    rw [hclosed]
    exact h.rejected conn (by simpa using hmem)
  · -- `owned`
    intro j conn hmem
    rw [hclosed]
    rcases List.mem_append.1 hmem with hmem | hmem
    · refine (h.owned j conn hmem).imp_right ?_
      rintro ⟨hact, hlogj⟩
      have hji : j ≠ i := by
        rintro rfl
        rw [hfree] at hact
        cases hact
      simp [World.setLog, World.inserted, Sink.acceptInsert, hji, hact, hlogj]
    · obtain ⟨rfl, rfl⟩ : j = i ∧ conn = w.incoming := by simpa using hmem
      exact Or.inr (by simp [World.setLog, World.inserted, Sink.acceptInsert, hconn])

/-- The cleanup section closes the descriptor of the slot's connection. -/
theorem close (hw : w.stepCleanup i = some w') :
    HistInv w' (hist ++ [SockEvent.closed (w.sink.clients i).sock (w.log i).conn]) := by
  have hslots := h.slots.cleanup_step hw
  have hconns := h.conns.cleanup_step h.slots hw
  obtain ⟨ht, rfl⟩ := World.stepCleanup_cases hw
  have hact : (w.sink.clients i).active = true := h.slots.live i (by rw [ht]; simp)
  have hname := h.slot_names hact
  obtain ⟨fd, hfd⟩ := Option.ne_none_iff_exists'.1 ((h.slots.active i).1 hact)
  have hlwip : w.sink.closedSock i = some fd := by simp [Sink.closedSock, hact, hfd]
  have hclosed : closedConns (hist ++ [SockEvent.closed (w.sink.clients i).sock (w.log i).conn]) =
      closedConns hist ++ [(w.log i).conn] := by
    rw [closedConns_append]
    rfl
  refine ⟨hslots, hconns, ?_, ?_, ?_, ?_, ?_⟩
  · -- `legal`
    rw [List.filterMap_append, Handle.Table.run_append, h.legal]
    simp only [List.filterMap_cons, List.filterMap_nil, SockEvent.handle, Option.bind_some,
      Handle.Table.run, Handle.Table.step]
    rw [if_pos hname, hfd]
    refine congrArg some (Eq.symm ?_)
    exact World.handles_close (by simp only [hlwip]) rfl
  · -- `placed`
    intro j hj
    have hji : j ≠ i := by
      rintro rfl
      rw [show ((w.sink.cleanup j).clients j).active = false from
        Sink.cleanup_inactive w.sink j] at hj
      cases hj
    rw [lastPlaced_append (by simp)]
    refine h.placed j ?_
    rw [← Sink.cleanup_other w.sink hji]
    exact hj
  · exact h.aimed.append_of_no_call (by simp)
  · -- `rejected`
    intro conn hmem
    rw [hclosed]
    exact List.mem_append_left _ (h.rejected conn (by simpa using hmem))
  · -- `owned`
    intro j conn hmem
    rw [hclosed]
    rcases h.owned j conn (by simpa using hmem) with hold | ⟨hactj, hlogj⟩
    · exact Or.inl (List.mem_append_left _ hold)
    · rcases eq_or_ne j i with rfl | hji
      · exact Or.inl (by simp [hlogj])
      · refine Or.inr ⟨?_, hlogj⟩
        rw [Sink.cleanup_other w.sink hji]
        exact hactj

end HistInv

/-! ## Every step extends the record -/

section Events

variable {hist : List SockEvent}

/-- A call of a client that is active and has a socket. -/
theorem mem_guarded {es : List SockEvent} {e : SockEvent} (h : e ∈ w.guarded i es) :
    e ∈ es ∧ (w.sink.clients i).active = true := by
  rw [World.guarded] at h
  split at h
  · next hg => exact ⟨h, hg.1⟩
  · cases h

theorem mem_clientSendCalls {call : SockCall → SockEvent} {telnet : Bool} {data : List UInt8}
    {res : Nat → SendResult} {e : SockEvent} (h : e ∈ clientSendCalls call telnet data res) :
    ∃ c, e = call c := by
  rw [clientSendCalls, List.mem_append] at h
  rcases h with h | h
  · obtain ⟨-, -, rfl⟩ := List.mem_map.1 h
    exact ⟨_, rfl⟩
  · split at h
    · exact ⟨_, List.mem_singleton.1 h⟩
    · cases h

theorem mem_replayFlushCalls {call : SockCall → SockEvent} {r : Replay} {now : Nat}
    {res : Nat → SendResult} {e : SockEvent} (h : e ∈ replayFlushCalls call r now res) :
    ∃ c, e = call c := by
  rw [replayFlushCalls] at h
  split at h
  · cases h
  · split at h
    · exact mem_clientSendCalls h
    · cases h

/-- The shutdowns of a drop of all clients. -/
theorem mem_dropCalls {e : SockEvent} (h : e ∈ (List.finRange sinkTcpMaxClients).flatMap
    fun i => w.guarded i [w.slotCall i .shutdown]) :
    ∃ c j, e = w.slotCall j c ∧ (w.sink.clients j).active = true := by
  obtain ⟨j, -, hmem⟩ := List.mem_flatMap.1 h
  obtain ⟨hcall, hact⟩ := mem_guarded hmem
  exact ⟨_, j, List.mem_singleton.1 hcall, hact⟩

theorem histInv_gate (h : HistInv w hist) (hw : w.stepGate = some w') :
    HistInv w' (hist ++ w.events (.gate : Label ρ)) := by
  have hslots := h.slots.gate_step hw
  rw [World.stepGate] at hw
  split at hw
  · next cs hacc =>
    split at hw
    · next hready =>
      cases hw
      simp only [World.events, hacc, hready, if_true]
      refine h.silent hslots ⟨fun _ => rfl, fun _ => rfl, fun _ => rfl, fun _ => rfl, rfl, rfl,
        fun fd => ?_⟩
      simp [AcceptPc.Holds, hacc]
    · next hready =>
      cases hw
      simp only [World.events, hacc, hready]
      exact h.reject (.inl hacc)
  · cases hw

theorem histInv_insert {res : Nat → SendResult} (h : HistInv w hist)
    (hw : w.stepInsert res = some w') :
    HistInv w' (hist ++ w.events (.insert res : Label ρ)) := by
  have hslots := h.slots.insert_step hw
  rw [World.stepInsert] at hw
  split at hw
  · next cs hacc =>
    split at hw
    · next hfree =>
      cases hw
      simp only [World.events, hacc, hfree]
      exact h.reject (.inr hacc)
    · next i hi =>
      cases hw
      simp only [World.events, hacc, hi]
      rw [List.append_cons]
      -- first the slot is filled, then the replay buffer goes out on its socket
      have hsame := SameConns.sendEffect (w.inserted i cs) i
        (replayFlushTo w.sink.replay w.clock res).1
        { ConnLog.start (w.connOf cs) with
          replayed := (replayFlushTo w.sink.replay w.clock res).1.sent }
      have hfilled : ∀ log : ConnLog, log.conn = w.connOf cs →
          HistInv ((w.inserted i cs).setLog i log) (hist ++ [SockEvent.placed i w.incoming]) :=
        fun log hlog => h.place hacc (Sink.findFreeSlot_some hi) hlog
          ((h.slots.inserted hacc (Sink.findFreeSlot_some hi)).of_same (.of_eq rfl rfl rfl rfl)
            fun _ => Iff.rfl)
      refine (hfilled _ rfl).calls hslots (hsame.trans (.setSink _ (fun _ => ⟨rfl, rfl⟩) rfl)) ?_
      intro e he
      obtain ⟨c, rfl⟩ := mem_replayFlushCalls he
      have hconn : w.connOf cs = w.incoming := by
        rw [World.connOf, h.conns.incoming cs (.inr hacc), Option.getD_some]
      refine ⟨c, i, ?_, ?_⟩
      · simp [World.slotCall, World.setLog, World.inserted, Sink.acceptInsert, ConnLog.start,
          hconn]
      · simp [World.setLog, World.inserted, Sink.acceptInsert]
  · cases hw

theorem histInv_cleanup (h : HistInv w hist) (hw : w.stepCleanup i = some w') :
    HistInv w' (hist ++ w.events (.cleanup i : Label ρ)) := by
  have hact : (w.sink.clients i).active = true :=
    h.slots.live i (by rw [(World.stepCleanup_cases hw).1]; simp)
  have hsock := (h.slots.active i).1 hact
  simp only [World.events, World.guarded]
  rw [if_pos ⟨hact, hsock⟩, List.append_cons]
  -- the shutdown comes before the close
  refine HistInv.close (h.calls h.slots (.refl w) ?_) hw
  intro e he
  exact ⟨_, i, List.mem_singleton.1 he, hact⟩

/-- Every step extends the record. -/
theorem HistInv.step (h : HistInv w hist) (hw : (sinkSystem src).step w l = some w') :
    HistInv w' (hist ++ w.events l) := by
  have hslots := h.slots.step hw
  have hlive : ∀ {i pc}, w.task i = some pc → (w.sink.clients i).active = true :=
    fun ht => h.slots.live _ (by rw [ht]; simp)
  have hsame := step_sameConns hw
  cases l with
  | accept fd => exact h.accept_step hw
  | gate => exact histInv_gate h hw
  | insert res => exact histInv_insert h hw
  | cleanup i => exact histInv_cleanup h hw
  | recv i chunk =>
    exact h.calls hslots (hsame id)
      fun e he => ⟨_, i, List.mem_singleton.1 he, hlive (World.stepRecv_cases hw).1⟩
  | hangup i =>
    refine h.calls hslots (hsame id) fun e he => ?_
    obtain ⟨hcall, hact⟩ := mem_guarded he
    exact ⟨_, i, List.mem_singleton.1 hcall, hact⟩
  | send i r =>
    obtain ⟨rest, stalls, acq, todo, ht, -⟩ := World.stepSend_cases hw
    refine h.calls hslots (hsame id) fun e he => ?_
    simp only [World.events, ht, List.mem_cons] at he
    rcases he with rfl | he
    · exact ⟨_, i, rfl, hlive ht⟩
    · split at he
      · exact ⟨_, i, List.mem_singleton.1 he, hlive ht⟩
      · cases he
  | drop => exact h.calls hslots (hsame id) fun e he => mem_dropCalls he
  | onRx data res =>
    refine h.calls hslots (hsame id) fun e he => ?_
    simp only [World.events] at he
    split at he
    · cases he
    · obtain ⟨j, -, hmem⟩ := List.mem_flatMap.1 he
      obtain ⟨hcall, hact⟩ := mem_guarded hmem
      obtain ⟨c, rfl⟩ := mem_clientSendCalls hcall
      exact ⟨c, j, rfl, hact⟩
  | sourceDown => exact h.calls hslots (hsame id) fun e he => mem_dropCalls he
  | _ => exact h.silent hslots (hsame id)

end Events

/-- The record of every run is legal. -/
theorem reaches_histInv {ok : World σ × List SockEvent → Label ρ → Prop} {plug : PlugState}
    {bridge : Option σ} {hist : List SockEvent}
    (h : ((sinkSystem src).record World.events).Reaches ok (World.start plug bridge, [])
      (w, hist)) : HistInv w hist := by
  refine Machine.Reaches.invariant (I := fun p => HistInv p.1 p.2) h (.start plug bridge) ?_
  rintro ⟨s, es⟩ l ⟨t, fs⟩ hs - ht
  obtain ⟨hstep, rfl⟩ := Machine.record_step ht
  exact hs.step hstep

/-! ## Slot and descriptor safety -/

/-- **Slot and descriptor safety.** In every run of the tasks, with descriptor numbers
recycled at once: `active_clients` counts the active slots and stays within the four;
active slots hold distinct open descriptors, each of the connection accepted into the
slot; every `send`, `recv` and `shutdown` is made, at its time, on the open descriptor of
the connection that was last put into the slot; no connection is closed twice, and one
that was turned away, or whose slot has been freed, has been closed. -/
theorem descriptor_safety (src : LineSource σ ρ) (plug : PlugState) (bridge : Option σ)
    (w : World σ) (hist : List SockEvent)
    (h : ((sinkSystem src).record World.events).Reaches (fun _ _ => True)
      (World.start plug bridge, []) (w, hist)) :
    (w.sink.stats.activeClients = (w.activeSlots.card : ℤ) ∧ 0 ≤ w.sink.stats.activeClients ∧
      w.sink.stats.activeClients ≤ sinkTcpMaxClients) ∧
    (∀ i, (w.sink.clients i).active = true → ∃ fd k, (w.sink.clients i).sock = some fd ∧
      w.lwip fd = some k ∧ lastPlaced i hist = some k.conn ∧
      ∀ j, (w.sink.clients j).active = true → (w.sink.clients j).sock = some fd → j = i) ∧
    (∀ before c i sock conn after, hist = before ++ .call c i sock conn :: after →
      lastPlaced i before = some conn ∧ ∃ table,
        Handle.Table.empty.run (before.filterMap SockEvent.handle) = some table ∧
        table.names sock = some conn) ∧
    (∀ before sock conn after, hist = before ++ .closed sock conn :: after → ∃ table,
      Handle.Table.empty.run (before.filterMap SockEvent.handle) = some table ∧
      table.names sock = some conn) ∧
    (closedConns hist).Nodup ∧
    (∀ conn, .rejected conn ∈ hist → conn ∈ closedConns hist) ∧
    (∀ i conn, .placed i conn ∈ hist →
      conn ∈ closedConns hist ∨ ((w.sink.clients i).active = true ∧
        lastPlaced i hist = some conn)) := by
  have hinv := reaches_histInv h
  refine ⟨⟨hinv.conns.count, ?_, ?_⟩, ?_, ?_, ?_, ?_, hinv.rejected, ?_⟩
  · rw [hinv.conns.count]
    exact Int.natCast_nonneg _
  · rw [hinv.conns.count]
    exact_mod_cast (Finset.card_le_univ _).trans_eq (Fintype.card_fin _)
  · intro i hact
    obtain ⟨fd, hfd⟩ := Option.ne_none_iff_exists'.1 ((hinv.slots.active i).1 hact)
    obtain ⟨k, hk, hconn⟩ := Option.map_eq_some_iff.1 (hinv.conns.conn i fd hfd)
    exact ⟨fd, k, hfd, hk, by rw [hinv.placed i hact, hconn],
      fun j _ hj => hinv.slots.distinct j i fd hj hfd⟩
  · intro before c i sock conn after heq
    have hlegal := hinv.legal
    rw [heq, List.filterMap_append] at hlegal
    obtain ⟨table, _, hrun, hstep⟩ := Handle.Table.run_middle hlegal
    exact ⟨hinv.aimed before c i sock conn after heq, table, hrun, Handle.Table.step_used hstep⟩
  · intro before sock conn after heq
    have hlegal := hinv.legal
    rw [heq, List.filterMap_append] at hlegal
    obtain ⟨table, _, hrun, hstep⟩ := Handle.Table.run_middle hlegal
    exact ⟨table, hrun, Handle.Table.step_closed hstep⟩
  · exact (Handle.Table.run_inv hinv.legal).once
  · intro i conn hmem
    refine (hinv.owned i conn hmem).imp_right ?_
    rintro ⟨hact, rfl⟩
    exact ⟨hact, hinv.placed i hact⟩

/-- The descriptor number of a closed connection is the next one accepted. -/
theorem descriptor_safety_recycled : ∃ w hist, ((sinkSystem shadowSource).record
      World.events).Reaches (fun _ _ => True)
      (World.start .up (some ⟨115200, 8, 0, 0⟩), []) (w, hist) ∧
    hist = [.accepted 3 0, .placed 0 0, .call .recv 0 (some 3) 0, .call .shutdown 0 (some 3) 0,
      .closed (some 3) 0, .accepted 3 1, .placed 0 1, .call .send 0 (some 3) 1] ∧
    w.sink.stats.activeClients = 1 := by
  obtain ⟨⟨w, hist⟩, hrun, hhist, hcard⟩ := Machine.exists_reaches_of_runIf
    ((sinkSystem shadowSource).record World.events) (fun _ _ => True)
    (fun p => p.2 = [.accepted 3 0, .placed 0 0, .call .recv 0 (some 3) 0,
      .call .shutdown 0 (some 3) 0, .closed (some 3) 0, .accepted 3 1, .placed 0 1,
      .call .send 0 (some 3) 1] ∧ p.1.activeSlots.card = 1)
    (World.start .up (some ⟨115200, 8, 0, 0⟩), [])
    [.accept 3, .gate, .insert fun _ => .eagain, .spawn true, .hangup 0, .cleanup 0, .accept 3,
      .gate, .insert fun _ => .eagain, .spawn true, .onRx [0x41] fun _ _ => .accepted 1]
    (by decide +kernel)
  obtain ⟨⟨hcount, -⟩, -⟩ := descriptor_safety _ _ _ w hist hrun
  exact ⟨w, hist, hrun, hhist, by rw [hcount, hcard]; rfl⟩

end Cdc2Net.SinkTcp
