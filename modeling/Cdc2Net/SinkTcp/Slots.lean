import Cdc2Net.SinkTcp.Send
import Mathlib.Algebra.GroupWithZero.Nat
import Mathlib.Data.Fintype.Basic

/-!
# The slot table of the TCP sink

The static `S` of `sink_tcp.c`: four client slots, the RFC2217 controller and
the replay buffer. Every function here is the body of one `S.mtx` section, as a
function of `Sink`; a section that closes or shuts down sockets names the
descriptors (`activeSocks`, `closedSock`), and the system of tasks carries the
socket part out.
-/

set_option autoImplicit false

namespace Cdc2Net.SinkTcp

open Cdc2Net.SinkTcp.Telnet

/-- `SINK_TCP_MAX_CLIENTS`. -/
def sinkTcpMaxClients : Nat := 4

instance : NeZero sinkTcpMaxClients := ⟨Nat.succ_ne_zero 3⟩

/-- The index of a client slot, which stands for `tcp_client_t *`. -/
abbrev Slot := Fin sinkTcpMaxClients

/-- `tcp_client_t`, less the peer address and the task handle, which no modelled
function reads. `sock` is `none` for -1. -/
structure TcpClient where
  sock : Option Nat
  active : Bool
  codec : Codec
  telnet : Bool
  isController : Bool
  deriving DecidableEq, Repr

/-- The counters of `sink_tcp_stats_t`. -/
structure SinkTcpStats where
  activeClients : Int
  totalAccepts : Nat
  totalDisconnects : Nat
  rxBytesFromClients : Nat
  txBytesToClients : Nat
  txDroppedEagain : Nat
  deriving DecidableEq, Repr

/-- The static `S` of `sink_tcp.c` and the replay buffer. -/
structure Sink where
  clients : Slot → TcpClient
  ctrlClient : Option Slot
  stats : SinkTcpStats
  replay : Replay

/-- A slot after `sink_tcp_init`. -/
def TcpClient.idle : TcpClient := ⟨none, false, .fresh, false, false⟩

/-- The state `sink_tcp_init` leaves. -/
def sinkTcpInit : Sink := ⟨fun _ => .idle, none, ⟨0, 0, 0, 0, 0, 0⟩, .closed⟩

namespace Sink

/-- Replace the client of a slot. -/
def setClient (s : Sink) (i : Slot) (c : TcpClient) : Sink :=
  { s with clients := Function.update s.clients i c }

/-- `find_free_slot`. -/
def findFreeSlot (s : Sink) : Option Slot :=
  (List.finRange sinkTcpMaxClients).find? fun i => !(s.clients i).active

/-- The slot reset and `active_clients++` of `accept_task`'s section. -/
def acceptInsert (s : Sink) (i : Slot) (cs : Nat) : Sink :=
  { s.setClient i ⟨some cs, true, .fresh, false, false⟩ with
    stats := { s.stats with activeClients := s.stats.activeClients + 1 } }

/-- `comport_acquire`: the first client to negotiate COM-PORT owns the line. -/
def comportAcquire (s : Sink) (i : Slot) : Sink :=
  if s.ctrlClient = none then
    { s.setClient i { s.clients i with isController := true } with ctrlClient := some i }
  else s

/-- `tn_commit`. -/
def tnCommit (s : Sink) (i : Slot) : Sink := s.setClient i { s.clients i with telnet := true }

/-- The descriptor `close_client` closes. -/
def closedSock (s : Sink) (i : Slot) : Option Nat :=
  if (s.clients i).active then (s.clients i).sock else none

/-- The slot part of `close_client`. -/
def closeClient (s : Sink) (i : Slot) : Sink :=
  if (s.clients i).active then
    { s.setClient i { s.clients i with sock := none, active := false } with
      stats := { s.stats with
        totalDisconnects := s.stats.totalDisconnects + 1
        activeClients := s.stats.activeClients - 1 } }
  else s

/-- `was_ctrl` of `client_task`'s cleanup. -/
def wasCtrl (s : Sink) (i : Slot) : Bool := decide (s.ctrlClient = some i)

/-- The ownership part of `client_task`'s cleanup section. -/
def releaseCtrl (s : Sink) (i : Slot) : Sink :=
  if s.wasCtrl i then
    { s.setClient i { s.clients i with isController := false } with ctrlClient := none }
  else s

/-- `client_task`'s cleanup section. -/
def cleanup (s : Sink) (i : Slot) : Sink := (s.releaseCtrl i).closeClient i

/-- The descriptors of the active clients, in slot order. -/
def activeSocks (s : Sink) : List Nat :=
  (List.finRange sinkTcpMaxClients).filterMap fun i =>
    if (s.clients i).active then (s.clients i).sock else none

/-- The ownership part shared by `drop_all_clients_locked` and
`on_source_down`; both then shut down `activeSocks`. -/
def dropCtrl (s : Sink) : Sink :=
  { s with ctrlClient := none, clients := fun i => { s.clients i with isController := false } }

@[simp] theorem setClient_self (s : Sink) (i : Slot) (c : TcpClient) :
    (s.setClient i c).clients i = c := by simp [setClient]

@[simp] theorem setClient_other (s : Sink) {i j : Slot} (c : TcpClient) (h : j ≠ i) :
    (s.setClient i c).clients j = s.clients j := by simp [setClient, h]

theorem findFreeSlot_some {s : Sink} {i : Slot} (h : s.findFreeSlot = some i) :
    (s.clients i).active = false := by
  have := List.find?_some h
  simpa using this

theorem mem_activeSocks {s : Sink} {i : Slot} {fd : Nat} (hact : (s.clients i).active = true)
    (hsock : (s.clients i).sock = some fd) : fd ∈ s.activeSocks :=
  List.mem_filterMap.2 ⟨i, List.mem_finRange i, by rw [if_pos hact, hsock]⟩

/-- The slot of the first owner keeps its connection, and so does every other. -/
theorem comportAcquire_slot (s : Sink) (i j : Slot) :
    ((s.comportAcquire i).clients j).sock = (s.clients j).sock ∧
      ((s.comportAcquire i).clients j).active = (s.clients j).active := by
  rw [comportAcquire]
  split
  · rcases eq_or_ne j i with rfl | hj
    · simp [setClient]
    · simp [setClient, hj]
  · exact ⟨rfl, rfl⟩

theorem comportAcquire_other (s : Sink) {i j : Slot} (h : j ≠ i) :
    (s.comportAcquire i).clients j = s.clients j := by
  rw [comportAcquire]
  split
  · exact setClient_other s _ h
  · rfl

/-- Flags that agree with the ownership still do after `comport_acquire`. -/
theorem comportAcquire_flag (s : Sink) (i : Slot)
    (h : ∀ j, (s.clients j).isController = true ↔ s.ctrlClient = some j) (j : Slot) :
    ((s.comportAcquire i).clients j).isController = true ↔
      (s.comportAcquire i).ctrlClient = some j := by
  rw [comportAcquire]
  split
  · next hfree =>
    rcases eq_or_ne j i with rfl | hj
    · simp [setClient]
    · simp [setClient, hj, h, hfree, hj.symm]
  · exact h j

/-- `comport_acquire` makes no client the owner but the one that calls it. -/
theorem comportAcquire_owner {s : Sink} {i j : Slot}
    (h : (s.comportAcquire i).ctrlClient = some j) : s.ctrlClient = some j ∨ j = i := by
  rw [comportAcquire] at h
  split at h
  · exact Or.inr (Option.some.inj h).symm
  · exact Or.inl h

theorem cleanup_inactive (s : Sink) (i : Slot) : ((s.cleanup i).clients i).active = false := by
  rw [cleanup, closeClient]
  by_cases h : ((s.releaseCtrl i).clients i).active = true
  · simp [h, setClient]
  · simp [h]

theorem releaseCtrl_other (s : Sink) {i j : Slot} (h : j ≠ i) :
    (s.releaseCtrl i).clients j = s.clients j := by
  rw [releaseCtrl]
  split
  · exact setClient_other s _ h
  · rfl

theorem closeClient_other (s : Sink) {i j : Slot} (h : j ≠ i) :
    (s.closeClient i).clients j = s.clients j := by
  rw [closeClient]
  split
  · exact setClient_other s _ h
  · rfl

theorem cleanup_other (s : Sink) {i j : Slot} (h : j ≠ i) :
    (s.cleanup i).clients j = s.clients j := by
  rw [cleanup, closeClient_other _ h, releaseCtrl_other _ h]

/-- Closing a slot leaves the ownership flags. -/
theorem closeClient_ctrl (s : Sink) (i : Slot) : (s.closeClient i).ctrlClient = s.ctrlClient ∧
    ∀ j, ((s.closeClient i).clients j).isController = (s.clients j).isController := by
  rw [closeClient]
  split
  · refine ⟨rfl, fun j => ?_⟩
    rcases eq_or_ne j i with rfl | h
    · simp [setClient]
    · simp [setClient, h]
  · exact ⟨rfl, fun _ => rfl⟩

theorem releaseCtrl_slot (s : Sink) (i j : Slot) :
    ((s.releaseCtrl i).clients j).active = (s.clients j).active ∧
      ((s.releaseCtrl i).clients j).sock = (s.clients j).sock := by
  rcases eq_or_ne j i with rfl | h
  · rw [releaseCtrl]
    split <;> simp [setClient]
  · rw [releaseCtrl_other s h]
    exact ⟨rfl, rfl⟩

theorem cleanup_sock (s : Sink) {i : Slot} (h : (s.clients i).active = true) :
    ((s.cleanup i).clients i).sock = none := by
  have hact : ((s.releaseCtrl i).clients i).active = true := by
    rw [(releaseCtrl_slot s i i).1, h]
  simp [cleanup, closeClient, hact, setClient]

/-- The cleanup section leaves the telnet state. -/
theorem cleanup_codec (s : Sink) (i j : Slot) :
    ((s.cleanup i).clients j).codec = (s.clients j).codec ∧
      ((s.cleanup i).clients j).telnet = (s.clients j).telnet := by
  rcases eq_or_ne j i with rfl | h
  · simp only [cleanup, closeClient, releaseCtrl]
    split <;> split <;> simp [setClient]
  · rw [cleanup_other s h]
    exact ⟨rfl, rfl⟩

/-- The cleanup section ends the slot's ownership and no other. -/
theorem cleanup_ctrl (s : Sink) (i j : Slot) :
    (s.cleanup i).ctrlClient = some j ↔ s.ctrlClient = some j ∧ j ≠ i := by
  rw [cleanup, (closeClient_ctrl _ i).1, releaseCtrl]
  by_cases h : s.ctrlClient = some i
  · simp only [wasCtrl, h, decide_true, if_true]
    constructor
    · intro hj
      cases hj
    · rintro ⟨hj, hne⟩
      exact absurd (Option.some.inj hj).symm hne
  · simp only [wasCtrl, h, decide_false, Bool.false_eq_true, if_false]
    constructor
    · intro hj
      refine ⟨hj, ?_⟩
      rintro rfl
      exact h hj
    · exact fun hj => hj.1

/-- A flag that agrees with the ownership is cleared by the cleanup section. -/
theorem cleanup_flag (s : Sink) {i : Slot}
    (h : (s.clients i).isController = true → s.ctrlClient = some i) :
    ((s.cleanup i).clients i).isController = false := by
  rw [cleanup, (closeClient_ctrl _ i).2, releaseCtrl]
  by_cases hc : s.ctrlClient = some i
  · simp [wasCtrl, hc, setClient]
  · simp only [wasCtrl, hc, decide_false, Bool.false_eq_true, if_false]
    by_contra hf
    exact hc (h (by simpa using hf))

end Sink

end Cdc2Net.SinkTcp
