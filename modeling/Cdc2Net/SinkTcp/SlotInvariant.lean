import Cdc2Net.SinkTcp.System

/-!
# Invariants of the slot table

What every run of the sink's tasks keeps, whatever the order of steps: a slot
with a task is active, active slots hold pairwise distinct open descriptors, the
descriptor `accept_task` is working on is open and in no slot, and
`S.ctrl_client` and the `is_controller` flags name the same slot, an active one
(`SlotInv`, `reaches_slotInv`).

Most steps are local to one client task: they move that task and leave slots,
ownership and open descriptors as they are (`LocalStep`). The invariant is
proved for local steps at once and for the few others one by one.
-/

set_option autoImplicit false

namespace Cdc2Net.SinkTcp

open Cdc2Net.SinkTcp.Telnet
open Cdc2Net.Source
open Cdc2Net.Lib.Transition

universe u v

variable {σ : Type u} {ρ : Type v} {w w' : World σ} {i j : Slot}

/-! ## Descriptors -/

@[simp] theorem Lwip.shutdown_eq_none (n : Lwip) (fd fd' : Nat) :
    n.shutdown fd fd' = none ↔ n fd' = none := by
  rcases eq_or_ne fd' fd with rfl | h
  · simp [Lwip.shutdown]
  · simp [Lwip.shutdown, h]

/-- The descriptor is open and shut down. -/
def Lwip.IsShut (n : Lwip) (fd : Nat) : Prop := ∃ k, n fd = some k ∧ k.shut = true

theorem Lwip.IsShut.shutdown {n : Lwip} {fd : Nat} (h : n.IsShut fd) (fd' : Nat) :
    (n.shutdown fd').IsShut fd := by
  obtain ⟨k, hk, hs⟩ := h
  rcases eq_or_ne fd fd' with rfl | he
  · exact ⟨{ k with shut := true }, by simp [Lwip.shutdown, hk], rfl⟩
  · exact ⟨k, by simp [Lwip.shutdown, he, hk], hs⟩

theorem Lwip.isShut_shutdown {n : Lwip} {fd : Nat} (h : n fd ≠ none) :
    (n.shutdown fd).IsShut fd := by
  obtain ⟨k, hk⟩ := Option.ne_none_iff_exists'.1 h
  exact ⟨{ k with shut := true }, by simp [Lwip.shutdown, hk], rfl⟩

theorem Lwip.IsShut.foldl_shutdown {fd : Nat} : ∀ (fds : List Nat) {n : Lwip}, n.IsShut fd →
    (fds.foldl Lwip.shutdown n).IsShut fd
  | [], _, h => h
  | fd' :: fds, _, h => Lwip.IsShut.foldl_shutdown fds (h.shutdown fd')

theorem Lwip.foldl_shutdown_eq_none (fd : Nat) : ∀ (fds : List Nat) (n : Lwip),
    fds.foldl Lwip.shutdown n fd = none ↔ n fd = none
  | [], _ => Iff.rfl
  | fd' :: fds, n => by rw [List.foldl_cons, Lwip.foldl_shutdown_eq_none fd fds]; simp

/-- A shutdown of every listed descriptor shuts each open one. -/
theorem Lwip.isShut_foldl {fd : Nat} : ∀ {fds : List Nat} {n : Lwip}, fd ∈ fds → n fd ≠ none →
    (fds.foldl Lwip.shutdown n).IsShut fd
  | fd' :: fds, n, hmem, hopen => by
    rw [List.foldl_cons]
    rcases eq_or_ne fd fd' with rfl | h
    · exact Lwip.IsShut.foldl_shutdown fds (Lwip.isShut_shutdown hopen)
    · have hmem' : fd ∈ fds := by
        rcases List.mem_cons.1 hmem with h' | h'
        · exact absurd h' h
        · exact h'
      exact Lwip.isShut_foldl hmem' (by simpa using hopen)

/-! ## Local steps -/

/-- Slots, ownership, `accept_task` and the set of open descriptors agree. -/
structure SameSlots (w w' : World σ) : Prop where
  sock : ∀ j, (w'.sink.clients j).sock = (w.sink.clients j).sock
  active : ∀ j, (w'.sink.clients j).active = (w.sink.clients j).active
  isController : ∀ j, (w'.sink.clients j).isController = (w.sink.clients j).isController
  ctrl : w'.sink.ctrlClient = w.sink.ctrlClient
  accept : w'.accept = w.accept
  isOpen : ∀ fd, w'.lwip fd = none ↔ w.lwip fd = none

theorem SameSlots.of_eq (hc : w'.sink.clients = w.sink.clients)
    (hctrl : w'.sink.ctrlClient = w.sink.ctrlClient) (haccept : w'.accept = w.accept)
    (hlwip : w'.lwip = w.lwip) : SameSlots w w' :=
  ⟨fun _ => by rw [hc], fun _ => by rw [hc], fun _ => by rw [hc], hctrl, haccept,
    fun _ => by rw [hlwip]⟩

theorem SameSlots.trans {w'' : World σ} (h : SameSlots w w') (h' : SameSlots w' w'') :
    SameSlots w w'' where
  sock j := (h'.sock j).trans (h.sock j)
  active j := (h'.active j).trans (h.active j)
  isController j := (h'.isController j).trans (h.isController j)
  ctrl := h'.ctrl.trans h.ctrl
  accept := h'.accept.trans h.accept
  isOpen fd := (h'.isOpen fd).trans (h.isOpen fd)

/-- What else steps beside the slot table leave: reverts to come, the plug
state, and shut descriptors. -/
structure SameRest (w w' : World σ) : Prop where
  reverting : w'.reverting = w.reverting
  plug : w'.plug = w.plug
  shut : ∀ fd, w.lwip.IsShut fd → w'.lwip.IsShut fd

theorem SameRest.of_eq (hrev : w'.reverting = w.reverting) (hplug : w'.plug = w.plug)
    (hlwip : w'.lwip = w.lwip) : SameRest w w' := ⟨hrev, hplug, fun _ h => hlwip ▸ h⟩

theorem SameRest.trans {w'' : World σ} (h : SameRest w w') (h' : SameRest w' w'') :
    SameRest w w'' :=
  ⟨h'.reverting.trans h.reverting, h'.plug.trans h.plug, fun fd hs => h'.shut fd (h.shut fd hs)⟩

/-- The task has read `is_controller` as true for a subnegotiation that asks for
another coding, and has not yet made its line-coding call. -/
def ClientPc.Pending : ClientPc → Prop
  | .getLc ctrl sb _ => ctrl = true ∧ subnegSets sb = true
  | .apply ctrl sb _ _ => ctrl = true ∧ subnegSets sb = true
  | _ => False

instance : DecidablePred ClientPc.Pending := fun pc => by
  cases pc <;> unfold ClientPc.Pending <;> infer_instance

/-- A step of the client task of slot `i` that touches no slot: the task moves
from `pc` to `pc'`, and it becomes the holder of a true snapshot only as the
controller. -/
structure LocalStep (w w' : World σ) (i : Slot) : Prop where
  slots : SameSlots w w'
  rest : SameRest w w'
  moves : ∃ pc pc', w.task i = some pc ∧ w'.task = Function.update w.task i (some pc') ∧
    (pc'.Pending → pc.Pending ∨ (w.sink.clients i).isController = true)

namespace World

theorem shutdown_slots (w : World σ) (i : Slot) : SameSlots w (w.shutdown i) := by
  rw [shutdown]
  split
  · exact SameSlots.of_eq rfl rfl rfl rfl
  · exact ⟨fun _ => rfl, fun _ => rfl, fun _ => rfl, rfl, rfl, fun fd => by simp⟩

theorem shutdown_rest (w : World σ) (i : Slot) : SameRest w (w.shutdown i) := by
  rw [shutdown]
  split
  · exact SameRest.of_eq rfl rfl rfl
  · exact ⟨rfl, rfl, fun fd h => h.shutdown _⟩

@[simp] theorem shutdown_task (w : World σ) (i : Slot) : (w.shutdown i).task = w.task := by
  rw [shutdown]
  split <;> rfl

@[simp] theorem shutdown_log (w : World σ) (i : Slot) : (w.shutdown i).log = w.log := by
  rw [shutdown]
  split <;> rfl

@[simp] theorem shutdown_bridge (w : World σ) (i : Slot) :
    (w.shutdown i).bridge = w.bridge := by
  rw [shutdown]
  split <;> rfl

/-- Entering `tn_send` moves only the task. -/
theorem startSend_spec (w : World σ) (i : Slot) (frame : List UInt8) (acq : Bool)
    (todo : List RxCall) : SameSlots w (w.startSend i frame acq todo) ∧
      SameRest w (w.startSend i frame acq todo) ∧
      (w.startSend i frame acq todo).bridge = w.bridge ∧
      ∃ pc', (w.startSend i frame acq todo).task = Function.update w.task i (some pc') ∧
        ¬ pc'.Pending := by
  rw [startSend]
  split
  · refine ⟨.of_eq rfl rfl rfl rfl, .of_eq rfl rfl rfl, rfl, _, rfl, ?_⟩
    cases acq <;> exact fun h => h
  · exact ⟨.of_eq rfl rfl rfl rfl, .of_eq rfl rfl rfl, rfl, _, rfl, fun h => h⟩

theorem replySubneg_spec (w : World σ) (i : Slot) (sb : List UInt8) (lc : LineCoding)
    (todo : List RxCall) : SameSlots w (w.replySubneg i sb lc todo) ∧
      SameRest w (w.replySubneg i sb lc todo) ∧
      (w.replySubneg i sb lc todo).bridge = w.bridge ∧
      ∃ pc', (w.replySubneg i sb lc todo).task = Function.update w.task i (some pc') ∧
        ¬ pc'.Pending := by
  rw [replySubneg]
  split
  · exact ⟨.of_eq rfl rfl rfl rfl, .of_eq rfl rfl rfl, rfl, _, rfl, fun h => h⟩
  · exact startSend_spec w i _ false todo

theorem stepRecv_local {chunk : List UInt8} (h : w.stepRecv i chunk = some w') :
    LocalStep w w' i ∧ w'.bridge = w.bridge := by
  obtain ⟨ht, -, _, -, rfl⟩ := stepRecv_cases h
  refine ⟨⟨⟨?_, ?_, ?_, rfl, rfl, fun _ => Iff.rfl⟩, ⟨rfl, rfl, fun _ h => h⟩,
    _, _, ht, rfl, fun hp => hp.elim⟩, rfl⟩ <;>
  · intro j
    rcases eq_or_ne j i with rfl | hj
    · simp
    · simp [hj]

theorem stepHangup_local (h : w.stepHangup i = some w') :
    LocalStep w w' i ∧ w'.bridge = w.bridge := by
  obtain ⟨ht, rfl⟩ := stepHangup_cases h
  exact ⟨⟨.of_eq rfl rfl rfl rfl, .of_eq rfl rfl rfl, _, _, ht, rfl, fun hp => hp.elim⟩, rfl⟩

theorem callStep_spec (w : World σ) (i : Slot) (todo : List RxCall) (c : RxCall) :
    SameSlots w (w.callStep i todo c) ∧ SameRest w (w.callStep i todo c) ∧
      (w.callStep i todo c).bridge = w.bridge ∧
      ∃ pc', (w.callStep i todo c).task = Function.update w.task i (some pc') ∧
        ¬ pc'.Pending := by
  cases c with
  | toSource data =>
    exact ⟨.of_eq rfl rfl rfl rfl, .of_eq rfl rfl rfl, rfl, _, rfl, fun h => h⟩
  | tnCommit =>
    refine ⟨⟨?_, ?_, ?_, rfl, rfl, fun _ => Iff.rfl⟩, .of_eq rfl rfl rfl, rfl, _, rfl,
      fun h => h⟩ <;>
    · intro j
      rcases eq_or_ne j i with rfl | hj
      · simp [callStep, Sink.tnCommit]
      · simp [callStep, Sink.tnCommit, hj]
  | tnNegotiate cmd opt =>
    cases hneg : negotiateReply cmd opt with
    | none =>
      simp only [callStep, hneg]
      exact ⟨.of_eq rfl rfl rfl rfl, .of_eq rfl rfl rfl, rfl, _, rfl, fun h => h⟩
    | some r =>
      simp only [callStep, hneg]
      exact startSend_spec w i _ _ todo
  | tnSubneg sb =>
    by_cases hopt : sb.head? = some toptComport
    · simp only [callStep, if_pos hopt]
      exact ⟨.of_eq rfl rfl rfl rfl, .of_eq rfl rfl rfl, rfl, _, rfl, fun h => h⟩
    · simp only [callStep, if_neg hopt]
      exact ⟨.of_eq rfl rfl rfl rfl, .of_eq rfl rfl rfl, rfl, _, rfl, fun h => h⟩

theorem stepCall_local (h : w.stepCall i = some w') :
    LocalStep w w' i ∧ w'.bridge = w.bridge := by
  rcases stepCall_cases h with ⟨ht, rfl⟩ | ⟨c, todo, ht, rfl⟩
  · exact ⟨⟨.of_eq rfl rfl rfl rfl, .of_eq rfl rfl rfl, _, _, ht, rfl, fun hp => hp.elim⟩, rfl⟩
  · obtain ⟨hs, hr, hb, pc', htask, hp⟩ := callStep_spec w i todo c
    exact ⟨⟨hs, hr, _, pc', ht, htask, fun h => absurd h hp⟩, hb⟩

theorem stepSend_local {r : SendResult} (h : w.stepSend i r = some w') :
    LocalStep w w' i ∧ w'.bridge = w.bridge := by
  obtain ⟨rest, stalls, acq, todo, ht, v, pc, rfl, hpc, hv⟩ := stepSend_cases h
  have hpending : ¬ pc.Pending := by
    rcases hpc with rfl | ⟨rest', stalls', rfl⟩
    · cases acq <;> exact fun h => h
    · exact fun h => h
  rcases hv with rfl | rfl
  · exact ⟨⟨.of_eq rfl rfl rfl rfl, .of_eq rfl rfl rfl, _, pc, ht, rfl,
      fun hp => absurd hp hpending⟩, rfl⟩
  · -- the shutdown changes no slot and only shuts descriptors
    have hs := shutdown_slots
      (w.setLog i { w.log i with sent := (w.log i).sent ++ (tnSendStep rest stalls r).1 }) i
    have hr := shutdown_rest
      (w.setLog i { w.log i with sent := (w.log i).sent ++ (tnSendStep rest stalls r).1 }) i
    refine ⟨⟨⟨hs.sock, hs.active, hs.isController, hs.ctrl, hs.accept, hs.isOpen⟩,
      ⟨hr.reverting, hr.plug, hr.shut⟩, _, pc, ht, ?_, fun hp => absurd hp hpending⟩, ?_⟩
    · simp [setTask, setLog]
    · simp [setTask, setLog]

theorem stepSnapshot_local (h : w.stepSnapshot i = some w') :
    LocalStep w w' i ∧ w'.bridge = w.bridge := by
  obtain ⟨sb, todo, ht, rfl⟩ := stepSnapshot_cases h
  exact ⟨⟨.of_eq rfl rfl rfl rfl, .of_eq rfl rfl rfl, _, _, ht, rfl, fun hp => Or.inr hp.1⟩, rfl⟩

theorem stepGetLc_local {src : LineSource σ ρ} (h : World.stepGetLc src w i = some w') :
    LocalStep w w' i ∧ w'.bridge = w.bridge := by
  obtain ⟨ctrl, sb, todo, ht, rfl⟩ := stepGetLc_cases h
  exact ⟨⟨.of_eq rfl rfl rfl rfl, .of_eq rfl rfl rfl, _, _, ht, rfl, fun hp => Or.inl hp⟩, rfl⟩

/-- The `switch` of `tn_subneg` is local, and reaches the source only through
the call `applyCall` names, which only a holder of a true snapshot makes. -/
theorem stepApply_local {src : LineSource σ ρ} {r : ρ} (h : World.stepApply src w i r = some w') :
    LocalStep w w' i ∧
      ((w.applyCall i = none ∧ w'.bridge = w.bridge) ∨
        ∃ new, w.applyCall i = some new ∧
          w'.bridge = (src.bridgeApplyLineCoding w.bridge r new).2) := by
  obtain ⟨ctrl, sb, lc, todo, ht, ⟨hcall, rfl⟩ | ⟨new, a, hcall, rfl, rfl⟩⟩ := stepApply_cases h
  · obtain ⟨hs, hr, hb, pc', htask, hp⟩ := replySubneg_spec w i sb lc todo
    exact ⟨⟨hs, hr, _, pc', ht, htask, fun h => absurd h hp⟩, Or.inl ⟨hcall, hb⟩⟩
  · obtain ⟨hs, hr, -, pc', htask, hp⟩ := replySubneg_spec w i sb
      (if (src.bridgeApplyLineCoding w.bridge r new).1 = .ok then new else lc) todo
    exact ⟨⟨⟨hs.sock, hs.active, hs.isController, hs.ctrl, hs.accept, hs.isOpen⟩,
      ⟨hr.reverting, hr.plug, hr.shut⟩, _, pc', ht, htask, fun h => absurd h hp⟩,
      Or.inr ⟨new, hcall, rfl⟩⟩

/-- Only the holder of a true snapshot makes a line-coding call. -/
theorem applyCall_pending {new : LineCoding} (h : w.applyCall i = some new) :
    ∃ pc, w.task i = some pc ∧ pc.Pending := by
  rw [applyCall] at h
  split at h
  · next sb lc todo ht =>
    exact ⟨_, ht, rfl, by rw [← subnegRequest_isSome sb lc, h]; rfl⟩
  · cases h

theorem sendEffect_spec (w : World σ) (i : Slot) (e : SendEffect) (l : ConnLog) :
    SameSlots w (w.sendEffect i e l) ∧ SameRest w (w.sendEffect i e l) ∧
      (w.sendEffect i e l).task = w.task ∧ (w.sendEffect i e l).bridge = w.bridge := by
  simp only [sendEffect]
  cases e.shutdown with
  | false => exact ⟨.of_eq rfl rfl rfl rfl, .of_eq rfl rfl rfl, rfl, rfl⟩
  | true =>
    have hs := shutdown_slots w i
    have hr := shutdown_rest w i
    exact ⟨⟨fun _ => rfl, fun _ => rfl, fun _ => rfl, rfl, hs.accept, hs.isOpen⟩,
      ⟨hr.reverting, hr.plug, hr.shut⟩, shutdown_task w i, shutdown_bridge w i⟩

theorem fanoutTo_spec (data : List UInt8) (res : Slot → Nat → SendResult) (w : World σ)
    (i : Slot) : SameSlots w (fanoutTo data res w i) ∧ SameRest w (fanoutTo data res w i) ∧
      (fanoutTo data res w i).task = w.task ∧ (fanoutTo data res w i).bridge = w.bridge := by
  rw [fanoutTo]
  split
  · exact sendEffect_spec w i _ _
  · exact ⟨.of_eq rfl rfl rfl rfl, .of_eq rfl rfl rfl, rfl, rfl⟩

theorem foldl_fanoutTo_spec (data : List UInt8) (res : Slot → Nat → SendResult) :
    ∀ (is : List Slot) (w : World σ), SameSlots w (is.foldl (fanoutTo data res) w) ∧
      SameRest w (is.foldl (fanoutTo data res) w) ∧
      (is.foldl (fanoutTo data res) w).task = w.task ∧
      (is.foldl (fanoutTo data res) w).bridge = w.bridge
  | [], w => ⟨.of_eq rfl rfl rfl rfl, .of_eq rfl rfl rfl, rfl, rfl⟩
  | i :: is, w => by
    obtain ⟨hs, hr, ht, hb⟩ := fanoutTo_spec data res w i
    obtain ⟨hs', hr', ht', hb'⟩ := foldl_fanoutTo_spec data res is (fanoutTo data res w i)
    exact ⟨hs.trans hs', hr.trans hr', ht'.trans ht, hb'.trans hb⟩

/-- A fanout moves no task and changes no slot. -/
theorem stepOnRx_spec {data : List UInt8} {res : Slot → Nat → SendResult}
    (h : w.stepOnRx data res = some w') :
    SameSlots w w' ∧ SameRest w w' ∧ w'.task = w.task ∧ w'.bridge = w.bridge := by
  rcases stepOnRx_cases h with rfl | rfl | rfl
  · exact ⟨.of_eq rfl rfl rfl rfl, .of_eq rfl rfl rfl, rfl, rfl⟩
  · exact foldl_fanoutTo_spec data res _ w
  · exact ⟨.of_eq rfl rfl rfl rfl, .of_eq rfl rfl rfl, rfl, rfl⟩

/-- The insertion section closes the descriptor when no slot is free; else it
fills the slot, and the flush that follows moves no task and changes no slot. -/
theorem stepInsert_spec {res : Nat → SendResult} (h : w.stepInsert res = some w') :
    ∃ cs, w.accept = .insert cs ∧
      (w' = { w with accept := .accepting, lwip := w.lwip.close cs } ∨
        ∃ i, w.sink.findFreeSlot = some i ∧ SameSlots (w.inserted i cs) w' ∧
          SameRest (w.inserted i cs) w' ∧ w'.task = w.task ∧ w'.bridge = w.bridge) := by
  obtain ⟨cs, hacc, rfl | ⟨k, hk, flush, log, v, rfl, rfl, rfl, rfl⟩⟩ := stepInsert_cases h
  · exact ⟨cs, hacc, Or.inl rfl⟩
  · obtain ⟨hs, hr, ht, hb⟩ := sendEffect_spec (w.inserted k cs) k
      (replayFlushTo w.sink.replay w.clock res).1
      { ConnLog.start (w.connOf cs) with
        replayed := (replayFlushTo w.sink.replay w.clock res).1.sent }
    exact ⟨cs, hacc, Or.inr ⟨k, hk,
      ⟨hs.sock, hs.active, hs.isController, hs.ctrl, hs.accept, hs.isOpen⟩,
      ⟨hr.reverting, hr.plug, hr.shut⟩, ht, hb⟩⟩

end World

/-! ## The invariant -/

/-- What holds of slots, tasks and descriptors in every reachable state. -/
structure SlotInv (w : World σ) : Prop where
  live : ∀ i, w.task i ≠ none → (w.sink.clients i).active = true
  spawn : ∀ i, w.accept = .spawn i → (w.sink.clients i).active = true ∧ w.task i = none
  active : ∀ i, (w.sink.clients i).active = true ↔ (w.sink.clients i).sock ≠ none
  isOpen : ∀ i fd, (w.sink.clients i).sock = some fd → w.lwip fd ≠ none
  distinct : ∀ i j fd, (w.sink.clients i).sock = some fd → (w.sink.clients j).sock = some fd → i = j
  incoming : ∀ cs, w.accept = .gate cs ∨ w.accept = .insert cs →
    w.lwip cs ≠ none ∧ ∀ i, (w.sink.clients i).sock ≠ some cs
  ctrl : ∀ i, (w.sink.clients i).isController = true ↔ w.sink.ctrlClient = some i
  owner : ∀ i, w.sink.ctrlClient = some i → (w.sink.clients i).active = true

namespace SlotInv

theorem start (plug : PlugState) (bridge : Option σ) : SlotInv (World.start plug bridge) where
  live i h := absurd rfl h
  spawn i h := by cases h
  active i := by simp [World.start, sinkTcpInit, TcpClient.idle]
  isOpen i fd h := by cases h
  distinct i j fd h := by cases h
  incoming cs h := by rcases h with h | h <;> cases h
  ctrl i := by simp [World.start, sinkTcpInit, TcpClient.idle]
  owner i h := by cases h

variable (h : SlotInv w)
include h

/-- Steps that change no slot keep the invariant, if tasks neither start nor end. -/
theorem of_same (hs : SameSlots w w') (htask : ∀ i, w'.task i = none ↔ w.task i = none) :
    SlotInv w' where
  live i hi := by
    rw [hs.active]
    exact h.live i fun hn => hi ((htask i).2 hn)
  spawn i hi := by
    obtain ⟨hact, hnone⟩ := h.spawn i (hs.accept ▸ hi)
    exact ⟨by rw [hs.active]; exact hact, (htask i).2 hnone⟩
  active i := by rw [hs.active, hs.sock]; exact h.active i
  isOpen i fd hi := by
    rw [Ne, hs.isOpen]
    exact h.isOpen i fd (hs.sock i ▸ hi)
  distinct i j fd hi hj := h.distinct i j fd (hs.sock i ▸ hi) (hs.sock j ▸ hj)
  incoming cs hcs := by
    obtain ⟨hopen, hfree⟩ := h.incoming cs (hs.accept ▸ hcs)
    exact ⟨fun hn => hopen ((hs.isOpen cs).1 hn), fun i => by rw [hs.sock]; exact hfree i⟩
  ctrl i := by rw [hs.isController, hs.ctrl]; exact h.ctrl i
  owner i hi := by
    rw [hs.active]
    exact h.owner i (hs.ctrl ▸ hi)

theorem of_local (hl : LocalStep w w' i) : SlotInv w' := by
  obtain ⟨pc, pc', ht, ht', -⟩ := hl.moves
  refine h.of_same hl.slots fun j => ?_
  rw [ht']
  rcases eq_or_ne j i with rfl | hj
  · simp [ht]
  · simp [hj]

theorem accept_step {fd : Nat} (hw : w.stepAccept fd = some w') : SlotInv w' := by
  obtain ⟨hfd, rfl⟩ := World.stepAccept_cases hw
  have hother : ∀ i fd', (w.sink.clients i).sock = some fd' → fd' ≠ fd := by
    rintro i _ hi rfl
    exact h.isOpen i _ hi hfd
  refine ⟨h.live, ?_, h.active, ?_, h.distinct, ?_, h.ctrl, h.owner⟩
  · -- `spawn`
    intro i hi
    cases hi
  · -- `isOpen`
    intro i fd' hi
    simpa [hother i fd' hi] using h.isOpen i fd' hi
  · -- `incoming`
    rintro cs (hcs | hcs)
    · obtain rfl : fd = cs := by simpa using hcs
      exact ⟨by simp, fun i hi => hother i fd hi rfl⟩
    · cases hcs

/-- Closing the descriptor `accept_task` is working on. -/
theorem close_incoming {cs : Nat} (hcs : w.accept = .gate cs ∨ w.accept = .insert cs) :
    SlotInv { w with accept := .accepting, lwip := w.lwip.close cs } := by
  obtain ⟨-, hfree⟩ := h.incoming cs hcs
  refine ⟨h.live, ?_, h.active, ?_, h.distinct, ?_, h.ctrl, h.owner⟩
  · -- `spawn`
    intro i hi
    cases hi
  · -- `isOpen`
    intro i fd hi
    have hne : fd ≠ cs := by
      rintro rfl
      exact hfree i hi
    simpa [Lwip.close, hne] using h.isOpen i fd hi
  · -- `incoming`
    rintro cs' (hcs' | hcs') <;> cases hcs'

theorem gate_step (hw : w.stepGate = some w') : SlotInv w' := by
  obtain ⟨cs, hacc, ⟨-, rfl⟩ | rfl⟩ := World.stepGate_cases hw
  · refine ⟨h.live, ?_, h.active, h.isOpen, h.distinct, ?_, h.ctrl, h.owner⟩
    · intro i hi
      cases hi
    · rintro cs' (hcs | hcs)
      · cases hcs
      · obtain rfl : cs = cs' := by simpa using hcs
        exact h.incoming cs (.inl hacc)
  · exact h.close_incoming (.inl hacc)

/-- The slot insertion: the descriptor moves from `accept_task` into a free slot. -/
theorem inserted {cs : Nat} (hacc : w.accept = .insert cs)
    (hfree : (w.sink.clients i).active = false) : SlotInv (w.inserted i cs) := by
  obtain ⟨hopen, hcs⟩ := h.incoming cs (.inr hacc)
  have hidle : w.task i = none := by
    by_contra hn
    rw [h.live i hn] at hfree
    cases hfree
  have hself : (w.inserted i cs).sink.clients i = ⟨some cs, true, .fresh, false, false⟩ := by
    simp [World.inserted, Sink.acceptInsert]
  have hother : ∀ j, j ≠ i → (w.inserted i cs).sink.clients j = w.sink.clients j := by
    intro j hj
    simp [World.inserted, Sink.acceptInsert, hj]
  have hctrl : w.sink.ctrlClient ≠ some i := by
    intro hi
    rw [h.owner i hi] at hfree
    cases hfree
  refine ⟨?_, ?_, ?_, ?_, ?_, ?_, ?_, ?_⟩
  · -- `live`
    intro j hj
    rcases eq_or_ne j i with rfl | hji
    · rw [hself]
    · rw [hother j hji]
      exact h.live j hj
  · -- `spawn`
    intro j hj
    obtain rfl : i = j := by simpa [World.inserted] using hj
    exact ⟨by rw [hself], hidle⟩
  · -- `active`
    intro j
    rcases eq_or_ne j i with rfl | hji
    · simp [hself]
    · rw [hother j hji]
      exact h.active j
  · -- `isOpen`
    intro j fd hj
    rcases eq_or_ne j i with rfl | hji
    · rw [hself] at hj
      cases hj
      exact hopen
    · rw [hother j hji] at hj
      exact h.isOpen j fd hj
  · -- `distinct`
    intro j k fd hj hk
    by_cases hji : j = i
    · by_cases hki : k = i
      · rw [hji, hki]
      · subst hji
        rw [hself] at hj
        rw [hother k hki] at hk
        cases hj
        exact absurd hk (hcs k)
    · rcases eq_or_ne k i with rfl | hki
      · rw [hself] at hk
        rw [hother j hji] at hj
        cases hk
        exact absurd hj (hcs j)
      · rw [hother j hji] at hj
        rw [hother k hki] at hk
        exact h.distinct j k fd hj hk
  · -- `incoming`
    rintro cs' (hcs' | hcs') <;> cases hcs'
  · -- `ctrl`
    intro j
    rcases eq_or_ne j i with rfl | hji
    · rw [hself]
      exact ⟨fun hf => (by cases hf), fun hf => absurd hf hctrl⟩
    · rw [hother j hji]
      exact h.ctrl j
  · -- `owner`
    intro j hj
    rcases eq_or_ne j i with rfl | hji
    · rw [hself]
    · rw [hother j hji]
      exact h.owner j hj

theorem insert_step {res : Nat → SendResult} (hw : w.stepInsert res = some w') : SlotInv w' := by
  obtain ⟨cs, hacc, rfl | ⟨i, hi, hs, -, ht, -⟩⟩ := World.stepInsert_spec hw
  · exact h.close_incoming (.inr hacc)
  · exact (h.inserted hacc (Sink.findFreeSlot_some hi)).of_same hs fun j => by rw [ht]; rfl

theorem spawn_step {ok : Bool} (hw : w.stepSpawn ok = some w') : SlotInv w' := by
  obtain ⟨i, hacc, rfl⟩ := World.stepSpawn_cases hw
  obtain ⟨hact, -⟩ := h.spawn i hacc
  have hrest : ∀ t : Slot → Option ClientPc, (∀ j, t j ≠ none → j = i ∨ w.task j ≠ none) →
      SlotInv { w with task := t, accept := .accepting } := by
    intro t ht
    refine ⟨?_, ?_, h.active, h.isOpen, h.distinct, ?_, h.ctrl, h.owner⟩
    · intro j hj
      rcases ht j hj with rfl | hj
      · exact hact
      · exact h.live j hj
    · intro j hj
      cases hj
    · rintro cs (hcs | hcs) <;> cases hcs
  cases ok with
  | false => exact hrest w.task fun j hj => Or.inr hj
  | true =>
    refine hrest (Function.update w.task i (some .recv)) fun j hj => ?_
    rcases eq_or_ne j i with hji | hji
    · exact Or.inl hji
    · exact Or.inr (by simpa [hji] using hj)

theorem acquire_step (hw : w.stepAcquire i = some w') : SlotInv w' := by
  obtain ⟨todo, ht, rfl⟩ := World.stepAcquire_cases hw
  have hact : (w.sink.clients i).active = true := h.live i (by rw [ht]; simp)
  have hmoved : SlotInv (w.setTask i (.rx todo)) := by
    refine h.of_same (.of_eq rfl rfl rfl rfl) fun j => ?_
    rcases eq_or_ne j i with rfl | hj
    · simp [World.setTask, ht]
    · simp [World.setTask, hj]
  have hsock : ∀ j, ((w.sink.comportAcquire i).clients j).sock = (w.sink.clients j).sock :=
    fun j => (w.sink.comportAcquire_slot i j).1
  have hactive : ∀ j, ((w.sink.comportAcquire i).clients j).active = (w.sink.clients j).active :=
    fun j => (w.sink.comportAcquire_slot i j).2
  refine ⟨?_, ?_, ?_, ?_, ?_, ?_, ?_, ?_⟩ <;> dsimp only
  · -- `live`
    intro j hj
    rw [hactive]
    exact hmoved.live j hj
  · -- `spawn`
    intro j hj
    rw [hactive]
    exact hmoved.spawn j hj
  · -- `active`
    intro j
    rw [hactive, hsock]
    exact h.active j
  · -- `isOpen`
    intro j fd
    rw [hsock]
    exact h.isOpen j fd
  · -- `distinct`
    intro j k fd
    rw [hsock, hsock]
    exact h.distinct j k fd
  · -- `incoming`
    intro cs hcs
    simp only [hsock]
    exact h.incoming cs hcs
  · -- `ctrl`
    exact w.sink.comportAcquire_flag i h.ctrl
  · -- `owner`
    intro j hj
    rw [hactive]
    rcases Sink.comportAcquire_owner hj with howner | rfl
    · exact h.owner j howner
    · exact hact

/-- The cleanup section closes the slot's own descriptor and frees the slot. -/
theorem cleanup_step (hw : w.stepCleanup i = some w') : SlotInv w' := by
  obtain ⟨ht, rfl⟩ := World.stepCleanup_cases hw
  have hact : (w.sink.clients i).active = true := h.live i (by rw [ht]; simp)
  obtain ⟨fd, hfd⟩ := Option.ne_none_iff_exists'.1 ((h.active i).1 hact)
  have hclosed : w.sink.closedSock i = some fd := by simp [Sink.closedSock, hact, hfd]
  have hother : ∀ j, j ≠ i → (w.sink.cleanup i).clients j = w.sink.clients j :=
    fun j hj => Sink.cleanup_other w.sink hj
  have hinact : ((w.sink.cleanup i).clients i).active = false := Sink.cleanup_inactive w.sink i
  have hsock : ((w.sink.cleanup i).clients i).sock = none := Sink.cleanup_sock w.sink hact
  have hctrl : ∀ j, (w.sink.cleanup i).ctrlClient = some j ↔
      w.sink.ctrlClient = some j ∧ j ≠ i := Sink.cleanup_ctrl w.sink i
  have hflag : ((w.sink.cleanup i).clients i).isController = false :=
    Sink.cleanup_flag w.sink (h.ctrl i).1
  rw [hclosed]
  refine ⟨?_, ?_, ?_, ?_, ?_, ?_, ?_, ?_⟩ <;> dsimp only
  · -- `live`
    intro j hj
    rcases eq_or_ne j i with rfl | hji
    · simp at hj
    · rw [hother j hji]
      exact h.live j (by simpa [hji] using hj)
  · -- `spawn`
    intro j hj
    obtain ⟨hjact, hjtask⟩ := h.spawn j hj
    have hji : j ≠ i := by
      rintro rfl
      rw [ht] at hjtask
      cases hjtask
    rw [hother j hji]
    exact ⟨hjact, by simpa [hji] using hjtask⟩
  · -- `active`
    intro j
    rcases eq_or_ne j i with rfl | hji
    · simp [hinact, hsock]
    · rw [hother j hji]
      exact h.active j
  · -- `isOpen`
    intro j fd' hj
    rcases eq_or_ne j i with rfl | hji
    · rw [hsock] at hj
      cases hj
    · rw [hother j hji] at hj
      have hne : fd' ≠ fd := by
        rintro rfl
        exact hji (h.distinct j i _ hj hfd)
      simpa [Lwip.close, hne] using h.isOpen j fd' hj
  · -- `distinct`
    intro j k fd' hj hk
    rcases eq_or_ne j i with rfl | hji
    · rw [hsock] at hj
      cases hj
    · rcases eq_or_ne k i with rfl | hki
      · rw [hsock] at hk
        cases hk
      · rw [hother j hji] at hj
        rw [hother k hki] at hk
        exact h.distinct j k fd' hj hk
  · -- `incoming`
    intro cs hcs
    obtain ⟨hopen, hfree⟩ := h.incoming cs hcs
    have hne : cs ≠ fd := by
      rintro rfl
      exact hfree i hfd
    refine ⟨by simpa [Lwip.close, hne] using hopen, fun j => ?_⟩
    rcases eq_or_ne j i with rfl | hji
    · simp [hsock]
    · rw [hother j hji]
      exact hfree j
  · -- `ctrl`
    intro j
    rw [hctrl]
    rcases eq_or_ne j i with rfl | hji
    · simp [hflag]
    · rw [hother j hji, h.ctrl]
      simp [hji]
  · -- `owner`
    intro j hj
    obtain ⟨hj, hji⟩ := (hctrl j).1 hj
    rw [hother j hji]
    exact h.owner j hj

/-- Dropping all clients: ownership ends, sockets are shut down, slots stay. -/
theorem dropped (replay : Replay) (plug : PlugState) :
    SlotInv { w.shutdownAll with
      plug := plug, sink := { w.sink.dropCtrl with replay := replay } } where
  live := h.live
  spawn := h.spawn
  active := h.active
  isOpen i fd hi := by
    rw [Ne, World.shutdownAll, Lwip.foldl_shutdown_eq_none]
    exact h.isOpen i fd hi
  distinct := h.distinct
  incoming cs hcs := by
    rw [Ne, World.shutdownAll, Lwip.foldl_shutdown_eq_none]
    exact h.incoming cs hcs
  ctrl i := by simp [Sink.dropCtrl]
  owner i hi := by cases hi

/-- Every step keeps the invariant. -/
theorem step {src : LineSource σ ρ} {l : Label ρ} (hw : (sinkSystem src).step w l = some w') :
    SlotInv w' := by
  cases l with
  | accept fd => exact h.accept_step hw
  | gate => exact h.gate_step hw
  | insert res => exact h.insert_step hw
  | spawn ok => exact h.spawn_step hw
  | recv i chunk => exact h.of_local (World.stepRecv_local hw).1
  | hangup i => exact h.of_local (World.stepHangup_local hw).1
  | call i => exact h.of_local (World.stepCall_local hw).1
  | send i r => exact h.of_local (World.stepSend_local hw).1
  | acquire i => exact h.acquire_step hw
  | snapshot i => exact h.of_local (World.stepSnapshot_local hw).1
  | getLc i => exact h.of_local (World.stepGetLc_local hw).1
  | apply i r => exact h.of_local (World.stepApply_local hw).1
  | cleanup i => exact h.cleanup_step hw
  | revert r =>
    obtain ⟨-, rfl⟩ := World.stepRevert_cases hw
    exact h.of_same (.of_eq rfl rfl rfl rfl) fun _ => Iff.rfl
  | drop =>
    cases hw
    exact h.dropped (replayArm w.clock) w.plug
  | onRx data res =>
    obtain ⟨hs, -, ht, -⟩ := World.stepOnRx_spec hw
    exact h.of_same hs fun j => by rw [ht]
  | unplug =>
    obtain ⟨-, rfl⟩ := World.stepUnplug_cases hw
    exact h.of_same (.of_eq rfl rfl rfl rfl) fun _ => Iff.rfl
  | sourceDown =>
    obtain ⟨-, rfl⟩ := World.stepSourceDown_cases hw
    exact h.dropped w.sink.replay .gone
  | replug =>
    obtain ⟨-, rfl⟩ := World.stepReplug_cases hw
    exact h.of_same (.of_eq rfl rfl rfl rfl) fun _ => Iff.rfl
  | tick us =>
    cases hw
    exact h.of_same (.of_eq rfl rfl rfl rfl) fun _ => Iff.rfl

end SlotInv

/-- The slot table is consistent in every reachable state. -/
theorem reaches_slotInv {src : LineSource σ ρ} {ok : World σ → Label ρ → Prop}
    {plug : PlugState} {bridge : Option σ}
    (h : (sinkSystem src).Reaches ok (World.start plug bridge) w) : SlotInv w :=
  Machine.Reaches.invariant h (SlotInv.start plug bridge) fun _ _ _ hs _ hw => hs.step hw

end Cdc2Net.SinkTcp
