import Cdc2Net.SinkTcp.SlotInvariant

/-!
# Clients and the source going down

`accept_task` admits a client only while the source is ready, and
`on_source_down` shuts the active clients down: together they are meant to keep
clients connected only while a device is behind the bridge. The readiness check
and the insertion into a slot are separate steps. `connected_only_with_device`
holds in the runs whose sweep never falls between the two;
`connected_only_with_device_fails` is a run where it does, and a client stays
connected to a bridge without a device.
-/

set_option autoImplicit false

namespace Cdc2Net.SinkTcp

open Cdc2Net.Source
open Cdc2Net.Lib.Transition

universe u v

variable {σ : Type u} {ρ : Type v} {src : LineSource σ ρ} {w w' : World σ} {i : Slot} {l : Label ρ}

namespace World

/-- The socket of every active client has been shut down. -/
def AllShut (w : World σ) : Prop := ∀ i, (w.sink.clients i).active = true →
  ∃ fd, (w.sink.clients i).sock = some fd ∧ w.lwip.IsShut fd

/-- The source is not ready, its notification is done and neither `accept_task`
nor a cleanup is at work: then every active client is shut down. -/
def ConnectedOnlyWithDevice (w : World σ) : Prop :=
  w.plug = .gone → w.accept = .accepting → (∀ i, w.task i ≠ some .cleanup) → w.AllShut

/-- `on_source_down` does not run between `accept_task`'s check of the source
and its `S.mtx` section. -/
def SweepNotInAccept (w : World σ) (l : Label ρ) : Prop :=
  (l matches .sourceDown) → ¬ (w.accept matches .insert _)

instance (w : World σ) : DecidablePred (SweepNotInAccept (ρ := ρ) w) := fun l => by
  unfold SweepNotInAccept
  infer_instance

/-- What the steps keep: once the source is gone, no client is past the check and
not yet in a slot, and all active clients are shut down. -/
structure GoneInv (w : World σ) : Prop where
  slots : SlotInv w
  noInsert : w.plug = .gone → ∀ cs, w.accept ≠ .insert cs
  shut : w.plug = .gone → w.AllShut

theorem AllShut.of_slots (h : w.AllShut)
    (hsock : ∀ j, (w'.sink.clients j).sock = (w.sink.clients j).sock)
    (hactive : ∀ j, (w'.sink.clients j).active = (w.sink.clients j).active)
    (hshut : ∀ j fd, (w.sink.clients j).sock = some fd → w.lwip.IsShut fd → w'.lwip.IsShut fd) :
    w'.AllShut := by
  intro j hj
  obtain ⟨fd, hfd, hs⟩ := h j (hactive j ▸ hj)
  exact ⟨fd, (hsock j).trans hfd, hshut j fd hfd hs⟩

theorem AllShut.of_same (h : w.AllShut) (hs : SameSlots w w') (hr : SameRest w w') : w'.AllShut :=
  h.of_slots hs.sock hs.active fun _ fd _ => hr.shut fd

theorem GoneInv.of_same (h : GoneInv w) (hslots : SlotInv w') (hs : SameSlots w w')
    (hr : SameRest w w') : GoneInv w' where
  slots := hslots
  noInsert hg cs := by
    rw [hs.accept]
    exact h.noInsert (hr.plug ▸ hg) cs
  shut hg := (h.shut (hr.plug ▸ hg)).of_same hs hr

/-- A descriptor other than `fd` is left alone when `fd` is opened or closed. -/
theorem isShut_update {n : Lwip} {fd fd' : Nat} {k : Option Sock} (hne : fd' ≠ fd)
    (h : n.IsShut fd') : Lwip.IsShut (Function.update n fd k) fd' := by
  obtain ⟨k', hk', hs⟩ := h
  exact ⟨k', by simp [hne, hk'], hs⟩

theorem stepAccept_shut {fd : Nat} (h : GoneInv w) (hw : w.stepAccept fd = some w')
    (hg : w'.plug = .gone) : (∀ cs, w'.accept ≠ .insert cs) ∧ w'.AllShut := by
  obtain ⟨hfree, rfl⟩ := stepAccept_cases hw
  refine ⟨fun cs hcs => (by cases hcs), ?_⟩
  refine (h.shut hg).of_slots (fun _ => rfl) (fun _ => rfl) fun j fd' hj => isShut_update ?_
  rintro rfl
  exact h.slots.isOpen j _ hj hfree

theorem stepGate_shut (h : GoneInv w) (hw : w.stepGate = some w') (hg : w'.plug = .gone) :
    (∀ cs, w'.accept ≠ .insert cs) ∧ w'.AllShut := by
  obtain ⟨cs, hacc, ⟨hready, rfl⟩ | rfl⟩ := stepGate_cases hw
  · -- a source that is gone is not ready
    have hup : w.plug = .up := by
      simp only [ready, Bool.and_eq_true, decide_eq_true_eq] at hready
      exact hready.1
    rw [show w.plug = .gone from hg] at hup
    cases hup
  · refine ⟨fun cs hcs => (by cases hcs), ?_⟩
    refine (h.shut hg).of_slots (fun _ => rfl) (fun _ => rfl) fun j fd hj => isShut_update ?_
    rintro rfl
    exact (h.slots.incoming _ (.inl hacc)).2 j hj

theorem stepInsert_shut {res : Nat → SendResult} (h : GoneInv w) (hw : w.stepInsert res = some w')
    (hg : w'.plug = .gone) : (∀ cs, w'.accept ≠ .insert cs) ∧ w'.AllShut := by
  -- no connection is past the check while the source is gone
  obtain ⟨cs, hacc, rfl | ⟨i, -, -, hr, -, -⟩⟩ := stepInsert_spec hw
  · exact absurd hacc (h.noInsert hg cs)
  · exact absurd hacc (h.noInsert (hr.plug ▸ hg) cs)

theorem stepSpawn_shut {ok : Bool} (h : GoneInv w) (hw : w.stepSpawn ok = some w')
    (hg : w'.plug = .gone) : (∀ cs, w'.accept ≠ .insert cs) ∧ w'.AllShut := by
  obtain ⟨k, -, rfl⟩ := stepSpawn_cases hw
  cases ok <;> exact ⟨fun cs hcs => (by cases hcs), h.shut hg⟩

theorem stepAcquire_shut (h : GoneInv w) (hw : w.stepAcquire i = some w') (hg : w'.plug = .gone) :
    (∀ cs, w'.accept ≠ .insert cs) ∧ w'.AllShut := by
  obtain ⟨todo, -, rfl⟩ := stepAcquire_cases hw
  have hslot := w.sink.comportAcquire_slot i
  exact ⟨h.noInsert hg,
    (h.shut hg).of_slots (fun j => (hslot j).1) (fun j => (hslot j).2) fun _ _ _ hs => hs⟩

theorem stepCleanup_shut (h : GoneInv w) (hw : w.stepCleanup i = some w') (hg : w'.plug = .gone) :
    (∀ cs, w'.accept ≠ .insert cs) ∧ w'.AllShut := by
  obtain ⟨ht, rfl⟩ := stepCleanup_cases hw
  refine ⟨h.noInsert hg, fun j hj => ?_⟩
  have hact : (w.sink.clients i).active = true := h.slots.live i (by rw [ht]; simp)
  obtain ⟨fd, hfd⟩ := Option.ne_none_iff_exists'.1 ((h.slots.active i).1 hact)
  have hji : j ≠ i := by
    rintro rfl
    rw [show _ = false from Sink.cleanup_inactive w.sink j] at hj
    cases hj
  dsimp only at hj ⊢
  rw [Sink.cleanup_other w.sink hji] at hj ⊢
  obtain ⟨fd', hfd', hs⟩ := h.shut hg j hj
  have hne : fd' ≠ fd := by
    rintro rfl
    exact hji (h.slots.distinct j i _ hfd' hfd)
  refine ⟨fd', hfd', ?_⟩
  simpa [Sink.closedSock, hact, hfd, Lwip.close] using isShut_update (k := none) hne hs

/-- The sweep of `on_source_down` and of a drop shuts every active client. -/
theorem allShut_shutdownAll (h : SlotInv w) : w.shutdownAll.AllShut := by
  intro j hj
  have hact : (w.sink.clients j).active = true := hj
  obtain ⟨fd, hfd⟩ := Option.ne_none_iff_exists'.1 ((h.active j).1 hact)
  exact ⟨fd, hfd, Lwip.isShut_foldl (Sink.mem_activeSocks hact hfd) (h.isOpen j fd hfd)⟩

theorem goneInv_step (h : GoneInv w) (hok : SweepNotInAccept w l)
    (hw : (sinkSystem src).step w l = some w') : GoneInv w' := by
  have hslots := h.slots.step hw
  have of_pair : (w'.plug = .gone → (∀ cs, w'.accept ≠ .insert cs) ∧ w'.AllShut) → GoneInv w' :=
    fun hp => ⟨hslots, fun hg => (hp hg).1, fun hg => (hp hg).2⟩
  cases l with
  | accept fd => exact of_pair (stepAccept_shut h hw)
  | gate => exact of_pair (stepGate_shut h hw)
  | insert res => exact of_pair (stepInsert_shut h hw)
  | spawn ok => exact of_pair (stepSpawn_shut h hw)
  | acquire i => exact of_pair (stepAcquire_shut h hw)
  | cleanup i => exact of_pair (stepCleanup_shut h hw)
  | recv i chunk =>
    have hl := (stepRecv_local hw).1
    exact h.of_same hslots hl.slots hl.rest
  | hangup i =>
    have hl := (stepHangup_local hw).1
    exact h.of_same hslots hl.slots hl.rest
  | call i =>
    have hl := (stepCall_local hw).1
    exact h.of_same hslots hl.slots hl.rest
  | send i r =>
    have hl := (stepSend_local hw).1
    exact h.of_same hslots hl.slots hl.rest
  | snapshot i =>
    have hl := (stepSnapshot_local hw).1
    exact h.of_same hslots hl.slots hl.rest
  | getLc i =>
    have hl := (stepGetLc_local hw).1
    exact h.of_same hslots hl.slots hl.rest
  | apply i r =>
    have hl := (stepApply_local hw).1
    exact h.of_same hslots hl.slots hl.rest
  | onRx data res =>
    obtain ⟨hs, hr, -, -⟩ := stepOnRx_spec hw
    exact h.of_same hslots hs hr
  | revert r =>
    obtain ⟨-, rfl⟩ := stepRevert_cases hw
    exact ⟨hslots, h.noInsert, h.shut⟩
  | drop =>
    cases hw
    refine ⟨hslots, h.noInsert, fun hg => ?_⟩
    exact (allShut_shutdownAll h.slots).of_slots (fun _ => rfl) (fun _ => rfl) fun _ _ _ hs => hs
  | unplug =>
    obtain ⟨-, rfl⟩ := stepUnplug_cases hw
    exact of_pair fun hg => by cases hg
  | sourceDown =>
    obtain ⟨-, rfl⟩ := stepSourceDown_cases hw
    refine of_pair fun _ => ⟨fun cs hcs => hok rfl (by rw [show w.accept = _ from hcs]), ?_⟩
    exact (allShut_shutdownAll h.slots).of_slots (fun _ => rfl) (fun _ => rfl) fun _ _ _ hs => hs
  | replug =>
    obtain ⟨-, rfl⟩ := stepReplug_cases hw
    exact of_pair fun hg => by cases hg
  | tick us =>
    cases hw
    exact ⟨hslots, h.noInsert, h.shut⟩

end World

open World

theorem goneInv_start (plug : PlugState) (bridge : Option σ) :
    GoneInv (World.start plug bridge) where
  slots := .start plug bridge
  noInsert _ cs hcs := by cases hcs
  shut _ i hi := by cases hi

/-- **Connected only with a device.** In every run in which `on_source_down`
never runs between `accept_task`'s check and its insertion, a source that is gone
and has said so leaves no client connected. -/
theorem connected_only_with_device {plug : PlugState} {bridge : Option σ}
    (h : (sinkSystem src).Reaches SweepNotInAccept (World.start plug bridge) w) :
    w.ConnectedOnlyWithDevice := by
  have hinv : GoneInv w := Machine.Reaches.invariant h (goneInv_start plug bridge)
    fun _ _ _ hs hok ht => goneInv_step hs hok ht
  exact fun hgone _ _ => hinv.shut hgone

/-- A client connects and the source goes: the sweep shuts the client down. -/
theorem connected_only_with_device_sweep : ∃ w, (sinkSystem shadowSource).Reaches SweepNotInAccept
    (World.start .up (some ⟨115200, 8, 0, 0⟩)) w ∧
    (w.sink.clients 0).active = true ∧ w.AllShut := by
  obtain ⟨w, hw, hgone, hacc, hclean, hact⟩ := Machine.exists_reaches_of_runIf
    (sinkSystem shadowSource) SweepNotInAccept
    (fun w => w.plug = .gone ∧ w.accept = .accepting ∧ (∀ i, w.task i ≠ some .cleanup) ∧
      (w.sink.clients 0).active = true) (World.start .up (some ⟨115200, 8, 0, 0⟩))
    [.accept 3, .gate, .insert fun _ => .eagain, .spawn true, .unplug, .sourceDown]
    (by decide +kernel)
  exact ⟨w, hw, hact, connected_only_with_device hw hgone hacc hclean⟩

/-- The sweep runs after `accept_task` has seen the source ready and before the
new client is in a slot: the client stays connected. -/
theorem connected_only_with_device_fails :
    ¬ ∀ w, (sinkSystem shadowSource).Reaches (fun _ _ => True)
      (World.start .up (some ⟨115200, 8, 0, 0⟩)) w → w.ConnectedOnlyWithDevice := by
  obtain ⟨w, hw, hgone, hacc, hclean, hact, hsock, hopen⟩ := Machine.exists_reaches_of_runIf
    (sinkSystem shadowSource) (fun _ _ => True)
    (fun w => w.plug = .gone ∧ w.accept = .accepting ∧ (∀ i, w.task i ≠ some .cleanup) ∧
      (w.sink.clients 0).active = true ∧ (w.sink.clients 0).sock = some 3 ∧
      w.lwip 3 = some ⟨0, false⟩) (World.start .up (some ⟨115200, 8, 0, 0⟩))
    [.accept 3, .gate, .unplug, .sourceDown, .insert fun _ => .eagain, .spawn true]
    (by decide +kernel)
  intro hall
  obtain ⟨fd, hfd, k, hk, hshut⟩ := hall w hw hgone hacc hclean 0 hact
  rw [hsock] at hfd
  cases hfd
  rw [hopen] at hk
  cases hk
  cases hshut

end Cdc2Net.SinkTcp
