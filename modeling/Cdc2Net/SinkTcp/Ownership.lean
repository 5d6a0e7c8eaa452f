import Cdc2Net.SinkTcp.SlotInvariant
import Cdc2Net.Source.Uart

/-!
# Ownership of the line coding

The first client that negotiates COM-PORT owns the line: only its sets reach the
source, and when it goes the source is reverted. The rules live in five places
that never hold `S.mtx` together: `comport_acquire`, the snapshot in `tn_subneg`,
the line-coding call, the cleanup section and the revert after it.

`step_line` reduces every step of the system to its effect on owner, reverts to
come and source (`LineStep`). From it: with the UART source the line is back at
the device's own coding once nobody owns it (`release_restores_default`), and
only the owner's sets reach the source and stay (`owner_drives_line`). Both need
conditions on the drop of all clients, which clears the owner and starts no
revert; without them both fail (`release_restores_default_fails`,
`owner_drives_line_fails`).
-/

set_option autoImplicit false

namespace Cdc2Net.SinkTcp

open Cdc2Net.SinkTcp.Telnet
open Cdc2Net.Source
open Cdc2Net.Source.Uart
open Cdc2Net.Lib.Transition

universe u v

variable {σ : Type u} {ρ : Type v} {src : LineSource σ ρ} {w w' : World σ} {i : Slot} {l : Label ρ}

/-! ## The effect of a step on the line -/

/-- The task of slot `i` holds a true snapshot for a set it has still to make. -/
def World.Pending (w : World σ) (i : Slot) : Prop := ∃ pc, w.task i = some pc ∧ pc.Pending

instance (w : World σ) (i : Slot) : Decidable (w.Pending i) :=
  decidable_of_iff ((w.task i).any fun pc => decide pc.Pending) (by
    cases ht : w.task i <;> simp [World.Pending, ht])

/-- Owner, reverts to come, and source. -/
structure Line (σ : Type u) where
  owner : Option Slot
  reverting : Nat
  bridge : Option σ

/-- The line in a state of the system. -/
def World.line (w : World σ) : Line σ := ⟨w.sink.ctrlClient, w.reverting, w.bridge⟩

/-- What a step can do to the line. -/
inductive LineStep (src : LineSource σ ρ) (w : World σ) : Label ρ → Line σ → Prop where
  | quiet (l : Label ρ) : LineStep src w l w.line
  | apply (i : Slot) (r : ρ) (new : LineCoding) (hcall : w.applyCall i = some new) :
      LineStep src w (.apply i r)
        { w.line with bridge := (src.bridgeApplyLineCoding w.bridge r new).2 }
  | acquire (i : Slot) (hfree : w.sink.ctrlClient = none) :
      LineStep src w (.acquire i) { w.line with owner := some i }
  | release (i : Slot) (howner : w.sink.ctrlClient = some i) (hpc : w.task i = some .cleanup) :
      LineStep src w (.cleanup i) { w.line with owner := none, reverting := w.reverting + 1 }
  | revert (r : ρ) (hpos : 0 < w.reverting) :
      LineStep src w (.revert r)
        { w.line with
          reverting := w.reverting - 1, bridge := src.bridgeRevertLineCoding w.bridge r }
  | lose (l : Label ρ) (hl : l = .drop ∨ l = .sourceDown) :
      LineStep src w l { w.line with owner := none }

/-- A task that holds a true snapshot after the step held it before, or belongs to
the owner before and after. -/
def PendingFrom (w w' : World σ) : Prop :=
  ∀ i, w'.Pending i →
    w.Pending i ∨ (w.sink.ctrlClient = some i ∧ w'.sink.ctrlClient = some i)

theorem PendingFrom.of_task (h : w'.task = w.task) : PendingFrom w w' := fun i hi =>
  Or.inl (by simpa [World.Pending, h] using hi)

/-- A moved or ended task that is not pending leaves the others. -/
theorem PendingFrom.of_update {t : Option ClientPc} (ht : w'.task = Function.update w.task i t)
    (hpc : ∀ pc, t = some pc → ¬ pc.Pending) : PendingFrom w w' := by
  rintro j ⟨pc, hj, hpend⟩
  rw [ht] at hj
  rcases eq_or_ne j i with rfl | hji
  · rw [Function.update_self] at hj
    exact absurd hpend (hpc pc hj)
  · rw [Function.update_of_ne hji] at hj
    exact Or.inl ⟨pc, hj, hpend⟩

theorem LocalStep.pendingFrom (h : LocalStep w w' i) (hs : SlotInv w) : PendingFrom w w' := by
  obtain ⟨pc, pc', ht, ht', hpend⟩ := h.moves
  rintro j ⟨pcj, hj, hp⟩
  rw [ht'] at hj
  rcases eq_or_ne j i with rfl | hji
  · rw [Function.update_self] at hj
    cases hj
    rcases hpend hp with hp | hc
    · exact Or.inl ⟨pc, ht, hp⟩
    · have howner := (hs.ctrl j).1 hc
      exact Or.inr ⟨howner, h.slots.ctrl.trans howner⟩
  · rw [Function.update_of_ne hji] at hj
    exact Or.inl ⟨pcj, hj, hp⟩

theorem LocalStep.line (h : LocalStep w w' i) (hb : w'.bridge = w.bridge) :
    w'.line = w.line := by
  simp only [World.line, h.slots.ctrl, h.rest.reverting, hb]

/-- A local step that leaves the source is quiet. -/
theorem LocalStep.quiet (h : LocalStep w w' i ∧ w'.bridge = w.bridge) (hs : SlotInv w)
    (l : Label ρ) : LineStep src w l w'.line ∧ PendingFrom w w' := by
  rw [h.1.line h.2]
  exact ⟨.quiet l, h.1.pendingFrom hs⟩

theorem step_line_insert {res : Nat → SendResult} (hw : w.stepInsert res = some w') :
    w'.line = w.line ∧ w'.task = w.task := by
  obtain ⟨cs, -, rfl | ⟨i, -, hs, hr, ht, hb⟩⟩ := World.stepInsert_spec hw
  · exact ⟨rfl, rfl⟩
  · refine ⟨?_, ht⟩
    simp only [World.line, Line.mk.injEq]
    exact ⟨hs.ctrl, hr.reverting, hb⟩

theorem step_line_cleanup (hw : w.stepCleanup i = some w') :
    LineStep src w (.cleanup i) w'.line ∧ PendingFrom w w' := by
  obtain ⟨ht, rfl⟩ := World.stepCleanup_cases hw
  refine ⟨?_, .of_update rfl fun pc h => by cases h⟩
  by_cases howner : w.sink.ctrlClient = some i
  · have hctrl : (w.sink.cleanup i).ctrlClient = none := by
      cases hc : (w.sink.cleanup i).ctrlClient with
      | none => rfl
      | some j =>
        obtain ⟨hj, hji⟩ := (Sink.cleanup_ctrl w.sink i j).1 hc
        rw [howner] at hj
        exact absurd (Option.some.inj hj).symm hji
    have h : LineStep src w _ _ := .release i howner ht
    simpa [World.line, hctrl, Sink.wasCtrl, howner] using h
  · have hctrl : (w.sink.cleanup i).ctrlClient = w.sink.ctrlClient := by
      refine Option.ext fun j => ?_
      rw [Sink.cleanup_ctrl]
      refine ⟨fun hj => hj.1, fun hj => ⟨hj, ?_⟩⟩
      rintro rfl
      exact howner hj
    have h : LineStep src w _ _ := .quiet (.cleanup i)
    simpa [World.line, hctrl, Sink.wasCtrl, howner] using h

theorem step_line_acquire (hw : w.stepAcquire i = some w') :
    LineStep src w (.acquire i) w'.line ∧ PendingFrom w w' := by
  obtain ⟨todo, -, rfl⟩ := World.stepAcquire_cases hw
  refine ⟨?_, .of_update rfl fun pc h => by cases h; exact fun h => h⟩
  by_cases hfree : w.sink.ctrlClient = none
  · have h : LineStep src w _ _ := .acquire i hfree
    simpa [World.line, World.setTask, Sink.comportAcquire, hfree] using h
  · have h : LineStep src w _ _ := .quiet (.acquire i)
    simpa [World.line, World.setTask, Sink.comportAcquire, hfree] using h

/-- Every step does one of the things `LineStep` lists, and creates a true
snapshot only for the owner. -/
theorem step_line (hs : SlotInv w) (hw : (sinkSystem src).step w l = some w') :
    LineStep src w l w'.line ∧ PendingFrom w w' := by
  cases l with
  | accept fd =>
    obtain ⟨-, rfl⟩ := World.stepAccept_cases hw
    exact ⟨.quiet _, .of_task rfl⟩
  | gate =>
    obtain ⟨cs, -, ⟨-, rfl⟩ | rfl⟩ := World.stepGate_cases hw
    · exact ⟨.quiet _, .of_task rfl⟩
    · exact ⟨.quiet _, .of_task rfl⟩
  | insert res =>
    obtain ⟨hline, ht⟩ := step_line_insert hw
    rw [hline]
    exact ⟨.quiet _, .of_task ht⟩
  | spawn ok =>
    obtain ⟨k, -, rfl⟩ := World.stepSpawn_cases hw
    cases ok with
    | false => exact ⟨.quiet _, .of_task rfl⟩
    | true => exact ⟨.quiet _, .of_update (i := k) rfl fun pc h => by cases h; exact fun h => h⟩
  | recv i chunk => exact LocalStep.quiet (World.stepRecv_local hw) hs _
  | hangup i => exact LocalStep.quiet (World.stepHangup_local hw) hs _
  | call i => exact LocalStep.quiet (World.stepCall_local hw) hs _
  | send i r => exact LocalStep.quiet (World.stepSend_local hw) hs _
  | acquire i => exact step_line_acquire hw
  | snapshot i => exact LocalStep.quiet (World.stepSnapshot_local hw) hs _
  | getLc i => exact LocalStep.quiet (World.stepGetLc_local hw) hs _
  | apply i r =>
    obtain ⟨hlocal, ⟨-, hb⟩ | ⟨new, hcall, hb⟩⟩ := World.stepApply_local hw
    · exact LocalStep.quiet ⟨hlocal, hb⟩ hs _
    · have h : LineStep src w _ _ := .apply i r new hcall
      refine ⟨?_, hlocal.pendingFrom hs⟩
      simpa [World.line, hlocal.slots.ctrl, hlocal.rest.reverting, hb] using h
  | cleanup i => exact step_line_cleanup hw
  | revert r =>
    obtain ⟨hpos, rfl⟩ := World.stepRevert_cases hw
    exact ⟨.revert r hpos, .of_task rfl⟩
  | drop =>
    cases hw
    exact ⟨.lose _ (.inl rfl), .of_task rfl⟩
  | onRx data res =>
    obtain ⟨hsame, hr, ht, hb⟩ := World.stepOnRx_spec hw
    have hline : w'.line = w.line := by simp only [World.line, hsame.ctrl, hr.reverting, hb]
    rw [hline]
    exact ⟨.quiet _, .of_task ht⟩
  | unplug =>
    obtain ⟨-, rfl⟩ := World.stepUnplug_cases hw
    exact ⟨.quiet _, .of_task rfl⟩
  | sourceDown =>
    obtain ⟨-, rfl⟩ := World.stepSourceDown_cases hw
    exact ⟨.lose _ (.inr rfl), .of_task rfl⟩
  | replug =>
    obtain ⟨-, rfl⟩ := World.stepReplug_cases hw
    exact ⟨.quiet _, .of_task rfl⟩
  | tick us =>
    cases hw
    exact ⟨.quiet _, .of_task rfl⟩

/-- Holders of a true snapshot are the owner. -/
def PendingOwned (w : World σ) : Prop := ∀ i, w.Pending i → w.sink.ctrlClient = some i

theorem pendingOwned_start (plug : PlugState) (bridge : Option σ) :
    PendingOwned (World.start plug bridge) := by
  rintro i ⟨pc, hpc, -⟩
  cases hpc

/-- The owner can be lost under a true snapshot only by a drop. -/
theorem pendingOwned_step (hp : PendingOwned w) (hs : SlotInv w)
    (hw : (sinkSystem src).step w l = some w')
    (hdrop : l = .drop ∨ l = .sourceDown → ∀ i, ¬ w.Pending i) : PendingOwned w' := by
  obtain ⟨hline, hfrom⟩ := step_line hs hw
  intro j hj
  rcases hfrom j hj with hold | ⟨-, hnew⟩
  · -- an old snapshot: its task was the owner, and is still unless the step took that away
    have howner := hp j hold
    generalize hll : w'.line = line at hline
    have hctrl : w'.sink.ctrlClient = line.owner := by rw [← hll]; rfl
    rw [hctrl]
    cases hline with
    | quiet l => exact howner
    | apply i r new hcall => exact howner
    | acquire i hfree =>
      rw [hfree] at howner
      cases howner
    | release i hi hpc =>
      rw [howner] at hi
      cases hi
      obtain ⟨pc, ht, hpend⟩ := hold
      rw [hpc] at ht
      cases ht
      exact hpend.elim
    | revert r hpos => exact howner
    | lose l hl => exact absurd hold (hdrop hl j)
  · exact hnew

/-! ## The default comes back when nobody owns the line -/

section Release

variable (p : Profile) (nvs : NvsTable)

/-- The UART is at the device's own coding and says so. -/
def AtDefault (b : Option State) : Prop :=
  (b.map fun s => (s.lc, s.lcSource)) = some (resolved p nvs)

instance (b : Option State) : Decidable (AtDefault p nvs b) := by
  unfold AtDefault
  infer_instance

/-- No task is in `process_rx` or in its cleanup. -/
def World.Quiescent (w : World σ) : Prop :=
  (∀ i, w.task i = none ∨ w.task i = some .recv) ∧ w.reverting = 0

instance (w : World σ) : Decidable w.Quiescent := by
  unfold World.Quiescent
  infer_instance

/-- Without an owner and with all tasks in `recv` the UART is at its default,
with provenance 0 or 1. -/
def DefaultWhenReleased (w : World State) : Prop :=
  w.sink.ctrlClient = none → w.Quiescent → ∃ s, w.bridge = some s ∧
    s.lc = (resolved p nvs).1 ∧ s.lcSource = (resolved p nvs).2 ∧
    (s.lcSource = 0 ∨ s.lcSource = 1)

/-- The steps of a UART run: the source does not go down, and the driver accepts
every setting. -/
def UartStep : Label SetResults → Prop
  | .sourceDown => False
  | .apply _ r => r = .allOk
  | .revert r => r = .allOk
  | _ => True

instance : DecidablePred UartStep := fun l => by
  cases l <;> unfold UartStep <;> infer_instance

/-- A drop of all clients is taken only when there is nothing to revert, or a
revert is on its way anyway, and no task holds a true snapshot. -/
def DropKeepsDefault (w : World State) (l : Label SetResults) : Prop :=
  UartStep l ∧ (l matches .drop →
    (w.sink.ctrlClient = none ∨ AtDefault p nvs w.bridge ∨ 0 < w.reverting) ∧
      ∀ i, ¬ w.Pending i)

instance (w : World State) : DecidablePred (DropKeepsDefault p nvs w) := fun l => by
  unfold DropKeepsDefault
  infer_instance

/-- What the steps keep: nobody but the owner can set, and with no owner and no
revert to come the UART is at its default. -/
structure ReleaseInv (w : World State) : Prop where
  slots : SlotInv w
  pending : PendingOwned w
  attached : w.bridge ≠ none
  default : w.sink.ctrlClient = none → w.reverting = 0 → AtDefault p nvs w.bridge

theorem atDefault_revert {b : Option State} (h : b ≠ none) :
    AtDefault p nvs ((lineSource p nvs).bridgeRevertLineCoding b .allOk) := by
  obtain ⟨s, rfl⟩ := Option.ne_none_iff_exists'.1 h
  rfl

variable {p nvs}

theorem releaseInv_step {w w' : World State} {l : Label SetResults} (h : ReleaseInv p nvs w)
    (hok : DropKeepsDefault p nvs w l)
    (hw : (sinkSystem (lineSource p nvs)).step w l = some w') : ReleaseInv p nvs w' := by
  obtain ⟨hsteps, hdrop⟩ := hok
  have hsrc : l ≠ .sourceDown := by
    rintro rfl
    exact hsteps
  have hpend : PendingOwned w' := by
    refine pendingOwned_step h.pending h.slots hw ?_
    rintro (rfl | hl)
    · exact (hdrop rfl).2
    · exact absurd hl hsrc
  obtain ⟨hline, -⟩ := step_line h.slots hw
  generalize hll : w'.line = line at hline
  have key : line.bridge ≠ none ∧
      (line.owner = none → line.reverting = 0 → AtDefault p nvs line.bridge) := by
    cases hline with
    | quiet l => exact ⟨h.attached, h.default⟩
    | apply i r new hcall =>
      -- the caller is the owner, so the default is not promised
      have howner := h.pending i (World.applyCall_pending hcall)
      refine ⟨?_, fun hnone => ?_⟩
      · obtain ⟨s, hb⟩ := Option.ne_none_iff_exists'.1 h.attached
        simp [LineSource.bridgeApplyLineCoding, hb]
      · rw [show w.line.owner = some i from howner] at hnone
        cases hnone
    | acquire i hfree => exact ⟨h.attached, fun hnone => by cases hnone⟩
    -- the owner's cleanup leaves a revert to come
    | release i howner hpc => exact ⟨h.attached, fun _ hrev => by cases hrev⟩
    | revert r hpos =>
      obtain rfl : r = .allOk := hsteps
      refine ⟨?_, fun _ _ => atDefault_revert p nvs h.attached⟩
      simpa [LineSource.bridgeRevertLineCoding] using h.attached
    | lose l hl =>
      rcases hl with rfl | hl
      · -- a drop ends the ownership without a revert
        refine ⟨h.attached, fun _ hrev => ?_⟩
        rcases (hdrop rfl).1 with hfree | hdef | hpos
        · exact h.default hfree hrev
        · exact hdef
        · exact absurd hrev (Nat.ne_of_gt hpos)
      · exact absurd hl hsrc
  rw [← hll] at key
  exact ⟨h.slots.step hw, hpend, key.1, key.2⟩

/-- **Release restores the default.** In every run of the UART system in which a
drop of all clients finds nothing to revert, or a revert on its way, and no task
with a true snapshot, the UART is at the device's own coding whenever nobody owns
the line and no task is at work. -/
theorem release_restores_default (plug : PlugState) {w : World State}
    (h : (sinkSystem (lineSource p nvs)).Reaches (DropKeepsDefault p nvs)
      (World.start plug (some (sourceUartInit p nvs))) w) : DefaultWhenReleased p nvs w := by
  have hinv : ReleaseInv p nvs w := by
    refine Machine.Reaches.invariant h ⟨.start _ _, pendingOwned_start _ _, by simp [World.start],
      fun _ _ => rfl⟩ fun s l t hs hok ht => releaseInv_step hs hok ht
  intro hfree hquiet
  obtain ⟨s, hs⟩ := Option.ne_none_iff_exists'.1 hinv.attached
  have hdef := hinv.default hfree hquiet.2
  rw [AtDefault, hs, Option.map_some, Option.some.injEq, Prod.ext_iff] at hdef
  have hsource : s.lcSource = (resolved p nvs).2 := hdef.2
  exact ⟨s, hs, hdef.1, hsource, hsource ▸ resolved_source p nvs⟩

end Release

/-- The steps of accepting a client on descriptor `fd`. -/
def connectSteps (fd : Nat) : List (Label SetResults) :=
  [.accept fd, .gate, .insert fun _ => .eagain, .spawn true]

/-- The steps of a `WILL COM-PORT-OPTION` of slot `i` up to `comport_acquire`. -/
def acquireSteps (i : Slot) : List (Label SetResults) :=
  [.recv i [tcIac, tcWill, toptComport], .call i, .call i, .send i (.accepted 3), .acquire i,
    .call i]

/-- The steps of a `SET-BAUDRATE 9600` of slot `i` up to its line-coding call. -/
def setBaudSteps (i : Slot) : List (Label SetResults) :=
  [.recv i [tcIac, tcSb, toptComport, cpoSetBaudrate, 0, 0, 0x25, 0x80, tcIac, tcSe], .call i,
    .snapshot i, .getLc i]

/-- The line-coding call of slot `i` and the reply to the client. -/
def replySteps (i : Slot) : List (Label SetResults) :=
  [.apply i .allOk, .send i (.accepted 10), .call i]

/-- A client that takes the line, sets 9600 baud and leaves. -/
def sessionSteps (leave : List (Label SetResults)) : List (Label SetResults) :=
  connectSteps 3 ++ acquireSteps 0 ++ setBaudSteps 0 ++ replySteps 0 ++ leave

/-- The UART source of a TCM515 module, over an NVS without entries. -/
def tcmSource : LineSource State SetResults := lineSource (tcm515 460800) ⟨false, fun _ => none⟩

/-- The system over that source. -/
def tcmSystem : Machine (World State) (Label SetResults) := sinkSystem tcmSource

/-- Its state after start-up. -/
def tcmStart : World State :=
  World.start .up (some (sourceUartInit (tcm515 460800) ⟨false, fun _ => none⟩))

/-- A client that sets 9600 baud and hangs up: the UART is back at 460800. -/
theorem release_restores_default_session : ∃ w, tcmSystem.Reaches
    (DropKeepsDefault (tcm515 460800) ⟨false, fun _ => none⟩) tcmStart w ∧
    ∃ s, w.bridge = some s ∧ s.lc.baud = 460800 ∧ s.lcSource = 0 := by
  obtain ⟨w, hw, hfree, hquiet⟩ := Machine.exists_reaches_of_runIf tcmSystem
    (DropKeepsDefault (tcm515 460800) ⟨false, fun _ => none⟩)
    (fun w => w.sink.ctrlClient = none ∧ w.Quiescent) tcmStart
    (sessionSteps [.hangup 0, .cleanup 0, .revert .allOk]) (by decide +kernel)
  obtain ⟨s, hs, hlc, hsource, -⟩ := release_restores_default .up hw hfree hquiet
  exact ⟨w, hw, s, hs, by rw [hlc]; rfl, hsource⟩

/-- The UART source of a Zigbee NCP, whose reboots drop all clients, over an NVS without
entries. -/
def ncpSource : LineSource State SetResults := lineSource (zbNcp 115200) ⟨false, fun _ => none⟩

/-- The system over that source. -/
def ncpSystem : Machine (World State) (Label SetResults) := sinkSystem ncpSource

/-- Its state after start-up. -/
def ncpStart : World State :=
  World.start .up (some (sourceUartInit (zbNcp 115200) ⟨false, fun _ => none⟩))

/-- A drop of all clients while a set is in force: the drop clears the owner, so
the client's cleanup starts no revert, and 9600 baud stay. -/
theorem release_restores_default_fails :
    ¬ ∀ w, ncpSystem.Reaches (fun _ l => UartStep l) ncpStart w →
      DefaultWhenReleased (zbNcp 115200) ⟨false, fun _ => none⟩ w := by
  obtain ⟨w, hw, hfree, hquiet, hbaud⟩ := Machine.exists_reaches_of_runIf ncpSystem
    (fun _ l => UartStep l)
    (fun w => w.sink.ctrlClient = none ∧ w.Quiescent ∧
      w.bridge.map (fun s => s.lc.baud) = some 9600) ncpStart
    (sessionSteps [.drop, .hangup 0, .cleanup 0]) (by decide +kernel)
  intro hall
  obtain ⟨s, hs, hlc, -⟩ := hall w hw hfree hquiet
  rw [hs, Option.map_some, hlc] at hbaud
  exact absurd hbaud (by decide)

/-! ## Only the owner drives the line -/

section Drive

variable (src)

/-- The step is a line-coding call of slot `i` that the source accepts. -/
def OkApply (i : Slot) (w : World σ) : Label ρ → Prop
  | .apply j r => j = i ∧ ∃ new, w.applyCall i = some new ∧
      (src.bridgeApplyLineCoding w.bridge r new).1 = .ok
  | _ => False

/-- In every state of the runs allowed by `ok`, a task about to make a
line-coding call is the owner's. -/
def AppliesAsOwner (ok : World σ → Label ρ → Prop) (start : World σ) : Prop :=
  ∀ w, (sinkSystem src).Reaches ok start w →
    ∀ i new, w.applyCall i = some new → w.sink.ctrlClient = some i

/-- After a call of slot `i` that the source accepted, the coding read back stays
the one set as long as `i` is the owner and makes no further accepted call. -/
def AckStays (ok : World σ → Label ρ → Prop) (start : World σ) : Prop :=
  ∀ w i r new w₁ w₂, (sinkSystem src).Reaches ok start w → w.applyCall i = some new →
    (src.bridgeApplyLineCoding w.bridge r new).1 = .ok → ok w (.apply i r) →
    (sinkSystem src).step w (.apply i r) = some w₁ →
    (sinkSystem src).Reaches
      (fun s l => ok s l ∧ s.sink.ctrlClient = some i ∧ ¬ OkApply src i s l) w₁ w₂ →
    src.bridgeGetLineCoding w₂.bridge = new

/-- The steps the ownership rules are about; the source does not go down. -/
def OwnerLabel (_ : World σ) (l : Label ρ) : Prop := ¬ (l matches .sourceDown)

/-- Clients are dropped only while no task holds a true snapshot, and the line is
taken only when no revert of an earlier owner is to come. -/
def OwnerHandover (w : World σ) (l : Label ρ) : Prop :=
  OwnerLabel w l ∧ ((l matches .drop) → ∀ i, ¬ w.Pending i) ∧
    ((l matches .acquire _) → w.sink.ctrlClient = none → w.reverting = 0)

instance (w : World σ) : DecidablePred (OwnerLabel (ρ := ρ) w) := fun l => by
  unfold OwnerLabel
  infer_instance

instance (w : World σ) : DecidablePred (OwnerHandover (ρ := ρ) w) := fun l => by
  unfold OwnerHandover
  infer_instance

/-- What `OwnerHandover` steps keep. -/
structure OwnerInv (w : World σ) : Prop where
  slots : SlotInv w
  pending : PendingOwned w
  noRevert : w.sink.ctrlClient ≠ none → w.reverting = 0

variable {src}

theorem ownerInv_step (h : OwnerInv w) (hok : OwnerHandover w l)
    (hw : (sinkSystem src).step w l = some w') : OwnerInv w' := by
  obtain ⟨hlabel, hdrop, hacq⟩ := hok
  refine ⟨h.slots.step hw, pendingOwned_step h.pending h.slots hw ?_, ?_⟩
  · rintro (rfl | rfl)
    · exact hdrop rfl
    · exact absurd rfl hlabel
  · obtain ⟨hline, -⟩ := step_line h.slots hw
    generalize hll : w'.line = line at hline
    suffices hgoal : line.owner ≠ none → line.reverting = 0 by
      rw [← hll] at hgoal
      exact hgoal
    cases hline with
    | quiet l => exact h.noRevert
    | apply i r new hcall => exact h.noRevert
    | acquire i hfree => exact fun _ => hacq rfl hfree
    | release i howner hpc => exact fun hne => absurd rfl hne
    | revert r hpos => exact fun hne => absurd (h.noRevert hne) (Nat.ne_of_gt hpos)
    | lose l hl => exact fun hne => absurd rfl hne

theorem ownerInv_reaches {plug : PlugState} {bridge : Option σ}
    (h : (sinkSystem src).Reaches OwnerHandover (World.start plug bridge) w) : OwnerInv w :=
  Machine.Reaches.invariant h
    ⟨.start _ _, pendingOwned_start _ _, fun hne => absurd rfl hne⟩
    fun _ _ _ hs hok ht => ownerInv_step hs hok ht

/-- While `i` owns the line, only its accepted calls change the coding read back. -/
theorem ownerInv_readback (h : OwnerInv w) (howner : w.sink.ctrlClient = some i)
    (hno : ¬ OkApply src i w l) (hw : (sinkSystem src).step w l = some w') :
    src.bridgeGetLineCoding w'.bridge = src.bridgeGetLineCoding w.bridge := by
  obtain ⟨hline, -⟩ := step_line h.slots hw
  generalize hll : w'.line = line at hline
  have hbridge : w'.bridge = line.bridge := by rw [← hll]; rfl
  rw [hbridge]
  cases hline with
  | quiet l => rfl
  | apply j r new hcall =>
    -- only the owner calls, and this call was not accepted
    obtain rfl : j = i := by
      have hj := h.pending j (World.applyCall_pending hcall)
      rw [howner] at hj
      exact (Option.some.inj hj).symm
    have herr : (src.bridgeApplyLineCoding w.bridge r new).1 ≠ .ok :=
      fun hok => hno ⟨rfl, new, hcall, hok⟩
    exact src.bridged.get_set_err w.bridge r new herr
  | acquire j hfree =>
    rw [hfree] at howner
    cases howner
  | release j hj hpc => rfl
  | revert r hpos =>
    -- while somebody owns the line no revert is to come
    have hzero := h.noRevert (by rw [howner]; simp)
    omega
  | lose l hl => rfl

/-- **The owner drives the line.** In every run in which clients are dropped only
while no task holds a true snapshot, and the line is taken only when no earlier
owner's revert is to come, every line-coding call is the owner's, and a coding
the source accepted stays until the owner's next accepted call or the end of its
ownership. -/
theorem owner_drives_line (src : LineSource σ ρ) (plug : PlugState) (bridge : Option σ) :
    AppliesAsOwner src OwnerHandover (World.start plug bridge) ∧
      AckStays src OwnerHandover (World.start plug bridge) := by
  constructor
  · intro w hw i new hcall
    exact (ownerInv_reaches hw).pending i (World.applyCall_pending hcall)
  · intro w i r new w₁ w₂ hw hcall hok hallowed hstep hrun
    have hinv := ownerInv_step (ownerInv_reaches hw) hallowed hstep
    have hset : src.bridgeGetLineCoding w₁.bridge = new := by
      obtain ⟨-, ⟨hnone, -⟩ | ⟨new', hcall', hb⟩⟩ := World.stepApply_local hstep
      · rw [hcall] at hnone
        cases hnone
      · rw [hcall] at hcall'
        cases hcall'
        rw [hb]
        exact src.bridged.get_set_ok w.bridge r new hok
    have hrest : OwnerInv w₂ ∧ src.bridgeGetLineCoding w₂.bridge = new := by
      refine Machine.Reaches.invariant (I := fun w => OwnerInv w ∧
        src.bridgeGetLineCoding w.bridge = new) hrun ⟨hinv, hset⟩ ?_
      rintro s l t ⟨hs, hget⟩ ⟨hok', howner, hno⟩ ht
      exact ⟨ownerInv_step hs hok' ht, (ownerInv_readback hs howner hno ht).trans hget⟩
    exact hrest.2

end Drive

/-- Both parts fail without the conditions. The first client is dropped between
its snapshot and its call, so it sets the line without owning it. And the revert
of an owner that has left undoes the set of the next owner. -/
theorem owner_drives_line_fails :
    ¬ AppliesAsOwner ncpSource OwnerLabel ncpStart ∧ ¬ AckStays ncpSource OwnerLabel ncpStart := by
  constructor
  · obtain ⟨w, hw, hcall, hfree⟩ := Machine.exists_reaches_of_runIf ncpSystem OwnerLabel
      (fun w => w.applyCall 0 = some ⟨9600, 8, 0, 0⟩ ∧ w.sink.ctrlClient = none) ncpStart
      [connectSteps 3, acquireSteps 0, setBaudSteps 0, [.drop]].flatten (by decide +kernel)
    intro hall
    have howner := hall w hw 0 _ hcall
    rw [hfree] at howner
    cases howner
  · obtain ⟨w, hw, hcall, hok, hstep⟩ := Machine.exists_reaches_of_runIf ncpSystem OwnerLabel
      (fun w => w.applyCall 1 = some ⟨9600, 8, 0, 0⟩ ∧
        (ncpSource.bridgeApplyLineCoding w.bridge .allOk ⟨9600, 8, 0, 0⟩).1 = .ok ∧
        (ncpSystem.step w (.apply 1 .allOk)).any (fun w₁ =>
          (ncpSystem.step w₁ (.revert .allOk)).any fun w₂ =>
            decide (w₁.sink.ctrlClient = some 1 ∧
              ncpSource.bridgeGetLineCoding w₂.bridge = ⟨115200, 8, 0, 0⟩)) = true) ncpStart
      [connectSteps 3, connectSteps 4, acquireSteps 0, [.hangup 0, .cleanup 0], acquireSteps 1,
        setBaudSteps 1].flatten (by decide +kernel)
    obtain ⟨w₁, hw₁, hstep⟩ := (Option.any_eq_true _ _).1 hstep
    obtain ⟨w₂, hw₂, hend⟩ := (Option.any_eq_true _ _).1 hstep
    obtain ⟨howner, hread⟩ := of_decide_eq_true hend
    intro hall
    have hget := hall w 1 .allOk _ w₁ w₂ hw hcall hok (by simp [OwnerLabel]) hw₁
      (Relation.ReflTransGen.single
        ⟨.revert .allOk, ⟨by simp [OwnerLabel], howner, fun h => h⟩, hw₂⟩)
    rw [hread] at hget
    exact absurd hget (by decide)

end Cdc2Net.SinkTcp
