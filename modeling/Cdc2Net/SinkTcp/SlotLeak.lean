import Cdc2Net.SinkTcp.Descriptors

/-!
# Slots without a task

`accept_task` marks a slot active before it creates the task that is to close it, and does not
look at the result of `xTaskCreate`. In every run the active slots are those with a task, the one
whose task is about to be created, and those whose task could not be created: these stay active
for good (`Book.active`). So no slot leaks if and only if no creation fails (`no_leak_iff`), and
after four failures no client gets in any more (`no_leak_fails`).
-/

set_option autoImplicit false

namespace Cdc2Net.SinkTcp

open Cdc2Net.Source
open Cdc2Net.Lib.Transition

universe u v

variable {σ : Type u} {ρ : Type v} {src : LineSource σ ρ} {w w' : World σ} {l : Label ρ}

/-! ## What a step does to the slots -/

/-- Slots, tasks and `accept_task` before and after a step. -/
inductive SlotStep (w w' : World σ) (l : Label ρ) : Prop where
  /-- No slot and no task comes or goes. -/
  | quiet (label : ∀ ok, l ≠ .spawn ok)
      (active : ∀ j, (w'.sink.clients j).active = (w.sink.clients j).active)
      (task : ∀ j, w'.task j = none ↔ w.task j = none)
      (accept : ∀ k, w'.accept = .spawn k ↔ w.accept = .spawn k)
  /-- `accept_task` fills a free slot. -/
  | placed (k : Slot) (label : ∀ ok, l ≠ .spawn ok)
      (free : (w.sink.clients k).active = false)
      (active : ∀ j, (w'.sink.clients j).active = true ↔ j = k ∨ (w.sink.clients j).active = true)
      (task : w'.task = w.task)
      (before : ∀ j, w.accept ≠ .spawn j) (after : w'.accept = .spawn k)
  /-- `xTaskCreate`. -/
  | spawned (k : Slot) (ok : Bool) (label : l = .spawn ok)
      (active : ∀ j, (w'.sink.clients j).active = (w.sink.clients j).active)
      (task : ∀ j, w'.task j = none ↔ w.task j = none ∧ ¬ (ok = true ∧ j = k))
      (before : w.accept = .spawn k) (after : w'.accept = .accepting)
  /-- A task closes its slot. -/
  | closed (k : Slot) (label : ∀ ok, l ≠ .spawn ok) (own : w.task k ≠ none)
      (active : ∀ j, (w'.sink.clients j).active = true ↔ (w.sink.clients j).active = true ∧ j ≠ k)
      (task : ∀ j, w'.task j = none ↔ w.task j = none ∨ j = k)
      (accept : w'.accept = w.accept)

theorem SlotStep.of_same (hl : ∀ ok, l ≠ .spawn ok) (hs : SameSlots w w')
    (ht : ∀ j, w'.task j = none ↔ w.task j = none) : SlotStep w w' l :=
  .quiet hl hs.active ht fun k => by rw [hs.accept]

theorem SlotStep.of_local {i : Slot} (hl : ∀ ok, l ≠ .spawn ok) (h : LocalStep w w' i) :
    SlotStep w w' l := by
  obtain ⟨pc, pc', ht, ht', -⟩ := h.moves
  refine .of_same hl h.slots fun j => ?_
  rw [ht']
  rcases eq_or_ne j i with rfl | hj
  · simp [ht]
  · simp [hj]

theorem stepInsert_slotStep {res : Nat → SendResult} (hw : w.stepInsert res = some w') :
    SlotStep w w' (.insert res : Label ρ) := by
  have hl : ∀ ok, (.insert res : Label ρ) ≠ .spawn ok := fun ok h => by cases h
  obtain ⟨cs, hacc, rfl | ⟨k, hk, hs, -, ht, -⟩⟩ := World.stepInsert_spec hw
  · refine .quiet hl (fun _ => rfl) (fun _ => Iff.rfl) fun k => ?_
    rw [hacc]
    exact iff_of_false (fun h => by cases h) fun h => by cases h
  · refine .placed k hl (Sink.findFreeSlot_some hk) (fun j => ?_) ht (fun j hj => ?_) hs.accept
    · rw [hs.active]
      rcases eq_or_ne j k with rfl | hj
      · simp [World.inserted, Sink.acceptInsert]
      · simp [World.inserted, Sink.acceptInsert, hj]
    · rw [hacc] at hj
      cases hj

theorem stepSpawn_slotStep {ok : Bool} (hw : w.stepSpawn ok = some w') :
    SlotStep w w' (.spawn ok : Label ρ) := by
  obtain ⟨k, hacc, rfl⟩ := World.stepSpawn_cases hw
  cases ok with
  | false => exact .spawned k false rfl (fun _ => rfl) (fun j => by simp) hacc rfl
  | true =>
    refine .spawned k true rfl (fun _ => rfl) (fun j => ?_) hacc rfl
    rcases eq_or_ne j k with rfl | hj
    · simp [World.setTask]
    · simp [World.setTask, hj]

theorem stepCleanup_slotStep {i : Slot} (hw : w.stepCleanup i = some w') :
    SlotStep w w' (.cleanup i : Label ρ) := by
  obtain ⟨ht, rfl⟩ := World.stepCleanup_cases hw
  refine .closed i (fun ok h => by cases h) (by simp [ht]) (fun j => ?_) (fun j => ?_) rfl
  · rcases eq_or_ne j i with rfl | hj
    · simp [Sink.cleanup_inactive]
    · simp [Sink.cleanup_other w.sink hj, hj]
  · rcases eq_or_ne j i with rfl | hj
    · simp
    · simp [hj]

theorem slotStep_of_step (hw : (sinkSystem src).step w l = some w') : SlotStep w w' l := by
  cases l with
  | accept fd =>
    have hacc : w.accept = .accepting := by
      by_contra hne
      rw [show (sinkSystem src).step w (.accept fd) = w.stepAccept fd from rfl, World.stepAccept,
        if_neg fun h => hne h.1] at hw
      cases hw
    obtain ⟨-, rfl⟩ := World.stepAccept_cases hw
    refine .quiet (fun ok h => by cases h) (fun _ => rfl) (fun _ => Iff.rfl) fun k => ?_
    rw [hacc]
    exact iff_of_false (fun h => by cases h) fun h => by cases h
  | gate =>
    obtain ⟨cs, hacc, ⟨-, rfl⟩ | rfl⟩ := World.stepGate_cases hw
    all_goals
      refine .quiet (fun ok h => by cases h) (fun _ => rfl) (fun _ => Iff.rfl) fun k => ?_
      rw [hacc]
      exact iff_of_false (fun h => by cases h) fun h => by cases h
  | insert res => exact stepInsert_slotStep hw
  | spawn ok => exact stepSpawn_slotStep hw
  | recv i chunk => exact .of_local (fun ok h => by cases h) (World.stepRecv_local hw).1
  | hangup i => exact .of_local (fun ok h => by cases h) (World.stepHangup_local hw).1
  | call i => exact .of_local (fun ok h => by cases h) (World.stepCall_local hw).1
  | send i r => exact .of_local (fun ok h => by cases h) (World.stepSend_local hw).1
  | acquire i =>
    obtain ⟨todo, ht, rfl⟩ := World.stepAcquire_cases hw
    refine .quiet (fun ok h => by cases h) (fun j => (w.sink.comportAcquire_slot i j).2)
      (fun j => ?_) fun k => Iff.rfl
    rcases eq_or_ne j i with rfl | hj
    · simp [World.setTask, ht]
    · simp [World.setTask, hj]
  | snapshot i => exact .of_local (fun ok h => by cases h) (World.stepSnapshot_local hw).1
  | getLc i => exact .of_local (fun ok h => by cases h) (World.stepGetLc_local hw).1
  | apply i r => exact .of_local (fun ok h => by cases h) (World.stepApply_local hw).1
  | cleanup i => exact stepCleanup_slotStep hw
  | revert r =>
    obtain ⟨-, rfl⟩ := World.stepRevert_cases hw
    exact .of_same (fun ok h => by cases h) (.of_eq rfl rfl rfl rfl) fun _ => Iff.rfl
  | drop =>
    cases hw
    exact .quiet (fun ok h => by cases h) (fun _ => rfl) (fun _ => Iff.rfl) fun _ => Iff.rfl
  | onRx data res =>
    obtain ⟨hs, -, ht, -⟩ := World.stepOnRx_spec hw
    exact .of_same (fun ok h => by cases h) hs fun j => by rw [ht]
  | unplug =>
    obtain ⟨-, rfl⟩ := World.stepUnplug_cases hw
    exact .of_same (fun ok h => by cases h) (.of_eq rfl rfl rfl rfl) fun _ => Iff.rfl
  | sourceDown =>
    obtain ⟨-, rfl⟩ := World.stepSourceDown_cases hw
    exact .quiet (fun ok h => by cases h) (fun _ => rfl) (fun _ => Iff.rfl) fun _ => Iff.rfl
  | replug =>
    obtain ⟨-, rfl⟩ := World.stepReplug_cases hw
    exact .of_same (fun ok h => by cases h) (.of_eq rfl rfl rfl rfl) fun _ => Iff.rfl
  | tick us =>
    cases hw
    exact .of_same (fun ok h => by cases h) (.of_eq rfl rfl rfl rfl) fun _ => Iff.rfl

/-! ## The book of failures -/

/-- The slot whose task cannot be created in this step. -/
def World.failedSpawn (w : World σ) (l : Label ρ) : List Slot :=
  match w.accept, l with
  | .spawn i, .spawn false => [i]
  | _, _ => []

theorem failedSpawn_of_ne (h : ∀ ok, l ≠ .spawn ok) : w.failedSpawn l = [] := by
  unfold World.failedSpawn
  split
  · exact absurd rfl (h false)
  · rfl

theorem failedSpawn_spawn {k : Slot} (h : w.accept = .spawn k) (ok : Bool) :
    w.failedSpawn (.spawn ok : Label ρ) = if ok = true then [] else [k] := by
  cases ok <;> simp [World.failedSpawn, h]

/-- The slots whose tasks could not be created, against the others. -/
structure Book (w : World σ) (failed : List Slot) : Prop where
  active : ∀ i, (w.sink.clients i).active = true ↔
    w.task i ≠ none ∨ w.accept = .spawn i ∨ i ∈ failed
  apart : ∀ i ∈ failed, w.task i = none ∧ w.accept ≠ .spawn i
  fresh : ∀ i, w.accept = .spawn i → w.task i = none

theorem Book.start (plug : PlugState) (bridge : Option σ) :
    Book (World.start plug bridge) [] where
  active i := by simp [World.start, sinkTcpInit, TcpClient.idle]
  apart i h := by cases h
  fresh i h := by cases h

/-- Every step keeps the book. -/
theorem Book.step {failed : List Slot} (h : Book w failed) (hs : SlotStep w w' l) :
    Book w' (failed ++ w.failedSpawn l) := by
  cases hs with
  | quiet label active task accept =>
    rw [failedSpawn_of_ne label, List.append_nil]
    refine ⟨fun i => ?_, fun i hi => ?_, fun i hi => ?_⟩
    · rw [active, h.active, Ne, Ne, task, accept]
    · rw [task, Ne, accept]
      exact h.apart i hi
    · exact (task i).2 (h.fresh i ((accept i).1 hi))
  | placed k label free active task before after =>
    rw [failedSpawn_of_ne label, List.append_nil]
    -- the slot was free: it has no task, and it is not one of the leaked ones
    have hfree : w.task k = none ∧ k ∉ failed := by
      have hnot := mt (h.active k).2 (by rw [free]; exact Bool.false_ne_true)
      rw [not_or, not_or] at hnot
      exact ⟨not_not.1 hnot.1, hnot.2.2⟩
    refine ⟨fun i => ?_, fun i hi => ?_, fun i hi => ?_⟩
    · rw [active, h.active, task, after, AcceptPc.spawn.injEq, eq_comm (a := k)]
      simp only [before i, false_or]
      exact or_left_comm
    · rw [task, after]
      refine ⟨(h.apart i hi).1, fun heq => hfree.2 ?_⟩
      rwa [AcceptPc.spawn.inj heq]
    · rw [after] at hi
      rw [task, ← AcceptPc.spawn.inj hi]
      exact hfree.1
  | spawned k ok label active task before after =>
    subst label
    have hnone := h.fresh k before
    rw [failedSpawn_spawn before]
    refine ⟨fun i => ?_, fun i hi => ?_, fun i hi => ?_⟩
    · rw [active, h.active, Ne, Ne, task, after, before]
      cases ok with
      | false => simp [or_comm, eq_comm]
      | true =>
        rcases eq_or_ne i k with rfl | hik
        · simp
        · simp [hik, hik.symm]
    · rw [task, after]
      refine ⟨?_, fun heq => by cases heq⟩
      cases ok with
      | false =>
        rcases List.mem_append.1 hi with hold | hnew
        · exact ⟨(h.apart i hold).1, fun hand => Bool.false_ne_true hand.1⟩
        · rw [List.mem_singleton.1 hnew]
          exact ⟨hnone, fun hand => Bool.false_ne_true hand.1⟩
      | true =>
        obtain ⟨hold, hspawn⟩ := h.apart i (by simpa using hi)
        refine ⟨hold, fun hand => hspawn ?_⟩
        rw [before, hand.2]
    · rw [after] at hi
      cases hi
  | closed k label own active task accept =>
    rw [failedSpawn_of_ne label, List.append_nil]
    refine ⟨fun i => ?_, fun i hi => ?_, fun i hi => ?_⟩
    · simp only [active, h.active, ne_eq, task, accept, not_or]
      constructor
      · rintro ⟨hor, hik⟩
        exact hor.imp_left fun htask => ⟨htask, hik⟩
      · rintro (⟨htask, hik⟩ | hspawn | hfailed)
        · exact ⟨Or.inl htask, hik⟩
        · refine ⟨Or.inr (Or.inl hspawn), ?_⟩
          rintro rfl
          exact own (h.fresh _ hspawn)
        · refine ⟨Or.inr (Or.inr hfailed), ?_⟩
          rintro rfl
          exact own (h.apart _ hfailed).1
    · rw [task, accept]
      exact ⟨Or.inl (h.apart i hi).1, (h.apart i hi).2⟩
    · rw [task]
      exact Or.inl (h.fresh i (accept ▸ hi))

theorem book_reaches {plug : PlugState} {bridge : Option σ} {failed : List Slot}
    (h : ((sinkSystem src).record World.failedSpawn).Reaches (fun _ _ => True)
      (World.start plug bridge, []) (w, failed)) : Book w failed := by
  refine Machine.Reaches.invariant (I := fun p => Book p.1 p.2) h (.start plug bridge) ?_
  rintro ⟨s, es⟩ l ⟨t, fs⟩ hbook - ht
  obtain ⟨hstep, rfl⟩ := Machine.record_step ht
  exact hbook.step (slotStep_of_step hstep)

/-! ## No leak -/

/-- Every active slot has a task that is to close it; so if no task is left, all slots are free
and none is counted. -/
def NoLeak (w : World σ) : Prop :=
  (∀ i, (w.sink.clients i).active = true → w.task i ≠ none) ∧
    ((∀ i, w.task i = none) →
      (∀ i, (w.sink.clients i).active = false) ∧ w.sink.stats.activeClients = 0)

/-- In every run, whenever `accept_task` is in `accept`, no slot has leaked if and only if no
creation of a client task has failed so far. -/
theorem no_leak_iff (src : LineSource σ ρ) (plug : PlugState) (bridge : Option σ) (w : World σ)
    (failed : List Slot)
    (h : ((sinkSystem src).record World.failedSpawn).Reaches (fun _ _ => True)
      (World.start plug bridge, []) (w, failed))
    (hacc : w.accept = .accepting) : NoLeak w ↔ failed = [] := by
  have hbook := book_reaches h
  constructor
  · rintro ⟨hown, -⟩
    rw [List.eq_nil_iff_forall_not_mem]
    intro i hi
    exact hown i ((hbook.active i).2 (Or.inr (Or.inr hi))) (hbook.apart i hi).1
  · rintro rfl
    have hown : ∀ i, (w.sink.clients i).active = true → w.task i ≠ none := by
      intro i hi
      rcases (hbook.active i).1 hi with htask | hspawn | hmem
      · exact htask
      · rw [hacc] at hspawn
        cases hspawn
      · cases hmem
    refine ⟨hown, fun hnone => ?_⟩
    have hfree : ∀ i, (w.sink.clients i).active = false := by
      intro i
      by_contra hact
      exact hown i (Bool.not_eq_false _ ▸ hact) (hnone i)
    refine ⟨hfree, ?_⟩
    -- the count is that of the active slots
    have hplain : (sinkSystem src).Reaches (fun _ _ => True) (World.start plug bridge) w :=
      Machine.Reaches.of_record (fun _ _ => True) h
    obtain ⟨hist, hrec⟩ :
        ∃ hist, ((sinkSystem src).record World.events).Reaches (fun _ _ => True)
          (World.start plug bridge, []) (w, hist) := hplain.exists_record []
    rw [(reaches_histInv hrec).conns.count]
    simp [World.activeSlots, hfree]

/-- A client comes and goes. -/
theorem no_leak_visit : ∃ w : World LineCoding, NoLeak w ∧ w.sink.stats.totalAccepts = 1 ∧
    w.sink.stats.totalDisconnects = 1 := by
  obtain ⟨⟨w, failed⟩, hrun, hfailed, hacc, hcount⟩ := Machine.exists_reaches_of_runIf
    ((sinkSystem shadowSource).record World.failedSpawn) (fun _ _ => True)
    (fun p => p.2 = [] ∧ p.1.accept = .accepting ∧ p.1.sink.stats.totalAccepts = 1 ∧
      p.1.sink.stats.totalDisconnects = 1)
    (World.start .up (some ⟨115200, 8, 0, 0⟩), [])
    [.accept 3, .gate, .insert fun _ => .eagain, .spawn true, .hangup 0, .cleanup 0]
    (by decide +kernel)
  exact ⟨w, (no_leak_iff shadowSource _ _ w failed hrun hacc).2 hfailed, hcount⟩

/-- A client whose task cannot be created. -/
def lostClient (fd : Nat) : List (Label Unit) :=
  [.accept fd, .gate, .insert fun _ => .eagain, .spawn false]

/-- Four failures leave no slot to anyone, with no task at all. -/
theorem no_leak_fails : ∃ w, (sinkSystem shadowSource).Reaches (fun _ _ => True)
      (World.start .up (some ⟨115200, 8, 0, 0⟩)) w ∧ w.accept = .accepting ∧
    (∀ i, w.task i = none) ∧ w.sink.findFreeSlot = none ∧ ¬ NoLeak w := by
  obtain ⟨w, hrun, hacc, htask, hfree⟩ := Machine.exists_reaches_of_runIf
    (sinkSystem shadowSource) (fun _ _ => True)
    (fun w => w.accept = .accepting ∧ (∀ i, w.task i = none) ∧ w.sink.findFreeSlot = none)
    (World.start .up (some ⟨115200, 8, 0, 0⟩))
    (lostClient 3 ++ lostClient 4 ++ lostClient 5 ++ lostClient 6) (by decide +kernel)
  refine ⟨w, hrun, hacc, htask, hfree, fun h => ?_⟩
  -- no slot is free, and with no task left all should be
  have hall := (h.2 htask).1 0
  have hnone := List.find?_eq_none.1 hfree 0 (List.mem_finRange 0)
  simp [hall] at hnone

end Cdc2Net.SinkTcp
