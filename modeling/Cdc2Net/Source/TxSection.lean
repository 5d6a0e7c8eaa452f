import Cdc2Net.Lib.Lifetime
import Mathlib.Logic.Function.Basic

/-!
# The `tx_mtx` sections of the USB sources

`op_tx`, `apply_lc` and the other vtable functions of `source_usb.c` and
`source_usb_cherry.c` take `tx_mtx`, read the handle `S.cdc` or `S.ser`, make at most one
driver call on it and give the mutex back. The reads of a section are one step with its
`xSemaphoreTake`; the driver call is entered and left. The CherryUSB source also assigns to
`S.ser` under the mutex (`lockSet`, `unlock`).

Sections exclude each other (`SectionInv.alone`), and a handle that they read was published
(`Held.step`).
-/

set_option autoImplicit false

namespace Cdc2Net.Source.TxSection

open Cdc2Net.Lib.Lifetime

/-- Who runs a section: CherryUSB's hub thread, `stick_task`, or a task that calls the
vtable. -/
inductive Agent where
  | hub
  | stick
  | user (t : Nat)
  deriving DecidableEq, Repr

/-- The sections. `op_revert_line_coding` runs `read`, for the key, and then `apply`. -/
inductive TxOp where
  | tx
  | apply
  | read
  deriving DecidableEq, Repr

/-- Where a section stands. -/
inductive SectionPc where
  /-- Before `xSemaphoreTake`. -/
  | wait (op : TxOp)
  /-- With the mutex, past the reads: the handle the driver is to be called with. -/
  | taken (op : TxOp) (h : Option Nat)
  /-- In the driver call. -/
  | call (op : TxOp) (h : Nat)
  /-- Past the call, before `xSemaphoreGive`. -/
  | give (op : TxOp)
  deriving DecidableEq, Repr

/-- The section has the mutex. -/
def SectionPc.holds : SectionPc → Bool
  | .wait _ => false
  | _ => true

/-- The handle the section has read and is not done with. -/
def SectionPc.target : SectionPc → Option Nat
  | .taken _ h => h
  | .call _ h => some h
  | _ => none

/-- The handle of the driver call the section is in. -/
def SectionPc.callee : SectionPc → Option Nat
  | .call _ h => some h
  | _ => none

/-- The published handle, the mutex, and the sections under way. -/
structure TxSide where
  handle : Option Nat
  mtx : Option Agent
  pcs : Agent → Option SectionPc

namespace TxSide

/-- No handle, no section. -/
def start : TxSide := ⟨none, none, fun _ => none⟩

/-- What the reads of a section give: `op_tx` reads the handle, `apply_lc` too, if it is to
push the coding to the device. -/
def reads (pushes : Bool) (s : TxSide) : TxOp → Option Nat
  | .tx => s.handle
  | .apply => if pushes then s.handle else none
  | .read => none

/-- Move a section. -/
def setPc (s : TxSide) (a : Agent) (pc : Option SectionPc) : TxSide :=
  { s with pcs := Function.update s.pcs a pc }

/-- A step of a section. -/
def stepSection (pushes : Bool) (s : TxSide) (a : Agent) : Option TxSide :=
  match s.pcs a with
  | none => none
  | some (.wait op) =>
    if s.mtx = none then
      some { s.setPc a (some (.taken op (s.reads pushes op))) with
        mtx := some a }
    else none
  | some (.taken op none) => some (s.setPc a (some (.give op)))
  | some (.taken op (some h)) => some (s.setPc a (some (.call op h)))
  | some (.call op _) => some (s.setPc a (some (.give op)))
  | some (.give _) => some { s.setPc a none with mtx := none }

/-- `xSemaphoreTake` and an assignment to the handle. -/
def lockSet (s : TxSide) (a : Agent) (v : Option Nat) : Option TxSide :=
  if s.mtx = none then some { s with mtx := some a, handle := v } else none

/-- `xSemaphoreGive`. -/
def unlock (s : TxSide) : TxSide := { s with mtx := none }

/-- The driver call a step of a section enters or leaves. -/
def sectionEvents (s : TxSide) (a : Agent) : List (Event Agent Nat) :=
  match s.pcs a with
  | some (.taken _ (some h)) => [.enter a h]
  | some (.call _ h) => [.leave a h]
  | _ => []

/-- The handle of the call that an agent is in. -/
def callee (s : TxSide) (a : Agent) : Option Nat := (s.pcs a).bind SectionPc.callee

/-- The steps of a section, guards and all. -/
theorem stepSection_cases {pushes : Bool} {s t : TxSide} {a : Agent}
    (hs : s.stepSection pushes a = some t) :
    (∃ op, s.pcs a = some (.wait op) ∧ s.mtx = none ∧
      t = { s.setPc a (some (.taken op (s.reads pushes op))) with
        mtx := some a }) ∨
    (∃ op, s.pcs a = some (.taken op none) ∧ t = s.setPc a (some (.give op))) ∨
    (∃ op h, s.pcs a = some (.taken op (some h)) ∧ t = s.setPc a (some (.call op h))) ∨
    (∃ op h, s.pcs a = some (.call op h) ∧ t = s.setPc a (some (.give op))) ∨
    ∃ op, s.pcs a = some (.give op) ∧ t = { s.setPc a none with mtx := none } := by
  rw [stepSection] at hs
  cases hpc : s.pcs a with
  | none => simp [hpc] at hs
  | some pc =>
    rw [hpc] at hs
    cases pc with
    | wait op =>
      simp only at hs
      split at hs
      · next hfree => exact Or.inl ⟨op, rfl, hfree, (Option.some.inj hs).symm⟩
      · cases hs
    | taken op h =>
      cases h with
      | none => exact Or.inr (Or.inl ⟨op, rfl, (Option.some.inj hs).symm⟩)
      | some h => exact Or.inr (Or.inr (Or.inl ⟨op, h, rfl, (Option.some.inj hs).symm⟩))
    | call op h =>
      exact Or.inr (Or.inr (Or.inr (Or.inl ⟨op, h, rfl, (Option.some.inj hs).symm⟩)))
    | give op => exact Or.inr (Or.inr (Or.inr (Or.inr ⟨op, rfl, (Option.some.inj hs).symm⟩)))

end TxSide

section Laws

variable {pushes : Bool} {s t : TxSide} {a b : Agent} {pc pc' : SectionPc} {h : Nat}

theorem SectionPc.holds_of_target (ht : pc.target = some h) : pc.holds = true := by
  cases pc with
  | wait op => cases ht
  | _ => rfl

theorem SectionPc.target_of_callee (hc : pc.callee = some h) : pc.target = some h := by
  cases pc with
  | call op h' => exact hc
  | _ => cases hc

@[simp] theorem TxSide.setPc_same (o : Option SectionPc) : (s.setPc a o).pcs a = o := by
  simp [TxSide.setPc]

@[simp] theorem TxSide.setPc_other {o : Option SectionPc} (hne : b ≠ a) :
    (s.setPc a o).pcs b = s.pcs b := by
  simp [TxSide.setPc, hne]

@[simp] theorem TxSide.setPc_handle (o : Option SectionPc) :
    (s.setPc a o).handle = s.handle := rfl

@[simp] theorem TxSide.setPc_mtx (o : Option SectionPc) : (s.setPc a o).mtx = s.mtx := rfl

/-- A step of a section moves no other. -/
theorem TxSide.stepSection_other (hs : s.stepSection pushes a = some t) (hne : b ≠ a) :
    t.pcs b = s.pcs b := by
  rcases stepSection_cases hs with ⟨op, -, -, rfl⟩ | ⟨op, -, rfl⟩ | ⟨op, h, -, rfl⟩ |
    ⟨op, h, -, rfl⟩ | ⟨op, -, rfl⟩ <;> exact setPc_other hne

theorem TxSide.stepSection_handle (hs : s.stepSection pushes a = some t) :
    t.handle = s.handle := by
  rcases stepSection_cases hs with ⟨op, -, -, rfl⟩ | ⟨op, -, rfl⟩ | ⟨op, h, -, rfl⟩ |
    ⟨op, h, -, rfl⟩ | ⟨op, -, rfl⟩ <;> rfl

/-- A section past its reads has the mutex. -/
def SectionInv (s : TxSide) : Prop :=
  ∀ a pc, s.pcs a = some pc → pc.holds = true → s.mtx = some a

theorem sectionInv_start : SectionInv .start := fun _ _ h => by cases h

/-- It is the only one. -/
theorem SectionInv.alone (hi : SectionInv s) (ha : s.pcs a = some pc) (hh : pc.holds = true)
    (hb : s.pcs b = some pc') (hh' : pc'.holds = true) : b = a :=
  Option.some.inj ((hi b pc' hb hh').symm.trans (hi a pc ha hh))

/-- A section of an agent that has none begins. -/
theorem SectionInv.begin (hi : SectionInv s) (op : TxOp) (hnone : s.pcs a = none) :
    SectionInv (s.setPc a (some (.wait op))) := by
  intro b pc hb hh
  by_cases hba : b = a
  · subst hba
    rw [TxSide.setPc_same] at hb
    cases hb
    cases hh
  · rw [TxSide.setPc_other hba] at hb
    exact hi b pc hb hh

theorem SectionInv.step (hi : SectionInv s) (hs : s.stepSection pushes a = some t) :
    SectionInv t := by
  intro b pc hb hh
  by_cases hba : b = a
  · subst hba
    rcases TxSide.stepSection_cases hs with ⟨op, -, -, rfl⟩ | ⟨op, hpc, rfl⟩ |
      ⟨op, h, hpc, rfl⟩ | ⟨op, h, hpc, rfl⟩ | ⟨op, hpc, rfl⟩
    · rfl
    · exact hi b _ hpc rfl
    · exact hi b _ hpc rfl
    · exact hi b _ hpc rfl
    · simp at hb
  · have hb' : s.pcs b = some pc := (TxSide.stepSection_other hs hba).symm.trans hb
    have hm := hi b pc hb' hh
    rcases TxSide.stepSection_cases hs with ⟨op, -, hfree, rfl⟩ | ⟨op, -, rfl⟩ |
      ⟨op, h, -, rfl⟩ | ⟨op, h, -, rfl⟩ | ⟨op, hpc, rfl⟩
    · -- the mutex was free
      rw [hfree] at hm
      cases hm
    · exact hm
    · exact hm
    · exact hm
    · exact absurd (hi.alone hpc rfl hb' hh) hba

/-- A section that is not the owner's leaves the mutex alone. -/
theorem SectionInv.mtx_step (hi : SectionInv s) (hs : s.stepSection pushes a = some t)
    (hm : s.mtx = some b) (hb : s.pcs b = none) : t.mtx = some b := by
  rcases TxSide.stepSection_cases hs with ⟨op, -, hfree, rfl⟩ | ⟨op, -, rfl⟩ |
    ⟨op, h, -, rfl⟩ | ⟨op, h, -, rfl⟩ | ⟨op, hpc, rfl⟩
  · rw [hfree] at hm
    cases hm
  · exact hm
  · exact hm
  · exact hm
  · -- the owner is in the section
    have hab : a = b := Option.some.inj ((hi a _ hpc rfl).symm.trans hm)
    rw [hab, hb] at hpc
    cases hpc

/-- Every handle that is published or read by a section has the property `H`. -/
structure Held (H : Nat → Prop) (s : TxSide) : Prop where
  handle : ∀ h, s.handle = some h → H h
  target : ∀ a pc h, s.pcs a = some pc → pc.target = some h → H h

variable {H H' : Nat → Prop}

theorem held_start : Held H .start := ⟨fun _ h => (by cases h), fun _ _ _ h => (by cases h)⟩

theorem Held.mono (hh : Held H s) (himp : ∀ h, H h → H' h) : Held H' s where
  handle h hm := himp h (hh.handle h hm)
  target a pc h ha ht := himp h (hh.target a pc h ha ht)

theorem Held.setPc {o : Option SectionPc} {m : Option Agent} {c : Option Nat} (hh : Held H s)
    (hc : ∀ h, c = some h → H h) (ht : ∀ pc h, o = some pc → pc.target = some h → H h) :
    Held H { s.setPc a o with mtx := m, handle := c } where
  handle := hc
  target b pc h hb hpc := by
    by_cases hba : b = a
    · subst hba
      exact ht pc h (by simpa using hb) hpc
    · exact hh.target b pc h (by simpa [hba] using hb) hpc

/-- A section that begins has read nothing. -/
theorem Held.begin (hh : Held H s) (op : TxOp) : Held H (s.setPc a (some (.wait op))) := by
  refine hh.setPc (m := s.mtx) hh.handle fun pc h ho ht => ?_
  cases ho
  cases ht

theorem TxSide.reads_eq {op : TxOp} (hr : s.reads pushes op = some h) : s.handle = some h := by
  cases op with
  | tx => exact hr
  | apply =>
    simp only [TxSide.reads] at hr
    split at hr
    · exact hr
    · cases hr
  | read => cases hr

theorem Held.step (hh : Held H s) (hs : s.stepSection pushes a = some t) : Held H t := by
  rcases TxSide.stepSection_cases hs with ⟨op, hpc, -, rfl⟩ | ⟨op, hpc, rfl⟩ |
    ⟨op, h, hpc, rfl⟩ | ⟨op, h, hpc, rfl⟩ | ⟨op, hpc, rfl⟩
  · refine hh.setPc hh.handle fun pc h ho ht => ?_
    cases ho
    exact hh.handle h (TxSide.reads_eq ht)
  · refine hh.setPc (m := s.mtx) hh.handle fun pc h ho ht => ?_
    cases ho
    cases ht
  · refine hh.setPc (m := s.mtx) hh.handle fun pc h' ho ht => ?_
    cases ho
    exact hh.target a _ h' hpc ht
  · refine hh.setPc (m := s.mtx) hh.handle fun pc h' ho ht => ?_
    cases ho
    cases ht
  · exact hh.setPc hh.handle fun pc h ho => by cases ho

/-- Whoever takes the mutex finds no section that has read a handle. -/
theorem Held.lockSet (hi : SectionInv s) {v : Option Nat} (hs : s.lockSet a v = some t)
    (hv : ∀ h, v = some h → H h) : SectionInv t ∧ Held H t ∧ t.pcs = s.pcs ∧ t.handle = v := by
  rw [TxSide.lockSet] at hs
  split at hs
  · next hfree =>
    cases hs
    have hnone : ∀ b pc, s.pcs b = some pc → pc.holds ≠ true := fun b pc hb hh => by
      rw [hi b pc hb hh] at hfree
      cases hfree
    exact ⟨fun b pc hb hh => absurd hh (hnone b pc hb),
      ⟨hv, fun b pc h hb ht => absurd (SectionPc.holds_of_target ht) (hnone b pc hb)⟩, rfl, rfl⟩
  · cases hs

theorem TxSide.lockSet_mtx {v : Option Nat} (hs : s.lockSet a v = some t) :
    s.mtx = none ∧ t.mtx = some a := by
  rw [TxSide.lockSet] at hs
  split at hs
  · next hfree =>
    cases hs
    exact ⟨hfree, rfl⟩
  · cases hs

/-- The mutex is given back by an agent that runs no section. -/
theorem SectionInv.unlock (hi : SectionInv s) (hm : s.mtx = some a) (ha : s.pcs a = none) :
    SectionInv s.unlock := by
  intro b pc hb hh
  have hba : b = a := Option.some.inj ((hi b pc hb hh).symm.trans hm)
  rw [hba] at hb
  exact absurd (ha.symm.trans hb) (by simp)

/-! ## The driver calls of the sections -/

variable {hist : List (Event Agent Nat)} {u w : Usage Agent Nat} {D : Agent → Nat → Prop}

/-- A step of a section keeps track of the calls. `D` are the calls that agents make outside
of sections; the handle of the section is open. -/
theorem tracks_stepSection (htr : Tracks hist u) (hs : s.stepSection pushes a = some t)
    (ho : ∀ h, w.opened h ↔ u.opened h) (hr : ∀ h, w.retired h ↔ u.retired h)
    (hin : ∀ b h, u.inside b h ↔ s.callee b = some h ∨ D b h)
    (hin' : ∀ b h, w.inside b h ↔ t.callee b = some h ∨ D b h)
    (hD : s.pcs a ≠ none → ∀ h, ¬ D a h)
    (hlive : ∀ pc h, s.pcs a = some pc → pc.target = some h → u.opened h ∧ ¬ u.retired h) :
    Tracks (hist ++ s.sectionEvents a) w := by
  -- the calls of the other agents are as they were
  have hother : ∀ b h, b ≠ a → (w.inside b h ↔ u.inside b h) := by
    intro b h hba
    rw [hin, hin', TxSide.callee, TxSide.callee, TxSide.stepSection_other hs hba]
  have hcongr : s.callee a = none → t.callee a = none → Tracks hist w := by
    intro hsc htc
    refine htr.congr ho hr fun b h => ?_
    by_cases hba : b = a
    · subst hba
      rw [hin, hin', hsc, htc]
    · exact hother b h hba
  rcases TxSide.stepSection_cases hs with ⟨op, hpc, -, rfl⟩ | ⟨op, hpc, rfl⟩ |
    ⟨op, h, hpc, rfl⟩ | ⟨op, h, hpc, rfl⟩ | ⟨op, hpc, rfl⟩
  · simp only [TxSide.sectionEvents, hpc, List.append_nil]
    exact hcongr (by simp [TxSide.callee, hpc, SectionPc.callee])
      (by simp [TxSide.callee, SectionPc.callee])
  · simp only [TxSide.sectionEvents, hpc, List.append_nil]
    exact hcongr (by simp [TxSide.callee, hpc, SectionPc.callee])
      (by simp [TxSide.callee, SectionPc.callee])
  · simp only [TxSide.sectionEvents, hpc]
    obtain ⟨hopen, hnot⟩ := hlive _ h hpc rfl
    have hout := hD (by simp [hpc])
    refine htr.enterStep hopen hnot ?_ ho hr fun b q => ?_
    · rw [hin]
      simp [TxSide.callee, hpc, SectionPc.callee, hout h]
    · by_cases hba : b = a
      · subst hba
        rw [hin, hin']
        simp [TxSide.callee, hpc, SectionPc.callee, hout q, eq_comm]
      · rw [hother b q hba]
        simp [hba]
  · simp only [TxSide.sectionEvents, hpc]
    have hout := hD (by simp [hpc])
    refine htr.leaveStep ?_ ho hr fun b q => ?_
    · rw [hin]
      simp [TxSide.callee, hpc, SectionPc.callee]
    · by_cases hba : b = a
      · subst hba
        rw [hin, hin']
        simp [TxSide.callee, hpc, SectionPc.callee, hout q, eq_comm]
      · rw [hother b q hba]
        simp [hba]
  · simp only [TxSide.sectionEvents, hpc, List.append_nil]
    exact hcongr (by simp [TxSide.callee, hpc, SectionPc.callee])
      (by simp [TxSide.callee])

end Laws

end Cdc2Net.Source.TxSection
