import Cdc2Net.Lib.Transition
import Cdc2Net.Source.TxSection

/-!
# The esp-usb handle

`stick_task` of `source_usb.c` opens a device, publishes the handle in `S.cdc`, and on a
disconnect clears `S.cdc` and closes the handle. Any number of tasks run `tx_mtx` sections
on the handle, and `stick_task` runs one for the device's line coding.

The teardown does not take `tx_mtx`, so `cdc_acm_host_close` may start while a section that
has read the handle is open (`handle_lifetime_fails`). If it does not, every call is made on
an open handle and is over when its close starts (`handle_lifetime`); if it does, a call on
the closed handle is the next step of that section (`close_taken`).
-/

set_option autoImplicit false

namespace Cdc2Net.Source.UsbHandle

open Cdc2Net.Lib.Transition Cdc2Net.Lib.Lifetime TxSection

/-- Where `stick_task` stands, with its `cdc` and `is_vcp`. -/
inductive StickPc where
  /-- On `connect_sem`. -/
  | wait
  /-- In `open_dispatch`. -/
  | opening
  /-- Before `S.cdc = cdc`. -/
  | publish (h : Nat) (vcp : Bool)
  /-- Before `S.is_vcp = is_vcp`. -/
  | vcp (h : Nat) (vcp : Bool)
  /-- Before `apply_lc`, and in it. -/
  | apply (h : Nat)
  | applying (h : Nat)
  /-- On `disconnect_sem`. -/
  | serve (h : Nat)
  /-- Before `S.cdc = NULL`. -/
  | clear (h : Nat)
  /-- Before `S.is_vcp = false`. -/
  | clearVcp (h : Nat)
  /-- Before `cdc_acm_host_close`, and in it. -/
  | close (h : Nat)
  | closing (h : Nat)
  deriving DecidableEq, Repr

/-- The handle `stick_task` has opened and not begun to close. -/
def StickPc.handle : StickPc → Option Nat
  | .publish h _ | .vcp h _ | .apply h | .applying h | .serve h | .clear h | .clearVcp h
  | .close h => some h
  | _ => none

/-- The handle `stick_task` has published. -/
def StickPc.published : StickPc → Option Nat
  | .vcp h _ | .apply h | .applying h | .serve h | .clear h => some h
  | _ => none

/-- The part of the static `S` that the sections and the teardown share. Handles are
numbered as they are opened. -/
structure UsbState where
  tx : TxSide
  isVcp : Bool
  next : Nat
  stick : StickPc

/-- After `source_usb_init`. -/
def UsbState.start : UsbState := ⟨.start, false, 0, .wait⟩

/-- The steps. -/
inductive UsbLabel where
  /-- `stick_task` takes `connect_sem`. -/
  | connect
  /-- `open_dispatch` returns, with an error or with `is_vcp`. -/
  | opened (r : Option Bool)
  /-- Any other step of `stick_task`. -/
  | stick
  /-- `stick_task` takes `disconnect_sem`. -/
  | disconnect
  /-- A task calls the vtable. -/
  | enter (t : Nat) (op : TxOp)
  /-- A step of a section. -/
  | step (a : Agent)
  deriving DecidableEq, Repr

namespace UsbState

/-- An assignment to `S.cdc`. -/
def setCdc (s : UsbState) (c : Option Nat) : UsbState := { s with tx := { s.tx with handle := c } }

/-- A step of `stick_task`. The teardown takes no mutex. -/
def stepStick (s : UsbState) : Option UsbState :=
  match s.stick with
  | .publish h vcp => some { s.setCdc (some h) with stick := .vcp h vcp }
  | .vcp h vcp => some { s with isVcp := vcp, stick := .apply h }
  | .apply h =>
    some { s with tx := s.tx.setPc .stick (some (.wait .apply)), stick := .applying h }
  | .applying h => if s.tx.pcs .stick = none then some { s with stick := .serve h } else none
  | .clear h => some { s.setCdc none with stick := .clearVcp h }
  | .clearVcp h => some { s with isVcp := false, stick := .close h }
  | .close h => some { s with stick := .closing h }
  | .closing _ => some { s with stick := .wait }
  | _ => none

end UsbState

/-- `stick_task` and the sections. -/
def usbSystem : Machine UsbState UsbLabel where
  step s
    | .connect => if s.stick = .wait then some { s with stick := .opening } else none
    | .opened r =>
      if s.stick = .opening then
        match r with
        -- an open that failed is tried again
        | none => some { s with stick := .wait }
        | some vcp => some { s with stick := .publish s.next vcp, next := s.next + 1 }
      else none
    | .stick => s.stepStick
    | .disconnect =>
      match s.stick with
      | .serve h => some { s with stick := .clear h }
      | _ => none
    | .enter t op =>
      if s.tx.pcs (.user t) = none then
        some { s with tx := s.tx.setPc (.user t) (some (.wait op)) }
      else none
    | .step a => (s.tx.stepSection s.isVcp a).map fun tx => { s with tx := tx }

/-- What a step does to the handles: `retired` is the start of `cdc_acm_host_close`. -/
def usbEvents (s : UsbState) : UsbLabel → List (Event Agent Nat)
  | .opened (some _) => [.opened s.next]
  | .stick =>
    match s.stick with
    | .close h => [.retired h]
    | _ => []
  | .step a => s.tx.sectionEvents a
  | _ => []

/-- The section that has the mutex has read the handle that `stick_task` is about to
close. -/
def UsbState.closeTaken (s : UsbState) : Bool :=
  match s.stick with
  | .close h => s.tx.mtx.any fun a => (s.tx.pcs a).any fun pc => decide (pc.target = some h)
  | _ => false

/-- No close starts while a section that has read the handle is open. -/
def ClosesFree (s : UsbState) (l : UsbLabel) : Prop := l = .stick → s.closeTaken = false

instance (s : UsbState) : DecidablePred (ClosesFree s) :=
  fun _ => inferInstanceAs (Decidable (_ → _))

/-! ## What the steps keep -/

/-- The handles as the program knows them: every handle but the one `stick_task` holds is
retired. -/
def UsbState.usage (s : UsbState) : Usage Agent Nat where
  opened h := h < s.next
  retired h := h < s.next ∧ s.stick.handle ≠ some h
  inside a h := s.tx.callee a = some h

/-- The handle of a section is the one `stick_task` holds. -/
structure UsbInv (s : UsbState) : Prop where
  sections : SectionInv s.tx
  held : Held (fun h => s.stick.handle = some h) s.tx
  published : ∀ h, s.tx.handle = some h → s.stick.published = some h
  issued : ∀ h, s.stick.handle = some h → h < s.next
  applying : s.tx.pcs .stick ≠ none → ∃ h, s.stick = .applying h

theorem usbInv_start : UsbInv .start where
  sections := sectionInv_start
  held := held_start
  published _ h := by cases h
  issued _ h := by cases h
  applying h := absurd rfl h

theorem tracks_start : Tracks [] UsbState.start.usage :=
  .nil (fun _ => Nat.not_lt_zero _) (fun _ h => Nat.not_lt_zero _ h.1) fun _ _ h => by cases h

section Steps

variable {s t : UsbState} {l : UsbLabel} {hist : List (Event Agent Nat)} {pc : StickPc}

/-- What is published is held. -/
theorem StickPc.handle_of_published {h : Nat} (hp : pc.published = some h) :
    pc.handle = some h := by
  cases pc <;> first | exact hp | cases hp

/-- `stick_task` runs a section in `apply_lc` only. -/
theorem UsbInv.noSection (hi : UsbInv s) (hne : ∀ h, s.stick ≠ .applying h) :
    s.tx.pcs .stick = none := by
  by_contra hsec
  obtain ⟨h, hap⟩ := hi.applying hsec
  exact hne h hap

/-- `stick_task` goes on with the same handle and no section of its own. -/
theorem UsbInv.moveStick (hi : UsbInv s) {c : Option Nat} {v : Bool}
    (hsec : s.tx.pcs .stick = none) (hh : pc.handle = s.stick.handle)
    (hc : ∀ h, c = some h → pc.published = some h) :
    UsbInv { s.setCdc c with isVcp := v, stick := pc } where
  sections := hi.sections
  held := ⟨fun h hm => StickPc.handle_of_published (hc h hm),
    fun a sec h ha ht => hh.trans (hi.held.target a sec h ha ht)⟩
  published := hc
  issued h hpc := hi.issued h (hh.symm.trans hpc)
  applying hne := absurd hsec hne

/-- It does so without an assignment to `S.cdc`. -/
theorem UsbInv.nextStick (hi : UsbInv s) {v : Bool} (hsec : s.tx.pcs .stick = none)
    (hh : pc.handle = s.stick.handle)
    (hp : ∀ h, s.stick.published = some h → pc.published = some h) :
    UsbInv { s with isVcp := v, stick := pc } :=
  hi.moveStick hsec hh fun h hc => hp h (hi.published h hc)

/-- When a close starts, no section has a handle. -/
theorem UsbInv.no_target (hi : UsbInv s) {h : Nat} (hpc : s.stick = .close h)
    (hfree : s.closeTaken = false) {a : Agent} {sec : SectionPc} (ha : s.tx.pcs a = some sec) :
    sec.target = none := by
  by_contra hne
  obtain ⟨h', ht⟩ := Option.ne_none_iff_exists'.1 hne
  obtain rfl : h = h' := by
    have hheld : s.stick.handle = some h' := hi.held.target a sec h' ha ht
    rw [hpc] at hheld
    exact Option.some.inj hheld
  have hm := hi.sections a sec ha (SectionPc.holds_of_target ht)
  simp [UsbState.closeTaken, hpc, hm, ha, ht] at hfree

theorem UsbInv.stepStick (hi : UsbInv s) (hfree : s.closeTaken = false)
    (hs : s.stepStick = some t) : UsbInv t := by
  rw [UsbState.stepStick] at hs
  cases hpc : s.stick with
  | publish h vcp =>
    rw [hpc] at hs
    cases hs
    exact hi.moveStick (hi.noSection fun h' => by simp [hpc]) (by rw [hpc]; rfl) fun _ hc => hc
  | vcp h v =>
    rw [hpc] at hs
    cases hs
    exact hi.nextStick (hi.noSection fun h' => by simp [hpc]) (by rw [hpc]; rfl)
      (by rw [hpc]; exact fun _ h => h)
  | apply h =>
    rw [hpc] at hs
    cases hs
    have hnone := hi.noSection fun h' => by simp [hpc]
    have hmove : UsbInv { s with stick := .applying h } :=
      hi.nextStick hnone (by rw [hpc]; rfl) (by rw [hpc]; exact fun _ h => h)
    -- the section has read nothing yet
    exact ⟨hmove.sections.begin _ hnone, hmove.held.begin _,
      hmove.published, hmove.issued, fun _ => ⟨h, rfl⟩⟩
  | applying h =>
    rw [hpc] at hs
    simp only at hs
    split at hs
    · next hsec =>
      cases hs
      exact hi.nextStick hsec (by rw [hpc]; rfl) (by rw [hpc]; exact fun _ h => h)
    · cases hs
  | clear h =>
    rw [hpc] at hs
    cases hs
    exact hi.moveStick (hi.noSection fun h' => by simp [hpc]) (by rw [hpc]; rfl)
      fun _ hc => by cases hc
  | clearVcp h =>
    rw [hpc] at hs
    cases hs
    exact hi.nextStick (hi.noSection fun h' => by simp [hpc]) (by rw [hpc]; rfl)
      (by rw [hpc]; exact fun _ h => by cases h)
  | close h =>
    rw [hpc] at hs
    cases hs
    have hnone : ∀ h', s.tx.handle ≠ some h' := fun h' hc => by
      have hpub := hi.published h' hc
      rw [hpc] at hpub
      cases hpub
    have hsec := hi.noSection fun h' => by simp [hpc]
    refine ⟨hi.sections, ⟨fun h' hc => absurd hc (hnone h'), fun a sec h' ha ht => ?_⟩,
      fun h' hc => absurd hc (hnone h'), fun h' hh => (by cases hh), fun hne => absurd hsec hne⟩
    rw [hi.no_target hpc hfree ha] at ht
    cases ht
  | closing h =>
    rw [hpc] at hs
    cases hs
    exact hi.nextStick (hi.noSection fun h' => by simp [hpc]) (by rw [hpc]; rfl)
      (by rw [hpc]; exact fun _ h => by cases h)
  | wait => simp [hpc] at hs
  | opening => simp [hpc] at hs
  | serve h => simp [hpc] at hs

theorem UsbInv.step (hi : UsbInv s) (hok : ClosesFree s l) (hs : usbSystem.step s l = some t) :
    UsbInv t := by
  cases l with
  | connect =>
    simp only [usbSystem] at hs
    split at hs
    · next hpc =>
      cases hs
      exact hi.nextStick (hi.noSection fun h' => by simp [hpc]) (by rw [hpc]; rfl)
        (by rw [hpc]; exact fun _ h => by cases h)
    · cases hs
  | opened r =>
    simp only [usbSystem] at hs
    split at hs
    · next hpc =>
      have hsec := hi.noSection fun h' => by simp [hpc]
      cases r with
      | none =>
        cases hs
        exact hi.nextStick hsec (by rw [hpc]; rfl) (by rw [hpc]; exact fun _ h => by cases h)
      | some vcp =>
        -- nothing was open, so nothing is published or read
        cases hs
        have hnone : ∀ h, s.stick.handle ≠ some h := fun h => by simp [hpc, StickPc.handle]
        refine ⟨hi.sections, hi.held.mono fun h hh => absurd hh (hnone h),
          fun h hc => absurd (hi.held.handle h hc) (hnone h), fun h hh => ?_,
          fun hne => absurd hsec hne⟩
        cases hh
        exact Nat.lt_succ_self _
    · cases hs
  | stick => exact hi.stepStick (hok rfl) hs
  | disconnect =>
    cases hpc : s.stick with
    | serve h =>
      simp only [usbSystem, hpc] at hs
      cases hs
      exact hi.nextStick (hi.noSection fun h' => by simp [hpc]) (by rw [hpc]; rfl)
        (by rw [hpc]; exact fun _ h => h)
    | _ => simp [usbSystem, hpc] at hs
  | enter t op =>
    simp only [usbSystem] at hs
    split at hs
    · next hnone =>
      cases hs
      exact ⟨hi.sections.begin op hnone, hi.held.begin op, hi.published, hi.issued,
        fun hne => hi.applying (by simpa using hne)⟩
    · cases hs
  | step a =>
    obtain ⟨tx, htx, rfl⟩ := Option.map_eq_some_iff.1 hs
    have hhandle : tx.handle = s.tx.handle := TxSide.stepSection_handle htx
    refine ⟨hi.sections.step htx, hi.held.step htx, fun h hc => hi.published h (hhandle ▸ hc),
      hi.issued, fun hne => hi.applying ?_⟩
    by_cases ha : a = .stick
    · subst ha
      intro hnone
      rcases TxSide.stepSection_cases htx with ⟨op, hpc, -⟩ | ⟨op, hpc, -⟩ | ⟨op, h, hpc, -⟩ |
        ⟨op, h, hpc, -⟩ | ⟨op, hpc, -⟩ <;> simp [hnone] at hpc
    · exact (TxSide.stepSection_other htx fun h => ha h.symm) ▸ hne

/-- A step of `stick_task` that keeps its handle and its sections. -/
theorem tracks_moveStick (htr : Tracks hist s.usage) {c : Option Nat} {v : Bool}
    (hh : pc.handle = s.stick.handle) :
    Tracks hist { s.setCdc c with isVcp := v, stick := pc }.usage :=
  htr.congr (fun _ => Iff.rfl)
    (fun h => by simp [UsbState.usage, UsbState.setCdc, hh]) fun _ _ => Iff.rfl

theorem tracks_stepStick (hi : UsbInv s) (htr : Tracks hist s.usage)
    (hfree : s.closeTaken = false) (hs : s.stepStick = some t) :
    Tracks (hist ++ usbEvents s .stick) t.usage := by
  rw [UsbState.stepStick] at hs
  cases hpc : s.stick with
  | close h =>
    -- the handle is retired; no section has it
    rw [hpc] at hs
    cases hs
    simp only [usbEvents, hpc]
    refine htr.retiredStep (fun a hin => ?_) (fun _ => Iff.rfl) (fun q => ?_)
      fun _ _ => Iff.rfl
    · obtain ⟨sec, ha, hcall⟩ := Option.bind_eq_some_iff.1 hin
      have hnone := hi.no_target hpc hfree ha
      rw [SectionPc.target_of_callee hcall] at hnone
      cases hnone
    · have hlt := hi.issued h (by rw [hpc]; rfl)
      simp only [UsbState.usage, hpc, StickPc.handle, ne_eq, reduceCtorEq, not_false_eq_true,
        and_true, Option.some.injEq]
      constructor
      · intro hq
        by_cases hqh : h = q
        · exact Or.inr hqh.symm
        · exact Or.inl ⟨hq, hqh⟩
      · rintro (⟨hq, -⟩ | rfl)
        · exact hq
        · exact hlt
  | apply h =>
    rw [hpc] at hs
    cases hs
    simp only [usbEvents, hpc, List.append_nil]
    refine htr.congr (fun _ => Iff.rfl) (fun q => by simp [UsbState.usage, hpc, StickPc.handle])
      fun a q => ?_
    by_cases ha : a = .stick
    · subst ha
      have hnone := hi.noSection fun h' => by simp [hpc]
      simp [UsbState.usage, TxSide.callee, hnone, SectionPc.callee]
    · simp [UsbState.usage, TxSide.callee, ha]
  | applying h =>
    rw [hpc] at hs
    simp only at hs
    split at hs
    · cases hs
      simp only [usbEvents, hpc, List.append_nil]
      exact tracks_moveStick htr (by rw [hpc]; rfl)
    · cases hs
  | publish h vcp =>
    rw [hpc] at hs
    cases hs
    simp only [usbEvents, hpc, List.append_nil]
    exact tracks_moveStick htr (by rw [hpc]; rfl)
  | vcp h v =>
    rw [hpc] at hs
    cases hs
    simp only [usbEvents, hpc, List.append_nil]
    exact tracks_moveStick htr (by rw [hpc]; rfl)
  | clear h =>
    rw [hpc] at hs
    cases hs
    simp only [usbEvents, hpc, List.append_nil]
    exact tracks_moveStick htr (by rw [hpc]; rfl)
  | clearVcp h =>
    rw [hpc] at hs
    cases hs
    simp only [usbEvents, hpc, List.append_nil]
    exact tracks_moveStick htr (by rw [hpc]; rfl)
  | closing h =>
    rw [hpc] at hs
    cases hs
    simp only [usbEvents, hpc, List.append_nil]
    exact tracks_moveStick htr (by rw [hpc]; rfl)
  | wait => simp [hpc] at hs
  | opening => simp [hpc] at hs
  | serve h => simp [hpc] at hs

theorem tracks_step (hi : UsbInv s) (htr : Tracks hist s.usage) (hok : ClosesFree s l)
    (hs : usbSystem.step s l = some t) : Tracks (hist ++ usbEvents s l) t.usage := by
  cases l with
  | connect =>
    simp only [usbSystem] at hs
    split at hs
    · next hpc =>
      cases hs
      simp only [usbEvents, List.append_nil]
      exact tracks_moveStick htr (by rw [hpc]; rfl)
    · cases hs
  | opened r =>
    simp only [usbSystem] at hs
    split at hs
    · next hpc =>
      cases r with
      | none =>
        cases hs
        simp only [usbEvents, List.append_nil]
        exact tracks_moveStick htr (by rw [hpc]; rfl)
      | some vcp =>
        -- a handle more, held by `stick_task`
        cases hs
        refine htr.openedStep (fun q => Nat.lt_succ_iff_lt_or_eq) (fun q => ?_)
          fun _ _ => Iff.rfl
        simp only [UsbState.usage, hpc, StickPc.handle, ne_eq, Option.some.injEq, reduceCtorEq,
          not_false_eq_true, and_true]
        omega
    · cases hs
  | stick => exact tracks_stepStick hi htr (hok rfl) hs
  | disconnect =>
    cases hpc : s.stick with
    | serve h =>
      simp only [usbSystem, hpc] at hs
      cases hs
      simp only [usbEvents, List.append_nil]
      exact tracks_moveStick htr (by rw [hpc]; rfl)
    | _ => simp [usbSystem, hpc] at hs
  | enter t op =>
    simp only [usbSystem] at hs
    split at hs
    · next hnone =>
      cases hs
      simp only [usbEvents, List.append_nil]
      refine htr.congr (fun _ => Iff.rfl) (fun _ => Iff.rfl) fun a q => ?_
      by_cases ha : a = .user t
      · subst ha
        simp [UsbState.usage, TxSide.callee, hnone, SectionPc.callee]
      · simp [UsbState.usage, TxSide.callee, ha]
    · cases hs
  | step a =>
    obtain ⟨tx, htx, rfl⟩ := Option.map_eq_some_iff.1 hs
    refine tracks_stepSection (D := fun _ _ => False) htr htx (fun _ => Iff.rfl)
      (fun _ => Iff.rfl) (fun _ _ => by simp [UsbState.usage]) (fun _ _ => by
        simp [UsbState.usage]) (fun _ _ h => h) fun sec h ha ht => ?_
    have hheld : s.stick.handle = some h := hi.held.target a sec h ha ht
    exact ⟨hi.issued h hheld, fun hr => hr.2 hheld⟩

end Steps

/-! ## Every call is made on an open handle -/

/-- `source_usb.c` with the history of its driver calls. -/
abbrev usbRecorded : Machine (UsbState × List (Event Agent Nat)) UsbLabel :=
  usbSystem.record usbEvents

theorem usbInv_reaches {p : UsbState × List (Event Agent Nat)}
    (h : usbRecorded.Reaches (fun p l => ClosesFree p.1 l) (.start, []) p) :
    UsbInv p.1 ∧ Tracks p.2 p.1.usage := by
  refine Machine.Reaches.invariant (I := fun p => UsbInv p.1 ∧ Tracks p.2 p.1.usage) h
    ⟨usbInv_start, tracks_start⟩ ?_
  intro p l q ⟨hi, htr⟩ hok hstep
  obtain ⟨hs, hq⟩ := Machine.record_step hstep
  exact ⟨hi.step hok hs, hq ▸ tracks_step hi htr hok hs⟩

/-- Every driver call is made on a handle that has been opened and whose close has not been
started, and none is in progress when the close starts, in every run in which no close
starts while a section that has read the handle is open. -/
theorem handle_lifetime {p : UsbState × List (Event Agent Nat)}
    (h : usbRecorded.Reaches (fun p l => ClosesFree p.1 l) (.start, []) p) : Legal p.2 :=
  (usbInv_reaches h).2.legal

/-- Two plug cycles of a VCP device, with a write in the first. -/
theorem handle_lifetime_cycles :
    ∃ p, usbRecorded.Reaches (fun p l => ClosesFree p.1 l) (.start, []) p ∧
      p.2.length = 10 ∧ Legal p.2 := by
  obtain ⟨p, hrun, hlen⟩ := usbRecorded.exists_reaches_of_runIf (fun p l => ClosesFree p.1 l)
    (fun p => p.2.length = 10) (.start, [])
    [[.connect, .opened (some true)], List.replicate 3 .stick,
      List.replicate 4 (.step .stick), [.stick, .enter 0 .tx],
      List.replicate 4 (.step (.user 0)), [.disconnect], List.replicate 4 .stick,
      [.connect, .opened (some true)], List.replicate 3 .stick,
      List.replicate 4 (.step .stick), [.stick, .disconnect], List.replicate 4 .stick].flatten
    (by decide +kernel)
  exact ⟨p, hrun, hlen, handle_lifetime hrun⟩

/-- A section that has read the handle of a close that starts makes its call on the closed
handle, or is in it already. -/
theorem close_taken {p : UsbState × List (Event Agent Nat)} (htr : Tracks p.2 p.1.usage)
    (htaken : p.1.closeTaken = true) :
    ∃ q, usbRecorded.Reaches (fun _ _ => True) p q ∧ ¬ Legal q.2 := by
  cases hpc : p.1.stick with
  | close h =>
    simp only [UsbState.closeTaken, hpc, Option.any_eq_true, decide_eq_true_eq] at htaken
    obtain ⟨a, hm, sec, ha, ht⟩ := htaken
    have hclose : usbRecorded.step p .stick =
        some ({ p.1 with stick := .closing h }, p.2 ++ [Event.retired h]) := by
      simp [usbRecorded, Machine.record, usbSystem, UsbState.stepStick, usbEvents, hpc]
    have hrun := Relation.ReflTransGen.single (r := usbRecorded.StepIf fun _ _ => True)
      ⟨UsbLabel.stick, trivial, hclose⟩
    cases sec with
    | wait op => cases ht
    | give op => cases ht
    | call op h' =>
      -- the call is in progress when the close starts
      cases ht
      refine ⟨_, hrun, fun hlegal => ?_⟩
      have hin : InCall p.2 a h := htr.inCall_iff.2 (by simp [UsbState.usage, TxSide.callee, ha,
        SectionPc.callee])
      exact hlegal.retires p.2 h [] rfl a hin
    | taken op h' =>
      -- the call is the next step of the section
      cases ht
      have hcall : usbRecorded.step ({ p.1 with stick := .closing h }, p.2 ++ [Event.retired h])
          (.step a) = some ({ p.1 with
            tx := p.1.tx.setPc a (some (.call op h)), stick := .closing h },
            p.2 ++ [Event.retired h] ++ [Event.enter a h]) := by
        simp [usbRecorded, Machine.record, usbSystem, TxSide.stepSection, usbEvents,
          TxSide.sectionEvents, ha]
      refine ⟨_, hrun.tail ⟨.step a, trivial, hcall⟩, fun hlegal => ?_⟩
      have hsplit : p.2 ++ [Event.retired h] ++ [Event.enter a h] =
          p.2 ++ Event.retired h :: [Event.enter a h] := by simp
      exact hlegal.not_entered hsplit (List.mem_singleton_self _)
  | _ => simp [UsbState.closeTaken, hpc] at htaken

/-- Without the condition it fails: a write has taken `tx_mtx` and read `S.cdc` when the
device is unplugged, and calls the driver after the close. -/
theorem handle_lifetime_fails :
    ∃ p, usbRecorded.Reaches (fun _ _ => True) (.start, []) p ∧ ¬ Legal p.2 := by
  obtain ⟨p, hrun, hhist⟩ := usbRecorded.exists_reaches_of_runIf (fun _ _ => True)
    (fun p => p.2 = [.opened 0, .retired 0, .enter (.user 0) 0]) (.start, [])
    [[.connect, .opened (some false)], List.replicate 3 .stick,
      List.replicate 3 (.step .stick), [.stick, .enter 0 .tx, .step (.user 0), .disconnect],
      List.replicate 3 .stick, [.step (.user 0)]].flatten
    (by decide +kernel)
  refine ⟨p, hrun, fun hlegal => ?_⟩
  have hsplit : p.2 = [Event.opened 0] ++ Event.retired 0 :: [.enter (Agent.user 0) 0] := hhist
  exact hlegal.not_entered hsplit (List.mem_singleton_self _)

end Cdc2Net.Source.UsbHandle
