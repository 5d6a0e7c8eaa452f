import Cdc2Net.Source.Cherry

/-!
# The teardown handshake of the CherryUSB source

The hub thread frees an instance after `usbh_serial_stop` has returned, which waits until
`stick_task` has set `S.rx_idle`. Between the claim and its `S.rx_idle = false` the task is
not waited for, so on a stack that finds the name until the free it may open the instance
after the hook (`freed_unused_fails`); the free is then the next step of the hub thread
(`opens_freed`), and without such an open no call is in progress on an instance that is freed
and none is entered afterwards (`freed_unused`). The vendored stack is strict: it clears
`connected` before the hook and its lookup passes over such a port, so nothing is left to
assume (`freed_unused_strict`).
-/

set_option autoImplicit false

namespace Cdc2Net.Source.Cherry

open Cdc2Net.Lib.Transition Cdc2Net.Lib.Lifetime TxSection

/-- What a step does to the instances: `retired` is the free. -/
def cherryEvents (strict : Bool) (s : CherryState) : CherryLabel → List (Event Agent Nat)
  | .connect _ => [.opened s.next]
  | .hub =>
    match s.hub with
    | .free x => [.retired x.id]
    | _ => []
  | .stick =>
    match s.stick with
    | .open => ((s.lookup strict).map fun x => Event.enter Agent.stick x.id).toList
    | .read x => [.enter .stick x.id]
    | .close x => [.enter .stick x.id]
    | .closing x => [.leave .stick x.id]
    | _ => []
  | .opened _ =>
    match s.stick with
    | .opening (some x) => [.leave .stick x.id]
    | _ => []
  | .readRet _ =>
    match s.stick with
    | .reading x => [.leave .stick x.id]
    | _ => []
  | .step a => s.tx.sectionEvents a
  | _ => []

/-- `stick_task` is about to open an instance whose hook has returned and that is not freed
yet. -/
def CherryState.opensFreed (strict : Bool) (s : CherryState) : Bool :=
  match s.stick, s.hub with
  | .open, .free x => decide (s.lookup strict = some x)
  | _, _ => false

/-- `stick_task` does not open an instance between the return of its hook and its free. -/
def OpensLive (strict : Bool) (s : CherryState) (l : CherryLabel) : Prop :=
  l = .stick → s.opensFreed strict = false

instance (strict : Bool) (s : CherryState) : DecidablePred (OpensLive strict s) :=
  fun _ => inferInstanceAs (Decidable (_ → _))

/-! ## What `stick_task` has in hand -/

/-- It is there, has the claimed name, and is not about to be freed. -/
structure Handed (s : CherryState) : Prop where
  ref : ∀ x, s.stick.ref = some x → x ∈ s.insts ∧ s.devname = some x.name
  freed : ∀ x, s.hub = .free x → s.stick.ref ≠ some x

theorem handed_start : Handed .start where
  ref _ h := by cases h
  freed _ h := by cases h

section Steps

variable {strict : Bool} {s t : CherryState} {l : CherryLabel} {x : Instance}
variable {hist : List (Event Agent Nat)}

theorem StickPc.active_of_ref {pc : StickPc} (h : pc.ref = some x) : pc.active = true := by
  cases pc <;> first | rfl | cases h

theorem StickPc.ref_of_shared {pc : StickPc} (h : pc.shared = some x) : pc.ref = some x := by
  cases pc <;> first | exact h | cases h

theorem StickPc.ref_of_callee {pc : StickPc} (h : pc.callee = some x) : pc.ref = some x := by
  cases pc <;> first | exact h | cases h

theorem CherryState.lookup_mem (h : s.lookup strict = some x) :
    x ∈ s.insts ∧ s.devname = some x.name ∧ (strict = true → s.connected x.port = true) := by
  have hp := List.find?_some h
  simp only [Bool.and_eq_true, decide_eq_true_eq, Bool.or_eq_true, Bool.not_eq_true'] at hp
  exact ⟨List.mem_of_find?_eq_some h, hp.1, fun hst => hp.2.resolve_left (by simp [hst])⟩

/-- `stick_task` takes an instance in hand by its name, and keeps it or lets go of it. -/
theorem CherryState.stepStick_ref (hs : s.stepStick strict = some t) :
    t.stick.ref = s.stick.ref ∨ t.stick.ref = none ∨
      s.stick = .open ∧ t.stick.ref = s.lookup strict := by
  rw [CherryState.stepStick] at hs
  cases hpc : s.stick with
  | publish x | clear x =>
    simp only [hpc] at hs
    obtain ⟨tx, -, rfl⟩ := Option.map_eq_some_iff.1 hs
    exact Or.inl rfl
  | opening | applying | reading => simp [hpc] at hs
  | _ => grind -ring -linarith [StickPc.ref]

/-- An instance in hand keeps the hub thread from its free: it is not freed without the
claim, under another name, or while `S.rx_idle` is clear. -/
theorem Handed.stepHub (h : Handed s) (hinv : CherryInv s) (hs : s.stepHub = some t) :
    Handed t := by
  obtain ⟨hflow, -, hports⟩ := hinv
  have hnone : s.claimed = false → s.stick.ref = none := fun hc => by
    have hw : s.stick = .wait := by_contra fun hne => by
      rw [hflow.claimed.2 (Or.inl hne)] at hc
      cases hc
    rw [hw]
    rfl
  have hact : s.rxIdle = true → s.stick.ref = none := fun hidle => by
    by_contra hne
    obtain ⟨y, hy⟩ := Option.ne_none_iff_exists'.1 hne
    rw [hflow.idle (StickPc.active_of_ref hy)] at hidle
    cases hidle
  rw [CherryState.stepHub] at hs
  cases hpc : s.hub with
  | record x =>
    rw [hpc] at hs
    cases hs
    have hr := hnone (hflow.claiming (by rw [hpc]; rfl))
    exact ⟨fun y hy => (by rw [hr] at hy; cases hy), fun y hy => by cases hy⟩
  | free x =>
    rw [hpc] at hs
    cases hs
    refine ⟨fun y hy => ⟨List.mem_filter.2 ⟨(h.ref y hy).1, ?_⟩, (h.ref y hy).2⟩,
      fun y hy => by cases hy⟩
    -- another instance, so another number
    have hne : y ≠ x := fun hyx => h.freed x hpc (hyx ▸ hy)
    have hx := hports.stopping x (by rw [hpc]; rfl)
    simpa using fun hid => hne (hports.ids y (h.ref y hy).1 x hx hid)
  | stop x pc =>
    cases pc with
    | lock =>
      rw [hpc] at hs
      obtain ⟨tx, -, rfl⟩ := Option.map_eq_some_iff.1 hs
      exact ⟨h.ref, fun y hy => by cases hy⟩
    | claimed =>
      rw [hpc] at hs
      cases hs
      refine ⟨h.ref, fun y hy => ?_⟩
      cases hc : s.claimed with
      | true => simp [hc] at hy
      | false => simp [hnone hc]
    | name =>
      rw [hpc] at hs
      cases hs
      refine ⟨h.ref, fun y hy href => ?_⟩
      have hname := (h.ref y href).2
      by_cases hd : s.devname = some x.name
      · simp [hd] at hy
      · simp only [hd, if_false] at hy
        cases hy
        exact hd hname
    | poll =>
      rw [hpc] at hs
      cases hs
      refine ⟨h.ref, fun y hy => ?_⟩
      cases hr : s.rxIdle with
      | true => simp [hact hr]
      | false => simp [hr] at hy
    | handle =>
      rw [hpc] at hs
      cases hs
      exact ⟨h.ref, fun y hy => by grind⟩
    | _ =>
      rw [hpc] at hs
      cases hs
      exact ⟨h.ref, fun y hy => by cases hy⟩
  | idle | enum | release => simp [hpc] at hs
  | started | gone =>
    rw [hpc] at hs
    cases hs
    exact ⟨h.ref, fun y hy => by grind⟩
  | _ =>
    rw [hpc] at hs
    cases hs
    exact ⟨h.ref, fun y hy => by cases hy⟩

/-- The same instance in hand, or none. -/
theorem Handed.keep (h : Handed s) (hi : t.insts = s.insts) (hd : t.devname = s.devname)
    (hh : t.hub = s.hub) (hr : t.stick.ref = s.stick.ref ∨ t.stick.ref = none) : Handed t where
  ref x hx := by
    rcases hr with hr | hr
    · rw [hi, hd]
      exact h.ref x (hr ▸ hx)
    · rw [hr] at hx
      cases hx
  freed x hx := by
    rcases hr with hr | hr
    · rw [hr]
      exact h.freed x (hh ▸ hx)
    · simp [hr]

theorem Handed.step (h : Handed s) (hinv : CherryInv s) (hok : OpensLive strict s l)
    (hs : (cherry strict).step s l = some t) : Handed t := by
  cases l with
  | hub => exact h.stepHub hinv hs
  | stick =>
    obtain ⟨hi, -, -, -, hd, -, -, hh⟩ := CherryState.stepStick_frame hs
    rcases CherryState.stepStick_ref hs with hr | hr | ⟨hopen, hr⟩
    · exact h.keep hi hd hh (Or.inl hr)
    · exact h.keep hi hd hh (Or.inr hr)
    · refine ⟨fun x hx => ?_, fun x hx href => ?_⟩
      · obtain ⟨hmem, hname, -⟩ := CherryState.lookup_mem (hr.symm.trans hx)
        rw [hi, hd]
        exact ⟨hmem, hname⟩
      · have hfreed := hok rfl
        rw [hh] at hx
        simp [CherryState.opensFreed, hopen, hx, hr.symm.trans href] at hfreed
  | step a =>
    obtain ⟨tx, -, rfl⟩ := Option.map_eq_some_iff.1 hs
    exact ⟨h.ref, h.freed⟩
  | enter u op =>
    simp only [cherry] at hs
    split at hs
    · cases hs
      exact ⟨h.ref, h.freed⟩
    · cases hs
  | opened ok =>
    have hr : t.insts = s.insts ∧ t.devname = s.devname ∧ t.hub = s.hub ∧
        (t.stick.ref = s.stick.ref ∨ t.stick.ref = none) := by
      grind -ring -linarith [cherry, StickPc.ref]
    exact h.keep hr.1 hr.2.1 hr.2.2.1 hr.2.2.2
  | applied ok =>
    have hr : t.insts = s.insts ∧ t.devname = s.devname ∧ t.hub = s.hub ∧
        t.stick.ref = s.stick.ref := by
      grind -ring -linarith [cherry, StickPc.ref]
    exact h.keep hr.1 hr.2.1 hr.2.2.1 (Or.inl hr.2.2.2)
  | readRet err =>
    have hr : t.insts = s.insts ∧ t.devname = s.devname ∧ t.hub = s.hub ∧
        t.stick.ref = s.stick.ref := by
      grind -ring -linarith [cherry, StickPc.ref]
    exact h.keep hr.1 hr.2.1 hr.2.2.1 (Or.inl hr.2.2.2)
  | _ =>
    obtain ⟨-, hst, hflags, -⟩ := stack_frame rfl hs
    obtain ⟨hins, hfree⟩ := stack_insts rfl hs
    refine ⟨fun x hx => ?_, fun x hx => by rw [hst]; exact h.freed x (hfree x hx)⟩
    rw [hst] at hx
    rw [hflags.1]
    exact ⟨hins x (h.ref x hx).1, (h.ref x hx).2⟩

/-! ## The calls -/

/-- The instances as the stack and the tasks know them. -/
def CherryState.usage (s : CherryState) : Usage Agent Nat where
  opened i := i < s.next
  retired i := i < s.next ∧ ∀ x ∈ s.insts, x.id ≠ i
  inside a i := s.tx.callee a = some i ∨ a = .stick ∧ ∃ x, s.stick.callee = some x ∧ x.id = i

theorem tracks_start : Tracks [] CherryState.start.usage :=
  .nil (fun _ => Nat.not_lt_zero _) (fun _ h => Nat.not_lt_zero _ h.1) fun _ _ h => by
    rcases h with h | ⟨-, x, h, -⟩ <;> cases h

/-- A step that makes, enters and frees nothing. -/
theorem tracks_congr (htr : Tracks hist s.usage) (hi : t.insts = s.insts)
    (hn : t.next = s.next) (hc : ∀ a, t.tx.callee a = s.tx.callee a)
    (hst : t.stick.callee = s.stick.callee) : Tracks hist t.usage := by
  refine htr.congr (fun i => ?_) (fun i => ?_) fun a i => ?_
  · simp only [CherryState.usage, hn]
  · simp only [CherryState.usage, hn, hi]
  · simp only [CherryState.usage, hc, hst]

/-- `stick_task` enters a call on an instance that is there. -/
theorem tracks_enter (htr : Tracks hist s.usage) (hp : Ports s) (hi : t.insts = s.insts)
    (hn : t.next = s.next) (htx : t.tx = s.tx) (hx : x ∈ s.insts)
    (hsec : s.tx.pcs .stick = none) (hout : s.stick.callee = none)
    (hst : t.stick.callee = some x) : Tracks (hist ++ [Event.enter Agent.stick x.id]) t.usage := by
  have hcall : s.tx.callee .stick = none := by simp [TxSide.callee, hsec]
  refine htr.enterStep (hp.issued x hx) (fun hr => hr.2 x hx rfl) ?_ (fun i => ?_) (fun i => ?_)
    fun a i => ?_
  · simp [CherryState.usage, hcall, hout]
  · simp only [CherryState.usage, hn]
  · simp only [CherryState.usage, hn, hi]
  · by_cases ha : a = .stick
    · subst ha
      simp [CherryState.usage, htx, hcall, hout, hst, eq_comm]
    · simp [CherryState.usage, htx, ha]

/-- It leaves the call it is in. -/
theorem tracks_leave (htr : Tracks hist s.usage) (hi : t.insts = s.insts)
    (hn : t.next = s.next) (htx : t.tx = s.tx) (hsec : s.tx.pcs .stick = none)
    (hin : s.stick.callee = some x) (hst : t.stick.callee = none) :
    Tracks (hist ++ [Event.leave Agent.stick x.id]) t.usage := by
  have hcall : s.tx.callee .stick = none := by simp [TxSide.callee, hsec]
  refine htr.leaveStep ?_ (fun i => ?_) (fun i => ?_) fun a i => ?_
  · simp [CherryState.usage, hin]
  · simp only [CherryState.usage, hn]
  · simp only [CherryState.usage, hn, hi]
  · by_cases ha : a = .stick
    · subst ha
      simp [CherryState.usage, htx, hcall, hin, hst, eq_comm]
    · simp [CherryState.usage, htx, ha]

theorem tracks_stepStick (hinv : CherryInv s) (hh : Handed s) (htr : Tracks hist s.usage)
    (hs : s.stepStick strict = some t) :
    Tracks (hist ++ cherryEvents strict s .stick) t.usage := by
  obtain ⟨hi, hn, -, -, -, -, -, -⟩ := CherryState.stepStick_frame hs
  rw [CherryState.stepStick] at hs
  cases hpc : s.stick with
  | «open» =>
    rw [hpc] at hs
    cases hs
    have hsec := hinv.users.noSection (by simp [hpc])
    cases hlook : s.lookup strict with
    | none =>
      simp only [cherryEvents, hpc, hlook, Option.map_none, Option.toList_none, List.append_nil]
      exact tracks_congr htr rfl rfl (fun _ => rfl) (by rw [hpc]; rfl)
    | some x =>
      simp only [cherryEvents, hpc, hlook, Option.map_some, Option.toList_some]
      exact tracks_enter htr hinv.ports rfl rfl rfl (CherryState.lookup_mem hlook).1 hsec
        (by rw [hpc]; rfl) rfl
  | read x =>
    rw [hpc] at hs
    cases hs
    simp only [cherryEvents, hpc]
    exact tracks_enter htr hinv.ports rfl rfl rfl (hh.ref x (by rw [hpc]; rfl)).1
      (hinv.users.noSection (by simp [hpc])) (by rw [hpc]; rfl) rfl
  | close x =>
    rw [hpc] at hs
    cases hs
    simp only [cherryEvents, hpc]
    exact tracks_enter htr hinv.ports rfl rfl rfl (hh.ref x (by rw [hpc]; rfl)).1
      (hinv.users.noSection (by simp [hpc])) (by rw [hpc]; rfl) rfl
  | closing x =>
    rw [hpc] at hs
    cases hs
    simp only [cherryEvents, hpc]
    exact tracks_leave htr rfl rfl rfl (hinv.users.noSection (by simp [hpc]))
      (by rw [hpc]; rfl) rfl
  | publish x | clear x =>
    simp only [hpc] at hs
    obtain ⟨tx, htx, rfl⟩ := Option.map_eq_some_iff.1 hs
    obtain ⟨-, -, hpcs, -⟩ := Held.lockSet (H := fun _ => True) hinv.users.sections htx
      fun _ _ => trivial
    simp only [cherryEvents, hpc, List.append_nil]
    exact tracks_congr htr rfl rfl (fun a => by simp only [TxSide.callee, hpcs])
      (by rw [hpc]; rfl)
  | apply x =>
    rw [hpc] at hs
    cases hs
    have hsec := hinv.users.noSection (by simp [hpc])
    simp only [cherryEvents, hpc, List.append_nil]
    refine tracks_congr htr rfl rfl (fun a => ?_) (by rw [hpc]; rfl)
    by_cases ha : a = .stick
    · subst ha
      simp [TxSide.callee, hsec, SectionPc.callee]
    · simp [TxSide.callee, ha]
  | opening | applying | reading => simp [hpc] at hs
  | wait =>
    rw [hpc] at hs
    simp only at hs
    split at hs
    · cases hs
      simp only [cherryEvents, hpc, List.append_nil]
      exact tracks_congr htr rfl rfl (fun _ => rfl) (by rw [hpc]; rfl)
    · cases hs
  | retry =>
    rw [hpc] at hs
    cases hs
    simp only [cherryEvents, hpc, List.append_nil]
    cases hw : s.wantClose <;>
      exact tracks_congr htr rfl rfl (fun _ => rfl) (by simp [hpc, StickPc.callee])
  | test x =>
    rw [hpc] at hs
    cases hs
    simp only [cherryEvents, hpc, List.append_nil]
    cases hw : s.wantClose <;>
      exact tracks_congr htr rfl rfl (fun _ => rfl) (by simp [hpc, StickPc.callee])
  | check x =>
    rw [hpc] at hs
    cases hs
    simp only [cherryEvents, hpc, List.append_nil]
    cases hw : s.connected x.port <;>
      exact tracks_congr htr rfl rfl (fun _ => rfl) (by simp [hpc, StickPc.callee])
  | _ =>
    rw [hpc] at hs
    cases hs
    simp only [cherryEvents, hpc, List.append_nil]
    exact tracks_congr htr rfl rfl (fun _ => rfl) (by rw [hpc]; rfl)

/-- No call is in progress on an instance that `stick_task` does not have in hand. -/
theorem not_inside (hu : Users s) (hx : ∀ y, s.stick.ref = some y → y.id ≠ x.id) (a : Agent) :
    ¬ s.usage.inside a x.id := by
  rintro (hc | ⟨-, y, hy, hid⟩)
  · obtain ⟨sec, ha, hcall⟩ := Option.bind_eq_some_iff.1 hc
    obtain ⟨y, hy, hid⟩ := hu.held.target a sec x.id ha (SectionPc.target_of_callee hcall)
    exact hx y (StickPc.ref_of_shared hy) hid
  · exact hx y (StickPc.ref_of_callee hy) hid

theorem tracks_stepHub (hinv : CherryInv s) (hh : Handed s) (htr : Tracks hist s.usage)
    (hs : s.stepHub = some t) : Tracks (hist ++ cherryEvents strict s .hub) t.usage := by
  rw [CherryState.stepHub] at hs
  cases hpc : s.hub with
  | free x =>
    rw [hpc] at hs
    cases hs
    simp only [cherryEvents, hpc]
    have hx := hinv.ports.stopping x (by rw [hpc]; rfl)
    refine htr.retiredStep (not_inside hinv.users fun y hy hid => ?_) (fun _ => Iff.rfl)
      (fun i => ?_) fun _ _ => Iff.rfl
    · have hyx := hinv.ports.ids y (hh.ref y hy).1 x hx hid
      exact hh.freed x hpc (hyx ▸ hy)
    · have hissued := hinv.ports.issued x hx
      simp only [CherryState.usage, List.mem_filter, decide_eq_true_eq, ne_eq, and_imp]
      constructor
      · rintro ⟨hlt, hall⟩
        by_cases hix : i = x.id
        · exact Or.inr hix
        · refine Or.inl ⟨hlt, fun y hy hid => hall y hy (fun hyx => hix ?_) hid⟩
          exact hid.symm.trans hyx
      · rintro (⟨hlt, hall⟩ | rfl)
        · exact ⟨hlt, fun y hy _ => hall y hy⟩
        · exact ⟨hissued, fun y _ hne => hne⟩
  | stop x pc =>
    cases pc with
    | lock =>
      rw [hpc] at hs
      obtain ⟨tx, htx, rfl⟩ := Option.map_eq_some_iff.1 hs
      obtain ⟨-, -, hpcs, -⟩ := Held.lockSet (H := fun _ => True) hinv.users.sections htx
        fun _ hv => by cases hv
      simp only [cherryEvents, hpc, List.append_nil]
      exact tracks_congr htr rfl rfl (fun a => by simp only [TxSide.callee, hpcs]) rfl
    | _ =>
      rw [hpc] at hs
      cases hs
      simp only [cherryEvents, hpc, List.append_nil]
      exact tracks_congr htr rfl rfl (fun _ => rfl) rfl
  | idle | enum | release => simp [hpc] at hs
  | _ =>
    rw [hpc] at hs
    cases hs
    simp only [cherryEvents, hpc, List.append_nil]
    exact tracks_congr htr rfl rfl (fun _ => rfl) rfl

theorem tracks_step (hinv : CherryInv s) (hh : Handed s) (htr : Tracks hist s.usage)
    (hs : (cherry strict).step s l = some t) :
    Tracks (hist ++ cherryEvents strict s l) t.usage := by
  cases l with
  | stick => exact tracks_stepStick hinv hh htr hs
  | hub => exact tracks_stepHub hinv hh htr hs
  | connect n =>
    simp only [cherry] at hs
    split at hs
    · split at hs
      · cases hs
        refine htr.openedStep (fun i => Nat.lt_succ_iff_lt_or_eq) (fun i => ?_) fun _ _ => Iff.rfl
        simp only [CherryState.usage, List.forall_mem_cons]
        constructor
        · rintro ⟨hlt, hne, hall⟩
          exact ⟨by omega, hall⟩
        · rintro ⟨hlt, hall⟩
          exact ⟨by omega, by omega, hall⟩
      · cases hs
    · cases hs
  | opened ok =>
    simp only [cherry] at hs
    split at hs
    · next x hpc =>
      cases hs
      simp only [cherryEvents, hpc]
      exact tracks_leave htr rfl rfl rfl (hinv.users.noSection (by simp [hpc]))
        (by rw [hpc]; rfl) (by cases ok <;> rfl)
    · next hpc =>
      cases hs
      simp only [cherryEvents, hpc, List.append_nil]
      exact tracks_congr htr rfl rfl (fun _ => rfl) (by rw [hpc]; rfl)
    · cases hs
  | readRet err =>
    simp only [cherry] at hs
    split at hs
    · next x hpc =>
      cases hs
      simp only [cherryEvents, hpc]
      exact tracks_leave htr rfl rfl rfl (hinv.users.noSection (by simp [hpc]))
        (by rw [hpc]; rfl) (by cases err <;> rfl)
    · cases hs
  | applied ok =>
    simp only [cherry] at hs
    split at hs
    · next x hpc =>
      split at hs
      · cases hs
        simp only [cherryEvents, List.append_nil]
        exact tracks_congr htr rfl rfl (fun _ => rfl) (by rw [hpc]; cases ok <;> rfl)
      · cases hs
    · cases hs
  | enter u op =>
    simp only [cherry] at hs
    split at hs
    · next hnone =>
      cases hs
      simp only [cherryEvents, List.append_nil]
      refine tracks_congr htr rfl rfl (fun a => ?_) rfl
      by_cases ha : a = .user u
      · subst ha
        simp [TxSide.callee, hnone, SectionPc.callee]
      · simp [TxSide.callee, ha]
    · cases hs
  | step a =>
    obtain ⟨tx, htx, rfl⟩ := Option.map_eq_some_iff.1 hs
    refine tracks_stepSection
      (D := fun b i => b = .stick ∧ ∃ x, s.stick.callee = some x ∧ x.id = i) htr htx
      (fun _ => Iff.rfl) (fun _ => Iff.rfl) (fun _ _ => Iff.rfl) (fun _ _ => Iff.rfl) ?_ ?_
    · -- in a section of its own, `stick_task` is in no other call
      rintro hne i ⟨rfl, x, hx, -⟩
      obtain ⟨y, hap⟩ := hinv.users.applying hne
      rw [hap] at hx
      cases hx
    · intro sec i ha ht
      obtain ⟨x, hx, hid⟩ := hinv.users.held.target a sec i ha ht
      have hmem := (hh.ref x (StickPc.ref_of_shared hx)).1
      rw [← hid]
      exact ⟨hinv.ports.issued x hmem, fun hr => hr.2 x hmem rfl⟩
  | attach | enumerated | release | stop | disconnected | pull =>
    have hf := stack_frame rfl hs
    have hins : t.insts = s.insts ∧ t.next = s.next := by grind -ring -linarith [cherry]
    simp only [cherryEvents, List.append_nil]
    exact tracks_congr htr hins.1 hins.2 (fun a => by rw [hf.1]) (by rw [hf.2.1])

end Steps

/-! ## No call on a freed instance -/

/-- The source with the history of its driver calls. -/
abbrev cherryRecorded (strict : Bool) : Machine (CherryState × List (Event Agent Nat))
    CherryLabel := (cherry strict).record (cherryEvents strict)

/-- What a run keeps. -/
structure TeardownInv (p : CherryState × List (Event Agent Nat)) : Prop where
  inv : CherryInv p.1
  handed : Handed p.1
  tracks : Tracks p.2 p.1.usage

theorem teardownInv_start : TeardownInv (.start, []) :=
  ⟨cherryInv_start, handed_start, tracks_start⟩

theorem TeardownInv.step {strict : Bool} {p q : CherryState × List (Event Agent Nat)}
    {l : CherryLabel} (h : TeardownInv p) (hok : OpensLive strict p.1 l)
    (hstep : (cherryRecorded strict).step p l = some q) : TeardownInv q := by
  obtain ⟨hs, hq⟩ := Machine.record_step hstep
  exact ⟨h.inv.step hs, h.handed.step h.inv hok hs,
    hq ▸ tracks_step h.inv h.handed h.tracks hs⟩

/-- When an instance is freed no call on it is in progress, and none is entered afterwards,
in every run in which `stick_task` does not open an instance between the return of its hook
and its free. -/
theorem freed_unused {strict : Bool} {p : CherryState × List (Event Agent Nat)}
    (h : (cherryRecorded strict).Reaches (fun p l => OpensLive strict p.1 l) (.start, []) p) :
    Legal p.2 :=
  (Machine.Reaches.invariant (I := TeardownInv) h teardownInv_start
    fun _ _ _ hi hok hs => hi.step hok hs).tracks.legal

/-- A device that is served, written to and unplugged in a read. -/
theorem freed_unused_cycle :
    ∃ p, (cherryRecorded false).Reaches (fun p l => OpensLive false p.1 l) (.start, []) p ∧
      p.2.length = 12 ∧ Legal p.2 := by
  obtain ⟨p, hrun, hlen⟩ := (cherryRecorded false).exists_reaches_of_runIf
    (fun p l => OpensLive false p.1 l) (fun p => p.2.length = 12) (.start, [])
    [[.attach (0, 1), .connect 0], List.replicate 5 .hub, [.enumerated],
      List.replicate 3 .stick, [.opened true], List.replicate 3 .stick,
      List.replicate 4 (.step .stick), [.applied true, .stick, .stick, .enter 0 .tx],
      List.replicate 4 (.step (.user 0)),
      [.pull (0, 1), .release (0, 1), .stop ⟨0, 0, (0, 1)⟩], List.replicate 6 .hub,
      [.readRet true], List.replicate 6 .stick, [.hub, .hub, .disconnected, .hub, .hub,
      .stick]].flatten (by decide +kernel)
  exact ⟨p, hrun, hlen, freed_unused hrun⟩

/-- An open between the hook and the free is in progress when the hub thread goes on. -/
theorem opens_freed {strict : Bool} {p : CherryState × List (Event Agent Nat)}
    (h : TeardownInv p) (hopens : p.1.opensFreed strict = true) :
    ∃ q, (cherryRecorded strict).Reaches (fun _ _ => True) p q ∧ ¬ Legal q.2 := by
  obtain ⟨s, hist⟩ := p
  have hcases : ∃ x, s.stick = .open ∧ s.hub = .free x ∧ s.lookup strict = some x := by
    grind -ring -linarith [CherryState.opensFreed]
  obtain ⟨x, hopen, hfree, hlook⟩ := hcases
  have hstep : (cherry strict).step s .stick = some { s with stick := .opening (some x) } := by
    simp [cherry, CherryState.stepStick, hopen, hlook]
  have hev : cherryEvents strict s .stick = [.enter .stick x.id] := by
    simp [cherryEvents, hopen, hlook]
  have htr := tracks_step h.inv h.handed h.tracks hstep
  rw [hev] at htr
  have hin : InCall (hist ++ [Event.enter Agent.stick x.id]) .stick x.id :=
    htr.inCall_iff.2 (Or.inr ⟨rfl, x, rfl, rfl⟩)
  have h1 : (cherryRecorded strict).step (s, hist) .stick =
      some ({ s with stick := .opening (some x) }, hist ++ [Event.enter Agent.stick x.id]) := by
    simp [cherryRecorded, Machine.record, hstep, hev]
  have h2 : ∃ u, (cherryRecorded strict).step
      ({ s with stick := .opening (some x) }, hist ++ [Event.enter Agent.stick x.id]) .hub =
      some (u, hist ++ [Event.enter Agent.stick x.id] ++ [Event.retired x.id]) := by
    simp [cherryRecorded, Machine.record, cherry, CherryState.stepHub, cherryEvents, hfree]
  obtain ⟨u, h2⟩ := h2
  refine ⟨_, (Relation.ReflTransGen.single (r := (cherryRecorded strict).StepIf fun _ _ => True)
    ⟨.stick, trivial, h1⟩).tail ⟨.hub, trivial, h2⟩, fun hlegal => ?_⟩
  exact hlegal.retires _ x.id [] rfl .stick hin

/-- On a strict stack an instance that is about to be freed is not found by its name. -/
theorem opensLive_strict {s : CherryState} {l : CherryLabel} (h : CherryInv s) :
    OpensLive true s l := by
  intro _
  by_contra hopens
  have hcases : ∃ x, s.hub = .free x ∧ s.lookup true = some x := by
    grind -ring -linarith [CherryState.opensFreed]
  obtain ⟨x, hfree, hlook⟩ := hcases
  have hon := (CherryState.lookup_mem hlook).2.2 rfl
  rw [h.ports.releasing x.port (by rw [hfree]; rfl)] at hon
  cases hon

/-- On a strict stack, when an instance is freed no call on it is in progress, and none is
entered afterwards. -/
theorem freed_unused_strict {p : CherryState × List (Event Agent Nat)}
    (h : (cherryRecorded true).Reaches (fun _ _ => True) (.start, []) p) : Legal p.2 :=
  (Machine.Reaches.invariant (I := TeardownInv) h teardownInv_start
    fun _ _ _ hi _ hs => hi.step (opensLive_strict hi.inv) hs).tracks.legal

/-- A device that is unplugged while it is written to, and one that is unplugged before
`stick_task` has come to its `S.rx_idle = false`: it is freed without having been found. -/
theorem freed_unused_strict_cycle :
    ∃ p, (cherryRecorded true).Reaches (fun _ _ => True) (.start, []) p ∧
      p.2.length = 14 ∧ Legal p.2 := by
  obtain ⟨p, hrun, hlen⟩ := (cherryRecorded true).exists_reaches_of_runIf (fun _ _ => True)
    (fun p => p.2.length = 14) (.start, [])
    [[.attach (0, 1), .connect 0], List.replicate 5 .hub, [.enumerated],
      List.replicate 3 .stick, [.opened true], List.replicate 3 .stick,
      List.replicate 4 (.step .stick), [.applied true, .stick, .stick, .enter 0 .tx],
      List.replicate 4 (.step (.user 0)),
      [.pull (0, 1), .release (0, 1), .stop ⟨0, 0, (0, 1)⟩], List.replicate 6 .hub,
      [.readRet true], List.replicate 6 .stick, [.hub, .hub, .disconnected, .hub, .hub,
      .stick], [.attach (0, 1), .connect 0], List.replicate 5 .hub, [.enumerated,
      .pull (0, 1), .release (0, 1), .stop ⟨1, 0, (0, 1)⟩], List.replicate 7 .hub,
      List.replicate 3 .stick, [.hub]].flatten (by decide +kernel)
  exact ⟨p, hrun, hlen, freed_unused_strict hrun⟩

/-- On the other stack it fails: the device is unplugged before `stick_task` has come to its
`S.rx_idle = false`, and the task opens it after the hook has looked. -/
theorem freed_unused_fails :
    ∃ p, (cherryRecorded false).Reaches (fun _ _ => True) (.start, []) p ∧ ¬ Legal p.2 := by
  obtain ⟨p, hrun, hhist⟩ := (cherryRecorded false).exists_reaches_of_runIf (fun _ _ => True)
    (fun p => p.2 = [.opened 0, .enter .stick 0, .retired 0]) (.start, [])
    [[.attach (0, 1), .connect 0], List.replicate 5 .hub, [.enumerated, .pull (0, 1),
      .release (0, 1), .stop ⟨0, 0, (0, 1)⟩], List.replicate 7 .hub,
      List.replicate 3 .stick, [.hub]].flatten (by decide +kernel)
  refine ⟨p, hrun, fun hlegal => ?_⟩
  have hsplit : p.2 = [Event.opened 0, .enter Agent.stick 0] ++ Event.retired 0 :: [] := hhist
  exact hlegal.retires _ 0 [] hsplit .stick (by unfold InCall; decide)

end Cdc2Net.Source.Cherry
