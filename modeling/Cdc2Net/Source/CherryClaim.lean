import Cdc2Net.Source.CherryTeardown

/-!
# Claims of the CherryUSB source

A device announces itself once for each of its interfaces, when it is enumerated. The hub
thread claims it for `stick_task` unless a claim stands, and `stick_task` gives the claim up
when it is done with a device. So an announcement that meets the claim of an earlier device
is lost, and so is a device whose line coding could not be set
(`device_not_abandoned_fails`, `device_not_abandoned_fails_replug`). Apart from these
`stick_task` does not wait while a device is there to be served (`device_not_abandoned`).
-/

set_option autoImplicit false

namespace Cdc2Net.Source.Cherry

open Cdc2Net.Lib.Transition Cdc2Net.Lib.Lifetime TxSection

/-- A serial device is plugged in at the port, and the stack has an instance of it. -/
def CherryState.Attached (s : CherryState) (p : Port) : Prop :=
  (∃ x ∈ s.insts, x.port = p) ∧ s.connected p = true ∧ s.pulled p = false

/-- `stick_task` is on its way back to `connect_sem`. -/
def StickPc.teardown : StickPc → Bool
  | .clear _ | .cleared _ | .close _ | .closing _ | .setIdle | .unclaim => true
  | _ => false

/-- The port whose device the hub thread is about to claim. -/
def HubPc.announcing : HubPc → Option Port
  | .started x false | .record x | .unwant x | .claim x => some x.port
  | _ => none

/-- The instance of the announcement. -/
def HubPc.starting : HubPc → Option Instance
  | .started x _ | .record x | .unwant x | .claim x | .give x => some x
  | _ => none

/-- The instance whose name has been recorded. -/
def HubPc.named : HubPc → Option Instance
  | .unwant x | .claim x | .give x => some x
  | _ => none

/-- The hub thread has found that the claimed device is gone. -/
def HubPc.wanting : HubPc → Bool
  | .stop _ .want | .goneWant _ => true
  | _ => false

/-- The first announcement of a device. -/
def HubPc.first : HubPc → Bool
  | .started _ false => true
  | _ => false

/-- The instance whose line coding is being set. -/
def StickPc.configures : StickPc → Option Instance
  | .applying x => some x
  | _ => none

/-- No device is lost:
* the first announcement of a device does not meet a claim;
* `apply_lc` fails only if the device has been unplugged or is being released. -/
def Announced (s : CherryState) : CherryLabel → Prop
  | .hub => s.hub.first = true → s.claimed = false
  | .applied ok => ok = false → ∀ x ∈ s.stick.configures,
      s.connected x.port = false ∨ s.pulled x.port = true
  | _ => True

/-- A device is plugged in when every other one has been unplugged. -/
def OneDevice (s : CherryState) : CherryLabel → Prop
  | .attach _ => ∀ x ∈ s.insts, s.pulled x.port = true
  | _ => True

instance (s : CherryState) : DecidablePred (Announced s)
  | .hub => inferInstanceAs (Decidable (_ → _))
  | .applied _ => inferInstanceAs (Decidable (_ → ∀ _ ∈ _, _))
  | .attach _ | .connect _ | .enumerated | .release _ | .stop _ | .disconnected | .pull _
  | .stick | .opened _ | .readRet _ | .enter .. | .step _ => isTrue trivial

instance (s : CherryState) : DecidablePred (OneDevice s)
  | .attach _ => inferInstanceAs (Decidable (∀ _ ∈ _, _))
  | .connect _ | .enumerated | .release _ | .stop _ | .disconnected | .pull _ | .hub
  | .stick | .opened _ | .applied _ | .readRet _ | .enter .. | .step _ => isTrue trivial

/-! ## What every step keeps -/

/-- The claim is for the device at the port, and `stick_task` is at work on it. -/
structure Serves (s : CherryState) (p : Port) (z : Instance) : Prop where
  mem : z ∈ s.insts
  port : z.port = p
  hubPort : s.hubPort = p
  devname : s.devname = some z.name
  claimed : s.claimed = true
  wanted : s.wantClose = false
  ref : ∀ x, s.stick.ref = some x → x = z
  working : s.stick.teardown = false

/-- A device that is attached is served. -/
structure Claims (s : CherryState) : Prop where
  served : ∀ p, s.Attached p → s.hub.announcing ≠ some p → ∃ z, Serves s p z
  fresh : ∀ p, s.hub = .enum p false → ∀ x ∈ s.insts, x.port ≠ p
  own : ∀ p, s.hub = .enum p true → ∃ x ∈ s.insts, x.port = p
  starting : ∀ x, s.hub.starting = some x → x ∈ s.insts
  named : ∀ x, s.hub.named = some x → s.devname = some x.name ∧ s.hubPort = x.port
  kept : ∀ x, s.hub = .claim x → s.wantClose = false
  wanting : s.hub.wanting = true → ∀ p, ¬ s.Attached p

theorem claims_start : Claims .start where
  served p h := by
    obtain ⟨⟨x, hx, -⟩, -⟩ := h
    cases hx
  fresh p h := by cases h
  own p h := by cases h
  starting x h := by cases h
  named x h := by cases h
  kept x h := by cases h
  wanting h := by cases h

section Steps

variable {strict : Bool} {s t : CherryState} {l : CherryLabel} {p : Port} {x z : Instance}

/-- While the hub thread is on its way to a claim, no other device is attached. -/
theorem Claims.alone (h : Claims s) (hf : Flow s) (hcl : s.hub.claiming = true)
    (hp : s.Attached p) : s.hub.announcing = some p := by
  by_contra hne
  obtain ⟨z, hz⟩ := h.served p hp hne
  have hc := hz.claimed
  rw [hf.claiming hcl] at hc
  cases hc

/-- An instance that is served is not the one that is being removed. -/
theorem Serves.ne_stopping (hz : Serves s p z) (hp : s.Attached p) (hports : Ports s)
    (hx : s.hub.releasing = some x.port) : z ≠ x := by
  rintro rfl
  have hoff := hports.releasing z.port hx
  rw [hz.port, hp.2.1] at hoff
  cases hoff

/-- `stick_task` goes towards `connect_sem` only if it is told that the device is gone, or
finds it disconnected. -/
theorem CherryState.stepStick_teardown (hs : s.stepStick strict = some t) :
    (t.claimed = s.claimed ∨ s.stick.teardown = true) ∧
      (t.stick.teardown = true → s.stick.teardown = true ∨ s.wantClose = true ∨
        ∃ x, s.stick.ref = some x ∧ s.connected x.port = false) := by
  rw [CherryState.stepStick] at hs
  cases hpc : s.stick with
  | publish x | clear x =>
    simp only [hpc] at hs
    obtain ⟨tx, -, rfl⟩ := Option.map_eq_some_iff.1 hs
    simp [StickPc.teardown]
  | opening | applying | reading => simp [hpc] at hs
  | _ => grind -ring -linarith [StickPc.teardown, StickPc.ref]

theorem Claims.stepStick (h : Claims s) (hp : Ports s) (hs : s.stepStick strict = some t) :
    Claims t := by
  obtain ⟨hi, -, hc, hpull, hd, hport, hw, hh⟩ := CherryState.stepStick_frame hs
  have hatt : ∀ p, t.Attached p ↔ s.Attached p := fun p => by
    simp only [CherryState.Attached, hi, hc, hpull]
  refine ⟨fun p ha hann => ?_, by rw [hh, hi]; exact h.fresh, by rw [hh, hi]; exact h.own,
    by rw [hh, hi]; exact h.starting, by rw [hh, hd, hport]; exact h.named,
    by rw [hh, hw]; exact h.kept, fun hwant p ha => h.wanting (hh ▸ hwant) p ((hatt p).1 ha)⟩
  have ha' := (hatt p).1 ha
  obtain ⟨z, hz⟩ := h.served p ha' (hh ▸ hann)
  obtain ⟨hcl, htear⟩ := CherryState.stepStick_teardown hs
  have hnot : s.stick.teardown ≠ true := by simp [hz.working]
  refine ⟨z, hi ▸ hz.mem, hz.port, hport.trans hz.hubPort, hd.trans hz.devname,
    (hcl.resolve_right hnot).trans hz.claimed, hw.trans hz.wanted, fun x hx => ?_, ?_⟩
  · -- the name finds the claimed instance only
    rcases CherryState.stepStick_ref hs with hr | hr | ⟨-, hr⟩
    · exact hz.ref x (hr ▸ hx)
    · rw [hr] at hx
      cases hx
    · obtain ⟨hmem, hname, -⟩ := CherryState.lookup_mem (hr.symm.trans hx)
      exact hp.names x hmem z hz.mem (Option.some.inj (hname.symm.trans hz.devname))
  · by_contra htd
    rcases htear (by simpa using htd) with h1 | h1 | ⟨x, hx, hoff⟩
    · exact hnot h1
    · rw [hz.wanted] at h1
      cases h1
    · rw [hz.ref x hx, hz.port, ha'.2.1] at hoff
      cases hoff

/-- The same claim, for a hub thread that has moved on. -/
theorem Serves.congr (hz : Serves s p z) (hmem : z ∈ t.insts) (hport : t.hubPort = s.hubPort)
    (hd : t.devname = s.devname) (hc : t.claimed = s.claimed) (hw : t.wantClose = s.wantClose)
    (hst : t.stick = s.stick) : Serves t p z where
  mem := hmem
  port := hz.port
  hubPort := hport.trans hz.hubPort
  devname := hd.trans hz.devname
  claimed := hc.trans hz.claimed
  wanted := hw.trans hz.wanted
  ref := by rw [hst]; exact hz.ref
  working := by rw [hst]; exact hz.working

/-- The hub thread is in none of the steps that lead to a claim. -/
def HubPc.quiet : HubPc → Bool
  | .idle | .release _ | .stop .. | .free _ | .gone _ | .goneWant _ => true
  | _ => false

theorem HubPc.quiet_frame {pc : HubPc} (hq : pc.quiet = true) :
    pc.starting = none ∧ pc.named = none ∧ (∀ p own, pc ≠ .enum p own) ∧ ∀ x, pc ≠ .claim x := by
  cases pc with
  | idle | release | stop | free | gone | goneWant => simp [HubPc.starting, HubPc.named]
  | _ => cases hq

/-- It goes on outside of an enumeration. -/
theorem Claims.moveQuiet (h : Claims s) (hatt : ∀ p, t.Attached p → s.Attached p)
    (hq : t.hub.quiet = true) (hann : ∀ p, s.Attached p → s.hub.announcing ≠ some p)
    (hserve : ∀ p z, t.Attached p → Serves s p z → Serves t p z)
    (hwant : t.hub.wanting = true → ∀ p, ¬ t.Attached p) : Claims t := by
  obtain ⟨hstart, hnamed, henum, hclaim⟩ := HubPc.quiet_frame hq
  refine ⟨fun p hp _ => ?_, fun p hp => absurd hp (henum p false),
    fun p hp => absurd hp (henum p true), fun x hx => (by rw [hstart] at hx; cases hx),
    fun x hx => (by rw [hnamed] at hx; cases hx), fun x hx => absurd hx (hclaim x), hwant⟩
  obtain ⟨z, hz⟩ := h.served p (hatt p hp) (hann p (hatt p hp))
  exact ⟨z, hserve p z hp hz⟩

/-- No device is attached but the one whose claim is under way. -/
theorem Claims.moveClaim (h : Claims s) (hf : Flow s) (hcl : s.hub.claiming = true)
    (hatt : ∀ p, t.Attached p → s.Attached p) (hin : t.insts = s.insts)
    (hst : ∀ x, t.hub.starting = some x → s.hub.starting = some x)
    (hann : t.hub.announcing = s.hub.announcing) (henum : ∀ p own, t.hub ≠ .enum p own)
    (hnamed : ∀ x, t.hub.named = some x → t.devname = some x.name ∧ t.hubPort = x.port)
    (hkept : ∀ x, t.hub = .claim x → t.wantClose = false)
    (hwant : t.hub.wanting = false) : Claims t := by
  refine ⟨fun p hp hne => ?_, fun p hp => absurd hp (henum p false),
    fun p hp => absurd hp (henum p true), fun x hx => hin ▸ h.starting x (hst x hx), hnamed,
    hkept, fun hw => ?_⟩
  · exact absurd (hann.trans (h.alone hf hcl (hatt p hp))) hne
  · rw [hwant] at hw
    cases hw

theorem Claims.stepHub (h : Claims s) (hinv : CherryInv s) (hok : Announced s .hub)
    (hs : s.stepHub = some t) : Claims t := by
  obtain ⟨hflow, husers, hports⟩ := hinv
  rw [CherryState.stepHub] at hs
  cases hpc : s.hub with
  | started x own =>
    rw [hpc] at hs
    cases hs
    have hx : x ∈ s.insts := h.starting x (by rw [hpc]; rfl)
    cases own with
    | false =>
      have hcl : s.claimed = false := hok (by rw [hpc]; rfl)
      refine ⟨fun p hp hne => ?_, fun p hp => ?_, fun p hp => ?_, fun y hy => ?_, fun y hy => ?_,
        fun y hy => ?_, fun hw => ?_⟩
      · simp only [hcl] at hne
        obtain ⟨z, hz⟩ := h.served p hp (by rw [hpc]; exact hne)
        exact ⟨z, hz.congr hz.mem rfl rfl rfl rfl rfl⟩
      all_goals grind -ring -linarith [HubPc.starting, HubPc.named, HubPc.wanting]
    | true =>
      refine ⟨fun p hp hne => ?_, fun p hp => ?_, fun p hp => ?_, fun y hy => ?_, fun y hy => ?_,
        fun y hy => ?_, fun hw => ?_⟩
      · obtain ⟨z, hz⟩ := h.served p hp (by rw [hpc]; simp [HubPc.announcing])
        exact ⟨z, hz.congr hz.mem rfl rfl rfl rfl rfl⟩
      all_goals grind -ring -linarith [HubPc.starting, HubPc.named, HubPc.wanting]
  | record x =>
    rw [hpc] at hs
    cases hs
    refine h.moveClaim hflow (by rw [hpc]; rfl) (fun _ => id) rfl (by rw [hpc]; exact fun _ => id)
      (by rw [hpc]; rfl) (by simp) (fun y hy => ?_) (by simp) rfl
    cases hy
    exact ⟨rfl, rfl⟩
  | unwant x =>
    rw [hpc] at hs
    cases hs
    refine h.moveClaim hflow (by rw [hpc]; rfl) (fun _ => id) rfl (by rw [hpc]; exact fun _ => id)
      (by rw [hpc]; rfl) (by simp) (fun y hy => ?_) (by simp) rfl
    cases hy
    exact h.named x (by rw [hpc]; rfl)
  | claim x =>
    -- the claim is made
    rw [hpc] at hs
    cases hs
    have hname := h.named x (by rw [hpc]; rfl)
    have hcl := hflow.claiming (by rw [hpc]; rfl)
    have hwait : s.stick = .wait := by_contra fun hne => by
      rw [hflow.claimed.2 (Or.inl hne)] at hcl
      cases hcl
    refine ⟨fun p hp _ => ⟨x, ?_⟩, fun p hp => (by cases hp), fun p hp => (by cases hp),
      fun y hy => h.starting y (by rw [hpc]; exact hy),
      fun y hy => h.named y (by rw [hpc]; exact hy), fun y hy => (by cases hy),
      fun hw => by cases hw⟩
    have hport := h.alone hflow (by rw [hpc]; rfl) hp
    rw [hpc] at hport
    have hxp : x.port = p := Option.some.inj hport
    exact ⟨h.starting x (by rw [hpc]; rfl), hxp, hname.2.trans hxp, hname.1, rfl, h.kept x hpc,
      fun y hy => (by rw [hwait] at hy; cases hy), by rw [hwait]; rfl⟩
  | give x =>
    rw [hpc] at hs
    cases hs
    refine ⟨fun p hp _ => ?_, fun p hp => (by cases hp), fun p hp => ?_, fun y hy => (by cases hy),
      fun y hy => (by cases hy), fun y hy => (by cases hy), fun hw => by cases hw⟩
    · obtain ⟨z, hz⟩ := h.served p hp (by rw [hpc]; simp [HubPc.announcing])
      exact ⟨z, hz.congr hz.mem rfl rfl rfl rfl rfl⟩
    · cases hp
      exact ⟨x, h.starting x (by rw [hpc]; rfl), rfl⟩
  | stop x pc =>
    have hx := hports.stopping x (by rw [hpc]; rfl)
    have hrel : s.hub.releasing = some x.port := by rw [hpc]; rfl
    have hann : ∀ p, s.Attached p → s.hub.announcing ≠ some p := fun p _ => by
      rw [hpc]
      simp [HubPc.announcing]
    -- the claimed device is not one that is attached
    have hgone : s.tx.handle = some x.id ∨ s.devname = some x.name → ∀ p, ¬ s.Attached p := by
      rintro hmine p hp
      obtain ⟨z, hz⟩ := h.served p hp (hann p hp)
      refine hz.ne_stopping hp hports hrel ?_
      rcases hmine with hm | hm
      · obtain ⟨y, hy, hid⟩ := husers.held.handle _ hm
        rw [hz.ref y (StickPc.ref_of_shared hy)] at hid
        exact hports.ids z hz.mem x hx hid
      · exact hports.names z hz.mem x hx (Option.some.inj (hz.devname.symm.trans hm))
    cases pc with
    | lock =>
      rw [hpc] at hs
      obtain ⟨tx, -, rfl⟩ := Option.map_eq_some_iff.1 hs
      exact h.moveQuiet (fun _ => id) rfl hann
        (fun p z _ hz => hz.congr hz.mem rfl rfl rfl rfl rfl) fun hw => by cases hw
    | handle =>
      rw [hpc] at hs
      cases hs
      by_cases hm : s.tx.handle = some x.id
      · exact h.moveQuiet (fun _ => id) (by simp [hm, HubPc.quiet]) hann
          (fun p z _ hz => hz.congr hz.mem rfl rfl rfl rfl rfl) fun _ => hgone (Or.inl hm)
      · exact h.moveQuiet (fun _ => id) (by simp [hm, HubPc.quiet]) hann
          (fun p z _ hz => hz.congr hz.mem rfl rfl rfl rfl rfl)
          fun hw => by simp [hm, HubPc.wanting] at hw
    | name =>
      rw [hpc] at hs
      cases hs
      by_cases hm : s.devname = some x.name
      · exact h.moveQuiet (fun _ => id) (by simp [hm, HubPc.quiet]) hann
          (fun p z _ hz => hz.congr hz.mem rfl rfl rfl rfl rfl) fun _ => hgone (Or.inr hm)
      · exact h.moveQuiet (fun _ => id) (by simp [hm, HubPc.quiet]) hann
          (fun p z _ hz => hz.congr hz.mem rfl rfl rfl rfl rfl)
          fun hw => by simp [hm, HubPc.wanting] at hw
    | want =>
      rw [hpc] at hs
      cases hs
      exact h.moveQuiet (fun _ => id) rfl hann
        (fun p z hp _ => absurd hp (h.wanting (by rw [hpc]; rfl) p)) fun hw => by cases hw
    | _ =>
      rw [hpc] at hs
      cases hs
      refine h.moveQuiet (fun _ => id) ?_ hann
        (fun p z _ hz => hz.congr hz.mem rfl rfl rfl rfl rfl) fun hw => ?_
      all_goals grind -ring -linarith [HubPc.quiet, HubPc.wanting]
  | free x =>
    rw [hpc] at hs
    cases hs
    have hrel : s.hub.releasing = some x.port := by rw [hpc]; rfl
    have hx := hports.stopping x (by rw [hpc]; rfl)
    have hatt : ∀ p, CherryState.Attached { s with
        insts := s.insts.filter fun y => decide (y.id ≠ x.id), hub := .release x.port } p →
        s.Attached p := by
      rintro p ⟨⟨y, hy, hyp⟩, hon⟩
      exact ⟨⟨y, (List.mem_filter.1 hy).1, hyp⟩, hon⟩
    refine h.moveQuiet hatt rfl (fun p _ => by rw [hpc]; simp [HubPc.announcing])
      (fun p z hp hz => ?_) fun hw => by cases hw
    have hne := hz.ne_stopping (hatt p hp) hports hrel
    refine hz.congr (List.mem_filter.2 ⟨hz.mem, ?_⟩) rfl rfl rfl rfl rfl
    simpa using fun hid => hne (hports.ids z hz.mem x hx hid)
  | gone p =>
    rw [hpc] at hs
    cases hs
    refine h.moveQuiet (fun _ => id) ?_ (fun p _ => by rw [hpc]; simp [HubPc.announcing])
      (fun p z _ hz => hz.congr hz.mem rfl rfl rfl rfl rfl) fun hw q hq => ?_
    · grind -ring -linarith [HubPc.quiet]
    · -- the claimed port is not connected
      obtain ⟨z, hz⟩ := h.served q hq (by rw [hpc]; simp [HubPc.announcing])
      have hport : s.hubPort = p := by grind -ring -linarith [HubPc.wanting]
      have hoff := hports.gone p (Or.inl hpc)
      rw [← hport, hz.hubPort, hq.2.1] at hoff
      cases hoff
  | goneWant p =>
    rw [hpc] at hs
    cases hs
    exact h.moveQuiet (fun _ => id) rfl (fun p _ => by rw [hpc]; simp [HubPc.announcing])
      (fun q z hq _ => absurd hq (h.wanting (by rw [hpc]; rfl) q)) fun hw => by cases hw
  | idle | enum | release => simp [hpc] at hs

/-- A step of `stick_task` out of a call, or of a section. -/
theorem Claims.congr (h : Claims s) (hf : t.insts = s.insts ∧ t.connected = s.connected ∧
    t.pulled = s.pulled ∧ t.devname = s.devname ∧ t.hubPort = s.hubPort ∧
    t.wantClose = s.wantClose ∧ t.claimed = s.claimed ∧ t.hub = s.hub)
    (href : ∀ p z, s.Attached p → Serves s p z →
      (∀ x, t.stick.ref = some x → x = z) ∧ t.stick.teardown = false) : Claims t := by
  obtain ⟨hi, hc, hpull, hd, hport, hw, hcl, hh⟩ := hf
  have hatt : ∀ p, t.Attached p ↔ s.Attached p := fun p => by
    simp only [CherryState.Attached, hi, hc, hpull]
  refine ⟨fun p ha hann => ?_, by rw [hh, hi]; exact h.fresh, by rw [hh, hi]; exact h.own,
    by rw [hh, hi]; exact h.starting, by rw [hh, hd, hport]; exact h.named,
    by rw [hh, hw]; exact h.kept, fun hwant p ha => h.wanting (hh ▸ hwant) p ((hatt p).1 ha)⟩
  obtain ⟨z, hz⟩ := h.served p ((hatt p).1 ha) (hh ▸ hann)
  obtain ⟨hr, hwork⟩ := href p z ((hatt p).1 ha) hz
  exact ⟨z, hi ▸ hz.mem, hz.port, hport.trans hz.hubPort, hd.trans hz.devname,
    hcl.trans hz.claimed, hw.trans hz.wanted, hr, hwork⟩

/-- The stack makes, moves and removes its instances. -/
theorem Claims.stack (h : Claims s) (hports : Ports s) (hl : l.isStack = true)
    (hs : (cherry strict).step s l = some t) : Claims t := by
  obtain ⟨-, hst, ⟨hd, hport, hw, hcl, -, -⟩, -⟩ := stack_frame hl hs
  have hserve : ∀ p z, z ∈ t.insts → Serves s p z → Serves t p z := fun p z hmem hz =>
    hz.congr hmem hport hd hcl hw hst
  cases l with
  | attach p =>
    simp only [cherry] at hs
    split at hs
    · next hidle =>
      cases hs
      have hempty : ∀ x ∈ s.insts, x.port ≠ p := fun x hx hp => by
        have hon := hports.not_off hidle.1 hx
        rw [hp, hidle.2] at hon
        cases hon
      refine ⟨fun q hq _ => ?_, fun q hq => (by cases hq; exact hempty), fun q hq => (by cases hq),
        fun x hx => (by cases hx), fun x hx => (by cases hx), fun x hx => (by cases hx),
        fun hwant => by cases hwant⟩
      obtain ⟨⟨x, hx, hxq⟩, hon, hin⟩ := hq
      have hqp : q ≠ p := fun hqp => hempty x hx (hxq.trans hqp)
      obtain ⟨z, hz⟩ := h.served q ⟨⟨x, hx, hxq⟩, by simpa [hqp] using hon,
        by simpa [hqp] using hin⟩ (by rw [hidle.1]; simp [HubPc.announcing])
      exact ⟨z, hserve q z hz.mem hz⟩
    · cases hs
  | connect n =>
    simp only [cherry] at hs
    split at hs
    · next p own hpc =>
      split at hs
      · cases hs
        refine ⟨fun q hq hne => ?_, fun q hq => (by cases hq), fun q hq => (by cases hq),
          fun x hx => (by cases hx; exact List.mem_cons_self), fun x hx => (by cases hx),
          fun x hx => (by cases hx), fun hwant => by cases hwant⟩
        obtain ⟨⟨x, hx, hxq⟩, hon, hin⟩ := hq
        -- an earlier instance of the device, or of another
        have hold : ∃ y ∈ s.insts, y.port = q := by
          rcases List.mem_cons.1 hx with rfl | hx
          · cases own with
            | false => exact absurd (congrArg some hxq) hne
            | true => exact hxq ▸ h.own p hpc
          · exact ⟨x, hx, hxq⟩
        obtain ⟨z, hz⟩ := h.served q ⟨hold, hon, hin⟩ (by rw [hpc]; simp [HubPc.announcing])
        exact ⟨z, hserve q z (List.mem_cons_of_mem _ hz.mem) hz⟩
      · cases hs
    · cases hs
  | enumerated =>
    simp only [cherry] at hs
    split at hs
    · next p own hpc =>
      cases hs
      exact h.moveQuiet (fun _ => id) rfl (fun q _ => by rw [hpc]; simp [HubPc.announcing])
        (fun q z _ hz => hserve q z hz.mem hz) fun hwant => by cases hwant
    · cases hs
  | release p =>
    simp only [cherry] at hs
    split at hs
    · next hidle =>
      cases hs
      refine h.moveQuiet (fun q hq => ?_) rfl
        (fun q _ => by rw [hidle.1]; simp [HubPc.announcing])
        (fun q z _ hz => hserve q z hz.mem hz) fun hwant => by cases hwant
      obtain ⟨hx, hon, hin⟩ := hq
      have hqp : q ≠ p := by
        rintro rfl
        simp at hon
      exact ⟨hx, by simpa [hqp] using hon, hin⟩
    · cases hs
  | stop x =>
    simp only [cherry] at hs
    split at hs
    · next hrel =>
      cases hs
      exact h.moveQuiet (fun _ => id) rfl (fun q _ => by rw [hrel.1]; simp [HubPc.announcing])
        (fun q z _ hz => hserve q z hz.mem hz) fun hwant => by cases hwant
    · cases hs
  | disconnected =>
    simp only [cherry] at hs
    split at hs
    · next p hpc =>
      split at hs
      · cases hs
        exact h.moveQuiet (fun _ => id) rfl (fun q _ => by rw [hpc]; simp [HubPc.announcing])
          (fun q z _ hz => hserve q z hz.mem hz) fun hwant => by cases hwant
      · cases hs
    · cases hs
  | pull p =>
    cases hs
    have hatt : ∀ q, CherryState.Attached { s with pulled := Function.update s.pulled p true } q →
        s.Attached q := by
      rintro q ⟨hx, hon, hin⟩
      have hqp : q ≠ p := by
        rintro rfl
        simp at hin
      exact ⟨hx, hon, by simpa [hqp] using hin⟩
    refine ⟨fun q hq hne => ?_, h.fresh, h.own, h.starting, h.named, h.kept,
      fun hwant q hq => h.wanting hwant q (hatt q hq)⟩
    obtain ⟨z, hz⟩ := h.served q (hatt q hq) hne
    exact ⟨z, hserve q z hz.mem hz⟩
  | _ => cases hl

theorem Claims.step (h : Claims s) (hinv : CherryInv s) (hok : Announced s l)
    (hs : (cherry strict).step s l = some t) : Claims t := by
  cases l with
  | hub => exact h.stepHub hinv hok hs
  | stick => exact h.stepStick hinv.ports hs
  | step a =>
    obtain ⟨tx, -, rfl⟩ := Option.map_eq_some_iff.1 hs
    exact h.congr ⟨rfl, rfl, rfl, rfl, rfl, rfl, rfl, rfl⟩ fun p z _ hz => ⟨hz.ref, hz.working⟩
  | enter u op =>
    simp only [cherry] at hs
    split at hs
    · cases hs
      exact h.congr ⟨rfl, rfl, rfl, rfl, rfl, rfl, rfl, rfl⟩ fun p z _ hz => ⟨hz.ref, hz.working⟩
    · cases hs
  | opened ok =>
    simp only [cherry] at hs
    split at hs
    · next x hpc =>
      cases hs
      refine h.congr ⟨rfl, rfl, rfl, rfl, rfl, rfl, rfl, rfl⟩ fun p z _ hz => ?_
      have hxz := hz.ref x (by rw [hpc]; rfl)
      cases ok <;> simp [StickPc.ref, StickPc.teardown, hxz]
    · cases hs
      exact h.congr ⟨rfl, rfl, rfl, rfl, rfl, rfl, rfl, rfl⟩ fun p z _ hz => by
        simp [StickPc.ref, StickPc.teardown]
    · cases hs
  | readRet err =>
    simp only [cherry] at hs
    split at hs
    · next x hpc =>
      cases hs
      refine h.congr ⟨rfl, rfl, rfl, rfl, rfl, rfl, rfl, rfl⟩ fun p z _ hz => ?_
      have hxz := hz.ref x (by rw [hpc]; rfl)
      cases err <;> simp [StickPc.ref, StickPc.teardown, hxz]
    · cases hs
  | applied ok =>
    simp only [cherry] at hs
    split at hs
    · next x hpc =>
      split at hs
      · cases hs
        refine h.congr ⟨rfl, rfl, rfl, rfl, rfl, rfl, rfl, rfl⟩ fun p z hp hz => ?_
        have hxz := hz.ref x (by rw [hpc]; rfl)
        cases ok with
        | true => simp [StickPc.ref, StickPc.teardown, hxz]
        | false =>
          -- the device that `apply_lc` failed for is not there any more
          have hgone := hok rfl x (by rw [hpc]; rfl)
          rw [hxz, hz.port, hp.2.1, hp.2.2] at hgone
          simp at hgone
      · cases hs
    · cases hs
  | attach | connect | enumerated | release | stop | disconnected | pull =>
    exact h.stack hinv.ports rfl hs

end Steps

theorem HubPc.enumerating_of_announcing {pc : HubPc} {p : Port} (h : pc.announcing = some p) :
    pc.enumerating = some p := by
  cases pc with
  | started x own =>
    cases own with
    | false => exact h
    | true => cases h
  | record | unwant | claim => exact h
  | _ => cases h

theorem HubPc.exists_give {pc : HubPc} (h : pc.giving = true) : ∃ x, pc = .give x := by
  cases pc with
  | give x => exact ⟨x, rfl⟩
  | _ => cases h

/-! ## No device is abandoned -/

/-- `stick_task` waits, no give is pending, and a device is plugged in and enumerated. -/
def CherryState.Abandoned (s : CherryState) : Prop :=
  s.stick = .wait ∧ s.sem = false ∧ ∃ x ∈ s.insts, s.connected x.port = true ∧
    s.pulled x.port = false ∧ s.hub.enumerating ≠ some x.port

instance : DecidablePred CherryState.Abandoned :=
  fun _ => inferInstanceAs (Decidable (_ ∧ _ ∧ ∃ _ ∈ _, _))

/-- No device that is plugged in and enumerated is abandoned, in every run in which none is
lost. -/
theorem device_not_abandoned {strict : Bool} {s : CherryState}
    (hrun : (cherry strict).Reaches Announced .start s) : ¬ s.Abandoned := by
  rintro ⟨hwait, hsem, x, hx, hon, hin, henum⟩
  have hI : CherryInv s ∧ Claims s := by
    refine Machine.Reaches.invariant (I := fun s => CherryInv s ∧ Claims s) hrun
      ⟨cherryInv_start, claims_start⟩ ?_
    intro s l t ⟨hinv, h⟩ hok hs
    exact ⟨hinv.step hs, h.step hinv hok hs⟩
  have hann : s.hub.announcing ≠ some x.port :=
    fun ha => henum (HubPc.enumerating_of_announcing ha)
  obtain ⟨z, hz⟩ := hI.2.served x.port ⟨⟨x, hx, rfl⟩, hon, hin⟩ hann
  rcases hI.1.flow.claimed.1 hz.claimed with hne | hgiven | hgive
  · exact hne hwait
  · rw [hsem] at hgiven
    cases hgiven
  · -- the give is for the device that is being enumerated
    obtain ⟨y, hy⟩ := HubPc.exists_give hgive
    have hport := (hI.2.named y (by rw [hy]; rfl)).2
    rw [hz.hubPort] at hport
    rw [hy] at henum
    exact absurd (congrArg some hport.symm) henum

/-- A device that cannot be opened and is unplugged, and the next one after it. -/
theorem device_not_abandoned_replugged :
    ∃ s, (cherry true).Reaches Announced .start s ∧
      (∃ x ∈ s.insts, x.id = 1 ∧ s.stick = .wait) ∧ ¬ s.Abandoned := by
  obtain ⟨s, hrun, hs⟩ := (cherry true).exists_reaches_of_runIf Announced
    (fun s => ∃ x ∈ s.insts, x.id = 1 ∧ s.stick = .wait) .start
    [[.attach (0, 1), .connect 0], List.replicate 5 .hub, [.enumerated],
      List.replicate 3 .stick, [.opened false, .pull (0, 1), .release (0, 1),
      .stop ⟨0, 0, (0, 1)⟩], List.replicate 6 .hub, List.replicate 3 .stick,
      [.hub, .hub, .disconnected, .hub, .attach (0, 1), .connect 0],
      List.replicate 5 .hub, [.enumerated]].flatten (by decide +kernel)
  exact ⟨s, hrun, hs, device_not_abandoned hrun⟩

/-- A device whose line coding cannot be set is abandoned, if the mutex is free. -/
theorem refused_abandoned {strict : Bool} {s : CherryState} (hinv : CherryInv s) {x y : Instance}
    (hpc : s.stick = .applying x) (hsec : s.tx.pcs .stick = none) (hfree : s.tx.mtx = none)
    (hy : y ∈ s.insts) (hon : s.connected y.port = true) (hin : s.pulled y.port = false)
    (henum : s.hub.enumerating ≠ some y.port) :
    ∃ t, (cherry strict).Reaches (fun _ _ => True) s t ∧ t.Abandoned := by
  have hsem : s.sem = false := by
    cases hs : s.sem with
    | false => rfl
    | true =>
      have hwait := hinv.flow.once hs
      rw [hpc] at hwait
      cases hwait
  refine ⟨{ s with
    tx := { s.tx with mtx := none, handle := none }, rxIdle := true, claimed := false,
    stick := .wait }, ?_, rfl, hsem, y, hy, hon, hin, henum⟩
  refine Machine.reaches_of_runIf
    (.applied false :: List.replicate 6 .stick) ?_
  simp [Machine.runIf, cherry, CherryState.stepStick, hpc, hsec, TxSide.lockSet, hfree,
    TxSide.unlock, List.replicate]

/-- Without the conditions it fails: the line coding of the first device cannot be set, and
`stick_task` goes back to wait for an announcement. -/
theorem device_not_abandoned_fails :
    ∃ s, (cherry true).Reaches OneDevice .start s ∧ s.Abandoned :=
  (cherry true).exists_reaches_of_runIf OneDevice CherryState.Abandoned .start
    [[.attach (0, 1), .connect 0], List.replicate 5 .hub, [.enumerated],
      List.replicate 3 .stick, [.opened true], List.replicate 3 .stick,
      List.replicate 4 (.step .stick), [.applied false], List.replicate 6 .stick].flatten
    (by decide +kernel)

/-- It fails also with line codings that can be set: the device is plugged in again, and
announced, before `stick_task` has given up its claim. -/
theorem device_not_abandoned_fails_replug :
    ∃ s, (cherry true).Reaches (fun s l => OneDevice s l ∧ l ≠ .applied false) .start s ∧
      s.Abandoned :=
  (cherry true).exists_reaches_of_runIf (fun s l => OneDevice s l ∧ l ≠ .applied false)
    CherryState.Abandoned .start
    [[.attach (0, 1), .connect 0], List.replicate 5 .hub, [.enumerated],
      List.replicate 3 .stick, [.opened false, .pull (0, 1), .release (0, 1),
      .stop ⟨0, 0, (0, 1)⟩], List.replicate 6 .hub, List.replicate 2 .stick,
      [.hub, .hub, .disconnected, .hub, .hub, .attach (0, 1), .connect 0, .hub, .enumerated,
      .stick]].flatten (by decide +kernel)

end Cdc2Net.Source.Cherry
