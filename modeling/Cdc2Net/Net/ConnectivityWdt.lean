import Cdc2Net.Lib.Transition
import Cdc2Net.Net.Softap

/-!
# The connectivity watchdog

`net_wdt_task` looks at the uplinks, the clients of the AP and the credentials every ten
seconds and restarts the device when it has found nothing to wait for during
`wdt_timeout_s`. The time it counts from, `s_last_conn_us`, is that of the last look that
found something, or of the last IP of the STA. What came and went between two looks is not
in it, so a restart can come early; `restart_early_iff` says that it does so exactly if
something was there during the last `wdt_timeout_s` and no look and no IP noticed it.
-/

set_option autoImplicit false

namespace Cdc2Net.Net.ConnWdt

open Cdc2Net.Lib.Transition

/-! ## The task and the events -/

/-- A second of `esp_timer_get_time`. -/
def second : Nat := 1000000

/-- The pause conditions of `net_wdt_task`. -/
def paused (f : Flags) : Bool := f.uplinkUp || decide (0 < f.apClients) || !f.ssid

/-- The device. `wake` is the end of the task's delay, `base` is `s_last_conn_us`. -/
structure WdtState where
  flags : Flags
  now : Nat
  wake : Nat
  base : Nat
  restarted : Bool
  deriving DecidableEq

inductive WdtLabel where
  /-- Time passes. -/
  | elapse (us : Nat)
  | staGotIp
  | staDisconnected
  | eth (up : Bool)
  | clientJoined
  | clientLeft
  /-- `net_stop_softap` forgets the clients. -/
  | apStopped
  /-- `net_persist_creds` or `net_clear_creds`. -/
  | creds (stored : Bool)
  /-- A pass of `net_wdt_task`. -/
  | sample
  deriving DecidableEq, Repr

/-- The end of `net_init`, at time 0. -/
def WdtState.boot (creds : Bool) : WdtState := ⟨Flags.boot creds, 0, 10 * second, 0, false⟩

/-- The offline time has exceeded `to_us`. -/
def WdtState.expired (timeout : Nat) (s : WdtState) : Bool :=
  decide (timeout * second < s.now - s.base)

/-- One pass of `net_wdt_task` after its delay. -/
def samplePass (timeout : Nat) (s : WdtState) : WdtState :=
  if paused s.flags then { s with base := s.now, wake := s.now + 10 * second }
  else if s.expired timeout then { s with restarted := true }
  else { s with wake := s.now + 10 * second }

/-- One step, of a device that has not been restarted. -/
def stepWdt (timeout : Nat) (s : WdtState) : WdtLabel → Option WdtState
  | .elapse us => some { s with now := s.now + us }
  | .staGotIp => some { s with flags := { s.flags with connected := true }, base := s.now }
  | .staDisconnected => some { s with flags := { s.flags with connected := false } }
  | .eth up => some { s with flags := { s.flags with ethUp := up } }
  | .clientJoined =>
    some { s with flags := { s.flags with apClients := s.flags.apClients + 1 } }
  | .clientLeft => some { s with flags := { s.flags with apClients := s.flags.apClients - 1 } }
  | .apStopped => some { s with flags := { s.flags with apClients := 0 } }
  | .creds stored => some { s with flags := { s.flags with ssid := stored } }
  | .sample => if s.now < s.wake then none else some (samplePass timeout s)

/-- The device with the timeout `wdt_timeout_s`. -/
def wdtSystem (timeout : Nat) : Machine WdtState WdtLabel where
  step s l := if s.restarted then none else stepWdt timeout s l

/-! ## Histories -/

/-- What is true at a step, and what the step does. -/
structure Entry where
  time : Nat
  /-- There is an uplink or a client, or there are no credentials. -/
  paused : Bool
  sample : Bool
  /-- The STA gets its IP, or a sample finds a pause condition. -/
  noticed : Bool
  restart : Bool
  deriving DecidableEq, Repr

/-- The entry of a step. -/
def entry (timeout : Nat) (s : WdtState) (l : WdtLabel) : Entry where
  time := s.now
  paused := paused s.flags
  sample := decide (l = .sample)
  noticed := decide (l = .staGotIp) || decide (l = .sample) && paused s.flags
  restart := decide (l = .sample) && !paused s.flags && s.expired timeout

/-- The runs of the device with their histories. -/
abbrev wdtRuns (timeout : Nat) : Machine (WdtState × List Entry) WdtLabel :=
  (wdtSystem timeout).record fun s l => [entry timeout s l]

/-- A restart comes after `timeout` seconds without a pause condition. -/
def NotEarly (timeout : Nat) (before : List Entry) (e : Entry) : Prop :=
  e.restart = true → timeout * second ≤ e.time ∧
    ∀ f ∈ before, f.paused = true → f.time + timeout * second ≤ e.time

/-- If there was a pause condition within the last `timeout` seconds, then the STA got its IP
or a sample found a condition within these seconds, unless the device came up in them. -/
def Noticed (timeout : Nat) (before : List Entry) (e : Entry) : Prop :=
  e.sample = true → e.paused = false →
    (∃ f ∈ before, f.paused = true ∧ e.time < f.time + timeout * second) →
    e.time ≤ timeout * second ∨
      ∃ f ∈ before, f.noticed = true ∧ e.time ≤ f.time + timeout * second

/-- What holds in every run: `s_last_conn_us` is the time of the last entry that noticed
something, and an early restart is one that is not noticed. -/
structure WdtInv (timeout : Nat) (s : WdtState) (hist : List Entry) : Prop where
  base_le : s.base ≤ s.now
  latest : ∀ f ∈ hist, f.noticed = true → f.time ≤ s.base
  attained : s.base = 0 ∨ ∃ f ∈ hist, f.noticed = true ∧ f.time = s.base
  each : EachAfter (fun before e => NotEarly timeout before e ↔ Noticed timeout before e) hist

variable {timeout : Nat} {s t : WdtState} {hist : List Entry} {l : WdtLabel}

theorem entry_restart_iff : (entry timeout s l).restart = true ↔
    l = .sample ∧ paused s.flags = false ∧ timeout * second < s.now - s.base := by
  simp only [entry, WdtState.expired, Bool.and_eq_true, decide_eq_true_eq, Bool.not_eq_true',
    and_assoc]

/-- A restart is early exactly if what was there in the meantime has not been noticed. -/
theorem notEarly_iff_noticed (h : WdtInv timeout s hist) (l : WdtLabel) :
    NotEarly timeout hist (entry timeout s l) ↔ Noticed timeout hist (entry timeout s l) := by
  obtain ⟨hbase, hlatest, hattained, -⟩ := h
  constructor
  · intro hearly hsample hpaused hwithin
    refine Classical.byContradiction fun hunseen => ?_
    rw [not_or, Nat.not_le] at hunseen
    obtain ⟨hboot, hnone⟩ := hunseen
    -- then the time since the last notice is over, and the task restarts the device
    have hexpired : timeout * second < s.now - s.base := by
      rcases hattained with h0 | ⟨f, hf, hnoticed, htime⟩
      · rw [h0]
        exact hboot
      · have hlate : ¬ s.now ≤ f.time + timeout * second := fun hle =>
          hnone ⟨f, hf, hnoticed, hle⟩
        omega
    have hrestart : (entry timeout s l).restart = true :=
      entry_restart_iff.mpr ⟨of_decide_eq_true hsample, hpaused, hexpired⟩
    obtain ⟨f, hf, hp, hlt⟩ := hwithin
    exact absurd ((hearly hrestart).2 f hf hp) (Nat.not_le.mpr hlt)
  · intro hnoticed hrestart
    obtain ⟨hl, hpaused, hexpired⟩ := entry_restart_iff.mp hrestart
    have htime : (entry timeout s l).time = s.now := rfl
    refine ⟨by omega, fun f hf hp => Nat.le_of_not_lt fun hlt => ?_⟩
    rcases hnoticed (decide_eq_true hl) hpaused ⟨f, hf, hp, hlt⟩ with
      hboot | ⟨g, hg, hseen, hle⟩
    · omega
    · have := hlatest g hg hseen
      omega

/-- What a step does to the time that the task counts from. -/
theorem base_step (h : (wdtSystem timeout).step s l = some t) :
    s.now ≤ t.now ∧ t.base = if (entry timeout s l).noticed = true then s.now else s.base := by
  rw [wdtSystem] at h
  cases hr : s.restarted with
  | true => simp [hr] at h
  | false =>
    simp only [hr, Bool.false_eq_true, if_false] at h
    cases l with
    | sample =>
      rw [stepWdt] at h
      by_cases hw : s.now < s.wake
      · rw [if_pos hw] at h
        cases h
      · rw [if_neg hw] at h
        cases h
        by_cases hp : paused s.flags = true
        · simp [samplePass, entry, hp]
        · by_cases he : s.expired timeout = true <;> simp [samplePass, entry, hp, he]
    | elapse us =>
      cases h
      exact ⟨Nat.le_add_right _ _, rfl⟩
    | staGotIp | staDisconnected | eth _ | clientJoined | clientLeft | apStopped | creds _ =>
      cases h
      exact ⟨Nat.le_refl _, rfl⟩

theorem wdtInv_boot (creds : Bool) : WdtInv timeout (.boot creds) [] where
  base_le := Nat.le_refl 0
  latest := fun _ hf => absurd hf List.not_mem_nil
  attained := .inl rfl
  each := eachAfter_nil

theorem wdtInv_step (h : WdtInv timeout s hist) (hstep : (wdtSystem timeout).step s l = some t) :
    WdtInv timeout t (hist ++ [entry timeout s l]) := by
  obtain ⟨hnow, hbase⟩ := base_step hstep
  have hle := h.base_le
  have htime : (entry timeout s l).time = s.now := rfl
  refine ⟨?_, ?_, ?_, eachAfter_concat.mpr ⟨h.each, notEarly_iff_noticed h l⟩⟩
  · rw [hbase]
    split <;> omega
  · intro f hf hnoticed
    rw [hbase]
    rcases List.mem_append.mp hf with hold | hnew
    · have := h.latest f hold hnoticed
      split <;> omega
    · obtain rfl := List.mem_singleton.mp hnew
      rw [if_pos hnoticed]
      exact Nat.le_of_eq htime
  · rw [hbase]
    by_cases hnoticed : (entry timeout s l).noticed = true
    · rw [if_pos hnoticed]
      exact .inr ⟨_, List.mem_append_right _ (List.mem_singleton.mpr rfl), hnoticed, htime⟩
    · rw [if_neg hnoticed]
      exact h.attained.imp_right fun ⟨f, hf, hseen⟩ => ⟨f, List.mem_append_left _ hf, hseen⟩

theorem reaches_wdtInv {creds : Bool}
    (h : (wdtRuns timeout).Reaches (fun _ _ => True) (.boot creds, []) (s, hist)) :
    WdtInv timeout s hist := by
  refine Machine.Reaches.invariant (I := fun p => WdtInv timeout p.1 p.2) h
    (wdtInv_boot creds) ?_
  intro p l q hp _ hstep
  obtain ⟨hmachine, hhist⟩ := Machine.record_step hstep
  rw [hhist]
  exact wdtInv_step hp hmachine

/-- In every run the restarts are not early if and only if the samples notice, within the
timeout, what was there within the timeout. -/
theorem restart_early_iff (timeout : Nat) (creds : Bool) (s : WdtState) (hist : List Entry)
    (h : (wdtRuns timeout).Reaches (fun _ _ => True) (.boot creds, []) (s, hist)) :
    EachAfter (NotEarly timeout) hist ↔ EachAfter (Noticed timeout) hist := by
  have heach := (reaches_wdtInv h).each
  constructor
  · intro hearly before e after hsplit
    exact (heach before e after hsplit).mp (hearly before e after hsplit)
  · intro hnoticed before e after hsplit
    exact (heach before e after hsplit).mpr (hnoticed before e after hsplit)

/-- With credentials and nothing else a device restarts at the first look after its
timeout. -/
theorem restart_early_iff_alone : EachAfter (NotEarly 30)
    [⟨0, false, false, false, false⟩, ⟨31000000, false, true, false, true⟩] := by
  refine (restart_early_iff 30 true ⟨Flags.boot true, 31000000, 10000000, 0, true⟩ _
    (Machine.reaches_of_runIf [.elapse 31000000, .sample] (by decide +kernel))).mpr ?_
  intro before e after hsplit _ _ hwithin
  obtain ⟨f, hf, hp, -⟩ := hwithin
  have hmem : f ∈ before ++ e :: after := List.mem_append_left _ hf
  rw [← hsplit, List.mem_cons, List.mem_singleton] at hmem
  rcases hmem with rfl | rfl
  · cases hp
  · cases hp

/-- Ethernet is up for eight of the ten seconds before a sample that restarts the device. -/
theorem restart_early_fails :
    ¬ ∀ timeout, 30 ≤ timeout → ∀ creds s hist,
      (wdtRuns timeout).Reaches (fun _ _ => True) (.boot creds, []) (s, hist) →
        EachAfter (NotEarly timeout) hist := by
  intro h
  obtain ⟨p, hrun, e, he, hrestart, f, hf, hp, hlt⟩ :=
    Machine.exists_reaches_of_runIf (wdtRuns 30) (fun _ _ => True)
      (fun p => ∃ e ∈ p.2.getLast?, e.restart = true ∧
        ∃ f ∈ p.2.dropLast, f.paused = true ∧ e.time < f.time + 30 * second)
      (.boot true, [])
      [.elapse 10000000, .sample, .elapse 10000000, .sample, .elapse 10000000, .sample,
        .elapse 1000000, .eth true, .elapse 8000000, .eth false, .elapse 1000000, .sample]
      (by decide)
  obtain ⟨before, hsplit⟩ := List.getLast?_eq_some_iff.mp he
  have hearly := h 30 (Nat.le_refl 30) true p.1 p.2 hrun before e [] hsplit hrestart
  rw [hsplit, List.dropLast_concat] at hf
  exact absurd (hearly.2 f hf hp) (Nat.not_le.mpr hlt)

end Cdc2Net.Net.ConnWdt
