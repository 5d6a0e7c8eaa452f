import Cdc2Net.Lib.Transition
import Mathlib.Data.List.Basic
import Mathlib.Logic.Function.Basic

/-!
# The single-writer TX lock

`bridge_tx_to_source` of `bridge.c` in four steps: the check of the source, the
lock section (`lockCheck`), `source_tx`, and, after a success, the section that
records its time (`stampTx`). Tasks of any number call it, each on behalf of its
sink; a step of one task may fall between any two steps of another, and time
passes in between.

The lock section takes the lock in AUTO mode by setting the owner, not the time;
the time is only written after `source_tx`. So the lock protects a transmission
as long as the recorded time is fresh when another sink checks it
(`single_writer`), and fails for the first transmission after a silence
(`single_writer_fails`).
-/

set_option autoImplicit false

namespace Cdc2Net.Bridge

open Cdc2Net.Lib.Transition

/-- `BRIDGE_MAX_SINKS`. -/
def bridgeMaxSinks : Nat := 8
/-- `BRIDGE_TX_AUTO_IDLE_US`. -/
def bridgeTxAutoIdleUs : Int := 5000000

/-- `bridge_tx_mode_t`. -/
inductive TxMode where
  | auto
  | pinned
  deriving DecidableEq, Repr

/-- A sink's identity, which stands for `sink_t *`. -/
abbrev SinkId := Nat

/-- The static `s_br`, less the source, the ids and the receive counters.
`sinks` is `sinks[0 .. sink_count)`; `txOwnerIdx` is `none` for -1. -/
structure BridgeState where
  sinks : List SinkId
  txMode : TxMode
  txOwnerIdx : Option Nat
  txLastUs : Int
  txRejLock : Nat → Nat
  txRejLockTotal : Nat
  txDroppedNotReady : Nat
  txDroppedLocked : Nat
  txBytesTotal : Nat

/-- `bridge_init`, and `bridge_attach_sink` for each of `sinks`. -/
def bridgeInit (sinks : List SinkId) : BridgeState :=
  ⟨sinks.take bridgeMaxSinks, .auto, none, 0, fun _ => 0, 0, 0, 0, 0⟩

namespace BridgeState

/-- `find_sink_idx_locked`. -/
def findSinkIdxLocked (b : BridgeState) (who : SinkId) : Option Nat := b.sinks.findIdx? (· = who)

/-- `idle` of the lock section: nobody owns the lock, or it has timed out. -/
def txIdle (b : BridgeState) (now : Int) : Bool :=
  b.txOwnerIdx.isNone || decide (now - b.txLastUs > bridgeTxAutoIdleUs)

/-- `allowed` of the lock section. -/
def txAllowed (b : BridgeState) (who : SinkId) (now : Int) : Bool :=
  match b.findSinkIdxLocked who with
  | none => false
  | some idx =>
    match b.txMode with
    | .pinned => decide (b.txOwnerIdx = some idx)
    | .auto => b.txIdle now || decide (b.txOwnerIdx = some idx)

/-- The owner after the lock section let `who` pass: AUTO claims the lock. -/
def claimedOwner (b : BridgeState) (who : SinkId) : Option Nat :=
  match b.txMode with
  | .pinned => b.txOwnerIdx
  | .auto => b.findSinkIdxLocked who

/-- The counters of a rejected TX. -/
def rejectTx (b : BridgeState) (who : SinkId) : BridgeState :=
  { b with
    txRejLock := match b.findSinkIdxLocked who with
      | none => b.txRejLock
      | some idx => Function.update b.txRejLock idx (b.txRejLock idx + 1)
    txRejLockTotal := b.txRejLockTotal + 1
    txDroppedLocked := b.txDroppedLocked + 1 }

/-- The lock section: whether the TX passes, and the state it leaves. -/
def lockCheck (b : BridgeState) (who : SinkId) (now : Int) : Bool × BridgeState :=
  -- the claim sets the owner and leaves the time as it is
  if b.txAllowed who now then (true, { b with txOwnerIdx := b.claimedOwner who })
  else (false, b.rejectTx who)

/-- The section after a successful `source_tx`. -/
def stampTx (b : BridgeState) (len : Nat) (now : Int) : BridgeState :=
  { b with txBytesTotal := b.txBytesTotal + len, txLastUs := now }

end BridgeState

/-! ## Calls as tasks -/

/-- Where a task stands in `bridge_tx_to_source`, with the `len` of its call. -/
inductive TxPc where
  /-- Not in a call. -/
  | idle
  /-- Past the check of the source. -/
  | ready (len : Nat)
  /-- Past the lock section, in `source_tx`. -/
  | tx (len : Nat)
  /-- `source_tx` has succeeded, at time `at`. -/
  | done (len : Nat) (returned : Int)
  deriving DecidableEq, Repr

/-- The bridge, the clock and the tasks. `lastTx` is not part of the program: it
records when a sink's `source_tx` last succeeded. -/
structure TxState where
  bridge : BridgeState
  now : Int
  pc : Nat → TxPc
  lastTx : SinkId → Option Int

/-- Nobody has called yet. -/
def TxState.start (b : BridgeState) (now : Int) : TxState := ⟨b, now, fun _ => .idle, fun _ => none⟩

/-- The steps of the tasks. -/
inductive TxLabel where
  /-- Entry, and the check that a source is attached and ready. -/
  | call (t len : Nat) (ready : Bool)
  /-- The lock section; skipped for a call without a sink. -/
  | check (t : Nat)
  /-- `source_tx` returns. -/
  | ret (t : Nat) (ok : Bool)
  /-- The section after a success. -/
  | stamp (t : Nat)
  /-- Time passes. -/
  | tick (us : Nat)
  deriving DecidableEq, Repr

namespace TxState

/-- Move a task. -/
def setPc (s : TxState) (t : Nat) (pc : TxPc) : TxState :=
  { s with pc := Function.update s.pc t pc }

/-- The check of the source. -/
def stepCall (s : TxState) (t len : Nat) (ready : Bool) : Option TxState :=
  match s.pc t with
  | .idle =>
    if ready then some (s.setPc t (.ready len))
    else some { s with
      bridge := { s.bridge with txDroppedNotReady := s.bridge.txDroppedNotReady + 1 } }
  | _ => none

/-- The lock section on behalf of `who`; `none` is the system, which bypasses it. -/
def stepCheck (who : Option SinkId) (s : TxState) (t : Nat) : Option TxState :=
  match s.pc t with
  | .ready len =>
    match who with
    -- the system's own TX does not take part in the lock
    | none => some (s.setPc t (.tx len))
    | some k =>
      let a := s.bridge.lockCheck k s.now
      some { s.setPc t (if a.1 then .tx len else .idle) with bridge := a.2 }
  | _ => none

/-- The return of `source_tx`. -/
def stepRet (who : Option SinkId) (s : TxState) (t : Nat) (ok : Bool) : Option TxState :=
  match s.pc t with
  | .tx len =>
    if ok then
      some { s.setPc t (.done len s.now) with
        lastTx := match who with
          | none => s.lastTx
          | some k => Function.update s.lastTx k (some s.now) }
    -- a TX that failed records nothing
    else some (s.setPc t .idle)
  | _ => none

/-- The section that records the time. -/
def stepStamp (s : TxState) (t : Nat) : Option TxState :=
  match s.pc t with
  | .done len _ => some { s.setPc t .idle with bridge := s.bridge.stampTx len s.now }
  | _ => none

end TxState

/-- The tasks of the sinks; task `t` calls with `who t`. -/
def txSystem (who : Nat → Option SinkId) : Machine TxState TxLabel where
  step s
    | .call t len ready => s.stepCall t len ready
    | .check t => TxState.stepCheck (who t) s t
    | .ret t ok => TxState.stepRet (who t) s t ok
    | .stamp t => s.stepStamp t
    | .tick us => some { s with now := s.now + us }

/-! ## The owner is the sink that transmits -/

section Lock

variable (sinkOf : Nat → SinkId)

/-- The protected time of sink `k`: a TX of it is in `source_tx`, or its last
successful one returned at most `BRIDGE_TX_AUTO_IDLE_US` ago. -/
def TxState.Protected (s : TxState) (k : SinkId) : Prop :=
  (∃ t len, sinkOf t = k ∧ s.pc t = .tx len) ∨
    ∃ r, s.lastTx k = some r ∧ s.now ≤ r + bridgeTxAutoIdleUs

/-- The step is a lock section that lets a TX pass while another sink is in its
protected time. -/
def PassesForeign (s : TxState) : TxLabel → Prop
  | .check t => s.bridge.txAllowed (sinkOf t) s.now = true ∧
      ∃ k, k ≠ sinkOf t ∧ s.Protected sinkOf k
  | _ => False

/-- Task `t` has passed the lock section and has not yet recorded its time; a
success is at most `BRIDGE_TX_AUTO_IDLE_US` old. -/
def TxState.Unrecorded (s : TxState) (t : Nat) : Prop :=
  match s.pc t with
  | .tx _ => True
  | .done _ returned => s.now ≤ returned + bridgeTxAutoIdleUs
  | _ => False

/-- A lock section of one sink, taken while the TX of another sink is not yet
recorded, finds a recorded time that has not run out. -/
def CheckFindsFreshTime (s : TxState) : TxLabel → Prop
  | .check t => (∃ t', sinkOf t' ≠ sinkOf t ∧ s.Unrecorded t') →
      s.now - s.bridge.txLastUs ≤ bridgeTxAutoIdleUs
  | _ => True

/-- What the steps keep in AUTO mode, with `sinks` attached. -/
structure LockInv (sinks : List SinkId) (s : TxState) : Prop where
  attached : s.bridge.sinks = sinks
  auto : s.bridge.txMode = .auto
  past : s.bridge.txLastUs ≤ s.now
  returned : ∀ k r, s.lastTx k = some r → r ≤ s.now
  /-- A success is recorded, or its task is about to record it. -/
  recorded : ∀ k r, s.lastTx k = some r →
    r ≤ s.bridge.txLastUs ∨ ∃ t len, sinkOf t = k ∧ s.pc t = .done len r
  /-- A success still to be recorded is the sink's last one, or older. -/
  unrecorded : ∀ t len r, s.pc t = .done len r → ∃ r', s.lastTx (sinkOf t) = some r' ∧ r ≤ r'
  owner : ∀ k, s.Protected sinkOf k → ∃ idx, s.bridge.findSinkIdxLocked k = some idx ∧
    s.bridge.txOwnerIdx = some idx

variable {sinkOf} {sinks : List SinkId} {s s' : TxState} {t : Nat}
  {k k' : SinkId}

theorem BridgeState.findSinkIdxLocked_inj {b : BridgeState} {idx : Nat}
    (h : b.findSinkIdxLocked k = some idx) (h' : b.findSinkIdxLocked k' = some idx) : k = k' := by
  rcases List.findIdx?_eq_some_iff_getElem.1 h with ⟨hlt, hk, -⟩
  rcases List.findIdx?_eq_some_iff_getElem.1 h' with ⟨_, hk', -⟩
  exact (of_decide_eq_true hk).symm.trans (of_decide_eq_true hk')

theorem BridgeState.findSinkIdxLocked_of_mem {b : BridgeState} (h : k ∈ b.sinks) :
    ∃ idx, b.findSinkIdxLocked k = some idx := by
  have hsome : (b.sinks.findIdx? fun x => decide (x = k)).isSome = true :=
    List.findIdx?_isSome.trans (List.any_eq_true.2 ⟨k, h, by simp⟩)
  exact Option.isSome_iff_exists.1 hsome

theorem lockInv_start (sinks : List SinkId) {now : Int} (h : 0 ≤ now) :
    LockInv sinkOf (sinks.take bridgeMaxSinks) (.start (bridgeInit sinks) now) := by
  refine ⟨rfl, rfl, h, fun k r hr => (by cases hr), fun k r hr => (by cases hr),
    fun t len r ht => (by cases ht), fun k hk => ?_⟩
  -- nobody is in `source_tx`, and nobody has succeeded
  rcases hk with ⟨t, len, -, ht⟩ | ⟨r, hr, -⟩
  · cases ht
  · cases hr

/-- With a fresh recorded time, or none to fear, the lock section lets no TX of
another sink pass. -/
theorem LockInv.not_passesForeign (h : LockInv sinkOf sinks s) {l : TxLabel}
    (hok : CheckFindsFreshTime sinkOf s l) : ¬ PassesForeign sinkOf s l := by
  cases l with
  | check t =>
      rintro ⟨hallowed, k, hk, hprot⟩
      rcases h.owner k hprot with ⟨idx, hidx, howner⟩
      have hfresh : s.now - s.bridge.txLastUs ≤ bridgeTxAutoIdleUs := by
        rcases hprot with ⟨t', len, rfl, ht'⟩ | ⟨r, hr, hwindow⟩
        · exact hok ⟨t', hk, by simp only [TxState.Unrecorded, ht']⟩
        · rcases h.recorded k r hr with hrec | ⟨t', len, rfl, ht'⟩
          · omega
          · exact hok ⟨t', hk, by simpa only [TxState.Unrecorded, ht'] using hwindow⟩
      -- the caller is neither the owner nor does it find the lock idle
      simp only [BridgeState.txAllowed, h.auto] at hallowed
      cases hself : s.bridge.findSinkIdxLocked (sinkOf t) with
      | none => simp [hself] at hallowed
      | some own =>
          have hne : own ≠ idx := by
            rintro rfl
            exact hk (BridgeState.findSinkIdxLocked_inj hidx hself)
          simp only [hself, BridgeState.txIdle, howner, Option.isNone_some, Bool.false_or,
            Bool.or_eq_true, decide_eq_true_eq, Option.some.injEq] at hallowed
          rcases hallowed with hidle | hown
          · omega
          · exact hne hown.symm
  | call t len ready => exact fun hp => hp
  | ret t ok => exact fun hp => hp
  | stamp t => exact fun hp => hp
  | tick us => exact fun hp => hp

/-- Otherwise it does: a recorded time that has run out makes the lock idle. -/
theorem LockInv.passesForeign (h : LockInv sinkOf sinks s) (hall : ∀ t, sinkOf t ∈ sinks)
    {l : TxLabel} (hbad : ¬ CheckFindsFreshTime sinkOf s l) : PassesForeign sinkOf s l := by
  cases l with
  | check t =>
      simp only [CheckFindsFreshTime, Classical.not_imp] at hbad
      rcases hbad with ⟨⟨t', hne, hopen⟩, hstale⟩
      refine ⟨?_, sinkOf t', hne, ?_⟩
      · -- the lock counts as timed out, whoever owns it
        have hidle : s.bridge.txIdle s.now = true := by
          simp only [BridgeState.txIdle, Bool.or_eq_true, decide_eq_true_eq]
          exact Or.inr (by omega)
        rcases BridgeState.findSinkIdxLocked_of_mem (h.attached ▸ hall t) with ⟨idx, hidx⟩
        simp [BridgeState.txAllowed, hidx, h.auto, hidle]
      · cases hpc : s.pc t' with
        | tx len => exact Or.inl ⟨t', len, rfl, hpc⟩
        | done len r =>
            rcases h.unrecorded t' len r hpc with ⟨r', hr', hle⟩
            simp only [TxState.Unrecorded, hpc] at hopen
            exact Or.inr ⟨r', hr', by omega⟩
        | idle => simp [TxState.Unrecorded, hpc] at hopen
        | ready len => simp [TxState.Unrecorded, hpc] at hopen
  | call t len ready => exact absurd trivial hbad
  | ret t ok => exact absurd trivial hbad
  | stamp t => exact absurd trivial hbad
  | tick us => exact absurd trivial hbad

theorem TxState.Protected.mono (h : s'.Protected sinkOf k)
    (hpc : ∀ t len, s'.pc t = .tx len → s.pc t = .tx len) (hlast : s'.lastTx = s.lastTx)
    (hnow : s.now ≤ s'.now) : s.Protected sinkOf k := by
  rcases h with ⟨t, len, hk, ht⟩ | ⟨r, hr, hwindow⟩
  · exact Or.inl ⟨t, len, hk, hpc t len ht⟩
  · exact Or.inr ⟨r, hlast ▸ hr, by omega⟩

/-- Steps that keep mode, owner and recorded time and put no task into `source_tx`
keep the owner's part of the invariant. -/
theorem LockInv.owner_mono (h : LockInv sinkOf sinks s) (hsinks : s'.bridge.sinks = s.bridge.sinks)
    (howner : s'.bridge.txOwnerIdx = s.bridge.txOwnerIdx)
    (hpc : ∀ t len, s'.pc t = .tx len → s.pc t = .tx len) (hlast : s'.lastTx = s.lastTx)
    (hnow : s.now ≤ s'.now) (k : SinkId) (hk : s'.Protected sinkOf k) :
    ∃ idx, s'.bridge.findSinkIdxLocked k = some idx ∧ s'.bridge.txOwnerIdx = some idx := by
  rcases h.owner k (hk.mono hpc hlast hnow) with ⟨idx, hidx, hown⟩
  exact ⟨idx, by rw [BridgeState.findSinkIdxLocked, hsinks]; exact hidx, howner.trans hown⟩

/-- A task other than the moved one stands where it stood. -/
theorem setPc_other {s : TxState} {t t' : Nat} {pc pc' : TxPc} (ht : s.pc t = pc) (hne : pc ≠ pc')
    (h : s.pc t' = pc') (new : TxPc) : (s.setPc t new).pc t' = pc' := by
  have htt : t' ≠ t := by
    rintro rfl
    exact hne (ht.symm.trans h)
  simp [TxState.setPc, htt, h]

/-- A task in `source_tx` after a move was there before, unless it is the moved one. -/
theorem setPc_tx {s : TxState} {t t' len : Nat} {new : TxPc} (hnew : ∀ len, new ≠ .tx len)
    (h : (s.setPc t new).pc t' = .tx len) : s.pc t' = .tx len := by
  rcases eq_or_ne t' t with rfl | htt
  · exact absurd (by simpa [TxState.setPc] using h) (hnew len)
  · simpa [TxState.setPc, htt] using h

/-- Likewise for a task whose success is still to be recorded. -/
theorem setPc_done {s : TxState} {t t' len : Nat} {r : Int} {new : TxPc}
    (hnew : ∀ len r, new ≠ .done len r) (h : (s.setPc t new).pc t' = .done len r) :
    s.pc t' = .done len r := by
  rcases eq_or_ne t' t with rfl | htt
  · exact absurd (by simpa [TxState.setPc] using h) (hnew len r)
  · simpa [TxState.setPc, htt] using h

/-- A task with nothing to record can be moved: the successes stay recorded. -/
theorem LockInv.recorded_setPc (h : LockInv sinkOf sinks s) {pc : TxPc} (hpc : s.pc t = pc)
    (hne : ∀ len r, pc ≠ .done len r) (new : TxPc) (k : SinkId) (r : Int)
    (hr : s.lastTx k = some r) : r ≤ s.bridge.txLastUs ∨
      ∃ t' len, sinkOf t' = k ∧ (s.setPc t new).pc t' = .done len r := by
  rcases h.recorded k r hr with hrec | ⟨t', len, hk, ht'⟩
  · exact Or.inl hrec
  · exact Or.inr ⟨t', len, hk, setPc_other hpc (hne len r) ht' new⟩

theorem lockInv_call {len : Nat} {ready : Bool} (h : LockInv sinkOf sinks s)
    (hs : s.stepCall t len ready = some s') : LockInv sinkOf sinks s' := by
  simp only [TxState.stepCall] at hs
  split at hs
  · next hpc =>
    split at hs
    · cases hs
      exact ⟨h.attached, h.auto, h.past, h.returned, h.recorded_setPc hpc (by simp) _,
        fun t' len' r ht' => h.unrecorded t' len' r (setPc_done (by simp) ht'),
        h.owner_mono rfl rfl (fun t' len' ht' => setPc_tx (by simp) ht') rfl (Int.le_refl _)⟩
    · cases hs
      exact ⟨h.attached, h.auto, h.past, h.returned, h.recorded, h.unrecorded,
        h.owner_mono rfl rfl (fun _ _ ht' => ht') rfl (Int.le_refl _)⟩
  · cases hs

theorem lockInv_check (h : LockInv sinkOf sinks s) (hok : CheckFindsFreshTime sinkOf s (.check t))
    (hs : TxState.stepCheck (some (sinkOf t)) s t = some s') : LockInv sinkOf sinks s' := by
  simp only [TxState.stepCheck] at hs
  split at hs
  · next len hpc =>
    have hrecorded := h.recorded_setPc hpc (by simp)
    cases hs
    cases hallowed : s.bridge.txAllowed (sinkOf t) s.now with
    | false =>
        simp only [BridgeState.lockCheck, hallowed, Bool.false_eq_true, if_false]
        refine ⟨h.attached, h.auto, h.past, h.returned, hrecorded _,
          fun t' len' r ht' => h.unrecorded t' len' r (setPc_done (by simp) ht'), ?_⟩
        exact h.owner_mono rfl rfl (fun t' len' ht' => setPc_tx (by simp) ht') rfl (Int.le_refl _)
    | true =>
        simp only [BridgeState.lockCheck, hallowed, if_true]
        refine ⟨h.attached, h.auto, h.past, h.returned, hrecorded _,
          fun t' len' r ht' => h.unrecorded t' len' r (setPc_done (by simp) ht'), fun k hk => ?_⟩
        have hmine : ∃ idx, s.bridge.findSinkIdxLocked (sinkOf t) = some idx := by
          cases hself : s.bridge.findSinkIdxLocked (sinkOf t) with
          | none => simp [BridgeState.txAllowed, hself] at hallowed
          | some idx => exact ⟨idx, rfl⟩
        rcases hmine with ⟨idx, hidx⟩
        by_cases hself : k = sinkOf t
        · subst hself
          exact ⟨idx, hidx, by simp [BridgeState.claimedOwner, h.auto, hidx]⟩
        · -- another sink in its protected time would have been passed
          refine absurd ⟨hallowed, k, hself, ?_⟩ (h.not_passesForeign hok)
          rcases hk with ⟨t', len', hk', ht'⟩ | hwindow
          · refine Or.inl ⟨t', len', hk', ?_⟩
            have htt : t' ≠ t := by
              rintro rfl
              exact hself hk'.symm
            simpa [TxState.setPc, htt] using ht'
          · exact Or.inr hwindow
  · cases hs

theorem lockInv_ret {ok : Bool} (h : LockInv sinkOf sinks s)
    (hs : TxState.stepRet (some (sinkOf t)) s t ok = some s') : LockInv sinkOf sinks s' := by
  simp only [TxState.stepRet] at hs
  split at hs
  · next len hpc =>
    split at hs
    · -- a success: the time of the return is remembered, not yet recorded
      cases hs
      have hmine : s.Protected sinkOf (sinkOf t) := Or.inl ⟨t, len, rfl, hpc⟩
      refine ⟨h.attached, h.auto, h.past, fun k r hr => ?_, fun k r hr => ?_,
        fun t' len' r ht' => ?_, fun k hk => ?_⟩
      · -- `returned`
        by_cases hself : k = sinkOf t
        · subst hself
          have hrnow : s.now = r := by simpa using hr
          exact Int.le_of_eq hrnow.symm
        · exact h.returned k r (by simpa [hself] using hr)
      · -- `recorded`
        by_cases hself : k = sinkOf t
        · subst hself
          have hrnow : s.now = r := by simpa using hr
          exact Or.inr ⟨t, len, rfl, by simp [TxState.setPc, hrnow]⟩
        · exact h.recorded_setPc hpc (by simp) _ k r (by simpa [hself] using hr)
      · -- `unrecorded`
        rcases eq_or_ne t' t with rfl | htt
        · have hrnow : len = len' ∧ s.now = r := by simpa [TxState.setPc] using ht'
          exact ⟨s.now, by simp, Int.le_of_eq hrnow.2.symm⟩
        · rcases h.unrecorded t' len' r (by simpa [TxState.setPc, htt] using ht') with
            ⟨r', hr', hle⟩
          by_cases hself : sinkOf t' = sinkOf t
          · exact ⟨s.now, by simp [hself], Int.le_trans hle (h.returned _ _ hr')⟩
          · exact ⟨r', by simpa [hself] using hr', hle⟩
      · -- `owner`
        by_cases hself : k = sinkOf t
        · subst hself
          exact h.owner _ hmine
        · refine h.owner k ?_
          rcases hk with ⟨t', len', hk', ht'⟩ | ⟨r, hr, hwindow⟩
          · exact Or.inl ⟨t', len', hk', setPc_tx (by simp) ht'⟩
          · exact Or.inr ⟨r, by simpa [hself] using hr, hwindow⟩
    · cases hs
      exact ⟨h.attached, h.auto, h.past, h.returned, h.recorded_setPc hpc (by simp) _,
        fun t' len' r ht' => h.unrecorded t' len' r (setPc_done (by simp) ht'),
        h.owner_mono rfl rfl (fun t' len' ht' => setPc_tx (by simp) ht') rfl (Int.le_refl _)⟩
  · cases hs

theorem lockInv_stamp (h : LockInv sinkOf sinks s) (hs : s.stepStamp t = some s') :
    LockInv sinkOf sinks s' := by
  simp only [TxState.stepStamp] at hs
  split at hs
  · cases hs
    refine ⟨h.attached, h.auto, Int.le_refl _, h.returned,
      fun k r hr => Or.inl (h.returned k r hr),
      fun t' len' r ht' => h.unrecorded t' len' r (setPc_done (by simp) ht'), ?_⟩
    exact h.owner_mono rfl rfl (fun t' len' ht' => setPc_tx (by simp) ht') rfl (Int.le_refl _)
  · cases hs

theorem lockInv_step {l : TxLabel} (h : LockInv sinkOf sinks s)
    (hok : CheckFindsFreshTime sinkOf s l)
    (hs : (txSystem fun t => some (sinkOf t)).step s l = some s') : LockInv sinkOf sinks s' := by
  cases l with
  | call t len ready => exact lockInv_call h hs
  | check t => exact lockInv_check h hok hs
  | ret t ok => exact lockInv_ret h hs
  | stamp t => exact lockInv_stamp h hs
  | tick us =>
      cases hs
      have hlater : s.now ≤ s.now + us := by omega
      exact ⟨h.attached, h.auto, Int.le_trans h.past hlater,
        fun k r hr => Int.le_trans (h.returned k r hr) hlater,
        h.recorded, h.unrecorded, h.owner_mono rfl rfl (fun _ _ ht' => ht') rfl hlater⟩

/-- **Single writer.** In AUTO mode, with all callers attached: in every run in which
a lock section never meets an unrecorded TX of another sink with a recorded time
that has run out, the tasks in `source_tx` all serve one sink, and a next step lets
a TX pass in another sink's protected time exactly if it breaks that condition. -/
theorem single_writer {sinks : List SinkId} (hall : ∀ t, sinkOf t ∈ sinks.take bridgeMaxSinks)
    {now : Int} (hnow : 0 ≤ now)
    (h : (txSystem fun t => some (sinkOf t)).Reaches (CheckFindsFreshTime sinkOf)
      (.start (bridgeInit sinks) now) s) :
    (∀ l, CheckFindsFreshTime sinkOf s l ↔ ¬ PassesForeign sinkOf s l) ∧
      ∀ t t' len len', s.pc t = .tx len → s.pc t' = .tx len' → sinkOf t = sinkOf t' := by
  have hinv : LockInv sinkOf (sinks.take bridgeMaxSinks) s :=
    Machine.Reaches.invariant h (lockInv_start sinks hnow)
      fun _ _ _ hs hok ht => lockInv_step hs hok ht
  constructor
  · intro l
    constructor
    · exact fun hok => hinv.not_passesForeign hok
    · intro hpass
      by_contra hbad
      exact hpass (hinv.passesForeign hall hbad)
  · intro t t' len len' ht ht'
    rcases hinv.owner (sinkOf t) (Or.inl ⟨t, len, rfl, ht⟩) with ⟨idx, hidx, howner⟩
    rcases hinv.owner (sinkOf t') (Or.inl ⟨t', len', rfl, ht'⟩) with ⟨idx', hidx', howner'⟩
    rw [howner] at howner'
    cases howner'
    exact BridgeState.findSinkIdxLocked_inj hidx hidx'

end Lock

/-- Task 0 calls for sink 10, every other task for sink 20. -/
def twoSinks (t : Nat) : SinkId := if t = 0 then 10 else 20

theorem twoSinks_attached (t : Nat) : twoSinks t ∈ [10, 20].take bridgeMaxSinks := by
  simp only [twoSinks, bridgeMaxSinks]
  split <;> simp

/-- Within 5 s of the recorded time the second sink does not get past the first. -/
theorem single_writer_busy : ∃ s, (txSystem fun t => some (twoSinks t)).Reaches
    (CheckFindsFreshTime twoSinks) (.start (bridgeInit [10, 20]) 0) s ∧
    s.pc 0 = .tx 4 ∧ ¬ PassesForeign twoSinks s (.check 1) := by
  obtain ⟨s, hs, hpc, hfresh⟩ := Machine.exists_reaches_of_runIf
    (txSystem fun t => some (twoSinks t))
    (fun s _ => s.now - s.bridge.txLastUs ≤ bridgeTxAutoIdleUs)
    (fun s => s.pc 0 = .tx 4 ∧ s.now - s.bridge.txLastUs ≤ bridgeTxAutoIdleUs)
    (.start (bridgeInit [10, 20]) 0)
    [.tick 1000, .call 0 4 true, .check 0, .call 1 7 true] (by decide +kernel)
  have hrun : (txSystem fun t => some (twoSinks t)).Reaches (CheckFindsFreshTime twoSinks)
      (.start (bridgeInit [10, 20]) 0) s := by
    refine Machine.Reaches.mono (fun s l hfresh => ?_) hs
    cases l <;> first | exact fun _ => hfresh | trivial
  exact ⟨s, hrun, hpc, ((single_writer twoSinks_attached (by decide) hrun).1 _).1 fun _ => hfresh⟩

/-- Six seconds after start-up one sink claims the lock and is in `source_tx`; the
recorded time is still 0, so the lock section lets the other sink pass. -/
theorem single_writer_fails :
    ¬ ∀ s l, (txSystem fun t => some (twoSinks t)).Reaches (fun _ _ => True)
        (.start (bridgeInit [10, 20]) 0) s →
      (txSystem fun t => some (twoSinks t)).step s l ≠ none → ¬ PassesForeign twoSinks s l := by
  obtain ⟨s, hs, hpc, hready, hallowed⟩ := Machine.exists_reaches_of_runIf
    (txSystem fun t => some (twoSinks t)) (fun _ _ => True)
    (fun s => s.pc 0 = .tx 4 ∧ s.pc 1 = .ready 7 ∧ s.bridge.txAllowed (twoSinks 1) s.now = true)
    (.start (bridgeInit [10, 20]) 0)
    [.tick 6000000, .call 0 4 true, .check 0, .call 1 7 true] (by decide +kernel)
  intro hall
  refine hall s (.check 1) hs ?_ ⟨hallowed, 10, by decide, Or.inl ⟨0, 4, rfl, hpc⟩⟩
  simp [txSystem, TxState.stepCheck, hready]

end Cdc2Net.Bridge
