import Cdc2Net.Bridge.TxLock

/-!
# The fan-out of received bytes

The receive half of `bridge.c`: `bridge_attach_source`, `bridge_detach_source`,
`bridge_attach_sink`, `bridge_on_source_rx` and `bridge_notify_source_down`. Any number of tasks
call the last two. Each takes a snapshot of the sinks under `s_br.mtx` and calls the sinks of the
snapshot one by one with the mutex released, so that calls of other tasks, new sinks and a swap of
the source fall between.
-/

set_option autoImplicit false

namespace Cdc2Net.Bridge

open Cdc2Net.Lib.Transition

/-- A source's identity, which stands for `source_t *`. -/
abbrev SourceId := Nat

/-- What the bridge tells its sinks. -/
inductive SinkCall where
  /-- `sink_on_source_rx`. -/
  | rx (data : List UInt8)
  /-- `sink_on_source_down`. -/
  | down
  deriving DecidableEq, Repr

/-- Where a task stands in `bridge_on_source_rx` or `bridge_notify_source_down`. -/
inductive FanPc where
  /-- Not in a call. -/
  | idle
  /-- Called; the snapshot is not taken yet. -/
  | entered (call : SinkCall)
  /-- In the loop, at `snapshot[i]`. -/
  | calling (call : SinkCall) (snapshot : List SinkId) (i : Nat)
  deriving DecidableEq, Repr

/-- The receive half of `s_br`, the `rx_sink` of the sources, and the tasks. `hooked src` says that
`src->rx_sink` is `bridge_on_source_rx`; else it is NULL. -/
structure FanState where
  source : Option SourceId
  hooked : SourceId → Bool
  sinks : List SinkId
  rxPumpsTotal : UInt32
  rxBytesTotal : UInt32
  pc : Nat → FanPc

/-- After `bridge_init`. -/
def FanState.init : FanState := ⟨none, fun _ => false, [], 0, 0, fun _ => .idle⟩

namespace FanState

/-- `bridge_attach_source`, the section under the mutex. -/
def attachSource (s : FanState) (src : SourceId) : FanState :=
  let swapped : SourceId → Bool :=
    match s.source with
    | some old => if old = src then s.hooked else Function.update s.hooked old false
    | none => s.hooked
  { s with source := some src, hooked := Function.update swapped src true }

/-- `bridge_detach_source`. -/
def detachSource (s : FanState) (src : SourceId) : FanState :=
  if s.source = some src then
    { s with source := none, hooked := Function.update s.hooked src false }
  else s

/-- `bridge_attach_sink`; `none` is `ESP_ERR_NO_MEM`. -/
def attachSink (s : FanState) (sink : SinkId) : Option FanState :=
  if bridgeMaxSinks ≤ s.sinks.length then none
  else some { s with sinks := s.sinks ++ [sink] }

/-- Move a task. -/
def setPc (s : FanState) (t : Nat) (pc : FanPc) : FanState :=
  { s with pc := Function.update s.pc t pc }

theorem setPc_self (s : FanState) (t : Nat) (pc : FanPc) : (s.setPc t pc).pc t = pc := by
  simp [setPc]

theorem setPc_of_ne (s : FanState) {t t' : Nat} (h : t' ≠ t) (pc : FanPc) :
    (s.setPc t pc).pc t' = s.pc t' := by
  simp [setPc, h]

/-- A source's task has bytes: it calls `rx_sink` unless that is NULL, and
`bridge_on_source_rx` returns at once when there are none. -/
def stepRx (s : FanState) (t : Nat) (src : SourceId) (data : List UInt8) : Option FanState :=
  match s.pc t with
  | .idle => some (if s.hooked src && !data.isEmpty then s.setPc t (.entered (.rx data)) else s)
  | _ => none

/-- A task enters `bridge_notify_source_down`. -/
def stepDown (s : FanState) (t : Nat) : Option FanState :=
  match s.pc t with
  | .idle => some (s.setPc t (.entered .down))
  | _ => none

/-- The counters of a call. -/
def count (s : FanState) : SinkCall → FanState
  | .rx data =>
    { s with
      rxPumpsTotal := s.rxPumpsTotal + 1
      rxBytesTotal := s.rxBytesTotal + UInt32.ofNat data.length }
  | .down => s

/-- The section under the mutex. -/
def stepSnapshot (s : FanState) (t : Nat) : Option FanState :=
  match s.pc t with
  | .entered call => some ((s.count call).setPc t (.calling call s.sinks 0))
  | _ => none

/-- One turn of the loop over the snapshot; the end of the loop is the return. -/
def stepSink (s : FanState) (t : Nat) : Option FanState :=
  match s.pc t with
  | .calling call snapshot i =>
    some (s.setPc t (if i < snapshot.length then .calling call snapshot (i + 1) else .idle))
  | _ => none

end FanState

/-- The steps of the receive half. -/
inductive FanLabel where
  | attachSource (src : SourceId)
  | detachSource (src : SourceId)
  | attachSink (sink : SinkId)
  | rx (t : Nat) (src : SourceId) (data : List UInt8)
  | down (t : Nat)
  | snapshot (t : Nat)
  | sink (t : Nat)
  deriving DecidableEq, Repr

/-- The bridge with its sources, sinks and tasks. -/
def fanSystem : Machine FanState FanLabel where
  step s
    | .attachSource src => some (s.attachSource src)
    | .detachSource src => some (s.detachSource src)
    | .attachSink sink => s.attachSink sink
    | .rx t src data => s.stepRx t src data
    | .down t => s.stepDown t
    | .snapshot t => s.stepSnapshot t
    | .sink t => s.stepSink t

/-! ## The history -/

/-- What a run shows. -/
inductive FanEvent where
  /-- `s_br.source` was written. -/
  | source (src : Option SourceId)
  /-- The next slot got a sink. -/
  | attached (sink : SinkId)
  /-- A task took bytes of a source into the bridge. -/
  | entered (t : Nat) (src : SourceId) (data : List UInt8)
  /-- A task's bytes of a source went nowhere. -/
  | ignored (t : Nat) (src : SourceId) (data : List UInt8)
  /-- A task is to tell the sinks that the source is down. -/
  | noticed (t : Nat)
  /-- A task's call took its snapshot. -/
  | taken (t : Nat) (call : SinkCall)
  /-- A task called `sink`, which it found at `snapshot[i]`. -/
  | handed (t i : Nat) (sink : SinkId) (call : SinkCall)
  deriving DecidableEq, Repr

/-- What a step adds to the history. -/
def fanEmit (s : FanState) : FanLabel → List FanEvent
  | .attachSource src => [.source (some src)]
  | .detachSource src => if s.source = some src then [.source none] else []
  | .attachSink sink => [.attached sink]
  | .rx t src data =>
    if s.hooked src && !data.isEmpty then [.entered t src data] else [.ignored t src data]
  | .down t => [.noticed t]
  | .snapshot t =>
    match s.pc t with
    | .entered call => [.taken t call]
    | _ => []
  | .sink t =>
    match s.pc t with
    | .calling call snapshot i => (snapshot[i]?.map fun sink => .handed t i sink call).toList
    | _ => []

/-- The source attached at the end of a history. -/
def sourceOf (es : List FanEvent) : Option SourceId :=
  es.foldl (fun cur e => match e with
    | .source src => src
    | _ => cur) none

/-- The sinks attached in a history, slot by slot. -/
def sinksOf (es : List FanEvent) : List SinkId :=
  es.filterMap fun e => match e with
    | .attached sink => some sink
    | _ => none

/-- One event for slot `i` and task `t`: the number of slots in use, and the calls taken by the
task while slot `i` was one of them. -/
def owedStep (t i : Nat) (acc : Nat × List SinkCall) : FanEvent → Nat × List SinkCall
  | .attached _ => (acc.1 + 1, acc.2)
  | .taken t' call => if t' = t ∧ i < acc.1 then (acc.1, acc.2 ++ [call]) else acc
  | _ => acc

/-- The calls of task `t` that were taken once slot `i` had its sink. -/
def owed (t i : Nat) (es : List FanEvent) : List SinkCall := (es.foldl (owedStep t i) (0, [])).2

/-- The calls that slot `i` got from task `t`. -/
def handed (t i : Nat) (es : List FanEvent) : List SinkCall :=
  es.filterMap fun e => match e with
    | .handed t' i' _ call => if t' = t ∧ i' = i then some call else none
    | _ => none

/-- The chunks that the bridge took. -/
def chunksOf (es : List FanEvent) : List (List UInt8) :=
  es.filterMap fun e => match e with
    | .taken _ (.rx data) => some data
    | _ => none

/-- One event for the call that task `t` came with and that has taken no snapshot yet. -/
def inHandStep (t : Nat) (cur : Option SinkCall) : FanEvent → Option SinkCall
  | .entered t' _ data => if t' = t then some (.rx data) else cur
  | .noticed t' => if t' = t then some .down else cur
  | .taken t' _ => if t' = t then none else cur
  | _ => cur

/-- The call that task `t` came with and that has taken no snapshot yet. -/
def inHand (t : Nat) (es : List FanEvent) : Option SinkCall := es.foldl (inHandStep t) none

/-- The call of a task before its snapshot. -/
def FanPc.inHand : FanPc → Option SinkCall
  | .entered call => some call
  | _ => none

/-- The call that a task still has to hand to slot `i`. -/
def FanPc.pending (i : Nat) : FanPc → List SinkCall
  | .calling call snapshot next => if next ≤ i ∧ i < snapshot.length then [call] else []
  | _ => []

/-- An event is in order after `pre`: a sink is called in the slot it is attached to, the bytes of
the attached source enter and no others, and a task takes the call it came with before it comes
with the next. -/
def InOrder (pre : List FanEvent) : FanEvent → Prop
  | .handed _ i sink _ => (sinksOf pre)[i]? = some sink
  | .entered t src _ => sourceOf pre = some src ∧ inHand t pre = none
  | .ignored _ src data => data = [] ∨ sourceOf pre ≠ some src
  | .noticed t => inHand t pre = none
  | .taken t call => inHand t pre = some call
  | _ => True

/-- What the steps keep, with `es` the history. -/
structure FanInv (s : FanState) (es : List FanEvent) : Prop where
  sinks : s.sinks = sinksOf es
  source : s.source = sourceOf es
  /-- Only the attached source has the hook. -/
  hook : ∀ src, s.hooked src = true ↔ s.source = some src
  snapshot : ∀ t call snapshot i, s.pc t = .calling call snapshot i → snapshot <+: s.sinks
  exact : ∀ t i, handed t i es ++ (s.pc t).pending i = owed t i es
  hand : ∀ t, inHand t es = (s.pc t).inHand
  inOrder : EachAfter InOrder es
  pumps : s.rxPumpsTotal = UInt32.ofNat (chunksOf es).length
  bytes : s.rxBytesTotal = UInt32.ofNat (chunksOf es).flatten.length

section Fan

variable {s s' : FanState} {es : List FanEvent} {t : Nat}

theorem foldl_owedStep_fst (t i : Nat) (es : List FanEvent) (acc : Nat × List SinkCall) :
    (es.foldl (owedStep t i) acc).1 = acc.1 + (sinksOf es).length := by
  induction es generalizing acc with
  | nil => rfl
  | cons e es ih =>
    rw [List.foldl_cons, ih]
    cases e with
    | attached sink => simp [owedStep, sinksOf]; omega
    | taken t' call =>
      simp only [owedStep, sinksOf, List.filterMap_cons]
      split <;> rfl
    | source src => rfl
    | entered t' src data => rfl
    | ignored t' src data => rfl
    | noticed t' => rfl
    | handed t' i' sink call => rfl

theorem owed_taken (t i t' : Nat) (es : List FanEvent) (call : SinkCall) :
    owed t i (es ++ [FanEvent.taken t' call]) =
      if t' = t ∧ i < (sinksOf es).length then owed t i es ++ [call] else owed t i es := by
  have hfst := foldl_owedStep_fst t i es (0, [])
  rw [Nat.zero_add] at hfst
  rw [owed, List.foldl_append, List.foldl_cons, List.foldl_nil, owedStep, hfst]
  split <;> rfl

/-- An event that takes no call owes nothing new. -/
theorem owed_concat (t i : Nat) (es : List FanEvent) {e : FanEvent}
    (he : ∀ t' call, e ≠ .taken t' call) : owed t i (es ++ [e]) = owed t i es := by
  rw [owed, List.foldl_append, List.foldl_cons, List.foldl_nil]
  cases e with
  | taken t' call => exact absurd rfl (he t' call)
  | attached sink => rfl
  | source src => rfl
  | entered t' src data => rfl
  | ignored t' src data => rfl
  | noticed t' => rfl
  | handed t' i' sink call => rfl

theorem handed_handed (t i t' i' : Nat) (es : List FanEvent) (sink : SinkId) (call : SinkCall) :
    handed t i (es ++ [FanEvent.handed t' i' sink call]) =
      handed t i es ++ if t' = t ∧ i' = i then [call] else [] := by
  rw [handed, List.filterMap_append]
  congr 1
  simp only [List.filterMap_cons, List.filterMap_nil]
  split <;> simp_all

/-- An event that hands nothing over leaves what was handed over. -/
theorem handed_concat (t i : Nat) (es : List FanEvent) {e : FanEvent}
    (he : ∀ t' i' sink call, e ≠ .handed t' i' sink call) :
    handed t i (es ++ [e]) = handed t i es := by
  rw [handed, List.filterMap_append]
  cases e with
  | handed t' i' sink call => exact absurd rfl (he t' i' sink call)
  | attached sink => exact List.append_nil _
  | source src => exact List.append_nil _
  | entered t' src data => exact List.append_nil _
  | ignored t' src data => exact List.append_nil _
  | noticed t' => exact List.append_nil _
  | taken t' call => exact List.append_nil _

theorem fanInv_init : FanInv .init [] where
  sinks := rfl
  source := rfl
  hook src := by simp [FanState.init]
  snapshot t call snapshot i h := by cases h
  exact t i := rfl
  hand t := rfl
  inOrder := eachAfter_nil
  pumps := rfl
  bytes := rfl

/-- An event that neither takes nor hands over a call keeps the balance of a task that stays. -/
theorem FanInv.exact_concat (h : FanInv s es) {e : FanEvent}
    (htaken : ∀ t' call, e ≠ .taken t' call)
    (hhanded : ∀ t' i' sink call, e ≠ .handed t' i' sink call)
    (t i : Nat) : handed t i (es ++ [e]) ++ (s.pc t).pending i = owed t i (es ++ [e]) := by
  rw [handed_concat t i es hhanded, owed_concat t i es htaken]
  exact h.exact t i

theorem inHand_concat (t : Nat) (es : List FanEvent) (e : FanEvent) :
    inHand t (es ++ [e]) = inHandStep t (inHand t es) e := by
  rw [inHand, List.foldl_append, List.foldl_cons, List.foldl_nil, inHand]

/-- An event of one task leaves the others with the call they have in hand. -/
theorem FanInv.hand_setPc (h : FanInv s es) {e : FanEvent} {pc : FanPc}
    (hself : inHandStep t (inHand t es) e = pc.inHand)
    (hother : ∀ t' cur, t ≠ t' → inHandStep t' cur e = cur) (t' : Nat) :
    inHand t' (es ++ [e]) = ((s.setPc t pc).pc t').inHand := by
  rw [inHand_concat]
  rcases eq_or_ne t' t with rfl | hne
  · rw [FanState.setPc_self, hself]
  · rw [FanState.setPc_of_ne s hne, hother t' _ hne.symm, h.hand t']

/-- So does a move of a task that has none, before and after. -/
theorem FanInv.hand_move (h : FanInv s es) {pc : FanPc} (hold : (s.pc t).inHand = none)
    (hnew : pc.inHand = none) (t' : Nat) : inHand t' es = ((s.setPc t pc).pc t').inHand := by
  rcases eq_or_ne t' t with rfl | hne
  · rw [FanState.setPc_self, hnew, h.hand t', hold]
  · rw [FanState.setPc_of_ne s hne, h.hand t']

/-- A task that moves between two points with nothing pending keeps the balance. -/
theorem pending_setPc {pc : FanPc} (t t' i : Nat) (hold : (s.pc t).pending i = [])
    (hnew : pc.pending i = []) : ((s.setPc t pc).pc t').pending i = (s.pc t').pending i := by
  rcases eq_or_ne t' t with rfl | hne
  · rw [FanState.setPc_self, hold, hnew]
  · rw [FanState.setPc_of_ne s hne]

/-- A moved task is in the loop only if it was moved there. -/
theorem snapshot_setPc {sinks : List SinkId} {pc : FanPc}
    (h : ∀ t call snapshot i, s.pc t = .calling call snapshot i → snapshot <+: sinks)
    (hpc : ∀ call snapshot i, pc = .calling call snapshot i → snapshot <+: sinks)
    (t t' : Nat) (call : SinkCall) (snapshot : List SinkId) (i : Nat)
    (ht : (s.setPc t pc).pc t' = .calling call snapshot i) : snapshot <+: sinks := by
  rcases eq_or_ne t' t with rfl | hne
  · exact hpc call snapshot i ((FanState.setPc_self s t' pc).symm.trans ht)
  · exact h t' call snapshot i ((FanState.setPc_of_ne s hne pc).symm.trans ht)

theorem fanInv_attachSource (h : FanInv s es) (src : SourceId) :
    FanInv (s.attachSource src) (es ++ [FanEvent.source (some src)]) where
  sinks := h.sinks.trans (by simp [sinksOf])
  source := by simp [FanState.attachSource, sourceOf]
  hook x := by
    simp only [FanState.attachSource]
    rcases eq_or_ne x src with rfl | hne
    · simp
    · -- any other source that had the hook was the attached one, and has lost it
      rw [Function.update_of_ne hne]
      have hx := h.hook x
      refine ⟨fun hhook => ?_, fun heq => absurd (Option.some.inj heq).symm hne⟩
      cases hsource : s.source with
      | none => simp_all
      | some old =>
        simp only [hsource] at hhook hx
        split at hhook
        · exact absurd (Option.some.inj (hx.1 hhook)) (by rintro rfl; contradiction)
        · rcases eq_or_ne x old with rfl | hold
          · simp at hhook
          · rw [Function.update_of_ne hold] at hhook
            exact absurd (Option.some.inj (hx.1 hhook)).symm hold
  snapshot := h.snapshot
  exact := h.exact_concat (by simp) (by simp)
  hand := fun t => (inHand_concat t es _).trans (h.hand t)
  inOrder := eachAfter_concat.2 ⟨h.inOrder, trivial⟩
  pumps := h.pumps.trans (by simp [chunksOf])
  bytes := h.bytes.trans (by simp [chunksOf])

theorem fanInv_detachSource (h : FanInv s es) {src : SourceId} (hsrc : s.source = some src) :
    FanInv { s with source := none, hooked := Function.update s.hooked src false }
      (es ++ [FanEvent.source none]) where
  sinks := h.sinks.trans (by simp [sinksOf])
  source := by simp [sourceOf]
  hook x := by
    show Function.update s.hooked src false x = true ↔ none = some x
    rcases eq_or_ne x src with rfl | hne
    · simp
    · rw [Function.update_of_ne hne, h.hook x, hsrc]
      simp [hne.symm]
  snapshot := h.snapshot
  exact := h.exact_concat (by simp) (by simp)
  hand := fun t => (inHand_concat t es _).trans (h.hand t)
  inOrder := eachAfter_concat.2 ⟨h.inOrder, trivial⟩
  pumps := h.pumps.trans (by simp [chunksOf])
  bytes := h.bytes.trans (by simp [chunksOf])

theorem fanInv_attachSink (h : FanInv s es) {sink : SinkId}
    (hs : s.attachSink sink = some s') : FanInv s' (es ++ [FanEvent.attached sink]) := by
  simp only [FanState.attachSink] at hs
  split at hs
  · cases hs
  · cases hs
    exact {
      sinks := by simp [h.sinks, sinksOf]
      source := h.source.trans (by simp [sourceOf])
      hook := h.hook
      -- a snapshot stays a part of the longer list
      snapshot := fun t call snapshot i ht =>
        (h.snapshot t call snapshot i ht).trans (List.prefix_append _ _)
      exact := h.exact_concat (by simp) (by simp)
      hand := fun t => (inHand_concat t es _).trans (h.hand t)
      inOrder := eachAfter_concat.2 ⟨h.inOrder, trivial⟩
      pumps := h.pumps.trans (by simp [chunksOf])
      bytes := h.bytes.trans (by simp [chunksOf]) }

/-- Bytes of a source without the hook, or none at all, change nothing. -/
theorem FanInv.ignored (h : FanInv s es) {src : SourceId} {data : List UInt8}
    (hout : ¬ (s.hooked src && !data.isEmpty) = true) :
    FanInv s (es ++ [FanEvent.ignored t src data]) where
  sinks := h.sinks.trans (by simp [sinksOf])
  source := h.source.trans (by simp [sourceOf])
  hook := h.hook
  snapshot := h.snapshot
  exact := h.exact_concat (by simp) (by simp)
  hand := fun t' => (inHand_concat t' es _).trans (h.hand t')
  inOrder := by
    refine eachAfter_concat.2 ⟨h.inOrder, ?_⟩
    rcases Decidable.em (data = []) with hnone | hsome
    · exact Or.inl hnone
    · refine Or.inr fun hsource => hout ?_
      rw [(h.hook src).2 (h.source.trans hsource), Bool.true_and]
      simpa using hsome
  pumps := h.pumps.trans (by simp [chunksOf])
  bytes := h.bytes.trans (by simp [chunksOf])

theorem fanInv_rx (h : FanInv s es) {src : SourceId} {data : List UInt8}
    (hs : s.stepRx t src data = some s') : FanInv s' (es ++ fanEmit s (.rx t src data)) := by
  simp only [FanState.stepRx] at hs
  split at hs
  · next hpc =>
    cases hs
    simp only [fanEmit]
    split
    · next hin =>
      have hhook : s.hooked src = true := (Bool.and_eq_true_iff.1 hin).1
      have hnone : inHand t es = none := by rw [h.hand t, hpc]; rfl
      exact {
        sinks := h.sinks.trans (by simp [sinksOf])
        source := h.source.trans (by simp [sourceOf])
        hook := h.hook
        snapshot := snapshot_setPc h.snapshot (fun _ _ _ hcall => by cases hcall) t
        exact := fun t' i => by
          rw [pending_setPc t t' i (by rw [hpc]; rfl) rfl]
          exact h.exact_concat (by simp) (by simp) t' i
        hand := h.hand_setPc (if_pos rfl) fun _ _ hne => if_neg hne
        inOrder := eachAfter_concat.2
          ⟨h.inOrder, h.source.symm.trans ((h.hook src).1 hhook), hnone⟩
        pumps := h.pumps.trans (by simp [chunksOf])
        bytes := h.bytes.trans (by simp [chunksOf]) }
    · next hout => exact h.ignored hout
  · cases hs

theorem fanInv_down (h : FanInv s es) (hs : s.stepDown t = some s') :
    FanInv s' (es ++ fanEmit s (.down t)) := by
  simp only [FanState.stepDown] at hs
  split at hs
  · next hpc =>
    cases hs
    have hnone : inHand t es = none := by rw [h.hand t, hpc]; rfl
    exact {
      sinks := h.sinks.trans (by simp [fanEmit, sinksOf])
      source := h.source.trans (by simp [fanEmit, sourceOf])
      hook := h.hook
      snapshot := snapshot_setPc h.snapshot (fun _ _ _ hcall => by cases hcall) t
      exact := fun t' i => by
        rw [pending_setPc t t' i (by rw [hpc]; rfl) rfl]
        exact h.exact_concat (by simp) (by simp) t' i
      hand := h.hand_setPc (if_pos rfl) fun _ _ hne => if_neg hne
      inOrder := eachAfter_concat.2 ⟨h.inOrder, hnone⟩
      pumps := h.pumps.trans (by simp [fanEmit, chunksOf])
      bytes := h.bytes.trans (by simp [fanEmit, chunksOf]) }
  · cases hs

theorem count_pc (s : FanState) (call : SinkCall) : (s.count call).pc = s.pc := by
  cases call <;> rfl

theorem count_sinks (s : FanState) (call : SinkCall) : (s.count call).sinks = s.sinks := by
  cases call <;> rfl

/-- The counters of a call count its chunk. -/
theorem FanInv.counted (h : FanInv s es) (t : Nat) (call : SinkCall) :
    (s.count call).rxPumpsTotal = UInt32.ofNat (chunksOf (es ++ [FanEvent.taken t call])).length ∧
      (s.count call).rxBytesTotal =
        UInt32.ofNat (chunksOf (es ++ [FanEvent.taken t call])).flatten.length := by
  cases call with
  | rx data =>
    simp only [FanState.count, h.pumps, h.bytes, chunksOf, List.filterMap_append,
      List.filterMap_cons, List.filterMap_nil, List.length_append, List.flatten_append,
      UInt32.ofNat_add]
    simp
  | down => simp [FanState.count, h.pumps, h.bytes, chunksOf]

/-- The snapshot: from here on the call is owed to every slot in use. -/
theorem fanInv_snapshot (h : FanInv s es) (hs : s.stepSnapshot t = some s') :
    FanInv s' (es ++ fanEmit s (.snapshot t)) := by
  simp only [FanState.stepSnapshot] at hs
  split at hs
  · next call hpc =>
    cases hs
    simp only [fanEmit, hpc]
    exact {
      sinks := (count_sinks s call).trans (h.sinks.trans (by simp [sinksOf]))
      source := by
        refine Eq.trans ?_ (h.source.trans (by simp [sourceOf]))
        cases call <;> rfl
      hook := by
        cases call <;> exact h.hook
      snapshot := by
        show ∀ t' c snapshot i, _ → snapshot <+: (s.count call).sinks
        rw [count_sinks]
        refine snapshot_setPc (s := s.count call) (by rw [count_pc]; exact h.snapshot) ?_ t
        intro c snapshot i hcall
        cases hcall
        exact List.prefix_rfl
      exact := fun t' i => by
        rw [owed_taken, handed_concat t' i es (by simp), ← h.sinks]
        rcases eq_or_ne t t' with rfl | hne
        · have hidle := h.exact t i
          rw [hpc] at hidle
          rw [FanState.setPc_self, FanPc.pending, ← hidle]
          by_cases hi : i < s.sinks.length <;> simp [hi, FanPc.pending]
        · rw [FanState.setPc_of_ne _ hne.symm, count_pc, if_neg (by simp [hne])]
          exact h.exact t' i
      hand := fun t' => by
        rw [inHand_concat, inHandStep]
        rcases eq_or_ne t t' with rfl | hne
        · rw [FanState.setPc_self, if_pos rfl]
          rfl
        · rw [FanState.setPc_of_ne _ hne.symm, count_pc, if_neg hne]
          exact h.hand t'
      inOrder := eachAfter_concat.2 ⟨h.inOrder, (h.hand t).trans (by rw [hpc]; rfl)⟩
      pumps := (h.counted t call).1
      bytes := (h.counted t call).2 }
  · cases hs

/-- One turn of the loop: the sink of the next slot gets what it is owed. -/
theorem fanInv_sink (h : FanInv s es) (hs : s.stepSink t = some s') :
    FanInv s' (es ++ fanEmit s (.sink t)) := by
  simp only [FanState.stepSink] at hs
  split at hs
  · next call snapshot i hpc =>
    cases hs
    have hprefix := h.snapshot t call snapshot i hpc
    by_cases hi : i < snapshot.length
    · simp only [fanEmit, hpc, List.getElem?_eq_getElem hi, Option.map_some,
        Option.toList_some, if_pos hi]
      exact {
        sinks := h.sinks.trans (by simp [sinksOf])
        source := h.source.trans (by simp [sourceOf])
        hook := h.hook
        snapshot := by
          refine snapshot_setPc h.snapshot ?_ t
          intro c snap j hcall
          cases hcall
          exact hprefix
        exact := fun t' j => by
          rw [handed_handed, owed_concat t' j es (by simp), ← h.exact t' j]
          rcases eq_or_ne t t' with rfl | hne
          · rw [FanState.setPc_self, hpc, FanPc.pending, FanPc.pending]
            -- slot `i` moves from what is pending to what was handed over
            rcases Nat.lt_trichotomy i j with hlt | rfl | hgt
            · simp [Nat.ne_of_lt hlt, Nat.le_of_lt hlt, Nat.succ_le_of_lt hlt]
            · simp [hi]
            · simp [Nat.ne_of_gt hgt, Nat.not_le_of_lt hgt,
                Nat.not_le_of_lt (Nat.lt_succ_of_lt hgt)]
          · rw [FanState.setPc_of_ne s hne.symm]
            simp [hne]
        hand := fun t' => (inHand_concat t' es _).trans
          (h.hand_move (by rw [hpc]; rfl) rfl t')
        inOrder := by
          refine eachAfter_concat.2 ⟨h.inOrder, ?_⟩
          show (sinksOf es)[i]? = some snapshot[i]
          rw [← h.sinks, ← List.getElem?_eq_getElem hi]
          exact (List.prefix_iff_getElem?.1 hprefix i hi).trans
            (List.getElem?_eq_getElem hi).symm
        pumps := h.pumps.trans (by simp [chunksOf])
        bytes := h.bytes.trans (by simp [chunksOf]) }
    · -- the end of the loop
      have hend : snapshot.length ≤ i := Nat.le_of_not_lt hi
      simp only [fanEmit, hpc, List.getElem?_eq_none hend, Option.map_none,
        Option.toList_none, if_neg hi, List.append_nil]
      exact {
        sinks := h.sinks
        source := h.source
        hook := h.hook
        snapshot := snapshot_setPc h.snapshot (fun _ _ _ hcall => by cases hcall) t
        exact := fun t' j => by
          rw [pending_setPc t t' j ?_ rfl]
          · exact h.exact t' j
          · rw [hpc, FanPc.pending, if_neg (by omega)]
        hand := h.hand_move (by rw [hpc]; rfl) rfl
        inOrder := h.inOrder
        pumps := h.pumps
        bytes := h.bytes }
  · cases hs

theorem fanInv_step {l : FanLabel} (h : FanInv s es) (hs : fanSystem.step s l = some s') :
    FanInv s' (es ++ fanEmit s l) := by
  cases l with
  | attachSource src =>
    cases hs
    exact fanInv_attachSource h src
  | detachSource src =>
    cases hs
    simp only [fanEmit, FanState.detachSource]
    split
    · next hsrc => exact fanInv_detachSource h hsrc
    · rw [List.append_nil]
      exact h
  | attachSink sink => exact fanInv_attachSink h hs
  | rx t src data => exact fanInv_rx h hs
  | down t => exact fanInv_down h hs
  | snapshot t => exact fanInv_snapshot h hs
  | sink t => exact fanInv_sink h hs

/-- **The fan-out is exact.** In every run, whatever the interleaving: what a slot got from a task,
with the call that the task is still handing out, is what that task's calls took since the slot
had its sink, in their order, none twice. What a call takes is what its task came with, be it
bytes or the notice that the source is down. A slot's calls go to the sink attached there, all bytes
of the attached source enter and no others, and the counters are those of the chunks taken. -/
theorem fanout_exact
    (h : (fanSystem.record fanEmit).Reaches (fun _ _ => True) (.init, []) (s, es)) :
    (∀ t i, handed t i es ++ (s.pc t).pending i = owed t i es) ∧
      (∀ t, inHand t es = (s.pc t).inHand) ∧ EachAfter InOrder es ∧
      s.rxPumpsTotal = UInt32.ofNat (chunksOf es).length ∧
      s.rxBytesTotal = UInt32.ofNat (chunksOf es).flatten.length := by
  have hinv : FanInv s es := by
    refine Machine.Reaches.invariant (I := fun p => FanInv p.1 p.2) h fanInv_init ?_
    intro p l q hp _ hstep
    obtain ⟨hs, hes⟩ := Machine.record_step hstep
    rw [hes]
    exact fanInv_step hp hs
  exact ⟨hinv.exact, hinv.hand, hinv.inOrder, hinv.pumps, hinv.bytes⟩

end Fan

/-- A second sink arrives while the first chunk is handed out: it gets the next one only. -/
theorem fanout_exact_late_sink : ∃ s es,
    (fanSystem.record fanEmit).Reaches (fun _ _ => True) (.init, []) (s, es) ∧
      handed 0 1 es = [.rx [66]] ∧ handed 0 0 es = [.rx [65], .rx [66]] ∧ s.rxBytesTotal = 2 := by
  obtain ⟨⟨s, es⟩, hs, h0, h1, hbytes⟩ := Machine.exists_reaches_of_runIf
    (fanSystem.record fanEmit) (fun _ _ => True)
    (fun p => owed 0 0 p.2 = [.rx [65], .rx [66]] ∧ owed 0 1 p.2 = [.rx [66]] ∧
      p.1.pc 0 = .idle ∧ (chunksOf p.2).flatten = [65, 66])
    (FanState.init, [])
    [.attachSource 7, .attachSink 10, .rx 0 7 [65], .snapshot 0, .attachSink 20, .sink 0, .sink 0,
      .rx 0 7 [66], .snapshot 0, .sink 0, .sink 0, .sink 0] (by decide)
  obtain ⟨hexact, -, -, -, hrx⟩ := fanout_exact hs
  have hidle : s.pc 0 = .idle := hbytes.1
  have hslot : ∀ i, handed 0 i es = owed 0 i es := by
    intro i
    have hi := hexact 0 i
    rw [hidle] at hi
    simpa [FanPc.pending] using hi
  refine ⟨s, es, hs, (hslot 1).trans h1, (hslot 0).trans h0, ?_⟩
  rw [hrx, hbytes.2]
  rfl

end Cdc2Net.Bridge
