import Cdc2Net.Bridge.TxLock

/-!
# The TX master

`bridge_attach_sink`, `bridge_set_tx_master` and `bridge_get_tx_info` of `bridge.c` beside the
transmissions of `bridge_tx_to_source`: pinning, releasing, new sinks and the four steps of any
number of calls come in any order. A pin holds from the section that sets it to the section that
changes it, whoever tries; in AUTO mode the owner is the last sink that was let pass.
-/

set_option autoImplicit false

namespace Cdc2Net.Bridge

open Cdc2Net.Lib.Transition

/-- `BRIDGE_SINK_ID_MAXLEN`. -/
def bridgeSinkIdMaxlen : Nat := 16

/-- The characters of a C string, without its NUL. -/
abbrev Id := List UInt8

/-- `"auto"` -/
def autoId : Id := [97, 117, 116, 111]

/-- The bridge with its `sink_ids`, and the tasks in `bridge_tx_to_source`. -/
structure MasterState where
  tx : TxState
  sinkIds : List Id

/-- After `bridge_init`. -/
def MasterState.init (now : Int) : MasterState := ⟨.start (bridgeInit []) now, []⟩

namespace MasterState

/-- `find_sink_id_locked` -/
def findSinkIdLocked (s : MasterState) (id : Id) : Option Nat :=
  s.sinkIds.findIdx? fun sinkId => !sinkId.isEmpty && sinkId == id

/-- `bridge_attach_sink`: a NULL id is stored as the empty string, a long one is cut. `none` is
`ESP_ERR_NO_MEM`. -/
def attachSink (s : MasterState) (sink : SinkId) (shortId : Option Id) : Option MasterState :=
  if bridgeMaxSinks ≤ s.tx.bridge.sinks.length then none
  else some {
    tx := { s.tx with bridge := { s.tx.bridge with sinks := s.tx.bridge.sinks ++ [sink] } }
    sinkIds := s.sinkIds ++ [(shortId.getD []).take (bridgeSinkIdMaxlen - 1)] }

/-- The section that sets mode and owner. -/
def setOwner (s : MasterState) (mode : TxMode) (owner : Option Nat) : MasterState :=
  { s with tx := { s.tx with bridge := { s.tx.bridge with txMode := mode, txOwnerIdx := owner } } }

/-- `bridge_set_tx_master`; `false` is `ESP_ERR_NOT_FOUND`. -/
def setTxMaster (s : MasterState) (idOrAuto : Option Id) : Bool × MasterState :=
  match idOrAuto with
  | none => (true, s.setOwner .auto none)
  | some id =>
    if id.isEmpty ∨ id = autoId then (true, s.setOwner .auto none)
    else
      match s.findSinkIdLocked id with
      | none => (false, s)
      | some idx => (true, s.setOwner .pinned (some idx))

/-- `bridge_tx_info_t`, less the counters. -/
structure TxInfo where
  mode : TxMode
  ownerIdx : Option Nat
  ownerId : Id
  ids : List Id
  deriving DecidableEq, Repr

/-- `bridge_get_tx_info`: `owner_id` stays empty without an owner in the list. -/
def getTxInfo (s : MasterState) : TxInfo where
  mode := s.tx.bridge.txMode
  ownerIdx := s.tx.bridge.txOwnerIdx
  ownerId := (s.tx.bridge.txOwnerIdx.bind fun idx => s.sinkIds[idx]?).getD []
  ids := s.sinkIds

end MasterState

/-- The steps of the bridge. -/
inductive MasterLabel where
  | tx (l : TxLabel)
  | attachSink (sink : SinkId) (shortId : Option Id)
  | setTxMaster (idOrAuto : Option Id)
  deriving DecidableEq, Repr

/-- The bridge; task `t` transmits for `who t`. -/
def masterSystem (who : Nat → Option SinkId) : Machine MasterState MasterLabel where
  step s
    | .tx l => ((txSystem who).step s.tx l).map fun tx => { s with tx }
    | .attachSink sink shortId => s.attachSink sink shortId
    | .setTxMaster idOrAuto => some (s.setTxMaster idOrAuto).2

/-! ## Who holds the lock -/

/-- What a run shows of the lock. -/
inductive MasterEvent where
  /-- The next slot got a sink, under this id. -/
  | attached (sink : SinkId) (id : Id)
  /-- `bridge_set_tx_master` was called, and whether it returned `ESP_OK`. -/
  | master (idOrAuto : Option Id) (ok : Bool)
  /-- The lock section of a task, and whether it let the task pass. -/
  | checked (t : Nat) (sink : SinkId) (passed : Bool)
  deriving DecidableEq, Repr

/-- What a step adds to the history. -/
def masterEmit (who : Nat → Option SinkId) (s : MasterState) : MasterLabel → List MasterEvent
  | .tx (.check t) =>
    match who t with
    | none => []
    | some k => [.checked t k (s.tx.bridge.txAllowed k s.tx.now)]
  | .tx _ => []
  | .attachSink sink shortId =>
    [.attached sink ((shortId.getD []).take (bridgeSinkIdMaxlen - 1))]
  | .setTxMaster idOrAuto => [.master idOrAuto (s.setTxMaster idOrAuto).1]

/-- The lock as a history leaves it. -/
structure Lock where
  /-- The sinks, slot by slot, with their ids. -/
  slots : List (SinkId × Id)
  mode : TxMode
  owner : Option Nat
  deriving DecidableEq, Repr

/-- The slot of a sink. -/
def Lock.slotOf (l : Lock) (k : SinkId) : Option Nat := l.slots.findIdx? fun slot => slot.1 = k

/-- The first slot with an id. -/
def Lock.slotNamed (l : Lock) (id : Id) : Option Nat := l.slots.findIdx? fun slot => slot.2 = id

/-- The call releases the lock; any other names the sink to pin. -/
def IsAuto (idOrAuto : Option Id) : Prop :=
  idOrAuto = none ∨ idOrAuto = some [] ∨ idOrAuto = some autoId

instance decidableIsAuto (idOrAuto : Option Id) : Decidable (IsAuto idOrAuto) :=
  inferInstanceAs (Decidable (_ ∨ _ ∨ _))

/-- What an event does to the lock. -/
def Lock.after (l : Lock) : MasterEvent → Lock
  | .attached sink id => { l with slots := l.slots ++ [(sink, id)] }
  | .master idOrAuto ok =>
    if ok = false then l
    else if IsAuto idOrAuto then { l with mode := .auto, owner := none }
    else { l with mode := .pinned, owner := idOrAuto.bind l.slotNamed }
  | .checked _ k passed =>
    if passed = true ∧ l.mode = .auto then { l with owner := l.slotOf k } else l

/-- The lock at the end of a history. -/
def lockOf (es : List MasterEvent) : Lock := es.foldl Lock.after ⟨[], .auto, none⟩

/-- An event respects the lock. A release is granted, and a pin if and only if a sink is attached
under the id. While a pin holds, the check passes the sink of its slot and no other. In AUTO mode
the check passes the owner, and any attached sink while there is none. -/
def Respects (pre : List MasterEvent) : MasterEvent → Prop
  | .master idOrAuto ok =>
    ok = true ↔ IsAuto idOrAuto ∨ ∃ slot ∈ (lockOf pre).slots, idOrAuto = some slot.2
  | .checked _ k passed =>
    match (lockOf pre).mode, (lockOf pre).owner with
    | .pinned, owner => passed = true ↔ ∃ idx, owner = some idx ∧ (lockOf pre).slotOf k = some idx
    | .auto, none => passed = ((lockOf pre).slotOf k).isSome
    | .auto, some idx => (lockOf pre).slotOf k = some idx → passed = true
  | _ => True

/-- What `bridge_get_tx_info` is to report of the lock. -/
def Lock.info (l : Lock) : MasterState.TxInfo where
  mode := l.mode
  ownerIdx := l.owner
  ownerId := (l.owner.bind fun idx => (l.slots.map Prod.snd)[idx]?).getD []
  ids := l.slots.map Prod.snd

/-- The bridge has the lock of the history. -/
structure HasLock (s : MasterState) (l : Lock) : Prop where
  sinks : s.tx.bridge.sinks = l.slots.map Prod.fst
  ids : s.sinkIds = l.slots.map Prod.snd
  mode : s.tx.bridge.txMode = l.mode
  owner : s.tx.bridge.txOwnerIdx = l.owner

section Master

variable {who : Nat → Option SinkId} {s s' : MasterState} {lock : Lock} {t : Nat}

theorem HasLock.info (h : HasLock s lock) : s.getTxInfo = lock.info := by
  simp only [MasterState.getTxInfo, Lock.info, h.ids, h.mode, h.owner]

theorem HasLock.slotOf (h : HasLock s lock) (k : SinkId) :
    s.tx.bridge.findSinkIdxLocked k = lock.slotOf k := by
  rw [BridgeState.findSinkIdxLocked, h.sinks, List.findIdx?_map, Lock.slotOf]
  rfl

/-- Steps that leave the sinks, the mode and the owner keep the lock. -/
theorem HasLock.keep (h : HasLock s lock) {tx : TxState}
    (hsinks : tx.bridge.sinks = s.tx.bridge.sinks) (hmode : tx.bridge.txMode = s.tx.bridge.txMode)
    (howner : tx.bridge.txOwnerIdx = s.tx.bridge.txOwnerIdx) :
    HasLock { s with tx } lock where
  sinks := hsinks.trans h.sinks
  ids := h.ids
  mode := hmode.trans h.mode
  owner := howner.trans h.owner

theorem lockOf_concat (es : List MasterEvent) (e : MasterEvent) :
    lockOf (es ++ [e]) = (lockOf es).after e := by
  rw [lockOf, List.foldl_append, List.foldl_cons, List.foldl_nil, lockOf]

/-- The lock section of a sink, in the terms of the lock. -/
theorem HasLock.allowed (h : HasLock s lock) (k : SinkId) (now : Int) :
    s.tx.bridge.txAllowed k now = true ↔ ∃ idx, lock.slotOf k = some idx ∧
      (lock.owner = some idx ∨ lock.mode = .auto ∧ s.tx.bridge.txIdle now = true) := by
  rw [BridgeState.txAllowed, h.slotOf, h.mode, h.owner]
  cases lock.slotOf k with
  | none => simp
  | some idx =>
    cases lock.mode with
    | pinned => simp
    | auto =>
      simp only [Bool.or_eq_true, decide_eq_true_eq, Option.some.injEq, exists_eq_left', true_and]
      exact or_comm

theorem HasLock.respects_checked (h : HasLock s lock) {es : List MasterEvent}
    (hlock : lock = lockOf es) (k : SinkId) (now : Int) :
    Respects es (.checked t k (s.tx.bridge.txAllowed k now)) := by
  subst hlock
  have hallowed := h.allowed k now
  simp only [Respects]
  split
  · next hmode =>
    -- pinned: no silence frees the lock
    rw [hallowed, hmode]
    simp [and_comm]
  · next hmode howner =>
    have hidle : s.tx.bridge.txIdle now = true := by
      rw [BridgeState.txIdle, h.owner, howner]
      rfl
    rw [Bool.eq_iff_iff, hallowed, hmode, howner, hidle]
    simp [Option.isSome_iff_exists]
  · next idx hmode howner =>
    intro hslot
    rw [hallowed, howner]
    exact ⟨idx, hslot, Or.inl rfl⟩

/-- The lock section moves the owner as the history says. -/
theorem HasLock.lockCheck (h : HasLock s lock) (k : SinkId) (pc : TxPc) :
    HasLock { s with tx :=
        { s.tx.setPc t pc with bridge := (s.tx.bridge.lockCheck k s.tx.now).2 } }
      (lock.after (.checked t k (s.tx.bridge.txAllowed k s.tx.now))) := by
  rw [BridgeState.lockCheck, Lock.after]
  cases hallowed : s.tx.bridge.txAllowed k s.tx.now with
  | false =>
    simp only [Bool.false_eq_true, if_false, false_and]
    exact h.keep rfl rfl rfl
  | true =>
    simp only [if_true, true_and]
    cases hmode : lock.mode with
    | pinned =>
      rw [if_neg TxMode.noConfusion]
      refine h.keep rfl rfl ?_
      show s.tx.bridge.claimedOwner k = s.tx.bridge.txOwnerIdx
      rw [BridgeState.claimedOwner, h.mode, hmode]
    | auto =>
      rw [if_pos rfl]
      refine ⟨h.sinks, h.ids, h.mode.trans hmode, ?_⟩
      show s.tx.bridge.claimedOwner k = lock.slotOf k
      rw [BridgeState.claimedOwner, h.mode, hmode, h.slotOf]

/-- The search finds the first slot with the id. -/
theorem HasLock.findSinkIdLocked (h : HasLock s lock) {id : Id} (hid : id ≠ []) :
    s.findSinkIdLocked id = lock.slotNamed id := by
  rw [MasterState.findSinkIdLocked, h.ids, List.findIdx?_map, Lock.slotNamed]
  congr 1
  funext slot
  rw [Function.comp_apply, Bool.eq_iff_iff]
  simp only [Bool.and_eq_true, Bool.not_eq_true', List.isEmpty_eq_false_iff, beq_iff_eq,
    decide_eq_true_eq]
  refine ⟨And.right, fun heq => ⟨?_, heq⟩⟩
  rw [heq]
  exact hid

/-- There is a slot with the id if the search finds one. -/
theorem Lock.slotNamed_isSome (l : Lock) (id : Id) :
    (l.slotNamed id).isSome = true ↔ ∃ slot ∈ l.slots, some id = some slot.2 := by
  rw [Lock.slotNamed, List.findIdx?_isSome, List.any_eq_true]
  simp [eq_comm]

theorem hasLock_tx {l : TxLabel} {tx : TxState} {es : List MasterEvent}
    (h : HasLock s (lockOf es)) (hes : EachAfter Respects es)
    (hs : (txSystem who).step s.tx l = some tx) :
    HasLock { s with tx } (lockOf (es ++ masterEmit who s (.tx l))) ∧
      EachAfter Respects (es ++ masterEmit who s (.tx l)) := by
  cases l with
  | check t =>
    have hcheck : TxState.stepCheck (who t) s.tx t = some tx := hs
    simp only [TxState.stepCheck] at hcheck
    split at hcheck
    · next len hpc =>
      cases hwho : who t with
      | none =>
        simp only [hwho] at hcheck
        cases hcheck
        simp only [masterEmit, hwho, List.append_nil]
        exact ⟨h.keep rfl rfl rfl, hes⟩
      | some k =>
        simp only [hwho] at hcheck
        cases hcheck
        simp only [masterEmit, hwho]
        exact ⟨lockOf_concat es _ ▸ h.lockCheck k _,
          eachAfter_concat.2 ⟨hes, h.respects_checked rfl k _⟩⟩
    · cases hcheck
  | call t len ready =>
    have hcall : s.tx.stepCall t len ready = some tx := hs
    simp only [TxState.stepCall] at hcall
    simp only [masterEmit, List.append_nil]
    split at hcall
    · split at hcall <;> cases hcall <;> exact ⟨h.keep rfl rfl rfl, hes⟩
    · cases hcall
  | ret t ok =>
    have hret : TxState.stepRet (who t) s.tx t ok = some tx := hs
    simp only [TxState.stepRet] at hret
    simp only [masterEmit, List.append_nil]
    split at hret
    · split at hret <;> cases hret <;> exact ⟨h.keep rfl rfl rfl, hes⟩
    · cases hret
  | stamp t =>
    have hstamp : s.tx.stepStamp t = some tx := hs
    simp only [TxState.stepStamp] at hstamp
    simp only [masterEmit, List.append_nil]
    split at hstamp
    · cases hstamp
      exact ⟨h.keep rfl rfl rfl, hes⟩
    · cases hstamp
  | tick us =>
    cases hs
    simp only [masterEmit, List.append_nil]
    exact ⟨h.keep rfl rfl rfl, hes⟩

/-- A release is granted and frees the lock. -/
theorem HasLock.setTxMaster_auto (h : HasLock s lock) {idOrAuto : Option Id}
    (hauto : IsAuto idOrAuto) : (s.setTxMaster idOrAuto).1 = true ∧
      HasLock (s.setTxMaster idOrAuto).2 (lock.after (.master idOrAuto true)) := by
  have hset : s.setTxMaster idOrAuto = (true, s.setOwner .auto none) := by
    rcases hauto with rfl | rfl | rfl <;> rfl
  have hafter : lock.after (.master idOrAuto true) = { lock with mode := .auto, owner := none } :=
    if_pos hauto
  rw [hset, hafter]
  exact ⟨rfl, h.sinks, h.ids, rfl, rfl⟩

/-- A pin is granted if a slot has the id, and then names the first of them. -/
theorem HasLock.setTxMaster_pin (h : HasLock s lock) {id : Id} (hpin : ¬ IsAuto (some id)) :
    ((s.setTxMaster (some id)).1 = true ↔ ∃ slot ∈ lock.slots, some id = some slot.2) ∧
      HasLock (s.setTxMaster (some id)).2
        (lock.after (.master (some id) (s.setTxMaster (some id)).1)) := by
  have hid : id ≠ [] := fun hnil => hpin (Or.inr (Or.inl (congrArg some hnil)))
  have hword : id ≠ autoId := fun hauto => hpin (Or.inr (Or.inr (congrArg some hauto)))
  rw [← lock.slotNamed_isSome, ← h.findSinkIdLocked hid]
  rw [MasterState.setTxMaster, if_neg (by simp [hid, hword])]
  cases hfind : s.findSinkIdLocked id with
  | none => exact ⟨by simp, h⟩
  | some idx =>
    have hafter : lock.after (.master (some id) true) =
        { lock with mode := .pinned, owner := some idx } := by
      rw [← hfind, h.findSinkIdLocked hid]
      exact if_neg hpin
    dsimp only
    rw [hafter]
    exact ⟨by simp, h.sinks, h.ids, rfl, rfl⟩

theorem hasLock_setTxMaster {es : List MasterEvent} (h : HasLock s (lockOf es))
    (hes : EachAfter Respects es) (idOrAuto : Option Id) :
    HasLock (s.setTxMaster idOrAuto).2 (lockOf (es ++ masterEmit who s (.setTxMaster idOrAuto))) ∧
      EachAfter Respects (es ++ masterEmit who s (.setTxMaster idOrAuto)) := by
  rw [masterEmit, lockOf_concat, eachAfter_concat]
  rcases Decidable.em (IsAuto idOrAuto) with hauto | hpin
  · obtain ⟨hok, hlock⟩ := h.setTxMaster_auto hauto
    rw [hok]
    exact ⟨hlock, hes, by simp [Respects, hauto]⟩
  · cases idOrAuto with
    | none => exact absurd (Or.inl rfl) hpin
    | some id =>
      obtain ⟨hok, hlock⟩ := h.setTxMaster_pin hpin
      refine ⟨hlock, hes, hok.trans ⟨Or.inr, fun hgranted => ?_⟩⟩
      exact hgranted.resolve_left hpin

theorem hasLock_attachSink {es : List MasterEvent} (h : HasLock s (lockOf es)) {sink : SinkId}
    {shortId : Option Id} (hs : s.attachSink sink shortId = some s') :
    HasLock s' (lockOf (es ++ masterEmit who s (.attachSink sink shortId))) := by
  simp only [MasterState.attachSink] at hs
  split at hs
  · cases hs
  · cases hs
    rw [masterEmit, lockOf_concat]
    exact ⟨by simp [h.sinks, Lock.after], by simp [h.ids, Lock.after], h.mode, h.owner⟩

/-- **The lock follows the history.** Whatever the order of pins, releases, new sinks and steps of
the transmissions: `bridge_set_tx_master` pins the first slot of the id it is asked for, or refuses
where no sink has it; while the pin holds a lock section passes that slot's sink and no other; and
`bridge_get_tx_info` reports the lock of the history. -/
theorem master_respected {now : Int} {es : List MasterEvent}
    (h : ((masterSystem who).record (masterEmit who)).Reaches (fun _ _ => True)
      (.init now, []) (s, es)) :
    EachAfter Respects es ∧ s.getTxInfo = (lockOf es).info := by
  have hinv : HasLock s (lockOf es) ∧ EachAfter Respects es := by
    refine Machine.Reaches.invariant
      (I := fun p => HasLock p.1 (lockOf p.2) ∧ EachAfter Respects p.2) h
      ⟨⟨rfl, rfl, rfl, rfl⟩, eachAfter_nil⟩ ?_
    rintro p l q ⟨hlock, hes⟩ _ hstep
    obtain ⟨hs, hhist⟩ := Machine.record_step hstep
    rw [hhist]
    cases l with
    | tx l =>
      obtain ⟨tx, htx, hq⟩ := Option.map_eq_some_iff.1 hs
      rw [← hq]
      exact hasLock_tx hlock hes htx
    | attachSink sink shortId =>
      exact ⟨hasLock_attachSink hlock hs, eachAfter_concat.2 ⟨hes, trivial⟩⟩
    | setTxMaster idOrAuto =>
      have hq : q.1 = (p.1.setTxMaster idOrAuto).2 := (Option.some.inj hs).symm
      rw [hq]
      exact hasLock_setTxMaster hlock hes idOrAuto
  exact ⟨hinv.2, hinv.1.info⟩

end Master

/-- The sink of slot 1 is pinned; after a minute of silence slot 0 still does not pass. -/
theorem master_respected_pin : ∃ s es,
    ((masterSystem fun t => some t).record (masterEmit fun t => some t)).Reaches (fun _ _ => True)
      (.init 0, []) (s, es) ∧ .checked 0 0 false ∈ es ∧ s.getTxInfo.ownerId = [66] := by
  obtain ⟨⟨s, es⟩, hs, hmem, hinfo⟩ := Machine.exists_reaches_of_runIf
    ((masterSystem fun t => some t).record (masterEmit fun t => some t)) (fun _ _ => True)
    (fun p => .checked 0 0 false ∈ p.2 ∧ (lockOf p.2).info.ownerId = [66])
    (MasterState.init 0, [])
    [.attachSink 0 (some [65]), .attachSink 1 (some [66]), .setTxMaster (some [66]),
      .tx (.tick 60000000), .tx (.call 0 4 true), .tx (.check 0)] (by decide)
  exact ⟨s, es, hs, hmem, by rw [(master_respected hs).2]; exact hinfo⟩

end Cdc2Net.Bridge
