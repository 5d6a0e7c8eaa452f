import Cdc2Net.Improv.Networks
import Cdc2Net.Lib.WrapClock

/-!
# The provisioning window

The state of `ImprovWiFi` and its public calls. The window opens with the object; the first
tick sets its deadline, and the first tick from the deadline on closes it for good
(`window_closes`). The clock wraps, so the deadline is compared by a signed difference.
-/

set_option autoImplicit false

namespace Cdc2Net.Improv

open Cdc2Net.Lib
open Cdc2Net.Lib.WrapClock

/-- The members of `ImprovWiFi` that change; `buf` is `buf_` below `pos_`. -/
structure ImprovWiFi where
  buf : Bytes
  armed : Bool
  clockAnchored : Bool
  deadlineMs : UInt32
  scanPhase : ScanPhase

/-- The constructor. -/
def ImprovWiFi.init : ImprovWiFi := ⟨[], true, false, 0, .idle⟩

section Calls

variable (cfg : Config)

/-- `parseByte_` and what it dispatches, which is one frame at most. -/
def parseDispatch (w : ImprovWiFi) (b : UInt8) (env : Backend) : ImprovWiFi × List Effect :=
  match (parseByte w.buf b).2 with
  | [] => ({ w with buf := (parseByte w.buf b).1 }, [])
  | f :: _ =>
    ({ w with
        buf := (parseByte w.buf b).1
        scanPhase := (onCompletePacket cfg env w.scanPhase f).1 },
      (onCompletePacket cfg env w.scanPhase f).2)

/-- `feedByte`. -/
def feedByte (w : ImprovWiFi) (b : UInt8) (env : Backend) : ImprovWiFi × List Effect :=
  if ¬ w.armed then (w, []) else parseDispatch cfg w b env

/-- The loop of `feedBytes`; each byte comes with what the backend answers at it. -/
def feedLoop (w : ImprovWiFi) : List (UInt8 × Backend) → ImprovWiFi × List Effect
  | [] => (w, [])
  | (b, env) :: data =>
    ((feedLoop (parseDispatch cfg w b env).1 data).1,
      (parseDispatch cfg w b env).2 ++ (feedLoop (parseDispatch cfg w b env).1 data).2)

/-- `feedBytes` of the object. -/
def feed (w : ImprovWiFi) (data : List (UInt8 × Backend)) : ImprovWiFi × List Effect :=
  if ¬ w.armed then (w, []) else feedLoop cfg w data

/-- The first tick sets the deadline. -/
def anchor (w : ImprovWiFi) (nowMs : UInt32) : ImprovWiFi :=
  if ¬ w.clockAnchored then { w with clockAnchored := true, deadlineMs := nowMs + cfg.windowMs }
  else w

/-- `tick`. -/
def tick (w : ImprovWiFi) (nowMs : UInt32) (env : Backend) : ImprovWiFi × List Effect :=
  if ¬ w.armed then (w, [])
  else
    let w := anchor cfg w nowMs
    if 0 ≤ (nowMs - w.deadlineMs).toInt32 then
      ({ w with armed := false, buf := [], scanPhase := .idle },
        if w.scanPhase ≠ .idle ∧ cfg.backend then [.clearScan] else [])
    else
      ({ w with scanPhase := (pumpScan cfg env w.scanPhase).1 },
        (pumpScan cfg env w.scanPhase).2)

/-- `windowMsRemaining`. -/
def windowMsRemaining (w : ImprovWiFi) (nowMs : UInt32) : UInt32 :=
  if ¬ w.armed then 0
  else if ¬ w.clockAnchored then cfg.windowMs
  else if 0 < (w.deadlineMs - nowMs).toInt32 then w.deadlineMs - nowMs else 0

/-- A call from the application; a tick at a true time. -/
inductive Call where
  | feedByte (b : UInt8) (env : Backend)
  | feedBytes (data : List (UInt8 × Backend))
  | tick (t : Nat) (env : Backend)

/-- What a call does. -/
def call (w : ImprovWiFi) : Call → ImprovWiFi × List Effect
  | .feedByte b env => feedByte cfg w b env
  | .feedBytes data => feed cfg w data
  | .tick t env => tick cfg w (shown t) env

/-- The object after these calls. -/
def after (calls : List Call) : ImprovWiFi := calls.foldl (fun w c => (call cfg w c).1) .init

/-- The times of the ticks. -/
def tickTimes (calls : List Call) : List Nat :=
  calls.filterMap fun
    | .tick t _ => some t
    | _ => none

/-- The true time of the deadline, once there has been a tick. -/
def deadline (calls : List Call) : Option Nat :=
  (tickTimes calls).head?.map (· + cfg.windowMs.toNat)

/-- A time less than 2^31 ms from the deadline. -/
def Near (calls : List Call) (t : Nat) : Prop :=
  ∀ d, deadline cfg calls = some d → t < d + 2 ^ 31 ∧ d < t + 2 ^ 31

end Calls

section Window

variable {cfg : Config} {w : ImprovWiFi} {b : UInt8} {env : Backend} {calls : List Call} {t d : Nat}

/-! ## One call -/

/-- A call leaves the window and its deadline alone, a tick apart. -/
def SameWindow (w w' : ImprovWiFi) : Prop :=
  w'.armed = w.armed ∧ w'.clockAnchored = w.clockAnchored ∧ w'.deadlineMs = w.deadlineMs

theorem sameWindow_parseDispatch (cfg : Config) (w : ImprovWiFi) (b : UInt8) (env : Backend) :
    SameWindow w (parseDispatch cfg w b env).1 := by
  rw [parseDispatch]
  split <;> exact ⟨rfl, rfl, rfl⟩

theorem sameWindow_feedLoop (data : List (UInt8 × Backend)) :
    SameWindow w (feedLoop cfg w data).1 := by
  induction data generalizing w with
  | nil => exact ⟨rfl, rfl, rfl⟩
  | cons p data ih =>
    obtain ⟨b, env⟩ := p
    obtain ⟨harmed, hanchored, hdeadline⟩ := sameWindow_parseDispatch cfg w b env
    obtain ⟨harmed', hanchored', hdeadline'⟩ := ih (w := (parseDispatch cfg w b env).1)
    exact ⟨harmed'.trans harmed, hanchored'.trans hanchored, hdeadline'.trans hdeadline⟩

/-- A closed window is closed for good, and nothing is done. -/
theorem call_closed (h : w.armed = false) (c : Call) : call cfg w c = (w, []) := by
  have hno : ¬ w.armed = true := by rw [h]; decide
  cases c with
  | feedByte b env => exact if_pos hno
  | feedBytes data => exact if_pos hno
  | tick t env => exact if_pos hno

theorem anchor_keeps (cfg : Config) (w : ImprovWiFi) (nowMs : UInt32) :
    (anchor cfg w nowMs).armed = w.armed ∧ (anchor cfg w nowMs).clockAnchored = true ∧
      (anchor cfg w nowMs).scanPhase = w.scanPhase := by
  rw [anchor]
  split
  · exact ⟨rfl, rfl, rfl⟩
  · next h => exact ⟨rfl, by simpa using h, rfl⟩

/-- A tick of an open window that has its deadline at the true time `d`. -/
theorem tick_open (h : w.armed = true) (hd : (anchor cfg w (shown t)).deadlineMs = shown d)
    (hlate : t < d + 2 ^ 31) (hearly : d < t + 2 ^ 31) (env : Backend) :
    (tick cfg w (shown t) env).1.clockAnchored = true ∧
      (tick cfg w (shown t) env).1.deadlineMs = shown d ∧
      ((tick cfg w (shown t) env).1.armed = true ↔ t < d) ∧
      (d ≤ t → (tick cfg w (shown t) env).1.scanPhase = .idle ∧
        (tick cfg w (shown t) env).2 =
          if w.scanPhase ≠ .idle ∧ cfg.backend then [.clearScan] else []) := by
  have hsign := nonneg_sub_iff hlate hearly.le
  obtain ⟨harmed, hanchored, hscan⟩ := anchor_keeps cfg w (shown t)
  rw [tick, if_neg (not_not_intro h)]
  dsimp only
  rw [hd]
  by_cases hlt : t < d
  · rw [if_neg (by rw [hsign]; omega)]
    exact ⟨hanchored, rfl, by simp [harmed, h, hlt], fun hle => by omega⟩
  · rw [if_pos (hsign.2 (by omega))]
    exact ⟨hanchored, rfl, by simp [hlt], fun _ => ⟨rfl, by rw [hscan]⟩⟩

/-! ## Runs -/

/-- The object after calls whose ticks are near the deadline. -/
structure Tracks (cfg : Config) (calls : List Call) (w : ImprovWiFi) : Prop where
  anchored : w.clockAnchored = (deadline cfg calls).isSome
  deadline : ∀ d, deadline cfg calls = some d → w.deadlineMs = shown d
  armed : w.armed = true ↔ ∀ d, Improv.deadline cfg calls = some d →
    ∀ t ∈ tickTimes calls, t < d

theorem after_concat (calls : List Call) (c : Call) :
    after cfg (calls ++ [c]) = (call cfg (after cfg calls) c).1 := by
  rw [after, List.foldl_append]
  rfl

theorem tickTimes_append (calls calls' : List Call) :
    tickTimes (calls ++ calls') = tickTimes calls ++ tickTimes calls' := List.filterMap_append

/-- The deadline stands once it is set. -/
theorem deadline_append (h : deadline cfg calls = some d) (calls' : List Call) :
    deadline cfg (calls ++ calls') = some d := by
  rw [deadline, Option.map_eq_some_iff] at h ⊢
  obtain ⟨t, ht, rfl⟩ := h
  refine ⟨t, ?_, rfl⟩
  rw [tickTimes_append, List.head?_append, ht]
  rfl

theorem tickTimes_eq_nil (h : deadline cfg calls = none) : tickTimes calls = [] := by
  rw [deadline, Option.map_eq_none_iff, List.head?_eq_none_iff] at h
  exact h

/-- The deadline at a tick. -/
theorem deadline_tick (cfg : Config) (calls : List Call) (t : Nat) (env : Backend) :
    deadline cfg (calls ++ [Call.tick t env]) =
      some ((deadline cfg calls).getD (t + cfg.windowMs.toNat)) := by
  cases hd : deadline cfg calls with
  | some d => exact deadline_append hd _
  | none =>
    rw [deadline, tickTimes_append, tickTimes_eq_nil hd]
    rfl

/-- Feeding changes neither the window nor the ticks. -/
theorem Tracks.same {w' : ImprovWiFi} (h : Tracks cfg calls w) (hsame : SameWindow w w') {c : Call}
    (hc : tickTimes [c] = []) : Tracks cfg (calls ++ [c]) w' := by
  have htimes : tickTimes (calls ++ [c]) = tickTimes calls := by
    rw [tickTimes_append, hc, List.append_nil]
  have hdeadline : Improv.deadline cfg (calls ++ [c]) = Improv.deadline cfg calls := by
    rw [Improv.deadline, Improv.deadline, htimes]
  obtain ⟨harmed, hanchored, hd⟩ := hsame
  constructor
  · rw [hanchored, h.anchored, hdeadline]
  · rw [hdeadline, hd]
    exact h.deadline
  · rw [harmed, hdeadline, htimes]
    exact h.armed

theorem Tracks.tick (h : Tracks cfg calls w) (t : Nat) (env : Backend)
    (hnear : Near cfg (calls ++ [Call.tick t env]) t) :
    Tracks cfg (calls ++ [Call.tick t env]) (Improv.tick cfg w (shown t) env).1 ∧
      (w.armed = true → (Improv.tick cfg w (shown t) env).1.armed = false →
        (Improv.tick cfg w (shown t) env).1.scanPhase = .idle ∧
        (Improv.tick cfg w (shown t) env).2 =
          if w.scanPhase ≠ .idle ∧ cfg.backend then [.clearScan] else []) := by
  have hdeadline := deadline_tick cfg calls t env
  have htimes : tickTimes (calls ++ [Call.tick t env]) = tickTimes calls ++ [t] :=
    tickTimes_append calls _
  generalize hd : (Improv.deadline cfg calls).getD (t + cfg.windowMs.toNat) = d at hdeadline
  obtain ⟨hlate, hearly⟩ := hnear d hdeadline
  cases harmed : w.armed with
  | false =>
    have hclosed : Improv.tick cfg w (shown t) env = (w, []) :=
      call_closed harmed (.tick t env)
    have hpast : ¬ ∀ d, Improv.deadline cfg calls = some d → ∀ t ∈ tickTimes calls, t < d := by
      rw [← h.armed, harmed]
      decide
    -- a closed window has its deadline
    obtain ⟨d', hd', hpassed⟩ : ∃ d, Improv.deadline cfg calls = some d ∧
        ∃ t ∈ tickTimes calls, ¬ t < d := by
      simpa using hpast
    have hsame : d' = d := by
      rw [hd'] at hd
      exact hd
    subst hsame
    rw [hclosed]
    refine ⟨⟨?_, ?_, ?_⟩, fun hno => absurd hno (by decide)⟩
    · rw [h.anchored, hd', hdeadline]
    · intro d'' hd''
      rw [hdeadline, Option.some.injEq] at hd''
      rw [← hd'', h.deadline d' hd']
    · rw [harmed]
      refine ⟨fun hno => (by cases hno), fun hall => ?_⟩
      obtain ⟨t', ht', hge⟩ := hpassed
      refine absurd (hall d' hdeadline t' ?_) hge
      rw [htimes]
      exact List.mem_append_left _ ht'
  | true =>
    have hshown : (anchor cfg w (shown t)).deadlineMs = shown d := by
      rw [anchor, h.anchored]
      cases hprev : Improv.deadline cfg calls with
      | none =>
        rw [hprev] at hd
        rw [← hd]
        exact shown_add t cfg.windowMs
      | some d' =>
        rw [hprev] at hd
        obtain rfl : d' = d := hd
        exact h.deadline d' hprev
    obtain ⟨hanchored, hdl, hopen, hclose⟩ := tick_open harmed hshown hlate hearly env
    refine ⟨⟨?_, ?_, ?_⟩, fun _ hno => hclose ?_⟩
    · rw [hanchored, hdeadline]
      rfl
    · intro d' hd'
      rw [hdeadline] at hd'
      cases hd'
      exact hdl
    · rw [hopen]
      constructor
      · intro hlt d' hd' t' ht'
        rw [hdeadline] at hd'
        cases hd'
        rw [htimes, List.mem_append, List.mem_singleton] at ht'
        rcases ht' with hold | rfl
        · cases hprev : Improv.deadline cfg calls with
          | none =>
            rw [tickTimes_eq_nil hprev] at hold
            cases hold
          | some d' =>
            rw [hprev] at hd
            obtain rfl : d' = d := hd
            exact h.armed.1 harmed d' hprev t' hold
        · exact hlt
      · intro hall
        refine hall d hdeadline t ?_
        rw [htimes]
        exact List.mem_append_right _ (List.mem_singleton_self t)
    · by_contra hlt
      rw [hopen.2 (by omega)] at hno
      cases hno

/-- Calls whose ticks are near the deadline. -/
def NearTicks (cfg : Config) (calls : List Call) : Prop := ∀ t ∈ tickTimes calls, Near cfg calls t

theorem NearTicks.before {c : Call} (h : NearTicks cfg (calls ++ [c])) : NearTicks cfg calls := by
  intro t ht d hd
  refine h t ?_ d (deadline_append hd [c])
  rw [tickTimes_append]
  exact List.mem_append_left _ ht

theorem NearTicks.last {env : Backend} (h : NearTicks cfg (calls ++ [Call.tick t env])) :
    Near cfg (calls ++ [Call.tick t env]) t := by
  apply h
  rw [tickTimes_append]
  exact List.mem_append_right _ (List.mem_singleton_self t)

theorem tracks_after (h : NearTicks cfg calls) : Tracks cfg calls (after cfg calls) := by
  induction calls using List.reverseRecOn with
  | nil =>
    have hnone : ∀ d, ¬ deadline cfg [] = some d := fun d hd => nomatch hd
    exact ⟨rfl, fun d hd => absurd hd (hnone d), fun _ d hd => absurd hd (hnone d), fun _ => rfl⟩
  | append_singleton calls c ih =>
    have hbefore := ih h.before
    rw [after_concat]
    cases c with
    | feedByte b env =>
      refine hbefore.same ?_ rfl
      rw [call, feedByte]
      split
      · exact ⟨rfl, rfl, rfl⟩
      · exact sameWindow_parseDispatch _ _ _ _
    | feedBytes data =>
      refine hbefore.same ?_ rfl
      rw [call, feed]
      split
      · exact ⟨rfl, rfl, rfl⟩
      · exact sameWindow_feedLoop data
    | tick t env => exact (hbefore.tick t env h.last).1

/-- What is left of the window at a true time. -/
def trueRemaining (cfg : Config) (calls : List Call) (w : ImprovWiFi) (t : Nat) : Nat :=
  if w.armed then
    match deadline cfg calls with
    | none => cfg.windowMs.toNat
    | some d => d - t
  else 0

theorem Tracks.remaining (h : Tracks cfg calls w) (hnear : Near cfg calls t) :
    (windowMsRemaining cfg w (shown t)).toNat = trueRemaining cfg calls w t := by
  rw [windowMsRemaining, trueRemaining]
  cases harmed : w.armed with
  | false => rfl
  | true =>
    simp only [not_true_eq_false, if_false, if_true]
    cases hd : Improv.deadline cfg calls with
    | none =>
      rw [if_pos (by rw [h.anchored, hd]; decide)]
    | some d =>
      obtain ⟨hlate, hearly⟩ := hnear d hd
      have hsub := toInt_sub hearly hlate.le
      have hsign : 0 < (shown d - shown t).toInt32 ↔ t < d := by
        rw [Int32.lt_iff_toInt_lt, hsub]
        change (0 : Int) < (d : Int) - t ↔ t < d
        omega
      have hanchored : ¬ ¬ w.clockAnchored = true := by
        rw [h.anchored, hd]
        exact not_not_intro rfl
      rw [if_neg hanchored, h.deadline d hd]
      dsimp only
      split
      · next hpos =>
        rw [hsign] at hpos
        have hadd : shown d = shown t + .ofNat (d - t) := by
          rw [shown, shown, ← UInt32.ofNat_add]
          congr 1
          omega
        rw [hadd, UInt32.add_comm, UInt32.add_sub_cancel, UInt32.toNat_ofNat']
        exact Nat.mod_eq_of_lt (by omega)
      · next hneg =>
        rw [hsign] at hneg
        have hzero : d - t = 0 := by omega
        rw [hzero]
        rfl

end Window

/-- The window closes once and on time: it is open as long as every tick was before the
deadline; once it is closed, no call does anything; the tick that closes it clears a scan; and
at a time near the deadline the remaining time is the true one. -/
structure ClosesOnTime (cfg : Config) (calls : List Call) : Prop where
  armed : (after cfg calls).armed = true ↔
    ∀ d, deadline cfg calls = some d → ∀ t ∈ tickTimes calls, t < d
  closed : (after cfg calls).armed = false →
    ∀ c, call cfg (after cfg calls) c = (after cfg calls, [])
  closing : ∀ t env, NearTicks cfg (calls ++ [.tick t env]) → (after cfg calls).armed = true →
    (after cfg (calls ++ [.tick t env])).armed = false →
      (after cfg (calls ++ [.tick t env])).scanPhase = .idle ∧
      (call cfg (after cfg calls) (.tick t env)).2 =
        if (after cfg calls).scanPhase ≠ .idle ∧ cfg.backend then [.clearScan] else []
  remaining : ∀ t, Near cfg calls t →
    (windowMsRemaining cfg (after cfg calls) (shown t)).toNat =
      trueRemaining cfg calls (after cfg calls) t

/-- After any sequence of calls whose ticks are less than 2^31 ms from the deadline. -/
theorem window_closes (cfg : Config) (calls : List Call) (h : NearTicks cfg calls) :
    ClosesOnTime cfg calls := by
  have htracks := tracks_after h
  refine ⟨htracks.armed, fun hclosed => call_closed hclosed, fun t env hnear hopen hclosed => ?_,
    fun t => htracks.remaining⟩
  rw [after_concat] at hclosed ⊢
  exact (htracks.tick t env hnear.last).2 hopen hclosed

/-- No access point is in reach. -/
def silentBackend : Backend where
  isConnected := false
  currentIp := []
  tryConnect := false
  scanResult := 0
  apRecord _ := ⟨[], 0, false⟩

/-- A tick before and one after the clock wraps. -/
theorem window_closes_wrap :
    ClosesOnTime defaultConfig [.tick (2 ^ 32 - 60000) silentBackend,
      .tick (2 ^ 32 + 60000) silentBackend] := by
  refine window_closes _ _ fun t ht d hd => ?_
  obtain rfl : 2 ^ 32 - 60000 + 120000 = d := Option.some.inj hd
  have htimes : t = 2 ^ 32 - 60000 ∨ t = 2 ^ 32 + 60000 := by
    simpa [tickTimes] using ht
  omega

end Cdc2Net.Improv
