import Cdc2Net.Improv.Networks
import Cdc2Net.Lib.Transition

/-!
# The scan of `EspIdfWiFiBackend`

Three parties share the scan: the WiFi event task runs the SCAN_DONE handler
`onWifiEvent_`, the Improv task `startScan`, `pumpScan_` and `clearScan`, and `net_scan` makes
driver calls of its own, whose SCAN_DONE events go to the same handler. The handler takes the
event with `scanRunning_.exchange(false)` and stores the count last, so a poll in between
finds a finished scan of no access points. Where no poll reads the count there, no event of
another scan is taken for this one, and nobody else touches the list that the handler is to
fetch, a report is what `pumpScan_` sends for the access points of the scan that `startScan`
began (`reports_scan`).
-/

set_option autoImplicit false

namespace Cdc2Net.Improv

open Cdc2Net.Lib.Transition
open Cdc2Net.Source (asciiBytes)

/-- Who began a scan; `own` counts the calls of `startScan`. -/
inductive Origin where
  | own (k : Nat)
  | foreign
  deriving DecidableEq

/-- Where the SCAN_DONE handler stands, once it has taken an event. -/
inductive HandlerPc where
  /-- Outside. -/
  | idle
  /-- Before `esp_wifi_scan_get_ap_num`. -/
  | num
  /-- Before `scanCache_.assign`. -/
  | assign (n : Nat)
  /-- Before `esp_wifi_scan_get_ap_records`. -/
  | records (n : Nat)
  /-- Before `scanCount_ = got`. -/
  | store (n : Nat)
  /-- Before `scanFailed_ = true`. -/
  | fail
  /-- Before `scanCount_ = 0`. -/
  | storeZero
  deriving DecidableEq

/-- The handler has no list to fetch or to publish. -/
def HandlerPc.Done (h : HandlerPc) : Prop := h = .idle ∨ h = .fail ∨ h = .storeZero

instance (h : HandlerPc) : Decidable h.Done := by
  unfold HandlerPc.Done
  infer_instance

/-- The handler has yet to fetch the list. -/
def HandlerPc.Fetching : HandlerPc → Prop
  | .num => True
  | .assign _ => True
  | .records _ => True
  | _ => False

instance (h : HandlerPc) : Decidable h.Fetching := by
  unfold HandlerPc.Fetching
  split <;> infer_instance

/-- Where the Improv task stands. -/
inductive ImprovPc where
  | idle
  /-- `startScan`, before each of its writes. -/
  | startCache
  | startCount
  | startFailed
  | startRunning
  /-- Before `esp_wifi_scan_start`. -/
  | driver
  /-- Before the writes that follow a refused start. -/
  | refused
  | refusedFailed
  /-- `scanPhase_` is `Awaiting`, and `pumpScan_` is before `scanRunning_.load()`. -/
  | awaiting
  /-- Before the other two reads of `scanResult`. -/
  | readFailed
  | readCount
  /-- In the loop over `apRecord`, with the records so far. -/
  | collect (n : Nat) (acc : List ApRecord)
  /-- Before it sends, with the value of `scanResult` and the records. -/
  | report (n : Int) (acc : List ApRecord)
  /-- `clearScan`, before each of its writes. -/
  | clearCache
  | clearCount
  | clearFailed
  | clearRunning
  deriving DecidableEq

/-- The driver, the members of the backend, and the tasks. `result` is what became of the last
scan that `startScan` began, `emitted` what the last report on it sent. -/
structure Scan where
  flight : Option Origin
  aps : List ApRecord
  queue : List Origin
  cache : List ApRecord
  count : Nat
  failed : Bool
  running : Bool
  handler : HandlerPc
  pump : ImprovPc
  id : Nat
  result : Option (Option (List ApRecord))
  emitted : Option (List Effect)

/-- After the constructor. -/
def Scan.init : Scan := ⟨none, [], [], [], 0, false, false, .idle, .idle, 0, none, none⟩

/-- A step. -/
inductive ScanLabel where
  /-- GET_WIFI_NETWORKS. -/
  | request
  /-- The window closes. -/
  | close
  /-- The Improv task goes on; the driver starts a scan or not, and frees its list or not. -/
  | improv (started frees : Bool)
  /-- The event task comes to the next SCAN_DONE event. -/
  | event
  /-- The handler goes on; the driver answers or not. -/
  | handler (ok : Bool)
  /-- The driver ends a scan, with its access points if it did not fail. -/
  | complete (r : Option (List ApRecord))
  /-- The driver calls of `net_scan`, in any order. -/
  | netStart (frees : Bool)
  | netStop
  | netFetch
  deriving DecidableEq

/-- An `ApRecord` that nothing is assigned to, and the one of a blank record. -/
def ApRecord.blank : ApRecord := ⟨[], 0, false⟩

/-- What a `scanResult` of `n` and these records look like to `pumpScan_`. -/
def scanView (n : Int) (acc : List ApRecord) : Backend where
  isConnected := false
  currentIp := []
  tryConnect := false
  scanResult := n
  apRecord i := acc.getD i .blank

/-- One step of the handler, for a record as `apRecord` reads it. -/
def stepHandler (s : Scan) (ok : Bool) : Scan :=
  match s.handler with
  | .idle => s
  | .num =>
    if ok ∧ 0 < s.aps.length then { s with handler := .assign s.aps.length }
    -- a scan whose records the driver does not hand out has failed
    else { s with result := if ok then s.result else some none, handler := .storeZero }
  | .assign n => { s with cache := List.replicate n .blank, handler := .records n }
  | .records n =>
    if ok then
      { s with
        cache := s.aps.take n ++ s.cache.drop (min n s.aps.length)
        aps := []
        handler := .store (min n s.aps.length) }
    else { s with result := some none, handler := .fail }
  | .store n => { s with count := n, handler := .idle }
  | .fail => { s with failed := true, handler := .storeZero }
  | .storeZero => { s with count := 0, handler := .idle }

/-- The event task takes the next event: `scanRunning_.exchange(false)`. -/
def takeEvent (s : Scan) : Option Scan :=
  match s.queue with
  | [] => none
  | _ :: q =>
    if s.handler ≠ .idle then none
    else if s.running then some { s with queue := q, running := false, handler := .num }
    else some { s with queue := q }

section Machine

variable (cfg : Config)

/-- One step of the Improv task. -/
def stepImprov (s : Scan) (started frees : Bool) : Scan :=
  match s.pump with
  | .idle => s
  | .startCache => { s with cache := [], pump := .startCount }
  | .startCount => { s with count := 0, pump := .startFailed }
  | .startFailed => { s with failed := false, pump := .startRunning }
  | .startRunning => { s with running := true, pump := .driver }
  | .driver =>
    -- the driver refuses a second scan
    if started ∧ s.flight = none then
      { s with
        flight := some (.own s.id)
        aps := if frees then [] else s.aps
        pump := .awaiting }
    else { s with result := some none, pump := .refused }
  | .refused => { s with running := false, pump := .refusedFailed }
  | .refusedFailed => { s with failed := true, pump := .awaiting }
  | .awaiting => { s with pump := if s.running then .awaiting else .readFailed }
  | .readFailed => { s with pump := if s.failed then .report (-2) [] else .readCount }
  | .readCount => { s with pump := if s.count = 0 then .report 0 [] else .collect s.count [] }
  | .collect n acc =>
    { s with
      pump :=
        if acc.length < n then .collect n (acc ++ [s.cache.getD acc.length .blank])
        else .report n acc }
  | .report n acc =>
    { s with emitted := some (pumpScan cfg (scanView n acc) .awaiting).2, pump := .clearCache }
  | .clearCache => { s with cache := [], pump := .clearCount }
  | .clearCount => { s with count := 0, pump := .clearFailed }
  | .clearFailed => { s with failed := false, pump := .clearRunning }
  | .clearRunning => { s with running := false, pump := .idle }

/-- The tasks and the driver, in any order. -/
def scanSystem : Machine Scan ScanLabel where
  step s
    | .request =>
      if s.pump = .idle ∨ s.pump = .awaiting then
        some { s with id := s.id + 1, result := none, emitted := none, pump := .startCache }
      else none
    | .close => if s.pump = .awaiting then some { s with pump := .clearCache } else none
    | .improv started frees => some (stepImprov cfg s started frees)
    | .event => takeEvent s
    | .handler ok => some (stepHandler s ok)
    | .complete r =>
      match s.flight with
      | none => none
      | some o =>
        some { s with
          flight := none
          aps := r.getD []
          queue := s.queue ++ [o]
          result := if o = .own s.id then some r else s.result }
    | .netStart frees =>
      if s.flight = none then
        some { s with flight := some .foreign, aps := if frees then [] else s.aps }
      else none
    | .netStop => some { s with flight := none }
    | .netFetch => some { s with aps := [] }

/-- The driver holds the list of the last scan of `startScan` for the handler. -/
def Scan.Awaited (s : Scan) : Prop :=
  s.running = true ∧ .own s.id ∈ s.queue ∨ s.handler.Fetching

instance (s : Scan) : Decidable s.Awaited := by
  unfold Scan.Awaited
  infer_instance

/-- No poll reads the count while the handler has a list to publish, no scan is asked for while
the handler runs, no event of another scan is taken for one of `startScan`, and the list of the
last scan of `startScan` stays until the handler has it. -/
def ScanApart (s : Scan) : ScanLabel → Prop
  | .improv _ _ => s.pump = .readCount → s.handler.Done
  | .request => s.handler = .idle
  | .event => s.running = true → s.queue.head? = some (.own s.id)
  | .complete _ => ¬ s.Awaited
  | .netFetch => s.Awaited → s.aps = []
  | .netStart frees => frees = true → s.Awaited → s.aps = []
  | _ => True

instance (s : Scan) : DecidablePred (ScanApart s) := fun l => by
  unfold ScanApart
  split <;> infer_instance

/-- What `pumpScan_` sends for the access points of a scan, which are none if it failed. -/
def reportOf (r : Option (List ApRecord)) : List Effect :=
  (pumpScan cfg (scanView (r.getD []).length (r.getD [])) .awaiting).2

/-- A report is the one on what became of the last scan that `startScan` began. -/
def ReportsScan (s : Scan) : Prop :=
  ∀ es, s.emitted = some es → ∃ r, s.result = some r ∧ es = reportOf cfg r

end Machine

/-! ## The invariant -/

section Inv

variable (cfg : Config)

/-- What is published of the list `aps` of a finished scan, by the step of the handler. -/
def Published (s : Scan) (aps : List ApRecord) : Prop :=
  match s.handler with
  | .idle => s.count = aps.length ∧ s.cache.take aps.length = aps ∧ (s.failed = true → aps = [])
  | .num => s.aps = aps ∧ s.count = 0 ∧ s.failed = false
  | .assign n => s.aps = aps ∧ n = aps.length ∧ s.count = 0 ∧ s.failed = false
  | .records n => s.aps = aps ∧ n = aps.length ∧ s.count = 0 ∧ s.failed = false
  | .store n =>
    n = aps.length ∧ s.cache.take aps.length = aps ∧ s.count = 0 ∧ s.failed = false
  | .fail => aps = [] ∧ s.count = 0
  | .storeZero => aps = [] ∧ s.count = 0

/-- The scan has ended, and its event is taken. -/
def Ended (s : Scan) : Prop :=
  s.running = false ∧ ∃ r, s.result = some r ∧ Published s (r.getD [])

/-- The scan goes on, or its event is to come. -/
def Underway (s : Scan) : Prop :=
  s.running = true ∧ s.handler = .idle ∧ s.count = 0 ∧ s.failed = false ∧
    (.own s.id ∈ s.queue → ∃ r, s.result = some r ∧ s.aps = r.getD [])

/-- `startScan` is on its way, and the driver has not heard of the scan. -/
def Starting (s : Scan) : Prop :=
  s.handler = .idle ∧ .own s.id ∉ s.queue ∧ s.flight ≠ some (.own s.id) ∧ s.emitted = none

/-- The last report is right, and its scan is over. -/
def Reported (s : Scan) : Prop :=
  ∀ es, s.emitted = some es →
    s.running = false ∧ s.handler.Done ∧ ∃ r, s.result = some r ∧ es = reportOf cfg r

/-- What holds at each step of the Improv task. -/
def PumpInv (s : Scan) : Prop :=
  match s.pump with
  | .startCache => Starting s ∧ s.result = none
  | .startCount => Starting s ∧ s.result = none
  | .startFailed => Starting s ∧ s.result = none ∧ s.count = 0
  | .startRunning => Starting s ∧ s.result = none ∧ s.count = 0 ∧ s.failed = false
  | .driver =>
    Starting s ∧ s.result = none ∧ s.count = 0 ∧ s.failed = false ∧ s.running = true
  | .refused => Starting s ∧ s.result = some none ∧ s.count = 0
  | .refusedFailed => Starting s ∧ s.result = some none ∧ s.count = 0 ∧ s.running = false
  | .awaiting => s.emitted = none ∧ (Underway s ∨ Ended s)
  | .readFailed => s.emitted = none ∧ Ended s
  | .readCount => s.emitted = none ∧ Ended s
  | .collect n acc =>
    s.emitted = none ∧ s.running = false ∧ s.handler = .idle ∧ ∃ r, s.result = some r ∧
      n = (r.getD []).length ∧ s.cache.take n = r.getD [] ∧ acc = (r.getD []).take acc.length
  | .report n acc =>
    s.emitted = none ∧ s.running = false ∧ s.handler.Done ∧ ∃ r, s.result = some r ∧
      (pumpScan cfg (scanView n acc) .awaiting).2 = reportOf cfg r
  | _ => Reported cfg s

/-- What holds in every run of the condition. -/
structure ScanInv (s : Scan) : Prop where
  flightId : ∀ k, s.flight = some (.own k) → k ≤ s.id
  queueId : ∀ k, .own k ∈ s.queue → k ≤ s.id
  flightOwn : s.flight = some (.own s.id) →
    s.result = none ∧ s.handler = .idle ∧ .own s.id ∉ s.queue
  pump : PumpInv cfg s

variable {cfg} {s t : Scan} {aps : List ApRecord}

theorem scanInv_init : ScanInv cfg .init := by
  refine ⟨nofun, nofun, nofun, ?_⟩
  intro es hes
  cases hes

/-! ## What the other parties do -/

/-- Driver calls and events that leave the scan of `startScan` alone. -/
theorem PumpInv.frame (h : PumpInv cfg s) {flight : Option Origin} {aps : List ApRecord}
    {queue : List Origin} (hflight : flight = some (.own s.id) → s.flight = some (.own s.id))
    (hqueue : .own s.id ∈ queue → .own s.id ∈ s.queue) (haps : s.Awaited → aps = s.aps) :
    PumpInv cfg { s with flight := flight, aps := aps, queue := queue } := by
  have hstarting : Starting s → Starting { s with flight := flight, aps := aps, queue := queue } :=
    fun hs => ⟨hs.1, fun hq => hs.2.1 (hqueue hq), fun hf => hs.2.2.1 (hflight hf), hs.2.2.2⟩
  have hended : Ended s → Ended { s with flight := flight, aps := aps, queue := queue } := by
    rintro ⟨hrun, r, hr, hpub⟩
    refine ⟨hrun, r, hr, ?_⟩
    rw [Published] at hpub ⊢
    dsimp only
    have hkeep : s.handler.Fetching → aps = s.aps := fun hf => haps (Or.inr hf)
    cases hh : s.handler <;> rw [hh] at hpub hkeep
    case num => exact ⟨(hkeep trivial).trans hpub.1, hpub.2⟩
    case assign | records => exact ⟨(hkeep trivial).trans hpub.1, hpub.2⟩
    all_goals exact hpub
  have hunderway : Underway s →
      Underway { s with flight := flight, aps := aps, queue := queue } := by
    rintro ⟨hrun, hhandler, hcount, hfailed, hlist⟩
    refine ⟨hrun, hhandler, hcount, hfailed, fun hq => ?_⟩
    obtain ⟨r, hr, heq⟩ := hlist (hqueue hq)
    exact ⟨r, hr, (haps (Or.inl ⟨hrun, hqueue hq⟩)).trans heq⟩
  rw [PumpInv] at h ⊢
  dsimp only
  cases hp : s.pump <;> rw [hp] at h
  case startCache | startCount | startFailed | startRunning | driver | refused | refusedFailed =>
    exact ⟨hstarting h.1, h.2⟩
  case awaiting => exact ⟨h.1, h.2.imp hunderway hended⟩
  case readFailed | readCount => exact ⟨h.1, hended h.2⟩
  all_goals exact h

/-- A taken event is that of the last scan of `startScan`, and its list is there. -/
theorem scanInv_event (h : ScanInv cfg s) (hok : ScanApart s .event)
    (hs : takeEvent s = some t) : ScanInv cfg t := by
  rw [takeEvent] at hs
  cases hqueue : s.queue with
  | nil =>
    rw [hqueue] at hs
    cases hs
  | cons o q =>
    have hmem : ∀ o', o' ∈ q → o' ∈ s.queue := fun o' ho => hqueue ▸ List.mem_cons_of_mem o ho
    have hids : ∀ k, .own k ∈ q → k ≤ s.id := fun k hk => h.queueId k (hmem _ hk)
    simp only [hqueue] at hs
    split at hs
    · cases hs
    next hidle =>
    rw [not_not] at hidle
    split at hs
    · next hrun =>
      have hown : .own s.id ∈ s.queue := by
        have hhead := hok hrun
        rw [hqueue, List.head?_cons, Option.some.injEq] at hhead
        rw [hqueue, hhead]
        exact List.mem_cons_self
      cases hs
      refine ⟨h.flightId, hids, fun hf => absurd hown (h.flightOwn hf).2.2, ?_⟩
      have hpump := h.pump
      rw [PumpInv] at hpump ⊢
      cases hp : s.pump <;> rw [hp] at hpump
      case awaiting =>
        rcases hpump.2 with hunder | hended
        · obtain ⟨-, -, hcount, hfailed, hlist⟩ := hunder
          obtain ⟨r, hr, haps⟩ := hlist hown
          exact ⟨hpump.1, Or.inr ⟨rfl, r, hr, haps, hcount, hfailed⟩⟩
        · exact absurd (hrun.symm.trans hended.1) (by decide)
      case startCache | startCount | startFailed | startRunning | driver | refused |
          refusedFailed =>
        exact absurd hown hpump.1.2.1
      case readFailed | readCount => exact absurd (hrun.symm.trans hpump.2.1) (by decide)
      case collect | report => exact absurd (hrun.symm.trans hpump.2.1) (by decide)
      all_goals
        intro es hes
        exact absurd (hrun.symm.trans (hpump es hes).1) (by decide)
    · cases hs
      refine ⟨h.flightId, hids, fun hf => ?_, ?_⟩
      · obtain ⟨hr, hh, hq⟩ := h.flightOwn hf
        exact ⟨hr, hh, fun hk => hq (hmem _ hk)⟩
      exact h.pump.frame id (hmem _) fun _ => rfl

/-- The handler publishes the list that it finds. -/
theorem ended_handler (h : Ended s) (ok : Bool) : Ended (stepHandler s ok) := by
  obtain ⟨hrun, r, hr, hpub⟩ := h
  rw [Published] at hpub
  rw [stepHandler]
  cases hh : s.handler with
  | idle =>
    rw [hh] at hpub
    refine ⟨hrun, r, hr, ?_⟩
    rw [Published, hh]
    exact hpub
  | num =>
    rw [hh] at hpub
    obtain ⟨haps, hcount, hfailed⟩ := hpub
    dsimp only
    split
    · exact ⟨hrun, r, hr, haps, haps ▸ rfl, hcount, hfailed⟩
    · next hnone =>
      cases ok with
      | false => exact ⟨hrun, none, rfl, rfl, hcount⟩
      | true =>
        have hempty : s.aps = [] := by
          rw [← List.length_eq_zero_iff]
          exact Nat.eq_zero_of_not_pos fun hpos => hnone ⟨rfl, hpos⟩
        exact ⟨hrun, r, hr, haps.symm.trans hempty, hcount⟩
  | assign n =>
    rw [hh] at hpub
    exact ⟨hrun, r, hr, hpub⟩
  | records n =>
    rw [hh] at hpub
    obtain ⟨haps, rfl, hcount, hfailed⟩ := hpub
    cases ok with
    | false => exact ⟨hrun, none, rfl, rfl, hcount⟩
    | true =>
      refine ⟨hrun, r, hr, ?_, ?_, hcount, hfailed⟩
      · rw [haps, Nat.min_self]
      · change (s.aps.take (r.getD []).length ++ _).take (r.getD []).length = r.getD []
        rw [haps, List.take_length, List.take_left]
  | store n =>
    rw [hh] at hpub
    obtain ⟨rfl, hcache, hcount, hfailed⟩ := hpub
    refine ⟨hrun, r, hr, rfl, hcache, fun hf => absurd (hf.symm.trans hfailed) (by decide)⟩
  | fail =>
    rw [hh] at hpub
    exact ⟨hrun, r, hr, hpub⟩
  | storeZero =>
    rw [hh] at hpub
    obtain ⟨hempty, hcount⟩ := hpub
    refine ⟨hrun, r, hr, ?_, ?_, fun _ => hempty⟩
    · rw [hempty]
      rfl
    · rw [hempty]
      rfl

/-- A handler without a list changes nothing that a report reads. -/
theorem handler_done (h : s.handler.Done) (ok : Bool) :
    (stepHandler s ok).handler.Done ∧ (stepHandler s ok).result = s.result := by
  rw [stepHandler]
  rcases h with hh | hh | hh
  · rw [hh]
    exact ⟨Or.inl hh, rfl⟩
  · rw [hh]
    exact ⟨Or.inr (Or.inr rfl), rfl⟩
  · rw [hh]
    exact ⟨Or.inl rfl, rfl⟩

/-- A step of the handler is none of the rest. -/
theorem handler_rest (s : Scan) (ok : Bool) :
    (stepHandler s ok).pump = s.pump ∧ (stepHandler s ok).id = s.id ∧
      (stepHandler s ok).flight = s.flight ∧ (stepHandler s ok).queue = s.queue ∧
      (stepHandler s ok).running = s.running ∧ (stepHandler s ok).emitted = s.emitted := by
  rw [stepHandler]
  split <;> try exact ⟨rfl, rfl, rfl, rfl, rfl, rfl⟩
  · split <;> exact ⟨rfl, rfl, rfl, rfl, rfl, rfl⟩
  · split <;> exact ⟨rfl, rfl, rfl, rfl, rfl, rfl⟩

theorem handler_idle (h : s.handler = .idle) (ok : Bool) : stepHandler s ok = s := by
  rw [stepHandler, h]

theorem scanInv_handler (h : ScanInv cfg s) (ok : Bool) : ScanInv cfg (stepHandler s ok) := by
  by_cases hidle : s.handler = .idle
  · rwa [handler_idle hidle]
  obtain ⟨hpc, hid, hflight, hqueue, hrun, hemitted⟩ := handler_rest s ok
  have hpump := h.pump
  have hnone : s.emitted = none → Ended s → (stepHandler s ok).emitted = none ∧
      Ended (stepHandler s ok) := fun he hs => ⟨hemitted.trans he, ended_handler hs ok⟩
  refine ⟨?_, ?_, ?_, ?_⟩
  · rw [hflight, hid]
    exact h.flightId
  · rw [hqueue, hid]
    exact h.queueId
  · intro hf
    rw [hflight, hid] at hf
    exact absurd (h.flightOwn hf).2.1 hidle
  rw [PumpInv] at hpump ⊢
  rw [hpc]
  cases hp : s.pump <;> rw [hp] at hpump
  case awaiting =>
    rcases hpump.2 with hunder | hended
    · exact absurd hunder.2.1 hidle
    · exact ⟨(hnone hpump.1 hended).1, Or.inr (hnone hpump.1 hended).2⟩
  case readFailed | readCount => exact hnone hpump.1 hpump.2
  case startCache | startCount | startFailed | startRunning | driver | refused | refusedFailed =>
    exact absurd hpump.1.1 hidle
  case collect n acc => exact absurd hpump.2.2.1 hidle
  case report n acc =>
    obtain ⟨he, hr, hdone, hres⟩ := hpump
    obtain ⟨hdone', hsame⟩ := handler_done hdone ok
    refine ⟨hemitted.trans he, hrun.trans hr, hdone', ?_⟩
    rwa [hsame]
  all_goals
    intro es hes
    obtain ⟨hr, hdone, hres⟩ := hpump es (hemitted.symm.trans hes)
    obtain ⟨hdone', hsame⟩ := handler_done hdone ok
    refine ⟨hrun.trans hr, hdone', ?_⟩
    rwa [hsame]

theorem pumpScan_empty {n : Int} (hn : n = -2 ∨ n = 0) (acc : List ApRecord)
    {r : Option (List ApRecord)} (hr : r.getD [] = []) :
    (pumpScan cfg (scanView n acc) .awaiting).2 = reportOf cfg r := by
  rw [reportOf, hr, pumpScan, pumpScan]
  rcases hn with rfl | rfl
  · rfl
  · rfl

/-- A handler that has set `scanFailed_` has no list. -/
theorem Published.of_failed (h : Published s aps) (hf : s.failed = true) :
    s.handler.Done ∧ aps = [] := by
  rw [Published] at h
  cases hh : s.handler <;> rw [hh] at h
  case idle => exact ⟨Or.inl rfl, h.2.2 hf⟩
  case num => exact absurd (hf.symm.trans h.2.2) (by decide)
  case assign | records | store => exact absurd (hf.symm.trans h.2.2.2) (by decide)
  case fail => exact ⟨Or.inr (Or.inl rfl), h.1⟩
  case storeZero => exact ⟨Or.inr (Or.inr rfl), h.1⟩

/-- A handler without a list has published all. -/
theorem Published.of_done (h : Published s aps) (hd : s.handler.Done) :
    s.count = aps.length ∧ s.cache.take aps.length = aps := by
  rw [Published] at h
  rcases hd with hh | hh | hh <;> rw [hh] at h
  · exact ⟨h.1, h.2.1⟩
  · obtain ⟨rfl, hcount⟩ := h
    exact ⟨hcount, rfl⟩
  · obtain ⟨rfl, hcount⟩ := h
    exact ⟨hcount, rfl⟩

theorem Published.idle_of_count (h : Published s aps) (hpos : s.count ≠ 0) :
    s.handler = .idle := by
  rw [Published] at h
  cases hh : s.handler <;> rw [hh] at h
  case num => exact absurd h.2.1 hpos
  case assign | records | store => exact absurd h.2.2.1 hpos
  case fail | storeZero => exact absurd h.2 hpos

/-- One record more. -/
theorem take_getD {cache acc : List ApRecord} {n : Nat} (hcache : cache.take n = aps)
    (hn : n = aps.length) (hlt : acc.length < n) (hacc : acc = aps.take acc.length) :
    acc ++ [cache.getD acc.length .blank] =
      aps.take (acc ++ [cache.getD acc.length .blank]).length := by
  have hlt' : acc.length < aps.length := hn ▸ hlt
  have hsame : cache[acc.length]? = aps[acc.length]? := by
    rw [← hcache, List.getElem?_take_of_lt hlt]
  have hget : cache.getD acc.length .blank = aps[acc.length] := by
    rw [List.getD_eq_getElem?_getD, hsame, List.getElem?_eq_getElem hlt', Option.getD_some]
  rw [List.length_append, List.length_singleton, List.take_succ_eq_append_getElem, ← hacc, hget]

/-- The Improv task goes on. -/
theorem scanInv_improv (h : ScanInv cfg s) {started frees : Bool}
    (hok : ScanApart s (.improv started frees)) :
    ScanInv cfg (stepImprov cfg s started frees) := by
  have hpump := h.pump
  rw [PumpInv] at hpump
  rw [stepImprov]
  cases hp : s.pump with
  | idle => exact h
  | startCache =>
    rw [hp] at hpump
    exact ⟨h.flightId, h.queueId, h.flightOwn, hpump⟩
  | startCount =>
    rw [hp] at hpump
    exact ⟨h.flightId, h.queueId, h.flightOwn, hpump.1, hpump.2, rfl⟩
  | startFailed =>
    rw [hp] at hpump
    exact ⟨h.flightId, h.queueId, h.flightOwn, hpump.1, hpump.2.1, hpump.2.2, rfl⟩
  | startRunning =>
    rw [hp] at hpump
    exact ⟨h.flightId, h.queueId, h.flightOwn, hpump.1, hpump.2.1, hpump.2.2.1, hpump.2.2.2, rfl⟩
  | driver =>
    rw [hp] at hpump
    obtain ⟨⟨hidle, hfresh, hflight, hemitted⟩, hres, hcount, hfailed, hrun⟩ := hpump
    dsimp only
    split
    · refine ⟨?_, h.queueId, fun _ => ⟨hres, hidle, hfresh⟩, hemitted, Or.inl ?_⟩
      · intro k hk
        cases hk
        exact Nat.le_refl _
      · exact ⟨hrun, hidle, hcount, hfailed, fun hq => absurd hq hfresh⟩
    · exact ⟨h.flightId, h.queueId, fun hf => absurd hf hflight,
        ⟨hidle, hfresh, hflight, hemitted⟩, rfl, hcount⟩
  | refused =>
    rw [hp] at hpump
    exact ⟨h.flightId, h.queueId, h.flightOwn, hpump.1, hpump.2.1, hpump.2.2, rfl⟩
  | refusedFailed =>
    rw [hp] at hpump
    obtain ⟨⟨hidle, hfresh, hflight, hemitted⟩, hres, hcount, hrun⟩ := hpump
    refine ⟨h.flightId, h.queueId, h.flightOwn, hemitted, Or.inr ⟨hrun, none, hres, ?_⟩⟩
    rw [Published]
    dsimp only
    rw [hidle]
    exact ⟨hcount, rfl, fun _ => rfl⟩
  | awaiting =>
    rw [hp] at hpump
    obtain ⟨hemitted, hstate⟩ := hpump
    dsimp only
    split
    · exact ⟨h.flightId, h.queueId, h.flightOwn, hemitted, hstate⟩
    · next hnot =>
      exact ⟨h.flightId, h.queueId, h.flightOwn, hemitted, hstate.resolve_left fun hu => hnot hu.1⟩
  | readFailed =>
    rw [hp] at hpump
    obtain ⟨hemitted, hrun, r, hr, hpub⟩ := hpump
    dsimp only
    split
    · next hfailed =>
      obtain ⟨hdone, hempty⟩ := hpub.of_failed hfailed
      refine ⟨h.flightId, h.queueId, h.flightOwn, hemitted, hrun, hdone, r, hr, ?_⟩
      exact pumpScan_empty (Or.inl rfl) [] hempty
    · exact ⟨h.flightId, h.queueId, h.flightOwn, hemitted, hrun, r, hr, hpub⟩
  | readCount =>
    rw [hp] at hpump
    obtain ⟨hemitted, hrun, r, hr, hpub⟩ := hpump
    obtain ⟨hcount, hcache⟩ := hpub.of_done (hok hp)
    dsimp only
    split
    · next hzero =>
      have hempty : r.getD [] = [] := List.length_eq_zero_iff.1 (hcount.symm.trans hzero)
      refine ⟨h.flightId, h.queueId, h.flightOwn, hemitted, hrun, hok hp, r, hr, ?_⟩
      exact pumpScan_empty (Or.inr rfl) [] hempty
    · next hpos =>
      refine ⟨h.flightId, h.queueId, h.flightOwn, hemitted, hrun, ?_, r, hr, hcount, ?_, rfl⟩
      · exact hpub.idle_of_count hpos
      · rw [hcount]
        exact hcache
  | collect n acc =>
    rw [hp] at hpump
    obtain ⟨hemitted, hrun, hidle, r, hr, hn, hcache, hacc⟩ := hpump
    dsimp only
    split
    · next hlt =>
      refine ⟨h.flightId, h.queueId, h.flightOwn, hemitted, hrun, hidle, r, hr, hn, hcache, ?_⟩
      exact take_getD hcache hn hlt hacc
    · next hge =>
      refine ⟨h.flightId, h.queueId, h.flightOwn, hemitted, hrun, Or.inl hidle, r, hr, ?_⟩
      have hall : acc = r.getD [] := by
        rw [hacc, List.take_of_length_le]
        omega
      rw [reportOf, hn, hall]
  | report n acc =>
    rw [hp] at hpump
    obtain ⟨-, hrun, hdone, r, hr, hsent⟩ := hpump
    refine ⟨h.flightId, h.queueId, h.flightOwn, ?_⟩
    intro es hes
    cases hes
    exact ⟨hrun, hdone, r, hr, hsent⟩
  | clearCache =>
    rw [hp] at hpump
    exact ⟨h.flightId, h.queueId, h.flightOwn, hpump⟩
  | clearCount =>
    rw [hp] at hpump
    exact ⟨h.flightId, h.queueId, h.flightOwn, hpump⟩
  | clearFailed =>
    rw [hp] at hpump
    exact ⟨h.flightId, h.queueId, h.flightOwn, hpump⟩
  | clearRunning =>
    rw [hp] at hpump
    refine ⟨h.flightId, h.queueId, h.flightOwn, ?_⟩
    intro es hes
    exact ⟨rfl, (hpump es hes).2⟩

/-- A scan ends. -/
theorem scanInv_complete (h : ScanInv cfg s) {r : Option (List ApRecord)} {o : Origin}
    (hok : ¬ s.Awaited) (ho : s.flight = some o) :
    ScanInv cfg { s with
      flight := none
      aps := r.getD []
      queue := s.queue ++ [o]
      result := if o = .own s.id then some r else s.result } := by
  have hids : ∀ k, .own k ∈ s.queue ++ [o] → k ≤ s.id := by
    intro k hk
    rcases List.mem_append.1 hk with hq | hlast
    · exact h.queueId k hq
    · rw [List.mem_singleton] at hlast
      exact h.flightId k (ho.trans (congrArg some hlast.symm))
  by_cases hown : o = .own s.id
  · -- it is the one of `startScan`
    subst hown
    obtain ⟨hres, hidle, hfresh⟩ := h.flightOwn ho
    rw [if_pos rfl]
    refine ⟨nofun, hids, nofun, ?_⟩
    have hpump := h.pump
    rw [PumpInv] at hpump ⊢
    dsimp only
    cases hp : s.pump <;> rw [hp] at hpump
    case awaiting =>
      rcases hpump.2 with ⟨hrun, -, hcount, hfailed, -⟩ | ⟨-, r', hr', -⟩
      · exact ⟨hpump.1, Or.inl ⟨hrun, hidle, hcount, hfailed, fun _ => ⟨r, rfl, rfl⟩⟩⟩
      · cases hres.symm.trans hr'
    case startCache | startCount | startFailed | startRunning | driver | refused | refusedFailed =>
      exact absurd ho hpump.1.2.2.1
    case readFailed | readCount =>
      obtain ⟨-, -, r', hr', -⟩ := hpump
      cases hres.symm.trans hr'
    case collect n acc =>
      obtain ⟨-, -, -, r', hr', -⟩ := hpump
      cases hres.symm.trans hr'
    case report n acc =>
      obtain ⟨-, -, -, r', hr', -⟩ := hpump
      cases hres.symm.trans hr'
    all_goals
      intro es hes
      obtain ⟨-, -, r', hr', -⟩ := hpump es hes
      cases hres.symm.trans hr'
  · rw [if_neg hown]
    refine ⟨nofun, hids, nofun, h.pump.frame nofun ?_ fun ha => absurd ha hok⟩
    intro hq
    rcases List.mem_append.1 hq with hq | hlast
    · exact hq
    · exact absurd (List.mem_singleton.1 hlast).symm hown

/-- A scan is asked for. -/
theorem scanInv_request (h : ScanInv cfg s) (hidle : s.handler = .idle) :
    ScanInv cfg { s with
      id := s.id + 1, result := none, emitted := none, pump := .startCache } := by
  have hqueue : .own (s.id + 1) ∉ s.queue := fun hq => absurd (h.queueId _ hq) (by omega)
  have hflight : s.flight ≠ some (.own (s.id + 1)) :=
    fun hf => absurd (h.flightId _ hf) (by omega)
  exact ⟨fun k hk => Nat.le_succ_of_le (h.flightId k hk),
    fun k hk => Nat.le_succ_of_le (h.queueId k hk), fun hf => absurd hf hflight,
    ⟨hidle, hqueue, hflight, rfl⟩, rfl⟩

theorem scanInv_step {l : ScanLabel} (h : ScanInv cfg s) (hok : ScanApart s l)
    (hs : (scanSystem cfg).step s l = some t) : ScanInv cfg t := by
  cases l with
  | request =>
    simp only [scanSystem] at hs
    split at hs
    · cases hs
      exact scanInv_request h hok
    · cases hs
  | close =>
    simp only [scanSystem] at hs
    split at hs
    · next hp =>
      cases hs
      have hpump := h.pump
      rw [PumpInv, hp] at hpump
      refine ⟨h.flightId, h.queueId, h.flightOwn, ?_⟩
      intro es hes
      cases hpump.1.symm.trans hes
    · cases hs
  | improv started frees =>
    cases hs
    exact scanInv_improv h hok
  | event => exact scanInv_event h hok hs
  | handler ok =>
    cases hs
    exact scanInv_handler h ok
  | complete r =>
    simp only [scanSystem] at hs
    split at hs
    · cases hs
    · next ho =>
      cases hs
      exact scanInv_complete h hok ho
  | netStart frees =>
    simp only [scanSystem] at hs
    split at hs
    · cases hs
      refine ⟨nofun, h.queueId, nofun, h.pump.frame nofun id fun ha => ?_⟩
      cases frees with
      | false => rfl
      | true => exact (hok rfl ha).symm
    · cases hs
  | netStop =>
    cases hs
    exact ⟨nofun, h.queueId, nofun, h.pump.frame nofun id fun _ => rfl⟩
  | netFetch =>
    cases hs
    exact ⟨h.flightId, h.queueId, h.flightOwn, h.pump.frame id id fun ha => (hok ha).symm⟩

theorem ScanInv.reportsScan (h : ScanInv cfg s) : ReportsScan cfg s := by
  intro es hes
  have hpump := h.pump
  rw [PumpInv] at hpump
  cases hp : s.pump <;> rw [hp] at hpump
  case awaiting | readFailed | readCount | collect | report => cases hpump.1.symm.trans hes
  case startCache | startCount | startFailed | startRunning | driver | refused | refusedFailed =>
    cases hpump.1.2.2.2.symm.trans hes
  all_goals exact (hpump es hes).2.2

end Inv

/-- **When a report is that of the scan.** In every run in which no poll reads the count while
the handler has a list to publish, no scan is asked for while the handler runs, no event of
another scan is taken for one of `startScan`, and the list stays until the handler has it, a
report is what `pumpScan_` sends for the access points of the scan that `startScan` began. -/
theorem reports_scan (cfg : Config) {s : Scan}
    (h : (scanSystem cfg).Reaches ScanApart .init s) : ReportsScan cfg s :=
  (Machine.Reaches.invariant h scanInv_init fun _ _ _ hs hok ht =>
    scanInv_step hs hok ht).reportsScan

/-- A scan of one access point, with a scan of `net_scan` before it. -/
theorem reports_scan_home : ∃ s, (scanSystem defaultConfig).Reaches ScanApart .init s ∧
    s.emitted = some (reportOf defaultConfig (some [⟨asciiBytes "home", -40, true⟩])) := by
  obtain ⟨s, hrun, hres, hsome⟩ := Machine.exists_reaches_of_runIf (scanSystem defaultConfig)
    ScanApart (fun s => s.result = some (some [⟨asciiBytes "home", -40, true⟩]) ∧
      s.emitted ≠ none) .init
    [[.netStart true, .complete none, .event, .request], List.replicate 5 (.improv true true),
      [.complete (some [⟨asciiBytes "home", -40, true⟩]), .event],
      List.replicate 4 (.handler true), List.replicate 6 (.improv true true)].flatten
    (by decide +kernel)
  obtain ⟨es, hes⟩ := Option.ne_none_iff_exists'.1 hsome
  obtain ⟨r, hr, heq⟩ := reports_scan defaultConfig hrun es hes
  cases hres.symm.trans hr
  exact ⟨s, hrun, hes.trans (congrArg some heq)⟩

/-- A poll comes when the handler has taken the event and not yet stored the count. -/
theorem reports_scan_fails : ¬ ∀ (cfg : Config) (s : Scan),
    (scanSystem cfg).Reaches (fun _ _ => True) .init s → ReportsScan cfg s := by
  intro hall
  obtain ⟨s, hrun, hres, hsent⟩ := Machine.exists_reaches_of_runIf (scanSystem defaultConfig)
    (fun _ _ => True) (fun s => s.result = some (some [⟨asciiBytes "home", -40, true⟩]) ∧
      s.emitted = some (reportOf defaultConfig none)) .init
    [[.request], List.replicate 5 (.improv true true),
      [.complete (some [⟨asciiBytes "home", -40, true⟩]), .event],
      List.replicate 4 (.improv true true)].flatten
    (by decide +kernel)
  obtain ⟨r, hr, heq⟩ := hall defaultConfig s hrun _ hsent
  cases hres.symm.trans hr
  exact absurd heq (by decide +kernel)

end Cdc2Net.Improv
