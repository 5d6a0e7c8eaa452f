import Cdc2Net.Improv.Rpc
import Cdc2Net.Lib.ExchangeSort
import Cdc2Net.Lib.Json

/-!
# The network list

`pumpScan_` of `improv_wifi.cpp`. The records of a finished scan are sorted by signal, the
first of each SSID is sent, and an empty response ends the list. The list has each SSID once,
with its strongest record (`pumpScan_list`).
-/

set_option autoImplicit false

namespace Cdc2Net.Improv

open Cdc2Net.Lib
open Cdc2Net.Lib.ExchangeSort
open Cdc2Net.Lib.Json (decimal length_decimal_le)
open Cdc2Net.Source (asciiBytes)

/-- `std::to_string` of an `int32_t`. -/
def rssiText (v : Int32) : Bytes :=
  if v.toInt < 0 then 45 :: decimal v.toInt.natAbs else decimal v.toInt.natAbs

/-- The fields of a network. -/
def apFields (ap : ApRecord) : List Bytes :=
  [ap.ssid, rssiText ap.rssi, asciiBytes (if ap.needsAuth then "YES" else "NO")]

/-- The signal that records are compared by. -/
def signal (ap : ApRecord) : Int := ap.rssi.toInt

section Pump

variable (cfg : Config) (env : Backend)

/-- The loop over the sorted records, after those of `earlier`. -/
def emitRecords : (earlier : List ApRecord) → List ApRecord → List Effect
  | _, [] => []
  | earlier, ap :: rest =>
    if ap.ssid = [] then emitRecords (earlier ++ [ap]) rest
    else if earlier.any (fun e => e.ssid = ap.ssid) then emitRecords (earlier ++ [ap]) rest
    else emitRpcResponse cfg .getWifiNetworks (apFields ap) ++ emitRecords (earlier ++ [ap]) rest

/-- `pumpScan_`; `order` holds the records themselves. -/
def pumpScan (scan : ScanPhase) : ScanPhase × List Effect :=
  if scan ≠ .awaiting ∨ ¬ cfg.backend then (scan, [])
  else if env.scanResult = -1 then (scan, [])
  else if env.scanResult = -2 ∨ env.scanResult ≤ 0 then
    (.idle, emitRpcResponse cfg .getWifiNetworks [] ++ [.clearScan])
  else
    let aps := (List.range env.scanResult.toNat).map env.apRecord
    let order := exchangeSort signal aps
    (.idle, emitRecords cfg [] order ++ emitRpcResponse cfg .getWifiNetworks [] ++ [.clearScan])

end Pump

/-- The networks that are sent for a list of records. -/
def networks (aps : List ApRecord) : List ApRecord :=
  (firsts ApRecord.ssid [] (exchangeSort signal aps)).filter fun ap => ap.ssid ≠ []

section Networks

variable {cfg : Config} {env : Backend} {aps : List ApRecord} {r a : ApRecord}

theorem emitRecords_eq (earlier aps : List ApRecord) :
    emitRecords cfg earlier aps =
      ((firsts ApRecord.ssid earlier aps).filter fun ap => ap.ssid ≠ []).flatMap fun ap =>
        emitRpcResponse cfg .getWifiNetworks (apFields ap) := by
  induction aps generalizing earlier with
  | nil => rfl
  | cons ap rest ih =>
    rw [emitRecords, firsts]
    by_cases hempty : ap.ssid = []
    · rw [if_pos hempty, ih]
      split
      · rfl
      · rw [List.filter_cons_of_neg (by simpa using hempty)]
    · rw [if_neg hempty]
      split
      · exact ih _
      · rw [List.filter_cons_of_pos (by simpa using hempty), List.flatMap_cons, ih]

theorem mem_networks : r ∈ networks aps ↔
    r ∈ firsts ApRecord.ssid [] (exchangeSort signal aps) ∧ r.ssid ≠ [] := by
  rw [networks, List.mem_filter, decide_eq_true_eq]

theorem networks_sublist (aps : List ApRecord) :
    (networks aps).Sublist (exchangeSort signal aps) :=
  List.filter_sublist.trans (firsts_sublist [] _)

theorem mem_of_mem_networks (h : r ∈ networks aps) : r ∈ aps :=
  (exchangeSort_perm aps).subset ((networks_sublist aps).subset h)

/-- Each SSID once. -/
theorem nodup_networks (aps : List ApRecord) : ((networks aps).map ApRecord.ssid).Nodup :=
  (nodup_firsts [] _).sublist (List.filter_sublist.map _)

/-- The strongest first. -/
theorem networks_sorted (aps : List ApRecord) :
    (networks aps).Pairwise fun a b => signal b ≤ signal a :=
  (exchangeSort_sorted aps).sublist (networks_sublist aps)

/-- Every SSID but the empty one. -/
theorem mem_ssid_networks {s : Bytes} :
    s ∈ (networks aps).map ApRecord.ssid ↔ s ≠ [] ∧ s ∈ aps.map ApRecord.ssid := by
  constructor
  · intro h
    obtain ⟨r, hr, rfl⟩ := List.mem_map.1 h
    exact ⟨(mem_networks.1 hr).2, List.mem_map_of_mem (mem_of_mem_networks hr)⟩
  · rintro ⟨hne, h⟩
    obtain ⟨a, ha, rfl⟩ := List.mem_map.1 h
    have hsorted : a ∈ exchangeSort signal aps := (exchangeSort_perm aps).mem_iff.2 ha
    obtain ⟨r, hr, hname⟩ : ∃ r ∈ firsts ApRecord.ssid [] (exchangeSort signal aps),
        r.ssid = a.ssid := exists_mem_firsts hsorted
    rw [← hname] at hne ⊢
    exact List.mem_map_of_mem (mem_networks.2 ⟨hr, hne⟩)

/-- The strongest record of the SSID. -/
theorem signal_le_of_mem_networks (hr : r ∈ networks aps) (ha : a ∈ aps)
    (hname : a.ssid = r.ssid) : signal a ≤ signal r :=
  key_le_of_mem_firsts (exchangeSort_sorted aps) (mem_networks.1 hr).1
    ((exchangeSort_perm aps).mem_iff.2 ha) hname

/-! ## The frames -/

theorem length_rssiText (v : Int32) : (rssiText v).length ≤ 11 := by
  have hle : v.toInt.natAbs ≤ 2 ^ 31 := by
    have hlow := v.le_toInt
    have hhigh := v.toInt_lt
    omega
  have hdigits : (decimal v.toInt.natAbs).length ≤ 10 :=
    length_decimal_le (by decide) (by omega)
  rw [rssiText]
  split
  · rw [List.length_cons]
    omega
  · omega

/-- A network fits into a response. -/
theorem apFields_fit (h : r.ssid.length ≤ 32) : (∀ s ∈ apFields r, s.length ≤ 255) ∧
    ((apFields r).map fun s => 1 + s.length).sum ≤ 253 := by
  have hrssi := length_rssiText r.rssi
  have hauth : (asciiBytes (if r.needsAuth then "YES" else "NO")).length ≤ 3 := by
    cases r.needsAuth <;> decide +kernel
  constructor
  · intro s hs
    rcases hs with _ | ⟨_, _ | ⟨_, _ | ⟨_, hs⟩⟩⟩
    · omega
    · omega
    · omega
    · cases hs
  · simp only [apFields, List.map_cons, List.map_nil, List.sum_cons, List.sum_nil]
    omega

theorem written_append (es es' : List Effect) : written (es ++ es') = written es ++ written es' :=
  List.flatMap_append

/-- The responses one after the other, read back. -/
theorem run_responses (hwrite : cfg.write = true) (cmd : Command) (rs : List (List Bytes))
    (h : ∀ fields ∈ rs, (∀ s ∈ fields, s.length ≤ 255) ∧
      (fields.map fun s => 1 + s.length).sum ≤ 253) :
    ∃ fs, Mealy.run parseByte [] (written (rs.flatMap (emitRpcResponse cfg cmd))) = ([], fs) ∧
      fs.map (fun f => (f.type, decodeResponse f.payload)) =
        rs.map fun fields => (FrameType.rpcResponse.byte, some (cmd, fields)) := by
  induction rs with
  | nil => exact ⟨[], rfl, rfl⟩
  | cons fields rs ih =>
    obtain ⟨hfields, hsum⟩ := h fields List.mem_cons_self
    obtain ⟨f, hf, htype, hdecode⟩ := run_emitRpcResponse hwrite cmd hfields hsum
    obtain ⟨fs, hfs, hmap⟩ := ih fun fields' h' => h fields' (List.mem_cons_of_mem fields h')
    refine ⟨f :: fs, ?_, ?_⟩
    · rw [List.flatMap_cons, written_append, Mealy.run_append, hf, hfs]
      rfl
    · rw [List.map_cons, List.map_cons, hmap, htype, hdecode]

end Networks

/-- One response for each SSID of `aps` that is not empty, with the strongest of its records,
the strongest first, and one empty response; then the scan is cleared. -/
def SendsNetworks (cfg : Config) (env : Backend) (aps : List ApRecord) : Prop :=
  ∃ (rs : List ApRecord) (out : List Effect) (fs : List Frame),
    pumpScan cfg env .awaiting = (.idle, out ++ [.clearScan]) ∧ Effect.clearScan ∉ out ∧
    Mealy.run parseByte [] (written out) = ([], fs) ∧
    fs.map (fun f => (f.type, decodeResponse f.payload)) =
      (rs.map apFields ++ [[]]).map (fun fields =>
        (FrameType.rpcResponse.byte, some (Command.getWifiNetworks, fields))) ∧
    (rs.map ApRecord.ssid).Nodup ∧
    rs.Pairwise (fun a b => b.rssi.toInt ≤ a.rssi.toInt) ∧
    (∀ s, s ∈ rs.map ApRecord.ssid ↔ s ≠ [] ∧ s ∈ aps.map ApRecord.ssid) ∧
    ∀ r ∈ rs, r ∈ aps ∧ ∀ a ∈ aps, a.ssid = r.ssid → a.rssi.toInt ≤ r.rssi.toInt

/-- What `pumpScan_` sends for the records of a finished scan. -/
theorem pumpScan_list (cfg : Config) (env : Backend) (aps : List ApRecord)
    (hbackend : cfg.backend = true) (hwrite : cfg.write = true)
    (hresult : env.scanResult = aps.length)
    (hrecords : (List.range aps.length).map env.apRecord = aps)
    (hssid : ∀ a ∈ aps, a.ssid.length ≤ 32) : SendsNetworks cfg env aps := by
  have hout : pumpScan cfg env .awaiting =
      (.idle, ((networks aps).map apFields ++ [[]]).flatMap
        (emitRpcResponse cfg .getWifiNetworks) ++ [.clearScan]) := by
    rw [pumpScan, if_neg (by simp [hbackend]), if_neg (by omega)]
    rw [List.flatMap_append, List.flatMap_map, List.flatMap_singleton]
    split
    · next hnone =>
      have hnil : aps = [] := by
        rw [← List.length_eq_zero_iff]
        omega
      subst hnil
      rfl
    · rw [hresult, Int.toNat_natCast, hrecords]
      dsimp only
      rw [emitRecords_eq]
      rfl
  have hfit : ∀ fields ∈ (networks aps).map apFields ++ [[]],
      (∀ s ∈ fields, s.length ≤ 255) ∧ (fields.map fun s => 1 + s.length).sum ≤ 253 := by
    intro fields hfields
    rcases List.mem_append.1 hfields with hmem | hlast
    · obtain ⟨r, hr, rfl⟩ := List.mem_map.1 hmem
      exact apFields_fit (hssid r (mem_of_mem_networks hr))
    · rw [List.mem_singleton.1 hlast]
      exact ⟨fun s hs => absurd hs List.not_mem_nil, by decide⟩
  obtain ⟨fs, hrun, hmap⟩ := run_responses hwrite .getWifiNetworks _ hfit
  refine ⟨networks aps, _, fs, hout, ?_, hrun, hmap, nodup_networks aps, networks_sorted aps,
    fun s => mem_ssid_networks, fun r hr => ⟨mem_of_mem_networks hr, fun a ha hname =>
      signal_le_of_mem_networks hr ha hname⟩⟩
  -- responses only write
  rw [List.mem_flatMap]
  rintro ⟨fields, -, hmem⟩
  have hframe : ∀ type payload, Effect.clearScan ∉ emitFrame cfg type payload := by
    intro type payload
    rw [emitFrame, if_pos hwrite, List.mem_map]
    rintro ⟨data, -, heq⟩
    cases heq
  rw [emitRpcResponse] at hmem
  split at hmem
  · exact hframe _ _ hmem
  · split at hmem
    · exact hframe _ _ hmem
    · exact hframe _ _ hmem

/-- A network that two access points have. -/
theorem pumpScan_list_home :
    SendsNetworks defaultConfig
      { isConnected := false
        currentIp := []
        tryConnect := false
        scanResult := 2
        apRecord := fun i => ⟨asciiBytes "home", if i = 0 then -70 else -40, true⟩ }
      [⟨asciiBytes "home", -70, true⟩, ⟨asciiBytes "home", -40, true⟩] :=
  pumpScan_list _ _ _ rfl rfl rfl rfl (by decide +kernel)

end Cdc2Net.Improv
