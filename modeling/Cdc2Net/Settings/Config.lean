import Cdc2Net.Settings.Nvs

/-!
# `config_load` and `config_save`

The settings are a record over thirteen keys. `configView` is the record as a view of the
namespace: what is loaded for a key depends on the entry of this key only.
-/

set_option autoImplicit false

namespace Cdc2Net.Settings

open Cdc2Net.Lib.KeyedRecord

/-- `cdc2net_cfg_t`. -/
structure Cfg where
  tcpPort : UInt16
  staticIp : Bool
  ip : CStr 16
  mask : CStr 16
  gw : CStr 16
  dns : CStr 16
  ethStaticIp : Bool
  ethIp : CStr 16
  ethMask : CStr 16
  ethGw : CStr 16
  ethDns : CStr 16
  wdtEnable : Bool
  wdtTimeoutS : UInt32
  deriving DecidableEq

/-- `CONFIG_TCP_PORT_DEFAULT`. -/
def configTcpPortDefault : UInt16 := 2329
/-- `CONFIG_WDT_TIMEOUT_DEFAULT`. -/
def configWdtTimeoutDefault : UInt32 := 300

/-- A flag as it is stored. -/
def flagByte (b : Bool) : UInt8 := if b then 1 else 0

section Load

variable (e : Store NvsKey Value) (k : NvsKey)

/-- A string, empty if it cannot be read. -/
def loadStr : CStr 16 := (nvsGetStr e k 16).getD (.empty 16)

/-- A flag, false if it cannot be read. -/
def loadFlag : Bool :=
  match nvsGetU8 e k with
  | some v => v ≠ 0
  | none => false

/-- The port; zero is not taken. -/
def loadPort : UInt16 :=
  match nvsGetU16 e k with
  | some v => if v ≠ 0 then v else configTcpPortDefault
  | none => configTcpPortDefault

/-- The timeout; zero is not taken. -/
def loadTimeout : UInt32 :=
  match nvsGetU32 e k with
  | some v => if v ≠ 0 then v else configWdtTimeoutDefault
  | none => configWdtTimeoutDefault

/-- The entries over the defaults. -/
def overlay : Cfg where
  tcpPort := loadPort e .tcpPort
  staticIp := loadFlag e .staticIp
  ip := loadStr e .ip
  mask := loadStr e .mask
  gw := loadStr e .gw
  dns := loadStr e .dns
  ethStaticIp := loadFlag e .ethStatic
  ethIp := loadStr e .ethIp
  ethMask := loadStr e .ethMask
  ethGw := loadStr e .ethGw
  ethDns := loadStr e .ethDns
  wdtEnable := loadFlag e .wdtEn
  wdtTimeoutS := loadTimeout e .wdtTo

end Load

/-- The defaults of `config_load`. -/
def configDefault : Cfg where
  tcpPort := configTcpPortDefault
  staticIp := false
  ip := .empty 16
  mask := .empty 16
  gw := .empty 16
  dns := .empty 16
  ethStaticIp := false
  ethIp := .empty 16
  ethMask := .empty 16
  ethGw := .empty 16
  ethDns := .empty 16
  wdtEnable := false
  wdtTimeoutS := configWdtTimeoutDefault

/-- `config_load`. -/
def configLoad (nvs : Nvs) : Cfg := if nvs.opens = false then configDefault else overlay nvs.entry

/-- The keys of `config_save` and their values, in its order. -/
def Cfg.sets (cfg : Cfg) : List (NvsKey × Value) :=
  [(.tcpPort, .u16 cfg.tcpPort), (.staticIp, .u8 (flagByte cfg.staticIp)),
    (.ip, .str cfg.ip.text), (.mask, .str cfg.mask.text), (.gw, .str cfg.gw.text),
    (.dns, .str cfg.dns.text), (.ethStatic, .u8 (flagByte cfg.ethStaticIp)),
    (.ethIp, .str cfg.ethIp.text), (.ethMask, .str cfg.ethMask.text),
    (.ethGw, .str cfg.ethGw.text), (.ethDns, .str cfg.ethDns.text),
    (.wdtEn, .u8 (flagByte cfg.wdtEnable)), (.wdtTo, .u32 cfg.wdtTimeoutS)]

/-- `config_save`. -/
def configSave (c : NvsCalls) (nvs : Nvs) : Option Cfg → End × Nvs
  | none => (.returned .invalidArg, nvs)
  | some cfg => nvsWrite c cfg.sets nvs

/-! ## The settings as a view -/

/-- The setting of a key. -/
def Cfg.value (cfg : Cfg) : NvsKey → Option Value
  | .tcpPort => some (.u16 cfg.tcpPort)
  | .staticIp => some (.u8 (flagByte cfg.staticIp))
  | .ip => some (.str cfg.ip.text)
  | .mask => some (.str cfg.mask.text)
  | .gw => some (.str cfg.gw.text)
  | .dns => some (.str cfg.dns.text)
  | .ethStatic => some (.u8 (flagByte cfg.ethStaticIp))
  | .ethIp => some (.str cfg.ethIp.text)
  | .ethMask => some (.str cfg.ethMask.text)
  | .ethGw => some (.str cfg.ethGw.text)
  | .ethDns => some (.str cfg.ethDns.text)
  | .wdtEn => some (.u8 (flagByte cfg.wdtEnable))
  | .wdtTo => some (.u32 cfg.wdtTimeoutS)
  | .wifiSsid => none
  | .wifiPass => none

/-- What the settings are loaded as: a port or a timeout of zero stands for the default. -/
def Cfg.loaded (cfg : Cfg) : Cfg :=
  { cfg with
    tcpPort := if cfg.tcpPort ≠ 0 then cfg.tcpPort else configTcpPortDefault
    wdtTimeoutS := if cfg.wdtTimeoutS ≠ 0 then cfg.wdtTimeoutS else configWdtTimeoutDefault }

section View

variable {e e' : Store NvsKey Value} {k : NvsKey} {cfg : Cfg} {nvs : Nvs}

theorem flagByte_ne_zero (b : Bool) : decide (flagByte b ≠ 0) = b := by
  cases b <;> rfl

theorem flagByte_inj {a b : Bool} (h : flagByte a = flagByte b) : a = b := by
  rw [← flagByte_ne_zero a, h, flagByte_ne_zero]

theorem CStr.text_inj {size : Nat} {a b : CStr size} (h : a.text = b.text) : a = b := by
  cases a
  cases b
  simpa [CStr.text] using h

/-- The settings are determined by the values of their keys. -/
theorem Cfg.ext_value {a b : Cfg} (h : ∀ k, a.value k = b.value k) : a = b := by
  have hstr : ∀ {x y : CStr 16}, some (Value.str x.text) = some (Value.str y.text) → x = y :=
    fun hxy => CStr.text_inj (Value.str.inj (Option.some.inj hxy))
  have hflag : ∀ {x y : Bool},
      some (Value.u8 (flagByte x)) = some (Value.u8 (flagByte y)) → x = y :=
    fun hxy => flagByte_inj (Value.u8.inj (Option.some.inj hxy))
  have hport : a.tcpPort = b.tcpPort := Value.u16.inj (Option.some.inj (h .tcpPort))
  have htime : a.wdtTimeoutS = b.wdtTimeoutS := Value.u32.inj (Option.some.inj (h .wdtTo))
  cases a
  cases b
  simp only [Cfg.mk.injEq]
  exact ⟨hport, hflag (h .staticIp), hstr (h .ip), hstr (h .mask), hstr (h .gw), hstr (h .dns),
    hflag (h .ethStatic), hstr (h .ethIp), hstr (h .ethMask), hstr (h .ethGw), hstr (h .ethDns),
    hflag (h .wdtEn), htime⟩

theorem loadStr_congr (h : e k = e' k) : loadStr e k = loadStr e' k := by
  simp only [loadStr, nvsGetStr, h]

theorem loadFlag_congr (h : e k = e' k) : loadFlag e k = loadFlag e' k := by
  simp only [loadFlag, nvsGetU8, h]

theorem loadPort_congr (h : e k = e' k) : loadPort e k = loadPort e' k := by
  simp only [loadPort, nvsGetU16, h]

theorem loadTimeout_congr (h : e k = e' k) : loadTimeout e k = loadTimeout e' k := by
  simp only [loadTimeout, nvsGetU32, h]

/-- A key is loaded from its own entry. -/
theorem overlay_congr (h : e k = e' k) : (overlay e).value k = (overlay e').value k := by
  cases k with
  | tcpPort => exact congrArg (fun v => some (Value.u16 v)) (loadPort_congr h)
  | staticIp | ethStatic | wdtEn =>
    exact congrArg (fun b => some (Value.u8 (flagByte b))) (loadFlag_congr h)
  | ip | mask | gw | dns | ethIp | ethMask | ethGw | ethDns =>
    exact congrArg (fun s => some (Value.str s.text)) (loadStr_congr h)
  | wdtTo => exact congrArg (fun v => some (Value.u32 v)) (loadTimeout_congr h)
  | wifiSsid | wifiPass => rfl

/-- The settings as a view of the namespace. -/
def configView : View NvsKey Value (Option Value) where
  read e k := (overlay e).value k
  congr h := overlay_congr h

/-- A namespace that does not open has no entries, and loads as the defaults. -/
theorem configLoad_eq (nvs : Nvs) : configLoad nvs = overlay nvs.entry := by
  rw [configLoad]
  split
  · next h =>
    have hnone := nvs.closed h
    simp [overlay, configDefault, loadStr, loadFlag, loadPort, loadTimeout, nvsGetStr, nvsGetU8,
      nvsGetU16, nvsGetU32, hnone]
  · rfl

theorem Cfg.sets_nodup (cfg : Cfg) : (cfg.sets.map Prod.fst).Nodup := by
  simp only [Cfg.sets, List.map_cons, List.map_nil]
  decide

theorem loadFlag_set {b : Bool} (h : e k = some (.u8 (flagByte b))) : loadFlag e k = b := by
  simp only [loadFlag, nvsGetU8, h, flagByte_ne_zero]

theorem loadStr_set {s : CStr 16} (h : e k = some (.str s.text)) : loadStr e k = s := by
  rw [loadStr, nvsGetStr_text h, Option.getD_some]

/-- What is set for a key is loaded. -/
theorem overlay_set {kv : NvsKey × Value} (hkv : kv ∈ cfg.sets) (h : e kv.1 = some kv.2) :
    (overlay e).value kv.1 = cfg.loaded.value kv.1 := by
  simp only [Cfg.sets, List.mem_cons, List.not_mem_nil, or_false] at hkv
  obtain rfl | rfl | rfl | rfl | rfl | rfl | rfl | rfl | rfl | rfl | rfl | rfl | rfl := hkv
  case inl =>
    simp only [Cfg.value, overlay, Cfg.loaded, loadPort, nvsGetU16, h]
  case inr.inr.inr.inr.inr.inr.inr.inr.inr.inr.inr.inr =>
    simp only [Cfg.value, overlay, Cfg.loaded, loadTimeout, nvsGetU32, h]
  all_goals
    simp only [Cfg.value, overlay, Cfg.loaded]
    first
      | rw [loadFlag_set h]
      | rw [loadStr_set h]

theorem mem_sets_of_value {v : Value} (h : cfg.value k = some v) : (k, v) ∈ cfg.sets := by
  cases k <;> simp_all [Cfg.value, Cfg.sets]

/-- Settings that were stored in full are loaded. -/
theorem configLoad_put (h : nvs.entry = put cfg.sets e) : configLoad nvs = cfg.loaded := by
  rw [configLoad_eq, h]
  refine Cfg.ext_value fun k => ?_
  have hput : ∀ kv ∈ cfg.sets, configView.read (put cfg.sets e) kv.1 = cfg.loaded.value kv.1 :=
    View.put_eq cfg.sets_nodup fun kv hkv t ht => overlay_set hkv ht
  cases hv : cfg.value k with
  | none => cases k <;> first | rfl | simp [Cfg.value] at hv
  | some v => exact hput (k, v) (mem_sets_of_value hv)

end View

section Saved

variable {cfg : Cfg} {nvs : Nvs}

/-- However a save goes, a key is afterwards loaded as it was or as it was to be saved. -/
theorem value_configSave (calls : NvsCalls) (nvs : Nvs) (cfg : Cfg) (k : NvsKey) :
    (configLoad (configSave calls nvs (some cfg)).2).value k = (configLoad nvs).value k ∨
      (configLoad (configSave calls nvs (some cfg)).2).value k = cfg.loaded.value k := by
  have hentry : (configSave calls nvs (some cfg)).2.entry =
      put (calls.landed cfg.sets) nvs.entry := nvsWrite_entry
  rw [configLoad_eq, configLoad_eq, hentry]
  have hsub : calls.landed cfg.sets <+: cfg.sets := NvsCalls.landed_initial
  by_cases hk : ∃ kv ∈ calls.landed cfg.sets, kv.1 = k
  · obtain ⟨kv, hkv, rfl⟩ := hk
    have hnodup : ((calls.landed cfg.sets).map Prod.fst).Nodup :=
      cfg.sets_nodup.sublist (hsub.sublist.map _)
    exact Or.inr (overlay_set (hsub.subset hkv) (put_of_mem hnodup hkv))
  · exact Or.inl (overlay_congr (put_of_notMem fun kv hkv hkk => hk ⟨kv, hkv, hkk⟩))

/-- Settings that are saved are loaded. -/
theorem configLoad_saved {calls : NvsCalls}
    (h : (configSave calls nvs (some cfg)).1 = .returned .ok) :
    configLoad (configSave calls nvs (some cfg)).2 = cfg.loaded := by
  refine configLoad_put (e := nvs.entry) ?_
  have hentry : (configSave calls nvs (some cfg)).2.entry =
      put (calls.landed cfg.sets) nvs.entry := nvsWrite_entry
  rw [hentry, (nvsWrite_ok.1 h).landed]

end Saved

end Cdc2Net.Settings
