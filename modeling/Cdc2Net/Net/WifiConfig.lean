import Cdc2Net.Improv.Rpc
import Cdc2Net.Settings.Creds

/-!
# Credentials on the way to the driver

The credentials that Improv accepts go to `esp_wifi_set_config` from
`EspIdfWiFiBackend::tryConnect`, and after a restart from `net_init`, which has them from the
namespace. The fields of `wifi_config_t` need no NUL at their end. `net_init` copies up to the
size of the field, `tryConnect` one byte less, so an SSID of the full 32 bytes arrives without
its last one; everything shorter arrives unchanged on both ways
(`creds_reach_driver_iff`).
-/

set_option autoImplicit false

namespace Cdc2Net.Net

open Cdc2Net.Settings
open Cdc2Net.Improv (Backend Config Effect cStr emitDeviceUrl emitError emitFrame emitState
  emitRpcResponse handleWifiSettings)
open Cdc2Net.Lib.KeyedRecord (put)

/-! ## Fields of a fixed size -/

/-- A `uint8_t` array of `size` bytes. -/
structure Field (size : Nat) where
  bytes : List UInt8
  length_bytes : bytes.length = size
  deriving DecidableEq

namespace Field

variable {size : Nat}

/-- An array that is all zero. -/
def zero (size : Nat) : Field size := ⟨List.replicate size 0, List.length_replicate⟩

/-- The array as the driver reads it: up to its size or the first NUL. -/
def read (f : Field size) : List UInt8 := cStr f.bytes

theorem length_write {dst : Field size} {src : List UInt8} (h : src.length ≤ size) :
    (src ++ dst.bytes.drop src.length).length = size := by
  rw [List.length_append, List.length_drop, dst.length_bytes]
  omega

/-- `memcpy` of all of `src`. -/
def memcpy (dst : Field size) (src : List UInt8) (h : src.length ≤ size) : Field size :=
  ⟨src ++ dst.bytes.drop src.length, length_write h⟩

theorem length_strncpy {src : Text} {n : Nat} (h : n ≤ size) :
    (src.1.take n ++ List.replicate (n - src.1.length) 0).length ≤ size := by
  rw [List.length_append, List.length_take, List.length_replicate]
  omega

/-- `strncpy`: at most `n` bytes of the string, filled up with NULs. -/
def strncpy (dst : Field size) (src : Text) (n : Nat) (h : n ≤ size) : Field size :=
  dst.memcpy (src.1.take n ++ List.replicate (n - src.1.length) 0) (length_strncpy h)

theorem cStr_append_zeros {s : List UInt8} (h : 0 ∉ s) (k : Nat) :
    cStr (s ++ List.replicate k 0) = s := by
  have hall : ∀ c ∈ s, decide (c ≠ 0) = true :=
    fun c hc => decide_eq_true fun h0 => h (h0 ▸ hc)
  rw [cStr, List.takeWhile_append_of_pos hall, List.takeWhile_replicate]
  simp

theorem read_memcpy_zero {src : List UInt8} (h : src.length ≤ size) (hnul : 0 ∉ src) :
    ((zero size).memcpy src h).read = src := by
  have hbytes : ((zero size).memcpy src h).bytes =
      src ++ List.replicate (size - src.length) 0 := congrArg (src ++ ·) List.drop_replicate
  rw [read, hbytes, cStr_append_zeros hnul]

theorem read_strncpy_zero {src : Text} {n : Nat} (h : n ≤ size) :
    ((zero size).strncpy src n h).read = src.1.take n := by
  have hnul : 0 ∉ src.1.take n := fun hmem => src.2 (List.mem_of_mem_take hmem)
  obtain ⟨k, hk⟩ : ∃ k, ((zero size).strncpy src n h).bytes =
      src.1.take n ++ List.replicate (n - src.1.length) 0 ++ List.replicate k 0 :=
    ⟨_, congrArg (_ ++ ·) List.drop_replicate⟩
  rw [read, hk, List.append_assoc, List.replicate_append_replicate, cStr_append_zeros hnul]

end Field

/-! ## `wifi_config_t` -/

/-- `wifi_auth_mode_t`, as far as it is set. -/
inductive AuthMode where
  | wifiAuthOpen
  | wifiAuthWpa2Psk
  deriving DecidableEq

/-- `wifi_scan_method_t`. -/
inductive ScanMethod where
  | wifiFastScan
  | wifiAllChannelScan
  deriving DecidableEq

/-- `wifi_sort_method_t`. -/
inductive SortMethod where
  | wifiConnectApBySignal
  | wifiConnectApBySecurity
  deriving DecidableEq

/-- `wifi_sta_config_t`, as far as it is set. -/
structure StaConfig where
  ssid : Field 32
  password : Field 64
  authmode : AuthMode
  pmfCapable : Bool
  pmfRequired : Bool
  scanMethod : ScanMethod
  sortMethod : SortMethod
  deriving DecidableEq

/-- `wifi_config_t wcfg{}`. -/
def StaConfig.zero : StaConfig where
  ssid := .zero 32
  password := .zero 64
  authmode := .wifiAuthOpen
  pmfCapable := false
  pmfRequired := false
  scanMethod := .wifiFastScan
  sortMethod := .wifiConnectApBySignal

/-- The password of `tryConnect`, with the threshold for it. -/
def StaConfig.withPassword (wcfg : StaConfig) : Option Text → StaConfig
  | none => { wcfg with authmode := .wifiAuthOpen }
  | some ⟨[], _⟩ => { wcfg with authmode := .wifiAuthOpen }
  | some ⟨c :: s, h⟩ =>
    { wcfg with
      password := (Field.zero 64).strncpy ⟨c :: s, h⟩ (64 - 1) (Nat.sub_le 64 1)
      authmode := .wifiAuthWpa2Psk }

/-- `opts_.connectToStrongest`. -/
def StaConfig.withStrongest (wcfg : StaConfig) (connectToStrongest : Bool) : StaConfig :=
  if connectToStrongest then
    { wcfg with scanMethod := .wifiAllChannelScan, sortMethod := .wifiConnectApBySignal }
  else wcfg

/-- What `tryConnect` passes to `esp_wifi_set_config`, if it comes to it. -/
def tryConnect (baseInit connectToStrongest : Bool) (ssid password : Option Text) :
    Option StaConfig :=
  if ¬ baseInit then none
  else
    match ssid with
    | none => none
    | some ssid =>
      let wcfg := { StaConfig.zero with
        ssid := (Field.zero 32).strncpy ssid (32 - 1) (Nat.sub_le 32 1) }
      let wcfg := wcfg.withPassword password
      let wcfg := { wcfg with pmfCapable := true, pmfRequired := false }
      some (wcfg.withStrongest connectToStrongest)

theorem length_take_min (s : List UInt8) (size : Nat) :
    (s.take (if s.length > size then size else s.length)).length ≤ size := by
  rw [List.length_take]
  split <;> omega

/-- The `wifi_config_t` of `net_init`. -/
def StaConfig.ofCreds (buf : Creds) : StaConfig :=
  { StaConfig.zero with
    ssid := (Field.zero 32).memcpy _ (length_take_min buf.ssid.bytes 32)
    password := (Field.zero 64).memcpy _ (length_take_min buf.pass.bytes 64)
    authmode := .wifiAuthOpen
    pmfCapable := true }

/-- What `net_init` passes to `esp_wifi_set_config`, if it has credentials. -/
def netInit (nvs : Nvs) : Option StaConfig :=
  let creds := bootCreds nvs
  if creds.1 ∧ creds.2.ssid.bytes ≠ [] then some (.ofCreds creds.2) else none

/-! ## Accepted credentials -/

/-- An SSID of 1 to 32 bytes, and a password that is empty or has 8 to 63. -/
structure Accepted (ssid pw : Text) : Prop where
  ssid_ne : ssid.1 ≠ []
  ssid_le : ssid.1.length ≤ 32
  pw_ge : pw.1 = [] ∨ 8 ≤ pw.1.length
  pw_le : pw.1.length ≤ 63

theorem cStr_text (s : Text) : cStr s.1 = s.1 := by
  have h := Field.cStr_append_zeros s.2 0
  rwa [List.replicate_zero, List.append_nil] at h

theorem tryConnect_notMem_emitError (cfg : Config) (e : Improv.Error) (s p : List UInt8) :
    Effect.tryConnect s p ∉ emitError cfg e := by
  rw [emitError, emitFrame]
  split
  · rw [List.mem_map]
    rintro ⟨data, -, heq⟩
    cases heq
  · exact List.not_mem_nil

/-- What `handleWifiSettings_` accepts goes to the backend as it is. -/
theorem mem_handleWifiSettings_iff {cfg : Config} (hbackend : cfg.backend = true)
    (env : Backend) {ssid pw : Text} :
    .tryConnect ssid.1 pw.1 ∈ handleWifiSettings cfg env ssid.1 pw.1 ↔ Accepted ssid pw := by
  have hno := tryConnect_notMem_emitError cfg .invalidRpc ssid.1 pw.1
  rw [handleWifiSettings]
  split
  · next hssid =>
    refine iff_of_false hno fun h => ?_
    rcases hssid with hempty | hlong
    · exact h.ssid_ne hempty
    · exact absurd h.ssid_le (Nat.not_le.2 hlong)
  next hssid =>
  split
  · next hshort =>
    refine iff_of_false hno fun h => ?_
    rcases h.pw_ge with hempty | hge
    · exact absurd hshort.1 (by simp [hempty])
    · exact absurd hge (Nat.not_le.2 hshort.2)
  next hshort =>
  split
  · next hlong => exact iff_of_false hno fun h => absurd h.pw_le (Nat.not_le.2 hlong)
  next hlong =>
  rw [not_or, Nat.not_lt] at hssid
  refine iff_of_true ?_ ⟨hssid.1, hssid.2, ?_, Nat.not_lt.1 hlong⟩
  · rw [cStr_text, cStr_text]
    exact List.mem_append_right _ List.mem_cons_self
  · rcases Nat.eq_zero_or_pos pw.1.length with hzero | hpos
    · exact Or.inl (List.length_eq_zero_iff.1 hzero)
    · exact Or.inr (Nat.not_lt.1 fun hlt => hshort ⟨hpos, hlt⟩)

/-- The SSID and the password reach the driver unchanged from `tryConnect`, and as they do from
`net_init` after `net_persist_creds` has stored them. -/
def ReachDriver (ssid pw : Text) : Prop :=
  ∀ connectToStrongest, ∃ wcfg,
    tryConnect true connectToStrongest (some ssid) (some pw) = some wcfg ∧
    wcfg.ssid.read = ssid.1 ∧ wcfg.password.read = pw.1 ∧
    ∀ c nvs buf, (netPersistCreds c nvs buf (some ssid) (some pw)).1 = .returned .ok →
      ∃ wc, netInit (netPersistCreds c nvs buf (some ssid) (some pw)).2.1 = some wc ∧
        wc.ssid.read = wcfg.ssid.read ∧ wc.password.read = wcfg.password.read

section Ways

variable {ssid pw : Text}

theorem withStrongest_ssid (wcfg : StaConfig) (b : Bool) :
    (wcfg.withStrongest b).ssid = wcfg.ssid := by
  cases b <;> rfl

theorem withStrongest_password (wcfg : StaConfig) (b : Bool) :
    (wcfg.withStrongest b).password = wcfg.password := by
  cases b <;> rfl

theorem withPassword_ssid (wcfg : StaConfig) (password : Option Text) :
    (wcfg.withPassword password).ssid = wcfg.ssid := by
  rcases password with _ | ⟨_ | ⟨c, s⟩, h⟩
  · rfl
  · rfl
  · rfl

/-- A field without a password is left as it was. -/
theorem read_withPassword (hpw : pw.1.length ≤ 63) :
    ∀ wcfg : StaConfig, wcfg.password = .zero 64 →
      (wcfg.withPassword (some pw)).password.read = pw.1 := by
  intro wcfg hzero
  obtain ⟨bytes, hnul⟩ := pw
  cases bytes with
  | nil =>
    change wcfg.password.read = []
    rw [hzero]
    exact Field.cStr_append_zeros List.not_mem_nil 64
  | cons c s =>
    change ((Field.zero 64).strncpy ⟨c :: s, hnul⟩ (64 - 1) (Nat.sub_le 64 1)).read = c :: s
    rw [Field.read_strncpy_zero, List.take_of_length_le hpw]

/-- What `tryConnect` passes is read as the first 31 bytes of the SSID, and the password. -/
theorem read_tryConnect (ssid pw : Text) (connectToStrongest : Bool) (hpw : pw.1.length ≤ 63) :
    ∃ wcfg, tryConnect true connectToStrongest (some ssid) (some pw) = some wcfg ∧
      wcfg.ssid.read = ssid.1.take 31 ∧ wcfg.password.read = pw.1 := by
  refine ⟨_, rfl, ?_, ?_⟩
  · rw [withStrongest_ssid]
    dsimp only
    rw [withPassword_ssid]
    exact Field.read_strncpy_zero (Nat.sub_le 32 1)
  · rw [withStrongest_password]
    exact read_withPassword hpw _ rfl

/-- What was stored is read after a restart. -/
theorem bootCreds_persisted (c : NvsCalls) (nvs : Nvs) (buf : Creds) (ssid : CStr 33)
    (pass : CStr 65)
    (h : (netPersistCreds c nvs buf (some ssid.text) (some pass.text)).1 = .returned .ok) :
    bootCreds (netPersistCreds c nvs buf (some ssid.text) (some pass.text)).2.1 =
      (true, ⟨ssid, pass⟩) := by
  have hlanded := NvsCalls.Succeeds.landed (nvsWrite_ok.1 h)
  have hentry : (nvsWrite c (credSets ssid.text (some pass.text)) nvs).2.entry =
      put [(.wifiSsid, .str ssid.text), (.wifiPass, .str pass.text)] nvs.entry := by
    rw [nvsWrite_entry, hlanded]
    rfl
  exact bootCreds_both hentry

theorem read_memcpy_take (s : List UInt8) {size : Nat} (hlen : s.length ≤ size) (hnul : 0 ∉ s) :
    ((Field.zero size).memcpy _ (length_take_min s size)).read = s := by
  rw [Field.read_memcpy_zero _ fun hmem => hnul (List.mem_of_mem_take hmem),
    if_neg (Nat.not_lt.2 hlen), List.take_length]

/-- What `net_init` passes is read as what was stored. -/
theorem read_netInit {nvs : Nvs} {ssid : CStr 33} {pass : CStr 65}
    (hboot : bootCreds nvs = (true, ⟨ssid, pass⟩)) (hne : ssid.bytes ≠ [])
    (hpass : pass.bytes.length ≤ 64) :
    ∃ wc, netInit nvs = some wc ∧ wc.ssid.read = ssid.bytes ∧ wc.password.read = pass.bytes := by
  rw [netInit, hboot]
  refine ⟨_, if_pos ⟨rfl, hne⟩, ?_, ?_⟩
  · exact read_memcpy_take ssid.bytes (Nat.le_of_lt_succ ssid.fits) ssid.noNul
  · exact read_memcpy_take pass.bytes hpass pass.noNul

/-- **When accepted credentials reach the driver unchanged.** They do on both ways if and only
if the SSID has less than 32 bytes. -/
theorem creds_reach_driver_iff (ssid pw : Text) (h : Accepted ssid pw) :
    ReachDriver ssid pw ↔ ssid.1.length ≤ 31 := by
  have hpw := h.pw_le
  constructor
  · intro hreach
    obtain ⟨wcfg, hwcfg, hssid, -⟩ := hreach true
    obtain ⟨wcfg', hwcfg', htake, -⟩ := read_tryConnect ssid pw true hpw
    cases hwcfg.symm.trans hwcfg'
    have hcut : ssid.1 = ssid.1.take 31 := hssid.symm.trans htake
    rw [hcut, List.length_take]
    exact Nat.min_le_left _ _
  · intro hle connectToStrongest
    obtain ⟨wcfg, hwcfg, hssid, hpass⟩ := read_tryConnect ssid pw connectToStrongest hpw
    rw [List.take_of_length_le hle] at hssid
    refine ⟨wcfg, hwcfg, hssid, hpass, ?_⟩
    intro c nvs buf hok
    have hboot := bootCreds_persisted c nvs buf ⟨ssid.1, ssid.2, Nat.lt_succ_of_le h.ssid_le⟩
      ⟨pw.1, pw.2, by omega⟩ hok
    obtain ⟨wc, hwc, hssid', hpass'⟩ := read_netInit hboot h.ssid_ne (Nat.le_succ_of_le hpw)
    exact ⟨wc, hwc, hssid'.trans hssid.symm, hpass'.trans hpass.symm⟩

end Ways

/-- An open network. -/
theorem creds_reach_driver_iff_home :
    ReachDriver ⟨[104, 111, 109, 101], by decide⟩ ⟨[], noNul_nil⟩ ↔
      [104, 111, 109, 101].length ≤ 31 :=
  creds_reach_driver_iff _ _ ⟨by decide, by decide, Or.inl rfl, by decide⟩

theorem noNul_fullSsid : (0 : UInt8) ∉ List.replicate 32 (97 : UInt8) := by decide

/-- An SSID of 32 bytes. -/
def fullSsid : Text := ⟨List.replicate 32 97, noNul_fullSsid⟩

theorem creds_reach_driver_fails :
    ¬ ∀ ssid pw, Accepted ssid pw → ReachDriver ssid pw := by
  intro hall
  have hreach := hall fullSsid ⟨[], noNul_nil⟩ ⟨by decide, by decide, Or.inl rfl, by decide⟩
  obtain ⟨wcfg, hwcfg, hssid, -⟩ := hreach true
  obtain ⟨wcfg', hwcfg', htake, -⟩ := read_tryConnect fullSsid ⟨[], noNul_nil⟩ true (by decide)
  cases hwcfg.symm.trans hwcfg'
  have hcut : fullSsid.1 = fullSsid.1.take 31 := hssid.symm.trans htake
  exact absurd hcut (by decide)

end Cdc2Net.Net
