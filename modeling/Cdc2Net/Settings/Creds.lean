import Cdc2Net.Settings.Config

/-!
# Atomicity of the settings

`net_persist_creds` and `load_creds` of `net.c` beside the writers of `config.c`. A record
that is written key by key is not atomic: `settings_atomic_iff` says exactly when a writer
that is cut off or fails leaves what was there, and that it leaves the new record after
`ESP_OK`. `settings_atomic_fails` is an SSID with another network's password.
-/

set_option autoImplicit false

namespace Cdc2Net.Settings

open Cdc2Net.Lib.KeyedRecord
open Cdc2Net.Source (asciiBytes)

/-- `s_ssid_buf` and `s_pass_buf`. -/
structure Creds where
  ssid : CStr 33
  pass : CStr 65
  deriving DecidableEq

/-- The buffers as `net_init` clears them. -/
def Creds.empty : Creds := ⟨.empty 33, .empty 65⟩

/-- `WIFI_SSID`, empty unless the build defines it. -/
def wifiSsid : Text := ⟨[], noNul_nil⟩
/-- `WIFI_PASS`. -/
def wifiPass : Text := ⟨[], noNul_nil⟩

/-- `load_creds`: whether it returns `ESP_OK`, and the buffers. -/
def loadCreds (nvs : Nvs) (buf : Creds) : Bool × Creds :=
  if 1 < wifiSsid.1.length + 1 then (true, ⟨.print 33 wifiSsid, .print 65 wifiPass⟩)
  else if nvs.opens = false then (false, buf)
  else
    match nvsGetStr nvs.entry .wifiSsid 33 with
    | none => (false, buf)
    | some ssid =>
      match nvsGetStr nvs.entry .wifiPass 65 with
      | none => (false, { buf with ssid := ssid })
      | some pass => (true, ⟨ssid, pass⟩)

/-- What `net_init` reads after a restart. -/
def bootCreds (nvs : Nvs) : Bool × Creds := loadCreds nvs .empty

/-- The keys of `net_persist_creds`; a missing password is an empty one. -/
def credSets (ssid : Text) (psk : Option Text) : List (NvsKey × Value) :=
  [(.wifiSsid, .str ssid), (.wifiPass, .str (psk.getD ⟨[], noNul_nil⟩))]

/-- `net_persist_creds`: the buffers are updated on `ESP_OK` only. -/
def netPersistCreds (c : NvsCalls) (nvs : Nvs) (buf : Creds) (ssid psk : Option Text) :
    End × Nvs × Creds :=
  match ssid with
  | none => (.returned .invalidArg, nvs, buf)
  | some ssid =>
    let r := nvsWrite c (credSets ssid psk) nvs
    (r.1, r.2, if r.1 = .returned .ok then
      ⟨.print 33 ssid, .print 65 (psk.getD ⟨[], noNul_nil⟩)⟩ else buf)

/-! ## Atomicity -/

/-- `config_save` is atomic: the new settings are loaded after `ESP_OK`, else the old ones. -/
def SaveAtomic (c : NvsCalls) (nvs : Nvs) (cfg : Cfg) : Prop :=
  let r := configSave c nvs (some cfg)
  (r.1 = .returned .ok → cfg.tcpPort ≠ 0 → cfg.wdtTimeoutS ≠ 0 → configLoad r.2 = cfg) ∧
    (r.1 ≠ .returned .ok → configLoad r.2 = configLoad nvs)

/-- `net_persist_creds` is atomic, in the namespace and in the buffers. -/
def PersistAtomic (c : NvsCalls) (nvs : Nvs) (buf : Creds) (ssid : CStr 33)
    (psk : Option (CStr 65)) : Prop :=
  let r := netPersistCreds c nvs buf (some ssid.text) (psk.map CStr.text)
  (r.1 = .returned .ok →
    bootCreds r.2.1 = (true, ⟨ssid, psk.getD (.empty 65)⟩) ∧
      r.2.2 = ⟨ssid, psk.getD (.empty 65)⟩) ∧
    (r.1 ≠ .returned .ok → bootCreds r.2.1 = bootCreds nvs ∧ r.2.2 = buf)

/-- The credentials that were stored read as the first `n` of the new ones. The SSID alone
may also be empty where neither could be read. -/
def SameCreds (nvs : Nvs) (new : Creds) : Nat → Prop
  | 0 => True
  | 1 =>
    nvsGetStr nvs.entry .wifiSsid 33 = some new.ssid ∨
      nvsGetStr nvs.entry .wifiSsid 33 = none ∧ nvsGetStr nvs.entry .wifiPass 65 = none ∧
        new.ssid = .empty 33
  | _ =>
    nvsGetStr nvs.entry .wifiSsid 33 = some new.ssid ∧
      nvsGetStr nvs.entry .wifiPass 65 = some new.pass

section Atomic

variable {c : NvsCalls} {nvs nvs' : Nvs} {cfg : Cfg} {buf : Creds} {ssid : CStr 33}
  {psk : Option (CStr 65)}

theorem saveAtomic_iff : SaveAtomic c nvs cfg ↔ c.Succeeds 13 ∨
    ∀ kv ∈ c.landed cfg.sets, (configLoad nvs).value kv.1 = cfg.loaded.value kv.1 := by
  have hok : (nvsWrite c cfg.sets nvs).1 = .returned .ok ↔ c.Succeeds 13 := nvsWrite_ok
  have hentry : (nvsWrite c cfg.sets nvs).2.entry = put (c.landed cfg.sets) nvs.entry :=
    nvsWrite_entry
  simp only [SaveAtomic, configSave]
  by_cases hs : c.Succeeds 13
  · refine iff_of_true ⟨fun _ hport htime => ?_, fun hne => absurd (hok.2 hs) hne⟩ (Or.inl hs)
    have hlanded : c.landed cfg.sets = cfg.sets := NvsCalls.Succeeds.landed hs
    rw [hlanded] at hentry
    rw [configLoad_put hentry, Cfg.loaded, if_pos hport, if_pos htime]
  · have hne : (nvsWrite c cfg.sets nvs).1 ≠ .returned .ok := fun h => hs (hok.1 h)
    -- a part of the new settings over the old ones
    have hsub : c.landed cfg.sets ⊆ cfg.sets := NvsCalls.landed_initial.subset
    have hnodup : ((c.landed cfg.sets).map Prod.fst).Nodup :=
      cfg.sets_nodup.sublist ((NvsCalls.landed_initial.sublist).map Prod.fst)
    have hview : (∀ k, configView.read (put (c.landed cfg.sets) nvs.entry) k =
          configView.read nvs.entry k) ↔
        ∀ kv ∈ c.landed cfg.sets, configView.read nvs.entry kv.1 = cfg.loaded.value kv.1 :=
      View.put_eq_iff hnodup fun kv hkv t ht => overlay_set (hsub hkv) ht
    have hload : configLoad (nvsWrite c cfg.sets nvs).2 = configLoad nvs ↔
        ∀ k, configView.read (put (c.landed cfg.sets) nvs.entry) k =
          configView.read nvs.entry k := by
      rw [configLoad_eq, configLoad_eq, hentry]
      exact ⟨fun h k => congrArg (fun cfg => Cfg.value cfg k) h, Cfg.ext_value⟩
    rw [or_iff_right hs, configLoad_eq nvs]
    refine Iff.trans ?_ hview
    rw [← hload, configLoad_eq nvs]
    exact ⟨fun h => h.2 hne, fun h => ⟨fun hh => absurd hh hne, fun _ => h⟩⟩

/-- What is read after a restart depends on the two strings. -/
theorem bootCreds_eq (nvs : Nvs) : bootCreds nvs =
    match nvsGetStr nvs.entry .wifiSsid 33, nvsGetStr nvs.entry .wifiPass 65 with
    | none, _ => (false, .empty)
    | some ssid, none => (false, ⟨ssid, .empty 65⟩)
    | some ssid, some pass => (true, ⟨ssid, pass⟩) := by
  have hmacro : ¬ 1 < wifiSsid.1.length + 1 := by decide
  rw [bootCreds, loadCreds, if_neg hmacro]
  split
  · next h =>
    have hnone := nvs.closed h
    simp [nvsGetStr, hnone]
  · cases nvsGetStr nvs.entry .wifiSsid 33 with
    | none => rfl
    | some ssid => cases nvsGetStr nvs.entry .wifiPass 65 <;> rfl

theorem nvsGetStr_congr {e e' : Store NvsKey Value} {k : NvsKey} (h : e k = e' k) (size : Nat) :
    nvsGetStr e k size = nvsGetStr e' k size := by
  rw [nvsGetStr, nvsGetStr, h]

theorem credSets_text (ssid : CStr 33) (psk : Option (CStr 65)) :
    credSets ssid.text (psk.map CStr.text) =
      [(.wifiSsid, .str ssid.text), (.wifiPass, .str (psk.getD (.empty 65)).text)] := by
  cases psk <;> rfl

/-- A new SSID is read with the old password. -/
theorem bootCreds_ssid (h : nvs'.entry = put [(.wifiSsid, .str ssid.text)] nvs.entry) :
    bootCreds nvs' =
      match nvsGetStr nvs.entry .wifiPass 65 with
      | none => (false, ⟨ssid, .empty 65⟩)
      | some pass => (true, ⟨ssid, pass⟩) := by
  have hssid : nvsGetStr nvs'.entry .wifiSsid 33 = some ssid := by
    rw [h]
    exact nvsGetStr_text (put_of_mem (by simp) (by simp))
  have hpass : nvsGetStr nvs'.entry .wifiPass 65 = nvsGetStr nvs.entry .wifiPass 65 := by
    rw [h]
    exact nvsGetStr_congr (put_of_notMem (by simp)) 65
  rw [bootCreds_eq, hssid, hpass]
  cases nvsGetStr nvs.entry .wifiPass 65 <;> rfl

/-- Both keys are read as they were set. -/
theorem bootCreds_both {pass : CStr 65} (h : nvs'.entry =
    put [(.wifiSsid, .str ssid.text), (.wifiPass, .str pass.text)] nvs.entry) :
    bootCreds nvs' = (true, ⟨ssid, pass⟩) := by
  have hssid : nvsGetStr nvs'.entry .wifiSsid 33 = some ssid := by
    rw [h]
    exact nvsGetStr_text (put_of_mem (by simp) (by simp))
  have hpass : nvsGetStr nvs'.entry .wifiPass 65 = some pass := by
    rw [h]
    exact nvsGetStr_text (put_of_mem (by simp) (by simp))
  rw [bootCreds_eq, hssid, hpass]

/-- The credentials are read as before if and only if what was set reads as before. -/
theorem bootCreds_put_iff {new : Creds} {kvs : List (NvsKey × Value)}
    (hkvs : kvs <+: [(.wifiSsid, .str new.ssid.text), (.wifiPass, .str new.pass.text)])
    (h : nvs'.entry = put kvs nvs.entry) :
    bootCreds nvs' = bootCreds nvs ↔ SameCreds nvs new kvs.length := by
  obtain ⟨ssid, pass⟩ := new
  have hlen := hkvs.length_le
  have htake := List.prefix_iff_eq_take.1 hkvs
  obtain hn | hn | hn : kvs.length = 0 ∨ kvs.length = 1 ∨ kvs.length = 2 := by
    simp only [List.length_cons, List.length_nil] at hlen
    omega
  · rw [hn] at htake ⊢
    rw [htake] at h
    have hboth : ∀ k size, nvsGetStr nvs'.entry k size = nvsGetStr nvs.entry k size :=
      fun k size => nvsGetStr_congr (congrFun h k) size
    refine iff_of_true ?_ trivial
    rw [bootCreds_eq, bootCreds_eq, hboth, hboth]
  · rw [hn] at htake ⊢
    rw [htake] at h
    rw [bootCreds_ssid h, bootCreds_eq, SameCreds]
    cases nvsGetStr nvs.entry .wifiSsid 33 with
    | none =>
      cases nvsGetStr nvs.entry .wifiPass 65 with
      | none => simp [Creds.empty]
      | some old => simp
    | some oldSsid =>
      cases nvsGetStr nvs.entry .wifiPass 65 with
      | none => simp [eq_comm]
      | some old => simp [eq_comm]
  · rw [hn] at htake ⊢
    rw [htake] at h
    rw [bootCreds_both h, bootCreds_eq]
    simp only [SameCreds]
    cases nvsGetStr nvs.entry .wifiSsid 33 with
    | none => simp
    | some oldSsid =>
      cases nvsGetStr nvs.entry .wifiPass 65 with
      | none => simp
      | some old => simp [eq_comm]

theorem persistAtomic_iff : PersistAtomic c nvs buf ssid psk ↔ c.Succeeds 2 ∨
    SameCreds nvs ⟨ssid, psk.getD (.empty 65)⟩
      (c.landed (credSets ssid.text (psk.map CStr.text))).length := by
  rw [credSets_text]
  obtain ⟨pass, hpass⟩ : ∃ pass, pass = psk.getD (.empty 65) := ⟨_, rfl⟩
  obtain ⟨sets, hsets⟩ : ∃ sets : List (NvsKey × Value),
      sets = [(.wifiSsid, .str ssid.text), (.wifiPass, .str pass.text)] := ⟨_, rfl⟩
  have hok : (nvsWrite c sets nvs).1 = .returned .ok ↔ c.Succeeds 2 := by
    rw [nvsWrite_ok, hsets]
    rfl
  have hentry : (nvsWrite c sets nvs).2.entry = put (c.landed sets) nvs.entry := nvsWrite_entry
  have hprint : (psk.map CStr.text).getD ⟨[], noNul_nil⟩ = pass.text := by
    rw [hpass]
    cases psk <;> rfl
  simp only [PersistAtomic, netPersistCreds, credSets, hprint, ← hpass, ← hsets,
    CStr.print_text]
  by_cases hs : c.Succeeds 2
  · have hlanded : c.landed sets = sets := by
      refine NvsCalls.Succeeds.landed ?_
      rw [hsets]
      exact hs
    rw [hlanded, hsets] at hentry
    refine iff_of_true ⟨fun h => ⟨?_, if_pos h⟩, fun hne => absurd (hok.2 hs) hne⟩ (Or.inl hs)
    rw [hsets]
    exact bootCreds_both hentry
  · have hne : (nvsWrite c sets nvs).1 ≠ .returned .ok := fun h => hs (hok.1 h)
    have hkvs : c.landed sets <+: [(.wifiSsid, .str ssid.text), (.wifiPass, .str pass.text)] := by
      rw [← hsets]
      exact NvsCalls.landed_initial
    have hboot : bootCreds (nvsWrite c sets nvs).2 = bootCreds nvs ↔
        SameCreds nvs ⟨ssid, pass⟩ (c.landed sets).length := bootCreds_put_iff hkvs hentry
    rw [or_iff_right hs, ← hboot]
    exact ⟨fun h => (h.2 hne).1, fun h => ⟨fun hh => absurd hh hne, fun _ => ⟨h, if_neg hne⟩⟩⟩

end Atomic

/-- The settings and the credentials are written atomically if and only if all calls succeed,
or what was set before the first that did not is what was stored. -/
theorem settings_atomic_iff (c : NvsCalls) (nvs : Nvs) :
    (∀ cfg, SaveAtomic c nvs cfg ↔ c.Succeeds 13 ∨
      ∀ kv ∈ c.landed cfg.sets, (configLoad nvs).value kv.1 = cfg.loaded.value kv.1) ∧
    (∀ buf ssid psk, PersistAtomic c nvs buf ssid psk ↔ c.Succeeds 2 ∨
      SameCreds nvs ⟨ssid, psk.getD (.empty 65)⟩
        (c.landed (credSets ssid.text (psk.map CStr.text))).length) :=
  ⟨fun _ => saveAtomic_iff, fun _ _ _ => persistAtomic_iff⟩

/-- The `n`-th `nvs_set_*` fails. -/
def failsAt (n : Nat) : NvsCalls :=
  ⟨.ok, fun i => if i = n then .fail ⟨.noMem, by decide⟩ else .ok, .ok, false⟩

/-- A network in the namespace, and no settings. -/
def homeNvs : Nvs where
  opens := true
  entry := put [(.wifiSsid, .str ⟨asciiBytes "home", by decide⟩),
    (.wifiPass, .str ⟨asciiBytes "home-password", by decide⟩)] fun _ => none
  closed h := by cases h

/-- A static address. -/
def staticCfg : Cfg :=
  { configDefault with
    staticIp := true
    ip := ⟨asciiBytes "10.0.0.2", by decide, by decide⟩ }

/-- The address cannot be stored: the settings that are loaded are static without one. The
password cannot be stored: the new SSID is read with the old password. -/
theorem settings_atomic_fails :
    ¬ SaveAtomic (failsAt 2) homeNvs staticCfg ∧
    configLoad (configSave (failsAt 2) homeNvs (some staticCfg)).2 =
      { configDefault with staticIp := true } ∧
    ¬ PersistAtomic (failsAt 1) homeNvs .empty ⟨asciiBytes "work", by decide, by decide⟩
      (some ⟨asciiBytes "work-password", by decide, by decide⟩) ∧
    bootCreds (netPersistCreds (failsAt 1) homeNvs .empty (some ⟨asciiBytes "work", by decide⟩)
        (some ⟨asciiBytes "work-password", by decide⟩)).2.1 =
      (true, ⟨⟨asciiBytes "work", by decide, by decide⟩,
        ⟨asciiBytes "home-password", by decide, by decide⟩⟩) := by
  refine ⟨?_, ?_, ?_, ?_⟩
  · unfold SaveAtomic
    decide +kernel
  · decide +kernel
  · unfold PersistAtomic
    decide +kernel
  · decide +kernel

end Cdc2Net.Settings
