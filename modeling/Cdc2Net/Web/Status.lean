import Cdc2Net.Settings.Config
import Cdc2Net.Web.JsonEscape

/-!
# `GET /api/config` and `GET /api/status`

`h_config_get` and `h_status` of `webui.c`. Both print the addresses of the settings between
quotes as they are. If these need no escapes, each answer is a JSON text and gives the
addresses back (`hConfigGet_back`, `hStatus_back`); the status does if the other strings that
it prints as they are need none either.
-/

set_option autoImplicit false

namespace Cdc2Net.Web

open Cdc2Net.Lib.Json
open Cdc2Net.Settings
open Cdc2Net.Source (asciiBytes)

/-! ## Printing -/

/-- `\"%s\"`. -/
def printStr (s : Bytes) : Bytes := quote :: s ++ [quote]

/-- `%s` with `true` or `false`. -/
def printBool (b : Bool) : Bytes := if b then asciiBytes "true" else asciiBytes "false"

/-- `%d`. -/
def printInt (i : Int) : Bytes :=
  if i < 0 then 45 :: decimal i.natAbs else decimal i.natAbs

/-- A digit of `%X`. -/
def hexUpper (d : Nat) : UInt8 := if d < 10 then .ofNat (48 + d) else .ofNat (55 + d)

/-- `%04X` of a `uint16_t`. -/
def printHex4 (v : UInt16) : Bytes :=
  [v.toNat / 4096, v.toNat / 256 % 16, v.toNat / 16 % 16, v.toNat % 16].map hexUpper

/-- The text of an object with these names. -/
def printFields (ms : List (String × Bytes)) : Bytes :=
  printObject (ms.map fun m => (asciiBytes m.1, m.2))

/-- The settings, as both handlers print them. -/
def printCfg (c : Cfg) : Bytes :=
  printFields
    [("tcp_port", decimal c.tcpPort.toNat), ("static_ip", printBool c.staticIp),
      ("ip", printStr c.ip.bytes), ("mask", printStr c.mask.bytes), ("gw", printStr c.gw.bytes),
      ("dns", printStr c.dns.bytes), ("eth_static_ip", printBool c.ethStaticIp),
      ("eth_ip", printStr c.ethIp.bytes), ("eth_mask", printStr c.ethMask.bytes),
      ("eth_gw", printStr c.ethGw.bytes), ("eth_dns", printStr c.ethDns.bytes),
      ("wdt_enable", printBool c.wdtEnable), ("wdt_timeout_s", decimal c.wdtTimeoutS.toNat)]

/-- `h_config_get`; `hConfigGet_fits` says that its buffer of 512 bytes holds the text. -/
def hConfigGet (nvs : Nvs) : Bytes := printCfg (configLoad nvs)

/-! ## The status -/

/-- `net_disc_evt_t` and the name of its reason. -/
structure Disconnect where
  ts : UInt32
  reason : UInt8
  name : Bytes
  rssi : Int

/-- What `h_status` reads besides the settings. -/
structure DeviceInfo where
  fwVersion : Bytes
  built : Bytes
  featEeprom : Bool
  featDfu : Bool
  featRecovery : Bool
  wifiUp : Bool
  ssid : Bytes
  wifiIp : Bytes
  wifiGw : Bytes
  apMode : Bool
  host : Bytes
  discTotal : UInt32
  disc : List Disconnect
  ethPresent : Bool
  ethUp : Bool
  ethIp : Bytes
  ethGw : Bytes
  radioPresent : Bool
  radioTarget : Int
  radioStaged : Bytes
  radioRunning : Bytes
  radioProject : Bytes
  radioRewritten : Bool
  radioAppBytes : UInt32
  usbConnected : Bool
  vid : UInt16
  pid : UInt16
  manuf : Bytes
  product : Bytes
  usbRx : UInt32
  usbTx : UInt32
  sinks : UInt32
  brRx : UInt32
  brTx : UInt32
  rxPumps : UInt32
  txDrop : UInt32
  tcpPort : UInt16
  clients : Int
  accepts : UInt32
  tcpRx : UInt32
  tcpTx : UInt32
  uptime : UInt32
  freeHeap : UInt32
  minFreeHeap : UInt32
  largestBlock : UInt32
  resetReason : Bytes
  chip : Bytes
  chipRev : Int
  mac : Bytes
  bootCount : UInt32
  crashCount : UInt32
  wdtReboots : UInt32
  wdtSubscribed : Bool
  eeState : UInt32
  eeSize : UInt32
  eePage : UInt32

/-- One entry of the disconnect history. -/
def printDisconnect (e : Disconnect) : Bytes :=
  printFields [("ts", decimal e.ts.toNat), ("reason", decimal e.reason.toNat),
    ("name", printStr e.name), ("rssi", printInt e.rssi)]

/-- The loop over the history, with `dj` bytes in an array of `cap`: an entry that does not fit
ends it. -/
def discLoop (cap : Nat) : Nat → List Disconnect → Bytes
  | _, [] => []
  | dj, e :: es =>
    let piece := (if dj = 0 then [] else [comma]) ++ printDisconnect e
    if cap - dj ≤ piece.length then [] else piece ++ discLoop cap (dj + piece.length) es

/-- The fields of the status. -/
def statusFields (d : DeviceInfo) (c : Cfg) : List (String × Bytes) :=
  [("fw", printFields [("version", printStr d.fwVersion), ("built", printStr d.built)]),
    ("features", printFields [("eeprom", printBool d.featEeprom), ("dfu", printBool d.featDfu),
      ("recovery", printBool d.featRecovery)]),
    ("wifi", printFields [("up", printBool d.wifiUp), ("ssid", printStr (jsonEscape 200 d.ssid)),
      ("ip", printStr d.wifiIp), ("gw", printStr d.wifiGw), ("ap", printBool d.apMode),
      ("host", printStr d.host),
      ("disc", printFields [("total", decimal d.discTotal.toNat),
        ("last", 91 :: discLoop 640 0 d.disc ++ [93])])]),
    ("eth", printFields [("present", printBool d.ethPresent), ("up", printBool d.ethUp),
      ("ip", printStr d.ethIp), ("gw", printStr d.ethGw)]),
    ("radio", printFields [("present", printBool d.radioPresent),
      ("target", printInt d.radioTarget), ("staged", printStr d.radioStaged),
      ("running", printStr d.radioRunning), ("project", printStr d.radioProject),
      ("rewritten", printBool d.radioRewritten), ("app_bytes", decimal d.radioAppBytes.toNat)]),
    ("usb", printFields [("connected", printBool d.usbConnected),
      ("vid", printStr (printHex4 d.vid)), ("pid", printStr (printHex4 d.pid)),
      ("manuf", printStr (jsonEscape 100 d.manuf)),
      ("product", printStr (jsonEscape 100 d.product)), ("rx", decimal d.usbRx.toNat),
      ("tx", decimal d.usbTx.toNat)]),
    ("br", printFields [("sinks", decimal d.sinks.toNat), ("rx_bytes", decimal d.brRx.toNat),
      ("tx_bytes", decimal d.brTx.toNat), ("rx_pumps", decimal d.rxPumps.toNat),
      ("tx_drop", decimal d.txDrop.toNat)]),
    ("tcp", printFields [("port", decimal d.tcpPort.toNat), ("clients", printInt d.clients),
      ("accepts", decimal d.accepts.toNat), ("rx", decimal d.tcpRx.toNat),
      ("tx", decimal d.tcpTx.toNat)]),
    ("cfg", printCfg c),
    ("sys", printFields [("uptime_s", decimal d.uptime.toNat),
      ("free_heap", decimal d.freeHeap.toNat), ("min_free_heap", decimal d.minFreeHeap.toNat),
      ("largest_block", decimal d.largestBlock.toNat), ("reset_reason", printStr d.resetReason),
      ("chip", printStr d.chip), ("chip_rev", printInt d.chipRev), ("mac", printStr d.mac)]),
    ("health", printFields [("boot_count", decimal d.bootCount.toNat),
      ("crash_count", decimal d.crashCount.toNat), ("wdt_reboots", decimal d.wdtReboots.toNat),
      ("wdt_subscribed", printBool d.wdtSubscribed)]),
    ("eeprom", printFields [("state", decimal d.eeState.toNat), ("size", decimal d.eeSize.toNat),
      ("page", decimal d.eePage.toNat)])]

/-- The text of the status. -/
def statusText (d : DeviceInfo) (c : Cfg) : Bytes := printFields (statusFields d c)

/-- `h_status`: the text, or `none` for the error 500 of a text that does not fit. -/
def hStatus (d : DeviceInfo) (nvs : Nvs) : Option Bytes :=
  let text := statusText d (configLoad nvs)
  if 3072 ≤ text.length then none else some text

/-! ## What the answers read as -/

/-- The addresses: their names in the answers, and their keys. -/
def addressFields : List (String × NvsKey) :=
  [("ip", .ip), ("mask", .mask), ("gw", .gw), ("dns", .dns), ("eth_ip", .ethIp),
    ("eth_mask", .ethMask), ("eth_gw", .ethGw), ("eth_dns", .ethDns)]

/-- The string needs no escapes. -/
def Plain (s : Bytes) : Prop := ∀ b ∈ s, isPlain b = true

instance (s : Bytes) : Decidable (Plain s) := inferInstanceAs (Decidable (∀ b ∈ s, _))

/-- No address needs escapes. -/
def PlainCfg (c : Cfg) : Prop := ∀ k s, c.value k = some (.str s) → Plain s.1

/-- The object has each address under its name, once. -/
def GivesBack (v : Lib.Json.Value) (c : Cfg) : Prop :=
  ∀ f ∈ addressFields, ∀ s, c.value f.2 = some (.str s) →
    v.members (asciiBytes f.1) = [.str s.1]

/-- The strings that `h_status` prints as they are. -/
def DeviceInfo.rawStrings (d : DeviceInfo) : List Bytes :=
  [d.fwVersion, d.built, d.wifiIp, d.wifiGw, d.host, d.ethIp, d.ethGw, d.radioStaged,
    d.radioRunning, d.radioProject, d.resetReason, d.chip, d.mac] ++ d.disc.map Disconnect.name

section Reading

variable {c : Cfg} {d : DeviceInfo} {nvs : Nvs} {s : Bytes} {ms : List (String × Bytes)}

theorem reads_printStr (h : Plain s) : Reads (printStr s) (.str s) := .string (.of_plain h)

theorem reads_printBool (b : Bool) : Reads (printBool b) (.bool b) := by
  cases b <;> exact fun _ _ _ _ => rfl

theorem readable_printStr (h : Plain s) : Readable (printStr s) := ⟨_, reads_printStr h⟩

theorem readable_printBool (b : Bool) : Readable (printBool b) := ⟨_, reads_printBool b⟩

theorem readable_decimal (n : Nat) : Readable (decimal n) := ⟨_, reads_decimal n⟩

theorem readable_printInt (i : Int) : Readable (printInt i) := by
  rw [printInt]
  split
  · have hnum := isNumber_decimal i.natAbs
    have hdigit := isDigit_decimal (n := i.natAbs)
    cases hd : decimal i.natAbs with
    | nil =>
      rw [hd] at hnum
      cases hnum
    | cons b bs =>
      rw [hd] at hnum hdigit
      refine ⟨_, .number (isNumber_minus ?_ hnum)⟩
      rintro rfl
      exact absurd (hdigit 45 List.mem_cons_self) (by decide)
  · exact readable_decimal _

theorem readable_jsonEscape (cap : Nat) (src : Bytes) : Readable (printStr (jsonEscape cap src)) :=
  let ⟨_, _, hreads⟩ := readsString_jsonEscape cap src
  ⟨_, .string hreads⟩

theorem isPlain_hexUpper {n : Nat} (h : n < 16) : isPlain (hexUpper n) = true := by
  have hall : ∀ n < 16, isPlain (hexUpper n) = true := by decide
  exact hall n h

theorem readable_printHex4 (v : UInt16) : Readable (printStr (printHex4 v)) := by
  refine readable_printStr fun b hb => ?_
  have hv := v.toNat_lt
  simp only [printHex4, List.map_cons, List.map_nil, List.mem_cons, List.not_mem_nil,
    or_false] at hb
  rcases hb with rfl | rfl | rfl | rfl <;> exact isPlain_hexUpper (by omega)

/-- Names that need no escapes, and texts of values. -/
def ReadableFields (ms : List (String × Bytes)) : Prop :=
  (∀ n ∈ ms.map Prod.fst, Plain (asciiBytes n)) ∧ ∀ t ∈ ms.map Prod.snd, Readable t

theorem ReadableFields.mem (h : ReadableFields ms) :
    ∀ m ∈ ms.map fun m => (asciiBytes m.1, m.2), Plain m.1 ∧ Readable m.2 := by
  intro m hm
  obtain ⟨m', hm', rfl⟩ := List.mem_map.1 hm
  exact ⟨h.1 _ (List.mem_map_of_mem hm'), h.2 _ (List.mem_map_of_mem hm')⟩

theorem readable_printFields (h : ReadableFields ms) : Readable (printFields ms) :=
  .printObject h.mem

/-- Fields that read as these values. -/
theorem reads_printFields {vs : List (String × Lib.Json.Value)}
    (hplain : ∀ n ∈ vs.map Prod.fst, Plain (asciiBytes n))
    (h : List.Forall₂ (fun m v => m.1 = v.1 ∧ Reads m.2 v.2) ms vs) :
    Reads (printFields ms) (.obj (vs.map fun m => (asciiBytes m.1, m.2))) := by
  refine .printObject ?_
  induction h with
  | nil => exact .nil
  | @cons m v ms vs hm _ ih =>
    obtain ⟨hname, hreads⟩ := hm
    refine .cons ⟨?_, congrArg asciiBytes hname, hreads⟩
      (ih fun n hn => hplain n (List.mem_cons_of_mem _ hn))
    have hv := hplain v.1 List.mem_cons_self
    rwa [← hname] at hv

/-- What the printed settings read as. -/
def cfgMembers (c : Cfg) : List (String × Lib.Json.Value) :=
  [("tcp_port", .num (decimal c.tcpPort.toNat)), ("static_ip", .bool c.staticIp),
    ("ip", .str c.ip.bytes), ("mask", .str c.mask.bytes), ("gw", .str c.gw.bytes),
    ("dns", .str c.dns.bytes), ("eth_static_ip", .bool c.ethStaticIp),
    ("eth_ip", .str c.ethIp.bytes), ("eth_mask", .str c.ethMask.bytes),
    ("eth_gw", .str c.ethGw.bytes), ("eth_dns", .str c.ethDns.bytes),
    ("wdt_enable", .bool c.wdtEnable), ("wdt_timeout_s", .num (decimal c.wdtTimeoutS.toNat))]

def cfgValue (c : Cfg) : Lib.Json.Value :=
  .obj ((cfgMembers c).map fun m => (asciiBytes m.1, m.2))

theorem givesBack_cfgValue (c : Cfg) : GivesBack (cfgValue c) c := by
  have hnames : (((cfgMembers c).map fun m => (asciiBytes m.1, m.2)).map Prod.fst).Nodup := by
    simp only [cfgMembers, List.map_cons, List.map_nil]
    decide
  intro f hf s hs
  refine members_of_mem hnames (List.mem_map.2 ⟨(f.1, .str s.1), ?_, rfl⟩)
  simp only [addressFields, List.mem_cons, List.not_mem_nil, or_false] at hf
  rcases hf with rfl | rfl | rfl | rfl | rfl | rfl | rfl | rfl <;> cases hs <;>
    simp [cfgMembers, CStr.text]

/-- The printed settings read as the settings. -/
theorem reads_printCfg (h : PlainCfg c) : Reads (printCfg c) (cfgValue c) := by
  have hstr : ∀ {a : CStr 16} (k : NvsKey), c.value k = some (.str a.text) →
      Reads (printStr a.bytes) (.str a.bytes) := fun k hk => reads_printStr (h k _ hk)
  refine reads_printFields ?_ ?_
  · simp only [cfgMembers, List.map_cons, List.map_nil]
    decide
  · refine .cons ⟨rfl, reads_decimal _⟩ (.cons ⟨rfl, reads_printBool _⟩ ?_)
    refine .cons ⟨rfl, hstr .ip rfl⟩ (.cons ⟨rfl, hstr .mask rfl⟩ ?_)
    refine .cons ⟨rfl, hstr .gw rfl⟩ (.cons ⟨rfl, hstr .dns rfl⟩ ?_)
    refine .cons ⟨rfl, reads_printBool _⟩ ?_
    refine .cons ⟨rfl, hstr .ethIp rfl⟩ (.cons ⟨rfl, hstr .ethMask rfl⟩ ?_)
    refine .cons ⟨rfl, hstr .ethGw rfl⟩ (.cons ⟨rfl, hstr .ethDns rfl⟩ ?_)
    exact .cons ⟨rfl, reads_printBool _⟩ (.cons ⟨rfl, reads_decimal _⟩ .nil)

/-- `GET /api/config` gives the addresses back if they need no escapes. -/
theorem hConfigGet_back (h : PlainCfg (configLoad nvs)) :
    ∃ v, parse (hConfigGet nvs) = some v ∧ GivesBack v (configLoad nvs) :=
  ⟨_, (reads_printCfg h).parse, givesBack_cfgValue _⟩

theorem length_printStr_le {size : Nat} (a : CStr size) : (printStr a.bytes).length ≤ size + 1 := by
  have h := a.fits
  rw [printStr, List.length_append, List.length_cons, List.length_singleton]
  omega

theorem length_printBool_le (b : Bool) : (printBool b).length ≤ 5 := by
  cases b <;> decide

/-- The answer fits the buffer of `h_config_get`. -/
theorem hConfigGet_fits (nvs : Nvs) : (hConfigGet nvs).length < 512 := by
  rw [hConfigGet]
  generalize configLoad nvs = c
  have hport : (decimal c.tcpPort.toNat).length ≤ 5 :=
    length_decimal_le (by decide) (Nat.lt_trans c.tcpPort.toNat_lt (by decide))
  have hwdt : (decimal c.wdtTimeoutS.toNat).length ≤ 10 :=
    length_decimal_le (by decide) (Nat.lt_trans c.wdtTimeoutS.toNat_lt (by decide))
  have hstr : ∀ a : CStr 16, (printStr a.bytes).length ≤ 17 := length_printStr_le
  have hbool := length_printBool_le
  have hnames : (["tcp_port", "static_ip", "ip", "mask", "gw", "dns", "eth_static_ip", "eth_ip",
    "eth_mask", "eth_gw", "eth_dns", "wdt_enable", "wdt_timeout_s"].map fun k =>
      (asciiBytes k).length) = [8, 9, 2, 4, 2, 3, 13, 6, 8, 6, 7, 10, 13] := by decide
  simp only [List.map_cons, List.map_nil, List.cons.injEq, and_true] at hnames
  refine Nat.lt_of_le_of_lt (length_printObject_le _) ?_
  simp only [List.map_cons, List.map_nil, List.sum_cons, List.sum_nil, hnames]
  have hip := hstr c.ip
  have hmask := hstr c.mask
  have hgw := hstr c.gw
  have hdns := hstr c.dns
  have hethIp := hstr c.ethIp
  have hethMask := hstr c.ethMask
  have hethGw := hstr c.ethGw
  have hethDns := hstr c.ethDns
  have hstatic := hbool c.staticIp
  have hethStatic := hbool c.ethStaticIp
  have hwdtEnable := hbool c.wdtEnable
  omega
/-- The entries of the history after the first. -/
theorem discLoop_tail (cap dj : Nat) (es : List Disconnect) (hdj : dj ≠ 0) :
    ∃ es' : List Disconnect, (∀ e ∈ es', e ∈ es) ∧
      discLoop cap dj es = es'.flatMap fun e => comma :: printDisconnect e := by
  induction es generalizing dj with
  | nil => exact ⟨[], by simp, rfl⟩
  | cons e es ih =>
    rw [discLoop, if_neg hdj]
    split
    · exact ⟨[], by simp, rfl⟩
    · obtain ⟨es', hes', heq⟩ := ih (dj + ([comma] ++ printDisconnect e).length) (by omega)
      refine ⟨e :: es', ?_, ?_⟩
      · rintro e' (_ | ⟨_, he'⟩)
        · exact List.mem_cons_self
        · exact List.mem_cons_of_mem e (hes' e' he')
      · rw [heq]
        rfl

/-- The history is a list of entries. -/
theorem discLoop_eq (cap : Nat) (es : List Disconnect) :
    ∃ es' : List Disconnect, (∀ e ∈ es', e ∈ es) ∧
      discLoop cap 0 es = [comma].intercalate (es'.map printDisconnect) := by
  have hjoin : ∀ (e : Disconnect) (es : List Disconnect),
      printDisconnect e ++ es.flatMap (fun e => comma :: printDisconnect e) =
        [comma].intercalate ((e :: es).map printDisconnect) := by
    intro e es
    induction es generalizing e with
    | nil => simp
    | cons e' es ih =>
      rw [List.map_cons, List.map_cons, List.intercalate_cons_cons, ← List.map_cons, ← ih e']
      simp
  cases es with
  | nil => exact ⟨[], by simp, rfl⟩
  | cons e es =>
    have hfirst : discLoop cap 0 (e :: es) = if cap ≤ (printDisconnect e).length then []
        else printDisconnect e ++ discLoop cap (printDisconnect e).length es := by
      simp [discLoop]
    rw [hfirst]
    split
    · exact ⟨[], by simp, rfl⟩
    · have hpos : (printDisconnect e).length ≠ 0 := by
        simp [printDisconnect, printFields, printObject]
      obtain ⟨es', hes', heq⟩ := discLoop_tail cap _ es hpos
      refine ⟨e :: es', ?_, ?_⟩
      · rintro e' (_ | ⟨_, he'⟩)
        · exact List.mem_cons_self
        · exact List.mem_cons_of_mem e (hes' e' he')
      · rw [← hjoin, ← heq]

theorem readable_discLoop {cap : Nat} (h : ∀ e ∈ d.disc, Plain e.name) :
    Readable (91 :: discLoop cap 0 d.disc ++ [93]) := by
  obtain ⟨es, hes, heq⟩ := discLoop_eq cap d.disc
  have hentry : ∀ e ∈ es, Readable (printDisconnect e) := by
    intro e he
    refine readable_printFields ⟨?_, ?_⟩
    · simp only [List.map_cons, List.map_nil]
      decide
    · simp only [List.map_cons, List.map_nil, List.forall_mem_cons]
      exact ⟨readable_decimal _, readable_decimal _, readable_printStr (h e (hes e he)),
        readable_printInt _, by simp⟩
  rw [heq]
  exact .array fun t ht => by
    obtain ⟨e, he, rfl⟩ := List.mem_map.1 ht
    exact hentry e he

/-- The device's own strings that are printed as they are need no escapes. -/
def DeviceInfo.Plain (d : DeviceInfo) : Prop := ∀ s ∈ d.rawStrings, Web.Plain s

/-- The fields of the status besides the settings. -/
theorem readable_statusFields (hd : d.Plain) :
    ∀ t ∈ ((statusFields d c).take 8 ++ (statusFields d c).drop 9).map Prod.snd, Readable t := by
  have hraw : ∀ s ∈ d.rawStrings, Readable (printStr s) := fun s hs => readable_printStr (hd s hs)
  have hdisc : ∀ e ∈ d.disc, Web.Plain e.name := fun e he =>
    hd e.name (List.mem_append_right _ (List.mem_map_of_mem he))
  have hfields : ∀ {ms : List (String × Bytes)}, (∀ n ∈ ms.map Prod.fst, Web.Plain (asciiBytes n)) →
      (∀ t ∈ ms.map Prod.snd, Readable t) → Readable (printFields ms) :=
    fun hn ht => readable_printFields ⟨hn, ht⟩
  simp only [statusFields, List.take, List.drop, List.cons_append, List.nil_append,
    List.map_cons, List.map_nil, List.forall_mem_cons]
  simp only [DeviceInfo.rawStrings, List.cons_append, List.nil_append,
    List.forall_mem_cons] at hraw
  obtain ⟨hver, hbuilt, hip, hgw, hhost, hethIp, hethGw, hstaged, hrunning, hproject, hreset, hchip,
    hmac, -⟩ := hraw
  have hnil : ∀ t ∈ ([] : List Bytes), Readable t := fun _ ht => absurd ht List.not_mem_nil
  refine ⟨hfields ?_ ?fw, hfields ?_ ?features, hfields ?_ ?wifi, hfields ?_ ?eth,
    hfields ?_ ?radio, hfields ?_ ?usb, hfields ?_ ?br, hfields ?_ ?tcp, hfields ?_ ?sys,
    hfields ?_ ?health, hfields ?_ ?eeprom, hnil⟩
  all_goals simp only [List.map_cons, List.map_nil, List.forall_mem_cons]
  case fw => exact ⟨hver, hbuilt, hnil⟩
  case features =>
    exact ⟨readable_printBool _, readable_printBool _, readable_printBool _, hnil⟩
  case wifi =>
    refine ⟨readable_printBool _, readable_jsonEscape _ _, hip, hgw, readable_printBool _, hhost,
      hfields ?_ ?disc, hnil⟩
    all_goals simp only [List.map_cons, List.map_nil, List.forall_mem_cons]
    case disc => exact ⟨readable_decimal _, readable_discLoop hdisc, hnil⟩
    decide
  case eth => exact ⟨readable_printBool _, readable_printBool _, hethIp, hethGw, hnil⟩
  case radio =>
    exact ⟨readable_printBool _, readable_printInt _, hstaged, hrunning, hproject,
      readable_printBool _, readable_decimal _, hnil⟩
  case usb =>
    exact ⟨readable_printBool _, readable_printHex4 _, readable_printHex4 _,
      readable_jsonEscape _ _, readable_jsonEscape _ _, readable_decimal _, readable_decimal _,
      hnil⟩
  case br =>
    exact ⟨readable_decimal _, readable_decimal _, readable_decimal _, readable_decimal _,
      readable_decimal _, hnil⟩
  case tcp =>
    exact ⟨readable_decimal _, readable_printInt _, readable_decimal _, readable_decimal _,
      readable_decimal _, hnil⟩
  case sys =>
    exact ⟨readable_decimal _, readable_decimal _, readable_decimal _, readable_decimal _,
      hreset, hchip, readable_printInt _, hmac, hnil⟩
  case health =>
    exact ⟨readable_decimal _, readable_decimal _, readable_decimal _, readable_printBool _, hnil⟩
  case eeprom => exact ⟨readable_decimal _, readable_decimal _, readable_decimal _, hnil⟩
  -- the names
  all_goals decide

/-- `GET /api/status` gives the addresses back if neither they nor the other strings that are
printed as they are need escapes and the text fits. -/
theorem hStatus_back (hd : d.Plain) (hfits : (statusText d (configLoad nvs)).length < 3072)
    (hc : PlainCfg (configLoad nvs)) :
    ∃ text v cfg, hStatus d nvs = some text ∧ parse text = some v ∧
      v.members (asciiBytes "cfg") = [cfg] ∧ GivesBack cfg (configLoad nvs) := by
  have hfields := readable_statusFields (c := configLoad nvs) hd
  have hnames : ∀ n ∈ ((statusFields d (configLoad nvs)).take 8 ++
      (statusFields d (configLoad nvs)).drop 9).map Prod.fst, Web.Plain (asciiBytes n) ∧
        asciiBytes n ≠ asciiBytes "cfg" := by
    simp only [statusFields, List.take, List.drop, List.cons_append, List.nil_append,
      List.map_cons, List.map_nil]
    decide
  have hsplit : statusText d (configLoad nvs) = printObject
      (((statusFields d (configLoad nvs)).take 8).map (fun m => (asciiBytes m.1, m.2)) ++
        (asciiBytes "cfg", printCfg (configLoad nvs)) ::
          ((statusFields d (configLoad nvs)).drop 9).map fun m => (asciiBytes m.1, m.2)) := rfl
  have hmem := ReadableFields.mem ⟨fun n hn => (hnames n hn).1, hfields⟩
  rw [List.map_append] at hmem
  have hplain : Web.Plain (asciiBytes "cfg") := by decide
  obtain ⟨v, hreads, hcfg⟩ := exists_members_eq hplain (reads_printCfg hc) hmem (by
    rw [← List.map_append, List.map_map]
    intro hin
    obtain ⟨m, hm, hmk⟩ := List.mem_map.1 hin
    exact (hnames m.1 (List.mem_map_of_mem hm)).2 hmk)
  refine ⟨_, v, cfgValue (configLoad nvs), if_neg (Nat.not_le.2 hfits), ?_, hcfg,
    givesBack_cfgValue _⟩
  rw [hsplit]
  exact hreads.parse

end Reading

end Cdc2Net.Web
