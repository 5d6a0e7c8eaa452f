import Cdc2Net.Improv.Frame
import Cdc2Net.Source.SerialCfg
import Mathlib.Algebra.GroupWithZero.Nat

/-!
# The remote procedure calls of Improv serial

`parsePayload_`, `dispatchCommand_` and the `emit` functions of `improv_wifi.cpp`. What a call
does is a list of effects: writes to the transport and calls of the Wi-Fi backend, whose
answers are an argument. The payload of WIFI_SETTINGS has three lengths inside each other, and
the parser takes exactly the payloads where they agree (`parsePayload_settings_iff`); it reads
nothing outside the payload (`parsePayload_isSome`).
-/

set_option autoImplicit false

namespace Cdc2Net.Improv

open Cdc2Net.Lib
open Cdc2Net.Source (asciiBytes)

/-! ## Types -/

/-- `Error`. -/
inductive Error where
  | none
  | invalidRpc
  | unknownRpc
  | unableToConnect
  | unknown
  deriving DecidableEq

def Error.byte : Error → UInt8
  | .none => 0x00
  | .invalidRpc => 0x01
  | .unknownRpc => 0x02
  | .unableToConnect => 0x03
  | .unknown => 0xFF

/-- `State`. -/
inductive WifiState where
  | authorized
  | provisioning
  | provisioned
  deriving DecidableEq

def WifiState.byte : WifiState → UInt8
  | .authorized => 0x02
  | .provisioning => 0x03
  | .provisioned => 0x04

/-- `Command`, an enumeration over a byte that is cast from what is received. -/
abbrev Command := UInt8

namespace Command

abbrev unknown : Command := 0x00
abbrev wifiSettings : Command := 0x01
abbrev getCurrentState : Command := 0x02
abbrev getDeviceInfo : Command := 0x03
abbrev getWifiNetworks : Command := 0x04
abbrev identify : Command := 0x07
abbrev badChecksum : Command := 0xFF

end Command

/-- `FrameType`. -/
inductive FrameType where
  | currentState
  | errorState
  | rpc
  | rpcResponse
  deriving DecidableEq

def FrameType.byte : FrameType → UInt8
  | .currentState => 0x01
  | .errorState => 0x02
  | .rpc => 0x03
  | .rpcResponse => 0x04

/-- `ImprovCommand`. -/
structure ImprovCommand where
  command : Command
  ssid : Bytes
  password : Bytes
  deriving DecidableEq

/-- `Command::Unknown` and no strings. -/
def ImprovCommand.none : ImprovCommand := ⟨.unknown, [], []⟩

/-- `ApRecord`. -/
structure ApRecord where
  ssid : Bytes
  rssi : Int32
  needsAuth : Bool
  deriving DecidableEq

/-- `DeviceInfo`; a string is none for a null pointer. -/
structure DeviceInfo where
  chipFamily : Nat
  firmwareName : Option Bytes
  firmwareVersion : Option Bytes
  deviceName : Option Bytes
  deviceUrl : Option Bytes

/-- `Config`: which of the pointers are set, and the window. -/
structure Config where
  backend : Bool
  write : Bool
  onError : Bool
  onConnected : Bool
  windowMs : UInt32
  device : DeviceInfo

/-- The defaults of `Config`, with a backend and a transport. -/
def defaultConfig : Config where
  backend := true
  write := true
  onError := false
  onConnected := false
  windowMs := 120000
  device :=
    { chipFamily := 0
      firmwareName := some (asciiBytes "Unknown")
      firmwareVersion := some (asciiBytes "0.0.0")
      deviceName := some (asciiBytes "Device")
      deviceUrl := none }

/-- What the backend answers. -/
structure Backend where
  isConnected : Bool
  currentIp : Bytes
  tryConnect : Bool
  scanResult : Int
  apRecord : Nat → ApRecord

/-- What the library does to its surroundings. -/
inductive Effect where
  | write (data : Bytes)
  | tryConnect (ssid password : Bytes)
  | startScan
  | clearScan
  | onConnected (ssid password : Bytes)
  | onError (e : Error)
  deriving DecidableEq

/-! ## The payload of a call -/

/-- `std::string::assign` of `len` bytes from `off` on; none if they go past the payload. -/
def slice (data : Bytes) (off len : Nat) : Option Bytes :=
  if off + len ≤ data.length then some ((data.drop off).take len) else none

/-- The strings of WIFI_SETTINGS. -/
def parseSettings (data : Bytes) (fieldsEnd : Nat) : Option ImprovCommand :=
  if fieldsEnd - 2 < 2 then some .none
  else do
    let ssidLen ← data[2]?
    if 3 + ssidLen.toNat + 1 > fieldsEnd then some .none
    else do
      let passLen ← data[3 + ssidLen.toNat]?
      if 3 + ssidLen.toNat + 1 + passLen.toNat ≠ fieldsEnd then some .none
      else do
        let ssid ← slice data 3 ssidLen.toNat
        let password ← slice data (3 + ssidLen.toNat + 1) passLen.toNat
        some ⟨.wifiSettings, ssid, password⟩

/-- The end of `parsePayload_`. -/
def parseFields (data : Bytes) (fieldsEnd : Nat) (cmd : Command) : Option ImprovCommand :=
  if cmd = .wifiSettings then parseSettings data fieldsEnd else some ⟨cmd, [], []⟩

/-- `parsePayload_`; none if it reads a byte outside the payload. -/
def parsePayload (data : Bytes) (withChecksum : Bool) : Option ImprovCommand :=
  if data.length < 2 then some .none
  else do
    let cmd ← data[0]?
    let dlen ← data[1]?
    let fieldsEnd := data.length - (if withChecksum then 1 else 0)
    if fieldsEnd < 2 ∨ dlen.toNat ≠ fieldsEnd - 2 then some .none
    else if withChecksum then do
      let last ← data[data.length - 1]?
      if checksum (data.take (data.length - 1)) ≠ last then some ⟨.badChecksum, [], []⟩
      else parseFields data fieldsEnd cmd
    else parseFields data fieldsEnd cmd

/-- The payload of WIFI_SETTINGS for an SSID and a password. -/
def encodeSettings (ssid password : Bytes) : Bytes :=
  [Command.wifiSettings, UInt8.ofNat (1 + ssid.length + 1 + password.length),
    UInt8.ofNat ssid.length] ++ ssid ++ UInt8.ofNat password.length :: password

section Payload

variable {data ssid password : Bytes} {fieldsEnd : Nat}

theorem slice_eq_some {off len : Nat} (h : off + len ≤ data.length) :
    slice data off len = some ((data.drop off).take len) := if_pos h

/-- Inside the payload every read is in bounds. -/
theorem parseSettings_isSome (h : fieldsEnd ≤ data.length) :
    (parseSettings data fieldsEnd).isSome = true := by
  rw [parseSettings]
  split
  · rfl
  · next hshort =>
    have hlen : 2 < data.length := by omega
    rw [List.getElem?_eq_getElem hlen, Option.bind_eq_bind, Option.bind_some]
    split
    · rfl
    · next hssid =>
      have hpass : 3 + data[2].toNat < data.length := by omega
      rw [List.getElem?_eq_getElem hpass, Option.bind_eq_bind, Option.bind_some]
      split
      · rfl
      · next hend =>
        rw [slice_eq_some (by omega), slice_eq_some (by omega)]
        rfl

theorem parsePayload_isSome (data : Bytes) (withChecksum : Bool) :
    (parsePayload data withChecksum).isSome = true := by
  rw [parsePayload]
  split
  · rfl
  · next hshort =>
    have hfields : ∀ n ≤ data.length, ∀ cmd, (parseFields data n cmd).isSome = true := by
      intro n hn cmd
      rw [parseFields]
      split
      · exact parseSettings_isSome hn
      · rfl
    rw [List.getElem?_eq_getElem (show 0 < data.length by omega),
      List.getElem?_eq_getElem (show 1 < data.length by omega)]
    simp only [Option.bind_eq_bind, Option.bind_some]
    cases withChecksum with
    | false =>
      simp only [Bool.false_eq_true, if_false]
      split
      · rfl
      · exact hfields _ (Nat.sub_le _ _) _
    | true =>
      simp only [if_true]
      split
      · rfl
      · rw [List.getElem?_eq_getElem (show data.length - 1 < data.length by omega),
          Option.bind_some]
        split
        · rfl
        · exact hfields _ (Nat.sub_le _ _) _

/-- The two strings of a payload whose lengths agree. -/
theorem parseSettings_eq_some (h : fieldsEnd = data.length) {c : ImprovCommand}
    (hc : parseSettings data fieldsEnd = some c) (hne : c ≠ .none) :
    ∃ a b ssid password, data = a :: b :: UInt8.ofNat ssid.length ::
        (ssid ++ UInt8.ofNat password.length :: password) ∧
      ssid.length < 256 ∧ password.length < 256 ∧ c = ⟨.wifiSettings, ssid, password⟩ := by
  subst h
  match data with
  | [] => exact absurd (Option.some.inj hc).symm hne
  | [a] => exact absurd (Option.some.inj hc).symm hne
  | [a, b] => exact absurd (Option.some.inj hc).symm hne
  | a :: b :: n :: rest =>
    have hn := n.toNat_lt
    rw [parseSettings] at hc
    split at hc
    · exact absurd (Option.some.inj hc).symm hne
    · have hget : (a :: b :: n :: rest)[2]? = some n := rfl
      rw [hget, Option.bind_eq_bind, Option.bind_some] at hc
      split at hc
      · exact absurd (Option.some.inj hc).symm hne
      · next hssid =>
        simp only [List.length_cons] at hssid hc
        -- the SSID, and the length of the password after it
        obtain ⟨ssid, m, tail, hlen, rfl⟩ : ∃ ssid m tail, ssid.length = n.toNat ∧
            rest = ssid ++ m :: tail := by
          have hlt : n.toNat < rest.length := by omega
          refine ⟨rest.take n.toNat, rest[n.toNat], rest.drop (n.toNat + 1),
            List.length_take_of_le hlt.le, ?_⟩
          rw [← List.drop_eq_getElem_cons hlt, List.take_append_drop]
        have hm := m.toNat_lt
        have hpass : (a :: b :: n :: (ssid ++ m :: tail))[3 + n.toNat]? = some m := by
          rw [← hlen, Nat.add_comm]
          simp
        rw [hpass, Option.bind_eq_bind, Option.bind_some] at hc
        split at hc
        · exact absurd (Option.some.inj hc).symm hne
        · next hend =>
          rw [List.length_append, List.length_cons] at hend
          have htail : tail.length = m.toNat := by omega
          have hfirst : slice (a :: b :: n :: (ssid ++ m :: tail)) 3 n.toNat = some ssid := by
            rw [slice_eq_some (by simp; omega), ← hlen]
            simp
          have hsecond : slice (a :: b :: n :: (ssid ++ m :: tail)) (3 + n.toNat + 1) m.toNat =
              some tail := by
            have hdrop : (a :: b :: n :: (ssid ++ m :: tail)).drop (3 + n.toNat + 1) = tail := by
              rw [← hlen, show 3 + ssid.length + 1 = (ssid ++ [m]).length + 3 by simp; omega]
              simp
            rw [slice_eq_some (by simp; omega), hdrop, ← htail, List.take_length]
          rw [hfirst, hsecond] at hc
          refine ⟨a, b, ssid, tail, ?_, by omega, by omega, (Option.some.inj hc).symm⟩
          rw [hlen, htail, UInt8.ofNat_toNat, UInt8.ofNat_toNat]

theorem toNat_ofNat_lt {n : Nat} (h : n < 256) : (UInt8.ofNat n).toNat = n := by
  rw [UInt8.toNat_ofNat']
  exact Nat.mod_eq_of_lt h

theorem length_encodeSettings (ssid password : Bytes) :
    (encodeSettings ssid password).length = 4 + ssid.length + password.length := by
  simp [encodeSettings]
  omega

theorem parsePayload_encodeSettings (h : 2 + ssid.length + password.length ≤ 253) :
    parsePayload (encodeSettings ssid password) false = some ⟨.wifiSettings, ssid, password⟩ := by
  have hlen := length_encodeSettings ssid password
  have hcmd : (encodeSettings ssid password)[0]? = some Command.wifiSettings := rfl
  have hdlen : (encodeSettings ssid password)[1]? =
      some (UInt8.ofNat (1 + ssid.length + 1 + password.length)) := rfl
  have hssidLen : (encodeSettings ssid password)[2]? = some (UInt8.ofNat ssid.length) := rfl
  have hpassLen : (encodeSettings ssid password)[3 + ssid.length]? =
      some (UInt8.ofNat password.length) := by
    have hbefore : ([Command.wifiSettings, UInt8.ofNat (1 + ssid.length + 1 + password.length),
        UInt8.ofNat ssid.length] ++ ssid).length = 3 + ssid.length := by
      simp
      omega
    rw [encodeSettings, List.getElem?_append_right hbefore.le, hbefore, Nat.sub_self]
    rfl
  have hssid : slice (encodeSettings ssid password) 3 ssid.length = some ssid := by
    rw [slice_eq_some (by omega)]
    simp [encodeSettings]
  have hpass : slice (encodeSettings ssid password) (3 + ssid.length + 1) password.length =
      some password := by
    have hshape : encodeSettings ssid password = ([Command.wifiSettings,
        UInt8.ofNat (1 + ssid.length + 1 + password.length), UInt8.ofNat ssid.length] ++ ssid ++
          [UInt8.ofNat password.length]) ++ password := by
      simp [encodeSettings]
    rw [slice_eq_some (by omega), hshape, List.drop_left' (by simp; omega), List.take_length]
  have hsettings : parseSettings (encodeSettings ssid password)
      (encodeSettings ssid password).length = some ⟨.wifiSettings, ssid, password⟩ := by
    rw [parseSettings, if_neg (by omega), hssidLen, Option.bind_eq_bind, Option.bind_some,
      toNat_ofNat_lt (show ssid.length < 256 by omega), if_neg (by omega), hpassLen,
      Option.bind_eq_bind, Option.bind_some, toNat_ofNat_lt (show password.length < 256 by omega),
      if_neg (by omega), hssid, hpass]
    rfl
  have htotal : (UInt8.ofNat (1 + ssid.length + 1 + password.length)).toNat =
      1 + ssid.length + 1 + password.length := toNat_ofNat_lt (by omega)
  rw [parsePayload, if_neg (by omega), hcmd, hdlen]
  simp only [Option.bind_eq_bind, Option.bind_some, Bool.false_eq_true, if_false, Nat.sub_zero]
  rw [if_neg (by omega), parseFields, if_pos rfl]
  exact hsettings

/-- Nothing else is taken for WIFI_SETTINGS. -/
theorem parsePayload_settings (hlen : data.length ≤ 255)
    (hcmd : data.head? = some Command.wifiSettings)
    (hne : ∀ ssid password : Bytes, 2 + ssid.length + password.length ≤ 253 →
      data ≠ encodeSettings ssid password) :
    parsePayload data false = some .none := by
  obtain ⟨c, hc⟩ := Option.isSome_iff_exists.1 (parsePayload_isSome data false)
  rw [hc]
  by_contra hother
  have hcne : c ≠ .none := fun h => hother (congrArg some h)
  match data with
  | [] => cases hcmd
  | [a] => exact hcne (Option.some.inj hc).symm
  | a :: d :: rest =>
    obtain rfl := Option.some.inj hcmd
    rw [parsePayload, if_neg (by simp)] at hc
    simp only [List.getElem?_cons_zero, List.getElem?_cons_succ, Option.bind_eq_bind,
      Option.bind_some, Bool.false_eq_true, if_false, Nat.sub_zero] at hc
    split at hc
    · exact hcne (Option.some.inj hc).symm
    · next hfields =>
      rw [parseFields, if_pos rfl] at hc
      obtain ⟨a, b, ssid, password, heq, hssid, hpass, -⟩ := parseSettings_eq_some rfl hc hcne
      obtain ⟨rfl, rfl, rfl⟩ : a = Command.wifiSettings ∧ b = d ∧
          rest = UInt8.ofNat ssid.length :: (ssid ++ UInt8.ofNat password.length :: password) := by
        rw [List.cons.injEq, List.cons.injEq] at heq
        exact ⟨heq.1.symm, heq.2.1.symm, heq.2.2⟩
      simp only [List.length_cons, List.length_append, not_or, not_not] at hfields hlen
      refine hne ssid password (by omega) ?_
      have hd : b = UInt8.ofNat (1 + ssid.length + 1 + password.length) := by
        rw [← UInt8.toNat_inj, toNat_ofNat_lt (by omega)]
        omega
      rw [encodeSettings, hd]
      simp

end Payload

/-! ## Responses -/

section Emit

variable (cfg : Config) (env : Backend)

/-- `writeFrame_`; nothing without a write callback. -/
def emitFrame (type : FrameType) (payload : Bytes) : List Effect :=
  if cfg.write then (writeFrame type.byte payload).map .write else []

/-- `emitState_`. -/
def emitState (s : WifiState) : List Effect := emitFrame cfg .currentState [s.byte]

/-- `emitError_`. -/
def emitError (e : Error) : List Effect := emitFrame cfg .errorState [e.byte]

/-- The fields behind each other, each with its length; none if one is too long for it. -/
def packFields : List Bytes → Option Bytes
  | [] => some []
  | s :: fields =>
    if s.length > 255 then none
    else (packFields fields).map fun rest => UInt8.ofNat s.length :: s ++ rest

/-- `emitRpcResponse_`. -/
def emitRpcResponse (cmd : Command) (fields : List Bytes) : List Effect :=
  match packFields fields with
  | none => emitError cfg .unknown
  | some inner =>
    if inner.length > 253 then emitError cfg .unknown
    else emitFrame cfg .rpcResponse (cmd :: UInt8.ofNat inner.length :: inner)

/-- `{LOCAL_IPV4}`. -/
def token : Bytes := 123 :: asciiBytes "LOCAL_IPV4" ++ [125]

/-- Every token replaced by the address; `skip` bytes of a token are still to drop. -/
def replaceToken (ip : Bytes) : (skip : Nat) → Bytes → Bytes
  | _, [] => []
  | skip + 1, _ :: s => replaceToken ip skip s
  | 0, c :: s =>
    if token.isPrefixOf (c :: s) then ip ++ replaceToken ip (token.length - 1) s
    else c :: replaceToken ip 0 s

/-- `emitDeviceUrl_`. -/
def emitDeviceUrl (cmd : Command) : List Effect :=
  let ip := if cfg.backend then env.currentIp else []
  let url :=
    match cfg.device.deviceUrl with
    | some (c :: s) => replaceToken ip 0 (c :: s)
    | _ => asciiBytes "http://" ++ ip
  emitRpcResponse cfg cmd [url]

/-! ## Calls -/

/-- `ScanPhase`. -/
inductive ScanPhase where
  | idle
  | awaiting
  deriving DecidableEq

/-- `std::string::c_str` as a C function reads it. -/
def cStr (s : Bytes) : Bytes := s.takeWhile (· ≠ 0)

/-- `handleWifiSettings_`. -/
def handleWifiSettings (ssid pw : Bytes) : List Effect :=
  if ssid = [] ∨ ssid.length > 32 then emitError cfg .invalidRpc
  else if pw.length > 0 ∧ pw.length < 8 then emitError cfg .invalidRpc
  else if pw.length > 63 then emitError cfg .invalidRpc
  else
    emitState cfg .provisioning ++
      if ¬ cfg.backend then emitError cfg .unknown
      else
        .tryConnect (cStr ssid) (cStr pw) ::
          if env.tryConnect then
            emitError cfg .none ++ emitState cfg .provisioned ++
              emitDeviceUrl cfg env .wifiSettings ++
              if cfg.onConnected then [.onConnected (cStr ssid) (cStr pw)] else []
          else
            emitError cfg .unableToConnect ++
              (if cfg.onError then [.onError .unableToConnect] else []) ++
              emitState cfg .authorized

/-- The names of the chip families. -/
def chipFamilies : List String :=
  ["ESP32", "ESP32-C3", "ESP32-S2", "ESP32-S3", "ESP32-C6", "ESP8266"]

/-- `dispatchCommand_`. -/
def dispatchCommand (scan : ScanPhase) (cmd : ImprovCommand) : ScanPhase × List Effect :=
  if cmd.command = .unknown then (scan, emitError cfg .invalidRpc)
  else if cmd.command = .badChecksum then (scan, emitError cfg .invalidRpc)
  else if cmd.command = .getCurrentState then
    if cfg.backend ∧ env.isConnected then
      (scan, emitState cfg .provisioned ++ emitDeviceUrl cfg env cmd.command)
    else (scan, emitState cfg .authorized)
  else if cmd.command = .wifiSettings then
    (scan, handleWifiSettings cfg env cmd.ssid cmd.password)
  else if cmd.command = .getDeviceInfo then
    (scan, emitRpcResponse cfg cmd.command
      [cfg.device.firmwareName.getD [], cfg.device.firmwareVersion.getD [],
        asciiBytes (chipFamilies[cfg.device.chipFamily]?.getD "ESP"),
        cfg.device.deviceName.getD []])
  else if cmd.command = .getWifiNetworks then
    -- `handleGetWifiNetworks_`
    if cfg.backend then (.awaiting, [.startScan])
    else (scan, emitRpcResponse cfg .getWifiNetworks [])
  else if cmd.command = .identify then (scan, emitError cfg .none)
  else (scan, emitError cfg .unknownRpc)

/-- `onCompletePacket_`. -/
def onCompletePacket (scan : ScanPhase) (f : Frame) : ScanPhase × List Effect :=
  if f.type ≠ FrameType.rpc.byte then (scan, [])
  else
    match parsePayload f.payload false with
    | none => (scan, [])
    | some cmd => dispatchCommand cfg env scan cmd

end Emit

/-- The payload parser takes what `encodeSettings` makes and nothing else for WIFI_SETTINGS,
which is answered with an error then, and it reads only the payload. -/
theorem parsePayload_settings_iff :
    (∀ ssid password : Bytes, 2 + ssid.length + password.length ≤ 253 →
      parsePayload (encodeSettings ssid password) false =
        some ⟨.wifiSettings, ssid, password⟩) ∧
    (∀ data : Bytes, data.length ≤ 255 → data.head? = some Command.wifiSettings →
      (∀ ssid password : Bytes, 2 + ssid.length + password.length ≤ 253 →
        data ≠ encodeSettings ssid password) →
      parsePayload data false = some .none ∧
        ∀ cfg env scan f, f.type = FrameType.rpc.byte → f.payload = data →
          onCompletePacket cfg env scan f = (scan, emitError cfg .invalidRpc)) ∧
    ∀ data withChecksum, (parsePayload data withChecksum).isSome = true := by
  refine ⟨fun _ _ => parsePayload_encodeSettings, fun data hlen hcmd hne => ?_,
    parsePayload_isSome⟩
  have hnone := parsePayload_settings hlen hcmd hne
  refine ⟨hnone, fun cfg env scan f htype hdata => ?_⟩
  rw [onCompletePacket, if_neg (not_not_intro htype), hdata, hnone]
  exact if_pos rfl

/-! ## What is written, read back -/

/-- The bytes that go to the transport. -/
def written (es : List Effect) : Bytes :=
  es.flatMap fun
    | .write data => data
    | _ => []

/-- The fields of a response. -/
def unpackFields : Bytes → Option (List Bytes)
  | [] => some []
  | n :: bs =>
    if n.toNat ≤ bs.length then (unpackFields (bs.drop n.toNat)).map (bs.take n.toNat :: ·)
    else none
termination_by bs => bs.length
decreasing_by
  rw [List.length_drop, List.length_cons]
  omega

/-- The command and the fields of a response, whose second byte is the length of the fields. -/
def decodeResponse : Bytes → Option (Command × List Bytes)
  | cmd :: n :: inner =>
    if inner.length = n.toNat then (unpackFields inner).map fun fields => (cmd, fields) else none
  | _ => none

section ReadBack

variable {cfg : Config} {fields : List Bytes} {cmd : Command} {inner : Bytes}

theorem packFields_eq_some (h : ∀ s ∈ fields, s.length ≤ 255) :
    ∃ inner, packFields fields = some inner ∧ unpackFields inner = some fields ∧
      inner.length = (fields.map fun s => 1 + s.length).sum := by
  induction fields with
  | nil => exact ⟨[], rfl, by rw [unpackFields], rfl⟩
  | cons s fields ih =>
    obtain ⟨inner, hpack, hunpack, hlen⟩ := ih fun s' hs' => h s' (List.mem_cons_of_mem s hs')
    have hs := h s List.mem_cons_self
    have hbyte : (UInt8.ofNat s.length).toNat = s.length := toNat_ofNat_lt (by omega)
    refine ⟨UInt8.ofNat s.length :: s ++ inner, ?_, ?_, ?_⟩
    · rw [packFields, if_neg (by omega), hpack]
      rfl
    · rw [List.cons_append, unpackFields, hbyte, if_pos (by rw [List.length_append]; omega),
        List.drop_left, List.take_left, hunpack]
      rfl
    · rw [List.map_cons, List.sum_cons, ← hlen, List.length_append, List.length_cons]
      omega

theorem packFields_eq_none {s : Bytes} (hs : s ∈ fields) (h : 255 < s.length) :
    packFields fields = none := by
  induction fields with
  | nil => cases hs
  | cons s' fields ih =>
    rw [packFields]
    split
    · rfl
    · next hshort =>
      rcases List.mem_cons.1 hs with rfl | hmem
      · exact absurd h hshort
      · rw [ih hmem]
        rfl

/-- Line feeds around a frame are dropped. -/
theorem run_writeFrame {type : UInt8} {payload : Bytes} (h : payload.length ≤ 255) :
    Mealy.run parseByte [] (writeFrame type payload).flatten = ([], [⟨type, payload, h⟩]) := by
  have hnl : Mealy.run parseByte [] [10] = ([], []) := by decide
  have htext : (writeFrame type payload).flatten =
      [10] ++ (Frame.wire ⟨type, payload, h⟩ ++ [10]) := by
    rw [writeFrame, dif_pos h, List.flatten_cons, List.flatten_cons, List.flatten_singleton]
  rw [htext, Mealy.run_append, hnl]
  dsimp only
  rw [Mealy.run_append, run_wire, hnl]
  rfl

theorem written_emitFrame (hwrite : cfg.write = true) (type : FrameType) (payload : Bytes) :
    written (emitFrame cfg type payload) = (writeFrame type.byte payload).flatten := by
  rw [emitFrame, if_pos hwrite, written, List.flatMap_map, List.flatMap_id']

theorem fits_error (e : Error) : [e.byte].length ≤ 255 := by simp

/-- A response that fits is read back as it was made. -/
theorem run_emitRpcResponse (hwrite : cfg.write = true) (cmd : Command)
    (hfields : ∀ s ∈ fields, s.length ≤ 255)
    (hsum : (fields.map fun s => 1 + s.length).sum ≤ 253) :
    ∃ f, Mealy.run parseByte [] (written (emitRpcResponse cfg cmd fields)) = ([], [f]) ∧
      f.type = FrameType.rpcResponse.byte ∧ decodeResponse f.payload = some (cmd, fields) := by
  obtain ⟨inner, hpack, hunpack, hlen⟩ := packFields_eq_some hfields
  have hfits : (cmd :: UInt8.ofNat inner.length :: inner).length ≤ 255 := by
    rw [List.length_cons, List.length_cons]
    omega
  rw [emitRpcResponse, hpack]
  dsimp only
  rw [if_neg (by omega), written_emitFrame hwrite]
  refine ⟨_, run_writeFrame hfits, rfl, ?_⟩
  have hbyte : inner.length = (UInt8.ofNat inner.length).toNat :=
    (toNat_ofNat_lt (by omega)).symm
  dsimp only [decodeResponse]
  rw [if_pos hbyte, hunpack]
  rfl

/-- A response that does not fit is an error. -/
theorem run_emitRpcResponse_error (hwrite : cfg.write = true) (cmd : Command)
    (h : ¬ ((∀ s ∈ fields, s.length ≤ 255) ∧ (fields.map fun s => 1 + s.length).sum ≤ 253)) :
    Mealy.run parseByte [] (written (emitRpcResponse cfg cmd fields)) =
      ([], [⟨FrameType.errorState.byte, [Error.unknown.byte], fits_error .unknown⟩]) := by
  have herror : emitRpcResponse cfg cmd fields = emitError cfg .unknown := by
    rw [emitRpcResponse]
    by_cases hfields : ∀ s ∈ fields, s.length ≤ 255
    · obtain ⟨inner, hpack, -, hlen⟩ := packFields_eq_some hfields
      rw [not_and] at h
      have hsum := h hfields
      rw [hpack]
      dsimp only
      rw [if_pos (by omega)]
    · rw [Classical.not_forall] at hfields
      obtain ⟨s, hs⟩ := hfields
      rw [Classical.not_imp] at hs
      rw [packFields_eq_none hs.1 (by omega)]
  rw [herror, emitError, written_emitFrame hwrite]
  exact run_writeFrame (fits_error .unknown)

end ReadBack

/-- Frames are exact in both directions. -/
theorem framing_exact :
    (∀ (f : Frame) (chunks : List Bytes), chunks.flatten = f.wire →
      Mealy.run feedBytes [] chunks = ([], [f])) ∧
    (∀ (f : Frame) (u : Bytes), u <+: f.body → (Mealy.run parseByte [] u).2 = []) ∧
    (∀ (s : Bytes) (b : UInt8), ∀ f ∈ (parseByte (Mealy.run parseByte [] s).1 b).2,
      (parseByte (Mealy.run parseByte [] s).1 b).2 = [f] ∧ f.wire <:+ s ++ [b]) ∧
    (∀ s : Bytes, (Mealy.run parseByte [] s).1.length + 1 ≤ 265) ∧
    (∀ (type : UInt8) (payload : Bytes) (h : payload.length ≤ 255) (chunks : List Bytes),
      chunks.flatten = (writeFrame type payload).flatten →
        Mealy.run feedBytes [] chunks = ([], [⟨type, payload, h⟩])) ∧
    ∀ (cfg : Config) (cmd : Command) (fields : List Bytes) (chunks : List Bytes),
      cfg.write = true → chunks.flatten = written (emitRpcResponse cfg cmd fields) →
        ∃ f, Mealy.run feedBytes [] chunks = ([], [f]) ∧
          ((∀ s ∈ fields, s.length ≤ 255) ∧ (fields.map fun s => 1 + s.length).sum ≤ 253 →
            f.type = FrameType.rpcResponse.byte ∧
              decodeResponse f.payload = some (cmd, fields)) ∧
          (¬ ((∀ s ∈ fields, s.length ≤ 255) ∧ (fields.map fun s => 1 + s.length).sum ≤ 253) →
            f.type = FrameType.errorState.byte ∧ f.payload = [Error.unknown.byte]) := by
  refine ⟨fun f chunks h => ?_, fun f u => run_prefix, fun s b f hf => dispatch_suffix s b hf,
    fun s => ?_, fun type payload h chunks hchunks => ?_, fun cfg cmd fields chunks hwrite h => ?_⟩
  · rw [run_feedBytes, h, run_wire]
  · have hle := (run_begins s).1.length_le
    omega
  · rw [run_feedBytes, hchunks, run_writeFrame h]
  · rw [run_feedBytes, h]
    by_cases hfits : (∀ s ∈ fields, s.length ≤ 255) ∧
        (fields.map fun s => 1 + s.length).sum ≤ 253
    · obtain ⟨f, hrun, hf⟩ := run_emitRpcResponse hwrite cmd hfits.1 hfits.2
      exact ⟨f, hrun, fun _ => hf, fun hno => absurd hfits hno⟩
    · exact ⟨_, run_emitRpcResponse_error hwrite cmd hfits, fun hyes => absurd hyes hfits,
        fun _ => ⟨rfl, rfl⟩⟩

end Cdc2Net.Improv
