import Cdc2Net.Lib.Transition
import Cdc2Net.Source.DeviceKey

/-!
# The identity of the esp-usb device

`new_dev_cb` of `source_usb.c` records VID, PID and serial number of a device and wakes
`stick_task`, which snapshots VID and PID, opens a device by them, and derives the key from
the snapshot and from whatever the shared serial number is by then. A VID or a PID of 0 is a
wildcard of the drivers. The teardown clears the serial number. Every access to a field of
`S` is a step.

`own_key` gives conditions under which the key is that of the device that was opened. A
quick swap breaks them: the teardown of the old device clears the serial number of the new
one (`own_key_fails`). So does a device without a serial number that is opened by a wildcard
(`copyKey_snapshot_iff`, `wildcard_of_foreign`).
-/

set_option autoImplicit false

namespace Cdc2Net.Source.UsbIdentity

open Cdc2Net.Lib.Transition

/-- What a device says of itself. -/
structure UsbDevice where
  vid : UInt16
  pid : UInt16
  serial : Option StrDesc
  deriving DecidableEq

/-- The device's own key. -/
def UsbDevice.key (d : UsbDevice) : List UInt8 := espKey d.vid d.pid d.serial

/-- The device's serial number as `new_dev_cb` records it. -/
def UsbDevice.serialText (d : UsbDevice) : List UInt8 := strDescAscii d.serial serialcfgKeyLen

/-- Where `new_dev_cb` stands with a device. `desc` and `info` tell whether the device
descriptor and the device info can be read. -/
inductive CbPc where
  | idle
  /-- Before `S.connected`. -/
  | test (d : UsbDevice) (desc info : Bool)
  /-- Before `S.vid`, `S.pid` and `S.serial` are written. -/
  | vid (d : UsbDevice) (info : Bool)
  | pid (d : UsbDevice) (info : Bool)
  | serial (d : UsbDevice)
  /-- Before `xSemaphoreGive`. -/
  | give
  deriving DecidableEq

/-- Where `event_cb` stands with a disconnect. -/
inductive EventPc where
  | idle
  /-- Before `S.connected = false`. -/
  | off
  /-- Before `xSemaphoreGive`. -/
  | give
  deriving DecidableEq

/-- Where `stick_task` stands, with its snapshot and the device it has opened. -/
inductive StickPc where
  /-- On `connect_sem`. -/
  | wait
  /-- Before the reads of `S.vid` and `S.pid`. -/
  | vid
  | pid (v : UInt16)
  /-- Before `disconnect_sem` is drained. -/
  | drain (v p : UInt16)
  /-- In `open_dispatch`. -/
  | opening (v p : UInt16)
  /-- After an open that failed, before `connect_sem` is given again. -/
  | failed
  /-- Before `S.connected = true`. -/
  | connect (v p : UInt16) (d : UsbDevice)
  /-- In `derive_key`: before `S.serial[0]`, and before the loop over `S.serial`. -/
  | test (v p : UInt16) (d : UsbDevice)
  | copy (v p : UInt16) (d : UsbDevice) (fromSerial : Bool)
  /-- Before `S.key` is written. -/
  | setKey (d : UsbDevice) (k : List UInt8)
  /-- Before `serialcfg_lookup(S.key)`. -/
  | lookup (d : UsbDevice)
  /-- On `disconnect_sem`. -/
  | serve
  /-- Before `S.connected = false`, `S.key[0] = 0`, `S.serial[0] = 0` and the close. -/
  | off
  | clearKey
  | clearSerial
  | close
  deriving DecidableEq

/-- The fields of the static `S` that the identity passes through. `last` is no field of the
program: the device whose serial number was written last. -/
structure IdState where
  vid : UInt16
  pid : UInt16
  serial : List UInt8
  key : List UInt8
  connected : Bool
  connectSem : Bool
  disconnectSem : Bool
  cb : CbPc
  event : EventPc
  stick : StickPc
  last : Option UsbDevice

/-- After `source_usb_init`. -/
def IdState.start : IdState where
  vid := 0
  pid := 0
  serial := []
  key := []
  connected := false
  connectSem := false
  disconnectSem := false
  cb := .idle
  event := .idle
  stick := .wait
  last := none

/-- The steps. -/
inductive IdLabel where
  /-- The host calls `new_dev_cb`. -/
  | newDev (d : UsbDevice) (desc info : Bool)
  /-- A step of `new_dev_cb`. -/
  | cb
  /-- The driver calls `event_cb` for a disconnect. -/
  | disconnect
  /-- A step of `event_cb`. -/
  | event
  /-- `open_dispatch` returns. -/
  | opened (r : Option UsbDevice)
  /-- Any other step of `stick_task`. -/
  | stick
  deriving DecidableEq

/-- The two ways of `derive_key`, after its test. -/
def copyKey (fromSerial : Bool) (vid pid : UInt16) (serial : List UInt8) : List UInt8 :=
  if fromSerial then copyChars (fun c => decide (c = 0)) keyChar serialcfgKeyLen 0 serial
  else (hex4 vid ++ 58 :: hex4 pid).take (serialcfgKeyLen - 1)

/-- The device is one that `cdc_acm_host_open` looks for; `CDC_HOST_ANY_VID` and
`CDC_HOST_ANY_PID` are 0. -/
def cdcMatches (vid pid : UInt16) (d : UsbDevice) : Bool :=
  (vid = d.vid ∨ vid = 0) ∧ (pid = d.pid ∨ pid = 0)

/-- The VIDs of the VCP drivers (FTDI, CH34x, CP210x), with their `supported_pids`. -/
def supportedPids (vid : UInt16) : Option (List UInt16) :=
  if vid = 0x0403 then some [0x6001, 0x6015]
  else if vid = 0x1a86 then some [0x7522, 0x7523, 0x5523]
  else if vid = 0x10c4 then some [0xea60, 0xea70, 0xea71]
  else none

/-- The device is one that `open_dispatch` opens. A VCP driver that gets the PID 0, its
`PID_AUTO`, tries the PIDs it supports. -/
def Opens (vid pid : UInt16) (d : UsbDevice) : Bool :=
  match supportedPids vid with
  | some pids => if pid = 0 then pids.any (cdcMatches vid · d) else cdcMatches vid pid d
  | none => cdcMatches vid pid d

namespace IdState

/-- A step of `new_dev_cb`. -/
def stepCb (s : IdState) : Option IdState :=
  match s.cb with
  | .idle => none
  | .test d desc info =>
    some { s with
      cb := if s.connected then .idle else if desc then .vid d info
        else if info then .serial d else .give }
  | .vid d info => some { s with vid := d.vid, cb := .pid d info }
  | .pid d info => some { s with pid := d.pid, cb := if info then .serial d else .give }
  | .serial d => some { s with serial := d.serialText, last := some d, cb := .give }
  | .give => some { s with connectSem := true, cb := .idle }

/-- A step of `event_cb`. -/
def stepEvent (s : IdState) : Option IdState :=
  match s.event with
  | .idle => none
  | .off => some { s with connected := false, event := .give }
  | .give => some { s with disconnectSem := true, event := .idle }

/-- A step of `stick_task`. -/
def stepStick (s : IdState) : Option IdState :=
  match s.stick with
  | .wait => if s.connectSem then some { s with connectSem := false, stick := .vid } else none
  | .vid => some { s with stick := .pid s.vid }
  | .pid v => some { s with stick := .drain v s.pid }
  | .drain v p => some { s with disconnectSem := false, stick := .opening v p }
  | .opening .. => none
  | .failed => some { s with connectSem := true, stick := .wait }
  | .connect v p d => some { s with connected := true, stick := .test v p d }
  | .test v p d => some { s with stick := .copy v p d (decide (s.serial ≠ [])) }
  | .copy v p d b => some { s with stick := .setKey d (copyKey b v p s.serial) }
  | .setKey d k => some { s with key := k, stick := .lookup d }
  | .lookup _ => some { s with stick := .serve }
  | .serve => if s.disconnectSem then some { s with disconnectSem := false, stick := .off }
    else none
  | .off => some { s with connected := false, stick := .clearKey }
  | .clearKey => some { s with key := [], stick := .clearSerial }
  | .clearSerial => some { s with serial := [], stick := .close }
  | .close => some { s with stick := .wait }

end IdState

/-- `new_dev_cb`, `event_cb` and `stick_task`. -/
def usbIdentity : Machine IdState IdLabel where
  step s
    | .newDev d desc info =>
      if s.cb = .idle then some { s with cb := .test d desc info } else none
    | .cb => s.stepCb
    | .disconnect => if s.event = .idle then some { s with event := .off } else none
    | .event => s.stepEvent
    | .opened r =>
      match s.stick with
      | .opening v p =>
        match r with
        | none => some { s with stick := .failed }
        | some d => if Opens v p d then some { s with stick := .connect v p d } else none
      | _ => none
    | .stick => s.stepStick

/-! ## The conditions -/

/-- `new_dev_cb` has passed its test. -/
def CbPc.past : CbPc → Bool
  | .idle | .test .. => false
  | _ => true

/-- `new_dev_cb` is about to write the serial number. -/
def CbPc.writes : CbPc → Bool
  | .serial _ => true
  | _ => false

/-- The device that `stick_task` has opened and not derived the key of, with the VID and the
PID of the snapshot. -/
def StickPc.fresh : StickPc → Option (UInt16 × UInt16 × UsbDevice)
  | .connect v p d | .test v p d | .copy v p d _ => some (v, p, d)
  | _ => none

/-- The identity passes from the device to the key:
* the info of a device can be read when it is enumerated;
* no serial number is written between the open and the last read of `derive_key`;
* the teardown clears the serial number while no enumeration is recorded or being recorded;
* the device that is opened is the one whose serial number was written last, and if it has
  none, the VID and the PID it was opened by are its own. -/
def Passes (s : IdState) : IdLabel → Prop
  | .newDev _ _ info => info = true
  | .cb => s.cb.writes = true → s.stick.fresh = none
  | .stick => s.stick = .clearSerial → s.connectSem = false ∧ s.cb.past = false
  | .opened r => ∀ d ∈ r, s.last = some d ∧
      (d.serialText = [] → s.stick = .opening d.vid d.pid)
  | _ => True

instance (s : IdState) : DecidablePred (Passes s)
  | .newDev .. => inferInstanceAs (Decidable (_ = _))
  | .cb => inferInstanceAs (Decidable (_ → _))
  | .stick => inferInstanceAs (Decidable (_ → _ ∧ _))
  | .opened _ => inferInstanceAs (Decidable (∀ _ ∈ _, _ ∧ (_ → _)))
  | .disconnect | .event => isTrue trivial

/-! ## What every step keeps -/

/-- `stick_task` works on a recorded identity. -/
def StickPc.uses : StickPc → Bool
  | .vid | .pid _ | .drain .. | .opening .. | .failed | .connect .. | .test ..
  | .copy .. => true
  | _ => false

/-- `new_dev_cb` will write the serial number, or has done so. -/
def CbPc.reads : CbPc → Bool
  | .test _ _ info | .vid _ info | .pid _ info => info
  | _ => true

/-- What is recorded is what is used, and the key comes of it. -/
structure IdInv (s : IdState) : Prop where
  reads : s.cb.reads = true
  recorded : s.connectSem = true ∨ s.cb = .give ∨ s.stick.uses = true →
    ∃ d, s.last = some d ∧ s.serial = d.serialText
  opened : ∀ v p d, s.stick.fresh = some (v, p, d) → s.last = some d
  snapshot : ∀ v p d, s.stick.fresh = some (v, p, d) → d.serialText = [] →
    v = d.vid ∧ p = d.pid
  tested : ∀ v p d b, s.stick = .copy v p d b → b = decide (s.serial ≠ [])
  copied : ∀ d k, s.stick = .setKey d k → k = d.key
  looked : ∀ d, s.stick = .lookup d → s.key = d.key

theorem idInv_start : IdInv .start where
  reads := rfl
  recorded h := by rcases h with h | h | h <;> cases h
  opened v p d h := by cases h
  snapshot v p d h := by cases h
  tested v p d b h := by cases h
  copied d k h := by cases h
  looked d h := by cases h

/-- The two reads of `derive_key` find the same serial number. -/
theorem copyKey_own {v p : UInt16} {d : UsbDevice}
    (hsnap : d.serialText = [] → v = d.vid ∧ p = d.pid) :
    copyKey (decide (d.serialText ≠ [])) v p d.serialText = d.key := by
  by_cases h : d.serialText = []
  · obtain ⟨rfl, rfl⟩ := hsnap h
    have h' : strDescAscii d.serial serialcfgKeyLen = [] := h
    simp [copyKey, UsbDevice.key, espKey, deriveKey, h, h']
  · have h' : strDescAscii d.serial serialcfgKeyLen ≠ [] := h
    simp [copyKey, UsbDevice.key, espKey, deriveKey, h', UsbDevice.serialText]

/-- From the snapshot the key is the device's own, when it has no serial number, only for its
own VID and PID. -/
theorem copyKey_snapshot_iff {v p : UInt16} {d : UsbDevice} (h : d.serialText = []) :
    copyKey false v p [] = d.key ↔ v = d.vid ∧ p = d.pid := by
  have hkey : d.key = hex4 d.vid ++ 58 :: hex4 d.pid := by
    have h' : strDescAscii d.serial serialcfgKeyLen = [] := h
    rw [UsbDevice.key, espKey, h', deriveKey_nil]
  have hcopy : copyKey false v p [] = hex4 v ++ 58 :: hex4 p := by
    have hnil : deriveKey v p [] serialcfgKeyLen = hex4 v ++ 58 :: hex4 p := deriveKey_nil
    rw [← hnil]
    rfl
  rw [hkey, hcopy]
  constructor
  · intro heq
    obtain ⟨hv, hp⟩ := List.append_inj heq rfl
    exact ⟨hex4_inj hv, hex4_inj (List.cons.inj hp).2⟩
  · rintro ⟨rfl, rfl⟩
    rfl

/-- Asked for a VID and a PID, `open_dispatch` opens a device that has them. -/
theorem own_of_opens {v p : UInt16} {d : UsbDevice} (h : Opens v p d = true) (hv : v ≠ 0)
    (hp : p ≠ 0) : v = d.vid ∧ p = d.pid := by
  have hmatch : cdcMatches v p d = true := by
    rw [Opens] at h
    split at h
    · rwa [if_neg hp] at h
    · exact h
  obtain ⟨hvid, hpid⟩ := of_decide_eq_true hmatch
  exact ⟨hvid.resolve_right hv, hpid.resolve_right hp⟩

/-- A foreign key of the snapshot comes of a wildcard. -/
theorem wildcard_of_foreign {v p : UInt16} {d : UsbDevice} (h : Opens v p d = true)
    (hser : d.serialText = []) (hkey : copyKey false v p [] ≠ d.key) : v = 0 ∨ p = 0 := by
  by_contra hwild
  obtain ⟨hv, hp⟩ := not_or.1 hwild
  exact hkey ((copyKey_snapshot_iff hser).2 (own_of_opens h hv hp))

section Steps

variable {s t : IdState} {l : IdLabel} {v p : UInt16} {d : UsbDevice}

theorem StickPc.uses_of_fresh {pc : StickPc} (h : pc.fresh = some (v, p, d)) :
    pc.uses = true := by
  cases pc with
  | connect | test | copy => rfl
  | _ => cases h

/-- The device that has been opened is the one that is recorded. -/
theorem IdInv.serial_eq (h : IdInv s) (hf : s.stick.fresh = some (v, p, d)) :
    s.serial = d.serialText := by
  obtain ⟨e, he, hs⟩ := h.recorded (Or.inr (Or.inr (StickPc.uses_of_fresh hf)))
  rw [h.opened v p d hf] at he
  rw [hs, Option.some.inj he]

theorem IdInv.stepCb (h : IdInv s) (hok : Passes s .cb) (hs : s.stepCb = some t) : IdInv t := by
  obtain ⟨h1, h2, h3, h4, h5, h6, h7⟩ := h
  rw [IdState.stepCb] at hs
  cases hpc : s.cb with
  | idle => simp [hpc] at hs
  | serial e =>
    rw [hpc] at hs
    cases hs
    -- no device that has been opened waits for its key
    have hnone : s.stick.fresh = none := hok (by rw [hpc]; rfl)
    refine ⟨rfl, fun _ => ⟨e, rfl, rfl⟩, fun v p d hd => ?_, h4, fun v p d b hd => ?_, h6, h7⟩
    · rw [hnone] at hd
      cases hd
    · have hd' : s.stick = .copy v p d b := hd
      rw [hd'] at hnone
      cases hnone
  | _ =>
    rw [hpc] at hs
    cases hs
    constructor <;> grind [CbPc.reads]

/-- What `stick_task` works on after a step it was woken for, or worked on, before. -/
theorem IdState.stepStick_uses (hs : s.stepStick = some t)
    (ht : t.connectSem = true ∨ t.stick.uses = true) :
    s.connectSem = true ∨ s.stick.uses = true := by
  rw [IdState.stepStick] at hs
  cases hpc : s.stick with
  | wait =>
    simp only [hpc] at hs
    split at hs
    · next h => exact Or.inl h
    · cases hs
  | serve =>
    simp only [hpc] at hs
    split at hs
    · cases hs
      exact Or.inl (ht.resolve_right fun h => (by cases h))
    · cases hs
  | vid | pid | drain | opening | failed | connect | test | copy => exact Or.inr rfl
  | _ =>
    rw [hpc] at hs
    cases hs
    exact Or.inl (ht.resolve_right fun h => (by cases h))

/-- A step that writes no identity. -/
theorem IdInv.move (h : IdInv s) (hcb : t.cb = s.cb) (hlast : t.last = s.last)
    (hserial : t.serial = s.serial)
    (huses : t.connectSem = true ∨ t.stick.uses = true →
      s.connectSem = true ∨ s.stick.uses = true)
    (hfresh : ∀ f, t.stick.fresh = some f → s.stick.fresh = some f)
    (htest : ∀ v p d b, t.stick = .copy v p d b → b = decide (s.serial ≠ []))
    (hcopy : ∀ d k, t.stick = .setKey d k → k = d.key)
    (hlook : ∀ d, t.stick = .lookup d → t.key = d.key) : IdInv t where
  reads := by rw [hcb]; exact h.reads
  recorded hr := by
    rw [hlast, hserial]
    rw [hcb] at hr
    refine h.recorded ?_
    rcases hr with hr | hr | hr
    · exact (huses (Or.inl hr)).imp_right Or.inr
    · exact Or.inr (Or.inl hr)
    · exact (huses (Or.inr hr)).imp_right Or.inr
  opened v p d hd := by
    rw [hlast]
    exact h.opened v p d (hfresh _ hd)
  snapshot v p d hd := h.snapshot v p d (hfresh _ hd)
  tested v p d b hd := by
    rw [hserial]
    exact htest v p d b hd
  copied := hcopy
  looked := hlook

/-- Such a step that leaves `stick_task` with no device to derive or to look up a key for. -/
theorem IdInv.away (h : IdInv s) (hcb : t.cb = s.cb) (hlast : t.last = s.last)
    (hserial : t.serial = s.serial)
    (huses : t.connectSem = true ∨ t.stick.uses = true →
      s.connectSem = true ∨ s.stick.uses = true)
    (hfresh : t.stick.fresh = none) (hset : ∀ d k, t.stick ≠ .setKey d k)
    (hlook : ∀ d, t.stick ≠ .lookup d) : IdInv t := by
  refine h.move hcb hlast hserial huses (fun f hf => ?_) (fun v p d b hcopy => ?_)
    (fun d k hpc => absurd hpc (hset d k)) fun d hpc => absurd hpc (hlook d)
  · rw [hfresh] at hf
    cases hf
  · rw [hcopy] at hfresh
    cases hfresh

theorem IdInv.stepStick (h : IdInv s) (hok : Passes s .stick) (hs : s.stepStick = some t) :
    IdInv t := by
  have huses := IdState.stepStick_uses hs
  rw [IdState.stepStick] at hs
  cases hpc : s.stick with
  | connect v p e =>
    rw [hpc] at hs
    cases hs
    refine h.move rfl rfl rfl huses (fun f hd => ?_) (fun v p d b hd => ?_) (fun d k hd => ?_)
      fun d hd => ?_
    · rw [hpc]
      exact hd
    all_goals cases hd
  | test v p e =>
    rw [hpc] at hs
    cases hs
    refine h.move rfl rfl rfl huses (fun f hd => ?_) (fun v p d b hd => ?_) (fun d k hd => ?_)
      fun d hd => ?_
    · rw [hpc]
      exact hd
    · cases hd
      rfl
    all_goals cases hd
  | copy v p e b =>
    rw [hpc] at hs
    cases hs
    have hser : s.serial = e.serialText := h.serial_eq (by rw [hpc]; rfl)
    refine h.move rfl rfl rfl huses (fun f hd => ?_) (fun v p d b hd => ?_) (fun d k hd => ?_)
      fun d hd => ?_
    · cases hd
    · cases hd
    · cases hd
      rw [h.tested v p e b hpc, hser]
      exact copyKey_own (h.snapshot v p e (by rw [hpc]; rfl))
    · cases hd
  | setKey e k =>
    rw [hpc] at hs
    cases hs
    refine h.move rfl rfl rfl huses (fun f hd => ?_) (fun v p d b hd => ?_) (fun d k hd => ?_)
      fun d hd => ?_
    · cases hd
    · cases hd
    · cases hd
    · cases hd
      exact h.copied e k hpc
  | clearSerial =>
    rw [hpc] at hs
    cases hs
    -- nothing is recorded that the clearing could spoil
    obtain ⟨hsem, hpast⟩ := hok hpc
    refine ⟨h.reads, fun hr => ?_, fun _ _ _ hd => (by cases hd), fun _ _ _ hd => (by cases hd),
      fun _ _ _ _ hd => (by cases hd), fun d k hd => (by cases hd), fun d hd => (by cases hd)⟩
    rcases hr with hr | hr | hr
    · rw [show s.connectSem = true from hr] at hsem
      cases hsem
    · rw [show s.cb = .give from hr] at hpast
      cases hpast
    · cases hr
  | opening v p => simp [hpc] at hs
  | wait | serve =>
    rw [hpc] at hs
    simp only at hs
    split at hs
    · cases hs
      exact h.away rfl rfl rfl huses rfl (fun _ _ => StickPc.noConfusion)
        fun _ => StickPc.noConfusion
    · cases hs
  | _ =>
    rw [hpc] at hs
    cases hs
    exact h.away rfl rfl rfl huses rfl (fun _ _ => StickPc.noConfusion)
      fun _ => StickPc.noConfusion

theorem IdInv.step (h : IdInv s) (hok : Passes s l) (hs : usbIdentity.step s l = some t) :
    IdInv t := by
  cases l with
  | cb => exact h.stepCb hok hs
  | stick => exact h.stepStick hok hs
  | newDev d desc info =>
    simp only [usbIdentity] at hs
    split at hs
    · cases hs
      exact ⟨hok, fun hr => h.recorded (hr.imp_right fun hr => Or.inr (hr.resolve_left (by simp))),
        h.opened, h.snapshot, h.tested, h.copied, h.looked⟩
    · cases hs
  | disconnect =>
    simp only [usbIdentity] at hs
    split at hs
    · cases hs
      exact ⟨h.reads, h.recorded, h.opened, h.snapshot, h.tested, h.copied, h.looked⟩
    · cases hs
  | event =>
    simp only [usbIdentity, IdState.stepEvent] at hs
    split at hs
    · cases hs
    · cases hs
      exact ⟨h.reads, h.recorded, h.opened, h.snapshot, h.tested, h.copied, h.looked⟩
    · cases hs
      exact ⟨h.reads, h.recorded, h.opened, h.snapshot, h.tested, h.copied, h.looked⟩
  | opened r =>
    simp only [usbIdentity] at hs
    split at hs
    · next v p hpc =>
      have huses : s.connectSem = true ∨ s.stick.uses = true := by
        rw [hpc]
        exact Or.inr rfl
      cases r with
      | none =>
        cases hs
        exact h.away rfl rfl rfl (fun _ => huses) rfl (fun _ _ => StickPc.noConfusion)
          fun _ => StickPc.noConfusion
      | some e =>
        simp only at hs
        split at hs
        · cases hs
          -- the device that was opened is the recorded one, and so is the serial number
          obtain ⟨hlast, hsnap⟩ := hok e rfl
          refine ⟨h.reads, fun _ => h.recorded (huses.imp_right Or.inr), fun v' p' d hd => ?_,
            fun v' p' d hd hser => ?_, fun _ _ _ _ hd => (by cases hd),
            fun d k hd => (by cases hd), fun d hd => (by cases hd)⟩
          · cases hd
            exact hlast
          · cases hd
            have hown := hsnap hser
            rw [hpc] at hown
            exact StickPc.opening.inj hown
        · cases hs
    · cases hs

end Steps

/-! ## The key of the opened device -/

/-- When `stick_task` looks up the line coding of a device it has opened, `S.key` is the
device's own key, in every run in which the identity passes from the device to the key. -/
theorem own_key {s : IdState} {d : UsbDevice} (hrun : usbIdentity.Reaches Passes .start s)
    (hd : s.stick = .lookup d) : s.key = d.key :=
  (Machine.Reaches.invariant (I := IdInv) hrun idInv_start
    fun _ _ _ hi hok hs => hi.step hok hs).looked d hd

/-- A CH340 without a serial number, and a CUL with one. -/
def ch340 : UsbDevice := ⟨0x1a86, 0x7523, none⟩

def cul : UsbDevice := ⟨0x03eb, 0x204b, some ⟨[0x41, 0x31], by decide⟩⟩

/-- The CUL after the CH340. -/
theorem own_key_second :
    ∃ s, usbIdentity.Reaches Passes .start s ∧ s.stick = .lookup cul ∧ s.key = cul.key := by
  obtain ⟨s, hrun, hd⟩ := usbIdentity.exists_reaches_of_runIf Passes
    (fun s => s.stick = .lookup cul) .start
    [.newDev ch340 true true :: List.replicate 5 .cb, List.replicate 4 .stick,
      .opened (some ch340) :: List.replicate 5 .stick, [.disconnect, .event, .event],
      List.replicate 5 .stick, .newDev cul true true :: List.replicate 5 .cb,
      List.replicate 4 .stick, .opened (some cul) :: List.replicate 4 .stick].flatten
    (by decide +kernel)
  exact ⟨s, hrun, hd, own_key hrun hd⟩

/-- Without the conditions it fails: the CUL is plugged in while the CH340 is torn down, its
serial number is cleared, and it gets the key of its VID and PID. -/
theorem own_key_fails :
    ∃ s, usbIdentity.Reaches (fun _ _ => True) .start s ∧ s.stick = .lookup cul ∧
      s.key = hex4 cul.vid ++ 58 :: hex4 cul.pid ∧ s.key ≠ cul.key :=
  usbIdentity.exists_reaches_of_runIf (fun _ _ => True)
    (fun s => s.stick = .lookup cul ∧ s.key = hex4 cul.vid ++ 58 :: hex4 cul.pid ∧
      s.key ≠ cul.key) .start
    [.newDev ch340 true true :: List.replicate 5 .cb, List.replicate 4 .stick,
      .opened (some ch340) :: List.replicate 5 .stick, [.disconnect, .event, .event],
      List.replicate 2 .stick, .newDev cul true true :: List.replicate 5 .cb,
      List.replicate 7 .stick, .opened (some cul) :: List.replicate 4 .stick].flatten
    (by decide +kernel)

/-- A CH340 whose descriptor cannot be read is opened by two wildcards and gets their key. -/
example : ∃ s, usbIdentity.Reaches (fun _ _ => True) .start s ∧ s.stick = .lookup ch340 ∧
    s.key = hex4 0 ++ 58 :: hex4 0 ∧ s.key ≠ ch340.key :=
  usbIdentity.exists_reaches_of_runIf (fun _ _ => True)
    (fun s => s.stick = .lookup ch340 ∧ s.key = hex4 0 ++ 58 :: hex4 0 ∧ s.key ≠ ch340.key)
    .start
    [.newDev ch340 false true :: List.replicate 3 .cb, List.replicate 4 .stick,
      .opened (some ch340) :: List.replicate 4 .stick].flatten (by decide +kernel)

end Cdc2Net.Source.UsbIdentity
