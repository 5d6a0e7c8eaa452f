import Cdc2Net.Source.SerialStore

/-!
# The USB sources

The line-coding side of `source_usb.c` (esp-usb) and `source_usb_cherry.c` (CherryUSB). The
two differ in when a coding is pushed to the device: esp-usb pushes it through a VCP driver
only and merely records it for native CDC-ACM, CherryUSB pushes it to every open device.
The result of the driver call is an input; a failed call changes nothing at the device.
-/

set_option autoImplicit false

namespace Cdc2Net.Source.Usb

/-- The static `S`, with the coding the device is at. A connected device has a key, which
`derive_key` makes of its descriptors. -/
structure State where
  connected : Bool
  /-- `S.cdc` or `S.ser` is not NULL. -/
  handle : Bool
  isVcp : Bool
  key : List UInt8
  lc : LineCoding
  lcSource : UInt8
  wire : LineCoding
  keyed : connected = true → ValidKey key

/-- A device that can be plugged in: its key, its driver, and the coding it is at. -/
structure Device where
  key : List UInt8
  isVcp : Bool
  wire : LineCoding
  keyed : ValidKey key

/-- `apply_lc`, for a source that calls the driver if `pushes`. -/
def applyLcWith (pushes : Bool) (r : EspErr) (s : State) (lc : LineCoding) (src : UInt8) :
    EspErr × State :=
  let err := if pushes then r else .ok
  (err,
    if err = .ok then
      { s with lc := lc, lcSource := src, wire := if pushes then lc else s.wire }
    else s)

/-- `apply_lc` of `source_usb.c`. -/
def espUsbApplyLc (r : EspErr) (s : State) (lc : LineCoding) (src : UInt8) : EspErr × State :=
  applyLcWith (s.handle && s.isVcp) r s lc src

/-- `apply_lc` of `source_usb_cherry.c`: every error of the driver is `ESP_FAIL`. -/
def cherryApplyLc (r : EspErr) (s : State) (lc : LineCoding) (src : UInt8) : EspErr × State :=
  applyLcWith s.handle (if r = .ok then .ok else .fail) s lc src

/-- The coding of a key and its provenance: its NVS entry, else the global default. -/
def resolved (nvs : NvsTable) (key : List UInt8) : LineCoding × UInt8 :=
  match serialcfgLookup nvs key with
  | some lc => (lc, 1)
  | none => (serialcfgDefault, 0)

/-- What `op_revert_line_coding` of both sources applies. -/
def revertCoding (nvs : NvsTable) (s : State) : LineCoding × UInt8 :=
  if s.key ≠ [] then resolved nvs s.key else (serialcfgDefault, 0)

/-- `stick_task` has the handle of a device. -/
def attached (d : Device) (s : State) : State :=
  { s with
    connected := true, handle := true, isVcp := d.isVcp, key := d.key, wire := d.wire
    keyed := fun _ => d.keyed }

/-- `stick_task` of `source_usb.c` opens a device; a failed apply is only logged. -/
def espUsbOpened (nvs : NvsTable) (r : EspErr) (d : Device) (s : State) : State :=
  (espUsbApplyLc r (attached d s) (resolved nvs d.key).1 (resolved nvs d.key).2).2

/-- `stick_task` of `source_usb_cherry.c` opens a device; a failed apply closes it. -/
def cherryOpened (nvs : NvsTable) (r : EspErr) (d : Device) (s : State) : State :=
  let a := cherryApplyLc r (attached d s) (resolved nvs d.key).1 (resolved nvs d.key).2
  if a.1 = .ok then a.2
  else { a.2 with connected := false, handle := false, keyed := fun h => by cases h }

/-- The teardown of both `stick_task`s. -/
def closed (s : State) : State :=
  { s with
    connected := false, handle := false, isVcp := false, key := []
    keyed := fun h => by cases h }

/-- After esp-usb opened a device, no coding reaches the line or the old mark 2 is left: the
device is native CDC-ACM, or its driver refused the coding. -/
def espUsbOpensOff (r : EspErr) (d : Device) (s : State) : Bool :=
  !d.isVcp || (r ≠ .ok && s.lcSource = 2)

/-- After CherryUSB opened a device no coding reaches the line: its driver refused the coding. -/
def cherryOpensOff (r : EspErr) (_ : Device) (_ : State) : Bool := r ≠ .ok

section Laws

variable {pushes : Bool} {r : EspErr} {s : State} {lc : LineCoding} {src : UInt8}

theorem applyLcWith_ok (h : (applyLcWith pushes r s lc src).1 = .ok) :
    (applyLcWith pushes r s lc src).2 =
      { s with lc := lc, lcSource := src, wire := if pushes then lc else s.wire } :=
  if_pos h

theorem applyLcWith_err (h : (applyLcWith pushes r s lc src).1 ≠ .ok) :
    (applyLcWith pushes r s lc src).2 = s :=
  if_neg h

/-- Handle, driver and key do not change with the coding. -/
theorem applyLcWith_frame (pushes : Bool) (r : EspErr) (s : State) (lc : LineCoding)
    (src : UInt8) :
    (applyLcWith pushes r s lc src).2.connected = s.connected ∧
      (applyLcWith pushes r s lc src).2.handle = s.handle ∧
      (applyLcWith pushes r s lc src).2.isVcp = s.isVcp ∧
      (applyLcWith pushes r s lc src).2.key = s.key := by
  by_cases h : (applyLcWith pushes r s lc src).1 = .ok
  · rw [applyLcWith_ok h]
    exact ⟨rfl, rfl, rfl, rfl⟩
  · rw [applyLcWith_err h]
    exact ⟨rfl, rfl, rfl, rfl⟩

/-- A coding of the table or the default is not marked a controller's. -/
theorem resolved_unmarked (nvs : NvsTable) (key : List UInt8) : (resolved nvs key).2 ≠ 2 := by
  rw [resolved]
  cases serialcfgLookup nvs key with
  | none => decide
  | some lc => show (1 : UInt8) ≠ 2; decide

theorem revertCoding_unmarked (nvs : NvsTable) (s : State) : (revertCoding nvs s).2 ≠ 2 := by
  rw [revertCoding]
  split
  · exact resolved_unmarked nvs s.key
  · decide

/-- A connected device is looked up under its key. -/
theorem revertCoding_connected (nvs : NvsTable) (h : s.connected = true) :
    revertCoding nvs s = resolved nvs s.key :=
  if_pos (s.keyed h).ne_nil

theorem espUsbOpensOff_iff (nvs : NvsTable) (r : EspErr) (d : Device) (s : State) :
    espUsbOpensOff r d s = true ↔ (espUsbOpened nvs r d s).lcSource = 2 ∨
      (espUsbOpened nvs r d s).connected = false ∨
      ((espUsbOpened nvs r d s).handle && (espUsbOpened nvs r d s).isVcp) = false := by
  obtain ⟨hconn, hhandle, hvcp, -⟩ := applyLcWith_frame
    ((attached d s).handle && (attached d s).isVcp) r (attached d s) (resolved nvs d.key).1
    (resolved nvs d.key).2
  rw [espUsbOpened, espUsbApplyLc, hconn, hhandle, hvcp]
  cases hd : d.isVcp with
  | false => simp [espUsbOpensOff, attached, hd]
  | true =>
    by_cases hr : r = .ok
    · simp [espUsbOpensOff, applyLcWith, attached, hd, hr, resolved_unmarked]
    · simp [espUsbOpensOff, applyLcWith, attached, hd, hr]

theorem cherryOpensOff_iff (nvs : NvsTable) (r : EspErr) (d : Device) (s : State) :
    cherryOpensOff r d s = true ↔ (cherryOpened nvs r d s).lcSource = 2 ∨
      (cherryOpened nvs r d s).connected = false ∨ (cherryOpened nvs r d s).handle = false := by
  by_cases hr : r = .ok
  · simp [cherryOpensOff, cherryOpened, cherryApplyLc, applyLcWith, attached, hr,
      resolved_unmarked]
  · simp [cherryOpensOff, cherryOpened, cherryApplyLc, applyLcWith, attached, hr]

end Laws

end Cdc2Net.Source.Usb
