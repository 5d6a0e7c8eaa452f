import Cdc2Net.Source.Uart
import Cdc2Net.Source.Usb

/-!
# The line-coding side of `struct source_ops`

`SerialSource` is what the web handlers see of a source: the apply with provenance, the
info snapshot, and the codings that a revert and an open resolve from the NVS table. Its
laws are fields, proved once for the UART and for the two USB stacks. Over a table, a
`SerialSource` is the `LineSource` that the TCP sink drives.
-/

set_option autoImplicit false

namespace Cdc2Net.Source

universe u v w x

/-- What `h_serial_post` reads of `source_serial_info_t`. -/
structure SerialInfo where
  connected : Bool
  key : List UInt8
  lc : LineCoding
  lcSource : UInt8
  deriving DecidableEq, Repr

/-- The coding of `key` and its provenance: the NVS entry, else `default`. -/
def resolveCoding (default : LineCoding) (nvs : NvsTable) (key : List UInt8) :
    LineCoding × UInt8 :=
  match serialcfgLookup nvs key with
  | some lc => (lc, 1)
  | none => (default, 0)

/-- A source with states `σ`, driver results `ρ`, pluggable devices `δ` and codings `W` on
the wire. -/
structure SerialSource (σ : Type u) (ρ : Type v) (δ : Type w) (W : Type x) where
  /-- `apply_lc`. -/
  applyLc : ρ → σ → LineCoding → UInt8 → EspErr × σ
  /-- What `op_revert_line_coding` applies. -/
  revertCoding : NvsTable → σ → LineCoding × UInt8
  /-- What the source applies when it comes up again with the same device. -/
  openCoding : NvsTable → σ → LineCoding × UInt8
  opened : NvsTable → ρ → δ → σ → σ
  closed : σ → σ
  /-- `op_get_serial_info`. -/
  serialInfo : σ → SerialInfo
  /-- The coding the line is at. -/
  wire : σ → W
  wireOf : LineCoding → W
  /-- An apply reaches the line. -/
  drives : σ → Bool
  /-- After this device is opened no coding reaches the line, or the one on it is marked 2. -/
  opensOff : ρ → δ → σ → Bool
  /-- The source's own default. -/
  default : LineCoding
  info_ok : ∀ r s lc src, (applyLc r s lc src).1 = .ok →
    serialInfo (applyLc r s lc src).2 = { serialInfo s with lc := lc, lcSource := src }
  info_err : ∀ r s lc src, (applyLc r s lc src).1 ≠ .ok →
    serialInfo (applyLc r s lc src).2 = serialInfo s
  drives_apply : ∀ r s lc src, drives (applyLc r s lc src).2 = drives s
  wire_ok : ∀ r s lc src, (applyLc r s lc src).1 = .ok → drives s = true →
    wire (applyLc r s lc src).2 = wireOf lc
  wire_idle : ∀ r s lc src, drives s = false → wire (applyLc r s lc src).2 = wire s
  exists_ok : ∀ s lc src, ∃ r, (applyLc r s lc src).1 = .ok
  wireOf_baud : ∀ lc lc', wireOf lc = wireOf lc' → lc.baud = lc'.baud
  keyed : ∀ s, (serialInfo s).connected = true → ValidKey (serialInfo s).key
  opened_off : ∀ nvs r d s, opensOff r d s = true ↔
    (serialInfo (opened nvs r d s)).lcSource = 2 ∨
      (serialInfo (opened nvs r d s)).connected = false ∨ drives (opened nvs r d s) = false
  closed_off : ∀ s, closed s = s ∨ (serialInfo (closed s)).connected = false
  revert_unmarked : ∀ nvs s, (revertCoding nvs s).2 ≠ 2
  revert_resolves : ∀ nvs s, (serialInfo s).connected = true →
    revertCoding nvs s = resolveCoding default nvs (serialInfo s).key
  open_resolves : ∀ nvs s, (serialInfo s).connected = true →
    openCoding nvs s = resolveCoding default nvs (serialInfo s).key

namespace SerialSource

variable {σ : Type u} {ρ : Type v} {δ : Type w} {W : Type x} (src : SerialSource σ ρ δ W)

/-- The source as the TCP sink drives it; `op_set_line_coding` stamps 2. -/
def lineSource (nvs : NvsTable) : LineSource σ ρ where
  setLineCoding s r lc := src.applyLc r s lc 2
  revertLineCoding s r := (src.applyLc r s (src.revertCoding nvs s).1 (src.revertCoding nvs s).2).2
  getLineCoding s := (src.serialInfo s).lc
  get_set_ok s r lc h := by rw [src.info_ok r s lc 2 h]
  get_set_err s r lc h := by rw [src.info_err r s lc 2 h]

end SerialSource

/-! ## The three sources -/

/-- `source_usb.c` and `source_usb_cherry.c`, from their `apply_lc` and their open. -/
def usbSource (pushes : Usb.State → Bool) (driver : EspErr → EspErr)
    (hdriver : driver .ok = .ok) (opened : NvsTable → EspErr → Usb.Device → Usb.State → Usb.State)
    (opensOff : EspErr → Usb.Device → Usb.State → Bool)
    (hpushes : ∀ s t : Usb.State, s.handle = t.handle → s.isVcp = t.isVcp → pushes s = pushes t)
    (hopened : ∀ nvs r d s, opensOff r d s = true ↔ (opened nvs r d s).lcSource = 2 ∨
      (opened nvs r d s).connected = false ∨ pushes (opened nvs r d s) = false) :
    SerialSource Usb.State EspErr Usb.Device LineCoding where
  applyLc r s lc src := Usb.applyLcWith (pushes s) (driver r) s lc src
  revertCoding := Usb.revertCoding
  openCoding nvs s := Usb.resolved nvs s.key
  opened := opened
  closed := Usb.closed
  serialInfo s := ⟨s.connected, s.key, s.lc, s.lcSource⟩
  wire := Usb.State.wire
  wireOf lc := lc
  drives := pushes
  opensOff := opensOff
  default := serialcfgDefault
  info_ok r s lc src h := by rw [Usb.applyLcWith_ok h]
  info_err r s lc src h := by rw [Usb.applyLcWith_err h]
  drives_apply r s lc src := by
    obtain ⟨-, hhandle, hvcp, -⟩ := Usb.applyLcWith_frame (pushes s) (driver r) s lc src
    exact hpushes _ _ hhandle hvcp
  wire_ok r s lc src h hd := by
    rw [Usb.applyLcWith_ok h]
    exact if_pos hd
  wire_idle r s lc src hd := by
    rw [hd]
    rfl
  exists_ok s lc src := by
    refine ⟨.ok, ?_⟩
    rw [Usb.applyLcWith, hdriver]
    exact ite_self _
  wireOf_baud lc lc' h := by rw [h]
  keyed s h := s.keyed h
  opened_off := hopened
  closed_off s := .inr rfl
  revert_unmarked nvs s := Usb.revertCoding_unmarked nvs s
  revert_resolves nvs s h := Usb.revertCoding_connected nvs h
  open_resolves nvs s h := rfl

/-- `source_usb.c`. -/
def espUsbSource : SerialSource Usb.State EspErr Usb.Device LineCoding :=
  usbSource (fun s => s.handle && s.isVcp) id rfl Usb.espUsbOpened Usb.espUsbOpensOff
    (fun s t hh hv => by rw [hh, hv]) Usb.espUsbOpensOff_iff

/-- `source_usb_cherry.c`. -/
def cherrySource : SerialSource Usb.State EspErr Usb.Device LineCoding :=
  usbSource Usb.State.handle (fun r => if r = .ok then .ok else .fail) rfl Usb.cherryOpened
    Usb.cherryOpensOff (fun _ _ hh _ => hh) Usb.cherryOpensOff_iff

/-- `source_uart.c`; its module is soldered in. -/
def uartSource (p : Uart.Profile) (hkey : ValidKey p.key) :
    SerialSource Uart.State Uart.SetResults Empty Uart.Port where
  applyLc r s lc src := Uart.applyLc r s lc src
  revertCoding nvs _ := Uart.resolved p nvs
  openCoding nvs _ := ((Uart.sourceUartInit p nvs).lc, (Uart.sourceUartInit p nvs).lcSource)
  opened _ _ d _ := d.elim
  closed s := s
  serialInfo s := ⟨s.ready, p.key, s.lc, s.lcSource⟩
  wire := Uart.State.port
  wireOf := Uart.portOf
  drives _ := true
  opensOff _ d _ := d.elim
  default := p.default
  info_ok r s lc src h := by rw [Uart.applyLc_of_ok h]
  info_err r s lc src h := by
    obtain ⟨hlc, hsrc⟩ := Uart.applyLc_of_err h
    rw [hlc, hsrc, Uart.applyLc_ready]
  drives_apply r s lc src := rfl
  wire_ok r s lc src h _ := by rw [Uart.applyLc_of_ok h]
  wire_idle r s lc src h := by cases h
  exists_ok s lc src := ⟨.allOk, rfl⟩
  wireOf_baud lc lc' h := congrArg Uart.Port.baud h
  keyed s _ := hkey
  opened_off _ _ d := d.elim
  closed_off s := .inl rfl
  revert_unmarked nvs _ := by
    rcases Uart.resolved_source p nvs with h | h <;> (rw [h]; decide)
  revert_resolves nvs s _ := rfl
  open_resolves nvs s _ := rfl

end Cdc2Net.Source
