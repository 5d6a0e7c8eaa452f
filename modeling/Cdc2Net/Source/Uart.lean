import Cdc2Net.Source.LineSource

/-!
# The UART source

`source_uart.c`: a hardware UART with a display shadow of its line coding. A
line coding is applied by four driver calls in a row; the shadow and its
provenance are written only when all four succeed (`applyLc`). The outcome of
each driver call is an input of the model, and a failed call changes nothing at
the driver.
-/

set_option autoImplicit false

namespace Cdc2Net.Source.Uart

/-- `uart_word_length_t`. -/
inductive WordLength where
  | bits5
  | bits6
  | bits7
  | bits8
  deriving DecidableEq, Repr

/-- `uart_parity_t`. -/
inductive Parity where
  | disable
  | even
  | odd
  deriving DecidableEq, Repr

/-- The values of `uart_stop_bits_t` the source uses. -/
inductive StopBits where
  | one
  | two
  deriving DecidableEq, Repr

/-- `to_word_len`. -/
def toWordLen (bits : UInt8) : WordLength :=
  if bits = 5 then .bits5 else if bits = 6 then .bits6 else if bits = 7 then .bits7 else .bits8

/-- `to_parity`: mark and space are unsupported and become none. -/
def toParity (parity : UInt8) : Parity :=
  if parity = 1 then .odd else if parity = 2 then .even else .disable

/-- `to_stop`. -/
def toStop (stop : UInt8) : StopBits := if stop = 2 then .two else .one

/-- What the UART driver is set to. -/
structure Port where
  baud : UInt32
  wordLength : WordLength
  parity : Parity
  stopBits : StopBits
  deriving DecidableEq, Repr

/-- The driver setting a line coding asks for. -/
def portOf (lc : LineCoding) : Port :=
  ⟨lc.baud, toWordLen lc.bits, toParity lc.parity, toStop lc.stop⟩

/-- The module profile: the `UART_KEY` and `UART_DEF_*` macros. -/
structure Profile where
  key : List UInt8
  defBaud : UInt32
  defParity : UInt8
  defStop : UInt8

/-- `UART_DEF_BITS`. -/
def uartDefBits : UInt8 := 8

/-- `UART_MODULE_NCN5130`. -/
def ncn5130 : Profile := ⟨asciiBytes "ncn5130", 38400, 2, 0⟩
/-- `UART_MODULE_ZB_NCP`; `UART_TCM_BAUD` is a build flag. -/
def zbNcp (uartTcmBaud : UInt32) : Profile := ⟨asciiBytes "zbncp", uartTcmBaud, 0, 0⟩
/-- The default profile; `UART_TCM_BAUD` is a build flag, 460800 if unset. -/
def tcm515 (uartTcmBaud : UInt32) : Profile := ⟨asciiBytes "tcm515", uartTcmBaud, 0, 0⟩

/-- `UART_DEF_BAUD/BITS/PARITY/STOP`. -/
def Profile.default (p : Profile) : LineCoding := ⟨p.defBaud, uartDefBits, p.defParity, p.defStop⟩

/-- The static `S` of `source_uart.c`, with the driver's setting. -/
structure State where
  ready : Bool
  lc : LineCoding
  lcSource : UInt8
  port : Port
  deriving DecidableEq, Repr

/-- What the four `uart_set_*` calls of one `apply_lc` return. -/
structure SetResults where
  baudrate : EspErr
  wordLength : EspErr
  parity : EspErr
  stopBits : EspErr
  deriving DecidableEq, Repr

/-- All four calls succeed. -/
def SetResults.allOk : SetResults := ⟨.ok, .ok, .ok, .ok⟩

/-- `apply_lc`. `src` is the provenance: 0 default, 1 nvs, 2 rfc2217. -/
def applyLc (r : SetResults) (s : State) (lc : LineCoding) (src : UInt8) : EspErr × State :=
  if r.baudrate ≠ .ok then (r.baudrate, s)
  else if r.wordLength ≠ .ok then
    (r.wordLength, { s with port := { s.port with baud := lc.baud } })
  else if r.parity ≠ .ok then
    (r.parity,
      { s with port := { s.port with baud := lc.baud, wordLength := toWordLen lc.bits } })
  else if r.stopBits ≠ .ok then
    (r.stopBits, { s with port := { portOf lc with stopBits := s.port.stopBits } })
  else (.ok, { s with port := portOf lc, lc := lc, lcSource := src })

/-- The device's own coding and its provenance: its NVS entry, else the profile's
default. Resolved so by `op_revert_line_coding` and by `source_uart_init`. -/
def resolved (p : Profile) (nvs : NvsTable) : LineCoding × UInt8 :=
  match serialcfgLookup nvs p.key with
  | some lc => (lc, 1)
  | none => (p.default, 0)

/-- `op_set_line_coding`. -/
def opSetLineCoding (s : State) (r : SetResults) (lc : LineCoding) : EspErr × State :=
  applyLc r s lc 2

/-- `op_revert_line_coding`. -/
def opRevertLineCoding (p : Profile) (nvs : NvsTable) (s : State) (r : SetResults) : State :=
  (applyLc r s (resolved p nvs).1 (resolved p nvs).2).2

/-- `op_get_line_coding`: the display shadow. -/
def opGetLineCoding (s : State) : LineCoding := s.lc

/-- The state `source_uart_init` leaves. -/
def sourceUartInit (p : Profile) (nvs : NvsTable) : State :=
  ⟨true, (resolved p nvs).1, (resolved p nvs).2, portOf (resolved p nvs).1⟩

variable {r : SetResults} {s : State} {lc : LineCoding} {src : UInt8}

/-- A successful apply sets the driver, the shadow and the provenance. -/
theorem applyLc_of_ok (h : (applyLc r s lc src).1 = .ok) :
    (applyLc r s lc src).2 = { s with port := portOf lc, lc := lc, lcSource := src } := by
  simp only [applyLc] at h ⊢
  split_ifs at h ⊢ with hb hw hp hs
  · exact absurd h hb
  · exact absurd h hw
  · exact absurd h hp
  · exact absurd h hs
  · rfl

/-- A failed apply leaves shadow and provenance. -/
theorem applyLc_of_err (h : (applyLc r s lc src).1 ≠ .ok) :
    (applyLc r s lc src).2.lc = s.lc ∧ (applyLc r s lc src).2.lcSource = s.lcSource := by
  simp only [applyLc] at h ⊢
  split_ifs at h ⊢ with hb hw hp hs
  · exact ⟨rfl, rfl⟩
  · exact ⟨rfl, rfl⟩
  · exact ⟨rfl, rfl⟩
  · exact ⟨rfl, rfl⟩
  · exact absurd rfl h

/-- An apply does not change whether the source is ready. -/
theorem applyLc_ready (r : SetResults) (s : State) (lc : LineCoding) (src : UInt8) :
    (applyLc r s lc src).2.ready = s.ready := by
  simp only [applyLc]
  split_ifs <;> rfl

/-- The UART source behind the bridge interface. -/
def lineSource (p : Profile) (nvs : NvsTable) : LineSource State SetResults where
  setLineCoding := opSetLineCoding
  revertLineCoding := opRevertLineCoding p nvs
  getLineCoding := opGetLineCoding
  get_set_ok s r lc h := by
    show (applyLc r s lc 2).2.lc = lc
    rw [applyLc_of_ok h]
  get_set_err s r lc h := (applyLc_of_err h).1

/-- The provenance of the device's own coding is 0 or 1. -/
theorem resolved_source (p : Profile) (nvs : NvsTable) :
    (resolved p nvs).2 = 0 ∨ (resolved p nvs).2 = 1 := by
  rw [resolved]
  cases serialcfgLookup nvs p.key with
  | none => exact Or.inl rfl
  | some lc => exact Or.inr rfl

end Cdc2Net.Source.Uart
