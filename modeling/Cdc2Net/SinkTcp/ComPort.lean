import Cdc2Net.SinkTcp.Telnet
import Cdc2Net.Source.SerialCfg

/-!
# Negotiation and COM-PORT replies

The pure parts of `tn_negotiate`, `cpo_reply` and `tn_subneg`: which reply an
option request gets, which line coding a COM-PORT subnegotiation asks for
(`subnegRequest`), and the reply frame once the coding in effect is known
(`subnegReply`).
-/

set_option autoImplicit false

namespace Cdc2Net.SinkTcp

open Cdc2Net.SinkTcp.Telnet
open Cdc2Net.Source

/-- `TOPT_BINARY`. -/
def toptBinary : UInt8 := 0x00
/-- `TOPT_ECHO`. -/
def toptEcho : UInt8 := 0x01
/-- `TOPT_SGA`. -/
def toptSga : UInt8 := 0x03
/-- `TOPT_COMPORT`. -/
def toptComport : UInt8 := 0x2C

/-- `CPO_SIGNATURE`. -/
def cpoSignature : UInt8 := 0
/-- `CPO_SET_BAUDRATE`. -/
def cpoSetBaudrate : UInt8 := 1
/-- `CPO_SET_DATASIZE`. -/
def cpoSetDatasize : UInt8 := 2
/-- `CPO_SET_PARITY`. -/
def cpoSetParity : UInt8 := 3
/-- `CPO_SET_STOPSIZE`. -/
def cpoSetStopsize : UInt8 := 4
/-- `CPO_SET_CONTROL`. -/
def cpoSetControl : UInt8 := 5
/-- `CPO_LINESTATE_MASK`. -/
def cpoLinestateMask : UInt8 := 10
/-- `CPO_MODEMSTATE_MASK`. -/
def cpoModemstateMask : UInt8 := 11
/-- `CPO_PURGE_DATA`. -/
def cpoPurgeData : UInt8 := 12
/-- `CPO_SERVER_BASE`. -/
def cpoServerBase : UInt8 := 100

/-- The reply command of `tn_negotiate`; `none` where the request is swallowed. -/
def negotiateReply (cmd opt : UInt8) : Option UInt8 :=
  if opt = toptComport ∨ opt = toptSga ∨ opt = toptBinary then
    if cmd = tcWill then some tcDo else if cmd = tcDo then some tcWill else none
  -- the bridge never echoes
  else if opt = toptEcho then
    if cmd = tcDo then some tcWont else if cmd = tcWill then some tcDont else none
  else if cmd = tcWill then some tcDont
  else if cmd = tcDo then some tcWont
  else none

/-- `rfc_to_cdc_parity`. -/
def rfcToCdcParity (r : UInt8) : UInt8 := if 1 ≤ r ∧ r ≤ 5 then r - 1 else 0
/-- `cdc_to_rfc_parity`. -/
def cdcToRfcParity (c : UInt8) : UInt8 := c + 1
/-- `rfc_to_cdc_stop`. -/
def rfcToCdcStop (r : UInt8) : UInt8 := if r = 2 then 2 else if r = 3 then 1 else 0
/-- `cdc_to_rfc_stop`. -/
def cdcToRfcStop (c : UInt8) : UInt8 := if c = 2 then 2 else if c = 1 then 3 else 1

/-- `sizeof(r)` in `cpo_reply`. -/
def cpoReplySize : Nat := 72

/-- The value loop of `cpo_reply` from frame index `k`, 0xFF doubled. -/
def cpoValue : Nat → List UInt8 → List UInt8
  | _, [] => []
  | k, b :: bs =>
    -- room for a doubled byte and the closing IAC SE
    if k < cpoReplySize - 3 then
      if b = tcIac then b :: tcIac :: cpoValue (k + 2) bs else b :: cpoValue (k + 1) bs
    else []

/-- `cpo_reply`: the frame handed to `tn_send`. -/
def cpoReply (respCmd : UInt8) (val : List UInt8) : List UInt8 :=
  [tcIac, tcSb, toptComport, respCmd] ++ cpoValue 4 val ++ [tcIac, tcSe]

/-- The command byte of a COM-PORT subnegotiation. -/
def subnegCmd (sb : List UInt8) : UInt8 := if 2 ≤ sb.length then sb.getD 1 0 else 0xFF

/-- The value bytes of a COM-PORT subnegotiation. -/
def subnegVal (sb : List UInt8) : List UInt8 := sb.drop 2

/-- The big-endian request of SET-BAUDRATE. -/
def baudOfBytes (val : List UInt8) : UInt32 :=
  ((val.getD 0 0).toUInt32 <<< 24) ||| ((val.getD 1 0).toUInt32 <<< 16) |||
    ((val.getD 2 0).toUInt32 <<< 8) ||| (val.getD 3 0).toUInt32

/-- The big-endian reply value of SET-BAUDRATE. -/
def bytesOfBaud (baud : UInt32) : List UInt8 :=
  [(baud >>> 24).toUInt8, (baud >>> 16).toUInt8, (baud >>> 8).toUInt8, baud.toUInt8]

/-- The coding a subnegotiation of the controller asks for, given the current
one; `none` for a query or a command that sets nothing. -/
def subnegRequest (sb : List UInt8) (lc : LineCoding) : Option LineCoding :=
  let val := subnegVal sb
  -- a value of 0 asks for the current setting
  if subnegCmd sb = cpoSetBaudrate then
    if 4 ≤ val.length ∧ baudOfBytes val ≠ 0 then some { lc with baud := baudOfBytes val } else none
  else if subnegCmd sb = cpoSetDatasize then
    if 1 ≤ val.length ∧ val.getD 0 0 ≠ 0 then some { lc with bits := val.getD 0 0 } else none
  else if subnegCmd sb = cpoSetParity then
    if 1 ≤ val.length ∧ val.getD 0 0 ≠ 0 then
      some { lc with parity := rfcToCdcParity (val.getD 0 0) } else none
  else if subnegCmd sb = cpoSetStopsize then
    if 1 ≤ val.length ∧ val.getD 0 0 ≠ 0 then
      some { lc with stop := rfcToCdcStop (val.getD 0 0) } else none
  else none

/-- The subnegotiation asks for another coding, whatever the current one is. -/
def subnegSets (sb : List UInt8) : Bool := (subnegRequest sb ⟨0, 0, 0, 0⟩).isSome

theorem subnegRequest_isSome (sb : List UInt8) (lc : LineCoding) :
    (subnegRequest sb lc).isSome = subnegSets sb := by
  simp only [subnegSets, subnegRequest]
  split_ifs <;> rfl

/-- The signature `"CDC2NET " FW_VERSION_STRING`. -/
def signature : List UInt8 := asciiBytes "CDC2NET 0.2.296"

/-- The reply value of SET-CONTROL, a stub without wire effect. -/
def controlReply (req : UInt8) : UInt8 :=
  if req ≤ 3 then 1 else if req ≤ 6 then 6 else if req ≤ 9 then 8 else if req ≤ 12 then 11 else 1

/-- The reply frame of `tn_subneg` when `lc` is in effect after the request;
`none` for an unknown suboption. -/
def subnegReply (sb : List UInt8) (lc : LineCoding) : Option (List UInt8) :=
  let cmd := subnegCmd sb
  let val := subnegVal sb
  if cmd = cpoSignature then some (cpoReply (cpoServerBase + cpoSignature) signature)
  else if cmd = cpoSetBaudrate then
    some (cpoReply (cpoServerBase + cpoSetBaudrate) (bytesOfBaud lc.baud))
  else if cmd = cpoSetDatasize then some (cpoReply (cpoServerBase + cpoSetDatasize) [lc.bits])
  else if cmd = cpoSetParity then
    some (cpoReply (cpoServerBase + cpoSetParity) [cdcToRfcParity lc.parity])
  else if cmd = cpoSetStopsize then
    some (cpoReply (cpoServerBase + cpoSetStopsize) [cdcToRfcStop lc.stop])
  else if cmd = cpoSetControl then
    some (cpoReply (cpoServerBase + cpoSetControl) [controlReply (val.getD 0 0)])
  else if cmd = cpoPurgeData then some (cpoReply (cpoServerBase + cpoPurgeData) [val.getD 0 0])
  else if cmd = cpoLinestateMask ∨ cmd = cpoModemstateMask then
    some (cpoReply (cpoServerBase + cmd) [0])
  else none

end Cdc2Net.SinkTcp
