import Cdc2Net.SinkTcp.SlotInvariant
import Cdc2Net.SinkTcp.TelnetDecode
import Cdc2Net.Source.Uart

/-!
# What a COM-PORT reply says about the UART

The controller sets the line coding with one subnegotiation after another. Each goes
through `rfc_to_cdc_*` of the sink and `to_word_len`, `to_parity` and `to_stop` of the
source, which send what they do not know to a default, and through four driver calls of
which a later one may fail. The reply and the display shadow `S.lc` name what was
asked for, or what was in force before.

Reply, shadow and driver agree throughout a run exactly if each request that sets
something is one the driver can be set to and all four calls succeed, or fails before a call
has changed the driver (`replies_tell_truth_iff`).
-/

set_option autoImplicit false

namespace Cdc2Net.Source.Uart

/-- The number of data bits. -/
def WordLength.count : WordLength → UInt8
  | .bits5 => 5
  | .bits6 => 6
  | .bits7 => 7
  | .bits8 => 8

/-- The parity in CDC form. -/
def Parity.cdc : Parity → UInt8
  | .disable => 0
  | .odd => 1
  | .even => 2

/-- The stop bits in CDC form. -/
def StopBits.cdc : StopBits → UInt8
  | .one => 0
  | .two => 2

/-- The line coding that denotes what the driver is set to. -/
def Port.coding (p : Port) : LineCoding :=
  ⟨p.baud, p.wordLength.count, p.parity.cdc, p.stopBits.cdc⟩

/-- A line coding the driver can be set to. -/
def Supported (lc : LineCoding) : Prop :=
  (5 ≤ lc.bits ∧ lc.bits ≤ 8) ∧ lc.parity ≤ 2 ∧ (lc.stop = 0 ∨ lc.stop = 2)

instance (lc : LineCoding) : Decidable (Supported lc) := by
  unfold Supported
  infer_instance

/-- The shadow names the setting in effect, in the CDC range. -/
structure Agrees (s : State) : Prop where
  coding : s.lc = s.port.coding
  bits : 5 ≤ s.lc.bits ∧ s.lc.bits ≤ 8
  parity : s.lc.parity ≤ 4
  stop : s.lc.stop ≤ 2

/-- The calls before the one that fails leave the driver as it is: what they set was set
already. -/
def SetResults.FailsFirst (r : SetResults) (lc : LineCoding) (p : Port) : Prop :=
  (r.baudrate = .ok → lc.baud = p.baud) ∧
    (r.baudrate = .ok → r.wordLength = .ok → toWordLen lc.bits = p.wordLength) ∧
    (r.baudrate = .ok → r.wordLength = .ok → r.parity = .ok → toParity lc.parity = p.parity)

variable {r : SetResults} {s : State} {lc : LineCoding} {src : UInt8}

theorem toWordLen_count (b : UInt8) : (toWordLen b).count = b ↔ 5 ≤ b ∧ b ≤ 8 := by
  rw [toWordLen]
  split_ifs with h5 h6 h7
  · simp [WordLength.count, h5]
  · simp [WordLength.count, h6]
  · simp [WordLength.count, h7]
  · simp only [WordLength.count, UInt8.le_iff_toNat_le, ← UInt8.toNat_inj] at h5 h6 h7 ⊢
    simp only [UInt8.reduceToNat] at h5 h6 h7 ⊢
    omega

theorem toParity_cdc (b : UInt8) : (toParity b).cdc = b ↔ b ≤ 2 := by
  rw [toParity]
  split_ifs with h1 h2
  · simp [Parity.cdc, h1]
  · simp [Parity.cdc, h2]
  · simp only [Parity.cdc, UInt8.le_iff_toNat_le, ← UInt8.toNat_inj] at h1 h2 ⊢
    simp only [UInt8.reduceToNat] at h1 h2 ⊢
    omega

theorem toStop_cdc (b : UInt8) : (toStop b).cdc = b ↔ b = 0 ∨ b = 2 := by
  rw [toStop]
  split_ifs with h2
  · simp [StopBits.cdc, h2]
  · simp [StopBits.cdc, h2, eq_comm]

/-- What the source makes of a coding denotes it exactly if it is supported. -/
theorem portOf_coding_iff : lc = (portOf lc).coding ↔ Supported lc := by
  rw [Supported, ← toWordLen_count, ← toParity_cdc, ← toStop_cdc]
  cases lc
  simp [portOf, Port.coding, eq_comm]

/-- The source sets the driver to what a coding denotes. -/
theorem portOf_coding (p : Port) : portOf p.coding = p := by
  obtain ⟨baud, word, parity, stop⟩ := p
  have hword : toWordLen word.count = word := by cases word <;> rfl
  have hparity : toParity parity.cdc = parity := by cases parity <;> rfl
  have hstop : toStop stop.cdc = stop := by cases stop <;> rfl
  simp only [portOf, Port.coding, hword, hparity, hstop]

theorem Port.coding_supported (p : Port) : Supported p.coding :=
  portOf_coding_iff.1 (congrArg Port.coding (portOf_coding p).symm)

theorem Port.coding_inj {p p' : Port} (h : p.coding = p'.coding) : p = p' := by
  rw [← portOf_coding p, h, portOf_coding]

/-- A shadow that names the setting in effect is in the CDC range. -/
theorem agrees_iff : Agrees s ↔ s.lc = s.port.coding := by
  constructor
  · exact Agrees.coding
  · intro h
    obtain ⟨hbits, hparity, hstop⟩ : Supported s.lc := h ▸ s.port.coding_supported
    refine ⟨h, hbits, UInt8.le_trans hparity (by decide), ?_⟩
    rcases hstop with h0 | h2
    · rw [h0]
      decide
    · rw [h2]
      decide

/-- The UART starts in agreement exactly if its own coding is supported. -/
theorem agrees_sourceUartInit_iff (p : Profile) (nvs : NvsTable) :
    Agrees (sourceUartInit p nvs) ↔ Supported (resolved p nvs).1 :=
  agrees_iff.trans portOf_coding_iff

/-- Calls that do not all succeed leave agreement exactly if they change nothing. -/
theorem applyLc_agrees_iff (h : Agrees s) (hr : r ≠ .allOk) :
    Agrees (applyLc r s lc src).2 ↔ r.FailsFirst lc s.port := by
  have hsame : ∀ p : Port, Agrees { s with port := p } ↔ p = s.port := by
    intro p
    rw [agrees_iff]
    change s.lc = p.coding ↔ p = s.port
    rw [h.coding]
    exact ⟨fun hp => (Port.coding_inj hp).symm, fun hp => congrArg Port.coding hp.symm⟩
  obtain ⟨rb, rw', rp, rs⟩ := r
  by_cases hb : rb = .ok
  · by_cases hw : rw' = .ok
    · by_cases hp : rp = .ok
      · -- the stop bits fail, so the other three are set
        have hs : rs ≠ .ok := by
          rintro rfl
          exact hr (by rw [hb, hw, hp]; rfl)
        simp only [applyLc, hb, hw, hp, hs, ne_eq, not_true_eq_false, not_false_eq_true, if_true,
          if_false, hsame, SetResults.FailsFirst, forall_const]
        cases s.port
        simp [portOf]
      · simp only [applyLc, hb, hw, hp, ne_eq, not_true_eq_false, not_false_eq_true, if_true,
          if_false, hsame, SetResults.FailsFirst, forall_const]
        cases s.port
        simp
    · simp only [applyLc, hb, hw, ne_eq, not_true_eq_false, not_false_eq_true, if_true,
        if_false, hsame, SetResults.FailsFirst, forall_const]
      cases s.port
      simp
  · simp only [applyLc, hb, ne_eq, not_false_eq_true, if_true, SetResults.FailsFirst]
    simp [h]

end Cdc2Net.Source.Uart

namespace Cdc2Net.SinkTcp

open Cdc2Net.SinkTcp.Telnet
open Cdc2Net.Source
open Cdc2Net.Source.Uart

/-- The four commands that set the line coding. -/
inductive SetCmd where
  | baudrate
  | datasize
  | parity
  | stopsize
  deriving DecidableEq, Repr

/-- The suboption of a command. -/
def SetCmd.byte : SetCmd → UInt8
  | .baudrate => cpoSetBaudrate
  | .datasize => cpoSetDatasize
  | .parity => cpoSetParity
  | .stopsize => cpoSetStopsize

/-- A subnegotiation of the controller with its value bytes, and what the driver calls answer
if it comes to them. -/
structure SetRequest where
  cmd : SetCmd
  val : List UInt8
  results : SetResults

/-- The collected subnegotiation. -/
def SetRequest.sb (q : SetRequest) : List UInt8 := toptComport :: q.cmd.byte :: q.val

/-- `tn_subneg` of the controller on the UART source: the reply frame and what becomes of the
source. -/
def tnSubneg (s : State) (q : SetRequest) : Option (List UInt8) × State :=
  let lc := opGetLineCoding s
  match subnegRequest q.sb lc with
  | none => (subnegReply q.sb lc, s)
  | some new =>
    let a := opSetLineCoding s q.results new
    (subnegReply q.sb (if a.1 = .ok then new else lc), a.2)

/-- The value with which a server tells the setting of `p`: the baud rate in network order, the
number of data bits, 1 for no, 2 for odd and 3 for even parity, 1 or 2 for the stop bits. -/
def settingValue (p : Port) : SetCmd → List UInt8
  | .baudrate => bytesOfBaud p.baud
  | .datasize => [p.wordLength.count]
  | .parity => [match p.parity with | .disable => 1 | .odd => 2 | .even => 3]
  | .stopsize => [match p.stopBits with | .one => 1 | .two => 2]

/-- The reply is the server's answer to the command, with the setting of `p`. -/
def Tells (cmd : SetCmd) (p : Port) (reply : Option (List UInt8)) : Prop :=
  reply = some
    (TelnetEvent.subneg (toptComport :: (cpoServerBase + cmd.byte) :: settingValue p cmd)).encode

/-- Shadow and driver agree before the first request and after each, and each reply tells
the setting the driver then has. -/
def TellsTruth : State → List SetRequest → Prop
  | s, [] => Agrees s
  | s, q :: qs =>
    Agrees s ∧ Tells q.cmd (tnSubneg s q).2.port (tnSubneg s q).1 ∧ TellsTruth (tnSubneg s q).2 qs

/-- The request sets nothing, or something the driver can be set to with four calls that
succeed, or one of the calls fails before the driver has changed. -/
def SetRequest.Sound (q : SetRequest) (s : State) : Prop :=
  ∀ new, subnegRequest q.sb s.lc = some new →
    (q.results = .allOk ∧ Supported new) ∨
      (q.results ≠ .allOk ∧ q.results.FailsFirst new s.port)

/-- Every request of a run is sound in the state it finds. -/
def AllSound : State → List SetRequest → Prop
  | _, [] => True
  | s, q :: qs => q.Sound s ∧ AllSound (tnSubneg s q).2 qs

variable {s : State} {q : SetRequest}

/-- The task of the controller gets there in its two steps. -/
theorem tnSubneg_steps {p : Profile} {nvs : NvsTable} {w : World State} {i : Slot}
    {todo : List RxCall} (hw : w.bridge = some s)
    (ht : w.task i = some (.getLc true q.sb todo)) :
    ∃ w₁ lc, World.stepGetLc (lineSource p nvs) w i = some w₁ ∧
      World.stepApply (lineSource p nvs) w₁ i q.results =
        some { w₁.replySubneg i q.sb lc todo with bridge := some (tnSubneg s q).2 } ∧
      (tnSubneg s q).1 = subnegReply q.sb lc := by
  have hlc : (lineSource p nvs).bridgeGetLineCoding w.bridge = s.lc := by
    rw [hw]
    rfl
  let w₁ := w.setTask i (.apply true q.sb s.lc todo)
  have hget : World.stepGetLc (lineSource p nvs) w i = some w₁ := by
    simp [World.stepGetLc, ht, hlc, w₁]
  have htask : w₁.task i = some (.apply true q.sb s.lc todo) := by simp [w₁, World.setTask]
  have hbridge : w₁.bridge = some s := hw
  cases hreq : subnegRequest q.sb s.lc with
  | none =>
    refine ⟨w₁, s.lc, hget, ?_, by simp [tnSubneg, opGetLineCoding, hreq]⟩
    have hkeep := (World.replySubneg_spec w₁ i q.sb s.lc todo).2.2.1
    simp only [World.stepApply, World.applyCall, htask, hreq, Option.some.injEq, tnSubneg,
      opGetLineCoding]
    rw [← hbridge, ← hkeep]
  | some new =>
    refine ⟨w₁, if (opSetLineCoding s q.results new).1 = .ok then new else s.lc, hget, ?_,
      by simp only [tnSubneg, opGetLineCoding, hreq]⟩
    simp only [World.stepApply, World.applyCall, htask, hreq, hbridge, tnSubneg, opGetLineCoding]
    rfl

/-! ## The replies -/

/-- The loop of `cpo_reply` doubles 0xFF and has room for a short value. -/
theorem cpoValue_eq_stuff : ∀ (val : List UInt8) (k : Nat),
    k + 2 * val.length ≤ cpoReplySize - 3 → cpoValue k val = val.flatMap stuff
  | [], _, _ => rfl
  | b :: val, k, h => by
    rw [List.length_cons] at h
    have hroom : k < cpoReplySize - 3 := by omega
    rw [cpoValue, if_pos hroom, List.flatMap_cons, stuff]
    split
    · next hb =>
      rw [cpoValue_eq_stuff val (k + 2) (by omega), hb]
      rfl
    · rw [cpoValue_eq_stuff val (k + 1) (by omega)]
      rfl

theorem cpoReply_encode {respCmd : UInt8} {val : List UInt8} (hcmd : respCmd ≠ tcIac)
    (hlen : val.length ≤ 4) :
    cpoReply respCmd val = (TelnetEvent.subneg (toptComport :: respCmd :: val)).encode := by
  have hroom : 4 + 2 * val.length ≤ cpoReplySize - 3 := by
    simp only [cpoReplySize]
    omega
  have hopt : stuff toptComport = [toptComport] := by decide
  have hresp : stuff respCmd = [respCmd] := by simp [stuff, hcmd]
  rw [cpoReply, cpoValue_eq_stuff val 4 hroom, TelnetEvent.encode, List.flatMap_cons,
    List.flatMap_cons, hopt, hresp]
  simp

/-- A reply that names what the driver is set to tells it. -/
theorem tells_coding (cmd : SetCmd) (val : List UInt8) (p : Port) :
    Tells cmd p (subnegReply (toptComport :: cmd.byte :: val) p.coding) := by
  have hvalue : (settingValue p cmd).length ≤ 4 := by cases cmd <;> simp [settingValue, bytesOfBaud]
  have hcmd : cpoServerBase + cmd.byte ≠ tcIac := by cases cmd <;> decide
  rw [Tells, ← cpoReply_encode hcmd hvalue]
  cases cmd with
  | baudrate => rfl
  | datasize => rfl
  | parity =>
    obtain ⟨baud, word, parity, stop⟩ := p
    cases parity <;> rfl
  | stopsize =>
    obtain ⟨baud, word, parity, stop⟩ := p
    cases stop <;> rfl

/-- The reply names what the shadow holds afterwards. -/
theorem tnSubneg_reply (s : State) (q : SetRequest) :
    (tnSubneg s q).1 = subnegReply q.sb (tnSubneg s q).2.lc := by
  rw [tnSubneg]
  cases hreq : subnegRequest q.sb (opGetLineCoding s) with
  | none => rfl
  | some new =>
    change subnegReply q.sb (if (applyLc q.results s new 2).1 = .ok then new else s.lc) =
      subnegReply q.sb (applyLc q.results s new 2).2.lc
    by_cases hok : (applyLc q.results s new 2).1 = .ok
    · rw [if_pos hok, applyLc_of_ok hok]
    · rw [if_neg hok, (applyLc_of_err hok).1]

/-- From agreement a request leads to agreement exactly if it is sound. -/
theorem tnSubneg_agrees_iff (h : Agrees s) : Agrees (tnSubneg s q).2 ↔ q.Sound s := by
  cases hreq : subnegRequest q.sb s.lc with
  | none =>
    have hkeep : (tnSubneg s q).2 = s := by simp only [tnSubneg, opGetLineCoding, hreq]
    rw [hkeep]
    refine iff_of_true h ?_
    intro new hnew
    rw [hreq] at hnew
    cases hnew
  | some new =>
    have hset : (tnSubneg s q).2 = (applyLc q.results s new 2).2 := by
      simp only [tnSubneg, opGetLineCoding, hreq]
      rfl
    have hsound : q.Sound s ↔ (q.results = .allOk ∧ Supported new) ∨
        (q.results ≠ .allOk ∧ q.results.FailsFirst new s.port) := by
      simp [SetRequest.Sound, hreq]
    rw [hset, hsound]
    by_cases hall : q.results = .allOk
    · -- shadow and driver are set to what was asked for
      have hdone : (applyLc q.results s new 2).2 =
          { s with port := portOf new, lc := new, lcSource := 2 } := by
        rw [hall]
        rfl
      rw [hdone, agrees_iff, portOf_coding_iff]
      simp [hall]
    · rw [applyLc_agrees_iff h hall]
      simp [hall]

/-- **When the replies tell the truth.** For every run of subnegotiations of the controller, with
any values and any outcome of the driver calls, from any state of the source: shadow and
driver agree before it and after each request, the shadow stays in the CDC range, and each
reply tells the setting in effect, if and only if they agree before it and every request of the
run is sound in the state it finds. -/
theorem replies_tell_truth_iff (s : State) (qs : List SetRequest) :
    TellsTruth s qs ↔ Agrees s ∧ AllSound s qs := by
  induction qs generalizing s with
  | nil => simp [TellsTruth, AllSound]
  | cons q qs ih =>
    rw [TellsTruth, AllSound, ih]
    constructor
    · rintro ⟨hs, -, ht, hall⟩
      exact ⟨hs, (tnSubneg_agrees_iff hs).1 ht, hall⟩
    · rintro ⟨hs, hsound, hall⟩
      have ht := (tnSubneg_agrees_iff hs).2 hsound
      refine ⟨hs, ?_, ht, hall⟩
      rw [tnSubneg_reply, ht.coding]
      exact tells_coding q.cmd q.val _

/-- Mark parity, nine data bits, and 9600 baud of which the word length call fails: three
requests that each end the agreement of a fresh TCM515 module. -/
theorem replies_tell_truth_fails :
    Agrees (sourceUartInit (tcm515 460800) ⟨false, fun _ => none⟩) ∧
      ∀ q : SetRequest, q = ⟨.parity, [4], .allOk⟩ ∨ q = ⟨.datasize, [9], .allOk⟩ ∨
          q = ⟨.baudrate, [0, 0, 0x25, 0x80], ⟨.ok, .fail, .ok, .ok⟩⟩ →
        ¬ TellsTruth (sourceUartInit (tcm515 460800) ⟨false, fun _ => none⟩) [q] := by
  refine ⟨(agrees_sourceUartInit_iff _ _).2 (by decide +kernel), ?_⟩
  rintro q (rfl | rfl | rfl) ⟨-, -, htruth⟩
  · exact absurd htruth.coding (by decide +kernel)
  · exact absurd htruth.coding (by decide +kernel)
  · exact absurd htruth.coding (by decide +kernel)

end Cdc2Net.SinkTcp
