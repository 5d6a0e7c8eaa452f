import Cdc2Net.Lib.Mealy

/-!
# The telnet / RFC2217 codec of the TCP sink

`processRx` is the per-byte telnet machine `process_rx` of `sink_tcp.c` over one
recv chunk. It keeps the parse state of the connection (`Codec`) and returns, in
order, the calls the C function makes: data handed to `to_source`, the commit to
telnet framing, a negotiation, a finished subnegotiation. None of these calls
reads or writes the parse state, so the call list of a chunk does not depend on
their effects.

`decodeByte` is the same machine without the coalescing buffer `out`: every data
byte is an output of its own. `processRx_decode` connects the two; with it the
cut of a byte stream into recv chunks is invisible (`feed_decode`).
-/

set_option autoImplicit false

namespace Cdc2Net.SinkTcp.Telnet

open Cdc2Net.Lib

/-- `TC_IAC`, Interpret As Command. -/
def tcIac : UInt8 := 0xFF
/-- `TC_DONT`. -/
def tcDont : UInt8 := 0xFE
/-- `TC_DO`. -/
def tcDo : UInt8 := 0xFD
/-- `TC_WONT`. -/
def tcWont : UInt8 := 0xFC
/-- `TC_WILL`. -/
def tcWill : UInt8 := 0xFB
/-- `TC_SB`, Subnegotiation Begin. -/
def tcSb : UInt8 := 0xFA
/-- `TC_SE`, Subnegotiation End. -/
def tcSe : UInt8 := 0xF0

/-- A byte with 0xFF doubled. -/
def stuff (b : UInt8) : List UInt8 := if b = tcIac then [tcIac, tcIac] else [b]

/-- `sizeof(out)` in `process_rx`. -/
def outSize : Nat := 256
/-- `sizeof(c->sb)`. -/
def sbSize : Nat := 40

/-- Per-client telnet parse state (`tstate_t`). -/
inductive TState where
  /-- Decide RAW vs telnet on the first byte. -/
  | sniff
  /-- Locked raw passthrough. -/
  | raw
  /-- Telnet: ordinary data byte. -/
  | data
  /-- Telnet: saw IAC, expect command byte. -/
  | iac
  /-- Telnet: saw IAC and WILL, DO, WONT or DONT, expect option byte. -/
  | neg
  /-- Telnet: collecting subnegotiation payload. -/
  | sb
  /-- Telnet: saw IAC inside a subnegotiation. -/
  | sbiac
  deriving DecidableEq, Repr

/-- The parse fields of `tcp_client_t`; `sb` holds the bytes `sb[0 .. sb_len)`. -/
structure Codec where
  tstate : TState
  negCmd : UInt8
  sb : List UInt8
  deriving DecidableEq, Repr

/-- The parse fields of a slot that `accept_task` has just filled. -/
def Codec.fresh : Codec := ⟨.sniff, 0, []⟩

/-- `if (c->sb_len < sizeof(c->sb)) c->sb[c->sb_len++] = b;` -/
def Codec.collect (c : Codec) (b : UInt8) : Codec :=
  if c.sb.length < sbSize then { c with sb := c.sb ++ [b] } else c

/-- A call made by `process_rx`. -/
inductive RxCall where
  | toSource (data : List UInt8)
  | tnCommit
  | tnNegotiate (cmd opt : UInt8)
  | tnSubneg (sb : List UInt8)
  deriving DecidableEq, Repr

/-- The loop state of `process_rx`: parse state and `out[0 .. oi)`. -/
structure Rx where
  c : Codec
  out : List UInt8
  deriving DecidableEq, Repr

/-- `if (oi) { to_source(out, oi); oi = 0; }` -/
def flushOut : List UInt8 → List RxCall
  | [] => []
  | b :: bs => [.toSource (b :: bs)]

/-- `out[oi++] = b; if (oi == sizeof(out)) { to_source(out, oi); oi = 0; }` -/
def putOut (out : List UInt8) (b : UInt8) : List UInt8 × List RxCall :=
  if out.length + 1 = outSize then ([], [.toSource (out ++ [b])]) else (out ++ [b], [])

/-- The case `TS_DATA`. -/
def rxData (s : Rx) (b : UInt8) : Rx × List RxCall :=
  -- what is buffered goes out before the command is looked at
  if b = tcIac then (⟨{ s.c with tstate := .iac }, []⟩, flushOut s.out)
  else (⟨s.c, (putOut s.out b).1⟩, (putOut s.out b).2)

/-- The case `TS_IAC`. -/
def rxIac (s : Rx) (b : UInt8) : Rx × List RxCall :=
  -- a doubled 0xFF is one data byte
  if b = tcIac then
    (⟨{ s.c with tstate := .data }, (putOut s.out 0xFF).1⟩, (putOut s.out 0xFF).2)
  else if b = tcSb then (⟨{ s.c with sb := [], tstate := .sb }, s.out⟩, [])
  else if b = tcWill ∨ b = tcWont ∨ b = tcDo ∨ b = tcDont then
    (⟨{ s.c with negCmd := b, tstate := .neg }, s.out⟩, [])
  -- NOP, AYT and the like have no argument and are dropped
  else (⟨{ s.c with tstate := .data }, s.out⟩, [])

/-- The case `TS_SBIAC`. A byte that is neither IAC nor SE ends the
subnegotiation and is read again (`i--`), now in `TS_DATA`. -/
def rxSbIac (s : Rx) (b : UInt8) : Rx × List RxCall :=
  if b = tcIac then (⟨{ s.c.collect 0xFF with tstate := .sb }, s.out⟩, [])
  else if b = tcSe then (⟨{ s.c with tstate := .data }, s.out⟩, [.tnSubneg s.c.sb])
  else
    ((rxData ⟨{ s.c with tstate := .data }, s.out⟩ b).1,
      .tnSubneg s.c.sb :: (rxData ⟨{ s.c with tstate := .data }, s.out⟩ b).2)

/-- One pass of the `switch`. In `TS_SNIFF` only IAC gets here (`rxLoop` takes
the other bytes), and `TS_RAW` never does: it would fall to the `default`. -/
def rxByte (s : Rx) (b : UInt8) : Rx × List RxCall :=
  match s.c.tstate with
  | .sniff => (⟨{ s.c with tstate := .iac }, s.out⟩, [.tnCommit])
  | .data => rxData s b
  | .iac => rxIac s b
  | .neg => (⟨{ s.c with tstate := .data }, s.out⟩, [.tnNegotiate s.c.negCmd b])
  | .sb => if b = tcIac then (⟨{ s.c with tstate := .sbiac }, s.out⟩, []) else
      (⟨s.c.collect b, s.out⟩, [])
  | .sbiac => rxSbIac s b
  | .raw => (⟨{ s.c with tstate := .data }, s.out⟩, [])

/-- The `while` loop of `process_rx` from loop state `s`. In `TS_RAW` the whole
remaining slice goes to the source at once. A first byte other than IAC locks
`TS_RAW` and is read again (`i--`), now by that fast path. -/
def rxLoop (s : Rx) : List UInt8 → Codec × List RxCall
  | [] => (s.c, flushOut s.out)
  | b :: bs =>
    -- once raw, no byte of the slice is looked at
    if s.c.tstate = .raw then (s.c, flushOut s.out ++ [.toSource (b :: bs)])
    else if s.c.tstate = .sniff ∧ b ≠ tcIac then
      ({ s.c with tstate := .raw }, flushOut s.out ++ [.toSource (b :: bs)])
    else
      ((rxLoop (rxByte s b).1 bs).1, (rxByte s b).2 ++ (rxLoop (rxByte s b).1 bs).2)

/-- `process_rx` on one recv chunk. -/
def processRx (c : Codec) (buf : List UInt8) : Codec × List RxCall := rxLoop ⟨c, []⟩ buf

/-- The recv loop of `client_task`: one `process_rx` call per chunk. -/
def feed (c : Codec) (chunks : List (List UInt8)) : Codec × List RxCall :=
  Mealy.run processRx c chunks

/-! ## The machine without the output buffer -/

/-- What a call shows to the outside, one entry per data byte. The commit to
telnet framing changes no stream and shows nothing. -/
inductive Obs where
  | byte (b : UInt8)
  | negotiate (cmd opt : UInt8)
  | subneg (sb : List UInt8)
  deriving DecidableEq, Repr

/-- The observations of a call. -/
def RxCall.obs : RxCall → List Obs
  | .toSource data => data.map .byte
  | .tnCommit => []
  | .tnNegotiate cmd opt => [.negotiate cmd opt]
  | .tnSubneg sb => [.subneg sb]

/-- An observed data byte. -/
def Obs.dataByte : Obs → List UInt8
  | .byte b => [b]
  | _ => []

/-- A byte read in `TS_DATA`. -/
def decodeData (c : Codec) (b : UInt8) : Codec × List Obs :=
  if b = tcIac then ({ c with tstate := .iac }, []) else (c, [.byte b])

/-- The telnet machine, one byte and its observations at a time. -/
def decodeByte (c : Codec) (b : UInt8) : Codec × List Obs :=
  match c.tstate with
  | .raw => (c, [.byte b])
  | .sniff =>
    if b = tcIac then ({ c with tstate := .iac }, []) else ({ c with tstate := .raw }, [.byte b])
  | .data => decodeData c b
  | .iac =>
    if b = tcIac then ({ c with tstate := .data }, [.byte 0xFF])
    else if b = tcSb then ({ c with sb := [], tstate := .sb }, [])
    else if b = tcWill ∨ b = tcWont ∨ b = tcDo ∨ b = tcDont then
      ({ c with negCmd := b, tstate := .neg }, [])
    else ({ c with tstate := .data }, [])
  | .neg => ({ c with tstate := .data }, [.negotiate c.negCmd b])
  | .sb => if b = tcIac then ({ c with tstate := .sbiac }, []) else (c.collect b, [])
  | .sbiac =>
    if b = tcIac then ({ c.collect 0xFF with tstate := .sb }, [])
    else if b = tcSe then ({ c with tstate := .data }, [.subneg c.sb])
    else
      ((decodeData { c with tstate := .data } b).1,
        .subneg c.sb :: (decodeData { c with tstate := .data } b).2)

/-- State and observations of the machine after a byte string. -/
def decode (c : Codec) (bs : List UInt8) : Codec × List Obs := Mealy.run decodeByte c bs

@[simp] theorem decode_nil (c : Codec) : decode c [] = (c, []) := rfl

theorem decode_cons (c : Codec) (b : UInt8) (bs : List UInt8) :
    decode c (b :: bs) = ((decode (decodeByte c b).1 bs).1,
      (decodeByte c b).2 ++ (decode (decodeByte c b).1 bs).2) := rfl

theorem decode_append (c : Codec) (as bs : List UInt8) :
    decode c (as ++ bs) = ((decode (decode c as).1 bs).1,
      (decode c as).2 ++ (decode (decode c as).1 bs).2) :=
  Mealy.run_append decodeByte c as bs

/-- Locked raw: every byte is data, and the state stays. -/
theorem decode_raw {c : Codec} (hc : c.tstate = .raw) :
    ∀ bs : List UInt8, decode c bs = (c, bs.map .byte)
  | [] => rfl
  | b :: bs => by
    have hb : decodeByte c b = (c, [.byte b]) := by simp only [decodeByte, hc]
    rw [decode_cons, hb, decode_raw hc bs]
    rfl

/-! ## `process_rx` against the bufferless machine -/

/-- Bytes wait in `out` only between two data bytes. -/
def Rx.Flushed (s : Rx) : Prop := s.out ≠ [] → s.c.tstate = .data

theorem flushOut_obs (out : List UInt8) : (flushOut out).flatMap RxCall.obs = out.map .byte := by
  cases out with
  | nil => rfl
  | cons b bs => simp [flushOut, RxCall.obs]

theorem putOut_obs (out : List UInt8) (b : UInt8) :
    (putOut out b).2.flatMap RxCall.obs ++ (putOut out b).1.map .byte =
      out.map .byte ++ [.byte b] := by
  by_cases h : out.length + 1 = outSize
  · simp [putOut, h, RxCall.obs]
  · simp [putOut, h]

theorem Rx.Flushed.out_eq_nil {s : Rx} (h : s.Flushed) (hs : s.c.tstate ≠ .data) : s.out = [] := by
  by_contra hout
  exact hs (h hout)

/-- One byte against the bufferless machine: same parse state, and what was
buffered followed by what the byte shows is what the calls show followed by what
is buffered now. -/
structure RxAgrees (s : Rx) (r : Rx × List RxCall) (d : Codec × List Obs) : Prop where
  codec : r.1.c = d.1
  flushed : r.1.Flushed
  obs : s.out.map .byte ++ d.2 = r.2.flatMap RxCall.obs ++ r.1.out.map .byte

theorem rxData_agrees (s : Rx) (b : UInt8) (hs : s.c.tstate = .data) :
    RxAgrees s (rxData s b) (decodeData s.c b) := by
  by_cases hb : b = tcIac
  · refine ⟨by simp [rxData, decodeData, hb], ?_, ?_⟩
    · simp [rxData, hb, Rx.Flushed]
    · simp [rxData, decodeData, hb, flushOut_obs]
  · refine ⟨by simp [rxData, decodeData, hb], ?_, ?_⟩
    · simp [rxData, hb, Rx.Flushed, hs]
    · simp [rxData, decodeData, hb, putOut_obs]

theorem rxIac_agrees (s : Rx) (b : UInt8) (hs : s.c.tstate = .iac) (hout : s.out = []) :
    RxAgrees s (rxIac s b) (decodeByte s.c b) := by
  -- the branches of `rxIac`: a doubled 0xFF, SB, the four negotiations, the rest
  by_cases hiac : b = tcIac
  · refine ⟨by simp [rxIac, decodeByte, hs, hiac], by simp [rxIac, hiac, Rx.Flushed], ?_⟩
    simp [rxIac, decodeByte, hs, hiac, putOut_obs]
  · rcases eq_or_ne b tcSb with rfl | hsb
    · refine ⟨?_, ?_, ?_⟩ <;> simp [rxIac, decodeByte, hs, hiac, hout, Rx.Flushed]
    · by_cases hneg : b = tcWill ∨ b = tcWont ∨ b = tcDo ∨ b = tcDont
      · refine ⟨?_, ?_, ?_⟩ <;> simp [rxIac, decodeByte, hs, hiac, hsb, hneg, hout, Rx.Flushed]
      · refine ⟨?_, ?_, ?_⟩ <;> simp [rxIac, decodeByte, hs, hiac, hsb, hneg, hout, Rx.Flushed]

theorem rxSbIac_agrees (s : Rx) (b : UInt8) (hs : s.c.tstate = .sbiac) (hout : s.out = []) :
    RxAgrees s (rxSbIac s b) (decodeByte s.c b) := by
  by_cases hiac : b = tcIac
  · refine ⟨?_, ?_, ?_⟩ <;> simp [rxSbIac, decodeByte, hs, hiac, hout, Rx.Flushed]
  · rcases eq_or_ne b tcSe with rfl | hse
    · refine ⟨?_, ?_, ?_⟩ <;> simp [rxSbIac, decodeByte, hs, hiac, hout, Rx.Flushed, RxCall.obs]
    · -- the byte after the broken end is read as a data byte
      obtain ⟨hc, hf, ho⟩ := rxData_agrees ⟨{ s.c with tstate := .data }, s.out⟩ b rfl
      refine ⟨?_, ?_, ?_⟩
      · simp only [rxSbIac, decodeByte, hs, if_neg hiac, if_neg hse, hc]
      · simpa only [rxSbIac, if_neg hiac, if_neg hse] using hf
      · simp only [hout, List.map_nil, List.nil_append] at ho
        simp only [rxSbIac, decodeByte, hs, if_neg hiac, if_neg hse, hout, List.map_nil,
          List.nil_append, List.flatMap_cons, RxCall.obs, List.cons_append, ho]

theorem rxByte_agrees (s : Rx) (b : UInt8) (hf : s.Flushed) (hraw : s.c.tstate ≠ .raw)
    (hsniff : s.c.tstate = .sniff → b = tcIac) :
    RxAgrees s (rxByte s b) (decodeByte s.c b) := by
  cases hs : s.c.tstate with
  | raw => exact absurd hs hraw
  | sniff =>
    have hout := hf.out_eq_nil (by simp [hs])
    refine ⟨?_, ?_, ?_⟩ <;> simp [rxByte, decodeByte, hs, hsniff hs, hout, Rx.Flushed, RxCall.obs]
  | data => simpa only [rxByte, decodeByte, hs] using rxData_agrees s b hs
  | iac =>
    simpa only [rxByte, hs] using rxIac_agrees s b hs (hf.out_eq_nil (by simp [hs]))
  | neg =>
    have hout := hf.out_eq_nil (by simp [hs])
    refine ⟨?_, ?_, ?_⟩ <;> simp [rxByte, decodeByte, hs, hout, Rx.Flushed, RxCall.obs]
  | sb =>
    have hout := hf.out_eq_nil (by simp [hs])
    by_cases hiac : b = tcIac
    · refine ⟨?_, ?_, ?_⟩ <;> simp [rxByte, decodeByte, hs, hiac, hout, Rx.Flushed]
    · refine ⟨?_, ?_, ?_⟩ <;> simp [rxByte, decodeByte, hs, hiac, hout, Rx.Flushed]
  | sbiac =>
    simpa only [rxByte, hs] using rxSbIac_agrees s b hs (hf.out_eq_nil (by simp [hs]))

/-- The loop from any state with nothing buffered outside `TS_DATA`: the parse
state is that of the bufferless machine, and the calls show the buffered bytes
and then its observations. -/
theorem rxLoop_decode : ∀ (bs : List UInt8) (s : Rx), s.Flushed →
    (rxLoop s bs).1 = (decode s.c bs).1 ∧
      (rxLoop s bs).2.flatMap RxCall.obs = s.out.map .byte ++ (decode s.c bs).2
  | [], s, _ => ⟨rfl, by simp [rxLoop, flushOut_obs]⟩
  | b :: bs, s, hf => by
    by_cases hraw : s.c.tstate = .raw
    · rw [rxLoop, if_pos hraw, decode_raw hraw]
      exact ⟨rfl, by simp [flushOut_obs, RxCall.obs]⟩
    · by_cases hsniff : s.c.tstate = .sniff ∧ b ≠ tcIac
      · have hb : decodeByte s.c b = ({ s.c with tstate := .raw }, [.byte b]) := by
          simp only [decodeByte, hsniff.1, if_neg hsniff.2]
        have hrest := decode_raw (c := { s.c with tstate := .raw }) rfl bs
        rw [rxLoop, if_neg hraw, if_pos hsniff, decode_cons, hb, hrest]
        exact ⟨rfl, by simp [flushOut_obs, RxCall.obs]⟩
      · have hiac : s.c.tstate = .sniff → b = tcIac := by
          intro hs
          by_contra hb
          exact hsniff ⟨hs, hb⟩
        obtain ⟨hc, hf', ho⟩ := rxByte_agrees s b hf hraw hiac
        obtain ⟨ihc, iho⟩ := rxLoop_decode bs (rxByte s b).1 hf'
        rw [rxLoop, if_neg hraw, if_neg hsniff, decode_cons, ← hc]
        refine ⟨ihc, ?_⟩
        rw [List.flatMap_append, iho, ← List.append_assoc, ← ho, List.append_assoc]

theorem processRx_decode (c : Codec) (buf : List UInt8) :
    (processRx c buf).1 = (decode c buf).1 ∧
      (processRx c buf).2.flatMap RxCall.obs = (decode c buf).2 :=
  rxLoop_decode buf ⟨c, []⟩ fun h => absurd rfl h

/-- The recv loop shows what the bufferless machine shows on the whole stream,
however the stream is cut into chunks. -/
theorem feed_decode (c : Codec) (chunks : List (List UInt8)) :
    (feed c chunks).1 = (decode c chunks.flatten).1 ∧
      (feed c chunks).2.flatMap RxCall.obs = (decode c chunks.flatten).2 :=
  Mealy.run_chunks_refines decodeByte processRx RxCall.obs processRx_decode chunks c

end Cdc2Net.SinkTcp.Telnet
