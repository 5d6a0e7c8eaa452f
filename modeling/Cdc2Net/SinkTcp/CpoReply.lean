import Cdc2Net.Lib.FixedBuffer
import Cdc2Net.SinkTcp.ComPort
import Cdc2Net.SinkTcp.TelnetMalformed

/-!
# The frame of a COM-PORT reply

`cpo_reply` write by write. The loop over the value begins a byte only while four places are
left, which is what a doubled 0xFF and the closing IAC SE need together (`putValue_eq`). So no
write leaves the array, and the frame is complete for every value: a telnet decoder reads it as
one subnegotiation with as much of the value as fits (`cpo_reply_complete`).
-/

set_option autoImplicit false

namespace Cdc2Net.SinkTcp

open Cdc2Net.Lib Cdc2Net.Lib.FixedBuffer
open Cdc2Net.SinkTcp.Telnet

/-! ## The value -/

section Value

variable {k : Nat} {val : List UInt8}

theorem stuff_length_eq (b : UInt8) : (stuff b).length = 1 + if b = tcIac then 1 else 0 := by
  rw [stuff]
  split
  · rfl
  · rfl

theorem cpoValue_cons (hk : k < cpoReplySize - 3) (b : UInt8) (val : List UInt8) :
    cpoValue k (b :: val) = stuff b ++ cpoValue (k + (stuff b).length) val := by
  rw [cpoValue, if_pos hk, stuff]
  split
  · next hb => rw [hb]; rfl
  · rfl

theorem cpoValue_full (hk : ¬ k < cpoReplySize - 3) : cpoValue k val = [] := by
  cases val with
  | nil => rfl
  | cons b val => rw [cpoValue, if_neg hk]

/-- What is written is a part of the value, escaped, and all of it where it fits. -/
theorem cpoValue_stuffed (val : List UInt8) : ∀ k, ∃ sent, sent <+: val ∧
    cpoValue k val = sent.flatMap stuff ∧
      (k + val.length + val.count tcIac ≤ cpoReplySize - 3 → sent = val) := by
  induction val with
  | nil => exact fun k => ⟨[], List.prefix_rfl, rfl, fun _ => rfl⟩
  | cons b val ih =>
    intro k
    by_cases hk : k < cpoReplySize - 3
    · obtain ⟨sent, hsent, hvalue, hall⟩ := ih (k + (stuff b).length)
      refine ⟨b :: sent, (List.prefix_cons_inj b).2 hsent, ?_, ?_⟩
      · rw [cpoValue_cons hk, hvalue, List.flatMap_cons]
      · intro hfits
        have hlen := stuff_length_eq b
        rw [List.length_cons, List.count_cons] at hfits
        simp only [beq_iff_eq] at hfits
        rw [hall (by omega)]
    · refine ⟨[], List.nil_prefix, cpoValue_full hk, fun hfits => ?_⟩
      rw [List.length_cons] at hfits
      omega

end Value

/-! ## The writes -/

/-- The array `r`. -/
abbrev ReplyBuf := Buf UInt8 cpoReplySize

/-- The loop over the value, with `k` bytes written: the array and the next `k`. -/
def putValue : ReplyBuf → Nat → List UInt8 → Checked (ReplyBuf × Nat)
  | r, k, [] => pure (r, k)
  | r, k, b :: val =>
    if k < cpoReplySize - 3 then do
      let r ← r.write k b
      if b = tcIac then do
        let r ← r.write (k + 1) tcIac
        putValue r (k + 2) val
      else putValue r (k + 1) val
    else pure (r, k)

/-- `cpo_reply` in the array `r`: the bytes handed to `tn_send`. -/
def cpoReplyInto (r : ReplyBuf) (respCmd : UInt8) (val : List UInt8) : Checked (List UInt8) := do
  let r ← r.writeAll 0 [tcIac, tcSb, toptComport, respCmd]
  let (r, k) ← putValue r 4 val
  let r ← r.writeAll k [tcIac, tcSe]
  r.readFirst (k + 2)

section Writes

variable {k : Nat}

/-- A byte of the value, doubled if it is 0xFF. -/
theorem putValue_cons (r : ReplyBuf) (hk : k < cpoReplySize - 3) (b : UInt8) (val : List UInt8) :
    ∃ h : k + (stuff b).length ≤ cpoReplySize,
      putValue r k (b :: val) = putValue (r.splice k (stuff b) h) (k + (stuff b).length) val := by
  have hlen := stuff_length_eq b
  have hsize : cpoReplySize = 72 := rfl
  have hfit : k + (stuff b).length ≤ cpoReplySize := by
    split at hlen
    · omega
    · omega
  refine ⟨hfit, ?_⟩
  have hone : k + [b].length ≤ cpoReplySize := by
    rw [List.length_singleton]
    omega
  by_cases hb : b = tcIac
  · subst hb
    have hnext : k + 1 + [tcIac].length ≤ cpoReplySize := by
      rw [List.length_singleton]
      omega
    -- the two writes are one of the doubled byte
    have hall : r.writeAll k [tcIac, tcIac] = .ok (r.splice k (stuff tcIac) hfit) :=
      r.writeAll_eq (stuff tcIac) k hfit
    rw [Buf.writeAll, r.write_eq tcIac hone, ok_bind, Buf.writeAll, Buf.write_eq _ _ hnext,
      ok_bind, Buf.writeAll] at hall
    rw [putValue, if_pos hk, r.write_eq tcIac hone, ok_bind, if_pos rfl, Buf.write_eq _ _ hnext,
      ok_bind, Except.ok.inj hall]
    rfl
  · have hsingle : stuff b = [b] := if_neg hb
    have hall : r.writeAll k [b] = .ok (r.splice k (stuff b) hfit) := by
      rw [← r.writeAll_eq (stuff b) k hfit, hsingle]
    rw [Buf.writeAll, r.write_eq b hone, ok_bind, Buf.writeAll] at hall
    have hnext : k + 1 = k + (stuff b).length := by
      rw [hsingle]
      rfl
    rw [putValue, if_pos hk, r.write_eq b hone, ok_bind, if_neg hb, Except.ok.inj hall, hnext]

/-- What is written behind the `k` bytes that are there. -/
theorem putValue_eq (val : List UInt8) : ∀ (r : ReplyBuf) (k : Nat), k + 2 ≤ cpoReplySize →
    ∃ r', putValue r k val = .ok (r', k + (cpoValue k val).length) ∧
      r'.elems.take (k + (cpoValue k val).length) = r.elems.take k ++ cpoValue k val ∧
      k + (cpoValue k val).length + 2 ≤ cpoReplySize := by
  induction val with
  | nil => exact fun r k hk => ⟨r, rfl, (List.append_nil _).symm, hk⟩
  | cons b val ih =>
    intro r k hk
    by_cases hroom : k < cpoReplySize - 3
    · obtain ⟨hfit, hput⟩ := putValue_cons r hroom b val
      have hlen := stuff_length_eq b
      have hsize : cpoReplySize = 72 := rfl
      obtain ⟨r', hloop, htake, hle⟩ := ih (r.splice k (stuff b) hfit) (k + (stuff b).length)
        (by split at hlen <;> omega)
      rw [cpoValue_cons hroom, hput, List.length_append, ← Nat.add_assoc]
      refine ⟨r', hloop, ?_, hle⟩
      rw [htake, r.take_splice hfit (Nat.le_refl _), List.take_length, List.append_assoc]
    · rw [cpoValue_full hroom, putValue, if_neg hroom, List.append_nil]
      exact ⟨r, rfl, rfl, hk⟩

/-- No write leaves the array, and what is handed on is the frame. -/
theorem cpoReplyInto_eq (r : ReplyBuf) (respCmd : UInt8) (val : List UInt8) :
    cpoReplyInto r respCmd val = .ok (cpoReply respCmd val) ∧
      (cpoReply respCmd val).length ≤ cpoReplySize := by
  have hhead : 0 + [tcIac, tcSb, toptComport, respCmd].length ≤ cpoReplySize :=
    Nat.le_of_ble_eq_true rfl
  obtain ⟨r', hloop, htake, hle⟩ := putValue_eq val
    (r.splice 0 [tcIac, tcSb, toptComport, respCmd] hhead) 4 (by decide)
  have hstart : (r.splice 0 [tcIac, tcSb, toptComport, respCmd] hhead).elems.take 4 =
      [tcIac, tcSb, toptComport, respCmd] := rfl
  rw [hstart] at htake
  have hend : 4 + (cpoValue 4 val).length + [tcIac, tcSe].length ≤ cpoReplySize := hle
  have hframe : (r'.splice (4 + (cpoValue 4 val).length) [tcIac, tcSe] hend).elems.take
      (4 + (cpoValue 4 val).length + 2) = cpoReply respCmd val := by
    rw [r'.take_splice hend (Nat.le_refl 2), htake]
    rfl
  have hlen : (cpoReply respCmd val).length = 4 + (cpoValue 4 val).length + 2 := by
    rw [cpoReply, List.length_append, List.length_append]
    rfl
  refine ⟨?_, hlen ▸ hle⟩
  rw [cpoReplyInto, r.writeAll_eq _ _ hhead, ok_bind, hloop, ok_bind]
  dsimp only
  rw [r'.writeAll_eq _ _ hend, ok_bind, Buf.readFirst_eq _ hle, hframe]

end Writes

/-! ## A decoder that keeps the payload -/

/-- The payload collected after a byte. -/
def refPayload : RefState → List UInt8 → UInt8 → List UInt8
  | .sub, payload, b => if b = tcIac then payload else payload ++ [b]
  | .subIac, payload, b => if b = tcIac then payload ++ [tcIac] else []
  | _, _, _ => []

/-- The subnegotiation that a byte ends. -/
def refEnded : RefState → List UInt8 → UInt8 → List Obs
  | .subIac, payload, b => if b = tcIac then [] else [.subneg payload]
  | _, _, _ => []

/-- One byte of a stream: data and subnegotiations. -/
def refRead (s : RefState × List UInt8) (b : UInt8) : (RefState × List UInt8) × List Obs :=
  (((refByte s.1 b).1, refPayload s.1 s.2 b),
    (refByte s.1 b).2.map .byte ++ refEnded s.1 s.2 b)

/-- State and observations after a stream. -/
def refObs (bs : List UInt8) : (RefState × List UInt8) × List Obs :=
  Mealy.run refRead (.data, []) bs

section Decoder

variable {respCmd : UInt8}

theorem refRead_stuff (payload : List UInt8) (b : UInt8) :
    Mealy.run refRead (.sub, payload) (stuff b) = ((.sub, payload ++ [b]), []) := by
  rw [stuff]
  split
  · next hb =>
    subst hb
    rfl
  · next hb =>
    rw [Mealy.run_cons, Mealy.run_nil]
    simp only [refRead, refByte, refPayload, refEnded, if_neg hb]
    rfl

theorem refRead_payload (more : List UInt8) : ∀ payload,
    Mealy.run refRead (.sub, payload) (more.flatMap stuff) = ((.sub, payload ++ more), []) := by
  induction more with
  | nil => exact fun payload => by rw [List.append_nil]; rfl
  | cons b more ih =>
    intro payload
    rw [List.flatMap_cons, Mealy.run_append, refRead_stuff, ih, List.append_assoc]
    rfl

/-- An encoded subnegotiation is read back as it was, and nothing else with it. -/
theorem refObs_subneg (payload : List UInt8) :
    refObs (TelnetEvent.subneg payload).encode = ((.data, []), [.subneg payload]) := by
  have hopen : Mealy.run refRead (.data, []) [tcIac, tcSb] = ((.sub, []), []) := rfl
  have hclose : Mealy.run refRead (.sub, payload) [tcIac, tcSe] =
      ((.data, []), [.subneg payload]) := rfl
  have hsplit : (TelnetEvent.subneg payload).encode =
      [tcIac, tcSb] ++ (payload.flatMap stuff ++ [tcIac, tcSe]) := rfl
  rw [refObs, hsplit, Mealy.run_append, hopen, Mealy.run_append, refRead_payload,
    List.nil_append, hclose]
  rfl

end Decoder

/-! ## The frame -/

/-- A frame that carries the first bytes `sent` of a value, as a peer reads it. -/
structure Carries (respCmd : UInt8) (sent frame : List UInt8) : Prop where
  escaped : frame = [tcIac, tcSb, toptComport, respCmd] ++ sent.flatMap stuff ++ [tcIac, tcSe]
  /-- One subnegotiation, and the decoder is between two events again. -/
  decoded : refObs frame = ((.data, []), [.subneg (toptComport :: respCmd :: sent)])
  /-- `process_rx` in any chunks: its buffer holds `sbSize` bytes of a payload. -/
  received : ∀ (c : Codec) (chunks : List (List UInt8)), c.tstate = .data →
    chunks.flatten = frame → (feed c chunks).1.tstate = .data ∧
      (feed c chunks).2.flatMap RxCall.obs =
        [.subneg ((toptComport :: respCmd :: sent).take sbSize)]

section Frame

variable {respCmd : UInt8} {sent : List UInt8}

theorem encode_comport (hcmd : respCmd ≠ tcIac) (sent : List UInt8) :
    (TelnetEvent.subneg (toptComport :: respCmd :: sent)).encode =
      [tcIac, tcSb, toptComport, respCmd] ++ sent.flatMap stuff ++ [tcIac, tcSe] := by
  have hopt : stuff toptComport = [toptComport] := by decide
  have hresp : stuff respCmd = [respCmd] := if_neg hcmd
  rw [TelnetEvent.encode, List.flatMap_cons, List.flatMap_cons, hopt, hresp]
  rfl

theorem carries_encode (hcmd : respCmd ≠ tcIac) (sent : List UInt8) :
    Carries respCmd sent (TelnetEvent.subneg (toptComport :: respCmd :: sent)).encode where
  escaped := encode_comport hcmd sent
  decoded := refObs_subneg _
  received := by
    intro c chunks hc hchunks
    obtain ⟨hstate, hobs⟩ := feed_decode c chunks
    obtain ⟨hdata, hsubneg⟩ := decode_event hc (.subneg (toptComport :: respCmd :: sent))
    rw [hchunks] at hstate hobs
    exact ⟨by rw [hstate, hdata], by rw [hobs, hsubneg]; rfl⟩

/-- Whatever the value, no write leaves the array, and `tn_send` gets a complete frame with as
much of the value as fits. -/
theorem cpo_reply_complete (r : ReplyBuf) (respCmd : UInt8) (hcmd : respCmd ≠ tcIac)
    (val : List UInt8) : ∃ frame sent, cpoReplyInto r respCmd val = .ok frame ∧
      frame.length ≤ 72 ∧ sent <+: val ∧ Carries respCmd sent frame ∧
      (val.length + val.count tcIac ≤ 65 → sent = val) := by
  obtain ⟨hinto, hlen⟩ := cpoReplyInto_eq r respCmd val
  obtain ⟨sent, hsent, hvalue, hall⟩ := cpoValue_stuffed val 4
  have hframe : cpoReply respCmd val =
      (TelnetEvent.subneg (toptComport :: respCmd :: sent)).encode := by
    rw [cpoReply, hvalue, encode_comport hcmd]
  refine ⟨cpoReply respCmd val, sent, hinto, hlen, hsent, ?_, fun hfits => hall ?_⟩
  · rw [hframe]
    exact carries_encode hcmd sent
  · have hroom : cpoReplySize - 3 = 69 := rfl
    omega

/-- A value of two bytes, one of them 0xFF, in an array of zeros. -/
theorem cpo_reply_complete_two : ∃ frame sent,
    cpoReplyInto ⟨List.replicate 72 0, List.length_replicate⟩ 101 [0xFF, 1] = .ok frame ∧
      frame.length ≤ 72 ∧ sent <+: [0xFF, 1] ∧ Carries 101 sent frame ∧
      (([0xFF, 1] : List UInt8).length + ([0xFF, 1] : List UInt8).count tcIac ≤ 65 →
        sent = [0xFF, 1]) :=
  cpo_reply_complete ⟨List.replicate 72 0, List.length_replicate⟩ 101 (by decide) [0xFF, 1]

end Frame

end Cdc2Net.SinkTcp
