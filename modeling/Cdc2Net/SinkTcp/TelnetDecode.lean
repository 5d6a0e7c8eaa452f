import Cdc2Net.SinkTcp.Telnet

/-!
# Decoding a telnet event stream

A telnet peer sends events: data bytes, two-byte commands, negotiations and
subnegotiations (`TelnetEvent`). `wire` is their encoding, with 0xFF doubled in
data and in subnegotiation payloads. Read by the sink, in any chunks, the wire
form of an event list shows exactly the events, in order (`feed_wire`); the
output buffer and the subnegotiation buffer stay inside their bounds on every
byte stream, well-formed or not (`rxTrace_bounded`, `feedTrace_bounded`).
-/

set_option autoImplicit false

namespace Cdc2Net.SinkTcp.Telnet

open Cdc2Net.Lib

/-! ## Events and their wire form -/

/-- The four negotiation commands. -/
inductive NegCmd where
  | will
  | wont
  | doIt
  | dont
  deriving DecidableEq, Repr

/-- The command byte. -/
def NegCmd.byte : NegCmd → UInt8
  | .will => tcWill
  | .wont => tcWont
  | .doIt => tcDo
  | .dont => tcDont

/-- A command byte that makes a two-byte command after IAC. -/
def IsPlainCmd (b : UInt8) : Prop :=
  b ≠ tcIac ∧ b ≠ tcSb ∧ b ≠ tcWill ∧ b ≠ tcWont ∧ b ≠ tcDo ∧ b ≠ tcDont

/-- What a telnet peer can send. -/
inductive TelnetEvent where
  | data (b : UInt8)
  | command (cmd : { b : UInt8 // IsPlainCmd b })
  | negotiate (cmd : NegCmd) (opt : UInt8)
  | subneg (payload : List UInt8)

/-- The wire form of an event. -/
def TelnetEvent.encode : TelnetEvent → List UInt8
  | .data b => stuff b
  | .command cmd => [tcIac, cmd.val]
  | .negotiate cmd opt => [tcIac, cmd.byte, opt]
  | .subneg payload => tcIac :: tcSb :: (payload.flatMap stuff ++ [tcIac, tcSe])

/-- The wire form of an event list. -/
def wire (es : List TelnetEvent) : List UInt8 := es.flatMap TelnetEvent.encode

/-- What the sink has to do for an event; of a payload it keeps the first
`sbSize` bytes. -/
def TelnetEvent.obs : TelnetEvent → List Obs
  | .data b => [.byte b]
  | .command _ => []
  | .negotiate cmd opt => [.negotiate cmd.byte opt]
  | .subneg payload => [.subneg (payload.take sbSize)]

/-- The data bytes of an event. -/
def TelnetEvent.dataBytes : TelnetEvent → List UInt8
  | .data b => [b]
  | _ => []

/-- The bytes of a `to_source` call. -/
def RxCall.sourceBytes : RxCall → List UInt8
  | .toSource data => data
  | _ => []

/-! ## One event -/

theorem decode_data_byte {c : Codec} (hc : c.tstate = .data) (b : UInt8) :
    decode c (stuff b) = (c, [.byte b]) := by
  obtain ⟨t, n, sb⟩ := c
  simp only at hc
  subst hc
  rcases eq_or_ne b tcIac with rfl | hb
  · rfl
  · simp [stuff, decode_cons, decodeByte, decodeData, hb]

theorem Codec.collect_tstate (c : Codec) (b : UInt8) : (c.collect b).tstate = c.tstate := by
  rw [Codec.collect]
  split <;> rfl

theorem Codec.collect_sb (c : Codec) (b : UInt8) (p : List UInt8) (hp : c.sb = p.take sbSize) :
    (c.collect b).sb = (p ++ [b]).take sbSize := by
  rw [Codec.collect]
  -- either the buffer holds all of `p` and takes `b`, or it is full already
  by_cases hlen : p.length < sbSize
  · have htake : p.take sbSize = p := List.take_of_length_le (by omega)
    rw [if_pos (by rw [hp, htake]; exact hlen), List.take_of_length_le (by simp; omega)]
    simp [hp, htake]
  · have hfull : (p.take sbSize).length = sbSize := by simp; omega
    rw [if_neg (by rw [hp, hfull]; omega), hp, List.take_append_of_le_length (by omega)]

/-- Inside a subnegotiation the payload bytes are collected, up to the buffer's
size, and nothing is shown. -/
theorem decode_payload : ∀ (payload p : List UInt8) (c : Codec), c.tstate = .sb →
    c.sb = p.take sbSize → (decode c (payload.flatMap stuff)).2 = [] ∧
      (decode c (payload.flatMap stuff)).1.tstate = .sb ∧
      (decode c (payload.flatMap stuff)).1.sb = (p ++ payload).take sbSize
  | [], p, c, hc, hp => ⟨rfl, hc, by simpa using hp⟩
  | b :: payload, p, c, hc, hp => by
    have hstuff : (decode c (stuff b)).2 = [] ∧ (decode c (stuff b)).1.tstate = .sb ∧
        (decode c (stuff b)).1.sb = (p ++ [b]).take sbSize := by
      rcases eq_or_ne b tcIac with rfl | hb
      · refine ⟨?_, ?_, ?_⟩
        · simp [stuff, decode_cons, decodeByte, hc]
        · simp [stuff, decode_cons, decodeByte, hc]
        · have h := Codec.collect_sb { c with tstate := .sbiac } tcIac p hp
          simp only [show tcIac = 0xFF from rfl] at h ⊢
          simpa [stuff, decode_cons, decodeByte, hc, show tcIac = 0xFF from rfl] using h
      · refine ⟨?_, ?_, ?_⟩
        · simp [stuff, decode_cons, decodeByte, hc, hb]
        · simp [stuff, decode_cons, decodeByte, hc, hb, Codec.collect_tstate]
        · simpa [stuff, decode_cons, decodeByte, hc, hb] using Codec.collect_sb c b p hp
    obtain ⟨ho, ht, hs⟩ := hstuff
    obtain ⟨iho, iht, ihs⟩ := decode_payload payload (p ++ [b]) _ ht hs
    rw [List.flatMap_cons, decode_append, ho]
    exact ⟨by simpa using iho, iht, by rw [ihs, List.append_assoc]; rfl⟩

theorem NegCmd.byte_spec (cmd : NegCmd) : cmd.byte ≠ tcIac ∧ cmd.byte ≠ tcSb ∧
    (cmd.byte = tcWill ∨ cmd.byte = tcWont ∨ cmd.byte = tcDo ∨ cmd.byte = tcDont) := by
  cases cmd <;> decide

/-- Between two events the machine is in `TS_DATA`; one event shows its
observations and leads back there. -/
theorem decode_event {c : Codec} (hc : c.tstate = .data) (e : TelnetEvent) :
    (decode c e.encode).1.tstate = .data ∧ (decode c e.encode).2 = e.obs := by
  obtain ⟨t, n, sb⟩ := c
  simp only at hc
  subst hc
  cases e with
  | data b =>
    have h := decode_data_byte (c := ⟨.data, n, sb⟩) rfl b
    simp only [TelnetEvent.encode, TelnetEvent.obs, h, and_self]
  | command cmd =>
    obtain ⟨cmd, hiac, hsb, hwill, hwont, hdo, hdont⟩ := cmd
    simp [TelnetEvent.encode, TelnetEvent.obs, decode_cons, decodeByte, decodeData, hiac, hsb,
      hwill, hwont, hdo, hdont]
  | negotiate cmd opt =>
    obtain ⟨hiac, hsb, hneg⟩ := cmd.byte_spec
    simp [TelnetEvent.encode, TelnetEvent.obs, decode_cons, decodeByte, decodeData, hiac, hsb, hneg]
  | subneg payload =>
    -- IAC SB, the stuffed payload, IAC SE
    have hstart : decode ⟨.data, n, sb⟩ [tcIac, tcSb] = (⟨.sb, n, []⟩, []) := rfl
    obtain ⟨ho, ht, hs⟩ := decode_payload payload [] ⟨.sb, n, []⟩ rfl rfl
    have hend : ∀ d : Codec, d.tstate = .sb →
        decode d [tcIac, tcSe] = ({ d with tstate := .data }, [.subneg d.sb]) := by
      intro d hd
      simp [decode_cons, decodeByte, hd, show tcSe ≠ tcIac by decide]
    have hsplit : (TelnetEvent.subneg payload).encode =
        [tcIac, tcSb] ++ (payload.flatMap stuff ++ [tcIac, tcSe]) := rfl
    rw [hsplit, decode_append, hstart, decode_append, ho, hend _ ht, hs]
    exact ⟨rfl, rfl⟩

theorem decode_wire {c : Codec} (hc : c.tstate = .data) (es : List TelnetEvent) :
    (decode c (wire es)).1.tstate = .data ∧
      (decode c (wire es)).2 = es.flatMap TelnetEvent.obs := by
  induction es generalizing c with
  | nil => exact ⟨hc, rfl⟩
  | cons e es ih =>
    obtain ⟨he, ho⟩ := decode_event hc e
    obtain ⟨ihs, iho⟩ := ih he
    rw [wire, List.flatMap_cons, decode_append, ho, List.flatMap_cons]
    exact ⟨ihs, by rw [← iho]; rfl⟩

/-- A stream that leads with IAC is read from `TS_SNIFF` as from `TS_DATA`. -/
theorem decode_fresh_iac (bs : List UInt8) :
    decode Codec.fresh (tcIac :: bs) = decode ⟨.data, 0, []⟩ (tcIac :: bs) := rfl

/-! ## Buffer bounds -/

/-- The loop states at the top of every pass of `process_rx`'s `while` loop and
at its end. -/
def rxTrace (s : Rx) : List UInt8 → List Rx
  | [] => [s]
  | b :: bs =>
    if s.c.tstate = .raw then [s, ⟨s.c, []⟩]
    else if s.c.tstate = .sniff ∧ b ≠ tcIac then [s, ⟨{ s.c with tstate := .raw }, []⟩]
    else s :: rxTrace (rxByte s b).1 bs

/-- The loop states of all `process_rx` calls of a connection. -/
def feedTrace : Codec → List (List UInt8) → List Rx
  | _, [] => []
  | c, buf :: bufs => rxTrace ⟨c, []⟩ buf ++ feedTrace (processRx c buf).1 bufs

/-- Room in `out` for the one byte a pass may append before it tests `oi`, and a
subnegotiation buffer inside its size. -/
def Rx.Bounded (s : Rx) : Prop := s.out.length + 1 ≤ outSize ∧ s.c.sb.length ≤ sbSize

theorem putOut_length {out : List UInt8} (b : UInt8) (h : out.length + 1 ≤ outSize) :
    (putOut out b).1.length + 1 ≤ outSize := by
  rw [putOut]
  split
  · simp [outSize]
  · simp only [List.length_append, List.length_cons, List.length_nil]
    omega

theorem Codec.collect_length {c : Codec} (b : UInt8) (h : c.sb.length ≤ sbSize) :
    (c.collect b).sb.length ≤ sbSize := by
  rw [Codec.collect]
  split
  · simp only [List.length_append, List.length_cons, List.length_nil]
    omega
  · exact h

theorem rxData_bounded {s : Rx} (b : UInt8) (h : s.Bounded) : (rxData s b).1.Bounded := by
  rw [rxData]
  split
  · exact ⟨by simp [outSize], h.2⟩
  · exact ⟨putOut_length b h.1, h.2⟩

theorem rxByte_bounded {s : Rx} (b : UInt8) (h : s.Bounded) : (rxByte s b).1.Bounded := by
  cases hs : s.c.tstate with
  | sniff =>
    simp only [rxByte, hs]
    exact h
  | raw =>
    simp only [rxByte, hs]
    exact h
  | data => simpa only [rxByte, hs] using rxData_bounded b h
  | neg =>
    simp only [rxByte, hs]
    exact h
  | iac =>
    simp only [rxByte, hs, rxIac]
    split
    · exact ⟨putOut_length _ h.1, h.2⟩
    · split
      · exact ⟨h.1, Nat.zero_le _⟩
      · split <;> exact h
  | sb =>
    simp only [rxByte, hs]
    split
    · exact h
    · exact ⟨h.1, Codec.collect_length b h.2⟩
  | sbiac =>
    simp only [rxByte, hs, rxSbIac]
    split
    · exact ⟨h.1, Codec.collect_length _ h.2⟩
    · split
      · exact h
      · exact rxData_bounded b (s := ⟨{ s.c with tstate := .data }, s.out⟩) h

theorem rxTrace_bounded : ∀ (bs : List UInt8) (s : Rx), s.Bounded →
    (rxLoop s bs).1.sb.length ≤ sbSize ∧ ∀ t ∈ rxTrace s bs, t.Bounded
  | [], s, h => ⟨h.2, by simpa [rxTrace] using h⟩
  | b :: bs, s, h => by
    -- both fast paths leave the loop with nothing buffered
    have hempty : ∀ c : Codec, c.sb.length ≤ sbSize → Rx.Bounded ⟨c, []⟩ :=
      fun c hc => ⟨by simp [outSize], hc⟩
    by_cases hraw : s.c.tstate = .raw
    · rw [rxLoop, if_pos hraw, rxTrace, if_pos hraw]
      exact ⟨h.2, by simpa using ⟨h, hempty s.c h.2⟩⟩
    · by_cases hsniff : s.c.tstate = .sniff ∧ b ≠ tcIac
      · rw [rxLoop, if_neg hraw, if_pos hsniff, rxTrace, if_neg hraw, if_pos hsniff]
        exact ⟨h.2, by simpa using ⟨h, hempty _ h.2⟩⟩
      · obtain ⟨ihc, iht⟩ := rxTrace_bounded bs (rxByte s b).1 (rxByte_bounded b h)
        rw [rxLoop, if_neg hraw, if_neg hsniff, rxTrace, if_neg hraw, if_neg hsniff]
        exact ⟨ihc, by simpa using ⟨h, iht⟩⟩

/-- Both buffers stay inside their bounds in every pass, on every byte stream,
well-formed or not. -/
theorem feedTrace_bounded : ∀ (chunks : List (List UInt8)) (c : Codec), c.sb.length ≤ sbSize →
    ∀ t ∈ feedTrace c chunks, t.Bounded
  | [], _, _, t, ht => by simp [feedTrace] at ht
  | buf :: bufs, c, hc, t, ht => by
    obtain ⟨hend, htr⟩ := rxTrace_bounded buf ⟨c, []⟩ ⟨by simp [outSize], hc⟩
    rcases List.mem_append.1 ht with ht | ht
    · exact htr t ht
    · exact feedTrace_bounded bufs _ hend t ht

/-! ## The whole stream -/

theorem sourceBytes_eq (cs : List RxCall) :
    cs.flatMap RxCall.sourceBytes = (cs.flatMap RxCall.obs).flatMap Obs.dataByte := by
  induction cs with
  | nil => rfl
  | cons c cs ih =>
    rw [List.flatMap_cons, List.flatMap_cons, List.flatMap_append, ih]
    cases c with
    | toSource data => simp [RxCall.sourceBytes, RxCall.obs, List.flatMap_map, Obs.dataByte]
    | tnCommit => rfl
    | tnNegotiate cmd opt => rfl
    | tnSubneg sb => rfl

theorem dataBytes_eq (es : List TelnetEvent) :
    es.flatMap TelnetEvent.dataBytes = (es.flatMap TelnetEvent.obs).flatMap Obs.dataByte := by
  induction es with
  | nil => rfl
  | cons e es ih =>
    rw [List.flatMap_cons, List.flatMap_cons, List.flatMap_append, ih]
    cases e <;> rfl

/-- **Telnet decoding is exact and independent of chunking.** A wire form that
begins with 0xFF, cut into chunks in any way and read by a fresh connection,
shows exactly the events in order: the calls' observations are the events', the
bytes handed to the source are the data bytes, and the machine ends in
`TS_DATA`. In every pass both buffers are inside their bounds. -/
theorem feed_wire (es : List TelnetEvent) (chunks : List (List UInt8))
    (hsplit : chunks.flatten = wire es) (hlead : (wire es).head? = some tcIac) :
    (feed Codec.fresh chunks).2.flatMap RxCall.obs = es.flatMap TelnetEvent.obs ∧
      (feed Codec.fresh chunks).2.flatMap RxCall.sourceBytes =
        es.flatMap TelnetEvent.dataBytes ∧
      (feed Codec.fresh chunks).1.tstate = .data ∧
      ∀ t ∈ feedTrace Codec.fresh chunks, t.out.length + 1 ≤ outSize ∧ t.c.sb.length ≤ sbSize := by
  obtain ⟨hstate, hobs⟩ := feed_decode Codec.fresh chunks
  -- the first byte is 0xFF, so sniffing ends where `TS_DATA` would have led
  have hdecode : decode Codec.fresh (wire es) = decode ⟨.data, 0, []⟩ (wire es) := by
    cases hw : wire es with
    | nil => simp [hw] at hlead
    | cons b bs =>
      obtain rfl : b = tcIac := by simpa [hw] using hlead
      exact decode_fresh_iac bs
  obtain ⟨htst, hout⟩ := decode_wire (c := ⟨.data, 0, []⟩) rfl es
  rw [hsplit, hdecode] at hstate hobs
  rw [hout] at hobs
  refine ⟨hobs, ?_, by rw [hstate]; exact htst, feedTrace_bounded chunks _ (Nat.zero_le _)⟩
  rw [sourceBytes_eq, dataBytes_eq, hobs]

/-- A negotiation, a doubled 0xFF and a subnegotiation, cut inside each of them. -/
theorem feed_wire_split :
    (feed Codec.fresh [[tcIac], [tcWill, 0x2C, 0x41, tcIac], [tcIac, tcIac, tcSb, 0x2C, tcIac],
        [tcIac, tcIac, tcSe]]).2.flatMap RxCall.obs =
      [.negotiate tcWill 0x2C, .byte 0x41, .byte 0xFF, .subneg [0x2C, 0xFF]] :=
  (feed_wire [.negotiate .will 0x2C, .data 0x41, .data 0xFF, .subneg [0x2C, 0xFF]]
    [[tcIac], [tcWill, 0x2C, 0x41, tcIac], [tcIac, tcIac, tcSb, 0x2C, tcIac],
      [tcIac, tcIac, tcSe]] (by decide) (by decide)).1

end Cdc2Net.SinkTcp.Telnet
