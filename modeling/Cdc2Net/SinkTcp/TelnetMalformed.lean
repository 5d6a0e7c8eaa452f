import Cdc2Net.SinkTcp.TelnetDecode
import Mathlib.Data.List.Induction
import Mathlib.Data.List.Infix

/-!
# Malformed telnet streams

A reference decoder says which bytes of a stream are data, whatever the stream is. `process_rx`
goes with it byte for byte until a subnegotiation ends in IAC and a byte that is neither IAC nor
SE. The decoder reads this byte as the command of the IAC; `process_rx` reads it again in
`TS_DATA` and passes it on to the device (`forwards_exactly_iff`).
-/

set_option autoImplicit false

namespace Cdc2Net.SinkTcp.Telnet

open Cdc2Net.Lib

/-! ## The reference decoder -/

/-- Where a decoder stands in a telnet stream. -/
inductive RefState where
  | data
  /-- After an IAC. -/
  | command
  /-- After WILL, WONT, DO or DONT. -/
  | option
  /-- In a subnegotiation. -/
  | sub
  /-- After an IAC in a subnegotiation. -/
  | subIac
  deriving DecidableEq, Repr

/-- A byte as the command of an IAC: the next state, and the data. -/
def refCommand (b : UInt8) : RefState × List UInt8 :=
  if b = tcIac then (.data, [tcIac])
  else if b = tcSb then (.sub, [])
  else if b = tcWill ∨ b = tcWont ∨ b = tcDo ∨ b = tcDont then (.option, [])
  else (.data, [])

/-- One byte of a stream. -/
def refByte : RefState → UInt8 → RefState × List UInt8
  | .data, b => if b = tcIac then (.command, []) else (.data, [b])
  | .command, b => refCommand b
  | .option, _ => (.data, [])
  | .sub, b => if b = tcIac then (.subIac, []) else (.sub, [])
  | .subIac, b =>
    if b = tcIac then (.sub, [])
    else if b = tcSe then (.data, [])
    -- the subnegotiation is over without its SE
    else refCommand b

/-- State and data after a stream. -/
def refDecode (bs : List UInt8) : RefState × List UInt8 := Mealy.run refByte .data bs

/-- A subnegotiation ends in an IAC with a byte behind it that is neither IAC nor SE. -/
def BrokenEnd (stream : List UInt8) : Prop :=
  ∃ pre b, pre ++ [b] <+: stream ∧ (refDecode pre).1 = .subIac ∧ b ≠ tcIac ∧ b ≠ tcSe

/-- At every point of the stream, however it came in up to there, the bytes passed on to the
device are those that the reference decoder takes for data. -/
def ForwardsExactly (stream : List UInt8) : Prop :=
  ∀ chunks : List (List UInt8), chunks.flatten <+: stream →
    (feed Codec.fresh chunks).2.flatMap RxCall.sourceBytes = (refDecode chunks.flatten).2

/-! ## In step with it -/

/-- The parse state for a state of the decoder. -/
def RefState.tstate : RefState → TState
  | .data => .data
  | .command => .iac
  | .option => .neg
  | .sub => .sb
  | .subIac => .sbiac

/-- The data among the observations of a byte. -/
def shown (os : List Obs) : List UInt8 := os.flatMap Obs.dataByte

section Step

variable {c : Codec} {r : RefState} {b : UInt8} {stream pre : List UInt8}

/-- A byte that is no broken end. -/
theorem decodeByte_refByte (hc : c.tstate = r.tstate)
    (hb : r = .subIac → b = tcIac ∨ b = tcSe) :
    (decodeByte c b).1.tstate = (refByte r b).1.tstate ∧
      shown (decodeByte c b).2 = (refByte r b).2 := by
  cases r with
  | data =>
    rw [RefState.tstate] at hc
    simp only [decodeByte, hc, decodeData, refByte]
    split
    · exact ⟨rfl, rfl⟩
    · exact ⟨hc, rfl⟩
  | command =>
    rw [RefState.tstate] at hc
    simp only [decodeByte, hc, refByte, refCommand]
    -- the same chain of tests on both sides
    split
    · exact ⟨rfl, rfl⟩
    · split
      · exact ⟨rfl, rfl⟩
      · split
        · exact ⟨rfl, rfl⟩
        · exact ⟨rfl, rfl⟩
  | option =>
    rw [RefState.tstate] at hc
    simp only [decodeByte, hc]
    exact ⟨rfl, rfl⟩
  | sub =>
    rw [RefState.tstate] at hc
    simp only [decodeByte, hc, refByte]
    split
    · exact ⟨rfl, rfl⟩
    · exact ⟨(c.collect_tstate b).trans hc, rfl⟩
  | subIac =>
    rw [RefState.tstate] at hc
    simp only [decodeByte, hc, refByte]
    rcases hb rfl with rfl | rfl
    · exact ⟨rfl, rfl⟩
    · exact ⟨rfl, rfl⟩

/-- The byte of a broken end is passed on, and is no data. -/
theorem decodeByte_broken (hc : c.tstate = .sbiac) (hiac : b ≠ tcIac) (hse : b ≠ tcSe) :
    shown (decodeByte c b).2 = [b] ∧ (refByte .subIac b).2 = [] := by
  constructor
  · simp only [decodeByte, hc, if_neg hiac, if_neg hse, decodeData]
    rfl
  · simp only [refByte, if_neg hiac, if_neg hse, refCommand]
    split
    · rfl
    · split
      · rfl
      · rfl

theorem BrokenEnd.mono (h : BrokenEnd pre) (hpre : pre <+: stream) : BrokenEnd stream := by
  obtain ⟨p, b, hp, hb⟩ := h
  exact ⟨p, b, hp.trans hpre, hb⟩

/-- The machine of `process_rx` from `TS_DATA`. -/
abbrev telnetDecode (bs : List UInt8) : Codec × List Obs := decode ⟨.data, 0, []⟩ bs

theorem telnetDecode_concat (bs : List UInt8) (b : UInt8) :
    telnetDecode (bs ++ [b]) = ((decodeByte (telnetDecode bs).1 b).1,
      (telnetDecode bs).2 ++ (decodeByte (telnetDecode bs).1 b).2) := by
  rw [telnetDecode, decode_append, decode_cons, decode_nil, List.append_nil]

theorem refDecode_concat (bs : List UInt8) (b : UInt8) :
    refDecode (bs ++ [b]) = ((refByte (refDecode bs).1 b).1,
      (refDecode bs).2 ++ (refByte (refDecode bs).1 b).2) := by
  rw [refDecode, Mealy.run_append, Mealy.run_cons, Mealy.run_nil, List.append_nil]
  rfl

/-- Without a broken end the two stay in step. -/
theorem telnetDecode_refDecode (h : ¬ BrokenEnd stream) :
    (telnetDecode stream).1.tstate = (refDecode stream).1.tstate ∧
      shown (telnetDecode stream).2 = (refDecode stream).2 := by
  induction stream using List.reverseRecOn with
  | nil => exact ⟨rfl, rfl⟩
  | append_singleton bs b ih =>
    obtain ⟨hstate, hdata⟩ := ih fun hbs => h (hbs.mono (List.prefix_append bs [b]))
    have hb : (refDecode bs).1 = .subIac → b = tcIac ∨ b = tcSe := by
      intro hsub
      by_contra hnot
      rw [not_or] at hnot
      exact h ⟨bs, b, List.prefix_rfl, hsub, hnot⟩
    obtain ⟨hstate', hdata'⟩ := decodeByte_refByte hstate hb
    rw [telnetDecode_concat, refDecode_concat]
    refine ⟨hstate', ?_⟩
    rw [shown, List.flatMap_append]
    exact congrArg₂ _ hdata hdata'

/-- A stream that is passed on exactly at every point has no broken end. -/
theorem not_brokenEnd (h : ∀ pre, pre <+: stream → shown (telnetDecode pre).2 = (refDecode pre).2) :
    ¬ BrokenEnd stream := by
  induction stream using List.reverseRecOn with
  | nil =>
    rintro ⟨pre, b, hpre, -⟩
    have hlen := hpre.length_le
    simp at hlen
  | append_singleton bs b ih =>
    have hbs : ¬ BrokenEnd bs := ih fun pre hpre => h pre (hpre.trans (List.prefix_append bs [b]))
    rintro ⟨pre, b', hpre, hsub, hiac, hse⟩
    rcases List.prefix_concat_iff.1 hpre with heq | hlt
    · -- the last byte is the one that is passed on
      obtain ⟨rfl, hb⟩ := List.append_inj' heq rfl
      obtain rfl : b' = b := by simpa using hb
      obtain ⟨hstate, hdata⟩ := telnetDecode_refDecode hbs
      rw [hsub] at hstate
      obtain ⟨hshown, hnone⟩ := decodeByte_broken hstate hiac hse
      have hlast := h _ List.prefix_rfl
      rw [telnetDecode_concat, refDecode_concat, hsub, hnone, List.append_nil, shown,
        List.flatMap_append] at hlast
      have hlen := congrArg List.length hlast
      rw [List.length_append, ← hdata] at hlen
      have hone := congrArg List.length hshown
      simp only [shown, List.length_cons, List.length_nil] at hlen hone
      omega
    · exact hbs ⟨pre, b', hlt, hsub, hiac, hse⟩

end Step

/-! ## The whole connection -/

/-- What a connection that begins with 0xFF passes on. -/
theorem feed_shown (chunks : List (List UInt8))
    (hlead : ∀ b, chunks.flatten.head? = some b → b = tcIac) :
    (feed Codec.fresh chunks).2.flatMap RxCall.sourceBytes =
      shown (telnetDecode chunks.flatten).2 := by
  rw [sourceBytes_eq, (feed_decode Codec.fresh chunks).2, shown]
  cases hbs : chunks.flatten with
  | nil => rfl
  | cons b bs =>
    obtain rfl := hlead b (by rw [hbs]; rfl)
    rw [decode_fresh_iac]

/-- A stream that begins with 0xFF is passed on exactly, in whatever chunks it comes, if and only
if none of its subnegotiations ends in IAC and a byte that is neither IAC nor SE. -/
theorem forwards_exactly_iff (stream : List UInt8) (hlead : stream.head? = some tcIac) :
    ForwardsExactly stream ↔ ¬ BrokenEnd stream := by
  have hfirst : ∀ pre : List UInt8, pre <+: stream → ∀ b, pre.head? = some b → b = tcIac := by
    rintro pre hpre b hb
    obtain ⟨rest, hrest⟩ := hpre
    rw [← hrest, List.head?_append, hb] at hlead
    simpa using hlead
  constructor
  · intro h
    refine not_brokenEnd fun pre hpre => ?_
    have hone := h [pre] (by simpa using hpre)
    rw [feed_shown [pre] (by simpa using hfirst pre hpre)] at hone
    simpa using hone
  · intro h chunks hchunks
    rw [feed_shown chunks (hfirst _ hchunks)]
    exact (telnetDecode_refDecode fun hbroken => h (hbroken.mono hchunks)).2

/-- A subnegotiation, a doubled 0xFF and a data byte. -/
def wellFormedStream : List UInt8 := [tcIac, tcSb, 0x2C, tcIac, tcSe, tcIac, tcIac, 0x41]

/-- A subnegotiation that is cut off by a NOP. -/
def brokenStream : List UInt8 := [tcIac, tcSb, 0x2C, tcIac, 0xF1]

theorem not_brokenEnd_wellFormed : ¬ BrokenEnd wellFormedStream := by
  refine not_brokenEnd fun pre hpre => ?_
  have hall : ∀ pre ∈ wellFormedStream.inits, shown (telnetDecode pre).2 = (refDecode pre).2 := by
    decide
  exact hall pre ((List.mem_inits _ _).2 hpre)

theorem forwards_exactly_wellFormed : ForwardsExactly wellFormedStream :=
  (forwards_exactly_iff wellFormedStream rfl).2 not_brokenEnd_wellFormed

/-- The NOP goes to the device. -/
theorem forwards_exactly_fails :
    brokenStream.head? = some tcIac ∧ (refDecode brokenStream).2 = [] ∧
      (feed Codec.fresh [brokenStream]).2.flatMap RxCall.sourceBytes = [0xF1] ∧
      ¬ ForwardsExactly brokenStream := by
  refine ⟨rfl, by decide, by decide, fun h => ?_⟩
  have hall := h [brokenStream] (by simp)
  revert hall
  decide

end Cdc2Net.SinkTcp.Telnet
