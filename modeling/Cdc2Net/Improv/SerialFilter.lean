import Cdc2Net.Improv.Frame

/-!
# The filter in front of the console

`SerialFilter::feed` of `serial_filter.cpp`, with both sinks set. It takes the bytes one at a
time, holds back what may be the beginning of a header, and hands each byte to one sink, in the
order of the stream (`routesOnce`). What a scan for the leftmost header finds is `scanFrames`.
The filter finds the same frames exactly where the bytes in front of each frame leave it idle: a
byte that breaks a partial header goes to the console even if a header begins with it
(`filter_finds_iff`).
-/

set_option autoImplicit false

namespace Cdc2Net.Improv

open Cdc2Net.Lib

/-! ## The filter -/

inductive FilterSink where
  | console
  | improv
  deriving DecidableEq, Repr

/-- A call of a sink. -/
structure SinkCall where
  sink : FilterSink
  data : Bytes
  deriving DecidableEq

/-- The bytes of a call, each with the sink that gets it. -/
def SinkCall.routed (c : SinkCall) : List (FilterSink × UInt8) :=
  c.data.map fun b => (c.sink, b)

/-- `SerialFilter::Phase`. -/
inductive FilterPhase where
  | idle
  | magic
  | header
  | body
  deriving DecidableEq, Repr

/-- A `SerialFilter`; `hold` is `hold_` below `holdN_`. -/
structure SerialFilter where
  phase : FilterPhase
  hold : Bytes
  bodyLeft : UInt16
  deriving DecidableEq

/-- A new filter, and one after `reset`. -/
def SerialFilter.fresh : SerialFilter := ⟨.idle, [], 0⟩

/-- The body of the loop of `feed`. -/
def filterByte : Mealy.Step SerialFilter UInt8 SinkCall := fun s b =>
  match s.phase with
  | .idle =>
    if kHeader[0]? = some b then (⟨.magic, [b], s.bodyLeft⟩, [])
    else (s, [⟨.console, [b]⟩])
  | .magic =>
    if kHeader[s.hold.length]? = some b then
      if (s.hold ++ [b]).length = 6 then (⟨.header, [], s.bodyLeft⟩, [⟨.improv, kHeader⟩])
      else (⟨.magic, s.hold ++ [b], s.bodyLeft⟩, [])
    else (⟨.idle, [], s.bodyLeft⟩, [⟨.console, s.hold⟩, ⟨.console, [b]⟩])
  | .header =>
    if (s.hold ++ [b]).length = 3 then
      let left := ((s.hold ++ [b])[2]?.getD 0).toUInt16 + 1
      (⟨if left = 0 then .idle else .body, [], left⟩, [⟨.improv, [b]⟩])
    else (⟨.header, s.hold ++ [b], s.bodyLeft⟩, [⟨.improv, [b]⟩])
  | .body =>
    let left := s.bodyLeft - 1
    (⟨if left = 0 then .idle else .body, s.hold, left⟩, [⟨.improv, [b]⟩])

/-- `feed`. -/
def filterFeed : Mealy.Step SerialFilter Bytes SinkCall := fun s data => Mealy.run filterByte s data

/-- What is held back: the part of a header that the sinks have not got. -/
def SerialFilter.held (s : SerialFilter) : Bytes := if s.phase = .magic then s.hold else []

/-! ## The scan -/

/-- The bytes of a frame that begins here: header, version, type and length, and then what the
length byte counts, and the checksum. -/
def frameLen (s : Bytes) : Nat := 6 + 3 + dataLen s + 1

/-- Scan for headers from the left: each frame, with the bytes in front of it, and the bytes
behind the last. The last frame may be incomplete. -/
def scanFrames (gap : Bytes) (s : Bytes) : List (Bytes × Bytes) × Bytes :=
  match s with
  | [] => ([], gap)
  | b :: s =>
    if kHeader <+: b :: s then
      let r := scanFrames [] ((b :: s).drop (frameLen (b :: s)))
      ((gap, (b :: s).take (frameLen (b :: s))) :: r.1, r.2)
    else scanFrames (gap ++ [b]) s
termination_by s.length
decreasing_by
  all_goals
    simp only [frameLen, List.length_drop, List.length_cons]
    omega

/-- Bytes for one sink. -/
def toSink (sink : FilterSink) (bs : Bytes) : List (FilterSink × UInt8) :=
  bs.map fun b => (sink, b)

/-- The bytes of a stream, each with the sink that should get it. -/
def routes (parts : List (Bytes × Bytes) × Bytes) : List (FilterSink × UInt8) :=
  parts.1.flatMap (fun p => toSink .console p.1 ++ toSink .improv p.2) ++
    toSink .console parts.2

/-- Each byte of the stream has gone to one sink, in the order of the stream, but those that are
held back at its end. -/
def RoutesOnce (chunks : List Bytes) : Prop :=
  let r := Mealy.run filterFeed .fresh chunks
  (r.2.flatMap SinkCall.routed).map Prod.snd ++ r.1.held = chunks.flatten

/-- The frames of the scan have gone to the Improv sink and all other bytes to the console, but
those that are held back. -/
def FindsFrames (chunks : List Bytes) : Prop :=
  let r := Mealy.run filterFeed .fresh chunks
  r.2.flatMap SinkCall.routed ++ toSink .console r.1.held = routes (scanFrames [] chunks.flatten)

section Routing

variable {s : SerialFilter} {b : UInt8} {u w : Bytes}

/-- Chunks are one stream. -/
theorem run_filterFeed (s : SerialFilter) (chunks : List Bytes) :
    (Mealy.run filterFeed s chunks).1 = (Mealy.run filterByte s chunks.flatten).1 ∧
      (Mealy.run filterFeed s chunks).2 = (Mealy.run filterByte s chunks.flatten).2 := by
  have hone := Mealy.run_chunks_refines filterByte filterFeed (fun c => [c])
    (fun s c => ⟨rfl, by simp [filterFeed]⟩) chunks s
  simpa using hone

/-- What is held during the search is the part of a header. -/
def SerialFilter.Sound (s : SerialFilter) : Prop :=
  s.phase = .magic → s.hold.length < 6 ∧ s.hold = kHeader.take s.hold.length

theorem kHeader_take_concat {k : Nat} (h : kHeader[k]? = some b) :
    kHeader.take (k + 1) = kHeader.take k ++ [b] := by
  rw [List.take_add_one, h]
  rfl

theorem held_eq_nil (h : s.phase ≠ .magic) : s.held = [] := if_neg h

/-- The phase behind a byte of a frame. -/
theorem bodyPhase_ne (left : UInt16) :
    (if left = 0 then FilterPhase.idle else FilterPhase.body) ≠ .magic := by
  split
  · exact FilterPhase.noConfusion
  · exact FilterPhase.noConfusion

/-- One byte is routed, or held back. -/
theorem filterByte_held (h : s.Sound) (b : UInt8) :
    (filterByte s b).1.Sound ∧
      ((filterByte s b).2.flatMap SinkCall.routed).map Prod.snd ++ (filterByte s b).1.held =
        s.held ++ [b] := by
  obtain ⟨phase, hold, left⟩ := s
  cases phase with
  | idle =>
    rw [filterByte]
    dsimp only
    split
    · next hb => exact ⟨fun _ => ⟨Nat.one_lt_succ_succ 4, (kHeader_take_concat hb).symm⟩, rfl⟩
    · exact ⟨h, rfl⟩
  | magic =>
    obtain ⟨hlen, htake⟩ := h rfl
    rw [filterByte]
    dsimp only at hlen htake ⊢
    split
    · next hb =>
      have hnext := kHeader_take_concat hb
      rw [← htake] at hnext
      split
      · next hfull =>
        -- what has been held is the header
        have hsix : hold.length + 1 = 6 := by rwa [List.length_append] at hfull
        rw [hsix] at hnext
        refine ⟨fun hphase => absurd hphase FilterPhase.noConfusion, ?_⟩
        show kHeader ++ [] = hold ++ [b]
        rw [← hnext]
        rfl
      · next hfull =>
        rw [List.length_append, List.length_singleton] at hfull
        refine ⟨fun _ => ⟨?_, ?_⟩, rfl⟩
        · show (hold ++ [b]).length < 6
          rw [List.length_append, List.length_singleton]
          omega
        · show hold ++ [b] = kHeader.take (hold ++ [b]).length
          rw [List.length_append, List.length_singleton, hnext]
    · refine ⟨fun hphase => absurd hphase FilterPhase.noConfusion, ?_⟩
      simp [SinkCall.routed, SerialFilter.held, List.map_map, Function.comp_def]
  | header =>
    rw [filterByte]
    dsimp only
    split
    · refine ⟨fun hphase => absurd hphase (bodyPhase_ne _), ?_⟩
      rw [held_eq_nil (bodyPhase_ne _)]
      rfl
    · exact ⟨fun hphase => absurd hphase FilterPhase.noConfusion, rfl⟩
  | body =>
    rw [filterByte]
    refine ⟨fun hphase => absurd hphase (bodyPhase_ne _), ?_⟩
    rw [held_eq_nil (bodyPhase_ne _)]
    rfl

/-- A stream is routed, but what is held back at its end. -/
theorem run_held (h : s.Sound) (bs : Bytes) :
    (Mealy.run filterByte s bs).1.Sound ∧
      ((Mealy.run filterByte s bs).2.flatMap SinkCall.routed).map Prod.snd ++
        (Mealy.run filterByte s bs).1.held = s.held ++ bs := by
  induction bs generalizing s with
  | nil => exact ⟨h, (List.append_nil _).symm⟩
  | cons b bs ih =>
    obtain ⟨hsound, hstep⟩ := filterByte_held h b
    obtain ⟨hsound', hrun⟩ := ih hsound
    refine ⟨hsound', ?_⟩
    rw [Mealy.run_cons, List.flatMap_append, List.map_append, List.append_assoc, hrun,
      ← List.append_assoc, hstep, List.append_assoc, List.singleton_append]

/-- Every byte is routed once. -/
theorem routesOnce (chunks : List Bytes) : RoutesOnce chunks := by
  have hfresh : SerialFilter.fresh.Sound := fun hphase => absurd hphase FilterPhase.noConfusion
  obtain ⟨-, hrun⟩ := run_held hfresh chunks.flatten
  obtain ⟨hstate, hcalls⟩ := run_filterFeed .fresh chunks
  rw [RoutesOnce, hstate, hcalls, hrun]
  rfl

end Routing

/-! ## The filter in front of a frame -/

/-- The filter with the first `k` bytes of a header held back. -/
def holding (k : Nat) : SerialFilter :=
  if k = 0 then .fresh else ⟨.magic, kHeader.take k, 0⟩

section Gaps

variable {s u w : Bytes} {b : UInt8} {k : Nat}

theorem filter_concat (s : SerialFilter) (u : Bytes) (b : UInt8) :
    Mealy.run filterByte s (u ++ [b]) =
      ((filterByte (Mealy.run filterByte s u).1 b).1,
        (Mealy.run filterByte s u).2 ++ (filterByte (Mealy.run filterByte s u).1 b).2) := by
  rw [Mealy.run_append, Mealy.run_cons, Mealy.run_nil, List.append_nil]

/-- The beginning of a header is held back. -/
theorem run_header_take (hk : k < 6) :
    Mealy.run filterByte .fresh (kHeader.take k) = (holding k, []) := by
  have hall : ∀ k < 6, Mealy.run filterByte .fresh (kHeader.take k) = (holding k, []) := by decide
  exact hall k hk

/-- A byte that breaks a header goes to the console behind what was held. -/
theorem filterByte_broken (hk : k < 6) (hb : kHeader[k]? ≠ some b) :
    (filterByte (holding k) b).1 = .fresh ∧
      (filterByte (holding k) b).2.flatMap SinkCall.routed =
        toSink .console (kHeader.take k ++ [b]) := by
  rw [holding]
  split
  · next hzero =>
    subst hzero
    rw [filterByte, SerialFilter.fresh]
    dsimp only
    rw [if_neg hb]
    exact ⟨rfl, rfl⟩
  · have hlen : (kHeader.take k).length = k := List.length_take_of_le hk.le
    rw [filterByte]
    dsimp only
    rw [hlen, if_neg hb]
    refine ⟨rfl, ?_⟩
    simp [SinkCall.routed, toSink]

/-- Settled noise goes to the console, and the filter is idle behind it. -/
theorem Settled.filtered (h : Settled w) :
    (Mealy.run filterByte .fresh w).1 = .fresh ∧
      (Mealy.run filterByte .fresh w).2.flatMap SinkCall.routed = toSink .console w := by
  induction h with
  | nil => exact ⟨rfl, rfl⟩
  | broken w k b hk hb _ ih =>
    obtain ⟨hstate, hcalls⟩ := ih
    obtain ⟨hstate', hcalls'⟩ := filterByte_broken hk hb
    rw [List.append_assoc, Mealy.run_append, hstate, filter_concat, run_header_take hk]
    refine ⟨hstate', ?_⟩
    rw [List.nil_append, List.flatMap_append, hcalls, hcalls', toSink, toSink, toSink,
      ← List.map_append]

/-- Noise without a header goes to the console, but for the part of a header at its end. -/
theorem run_gap (h : ¬ kHeader <:+: w) : ∃ u k, w = u ++ kHeader.take k ∧ k < 6 ∧ Settled u ∧
    (Mealy.run filterByte .fresh w).1 = holding k ∧
    (Mealy.run filterByte .fresh w).2.flatMap SinkCall.routed = toSink .console u := by
  obtain ⟨u, k, rfl, hk, hu, -⟩ := run_noise h
  obtain ⟨hstate, hcalls⟩ := hu.filtered
  refine ⟨u, k, rfl, hk, hu, ?_, ?_⟩
  · rw [Mealy.run_append, hstate, run_header_take hk]
  · rw [Mealy.run_append, hstate, run_header_take hk, List.append_nil, hcalls]

theorem held_holding (k : Nat) : (holding k).held = kHeader.take k := by
  rw [holding]
  split
  · next hzero =>
    rw [hzero]
    rfl
  · rfl

/-- Behind settled noise nothing is held. -/
theorem settled_iff (hk : k < 6) (hu : Settled u) : Settled (u ++ kHeader.take k) ↔ k = 0 := by
  constructor
  · intro hsettled
    have hstate := hsettled.filtered.1
    rw [Mealy.run_append, hu.filtered.1, run_header_take hk] at hstate
    have hheld := congrArg SerialFilter.held hstate
    rw [held_holding] at hheld
    have hlen := congrArg List.length hheld
    rw [List.length_take_of_le hk.le] at hlen
    exact hlen
  · rintro rfl
    rwa [List.take_zero, List.append_nil]

/-! ## Frames -/

/-- With `n` bytes of a frame to come. -/
def inBody (n : Nat) : SerialFilter := ⟨if n = 0 then .idle else .body, [], .ofNat n⟩

theorem filterByte_inBody {n : Nat} (hn : n < 65535) (b : UInt8) :
    filterByte (inBody (n + 1)) b = (inBody n, [⟨.improv, [b]⟩]) := by
  have hpred : UInt16.ofNat (n + 1) - 1 = UInt16.ofNat n := by
    rw [← UInt16.toNat_inj, UInt16.toNat_sub_of_le]
    · simp
      omega
    · rw [UInt16.le_iff_toNat_le]
      simp
      omega
  have hzero : UInt16.ofNat n = 0 ↔ n = 0 := by
    rw [← UInt16.toNat_inj]
    simp
    omega
  rw [inBody, if_neg (Nat.succ_ne_zero n), filterByte, inBody]
  simp only [hpred, hzero]

/-- The rest of a frame goes to the Improv sink. -/
theorem run_inBody (bs : Bytes) : ∀ n < 65535, bs.length ≤ n →
    (Mealy.run filterByte (inBody n) bs).1 = inBody (n - bs.length) ∧
      (Mealy.run filterByte (inBody n) bs).2.flatMap SinkCall.routed = toSink .improv bs := by
  induction bs with
  | nil => exact fun n _ _ => ⟨rfl, rfl⟩
  | cons b bs ih =>
    intro n hn hle
    rw [List.length_cons] at hle ⊢
    obtain ⟨n, rfl⟩ := Nat.exists_eq_add_of_lt (Nat.lt_of_lt_of_le (Nat.succ_pos _) hle)
    rw [Nat.zero_add] at hn hle ⊢
    obtain ⟨hstate, hcalls⟩ := ih n (by omega) (by omega)
    rw [Mealy.run_cons, filterByte_inBody (by omega), Nat.add_sub_add_right]
    refine ⟨hstate, ?_⟩
    rw [List.flatMap_append, hcalls]
    rfl

theorem held_inBody (n : Nat) : (inBody n).held = [] := by
  refine held_eq_nil ?_
  rw [inBody]
  dsimp only
  split
  · exact FilterPhase.noConfusion
  · exact FilterPhase.noConfusion

/-- Version, type and length. -/
theorem run_header (v ty ln : UInt8) :
    Mealy.run filterByte ⟨.header, [], 0⟩ [v, ty, ln] =
      (inBody (ln.toNat + 1), [⟨.improv, [v]⟩, ⟨.improv, [ty]⟩, ⟨.improv, [ln]⟩]) := by
  have hlt := ln.toNat_lt
  have hleft : ln.toUInt16 + 1 = UInt16.ofNat (ln.toNat + 1) := by
    rw [← UInt16.toNat_inj]
    simp
  have hzero : ¬ UInt16.ofNat (ln.toNat + 1) = 0 := by
    rw [← UInt16.toNat_inj]
    simp
    omega
  have hlast : filterByte ⟨.header, [v, ty], 0⟩ ln =
      (inBody (ln.toNat + 1), [⟨.improv, [ln]⟩]) := by
    show ((⟨if ln.toUInt16 + 1 = 0 then .idle else .body, [], ln.toUInt16 + 1⟩ : SerialFilter),
      [(⟨.improv, [ln]⟩ : SinkCall)]) = _
    rw [hleft, inBody, if_neg hzero, if_neg (Nat.succ_ne_zero _)]
  have hrun : Mealy.run filterByte ⟨.header, [], 0⟩ [v, ty, ln] =
      ((filterByte ⟨.header, [v, ty], 0⟩ ln).1,
        ⟨.improv, [v]⟩ :: ⟨.improv, [ty]⟩ :: (filterByte ⟨.header, [v, ty], 0⟩ ln).2) := by
    rw [Mealy.run_cons, Mealy.run_cons, Mealy.run_cons, Mealy.run_nil, List.append_nil]
    rfl
  rw [hrun, hlast]

/-- What follows the header, up to the end of the frame. -/
theorem run_afterHeader (t : Bytes) :
    let r := Mealy.run filterByte ⟨.header, [], 0⟩ (t.take (frameLen (kHeader ++ t) - 6))
    r.2.flatMap SinkCall.routed = toSink .improv (t.take (frameLen (kHeader ++ t) - 6)) ∧
      (frameLen (kHeader ++ t) ≤ (kHeader ++ t).length → r.1 = .fresh) ∧ r.1.held = [] := by
  have hshort : ∀ t : Bytes, t.length < 3 → t.take (frameLen (kHeader ++ t) - 6) = t ∧
      ¬ frameLen (kHeader ++ t) ≤ (kHeader ++ t).length := by
    intro t ht
    have hsix : kHeader.length = 6 := rfl
    rw [frameLen, List.length_append, hsix]
    exact ⟨List.take_of_length_le (by omega), by omega⟩
  match t with
  | [] => exact ⟨rfl, fun h => absurd h (hshort [] (by decide)).2, rfl⟩
  | [v] =>
    obtain ⟨htake, hnot⟩ := hshort [v] (Nat.lt_of_sub_eq_succ rfl)
    rw [htake]
    exact ⟨rfl, fun h => absurd h hnot, rfl⟩
  | [v, ty] =>
    obtain ⟨htake, hnot⟩ := hshort [v, ty] (Nat.lt_of_sub_eq_succ rfl)
    rw [htake]
    exact ⟨rfl, fun h => absurd h hnot, rfl⟩
  | v :: ty :: ln :: rest =>
    have hlen : frameLen (kHeader ++ v :: ty :: ln :: rest) = 10 + ln.toNat := by
      rw [frameLen]
      show 6 + 3 + ln.toNat + 1 = 10 + ln.toNat
      omega
    have hlt := ln.toNat_lt
    have htake : (v :: ty :: ln :: rest).take (10 + ln.toNat - 6) =
        [v, ty, ln] ++ rest.take (ln.toNat + 1) := by
      have hfour : 10 + ln.toNat - 6 = (ln.toNat + 1) + 3 := by omega
      rw [hfour]
      rfl
    obtain ⟨hstate, hcalls⟩ := run_inBody (rest.take (ln.toNat + 1)) (ln.toNat + 1) (by omega)
      (List.length_take_le _ _)
    dsimp only
    rw [hlen, htake, Mealy.run_append, run_header]
    refine ⟨?_, fun hwhole => ?_, ?_⟩
    · rw [List.flatMap_append, hcalls, toSink, toSink, List.map_append]
      rfl
    · have hrest : (rest.take (ln.toNat + 1)).length = ln.toNat + 1 := by
        rw [List.length_take]
        simp [kHeader] at hwhole
        omega
      rw [hstate, hrest, Nat.sub_self]
      rfl
    · rw [hstate, held_inBody]

/-- A frame that begins behind settled noise goes to the Improv sink, as far as it is there. -/
theorem run_frame (h : kHeader <+: s) :
    let r := Mealy.run filterByte .fresh (s.take (frameLen s))
    r.2.flatMap SinkCall.routed = toSink .improv (s.take (frameLen s)) ∧
      (frameLen s ≤ s.length → r.1 = .fresh) ∧ r.1.held = [] := by
  obtain ⟨t, rfl⟩ := h
  obtain ⟨hcalls, hdone, hheld⟩ := run_afterHeader t
  have hlen : kHeader.length ≤ frameLen (kHeader ++ t) := by
    rw [frameLen]
    have hsix : kHeader.length = 6 := rfl
    omega
  have htake : (kHeader ++ t).take (frameLen (kHeader ++ t)) =
      kHeader ++ t.take (frameLen (kHeader ++ t) - 6) := by
    rw [List.take_append, List.take_of_length_le hlen]
    rfl
  have hheader : Mealy.run filterByte .fresh kHeader =
      (⟨.header, [], 0⟩, [⟨.improv, kHeader⟩]) := by decide
  dsimp only
  rw [htake, Mealy.run_append, hheader]
  refine ⟨?_, hdone, hheld⟩
  rw [List.flatMap_append, hcalls, toSink, toSink, List.map_append]
  rfl

end Gaps

/-! ## The filter and the scan -/

/-- The bytes of a stream with the sinks that get them; those held back at the end are not for
the Improv sink yet. -/
def sinkLog (s : SerialFilter) (bs : Bytes) : List (FilterSink × UInt8) :=
  (Mealy.run filterByte s bs).2.flatMap SinkCall.routed ++
    toSink .console (Mealy.run filterByte s bs).1.held

section Scan

variable {gap s u : Bytes} {b : UInt8} {k : Nat}

theorem sinkLog_append (st : SerialFilter) (u s : Bytes) :
    sinkLog st (u ++ s) =
      (Mealy.run filterByte st u).2.flatMap SinkCall.routed ++
        sinkLog (Mealy.run filterByte st u).1 s := by
  rw [sinkLog, sinkLog, Mealy.run_append, List.flatMap_append, List.append_assoc]

theorem toSink_append (sink : FilterSink) (u s : Bytes) :
    toSink sink (u ++ s) = toSink sink u ++ toSink sink s := List.map_append

/-- A gap in which no header begins has none. -/
theorem no_header (h : ∀ i < gap.length, ¬ kHeader <+: (gap ++ s).drop i) :
    ¬ kHeader <:+: gap := by
  rintro ⟨x, y, rfl⟩
  have hsix : kHeader.length = 6 := rfl
  have hlt : x.length < (x ++ kHeader ++ y).length := by
    rw [List.length_append, List.length_append]
    omega
  apply h x.length hlt
  rw [List.append_assoc, List.append_assoc, List.drop_left' rfl]
  exact List.prefix_append _ _

/-- Behind a partial header the first byte of a frame goes to the console. -/
theorem sinkLog_holding (hk : k < 6) (hpos : k ≠ 0) (s : Bytes) :
    sinkLog (holding k) (73 :: s) =
      toSink .console (kHeader.take k ++ [73]) ++ sinkLog .fresh s := by
  have hfirst : kHeader[k]? ≠ some 73 := by
    have hall : ∀ k < 6, k ≠ 0 → kHeader[k]? ≠ some 73 := by decide
    exact hall k hk hpos
  obtain ⟨hstate, hcalls⟩ := filterByte_broken hk hfirst
  have hcons : 73 :: s = [73] ++ s := rfl
  have hrun : Mealy.run filterByte (holding k) [73] =
      ((filterByte (holding k) 73).1, (filterByte (holding k) 73).2) := by
    rw [Mealy.run_cons, Mealy.run_nil, List.append_nil]
  rw [hcons, sinkLog_append, hrun, hstate, hcalls]

/-- Behind settled noise a frame is found, and the filter goes on as a new one. -/
theorem sinkLog_frame (h : kHeader <+: s) :
    sinkLog .fresh s =
      toSink .improv (s.take (frameLen s)) ++ sinkLog .fresh (s.drop (frameLen s)) := by
  obtain ⟨hcalls, hdone, hheld⟩ := run_frame h
  have hsplit := List.take_append_drop (frameLen s) s
  conv_lhs => rw [← hsplit]
  rw [sinkLog_append, hcalls]
  refine congrArg _ ?_
  by_cases hwhole : frameLen s ≤ s.length
  · rw [hdone hwhole]
  · -- nothing follows an incomplete frame
    rw [List.drop_of_length_le (by omega), sinkLog, sinkLog, Mealy.run_nil, Mealy.run_nil, hheld]
    rfl

theorem routes_cons (p : Bytes × Bytes) (ps : List (Bytes × Bytes)) (rest : Bytes) :
    routes (p :: ps, rest) = toSink .console p.1 ++ (toSink .improv p.2 ++ routes (ps, rest)) := by
  rw [routes, routes, List.flatMap_cons, List.append_assoc, List.append_assoc]

/-- The filter finds the frames of the scan if and only if every gap in front of one is settled.
The induction is along the scan. -/
theorem sinkLog_eq_iff (gap s : Bytes)
    (h : ∀ i < gap.length, ¬ kHeader <+: (gap ++ s).drop i) :
    sinkLog .fresh (gap ++ s) = routes (scanFrames gap s) ↔
      ∀ p ∈ (scanFrames gap s).1, Settled p.1 := by
  induction gap, s using scanFrames.induct with
  | case1 gap =>
    obtain ⟨u, k, rfl, hk, hu, hstate, hcalls⟩ := run_gap (no_header h)
    rw [scanFrames, List.append_nil, sinkLog, hcalls, hstate, held_holding, ← toSink_append]
    exact iff_of_true rfl fun p hp => absurd hp List.not_mem_nil
  | case2 gap b s hheader ih =>
    obtain ⟨u, k, rfl, hk, hu, hstate, hcalls⟩ := run_gap (no_header h)
    rw [scanFrames, if_pos hheader, routes_cons, List.forall_mem_cons, settled_iff hk hu,
      sinkLog_append, hstate, hcalls]
    by_cases hzero : k = 0
    · subst hzero
      have hrest := ih fun i hi => absurd hi (Nat.not_lt_zero i)
      have hidle : holding 0 = .fresh := rfl
      rw [List.take_zero, List.append_nil, hidle, sinkLog_frame hheader, List.append_cancel_left_eq,
        List.append_cancel_left_eq, and_iff_right rfl]
      exact hrest
    · -- the header begins with an `I`, which goes to the console
      refine iff_of_false (fun heq => ?_) fun hand => hzero hand.1
      have hfirst : b = 73 := (List.cons_prefix_cons.1 hheader).1.symm
      subst hfirst
      obtain ⟨n, hn⟩ : ∃ n, frameLen (73 :: s) = n + 1 := ⟨_, rfl⟩
      rw [sinkLog_holding hk hzero, hn, List.take_succ_cons, toSink_append, toSink_append,
        List.append_assoc, List.append_assoc, List.append_cancel_left_eq,
        List.append_cancel_left_eq] at heq
      cases heq
  | case3 gap b s hheader ih =>
    have hcons : gap ++ b :: s = (gap ++ [b]) ++ s := by
      rw [List.append_assoc, List.singleton_append]
    rw [scanFrames, if_neg hheader, hcons]
    refine ih fun i hi => ?_
    rw [← hcons]
    rw [List.length_append, List.length_singleton] at hi
    rcases Nat.lt_succ_iff_lt_or_eq.1 hi with hlt | rfl
    · exact h i hlt
    · rwa [List.drop_left' rfl]

theorem findsFrames_iff (chunks : List Bytes) :
    FindsFrames chunks ↔ ∀ p ∈ (scanFrames [] chunks.flatten).1, Settled p.1 := by
  have hstream := sinkLog_eq_iff [] chunks.flatten fun i hi => absurd hi (Nat.not_lt_zero i)
  obtain ⟨hstate, hcalls⟩ := run_filterFeed .fresh chunks
  rw [FindsFrames, hstate, hcalls, ← hstream]
  rfl

/-- For every stream and every way of cutting it into calls of `feed`: each byte is routed once
and in order, and the Improv sink gets exactly the frames of the scan if and only if the bytes
in front of each of these frames are settled. -/
theorem filter_finds_iff (chunks : List Bytes) :
    RoutesOnce chunks ∧
      (FindsFrames chunks ↔ ∀ p ∈ (scanFrames [] chunks.flatten).1, Settled p.1) :=
  ⟨routesOnce chunks, findsFrames_iff chunks⟩

/-- An `I` in front of a frame: the scan finds the frame, and the Improv sink gets nothing. -/
theorem filter_finds_fails :
    (scanFrames [] (73 :: stateRequest.wire)).1 = [([73], stateRequest.wire)] ∧
      ¬ FindsFrames [73 :: stateRequest.wire] := by
  have hwire : stateRequest.wire = 73 :: stateRequest.wire.tail := rfl
  have hlen : frameLen stateRequest.wire = stateRequest.wire.length := by decide
  have hscan : (scanFrames [] (73 :: stateRequest.wire)).1 = [([73], stateRequest.wire)] := by
    rw [scanFrames, if_neg (by decide), List.nil_append, hwire, scanFrames, ← hwire,
      if_pos (by decide), hlen, List.take_length, List.drop_length, scanFrames]
  refine ⟨hscan, fun hfinds => ?_⟩
  rw [findsFrames_iff, List.flatten_singleton, hscan] at hfinds
  have hsettled := hfinds _ List.mem_cons_self
  have hone : ([73] : Bytes) = [] ++ kHeader.take 1 := rfl
  rw [hone] at hsettled
  exact absurd ((settled_iff (by decide) .nil).1 hsettled) (Nat.succ_ne_zero 0)

end Scan

end Cdc2Net.Improv
