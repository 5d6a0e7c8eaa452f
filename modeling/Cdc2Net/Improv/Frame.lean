import Cdc2Net.Lib.Mealy
import Mathlib.Data.List.Infix

/-!
# Frames of Improv serial

`parseByte_`, `acceptByteAt_` and `writeFrame_` of `improv_wifi.cpp`. The parser takes one
byte at a time into a buffer, drops everything when a byte does not fit, and dispatches a
frame at its checksum. What is in the buffer is the beginning of a frame and the end of what
has been fed (`run_begins`), so a frame is dispatched only where the last bytes are this
frame (`dispatch_suffix`), and feeding a frame to an empty buffer dispatches it (`run_wire`).

A byte that does not fit is dropped even where it begins a frame: after noise that ends inside
a partial header the next frame is lost (`resync_iff`).
-/

set_option autoImplicit false

namespace Cdc2Net.Improv

open Cdc2Net.Lib

abbrev Bytes := List UInt8

/-! ## Frames -/

/-- `IMPROV`. -/
def kHeader : Bytes := [73, 77, 80, 82, 79, 86]

def kImprovSerialVersion : UInt8 := 1

def kBufferSize : Nat := 300

/-- The low byte of the 16-bit sum. -/
def checksum (bs : Bytes) : UInt8 :=
  (bs.foldl (fun sum b => sum + b.toUInt16) (0 : UInt16)).toUInt8

/-- A frame: its type and what its length byte counts. -/
structure Frame where
  type : UInt8
  payload : Bytes
  fits : payload.length ≤ 255
  deriving DecidableEq

namespace Frame

/-- Header, version, type, length and payload. -/
def body (f : Frame) : Bytes :=
  kHeader ++ [kImprovSerialVersion, f.type, UInt8.ofNat f.payload.length] ++ f.payload

/-- The bytes of a frame. -/
def wire (f : Frame) : Bytes := f.body ++ [checksum f.body]

theorem length_body (f : Frame) : f.body.length = 9 + f.payload.length := by
  simp [body, kHeader]
  omega

theorem length_wire (f : Frame) : f.wire.length = 10 + f.payload.length := by
  rw [wire, List.length_append, length_body, List.length_singleton]
  omega

end Frame

/-- `writeFrame_` with a write callback: the frame between line feeds; nothing for a payload
that the length byte cannot count. -/
def writeFrame (type : UInt8) (payload : Bytes) : List Bytes :=
  if h : payload.length ≤ 255 then [[10], Frame.wire ⟨type, payload, h⟩, [10]] else []

/-! ## The parser -/

/-- `buf_[8]`. -/
def dataLen (buf : Bytes) : Nat := (buf[8]?.getD 0).toNat

/-- `acceptByteAt_` with `buf` the bytes of `buf_` below `pos_`. -/
def acceptByteAt (buf : Bytes) (b : UInt8) : Bool :=
  if buf.length < 6 then kHeader[buf.length]? = some b
  else if buf.length = 6 then b = kImprovSerialVersion
  else if buf.length = 7 ∨ buf.length = 8 then true
  else if buf.length < 9 + dataLen buf then true
  else if buf.length = 9 + dataLen buf then checksum buf = b
  else false

theorem length_take_dataLen (buf : Bytes) :
    ((buf.drop 9).take (dataLen buf)).length ≤ 255 := by
  have hlt := (buf[8]?.getD 0).toNat_lt
  rw [List.length_take, dataLen]
  omega

/-- What `onCompletePacket_` reads. -/
def completePacket (buf : Bytes) : Frame where
  type := buf[7]?.getD 0
  payload := (buf.drop 9).take (dataLen buf)
  fits := length_take_dataLen buf

/-- `parseByte_`; the outputs are the frames that it dispatches. -/
def parseByte : Mealy.Step Bytes UInt8 Frame := fun buf b =>
  if buf.length ≥ kBufferSize then ([], [])
  else if acceptByteAt buf b then
    if (buf ++ [b]).length ≥ 9 ∧ (buf ++ [b]).length = 9 + dataLen (buf ++ [b]) + 1 then
      ([], [completePacket (buf ++ [b])])
    else (buf ++ [b], [])
  else ([], [])

/-- `feedBytes` while the window is open. -/
def feedBytes : Mealy.Step Bytes Bytes Frame := fun buf data => Mealy.run parseByte buf data

/-- Chunks are one stream. -/
theorem run_feedBytes (buf : Bytes) (chunks : List Bytes) :
    Mealy.run feedBytes buf chunks = Mealy.run parseByte buf chunks.flatten := by
  induction chunks generalizing buf with
  | nil => rfl
  | cons c cs ih =>
    rw [Mealy.run_cons, List.flatten_cons, Mealy.run_append, ih]
    rfl

/-! ## What is in the buffer -/

section Buffer

variable {buf s u : Bytes} {b : UInt8} {f g : Frame}

theorem getElem?_body_eight (f : Frame) : f.body[8]? = some (UInt8.ofNat f.payload.length) := rfl

theorem toNat_length (f : Frame) : (UInt8.ofNat f.payload.length).toNat = f.payload.length := by
  have hfits := f.fits
  rw [UInt8.toNat_ofNat']
  exact Nat.mod_eq_of_lt (by omega)

/-- Once the length is in the buffer, it is the frame's. -/
theorem dataLen_of_begins (h : buf <+: f.body) (hlen : 9 ≤ buf.length) :
    dataLen buf = f.payload.length := by
  obtain ⟨rest, hrest⟩ := h
  have hget : buf[8]? = f.body[8]? := by
    rw [← hrest, List.getElem?_append_left (by omega)]
  rw [dataLen, hget, getElem?_body_eight, Option.getD_some, toNat_length]

theorem completePacket_wire (f : Frame) : completePacket f.wire = f := by
  have hlen : dataLen f.wire = f.payload.length := by
    rw [dataLen]
    change (UInt8.ofNat f.payload.length).toNat = _
    exact toNat_length f
  have hdrop : f.wire.drop 9 = f.payload ++ [checksum f.body] := rfl
  obtain ⟨type, payload, fits⟩ := f
  simp only [completePacket, Frame.mk.injEq]
  refine ⟨rfl, ?_⟩
  rw [hdrop, hlen, List.take_left]

/-- The byte that follows the beginning of a frame is taken. -/
theorem acceptByteAt_body (h : buf ++ [b] <+: f.body) : acceptByteAt buf b = true := by
  have hle := h.length_le
  rw [List.length_append, List.length_singleton, Frame.length_body] at hle
  have hget : f.body[buf.length]? = some b := by
    obtain ⟨rest, hrest⟩ := h
    rw [← hrest, List.append_assoc, List.getElem?_append_right le_rfl, Nat.sub_self]
    rfl
  have hpre : buf <+: f.body := (List.prefix_append buf [b]).trans h
  rw [acceptByteAt]
  split
  · next hlt =>
    rw [Frame.body, List.append_assoc, List.getElem?_append_left (by exact hlt)] at hget
    exact decide_eq_true hget
  · split
    · next heq =>
      rw [heq] at hget
      exact decide_eq_true (Option.some.inj hget).symm
    · split
      · rfl
      · rw [dataLen_of_begins hpre (by omega), if_pos (by omega)]

theorem acceptByteAt_checksum (f : Frame) : acceptByteAt f.body (checksum f.body) = true := by
  have hlen := f.length_body
  have hdata := dataLen_of_begins (List.prefix_refl f.body) (by omega)
  rw [acceptByteAt, if_neg (by omega), if_neg (by omega), if_neg (by omega), if_neg (by omega),
    if_pos (by omega)]
  exact decide_eq_true rfl

/-- A byte of the body goes into the buffer. -/
theorem parseByte_body (h : buf ++ [b] <+: f.body) : parseByte buf b = (buf ++ [b], []) := by
  have hle := h.length_le
  have hfits := f.fits
  rw [Frame.length_body] at hle
  have hshort : ¬ buf.length ≥ kBufferSize := by
    rw [List.length_append, List.length_singleton] at hle
    rw [kBufferSize]
    omega
  have hopen : ¬ ((buf ++ [b]).length ≥ 9 ∧ (buf ++ [b]).length =
      9 + dataLen (buf ++ [b]) + 1) := by
    rintro ⟨hge, heq⟩
    rw [dataLen_of_begins h hge] at heq
    omega
  rw [parseByte, if_neg hshort, if_pos (acceptByteAt_body h), if_neg hopen]

/-- The checksum of the body dispatches the frame. -/
theorem parseByte_checksum (f : Frame) : parseByte f.body (checksum f.body) = ([], [f]) := by
  have hlen := f.length_body
  have hwire := f.length_wire
  have hfits := f.fits
  have hdata : dataLen (f.body ++ [checksum f.body]) = f.payload.length := by
    rw [dataLen]
    change (UInt8.ofNat f.payload.length).toNat = _
    exact toNat_length f
  rw [parseByte, if_neg (by rw [kBufferSize]; omega), if_pos (acceptByteAt_checksum f), if_pos]
  · exact congrArg (fun g => (([] : Bytes), [g])) (completePacket_wire f)
  · rw [Frame.wire] at hwire
    rw [hdata, hwire]
    omega

/-- From the beginning of a frame on, the rest of its body goes into the buffer. -/
theorem run_body (h : buf ++ u <+: f.body) : Mealy.run parseByte buf u = (buf ++ u, []) := by
  induction u generalizing buf with
  | nil => rw [List.append_nil, Mealy.run_nil]
  | cons b u ih =>
    have hhead : buf ++ [b] <+: f.body :=
      (List.prefix_append (buf ++ [b]) u).trans (by simpa using h)
    have htail : Mealy.run parseByte (buf ++ [b]) u = (buf ++ [b] ++ u, []) :=
      ih (by simpa using h)
    rw [Mealy.run_cons, parseByte_body hhead, htail, List.append_assoc]
    rfl

/-- An empty buffer is fed the bytes of a frame. -/
theorem run_wire (f : Frame) : Mealy.run parseByte [] f.wire = ([], [f]) := by
  have hbody : Mealy.run parseByte [] f.body = (f.body, []) := run_body (List.prefix_refl f.body)
  rw [Frame.wire, Mealy.run_append, hbody, Mealy.run_cons, parseByte_checksum]
  rfl

/-- The buffer holds the beginning of a frame, up to its payload. -/
inductive Begins : Bytes → Prop where
  | header (k : Nat) (hk : k ≤ 6) : Begins (kHeader.take k)
  | version : Begins (kHeader ++ [kImprovSerialVersion])
  | type (t : UInt8) : Begins (kHeader ++ [kImprovSerialVersion, t])
  | data (t n : UInt8) (p : Bytes) (h : p.length ≤ n.toNat) :
    Begins (kHeader ++ [kImprovSerialVersion, t, n] ++ p)

theorem begins_nil : Begins [] := .header 0 (by decide)

/-- One byte goes on with the frame, ends it, or drops it. -/
inductive Turn (buf : Bytes) (b : UInt8) : Prop where
  | on (h : Begins (buf ++ [b])) (heq : parseByte buf b = (buf ++ [b], []))
  | done (f : Frame) (h : buf ++ [b] = f.wire) (heq : parseByte buf b = ([], [f]))
  | drop (heq : parseByte buf b = ([], []))

/-- A byte that is refused empties the buffer. -/
theorem parseByte_refuse (h : acceptByteAt buf b = false) : parseByte buf b = ([], []) := by
  rw [parseByte]
  split
  · rfl
  · rw [if_neg (by rw [h]; decide)]

/-- A byte that does not end a frame goes into the buffer. -/
theorem parseByte_accept (h : acceptByteAt buf b = true) (hlt : buf.length < kBufferSize)
    (hopen : ¬ ((buf ++ [b]).length ≥ 9 ∧
      (buf ++ [b]).length = 9 + dataLen (buf ++ [b]) + 1)) :
    parseByte buf b = (buf ++ [b], []) := by
  rw [parseByte, if_neg (Nat.not_le.2 hlt), if_pos h, if_neg hopen]

theorem Begins.turn (h : Begins buf) (b : UInt8) : Turn buf b := by
  cases haccept : acceptByteAt buf b with
  | false => exact .drop (parseByte_refuse haccept)
  | true =>
    cases h with
    | header k hk =>
      have hlen : (kHeader.take k).length = k := List.length_take_of_le hk
      have hon := parseByte_accept haccept (by rw [hlen, kBufferSize]; omega) (by
        rintro ⟨hge, -⟩
        rw [List.length_append, hlen, List.length_singleton] at hge
        omega)
      refine .on ?_ hon
      rcases Nat.lt_or_eq_of_le hk with hlt | rfl
      · rw [acceptByteAt, hlen, if_pos hlt] at haccept
        have hnext : kHeader.take (k + 1) = kHeader.take k ++ [b] := by
          rw [List.take_add_one, of_decide_eq_true haccept]
          rfl
        rw [← hnext]
        exact .header (k + 1) hlt
      · have hb : b = kImprovSerialVersion := of_decide_eq_true haccept
        rw [hb]
        exact .version
    | version =>
      refine .on (.type b) (parseByte_accept haccept (by decide) fun h => ?_)
      have hlen := h.1
      simp [kHeader] at hlen
    | type t =>
      have hlen : (kHeader ++ [kImprovSerialVersion, t]).length = 8 := rfl
      refine .on ?_ (parseByte_accept haccept (by rw [hlen]; decide) fun h => ?_)
      · have hdata := Begins.data t b [] (Nat.zero_le _)
        rwa [List.append_nil] at hdata
      · have hfull := h.2
        rw [List.length_append, hlen, List.length_singleton] at hfull
        omega
    | data t n p hp =>
      have hlen : (kHeader ++ [kImprovSerialVersion, t, n] ++ p).length = 9 + p.length := by
        simp [kHeader]
        omega
      have hdata : ∀ q, dataLen (kHeader ++ [kImprovSerialVersion, t, n] ++ q) = n.toNat :=
        fun _ => rfl
      have hn := n.toNat_lt
      rcases Nat.lt_or_eq_of_le hp with hlt | heq
      · refine .on ?_ (parseByte_accept haccept (by rw [hlen, kBufferSize]; omega) fun h => ?_)
        · rw [List.append_assoc]
          exact .data t n (p ++ [b]) (by rw [List.length_append, List.length_singleton]; omega)
        · have hfull := h.2
          rw [List.length_append, hlen, List.append_assoc, hdata, List.length_singleton] at hfull
          omega
      · have hlow : UInt8.ofNat p.length = n := by rw [heq, UInt8.ofNat_toNat]
        have hbody : kHeader ++ [kImprovSerialVersion, t, n] ++ p =
            Frame.body ⟨t, p, by omega⟩ := by rw [Frame.body, hlow]
        rw [acceptByteAt, hlen, hdata, if_neg (by omega), if_neg (by omega), if_neg (by omega),
          if_neg (by omega), if_pos (by omega), decide_eq_true_eq] at haccept
        refine .done ⟨t, p, by omega⟩ ?_ ?_
        · rw [Frame.wire, ← hbody, haccept]
        · rw [← haccept, hbody]
          exact parseByte_checksum _

end Buffer

/-! ## Any stream -/

section Stream

variable {s w u : Bytes} {b : UInt8} {f g : Frame}

theorem Begins.length_le (h : Begins u) : u.length ≤ 264 := by
  cases h with
  | header k hk => exact (List.length_take_le' k kHeader).trans (by decide)
  | version => decide
  | type t => simp [kHeader]
  | data t n p hp =>
    have hn := n.toNat_lt
    simp only [kHeader, List.length_append, List.length_cons, List.length_nil]
    omega

theorem run_concat (buf s : Bytes) (b : UInt8) :
    Mealy.run parseByte buf (s ++ [b]) =
      ((parseByte (Mealy.run parseByte buf s).1 b).1,
        (Mealy.run parseByte buf s).2 ++ (parseByte (Mealy.run parseByte buf s).1 b).2) := by
  rw [Mealy.run_append, Mealy.run_cons, Mealy.run_nil, List.append_nil]

/-- The buffer holds the beginning of a frame, and it is the end of what has been fed. -/
theorem run_begins (s : Bytes) :
    Begins (Mealy.run parseByte [] s).1 ∧ (Mealy.run parseByte [] s).1 <:+ s := by
  induction s using List.reverseRecOn with
  | nil => exact ⟨begins_nil, List.suffix_refl []⟩
  | append_singleton s b ih =>
    obtain ⟨hbegins, rest, hrest⟩ := ih
    rw [run_concat]
    cases hbegins.turn b with
    | on h heq =>
      rw [heq]
      refine ⟨h, rest, ?_⟩
      rw [← List.append_assoc, hrest]
    | done f _ heq =>
      rw [heq]
      exact ⟨begins_nil, List.nil_suffix⟩
    | drop heq =>
      rw [heq]
      exact ⟨begins_nil, List.nil_suffix⟩

/-- After any stream a byte dispatches a frame only if it is the last of this frame. -/
theorem dispatch_suffix (s : Bytes) (b : UInt8)
    (hf : f ∈ (parseByte (Mealy.run parseByte [] s).1 b).2) :
    (parseByte (Mealy.run parseByte [] s).1 b).2 = [f] ∧ f.wire <:+ s ++ [b] := by
  obtain ⟨hbegins, rest, hrest⟩ := run_begins s
  cases hbegins.turn b with
  | on _ heq =>
    rw [heq] at hf
    cases hf
  | done g h heq =>
    rw [heq] at hf ⊢
    obtain rfl := List.mem_singleton.1 hf
    refine ⟨rfl, rest, ?_⟩
    rw [← h, ← List.append_assoc, hrest]
  | drop heq =>
    rw [heq] at hf
    cases hf

/-- A frame that a stream dispatches is in the stream. -/
theorem exists_prefix_of_mem (hf : f ∈ (Mealy.run parseByte [] s).2) :
    ∃ u, u <+: s ∧ f.wire <:+ u := by
  induction s using List.reverseRecOn with
  | nil => cases hf
  | append_singleton s b ih =>
    rw [run_concat] at hf
    rcases List.mem_append.1 hf with hold | hnew
    · obtain ⟨u, hu, hsuffix⟩ := ih hold
      exact ⟨u, hu.trans (List.prefix_append s [b]), hsuffix⟩
    · exact ⟨s ++ [b], List.prefix_refl _, (dispatch_suffix s b hnew).2⟩

theorem length_le_of_mem (hf : f ∈ (Mealy.run parseByte [] s).2) : f.wire.length ≤ s.length := by
  obtain ⟨u, hu, hsuffix⟩ := exists_prefix_of_mem hf
  exact hsuffix.length_le.trans hu.length_le

/-- No proper beginning of a frame dispatches it. -/
theorem run_prefix (h : u <+: f.body) : (Mealy.run parseByte [] u).2 = [] := by
  have hrun : Mealy.run parseByte [] u = ([] ++ u, []) := run_body h
  rw [hrun]

/-! ## Noise before a frame -/

theorem fits_stateRequest : ([2, 0] : Bytes).length ≤ 255 := by decide

/-- A frame that asks for the state. -/
def stateRequest : Frame := ⟨3, [2, 0], fits_stateRequest⟩

/-- Noise after which the parser waits for a frame: made of parts of a header, the empty one
among them, each with the byte that breaks it. -/
inductive Settled : Bytes → Prop where
  | nil : Settled []
  | broken (w : Bytes) (k : Nat) (b : UInt8) (hk : k < 6) (hb : kHeader[k]? ≠ some b)
    (h : Settled w) : Settled (w ++ kHeader.take k ++ [b])

theorem kHeader_take_begins (k : Nat) (f : Frame) : kHeader.take k <+: f.body := by
  rw [Frame.body, List.append_assoc]
  exact (List.take_prefix k kHeader).trans (List.prefix_append _ _)

theorem run_kHeader_take (k : Nat) :
    Mealy.run parseByte [] (kHeader.take k) = (kHeader.take k, []) :=
  run_body (kHeader_take_begins k stateRequest)

/-- A byte that breaks a header is dropped with it. -/
theorem parseByte_broken {k : Nat} (hk : k < 6) (hb : kHeader[k]? ≠ some b) :
    parseByte (kHeader.take k) b = ([], []) := by
  have hlen : (kHeader.take k).length = k := List.length_take_of_le hk.le
  apply parseByte_refuse
  rw [acceptByteAt, hlen, if_pos hk]
  exact decide_eq_false hb

theorem Settled.run (h : Settled w) : Mealy.run parseByte [] w = ([], []) := by
  induction h with
  | nil => rfl
  | broken w k b hk hb _ ih =>
    rw [run_concat, Mealy.run_append, ih, run_kHeader_take]
    dsimp only
    rw [parseByte_broken hk hb]
    rfl

/-- Noise without a header leaves the parser inside a header at most, and dispatches nothing. -/
theorem run_noise (hw : ¬ kHeader <:+: w) :
    ∃ u k, w = u ++ kHeader.take k ∧ k < 6 ∧ Settled u ∧
      Mealy.run parseByte [] w = (kHeader.take k, []) := by
  induction w using List.reverseRecOn with
  | nil => exact ⟨[], 0, rfl, by decide, .nil, rfl⟩
  | append_singleton w b ih =>
    have hbefore : ¬ kHeader <:+: w := fun h => hw (h.trans (List.prefix_append w [b]).isInfix)
    obtain ⟨u, k, rfl, hk, hu, hrun⟩ := ih hbefore
    rw [run_concat, hrun]
    dsimp only
    by_cases hb : kHeader[k]? = some b
    · have hnext : kHeader.take (k + 1) = kHeader.take k ++ [b] := by
        rw [List.take_add_one, hb]
        rfl
      have hk' : k + 1 < 6 := by
        by_contra hge
        -- the header would be complete
        have hall : kHeader.take (k + 1) = kHeader :=
          List.take_of_length_le (by rw [kHeader]; exact Nat.le_of_not_lt hge)
        apply hw
        rw [List.append_assoc, ← hnext, hall]
        exact (List.suffix_append u kHeader).isInfix
      refine ⟨u, k + 1, by rw [List.append_assoc, hnext], hk', hu, ?_⟩
      have hbody := kHeader_take_begins (k + 1) stateRequest
      rw [hnext] at hbody ⊢
      rw [parseByte_body hbody, List.append_nil]
    · refine ⟨u ++ kHeader.take k ++ [b], 0, by simp, by decide, .broken u k b hk hb hu, ?_⟩
      rw [parseByte_broken hk hb]
      rfl

/-- After a part of a header the frame that follows is lost: its first byte is dropped, and
the rest is too short to be the frame. -/
theorem run_lost {k : Nat} (hk : k < 6) (hpos : 0 < k) (f : Frame) :
    f ∉ (Mealy.run parseByte (kHeader.take k) f.wire).2 := by
  have hwire : f.wire = 73 :: f.wire.tail := rfl
  have hfirst : kHeader[k]? ≠ some 73 := by
    have hall : ∀ k < 6, 0 < k → kHeader[k]? ≠ some 73 := by decide
    exact hall k hk hpos
  rw [hwire, Mealy.run_cons, parseByte_broken hk hfirst, List.nil_append]
  intro hmem
  have hle := length_le_of_mem hmem
  rw [List.length_tail, f.length_wire] at hle
  omega

/-- Fed any noise without a header and then a frame whose header is the first of the stream,
in any chunks, the parser dispatches this frame and nothing else if and only if the noise does
not end inside a part of a header. -/
theorem resync_iff (w : Bytes) (f : Frame) (chunks : List Bytes)
    (hchunks : chunks.flatten = w ++ f.wire) (hw : ¬ kHeader <:+: w)
    (hfirst : ∀ i < w.length, ¬ kHeader <+: (w ++ f.wire).drop i) :
    (Mealy.run feedBytes [] chunks).2 = [f] ↔ Settled w := by
  rw [run_feedBytes, hchunks, Mealy.run_append]
  obtain ⟨u, k, rfl, hk, hu, hrun⟩ := run_noise hw
  rw [hrun, List.nil_append]
  dsimp only
  constructor
  · intro hout
    rcases Nat.eq_zero_or_pos k with rfl | hpos
    · rwa [List.take_zero, List.append_nil]
    · refine absurd ?_ (run_lost hk hpos f)
      rw [hout]
      exact List.mem_singleton_self f
  · intro hsettled
    have hempty := hsettled.run
    rw [hrun, Prod.mk.injEq] at hempty
    rw [hempty.1, run_wire]

/-- One `I` before a frame, and the frame is lost. -/
theorem resync_fails : ¬ ∀ (w : Bytes) (f : Frame) (chunks : List Bytes),
    chunks.flatten = w ++ f.wire → ¬ kHeader <:+: w →
      (∀ i < w.length, ¬ kHeader <+: (w ++ f.wire).drop i) →
        (Mealy.run feedBytes [] chunks).2 = [f] := by
  intro h
  have hout := h [73] stateRequest [73 :: stateRequest.wire] (by decide) (by decide) (by decide)
  revert hout
  decide

/-- Two line feeds before a frame. -/
theorem resync_iff_newlines :
    (Mealy.run feedBytes [] [[10], 10 :: stateRequest.wire]).2 = [stateRequest] ↔
      Settled [10, 10] :=
  resync_iff [10, 10] stateRequest [[10], 10 :: stateRequest.wire] (by decide) (by decide)
    (by decide)

end Stream

end Cdc2Net.Improv
