import Cdc2Net.Lib.FixedBuffer

/-!
# The captive DNS responder

`captive_dns_task` answers every query on the AP with the address of the device. One buffer
serves all datagrams; the lengths of the labels, which come from the network, move the
cursor. No access leaves the buffer and a query with one question gets its answer
(`captive_dns_safe_right`). The three tests of the cursor compare it with the received
length on one of the two ways out of the name only, and never after QTYPE and QCLASS, so a
question cut short is completed with what an earlier datagram left in the buffer
(`depends_on_datagram_iff`).
-/

set_option autoImplicit false

namespace Cdc2Net.Net.CaptiveDns

open Cdc2Net.Lib.FixedBuffer

/-! ## The task -/

/-- `sizeof(buf)` -/
def bufSize : Nat := 256

/-- `buf` -/
abbrev DnsBuf := Buf UInt8 bufSize

theorem take_fits (d : List UInt8) : 0 + (d.take bufSize).length ≤ bufSize := by
  rw [Nat.zero_add]
  exact List.length_take_le _ _

/-- What `recvfrom` leaves: at most `sizeof(buf)` bytes of the datagram, and behind them what
was there before. -/
def received (b : DnsBuf) (d : List UInt8) : DnsBuf :=
  b.splice 0 (d.take bufSize) (take_fits d)

/-- The header of the reply over that of the query: QR, AA, RA, and the counts. -/
def patchHeader (b : DnsBuf) : Checked DnsBuf := do
  let b ← b.writeAll 2 [0x84, 0x80]
  b.writeAll 6 [0, 1, 0, 0, 0, 0]

/-- How the loop over the name is left. -/
inductive NameExit where
  /-- `goto qclass` -/
  | pointer (p : Nat)
  /-- The condition of the loop is false. -/
  | ended (p : Nat)
  deriving DecidableEq, Repr

/-- The loop over QNAME. The condition reads the buffer only below `n`. -/
def nameLoop (b : DnsBuf) (n : Nat) : Nat → Nat → Checked NameExit
  | 0, _ => .error .outOfFuel
  | fuel + 1, p =>
    if p < n then do
      let c ← b.read p
      if c = 0 then pure (.ended p)
      else if 0xc0 ≤ c then pure (.pointer (p + 2))
      else nameLoop b n fuel (p + 1 + c.toNat)
    else pure (.ended p)

/-- The cursor at `qclass`, `none` for `continue`. -/
def NameExit.qclass (n : Nat) : NameExit → Option Nat
  | .pointer p => some p
  | .ended p => if n ≤ p then none else some (p + 1)

/-- `c00c`, type A, class IN, TTL 60, 192.168.4.1. -/
def answer : List UInt8 :=
  [0xc0, 0x0c, 0x00, 0x01, 0x00, 0x01, 0x00, 0x00, 0x00, 0x3c, 0x00, 0x04, 192, 168, 4, 1]

/-- From `qclass` on: the two tests, the answer and `sendto`. -/
def appendAnswer (b : DnsBuf) (p : Nat) : Checked (DnsBuf × Option (List UInt8)) :=
  if bufSize < p + 4 then pure (b, none)
  else if bufSize < p + 4 + 16 then pure (b, none)
  else do
    let b ← b.writeAll (p + 4) answer
    let sent ← b.readFirst (p + 4 + answer.length)
    pure (b, some sent)

/-- One pass of the loop of `captive_dns_task`: the buffer after it and what was sent.
`none` is a `recvfrom` that timed out or failed. -/
def serve (b : DnsBuf) : Option (List UInt8) → Checked (DnsBuf × Option (List UInt8))
  | none => pure (b, none)
  | some d =>
    let n := (d.take bufSize).length
    if n < 12 then pure (received b d, none)
    else do
      let b ← patchHeader (received b d)
      let exit ← nameLoop b n bufSize 12
      match exit.qclass n with
      | none => pure (b, none)
      | some p => appendAnswer b p

/-- The buffer after a row of passes. -/
def serveAll : DnsBuf → List (Option (List UInt8)) → Checked DnsBuf
  | b, [] => pure b
  | b, r :: rs => do
    let (b, _) ← serve b r
    serveAll b rs

/-- What is sent for the datagram `d` after the passes `earlier`. -/
def replyAfter (b : DnsBuf) (earlier : List (Option (List UInt8))) (d : List UInt8) :
    Checked (Option (List UInt8)) := do
  let b ← serveAll b earlier
  let (_, sent) ← serve b (some d)
  pure sent

/-! ## Names -/

/-- The name that starts at `p` of the message ends before `e`. A pointer takes two bytes,
of which the second may lie behind the message. -/
inductive NameEnds (d : List UInt8) : Nat → Nat → Prop where
  | root {p : Nat} (h : d[p]? = some 0) : NameEnds d p (p + 1)
  | pointer {p : Nat} {c : UInt8} (h : d[p]? = some c) (hc : 0xc0 ≤ c) : NameEnds d p (p + 2)
  | label {p e : Nat} {c : UInt8} (h : d[p]? = some c) (h0 : c ≠ 0) (hc : c < 0xc0)
      (hrest : NameEnds d (p + 1 + c.toNat) e) : NameEnds d p e

theorem NameEnds.congr {d d' : List UInt8} {p e : Nat} (h : NameEnds d p e)
    (heq : ∀ i, p ≤ i → d[i]? = d'[i]?) : NameEnds d' p e := by
  induction h with
  | @root p h => exact .root (heq p (Nat.le_refl p) ▸ h)
  | @pointer p c h hc => exact .pointer (heq p (Nat.le_refl p) ▸ h) hc
  | @label p e c h h0 hc _ ih =>
    exact .label (heq p (Nat.le_refl p) ▸ h) h0 hc (ih fun i hi => heq i (by omega))

theorem NameEnds.lt {d : List UInt8} {p e : Nat} (h : NameEnds d p e) : p < e := by
  induction h with
  | root h => omega
  | pointer h hc => omega
  | label h h0 hc _ ih => omega

section Inversion

variable {d : List UInt8} {p e : Nat} {c : UInt8}

theorem not_nameEnds (h : d[p]? = none) : ¬ NameEnds d p e := by
  intro he
  cases he with
  | root hp => rw [h] at hp; cases hp
  | pointer hp _ => rw [h] at hp; cases hp
  | label hp _ _ _ => rw [h] at hp; cases hp

theorem nameEnds_root (h : d[p]? = some 0) : NameEnds d p e ↔ e = p + 1 := by
  constructor
  · intro he
    cases he with
    | root _ => rfl
    | pointer hp hc =>
      obtain rfl := Option.some.inj (h.symm.trans hp)
      exact absurd hc (by decide)
    | label hp h0 _ _ => exact absurd (Option.some.inj (hp.symm.trans h)) h0
  · rintro rfl
    exact .root h

theorem nameEnds_pointer (h : d[p]? = some c) (hc : 0xc0 ≤ c) :
    NameEnds d p e ↔ e = p + 2 := by
  constructor
  · intro he
    cases he with
    | root hp =>
      obtain rfl := Option.some.inj (h.symm.trans hp)
      exact absurd hc (by decide)
    | pointer _ _ => rfl
    | label hp _ hlt _ =>
      obtain rfl := Option.some.inj (h.symm.trans hp)
      exact absurd hlt (UInt8.not_lt.mpr hc)
  · rintro rfl
    exact .pointer h hc

theorem nameEnds_label (h : d[p]? = some c) (h0 : c ≠ 0) (hc : c < 0xc0) :
    NameEnds d p e ↔ NameEnds d (p + 1 + c.toNat) e := by
  constructor
  · intro he
    cases he with
    | root hp => exact absurd (Option.some.inj (h.symm.trans hp)) h0
    | pointer hp hle =>
      obtain rfl := Option.some.inj (h.symm.trans hp)
      exact absurd hc (UInt8.not_lt.mpr hle)
    | label hp _ _ hrest =>
      obtain rfl := Option.some.inj (h.symm.trans hp)
      exact hrest
  · exact fun hrest => .label h h0 hc hrest

end Inversion

theorem NameEnds.unique {d : List UInt8} {p e e' : Nat} (h : NameEnds d p e)
    (h' : NameEnds d p e') : e = e' := by
  induction h with
  | root h => exact ((nameEnds_root h).mp h').symm
  | pointer h hc => exact ((nameEnds_pointer h hc).mp h').symm
  | label h h0 hc _ ih => exact ih ((nameEnds_label h h0 hc).mp h')

/-! ## The loop over the name -/

/-- The cursor at `qclass` is the end of the name. -/
def Finds (d : List UInt8) (p : Nat) (r : Option Nat) : Prop :=
  ∀ e, r = some e ↔ NameEnds d p e

theorem nameLoop_out (b : DnsBuf) {n p : Nat} (h : n ≤ p) (fuel : Nat) :
    nameLoop b n (fuel + 1) p = .ok (.ended p) ∧
      Finds (b.elems.take n) p ((NameExit.ended p).qclass n) := by
  constructor
  · rw [nameLoop, if_neg (Nat.not_lt.mpr h)]
    rfl
  · intro e
    have hnone : (b.elems.take n)[p]? = none := List.getElem?_take_eq_none h
    rw [NameExit.qclass, if_pos h]
    exact ⟨fun he => (by cases he), fun he => absurd he (not_nameEnds hnone)⟩

/-- The loop takes no longer than the bytes that are left, reads inside the buffer and finds
the end of the name. -/
theorem nameLoop_finds (b : DnsBuf) {n : Nat} (hn : n ≤ bufSize) (fuel : Nat) :
    ∀ p, n ≤ p + fuel → ∃ x, nameLoop b n (fuel + 1) p = .ok x ∧
      Finds (b.elems.take n) p (x.qclass n) := by
  induction fuel with
  | zero => exact fun p h => ⟨_, nameLoop_out b h 0⟩
  | succ fuel ih =>
    intro p h
    by_cases hp : p < n
    · have hlen : p < b.elems.length := by rw [b.length_eq]; omega
      obtain ⟨c, hc⟩ : ∃ c, b.elems[p]? = some c := ⟨_, List.getElem?_eq_getElem hlen⟩
      have hcn : (b.elems.take n)[p]? = some c := (List.getElem?_take_of_lt hp).trans hc
      rw [nameLoop, if_pos hp, b.read_eq hc, ok_bind]
      by_cases h0 : c = 0
      · subst h0
        refine ⟨.ended p, rfl, fun e => ?_⟩
        rw [NameExit.qclass, if_neg (Nat.not_le.mpr hp), nameEnds_root hcn,
          Option.some.injEq, eq_comm]
      · by_cases hptr : 0xc0 ≤ c
        · refine ⟨.pointer (p + 2), by rw [if_neg h0, if_pos hptr]; rfl, fun e => ?_⟩
          rw [NameExit.qclass, nameEnds_pointer hcn hptr, Option.some.injEq, eq_comm]
        · obtain ⟨x, hx, hfinds⟩ := ih (p + 1 + c.toNat) (by omega)
          refine ⟨x, by rw [if_neg h0, if_neg hptr, hx], fun e => ?_⟩
          rw [hfinds, nameEnds_label hcn h0 (UInt8.not_le.mp hptr)]
    · exact ⟨_, nameLoop_out b (Nat.not_lt.mp hp) (fuel + 1)⟩

/-! ## One pass -/

/-- The header that `patchHeader` makes of `d`. -/
def replyHeader (d : List UInt8) : List UInt8 :=
  d.take 2 ++ [0x84, 0x80] ++ (d.drop 4).take 2 ++ [0, 1, 0, 0, 0, 0]

theorem replyHeader_length {d : List UInt8} (h : 12 ≤ d.length) :
    (replyHeader d).length = 12 := by
  simp only [replyHeader, List.length_append, List.length_take, List.length_drop,
    List.length_cons, List.length_nil]
  omega

theorem patchHeader_eq (b : DnsBuf) :
    ∃ b', patchHeader b = .ok b' ∧ b'.elems = replyHeader b.elems ++ b.elems.drop 12 := by
  have hb : b.elems.length = 256 := b.length_eq
  refine ⟨(b.splice 2 [0x84, 0x80] (by decide)).splice 6 [0, 1, 0, 0, 0, 0] (by decide), ?_, ?_⟩
  · rw [patchHeader, b.writeAll_eq _ 2, ok_bind, Buf.writeAll_eq]
  · simp [Buf.splice, replyHeader, List.take_append, List.drop_append, List.take_take,
      List.drop_drop, hb]

theorem replyHeader_append {d : List UInt8} (h : 12 ≤ d.length) (old : List UInt8) :
    replyHeader (d ++ old) = replyHeader d := by
  rw [replyHeader, replyHeader, List.take_append_of_le_length (by omega),
    List.drop_append_of_le_length (by omega),
    List.take_append_of_le_length (by rw [List.length_drop]; omega)]

/-- Behind the header the buffer has the bytes of the datagram. -/
theorem patched_getElem? {d : List UInt8} (h : 12 ≤ d.length) {i : Nat} (hi : 12 ≤ i) :
    (replyHeader d ++ d.drop 12)[i]? = d[i]? := by
  have hlen := replyHeader_length h
  rw [List.getElem?_append_right (by omega), hlen, List.getElem?_drop]
  congr 1
  omega

/-- The query in `d` has an answer that fits: its name ends before `e`. -/
def Answered (d : List UInt8) (e : Nat) : Prop :=
  12 ≤ d.length ∧ NameEnds d 12 e ∧ e + 20 ≤ bufSize

/-- What one pass sends for the received bytes `d`, with `old` behind them. -/
inductive Sends (d old : List UInt8) : Option (List UInt8) → Prop where
  | silent (h : ∀ e, ¬ Answered d e) : Sends d old none
  | reply (e : Nat) (h : Answered d e) :
      Sends d old (some ((replyHeader d ++ d.drop 12 ++ old).take (e + 4) ++ answer))

theorem appendAnswer_eq (b : DnsBuf) (p : Nat) :
    ∃ b', appendAnswer b p =
      .ok (b', if p + 20 ≤ bufSize then some (b.elems.take (p + 4) ++ answer) else none) := by
  by_cases h4 : bufSize < p + 4
  · refine ⟨b, ?_⟩
    rw [appendAnswer, if_pos h4, if_neg (by omega)]
    rfl
  · by_cases h16 : bufSize < p + 4 + 16
    · refine ⟨b, ?_⟩
      rw [appendAnswer, if_neg h4, if_pos h16, if_neg (by omega)]
      rfl
    · have hfit : p + 4 + answer.length ≤ bufSize := Nat.not_lt.mp h16
      refine ⟨b.splice (p + 4) answer hfit, ?_⟩
      rw [appendAnswer, if_neg h4, if_neg h16, b.writeAll_eq answer _ hfit, ok_bind,
        Buf.readFirst_eq _ hfit, ok_bind, if_pos (by omega)]
      have htake := b.take_splice hfit (Nat.le_refl answer.length)
      rw [List.take_length] at htake
      rw [htake]
      rfl

/-- A pass makes no access outside the buffer, its loop ends, and it sends what `Sends` says. -/
theorem serve_sends (b : DnsBuf) (d : List UInt8) :
    ∃ b' sent, serve b (some d) = .ok (b', sent) ∧
      Sends (d.take bufSize) (b.elems.drop (d.take bufSize).length) sent := by
  have hn : (d.take bufSize).length ≤ bufSize := List.length_take_le _ _
  have hrec : (received b d).elems =
      d.take bufSize ++ b.elems.drop (d.take bufSize).length := by
    simp only [received, Buf.splice, List.take_zero, List.nil_append, Nat.zero_add]
  generalize hD : d.take bufSize = D at hn hrec ⊢
  by_cases h12 : D.length < 12
  · refine ⟨received b d, none, ?_, .silent fun e he => absurd he.1 (Nat.not_le.mpr h12)⟩
    rw [serve, hD, if_pos h12]
    rfl
  · have hle : 12 ≤ D.length := Nat.not_lt.mp h12
    obtain ⟨c, hc, helems⟩ := patchHeader_eq (received b d)
    rw [hrec, replyHeader_append hle _, List.drop_append_of_le_length hle,
      ← List.append_assoc] at helems
    -- the loop reads the received bytes behind the header, which are unchanged
    have htake : c.elems.take D.length = replyHeader D ++ D.drop 12 := by
      rw [helems]
      refine List.take_left' ?_
      rw [List.length_append, replyHeader_length hle, List.length_drop]
      omega
    obtain ⟨x, hx, hfinds⟩ := nameLoop_finds c hn 255 12 (by simp only [bufSize] at hn; omega)
    rw [htake] at hfinds
    have hname : Finds D 12 (x.qclass D.length) := fun e =>
      (hfinds e).trans ⟨fun h => h.congr fun i hi => patched_getElem? hle hi,
        fun h => h.congr fun i hi => (patched_getElem? hle hi).symm⟩
    have hserve : serve b (some d) = match x.qclass D.length with
        | none => pure (c, none)
        | some p => appendAnswer c p := by
      rw [serve, hD, if_neg h12, hc, ok_bind]
      show (nameLoop c D.length (255 + 1) 12 >>= _) = _
      rw [hx, ok_bind]
    cases hq : x.qclass D.length with
    | none =>
      rw [hq] at hserve
      refine ⟨c, none, hserve, .silent fun e he => ?_⟩
      have := (hname e).mpr he.2.1
      rw [hq] at this
      cases this
    | some p =>
      rw [hq] at hserve
      obtain ⟨b', happend⟩ := appendAnswer_eq c p
      refine ⟨b', _, hserve.trans happend, ?_⟩
      have hp : NameEnds D 12 p := (hname p).mp hq
      by_cases hfit : p + 20 ≤ bufSize
      · rw [if_pos hfit, helems]
        exact .reply p ⟨hle, hp, hfit⟩
      · rw [if_neg hfit]
        refine .silent fun e he => hfit ?_
        rw [hp.unique he.2.1]
        exact he.2.2

/-- The passes before a datagram end. -/
theorem serveAll_ok (rs : List (Option (List UInt8))) :
    ∀ b, ∃ b', serveAll b rs = .ok b' := by
  induction rs with
  | nil => exact fun b => ⟨b, rfl⟩
  | cons r rs ih =>
    intro b
    cases r with
    | none =>
      obtain ⟨b', h⟩ := ih b
      exact ⟨b', h⟩
    | some d =>
      obtain ⟨c, sent, hc, -⟩ := serve_sends b d
      obtain ⟨b', h⟩ := ih c
      refine ⟨b', ?_⟩
      rw [serveAll, hc, ok_bind]
      exact h

/-! ## Queries with one question -/

/-- A label of a name. -/
structure Label where
  bytes : List UInt8
  pos : 0 < bytes.length
  le : bytes.length ≤ 63

/-- The end of a name: the root label or a pointer. -/
inductive NameTail where
  | root
  | pointer (hi lo : UInt8) (h : 0xc0 ≤ hi)

/-- A name as it stands in a message. -/
structure Name where
  labels : List Label
  tail : NameTail

/-- A 16-bit field in network order. -/
def wire (w : UInt8 × UInt8) : List UInt8 := [w.1, w.2]

def Label.encode (l : Label) : List UInt8 := UInt8.ofNat l.bytes.length :: l.bytes

def NameTail.encode : NameTail → List UInt8
  | .root => [0]
  | .pointer hi lo _ => [hi, lo]

def Name.encode (n : Name) : List UInt8 := n.labels.flatMap Label.encode ++ n.tail.encode

/-- A query with QDCOUNT 1, and what it carries behind the question. -/
structure Query where
  id : UInt8 × UInt8
  flags : UInt8 × UInt8
  ancount : UInt8 × UInt8
  nscount : UInt8 × UInt8
  arcount : UInt8 × UInt8
  name : Name
  qtype : UInt8 × UInt8
  qclass : UInt8 × UInt8
  behind : List UInt8

namespace Query

variable (q : Query)

def header : List UInt8 :=
  wire q.id ++ wire q.flags ++ [0, 1] ++ wire q.ancount ++ wire q.nscount ++ wire q.arcount

def question : List UInt8 := q.name.encode ++ (wire q.qtype ++ wire q.qclass)

def datagram : List UInt8 := q.header ++ (q.question ++ q.behind)

/-- ID, flags 0x8480, one question, one answer, the question and the answer. -/
def reply : List UInt8 :=
  wire q.id ++ [0x84, 0x80] ++ [0, 1] ++ [0, 1] ++ [0, 0] ++ [0, 0] ++ q.question ++ answer

end Query

theorem Label.encode_head (l : Label) : (UInt8.ofNat l.bytes.length).toNat = l.bytes.length := by
  have h := l.le
  rw [UInt8.toNat_ofNat']
  omega

/-- The encoded name ends where its encoding does, whatever follows. -/
theorem nameEnds_encode (tail : NameTail) (behind : List UInt8) (ls : List Label) :
    ∀ before : List UInt8,
      NameEnds (before ++ (Name.encode ⟨ls, tail⟩ ++ behind)) before.length
        (before.length + (Name.encode ⟨ls, tail⟩).length) := by
  induction ls with
  | nil =>
    intro before
    cases tail with
    | root => exact .root (by simp [Name.encode, NameTail.encode])
    | pointer hi lo h => exact .pointer (c := hi) (by simp [Name.encode, NameTail.encode]) h
  | cons l ls ih =>
    intro before
    have hpos := l.pos
    have hle := l.le
    have hhead := l.encode_head
    have henc : Name.encode ⟨l :: ls, tail⟩ = l.encode ++ Name.encode ⟨ls, tail⟩ := by
      simp only [Name.encode, List.flatMap_cons, List.append_assoc]
    have hlen : l.encode.length = 1 + l.bytes.length := by
      rw [Label.encode, List.length_cons, Nat.add_comm]
    have hrest := ih (before ++ l.encode)
    rw [List.length_append, hlen] at hrest
    refine .label (c := UInt8.ofNat l.bytes.length) ?_ ?_ ?_ ?_
    · rw [henc, Label.encode]
      simp
    · intro h0
      rw [h0] at hhead
      exact absurd hhead (by simp; omega)
    · rw [UInt8.lt_iff_toNat_lt, hhead]
      exact Nat.lt_of_le_of_lt hle (by decide)
    · rw [hhead, henc]
      convert hrest using 1
      · simp only [List.append_assoc]
      · omega
      · rw [List.length_append, hlen]
        omega

/-- The received part of a query is the query with less behind its question. -/
theorem Query.take_datagram (q : Query) (h : 12 + q.question.length ≤ 240) :
    ∃ rest, q.datagram.take bufSize = q.header ++ (q.question ++ rest) := by
  have h12 : q.header.length = 12 := rfl
  refine ⟨q.behind.take (bufSize - 12 - q.question.length), ?_⟩
  rw [Query.datagram, List.take_append, List.take_append, h12,
    List.take_of_length_le (by rw [h12]; decide),
    List.take_of_length_le (by simp only [bufSize]; omega)]

/-- No access outside the buffer, an end of the loop, and at most one reply that fits. -/
def SafePass (b : DnsBuf) (d : List UInt8) : Prop :=
  ∃ b' sent, serve b (some d) = .ok (b', sent) ∧ ∀ m, sent = some m → m.length ≤ bufSize

/-- A pass is safe on every datagram and answers every query with one question. -/
theorem captive_dns_safe_right (b : DnsBuf) :
    (∀ d, SafePass b d) ∧
      ∀ q : Query, 12 + q.question.length ≤ 240 →
        ∃ b', serve b (some q.datagram) = .ok (b', some q.reply) := by
  constructor
  · intro d
    obtain ⟨b', sent, hserve, hsends⟩ := serve_sends b d
    refine ⟨b', sent, hserve, fun m hm => ?_⟩
    cases hsends with
    | silent h => cases hm
    | reply e h =>
      obtain rfl := Option.some.inj hm
      have hfit := h.2.2
      have htake := List.length_take_le (e + 4) (replyHeader (d.take bufSize) ++
        (d.take bufSize).drop 12 ++ b.elems.drop (d.take bufSize).length)
      have hans : answer.length = 16 := rfl
      rw [List.length_append, hans]
      omega
  · intro q hq
    obtain ⟨b', sent, hserve, hsends⟩ := serve_sends b q.datagram
    obtain ⟨rest, htake⟩ := q.take_datagram hq
    have h12 : q.header.length = 12 := rfl
    have hqlen : q.question.length = q.name.encode.length + 4 := List.length_append
    have hname := nameEnds_encode q.name.tail (wire q.qtype ++ wire q.qclass ++ rest)
      q.name.labels q.header
    have hans : Answered (q.header ++ (q.question ++ rest)) (12 + q.name.encode.length) := by
      refine ⟨by rw [List.length_append, h12]; omega, ?_, by simp only [bufSize]; omega⟩
      rw [Query.question, List.append_assoc]
      exact hname
    rw [htake] at hsends
    cases hsends with
    | silent h => exact absurd hans (h _)
    | reply e h =>
      obtain rfl := h.2.1.unique hans.2.1
      refine ⟨b', ?_⟩
      rw [hserve]
      -- the reply is cut right behind the question
      have hdrop : (q.header ++ (q.question ++ rest)).drop 12 = q.question ++ rest :=
        List.drop_left' h12
      have hhead : replyHeader (q.header ++ (q.question ++ rest)) = replyHeader q.header :=
        replyHeader_append (Nat.le_of_eq h12.symm) _
      rw [hdrop, hhead, List.append_assoc, List.append_assoc, ← List.append_assoc (replyHeader _),
        List.take_left' (by rw [List.length_append, hqlen]; rfl)]
      rfl

theorem replicate_length (v : UInt8) : (List.replicate bufSize v).length = bufSize :=
  List.length_replicate

/-- A buffer full of one byte. -/
def filled (v : UInt8) : DnsBuf := ⟨List.replicate bufSize v, replicate_length v⟩

theorem captive_dns_safe_right_a : ∃ b',
    serve (filled 0xff) (some [0x12, 0x34, 1, 0, 0, 1, 0, 0, 0, 0, 0, 0,
      1, 97, 0, 0, 1, 0, 1, 0, 0, 41]) =
    .ok (b', some [0x12, 0x34, 0x84, 0x80, 0, 1, 0, 1, 0, 0, 0, 0, 1, 97, 0, 0, 1, 0, 1,
      0xc0, 0x0c, 0, 1, 0, 1, 0, 0, 0, 0x3c, 0, 4, 192, 168, 4, 1]) :=
  (captive_dns_safe_right (filled 0xff)).2
    { id := (0x12, 0x34), flags := (1, 0), ancount := (0, 0), nscount := (0, 0),
      arcount := (0, 0), name := ⟨[⟨[97], by decide, by decide⟩], .root⟩, qtype := (0, 1),
      qclass := (0, 1), behind := [0, 0, 41] }
    (by decide)

/-! ## What a reply depends on -/

/-- The question of `d` has an end that fits the buffer, but not in `d`. -/
def CutQuestion (d : List UInt8) : Prop := ∃ e, Answered d e ∧ d.length < e + 4

/-- Whether and what is sent for `d` is the same after all earlier traffic. -/
def DependsOnDatagram (d : List UInt8) : Prop :=
  ∀ (b b' : DnsBuf) (earlier earlier' : List (Option (List UInt8))),
    replyAfter b earlier d = replyAfter b' earlier' d

theorem replyAfter_eq {b c c' : DnsBuf} {earlier : List (Option (List UInt8))} {d : List UInt8}
    {sent : Option (List UInt8)} (hall : serveAll b earlier = .ok c)
    (hserve : serve c (some d) = .ok (c', sent)) : replyAfter b earlier d = .ok sent := by
  rw [replyAfter, hall, ok_bind, hserve]
  rfl

theorem not_cut_take {d : List UInt8} {e : Nat} (h : ¬ CutQuestion d)
    (he : Answered (d.take bufSize) e) : e + 4 ≤ (d.take bufSize).length := by
  have hfit := he.2.2
  by_cases hd : d.length ≤ bufSize
  · rw [List.take_of_length_le hd] at he ⊢
    exact Nat.not_lt.mp fun hlt => h ⟨e, he, hlt⟩
  · rw [List.length_take]
    omega

/-- With the whole question in the datagram, what is behind it in the buffer is not sent. -/
theorem Sends.eq_of_old {d old old' : List UInt8} {s s' : Option (List UInt8)}
    (hcut : ∀ e, Answered d e → e + 4 ≤ d.length) (h : Sends d old s) (h' : Sends d old' s') :
    s = s' := by
  cases h with
  | silent hno =>
    cases h' with
    | silent _ => rfl
    | reply e he => exact absurd he (hno e)
  | reply e he =>
    cases h' with
    | silent hno => exact absurd he (hno e)
    | reply e' he' =>
      obtain rfl := he.2.1.unique he'.2.1
      have hlen : e + 4 ≤ (replyHeader d ++ d.drop 12).length := by
        have := hcut e he
        rw [List.length_append, replyHeader_length he.1, List.length_drop]
        omega
      rw [List.take_append_of_le_length hlen, List.take_append_of_le_length hlen]

/-- A datagram that fills the buffer leaves nothing of what was there. -/
theorem received_full {d : List UInt8} (hd : d.length = bufSize) (b : DnsBuf) :
    received b d = ⟨d, hd⟩ := by
  apply Buf.ext'
  have htake : d.take bufSize = d := List.take_of_length_le (Nat.le_of_eq hd)
  have hdrop : b.elems.drop bufSize = [] := List.drop_of_length_le (Nat.le_of_eq b.length_eq)
  simp only [received, Buf.splice, htake, hd, Nat.zero_add, hdrop, List.take_zero,
    List.nil_append, List.append_nil]

/-- Labels of `v` bytes that run over the end of a full datagram: no reply, and a buffer of
`v`s behind the header. -/
theorem serve_filled (v : UInt8) (hv : v = 62 ∨ v = 63) (b : DnsBuf) :
    ∃ c, serve b (some (List.replicate bufSize v)) = .ok (c, none) ∧
      c.elems.drop 12 = List.replicate (bufSize - 12) v := by
  have hfull : serve b (some (List.replicate bufSize v)) =
      serve (filled v) (some (List.replicate bufSize v)) := by
    rw [serve, serve, received_full (replicate_length v), received_full (replicate_length v)]
  rw [hfull]
  have hrun : ∀ v : UInt8, v = 62 ∨ v = 63 →
      (serve (filled v) (some (List.replicate bufSize v))).toOption.map
        (fun r => (r.1.elems.drop 12, r.2)) = some (List.replicate (bufSize - 12) v, none) := by
    rintro v (rfl | rfl)
    · decide +kernel
    · decide +kernel
  have := hrun v hv
  cases hs : serve (filled v) (some (List.replicate bufSize v)) with
  | error f => rw [hs] at this; cases this
  | ok r =>
    rw [hs] at this
    obtain ⟨h1, h2⟩ := Prod.mk.inj (Option.some.inj this)
    exact ⟨r.1, by rw [← h2], h1⟩

/-- The first byte behind a cut question comes from the earlier datagram. -/
theorem reply_after_filled {d : List UInt8} {e : Nat} (he : Answered d e)
    (hlt : d.length < e + 4) (v : UInt8) (hv : v = 62 ∨ v = 63) (b : DnsBuf) :
    ∃ m, replyAfter b [some (List.replicate bufSize v)] d = .ok (some m) ∧
      m[d.length]? = some v := by
  obtain ⟨hle, hname, hfit⟩ := he
  obtain ⟨c, hc, hold⟩ := serve_filled v hv b
  obtain ⟨c', sent, hserve, hsends⟩ := serve_sends c d
  have hlen : d.length ≤ bufSize := by omega
  rw [List.take_of_length_le hlen] at hsends
  have hbehind : c.elems.drop d.length = List.replicate (bufSize - d.length) v := by
    rw [show d.length = 12 + (d.length - 12) by omega, ← List.drop_drop, hold,
      List.drop_replicate]
    congr 1
    omega
  rw [hbehind] at hsends
  have hall : serveAll b [some (List.replicate bufSize v)] = .ok c := by
    rw [serveAll, hc]
    rfl
  cases hsends with
  | silent h => exact absurd ⟨hle, hname, hfit⟩ (h e)
  | reply e' h =>
    obtain rfl := hname.unique h.2.1
    refine ⟨_, replyAfter_eq hall hserve, ?_⟩
    have hbefore : (replyHeader d ++ d.drop 12).length = d.length := by
      rw [List.length_append, replyHeader_length hle, List.length_drop]
      omega
    rw [List.getElem?_append_left (by
        rw [List.length_take, List.length_append, hbefore, List.length_replicate]
        omega),
      List.getElem?_take_of_lt hlt, List.getElem?_append_right (by omega), hbefore,
      Nat.sub_self, List.getElem?_replicate, if_pos (by omega)]

/-- The reply depends on the datagram alone unless its question is cut; then the buffer any
two earlier datagrams leave may show. -/
theorem depends_on_datagram_iff (d : List UInt8) :
    (DependsOnDatagram d ↔ ¬ CutQuestion d) ∧
      (CutQuestion d → ∀ b, ∃ earlier earlier',
        replyAfter b earlier d ≠ replyAfter b earlier' d) := by
  have hshows : CutQuestion d → ∀ b, ∃ earlier earlier',
      replyAfter b earlier d ≠ replyAfter b earlier' d := by
    rintro ⟨e, he, hlt⟩ b
    obtain ⟨m, hm, hbyte⟩ := reply_after_filled he hlt 63 (.inr rfl) b
    obtain ⟨m', hm', hbyte'⟩ := reply_after_filled he hlt 62 (.inl rfl) b
    refine ⟨[some (List.replicate bufSize 63)], [some (List.replicate bufSize 62)],
      fun heq => ?_⟩
    rw [hm, hm'] at heq
    obtain rfl := Option.some.inj (Except.ok.inj heq)
    rw [hbyte] at hbyte'
    exact absurd (Option.some.inj hbyte') (by decide)
  refine ⟨⟨fun hdep hcut => ?_, fun hcut b b' earlier earlier' => ?_⟩, hshows⟩
  · obtain ⟨earlier, earlier', hne⟩ := hshows hcut (filled 0)
    exact hne (hdep _ _ _ _)
  · obtain ⟨c, hc⟩ := serveAll_ok earlier b
    obtain ⟨c', hc'⟩ := serveAll_ok earlier' b'
    obtain ⟨x, sent, hserve, hsends⟩ := serve_sends c d
    obtain ⟨x', sent', hserve', hsends'⟩ := serve_sends c' d
    rw [replyAfter_eq hc hserve, replyAfter_eq hc' hserve',
      hsends.eq_of_old (fun e => not_cut_take hcut) hsends']

theorem depends_on_datagram_iff_root : ∃ earlier earlier',
    replyAfter (filled 0) earlier [0, 0, 1, 0, 0, 1, 0, 0, 0, 0, 0, 0, 0] ≠
      replyAfter (filled 0) earlier' [0, 0, 1, 0, 0, 1, 0, 0, 0, 0, 0, 0, 0] :=
  (depends_on_datagram_iff _).2 ⟨13, ⟨by decide, .root rfl, by decide⟩, by decide⟩ (filled 0)

/-- A query that ends with the root label of its name is answered with a type and a class of
the sender before. -/
theorem depends_on_datagram_fails :
    ¬ ∀ d : List UInt8, d.length ≤ 256 → DependsOnDatagram d := by
  intro h
  have hd := h [0, 0, 1, 0, 0, 1, 0, 0, 0, 0, 0, 0, 0] (by decide) (filled 0) (filled 0)
    [some (List.replicate bufSize 63)] [some (List.replicate bufSize 62)]
  exact absurd (congrArg Except.toOption hd) (by decide +kernel)

end Cdc2Net.Net.CaptiveDns
