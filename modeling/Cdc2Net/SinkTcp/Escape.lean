import Cdc2Net.SinkTcp.Send
import Cdc2Net.SinkTcp.TelnetDecode

/-!
# The escape buffer of `client_send`

A telnet client gets every fanned-out 0xFF doubled. `client_send` collects the
escaped bytes in a buffer of 256 bytes and sends it whenever a doubled byte might
not fit any more, so the pair is never cut by the buffer. With complete sends the
emitted stream is the escaped data, and `process_rx` reads the data back from it
under every chunking (`fanout_roundtrip`).

A short send empties the buffer as a complete one does. What the socket accepts of
a block is therefore a prefix of the escaped block only if a short send is the last
one that gets a byte through (`stall_loses_tail`); `stall_loses_tail_fails` is a
block of two buffers with a gap between them.
-/

set_option autoImplicit false

namespace Cdc2Net.SinkTcp

open Cdc2Net.SinkTcp.Telnet

variable {res : Nat → SendResult} {k : Nat} {bs : List (List UInt8)}

/-! ## The buffers -/

/-- The buffers of a block, put together, are the escaped block. -/
theorem escBlocks_flatten : ∀ (data esc : List UInt8),
    (escBlocks esc data).flatten = esc ++ data.flatMap stuff
  | [], esc => by
    rw [escBlocks]
    split
    · next hesc => simp [hesc]
    · simp
  | b :: data, esc => by
    rw [escBlocks]
    split
    · rw [List.flatten_cons, escBlocks_flatten data, List.flatMap_cons]
    · rw [escBlocks_flatten data, List.flatMap_cons, List.append_assoc]

theorem stuff_length (b : UInt8) : 1 ≤ (stuff b).length ∧ (stuff b).length ≤ 2 := by
  rw [stuff]
  split <;> simp

/-- No empty buffer is sent. -/
theorem escBlocks_ne_nil : ∀ (data esc : List UInt8), ∀ b ∈ escBlocks esc data, b ≠ []
  | [], esc => by
    rw [escBlocks]
    split
    · intro b hb
      cases hb
    · next hesc =>
      intro b hb
      rw [List.mem_singleton.1 hb]
      exact hesc
  | b :: data, esc => by
    rw [escBlocks]
    split
    · next hfull =>
      intro c hc
      rcases List.mem_cons.1 hc with rfl | hc
      · -- a full buffer holds at least 255 bytes
        rintro rfl
        simp [escSize] at hfull
      · exact escBlocks_ne_nil data _ c hc
    · exact escBlocks_ne_nil data _

/-- The contents `esc[0 .. ei)` at the top of every pass of `client_send`'s loop and at
its end. Inside a pass `ei` is 0 or lies between the two. -/
def escTrace (esc : List UInt8) : List UInt8 → List (List UInt8)
  | [] => [esc]
  | b :: data =>
    esc :: escTrace (if esc.length + 2 > escSize then stuff b else esc ++ stuff b) data

/-- Every buffer that is sent is one of these contents. -/
theorem escBlocks_subset_escTrace : ∀ (data esc : List UInt8),
    escBlocks esc data ⊆ escTrace esc data
  | [], esc => by
    rw [escBlocks, escTrace]
    split
    · exact List.nil_subset _
    · exact List.Subset.refl _
  | b :: data, esc => by
    rw [escBlocks, escTrace]
    split
    · exact List.cons_subset_cons _ (escBlocks_subset_escTrace data _)
    · exact List.Subset.trans (escBlocks_subset_escTrace data _) (List.subset_cons_self _ _)

/-- The index `ei` stays inside the buffer. -/
theorem escTrace_bounded : ∀ (data esc : List UInt8), esc.length ≤ escSize →
    ∀ e ∈ escTrace esc data, e.length ≤ escSize
  | [], esc, h => by
    intro e he
    rw [List.mem_singleton.1 he]
    exact h
  | b :: data, esc, h => by
    intro e he
    rcases List.mem_cons.1 he with rfl | he
    · exact h
    · -- a byte takes at most two, and is put where two still fit
      refine escTrace_bounded data _ ?_ e he
      have hb := (stuff_length b).2
      split
      · simp only [escSize]
        omega
      · next hroom =>
        rw [List.length_append]
        omega

/-! ## Complete sends -/

/-- Every send of the buffers is complete; `k` numbers the first. -/
def SendsComplete (res : Nat → SendResult) : Nat → List (List UInt8) → Prop
  | _, [] => True
  | k, b :: bs => (res k).Complete b.length ∧ SendsComplete res (k + 1) bs

instance (res : Nat → SendResult) : ∀ k bs, Decidable (SendsComplete res k bs)
  | _, [] => isTrue trivial
  | k, b :: bs =>
    haveI := instDecidableSendsComplete res (k + 1) bs
    inferInstanceAs (Decidable ((res k).Complete b.length ∧ SendsComplete res (k + 1) bs))

theorem sendBlocks_complete (h : SendsComplete res k bs) :
    (sendBlocks res k bs).sent = bs.flatten := by
  induction bs generalizing k with
  | nil => rfl
  | cons b bs ih =>
    obtain ⟨⟨n, hn, hlen⟩, hrest⟩ := h
    simp only [sendBlocks, hn, ih hrest, List.take_of_length_le hlen, List.flatten_cons]

/-- A telnet client whose sends are complete is sent the escaped block. -/
theorem clientSend_telnet_complete {data : List UInt8}
    (h : SendsComplete res 0 (escBlocks [] data)) :
    (clientSend true data res).sent = data.flatMap stuff := by
  rw [clientSend, if_pos rfl, sendBlocks_complete h, escBlocks_flatten, List.nil_append]

/-- The escaped data is the wire form of data events. -/
theorem wire_data (data : List UInt8) : wire (data.map .data) = data.flatMap stuff := by
  rw [wire, List.flatMap_map]
  rfl

/-- **Escaping and decoding are inverse.** What `client_send` emits for a sequence of
fanouts to a telnet client, with every send complete, is read back by `process_rx`
from `TS_DATA`, in any chunks, as exactly the fanned-out data and nothing else, and
the machine ends in `TS_DATA`. The escape buffer is never overrun. -/
theorem fanout_roundtrip {c : Codec} (hc : c.tstate = .data)
    (fanouts : List (List UInt8 × (Nat → SendResult)))
    (hcomplete : ∀ f ∈ fanouts, SendsComplete f.2 0 (escBlocks [] f.1))
    (chunks : List (List UInt8))
    (hsplit : chunks.flatten = fanouts.flatMap fun f => (clientSend true f.1 f.2).sent) :
    (feed c chunks).2.flatMap RxCall.obs = (fanouts.flatMap Prod.fst).map .byte ∧
      (feed c chunks).2.flatMap RxCall.sourceBytes = fanouts.flatMap Prod.fst ∧
      (feed c chunks).1.tstate = .data ∧
      ∀ f ∈ fanouts, ∀ esc ∈ escTrace [] f.1, esc.length ≤ escSize := by
  have hstream : chunks.flatten = wire ((fanouts.flatMap Prod.fst).map .data) := by
    -- each fanout is sent whole, so the stream is the escaped data
    rw [hsplit, wire_data]
    clear hsplit
    induction fanouts with
    | nil => rfl
    | cons f fanouts ih =>
      rw [List.flatMap_cons, List.flatMap_cons, List.flatMap_append,
        clientSend_telnet_complete (hcomplete f List.mem_cons_self),
        ih fun g hg => hcomplete g (List.mem_cons_of_mem f hg)]
  obtain ⟨hstate, hobs⟩ := feed_decode c chunks
  obtain ⟨htst, hout⟩ := decode_wire hc ((fanouts.flatMap Prod.fst).map .data)
  have hbytes : ((fanouts.flatMap Prod.fst).map TelnetEvent.data).flatMap TelnetEvent.obs =
      (fanouts.flatMap Prod.fst).map .byte := by
    rw [List.flatMap_map, List.map_eq_flatMap]
    rfl
  rw [hstream] at hstate hobs
  rw [hout, hbytes] at hobs
  refine ⟨hobs, ?_, by rw [hstate]; exact htst,
    fun f _ => escTrace_bounded f.1 [] (Nat.zero_le _)⟩
  rw [sourceBytes_eq, hobs, List.flatMap_map]
  exact List.flatMap_singleton' _

/-- Two fanouts, a 0xFF in each, cut between the two bytes of a pair. -/
theorem fanout_roundtrip_split :
    (feed ⟨.data, 0, []⟩ [[0x41, 0xFF], [0xFF, 0xFF, 0xFF], [0x42]]).2.flatMap
      RxCall.sourceBytes = [0x41, 0xFF, 0xFF, 0x42] :=
  (fanout_roundtrip (c := ⟨.data, 0, []⟩) rfl
    [([0x41, 0xFF], fun _ => .accepted 3), ([0xFF, 0x42], fun _ => .accepted 3)] (by decide)
    [[0x41, 0xFF], [0xFF, 0xFF, 0xFF], [0x42]] (by decide)).2.1

/-! ## Short sends -/

/-- One `send()` of `client_send`: the buffer handed over and the bytes accepted. -/
structure SendCall where
  buf : List UInt8
  accepted : List UInt8
  deriving DecidableEq, Repr

/-- The `send()` calls of `client_send` for the given buffers. -/
def sendTrace (res : Nat → SendResult) : Nat → List (List UInt8) → List SendCall
  | _, [] => []
  | k, b :: bs =>
    match res k with
    | .accepted n => ⟨b, b.take n⟩ :: sendTrace res (k + 1) bs
    -- the rest of the fanout is dropped
    | .eagain => [⟨b, []⟩]
    | .error => [⟨b, []⟩]

/-- After a call that accepts fewer bytes than requested no byte is accepted. -/
def NothingAfterShort (calls : List SendCall) : Prop :=
  calls.Pairwise fun c d => c.accepted.length < c.buf.length → d.accepted = []

/-- The socket accepts a prefix of the escaped block, and nothing after a short send. -/
def LosesOnlyTail (data : List UInt8) (res : Nat → SendResult) : Prop :=
  (clientSend true data res).sent <+: data.flatMap stuff ∧
    NothingAfterShort (sendTrace res 0 (escBlocks [] data))

/-- The sends from the `k`-th on let no byte through, up to the first that fails. -/
def Stalled (res : Nat → SendResult) : Nat → List (List UInt8) → Prop
  | _, [] => True
  | k, _ :: bs =>
    match res k with
    | .accepted n => n = 0 ∧ Stalled res (k + 1) bs
    | .eagain => True
    | .error => True

/-- From the first short send on, the sends let no byte through. -/
def NoGap (res : Nat → SendResult) : Nat → List (List UInt8) → Prop
  | _, [] => True
  | k, b :: bs =>
    match res k with
    | .accepted n => if b.length ≤ n then NoGap res (k + 1) bs else Stalled res (k + 1) bs
    | .eagain => True
    | .error => True

/-- The bytes `client_send` gets through are those its calls get through. -/
theorem sendTrace_accepted (res : Nat → SendResult) : ∀ (bs : List (List UInt8)) (k : Nat),
    (sendTrace res k bs).flatMap SendCall.accepted = (sendBlocks res k bs).sent
  | [], _ => rfl
  | b :: bs, k => by
    cases hr : res k with
    | accepted n => simp [sendTrace, sendBlocks, hr, sendTrace_accepted res bs (k + 1)]
    | eagain => simp [sendTrace, sendBlocks, hr]
    | error => simp [sendTrace, sendBlocks, hr]

/-- Sends that let nothing through are the stalled ones. -/
theorem stalled_iff : ∀ {bs : List (List UInt8)} {k : Nat}, (∀ b ∈ bs, b ≠ []) →
    (Stalled res k bs ↔ ∀ d ∈ sendTrace res k bs, d.accepted = [])
  | [], _, _ => by simp [Stalled, sendTrace]
  | b :: bs, k, hne => by
    have ih := stalled_iff (k := k + 1) fun c hc => hne c (List.mem_cons_of_mem b hc)
    have hb : b ≠ [] := hne b List.mem_cons_self
    cases hr : res k with
    | accepted n => simp [Stalled, sendTrace, hr, ih, hb]
    | eagain => simp [Stalled, sendTrace, hr]
    | error => simp [Stalled, sendTrace, hr]

theorem noGap_iff : ∀ {bs : List (List UInt8)} {k : Nat}, (∀ b ∈ bs, b ≠ []) →
    (NoGap res k bs ↔ NothingAfterShort (sendTrace res k bs))
  | [], _, _ => by simp [NoGap, sendTrace, NothingAfterShort]
  | b :: bs, k, hne => by
    have hrest : ∀ c ∈ bs, c ≠ [] := fun c hc => hne c (List.mem_cons_of_mem b hc)
    have ih := noGap_iff (k := k + 1) hrest
    have hstalled : Stalled res (k + 1) bs ↔ ∀ d ∈ sendTrace res (k + 1) bs, d.accepted = [] :=
      stalled_iff hrest
    cases hr : res k with
    | accepted n =>
      simp only [NothingAfterShort] at ih
      simp only [NoGap, sendTrace, hr, NothingAfterShort, List.pairwise_cons, List.length_take]
      split
      · next hlen =>
        -- a complete send leaves the condition to the rest
        rw [ih]
        exact ⟨fun h => ⟨fun d _ hshort => absurd hshort (by omega), h⟩, fun h => h.2⟩
      · next hshort =>
        -- after a short send no later call may get a byte through
        rw [hstalled]
        refine ⟨fun h => ⟨fun d hd _ => h d hd, ?_⟩, fun h d hd => h.1 d hd (by omega)⟩
        exact List.pairwise_of_forall_mem_list fun _ _ d hd _ => h d hd
    | eagain => simp [NoGap, sendTrace, hr, NothingAfterShort]
    | error => simp [NoGap, sendTrace, hr, NothingAfterShort]

/-- Without a gap the accepted bytes are a prefix of the buffers. -/
theorem prefix_of_nothingAfterShort : ∀ {bs : List (List UInt8)} {k : Nat},
    NothingAfterShort (sendTrace res k bs) → (sendBlocks res k bs).sent <+: bs.flatten
  | [], _, _ => List.prefix_rfl
  | b :: bs, k, h => by
    cases hr : res k with
    | accepted n =>
      simp only [sendTrace, hr, NothingAfterShort, List.pairwise_cons, List.length_take] at h
      obtain ⟨hlater, hrest⟩ := h
      simp only [sendBlocks, hr, List.flatten_cons]
      by_cases hlen : b.length ≤ n
      · rw [List.take_of_length_le hlen]
        exact (List.prefix_append_right_inj b).2 (prefix_of_nothingAfterShort hrest)
      · -- nothing more is accepted behind the short send
        have hnone : (sendBlocks res (k + 1) bs).sent = [] := by
          rw [← sendTrace_accepted, List.flatMap_eq_nil_iff]
          exact fun d hd => hlater d hd (by omega)
        rw [hnone, List.append_nil]
        exact (List.take_prefix n b).trans (List.prefix_append b _)
    | eagain => simp [sendBlocks, hr]
    | error => simp [sendBlocks, hr]

/-- **A stalled client loses only the tail, exactly without a gap.** For every block
and every sequence of `send()` results, the accepted bytes are a prefix of the escaped
block with nothing accepted after a short send if and only if the results after the
first short one let no byte through. -/
theorem stall_loses_tail (data : List UInt8) (res : Nat → SendResult) :
    LosesOnlyTail data res ↔ NoGap res 0 (escBlocks [] data) := by
  rw [noGap_iff (escBlocks_ne_nil data [])]
  refine ⟨fun h => h.2, fun h => ⟨?_, h⟩⟩
  have hprefix := prefix_of_nothingAfterShort h
  rw [escBlocks_flatten, List.nil_append] at hprefix
  exact hprefix

/-- A block of two buffers: of the first one byte is accepted, then the second goes
out all the same. -/
theorem stall_loses_tail_fails : ¬ ∀ data res, LosesOnlyTail data res := by
  intro hall
  have hprefix := (hall (List.replicate 255 0x41 ++ [0x42]) fun _ => .accepted 1).1
  have hsent : (clientSend true (List.replicate 255 0x41 ++ [0x42])
      fun _ => .accepted 1).sent = [0x41, 0x42] := by decide +kernel
  have hcut : ¬ [0x41, 0x42] <+: (List.replicate 255 (0x41 : UInt8) ++ [0x42]).flatMap stuff := by
    decide +kernel
  exact hcut (hsent ▸ hprefix)

end Cdc2Net.SinkTcp
