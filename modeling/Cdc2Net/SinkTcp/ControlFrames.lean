import Cdc2Net.Lib.Transition
import Cdc2Net.SinkTcp.Send

/-!
# Control frames on one socket

`tn_send` runs in the client's task without `S.mtx` and completes a frame over
several `send()` calls; `on_rx` sends to the same socket under `S.mtx`. Here a
step is one `send()`, so the two loops interleave freely. `delivered` records the
frames that went out whole and where in the stream they begin.

A frame lies in one piece as long as no fanout send is accepted while a frame is
half sent (`control_frames_contiguous`). Nothing in the code keeps such a send
out, and `control_frames_contiguous_fails` is a run with one.
-/

set_option autoImplicit false

namespace Cdc2Net.SinkTcp.ControlFrames

open Cdc2Net.SinkTcp
open Cdc2Net.SinkTcp.Telnet
open Cdc2Net.Lib.Transition

/-- A `tn_send` in progress: its frame, the bytes still to send, the stall
counter, and the stream position of its first accepted byte. -/
structure CtlSend where
  frame : List UInt8
  rest : List UInt8
  stalls : Nat
  start : Nat
  deriving DecidableEq, Repr

/-- A frame that went out whole, and where it begins. -/
structure Delivered where
  start : Nat
  frame : List UInt8
  deriving DecidableEq, Repr

/-- One client's socket with its two senders. -/
structure Socket where
  /-- The bytes the socket accepted. -/
  stream : List UInt8
  /-- `c->telnet`. -/
  telnet : Bool
  /-- The `tn_send` of the client's task. -/
  ctl : Option CtlSend
  /-- The buffers `client_send` has still to send. -/
  fan : List (List UInt8)
  delivered : List Delivered
  deriving DecidableEq, Repr

/-- A fresh connection. -/
def Socket.fresh : Socket := ⟨[], false, none, [], []⟩

/-- The steps of the two senders. -/
inductive Label where
  /-- `tn_commit`. -/
  | commit
  /-- Entry of `tn_send`. -/
  | tnSend (frame : List UInt8)
  /-- One `send()` of `tn_send`. -/
  | ctlSend (r : SendResult)
  /-- Entry of `client_send`. -/
  | clientSend (data : List UInt8)
  /-- One `send()` of `client_send`. -/
  | fanSend (r : SendResult)
  deriving DecidableEq, Repr

namespace Socket

/-- Entry of `tn_send`; an empty frame has nothing to send. -/
def stepTnSend (s : Socket) (frame : List UInt8) : Option Socket :=
  if s.ctl = none then
    if frame = [] then some s
    else some { s with ctl := some ⟨frame, frame, 0, s.stream.length⟩ }
  else none

/-- One pass of `tn_send`'s loop. -/
def stepCtlSend (s : Socket) (r : SendResult) : Option Socket :=
  match s.ctl with
  | none => none
  | some c =>
    let a := tnSendStep c.rest c.stalls r
    -- the frame begins with the first pass that gets bytes out
    let start := if c.rest = c.frame then s.stream.length else c.start
    match a.2 with
    | .shutdown => some { s with stream := s.stream ++ a.1, ctl := none }
    | .more rest' stalls' =>
      if rest' = [] then
        some { s with
          stream := s.stream ++ a.1, ctl := none, delivered := s.delivered ++ [⟨start, c.frame⟩] }
      else some { s with stream := s.stream ++ a.1, ctl := some ⟨c.frame, rest', stalls', start⟩ }

/-- Entry of `client_send`; `S.mtx` keeps one fanout from starting inside another. -/
def stepClientSend (s : Socket) (data : List UInt8) : Option Socket :=
  if s.fan = [] then some { s with fan := if s.telnet then escBlocks [] data else [data] }
  else none

/-- One `send()` of `client_send`; a failed one drops the rest. -/
def stepFanSend (s : Socket) (r : SendResult) : Option Socket :=
  match s.fan with
  | [] => none
  | b :: bs =>
    match r with
    | .accepted n => some { s with stream := s.stream ++ b.take n, fan := bs }
    | .eagain => some { s with fan := [] }
    | .error => some { s with fan := [] }

end Socket

/-- The two senders on one socket. -/
def socketSystem : Machine Socket Label where
  step s
    | .commit => if s.fan = [] then some { s with telnet := true } else none
    | .tnSend frame => s.stepTnSend frame
    | .ctlSend r => s.stepCtlSend r
    | .clientSend data => s.stepClientSend data
    | .fanSend r => s.stepFanSend r

/-! ## Frames in one piece -/

/-- `frame` lies in the stream in one piece, beginning at `start`. -/
def ContiguousAt (stream frame : List UInt8) (start : Nat) : Prop :=
  ∃ pre post, stream = pre ++ (frame ++ post) ∧ pre.length = start

/-- The frame of a `tn_send` has gone out in part. -/
def CtlSend.HalfSent (c : CtlSend) : Prop := c.rest ≠ c.frame

/-- The step is a fanout send of which the socket accepts something. -/
def FanAccepted (s : Socket) : Label → Prop
  | .fanSend (.accepted n) => 0 < n ∧ (s.fan.headD []) ≠ []
  | _ => False

/-- No fanout send is accepted while a frame is half sent. -/
def FanBetweenFrames (s : Socket) (l : Label) : Prop :=
  FanAccepted s l → ∀ c ∈ s.ctl, ¬ c.HalfSent

instance (c : CtlSend) : Decidable c.HalfSent := by
  unfold CtlSend.HalfSent
  infer_instance

instance (s : Socket) : DecidablePred (FanAccepted s) := fun l => by
  unfold FanAccepted
  split <;> infer_instance

instance (s : Socket) : DecidablePred (FanBetweenFrames s) := fun l => by
  unfold FanBetweenFrames
  infer_instance

theorem ContiguousAt.append {stream frame : List UInt8} {start : Nat}
    (h : ContiguousAt stream frame start) (more : List UInt8) :
    ContiguousAt (stream ++ more) frame start := by
  rcases h with ⟨pre, post, rfl, hlen⟩
  exact ⟨pre, post ++ more, by simp only [List.append_assoc], hlen⟩

/-- The sent part of a frame in progress ends the stream. -/
def CtlSend.AtEnd (stream : List UInt8) (c : CtlSend) : Prop :=
  c.rest ≠ [] ∧ (c.HalfSent →
    ∃ pre out, stream = pre ++ out ∧ pre.length = c.start ∧ c.frame = out ++ c.rest)

/-- The invariant: delivered frames lie in one piece, and a frame in progress is
at the end of the stream. -/
structure FrameInv (s : Socket) : Prop where
  delivered : ∀ d ∈ s.delivered, ContiguousAt s.stream d.frame d.start
  atEnd : ∀ c ∈ s.ctl, c.AtEnd s.stream

theorem frameInv_fresh : FrameInv .fresh := by
  constructor
  · intro d hd
    cases hd
  · intro c hc
    cases hc

/-- What one pass of `tn_send`'s loop takes off its bytes. -/
theorem tnSendStep_more {rest : List UInt8} {stalls : Nat} {r : SendResult} {rest' : List UInt8}
    {stalls' : Nat} (h : (tnSendStep rest stalls r).2 = .more rest' stalls') :
    rest = (tnSendStep rest stalls r).1 ++ rest' := by
  cases r with
  | accepted n =>
      simp only [tnSendStep] at h ⊢
      split at h
      · next hpos =>
        rw [if_pos hpos]
        cases h
        exact (List.take_append_drop n rest).symm
      · cases h
  | eagain =>
      simp only [tnSendStep] at h ⊢
      split at h
      · cases h
      · next hlimit =>
        rw [if_neg hlimit]
        cases h
        rfl
  | error => cases h

/-- The frame's sent part, extended by one pass, ends the extended stream. -/
theorem CtlSend.AtEnd.extend {stream : List UInt8} {c : CtlSend} {out rest' : List UInt8}
    (h : c.AtEnd stream) (hrest : c.rest = out ++ rest') :
    ∃ pre out', stream ++ out = pre ++ out' ∧
      pre.length = (if c.rest = c.frame then stream.length else c.start) ∧
      c.frame = out' ++ rest' := by
  by_cases hfirst : c.rest = c.frame
  · refine ⟨stream, out, rfl, ?_, ?_⟩
    · rw [if_pos hfirst]
    · rw [← hfirst, hrest]
  · rcases h.2 hfirst with ⟨pre, sent, hstream, hlen, hframe⟩
    refine ⟨pre, sent ++ out, ?_, ?_, ?_⟩
    · rw [hstream, List.append_assoc]
    · rw [if_neg hfirst, hlen]
    · rw [hframe, hrest, List.append_assoc]

theorem frameInv_ctlSend {s t : Socket} {r : SendResult} (h : FrameInv s)
    (hs : s.stepCtlSend r = some t) : FrameInv t := by
  simp only [Socket.stepCtlSend] at hs
  split at hs
  · cases hs
  · next c hc =>
    have hend : c.AtEnd s.stream := h.atEnd c hc
    have hold : ∀ d ∈ s.delivered,
        ContiguousAt (s.stream ++ (tnSendStep c.rest c.stalls r).1) d.frame d.start :=
      fun d hd => (h.delivered d hd).append _
    split at hs
    · -- the connection is given up; the frame is not delivered
      cases hs
      exact ⟨hold, fun c' hc' => (by cases hc')⟩
    · next rest' stalls' hmore =>
      rcases hend.extend (tnSendStep_more hmore) with ⟨pre, out, hstream, hlen, hframe⟩
      split at hs
      · next hdone =>
        cases hs
        constructor
        · intro d hd
          rcases List.mem_append.1 hd with hd | hd
          · exact hold d hd
          · -- the frame is complete and ends the stream
            obtain rfl : d = ⟨if c.rest = c.frame then s.stream.length else c.start, c.frame⟩ :=
              List.mem_singleton.1 hd
            refine ⟨pre, [], ?_, hlen⟩
            show s.stream ++ (tnSendStep c.rest c.stalls r).1 = pre ++ (c.frame ++ [])
            rw [hstream, hframe, hdone, List.append_nil, List.append_nil]
        · intro c' hc'
          cases hc'
      · next hleft =>
        cases hs
        refine ⟨hold, fun c' hc' => ?_⟩
        obtain rfl := Option.some.inj hc'
        exact ⟨hleft, fun _ => ⟨pre, out, hstream, hlen, hframe⟩⟩

theorem frameInv_fanSend {s t : Socket} {r : SendResult} (h : FrameInv s)
    (hok : FanBetweenFrames s (.fanSend r)) (hs : s.stepFanSend r = some t) : FrameInv t := by
  simp only [Socket.stepFanSend] at hs
  split at hs
  · cases hs
  · next b bs hfan =>
    cases r with
    | accepted n =>
        cases hs
        refine ⟨fun d hd => (h.delivered d hd).append _, fun c hc => ?_⟩
        have hend := h.atEnd c hc
        refine ⟨hend.1, fun hhalf => ?_⟩
        -- a frame is half sent, so the send took nothing
        have hnone : b.take n = [] := by
          by_contra hsome
          refine hok ?_ c hc hhalf
          show 0 < n ∧ s.fan.headD [] ≠ []
          rw [hfan]
          constructor
          · rcases Nat.eq_zero_or_pos n with rfl | hpos
            · exact absurd rfl hsome
            · exact hpos
          · rintro rfl
            exact hsome List.take_nil
        show ∃ pre out, s.stream ++ b.take n = pre ++ out ∧ _
        rw [hnone, List.append_nil]
        exact hend.2 hhalf
    | eagain =>
        cases hs
        exact ⟨h.delivered, h.atEnd⟩
    | error =>
        cases hs
        exact ⟨h.delivered, h.atEnd⟩

theorem frameInv_step {s t : Socket} {l : Label} (h : FrameInv s) (hok : FanBetweenFrames s l)
    (hs : socketSystem.step s l = some t) : FrameInv t := by
  cases l with
  | commit =>
      simp only [socketSystem] at hs
      split at hs
      · cases hs
        exact ⟨h.delivered, h.atEnd⟩
      · cases hs
  | tnSend frame =>
      simp only [socketSystem, Socket.stepTnSend] at hs
      split at hs
      · split at hs
        · cases hs
          exact h
        · next hframe =>
          cases hs
          refine ⟨h.delivered, fun c hc => ?_⟩
          obtain rfl := Option.some.inj hc
          exact ⟨hframe, fun hhalf => absurd rfl hhalf⟩
      · cases hs
  | ctlSend r => exact frameInv_ctlSend h hs
  | clientSend data =>
      simp only [socketSystem, Socket.stepClientSend] at hs
      split at hs
      · cases hs
        exact ⟨h.delivered, h.atEnd⟩
      · cases hs
  | fanSend r => exact frameInv_fanSend h hok hs

/-- **Control frames lie in one piece.** In every run in which no fanout send is
accepted while a control frame is half sent, every frame that went out whole is
one block of the stream. -/
theorem control_frames_contiguous {s : Socket}
    (h : socketSystem.Reaches FanBetweenFrames .fresh s) :
    ∀ d ∈ s.delivered, ContiguousAt s.stream d.frame d.start :=
  (Machine.Reaches.invariant h frameInv_fresh fun _ _ _ hs hok ht =>
    frameInv_step hs hok ht).delivered

/-- A reply in two sends, before and after a fanout. -/
theorem control_frames_contiguous_split : ∃ s, socketSystem.Reaches FanBetweenFrames .fresh s ∧
    s.stream = [0x41, tcIac, tcDo, 0x2C, 0x42] ∧
    ContiguousAt s.stream [tcIac, tcDo, 0x2C] 1 := by
  obtain ⟨s, hs, hstream, hdelivered⟩ := Machine.exists_reaches_of_runIf socketSystem
    FanBetweenFrames (fun s => s.stream = [0x41, tcIac, tcDo, 0x2C, 0x42] ∧
      ⟨1, [tcIac, tcDo, 0x2C]⟩ ∈ s.delivered) .fresh
    [.commit, .clientSend [0x41], .tnSend [tcIac, tcDo, 0x2C], .fanSend (.accepted 1),
      .ctlSend (.accepted 1), .ctlSend .eagain, .ctlSend (.accepted 2), .clientSend [0x42],
      .fanSend (.accepted 1)] (by decide +kernel)
  exact ⟨s, hs, hstream, control_frames_contiguous hs _ hdelivered⟩

/-- A short send of `tn_send`, then a fanout, then the rest of the frame: the
fanned-out byte lies inside the frame. -/
theorem control_frames_contiguous_fails :
    ¬ ∀ s, socketSystem.Reaches (fun _ _ => True) .fresh s →
      ∀ d ∈ s.delivered, d.frame <:+: s.stream := by
  obtain ⟨s, hs, hdelivered, hcut⟩ := Machine.exists_reaches_of_runIf socketSystem
    (fun _ _ => True) (fun s => ⟨0, [tcIac, tcDo, 0x2C]⟩ ∈ s.delivered ∧
      ¬ [tcIac, tcDo, 0x2C] <:+: s.stream) .fresh
    [.commit, .tnSend [tcIac, tcDo, 0x2C], .ctlSend (.accepted 1), .clientSend [0x41],
      .fanSend (.accepted 1), .ctlSend (.accepted 2)] (by decide +kernel)
  intro hall
  exact hcut (hall s hs _ hdelivered)

end Cdc2Net.SinkTcp.ControlFrames
