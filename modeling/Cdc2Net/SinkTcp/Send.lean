import Cdc2Net.SinkTcp.Telnet

/-!
# Sending to a client

Two paths write to a client's socket. Telnet control frames go through the
completion loop `tn_send`, source bytes through the best-effort `client_send` of
the fanout. A single `send(.., MSG_DONTWAIT)` is atomic and may accept any part
of its buffer (`SendResult`). The replay buffer that bridges a radio reboot is
the last part of this file.
-/

set_option autoImplicit false

namespace Cdc2Net.SinkTcp

open Cdc2Net.SinkTcp.Telnet

/-- What one `send()` returns. An accepted count beyond the request stands for
the whole request. -/
inductive SendResult where
  | accepted (n : Nat)
  | eagain
  | error
  deriving DecidableEq, Repr

/-- The send takes all of a buffer of length `len`. -/
def SendResult.Complete (r : SendResult) (len : Nat) : Prop := ∃ n, r = .accepted n ∧ len ≤ n

instance (r : SendResult) (len : Nat) : Decidable (r.Complete len) :=
  match r with
  | .accepted n => decidable_of_iff (len ≤ n) (by simp [SendResult.Complete])
  | .eagain => isFalse (by simp [SendResult.Complete])
  | .error => isFalse (by simp [SendResult.Complete])

/-! ## `tn_send` -/

/-- Stalls in a row that `tn_send` rides out. -/
def tnSendMaxStalls : Nat := 50

/-- How one pass of `tn_send`'s loop ends: with the bytes still to send and the
stall counter, or with the connection shut down. -/
inductive TnSendNext where
  | more (rest : List UInt8) (stalls : Nat)
  | shutdown
  deriving DecidableEq, Repr

/-- One pass of `tn_send`'s loop over the unsent bytes `rest`: the bytes the
socket accepted, and how the pass ends. A send that accepts nothing counts as a
hard error. -/
def tnSendStep (rest : List UInt8) (stalls : Nat) : SendResult → List UInt8 × TnSendNext
  | .accepted n =>
    if (rest.take n).length > 0 then (rest.take n, .more (rest.drop n) 0) else ([], .shutdown)
  | .eagain =>
    -- a full send buffer drains; a peer that stays stuck is given up
    if stalls + 1 > tnSendMaxStalls then ([], .shutdown) else ([], .more rest (stalls + 1))
  | .error => ([], .shutdown)

/-! ## `client_send` -/

/-- `sizeof(esc)` in `client_send`. -/
def escSize : Nat := 256

/-- The buffers the telnet path of `client_send` hands to `send()`, from a
partly filled `esc`. A full buffer goes out before a byte that might need two
places. -/
def escBlocks (esc : List UInt8) : List UInt8 → List (List UInt8)
  | [] => if esc = [] then [] else [esc]
  | b :: bs =>
    if esc.length + 2 > escSize then esc :: escBlocks (stuff b) bs
    else escBlocks (esc ++ stuff b) bs

/-- What a `client_send` does: bytes accepted, sends dropped on EAGAIN, and
whether the socket is shut down. -/
structure SendEffect where
  sent : List UInt8
  eagain : Nat
  shutdown : Bool
  deriving DecidableEq, Repr

/-- No send at all. -/
def SendEffect.none : SendEffect := ⟨[], 0, false⟩

/-- The sends of `client_send`, one per buffer; `res k` is the result of the
`k`-th. A failed send drops the rest, a short one does not. -/
def sendBlocks (res : Nat → SendResult) : Nat → List (List UInt8) → SendEffect
  | _, [] => .none
  | k, b :: bs =>
    match res k with
    | .accepted n =>
      { sendBlocks res (k + 1) bs with sent := b.take n ++ (sendBlocks res (k + 1) bs).sent }
    | .eagain => ⟨[], 1, false⟩
    | .error => ⟨[], 0, true⟩

/-- `client_send`: one send of the data as it is to a raw client, the escaped
buffers to a telnet client. -/
def clientSend (telnet : Bool) (data : List UInt8) (res : Nat → SendResult) : SendEffect :=
  sendBlocks res 0 (if telnet then escBlocks [] data else [data])

/-- A complete send hands a raw client the data as it is. -/
theorem clientSend_raw_complete (data : List UInt8) (res : Nat → SendResult)
    (h : (res 0).Complete data.length) : (clientSend false data res).sent = data := by
  obtain ⟨n, hn, hlen⟩ := h
  simp [clientSend, sendBlocks, hn, List.take_of_length_le hlen, SendEffect.none]

/-! ## The replay buffer -/

/-- `REPLAY_BUF_SZ`. -/
def replayBufSz : Nat := 512
/-- `REPLAY_WINDOW_MS`, in microseconds. -/
def replayWindowUs : Nat := 8000 * 1000

/-- `s_replay[0 .. s_replay_len)` and `s_replay_until_us` (0 = window closed). -/
structure Replay where
  buf : List UInt8
  untilUs : Nat
  deriving DecidableEq, Repr

/-- The closed window. -/
def Replay.closed : Replay := ⟨[], 0⟩

/-- `replay_arm`. -/
def replayArm (now : Nat) : Replay := ⟨[], now + replayWindowUs⟩

/-- One byte of `replay_capture`'s loop: the newest bytes win. -/
def replayPush (buf : List UInt8) (b : UInt8) : List UInt8 :=
  if buf.length < replayBufSz then buf ++ [b] else buf.tail ++ [b]

/-- `replay_capture`. -/
def replayCapture (r : Replay) (now : Nat) (data : List UInt8) : Replay :=
  if r.untilUs = 0 then r
  -- nobody came back in time: what was captured is stale
  else if now > r.untilUs then .closed
  else { r with buf := data.foldl replayPush r.buf }

/-- `replay_flush_to` for a client that has just been accepted (not telnet). -/
def replayFlushTo (r : Replay) (now : Nat) (res : Nat → SendResult) : SendEffect × Replay :=
  if r.untilUs = 0 ∨ r.buf = [] then (.none, r)
  else if now ≤ r.untilUs then (clientSend false r.buf res, .closed)
  else (.none, .closed)

end Cdc2Net.SinkTcp
