import Cdc2Net.SinkTcp.Controller
import Mathlib.Data.List.DropRight

/-!
# The replay buffer across a radio reboot

A reboot of the radio drops all clients and arms a window. What the radio says
before the host is back is kept, the newest 512 bytes of it, and goes first to the
next client. `on_rx` keeps a block only if it finds nobody to fan out to, and a
client that has been shut down still counts until its task has run its cleanup. So
the new client is sent what came in after the drop, cut to the last 512 bytes and
followed by every later block, exactly if these last 512 bytes came in while no slot
was active (`replay_across_drop`).
-/

set_option autoImplicit false

namespace Cdc2Net.SinkTcp

open Cdc2Net.SinkTcp.Telnet
open Cdc2Net.Source
open Cdc2Net.Lib.Transition

universe u v

variable {σ : Type u} {ρ : Type v} {src : LineSource σ ρ} {w w' w'' : World σ} {i j k : Slot}
  {l : Label ρ}

/-! ## The buffer keeps the last bytes -/

/-- Pushing a byte into a buffer that holds the last bytes of a list. -/
theorem rtake_push {α : Type u} (l : List α) (b : α) (n : Nat) :
    (if (l.rtake (n + 1)).length < n + 1 then l.rtake (n + 1) ++ [b]
      else (l.rtake (n + 1)).tail ++ [b]) = (l ++ [b]).rtake (n + 1) := by
  rw [List.rtake_concat_succ, List.rtake, List.rtake, List.length_drop]
  split
  · next hroom =>
    -- nothing has been dropped so far, and nothing is now
    rw [show l.length - (n + 1) = l.length - n by omega]
  · rw [List.tail_drop, show l.length - (n + 1) + 1 = l.length - n by omega]

theorem replayPush_rtake (l : List UInt8) (b : UInt8) :
    replayPush (l.rtake replayBufSz) b = (l ++ [b]).rtake replayBufSz := rtake_push l b 511

/-- `replay_capture` on a buffer that holds the last bytes of a stream. -/
theorem foldl_replayPush (l : List UInt8) : ∀ data : List UInt8,
    data.foldl replayPush (l.rtake replayBufSz) = (l ++ data).rtake replayBufSz := by
  intro data
  induction data using List.reverseRecOn with
  | nil => rw [List.foldl_nil, List.append_nil]
  | append_singleton data b ih =>
    rw [List.foldl_append, ih, List.foldl_cons, List.foldl_nil, replayPush_rtake,
      List.append_assoc]

/-! ## Steps that leave the buffer -/

/-- Replay buffer and clock agree. -/
def SameReplay (w w' : World σ) : Prop := w'.sink.replay = w.sink.replay ∧ w'.clock = w.clock

namespace SameReplay

theorem refl (w : World σ) : SameReplay w w := ⟨rfl, rfl⟩

theorem trans (h : SameReplay w w') (h' : SameReplay w' w'') : SameReplay w w'' :=
  ⟨h'.1.trans h.1, h'.2.trans h.2⟩

theorem shutdown (w : World σ) (i : Slot) : SameReplay w (w.shutdown i) := by
  rw [World.shutdown]
  split
  · exact refl w
  · exact ⟨rfl, rfl⟩

theorem startSend (w : World σ) (i : Slot) (frame : List UInt8) (acq : Bool)
    (todo : List RxCall) : SameReplay w (w.startSend i frame acq todo) := by
  simp only [World.startSend]
  split
  · exact ⟨rfl, rfl⟩
  · exact ⟨rfl, rfl⟩

theorem replySubneg (w : World σ) (i : Slot) (sb : List UInt8) (lc : LineCoding)
    (todo : List RxCall) : SameReplay w (w.replySubneg i sb lc todo) := by
  rw [World.replySubneg]
  split
  · exact ⟨rfl, rfl⟩
  · exact startSend w i _ _ _

theorem callStep (w : World σ) (i : Slot) (todo : List RxCall) (c : RxCall) :
    SameReplay w (w.callStep i todo c) := by
  cases c with
  | toSource data => exact ⟨rfl, rfl⟩
  | tnCommit => exact ⟨rfl, rfl⟩
  | tnNegotiate cmd opt =>
    cases hneg : negotiateReply cmd opt with
    | none =>
      simp only [World.callStep, hneg]
      exact ⟨rfl, rfl⟩
    | some r =>
      simp only [World.callStep, hneg]
      exact startSend w i _ _ _
  | tnSubneg sb =>
    by_cases hopt : sb.head? = some toptComport
    · simp only [World.callStep, if_pos hopt]
      exact ⟨rfl, rfl⟩
    · simp only [World.callStep, if_neg hopt]
      exact ⟨rfl, rfl⟩

theorem cleanup (s : Sink) (i : Slot) : (s.cleanup i).replay = s.replay := by
  simp only [Sink.cleanup, Sink.closeClient, Sink.releaseCtrl]
  split <;> split <;> rfl

theorem sendEffect (w : World σ) (i : Slot) (e : SendEffect) (log : ConnLog) :
    SameReplay w (w.sendEffect i e log) := by
  refine ⟨rfl, ?_⟩
  simp only [World.sendEffect]
  cases e.shutdown with
  | false => rfl
  | true => exact (shutdown w i).2

theorem fanoutTo (data : List UInt8) (res : Slot → Nat → SendResult) (w : World σ) (i : Slot) :
    SameReplay w (World.fanoutTo data res w i) := by
  rw [World.fanoutTo]
  split
  · exact sendEffect w i _ _
  · exact refl w

theorem foldl_fanoutTo (data : List UInt8) (res : Slot → Nat → SendResult) :
    ∀ (is : List Slot) (w : World σ), SameReplay w (is.foldl (World.fanoutTo data res) w)
  | [], w => refl w
  | i :: is, w => (fanoutTo data res w i).trans (foldl_fanoutTo data res is _)

end SameReplay

/-- The steps that may write the replay buffer, and the clock. -/
def Label.TouchesReplay : Label ρ → Prop
  | .insert _ => True
  | .drop => True
  | .onRx _ _ => True
  | .tick _ => True
  | _ => False

/-- Every other step leaves the replay buffer and takes no time. -/
theorem step_sameReplay (hw : (sinkSystem src).step w l = some w') (hl : ¬ l.TouchesReplay) :
    SameReplay w w' := by
  cases l with
  | accept fd =>
    obtain ⟨-, rfl⟩ := World.stepAccept_cases hw
    exact ⟨rfl, rfl⟩
  | gate =>
    obtain ⟨cs, -, ⟨-, rfl⟩ | rfl⟩ := World.stepGate_cases hw
    · exact ⟨rfl, rfl⟩
    · exact ⟨rfl, rfl⟩
  | insert res => exact absurd trivial hl
  | spawn ok =>
    obtain ⟨i, -, rfl⟩ := World.stepSpawn_cases hw
    cases ok
    · exact ⟨rfl, rfl⟩
    · exact ⟨rfl, rfl⟩
  | recv i chunk =>
    obtain ⟨-, -, r, -, rfl⟩ := World.stepRecv_cases hw
    exact ⟨rfl, rfl⟩
  | hangup i =>
    obtain ⟨-, rfl⟩ := World.stepHangup_cases hw
    exact ⟨rfl, rfl⟩
  | call i =>
    rcases World.stepCall_cases hw with ⟨-, rfl⟩ | ⟨c, todo, -, rfl⟩
    · exact ⟨rfl, rfl⟩
    · exact .callStep w i _ _
  | send i r =>
    obtain ⟨rest, stalls, acq, todo, -, v, pc, rfl, -, rfl | rfl⟩ := World.stepSend_cases hw
    · exact ⟨rfl, rfl⟩
    · exact SameReplay.shutdown (w.setLog i
        { w.log i with sent := (w.log i).sent ++ (tnSendStep rest stalls r).1 }) i
  | acquire i =>
    obtain ⟨todo, -, rfl⟩ := World.stepAcquire_cases hw
    refine ⟨?_, rfl⟩
    simp only [Sink.comportAcquire]
    split <;> rfl
  | snapshot i =>
    obtain ⟨sb, todo, -, rfl⟩ := World.stepSnapshot_cases hw
    exact ⟨rfl, rfl⟩
  | getLc i =>
    obtain ⟨ctrl, sb, todo, -, rfl⟩ := World.stepGetLc_cases hw
    exact ⟨rfl, rfl⟩
  | apply i r =>
    obtain ⟨ctrl, sb, lc, todo, -, ⟨-, rfl⟩ | ⟨new, a, -, -, rfl⟩⟩ := World.stepApply_cases hw
    · exact .replySubneg w i _ _ _
    · exact .replySubneg w i _ _ _
  | cleanup i =>
    obtain ⟨-, rfl⟩ := World.stepCleanup_cases hw
    exact ⟨SameReplay.cleanup w.sink i, rfl⟩
  | revert r =>
    obtain ⟨-, rfl⟩ := World.stepRevert_cases hw
    exact ⟨rfl, rfl⟩
  | drop => exact absurd trivial hl
  | onRx data res => exact absurd trivial hl
  | unplug =>
    obtain ⟨-, rfl⟩ := World.stepUnplug_cases hw
    exact ⟨rfl, rfl⟩
  | sourceDown =>
    obtain ⟨-, rfl⟩ := World.stepSourceDown_cases hw
    exact ⟨rfl, rfl⟩
  | replug =>
    obtain ⟨-, rfl⟩ := World.stepReplug_cases hw
    exact ⟨rfl, rfl⟩
  | tick us => exact absurd trivial hl

/-! ## Between the drop and the accept -/

/-- A block the source delivers, and whether somebody was there to fan it out to. -/
structure RxBlock where
  data : List UInt8
  fanned : Bool
  deriving DecidableEq, Repr

/-- The blocks a step delivers. -/
def World.rxBlocks (w : World σ) : Label ρ → List RxBlock
  | .onRx data _ => [⟨data, w.anyClient⟩]
  | _ => []

/-- The bytes of some blocks. -/
def rxBytes (bs : List RxBlock) : List UInt8 := bs.flatMap RxBlock.data

/-- The bytes that came in while no slot was active. -/
def capturedBytes (bs : List RxBlock) : List UInt8 :=
  (bs.filter fun b => !b.fanned).flatMap RxBlock.data

/-- The steps before the accept: no further drop, and no slot is filled. -/
def Waiting (w : World σ) : Label ρ → Prop
  | .drop => False
  | .insert _ => w.sink.findFreeSlot = none
  | _ => True

theorem waiting_iff (w : World σ) (l : Label ρ) : Waiting w l ↔
    ¬ (l matches .drop) ∧ ((l matches .insert _) → w.sink.findFreeSlot = none) := by
  cases l <;> simp [Waiting]

instance (w : World σ) : DecidablePred (Waiting (ρ := ρ) w) := fun l =>
  decidable_of_iff _ (waiting_iff w l).symm

/-- The window armed at `armed` holds the last captured bytes while it is open. -/
structure Armed (armed : Nat) (w : World σ) (bs : List RxBlock) : Prop where
  since : armed ≤ w.clock
  kept : w.clock ≤ armed + replayWindowUs →
    w.sink.replay = ⟨(capturedBytes bs).rtake replayBufSz, armed + replayWindowUs⟩

theorem capturedBytes_append (bs cs : List RxBlock) :
    capturedBytes (bs ++ cs) = capturedBytes bs ++ capturedBytes cs := by
  simp [capturedBytes]

theorem Armed.of_same {armed : Nat} {bs : List RxBlock} (h : Armed armed w bs)
    (hs : SameReplay w w') : Armed armed w' (bs ++ []) := by
  rw [List.append_nil]
  refine ⟨by rw [hs.2]; exact h.since, fun hopen => ?_⟩
  rw [hs.1]
  exact h.kept (by rw [← hs.2]; exact hopen)

theorem armed_onRx {armed : Nat} {bs : List RxBlock} {data : List UInt8}
    {res : Slot → Nat → SendResult} (h : Armed armed w bs) (hw : w.stepOnRx data res = some w') :
    Armed armed w' (bs ++ [⟨data, w.anyClient⟩]) := by
  rw [World.stepOnRx] at hw
  split at hw
  · next hempty =>
    -- an empty block is not looked at
    cases hw
    refine ⟨h.since, fun hopen => ?_⟩
    have hnone : capturedBytes [⟨data, w.anyClient⟩] = [] := by
      rw [hempty]
      cases w.anyClient <;> rfl
    rw [capturedBytes_append, hnone, List.append_nil]
    exact h.kept hopen
  · split at hw
    · next hclient =>
      -- fanned out, whether or not anybody takes it: nothing is kept
      cases hw
      have hsame := SameReplay.foldl_fanoutTo data res (List.finRange sinkTcpMaxClients) w
      have hnone : capturedBytes [⟨data, w.anyClient⟩] = [] := by simp [capturedBytes, hclient]
      refine ⟨by rw [hsame.2]; exact h.since, fun hopen => ?_⟩
      rw [capturedBytes_append, hnone, List.append_nil, hsame.1]
      exact h.kept (by rw [← hsame.2]; exact hopen)
    · next hclient =>
      -- nobody there: the window is armed and open, so the block is kept
      cases hw
      refine ⟨h.since, fun hopen => ?_⟩
      have hall : capturedBytes [⟨data, w.anyClient⟩] = data := by simp [capturedBytes, hclient]
      have huntil : armed + replayWindowUs ≠ 0 := by simp [replayWindowUs]
      have hexpired : ¬ w.clock > armed + replayWindowUs := Nat.not_lt.2 hopen
      rw [capturedBytes_append, hall, ← foldl_replayPush]
      simp only [h.kept hopen, replayCapture, if_neg huntil, if_neg hexpired]

theorem armed_step {armed : Nat} {bs : List RxBlock} (h : Armed armed w bs)
    (hok : Waiting w l) (hw : (sinkSystem src).step w l = some w') :
    Armed armed w' (bs ++ w.rxBlocks l) := by
  by_cases hl : l.TouchesReplay
  · cases l with
    | insert res =>
      -- no slot is free, so the connection is turned away
      obtain ⟨cs, -, rfl | ⟨k, hk, -⟩⟩ := World.stepInsert_cases hw
      · exact h.of_same ⟨rfl, rfl⟩
      · rw [show w.sink.findFreeSlot = none from hok] at hk
        cases hk
    | drop => exact hok.elim
    | onRx data res => exact armed_onRx h hw
    | tick us =>
      -- a window open now was open before
      cases hw
      simp only [World.rxBlocks, List.append_nil]
      exact ⟨Nat.le_add_right_of_le h.since,
        fun hopen => h.kept ((Nat.le_add_right _ us).trans hopen)⟩
    | _ => exact hl.elim
  · have hnone : w.rxBlocks l = [] := by
      cases l with
      | onRx data res => exact absurd trivial hl
      | _ => rfl
    rw [hnone]
    exact h.of_same (step_sameReplay hw hl)

/-! ## After the accept -/

/-- Inside the window the new client is sent the whole buffer. -/
theorem replayFlushTo_sent {r : Replay} {now : Nat} {res : Nat → SendResult}
    (harmed : r.untilUs ≠ 0) (hopen : now ≤ r.untilUs) (hres : (res 0).Complete r.buf.length) :
    (replayFlushTo r now res).1.sent = r.buf := by
  rw [replayFlushTo]
  by_cases hempty : r.buf = []
  · rw [if_pos (Or.inr hempty), hempty]
    rfl
  · rw [if_neg (by simp [harmed, hempty]), if_pos hopen]
    exact clientSend_raw_complete _ res hres

/-- The accept sends the new client what was captured. -/
theorem flush_sent {armed : Nat} {bs : List RxBlock} {res : Nat → SendResult}
    (h : Armed armed w bs) (hopen : w.clock ≤ armed + replayWindowUs)
    (hres : (res 0).Complete w.sink.replay.buf.length) :
    (replayFlushTo w.sink.replay w.clock res).1.sent =
      (capturedBytes bs).rtake replayBufSz := by
  have hbuf := h.kept hopen
  have huntil : w.sink.replay.untilUs = armed + replayWindowUs := by rw [hbuf]
  have hpos : 0 < replayWindowUs := by decide
  rw [replayFlushTo_sent (by omega) (by omega) hres, hbuf]

theorem insert_session {cs : Nat} {res : Nat → SendResult} (hw : w.stepInsert res = some w')
    (hacc : w.accept = .insert cs) (hk : w.sink.findFreeSlot = some k) :
    (w'.sink.clients k).active = true ∧ (w'.sink.clients k).telnet = false ∧
      (w'.log k).sent = (replayFlushTo w.sink.replay w.clock res).1.sent := by
  rw [World.stepInsert, hacc] at hw
  simp only [hk] at hw
  cases hw
  have hself := sendEffect_session_self (w.inserted k cs) k
    (replayFlushTo w.sink.replay w.clock res).1
    { ConnLog.start (w.connOf cs) with
      replayed := (replayFlushTo w.sink.replay w.clock res).1.sent }
  have htelnet := congrArg Session.telnet hself
  have hsent := congrArg (fun s => s.log.sent) hself
  refine ⟨?_, htelnet.trans ?_, hsent.trans ?_⟩
  · simp [World.sendEffect, World.inserted, Sink.acceptInsert]
  · simp [World.session, World.inserted, Sink.acceptInsert]
  · simp [ConnLog.start]

theorem startSend_sink (w : World σ) (i : Slot) (frame : List UInt8) (acq : Bool)
    (todo : List RxCall) : (w.startSend i frame acq todo).sink = w.sink := by
  simp only [World.startSend]
  split <;> rfl

theorem replySubneg_sink (w : World σ) (i : Slot) (sb : List UInt8) (lc : LineCoding)
    (todo : List RxCall) : (w.replySubneg i sb lc todo).sink = w.sink := by
  rw [World.replySubneg]
  split
  · rfl
  · exact startSend_sink w i _ _ _

/-- The socket of slot `k` gets nothing and the client commits to nothing new. -/
def Unsent (k : Slot) (w w' : World σ) : Prop :=
  (w'.sink.clients k).telnet = false →
    (w.sink.clients k).telnet = false ∧ (w'.log k).sent = (w.log k).sent

theorem Unsent.of_session (h : w'.session k = w.session k) : Unsent k w w' := by
  intro htel
  have htelnet : (w'.sink.clients k).telnet = (w.sink.clients k).telnet := congrArg Session.telnet h
  have hlog : w'.log k = w.log k := congrArg Session.log h
  exact ⟨htelnet ▸ htel, by rw [hlog]⟩

theorem Unsent.of_same (htel : (w'.sink.clients k).telnet = (w.sink.clients k).telnet)
    (hsent : (w'.log k).sent = (w.log k).sent) : Unsent k w w' :=
  fun hf => ⟨htel ▸ hf, hsent⟩

/-- A committed client stays committed. -/
theorem Unsent.of_committed (htel : (w.sink.clients k).telnet = true)
    (hs : (w'.sink.clients k).telnet = (w.sink.clients k).telnet) : Unsent k w w' := by
  intro hf
  rw [hs, htel] at hf
  cases hf

/-- A step of slot `j`'s task: only `j = k` needs an argument. -/
theorem Unsent.of_own (h : OwnSession w w' j) (hself : j = k → Unsent k w w') :
    Unsent k w w' := by
  by_cases hjk : j = k
  · exact hself hjk
  · exact .of_session (h.other k fun hkj => hjk hkj.symm)

theorem unsent_call (h : TelnetSession (w.session k)) (hw : w.stepCall k = some w') :
    Unsent k w w' := by
  rcases World.stepCall_cases hw with ⟨-, rfl⟩ | ⟨c, todo, ht, rfl⟩
  · exact .of_same rfl rfl
  · have hcommitted : ¬ (ClientPc.rx (c :: todo)).Uncommitted → (w.sink.clients k).telnet = true :=
      fun hpc => h.committed ht hpc
    cases c with
    | toSource data => exact .of_same rfl (by simp [World.callStep, World.setLog])
    | tnCommit =>
      intro hf
      simp [World.callStep, Sink.tnCommit] at hf
    | tnNegotiate cmd opt =>
      -- a reply goes out, but only a committed client gets here
      refine .of_committed (hcommitted fun hpc => ?_) ?_
      · rcases hpc with hraw | ⟨rest, hrest⟩
        · obtain ⟨data, hc⟩ := hraw _ List.mem_cons_self
          cases hc
        · cases hrest
      · cases hneg : negotiateReply cmd opt with
        | none => simp only [World.callStep, hneg]; rfl
        | some r => simp only [World.callStep, hneg, startSend_sink]
    | tnSubneg sb =>
      refine .of_same ?_ ?_
      · simp only [World.callStep]
        split <;> rfl
      · simp only [World.callStep]
        split <;> rfl

/-- No step but a fanout sends anything to a client that has not committed to telnet. -/
theorem step_unsent (h : TelnetSession (w.session k)) (hact : (w.sink.clients k).active = true)
    (hw : (sinkSystem src).step w l = some w') (hl : ∀ data res, l ≠ .onRx data res) :
    Unsent k w w' := by
  cases l with
  | accept fd =>
    obtain ⟨-, rfl⟩ := World.stepAccept_cases hw
    exact .of_session rfl
  | gate =>
    obtain ⟨cs, -, ⟨-, rfl⟩ | rfl⟩ := World.stepGate_cases hw
    · exact .of_session rfl
    · exact .of_session rfl
  | insert res =>
    obtain ⟨cs, -, rfl | ⟨j, hj, flush, log, v, -, rfl, rfl, rfl⟩⟩ := World.stepInsert_cases hw
    · exact .of_session rfl
    · -- the slot filled was free, and slot `k` is not
      have hkj : k ≠ j := by
        rintro rfl
        rw [Sink.findFreeSlot_some hj] at hact
        cases hact
      refine .of_session ((sendEffect_session_other (w.inserted j cs) _ _ hkj).trans ?_)
      simp [World.session, World.inserted, Sink.acceptInsert, hkj]
  | spawn ok =>
    obtain ⟨j, -, rfl⟩ := World.stepSpawn_cases hw
    cases ok
    · exact .of_session rfl
    · exact .of_same rfl rfl
  | recv j chunk =>
    obtain ⟨-, -, r, -, rfl⟩ := World.stepRecv_cases hw
    rcases eq_or_ne k j with rfl | hkj
    · exact .of_same (by simp) (by simp [World.setLog])
    · exact .of_same (by simp [hkj]) (by simp [World.setLog, World.setTask, hkj])
  | hangup j =>
    obtain ⟨-, rfl⟩ := World.stepHangup_cases hw
    exact .of_same rfl rfl
  | call j =>
    refine .of_own (OwnSession.stepCall hw) ?_
    rintro rfl
    exact unsent_call h hw
  | send j r =>
    refine .of_own (OwnSession.stepSend hw) ?_
    rintro rfl
    -- only a committed client's task is in `tn_send`
    obtain ⟨rest, stalls, acq, todo, ht, v, pc, rfl, -, rfl | rfl⟩ := World.stepSend_cases hw
    · exact .of_committed (h.committed ht fun hp => hp) rfl
    · exact .of_committed (h.committed ht fun hp => hp)
        (by simp only [World.setTask, shutdown_sink, World.setLog])
  | acquire j =>
    obtain ⟨todo, -, rfl⟩ := World.stepAcquire_cases hw
    refine .of_same ?_ rfl
    simp only [Sink.comportAcquire]
    split
    · rcases eq_or_ne k j with rfl | hkj
      · simp
      · simp [hkj]
    · rfl
  | snapshot j =>
    obtain ⟨sb, todo, -, rfl⟩ := World.stepSnapshot_cases hw
    exact .of_same rfl rfl
  | getLc j =>
    obtain ⟨ctrl, sb, todo, -, rfl⟩ := World.stepGetLc_cases hw
    exact .of_same rfl rfl
  | apply j r =>
    refine .of_own (OwnSession.stepApply hw) ?_
    rintro rfl
    obtain ⟨ctrl, sb, lc, todo, ht, ⟨-, rfl⟩ | ⟨new, a, -, -, rfl⟩⟩ := World.stepApply_cases hw
    · exact .of_committed (h.committed ht fun hp => hp) (by rw [replySubneg_sink])
    · exact .of_committed (h.committed ht fun hp => hp) (by simp only [replySubneg_sink])
  | cleanup j =>
    obtain ⟨-, rfl⟩ := World.stepCleanup_cases hw
    exact .of_same (Sink.cleanup_codec w.sink j k).2 rfl
  | revert r =>
    obtain ⟨-, rfl⟩ := World.stepRevert_cases hw
    exact .of_session rfl
  | drop =>
    cases hw
    exact .of_same rfl rfl
  | onRx data res => exact absurd rfl (hl data res)
  | unplug =>
    obtain ⟨-, rfl⟩ := World.stepUnplug_cases hw
    exact .of_session rfl
  | sourceDown =>
    obtain ⟨-, rfl⟩ := World.stepSourceDown_cases hw
    exact .of_same rfl rfl
  | replug =>
    obtain ⟨-, rfl⟩ := World.stepReplug_cases hw
    exact .of_session rfl
  | tick us =>
    cases hw
    exact .of_session rfl

/-- One slot's part of a fanout. -/
theorem fanoutTo_sent {data : List UInt8} {res : Slot → Nat → SendResult}
    (hres : (res k 0).Complete data.length) (hact : (w.sink.clients k).active = true)
    (hsock : (w.sink.clients k).sock ≠ none) (htel : (w.sink.clients k).telnet = false)
    (j : Slot) : ((World.fanoutTo data res w j).log k).sent =
      (w.log k).sent ++ (if j = k then data else []) := by
  rw [World.fanoutTo]
  rcases eq_or_ne j k with rfl | hjk
  · rw [if_pos ⟨hact, hsock⟩, if_pos rfl]
    refine (congrArg (fun s => s.log.sent) (sendEffect_session_self w j _ _)).trans ?_
    simp only [htel, clientSend_raw_complete data _ hres]
  · rw [if_neg hjk, List.append_nil]
    split
    · exact congrArg (fun s => s.log.sent) (sendEffect_session_other w _ _ hjk.symm)
    · rfl

theorem fanoutTo_telnet (data : List UInt8) (res : Slot → Nat → SendResult) (w : World σ)
    (j k : Slot) :
    ((World.fanoutTo data res w j).sink.clients k).telnet = (w.sink.clients k).telnet := by
  rw [World.fanoutTo]
  split
  · rfl
  · rfl

theorem foldl_fanoutTo_telnet (data : List UInt8) (res : Slot → Nat → SendResult) (k : Slot) :
    ∀ (is : List Slot) (w : World σ), ((is.foldl (World.fanoutTo data res) w).sink.clients
      k).telnet = (w.sink.clients k).telnet
  | [], _ => rfl
  | j :: is, w => (foldl_fanoutTo_telnet data res k is _).trans (fanoutTo_telnet data res w j k)

/-- A fanout reaches every slot once. -/
theorem foldl_fanoutTo_sent {data : List UInt8} {res : Slot → Nat → SendResult}
    (hres : (res k 0).Complete data.length) : ∀ (is : List Slot) {w : World σ}, is.Nodup →
      (w.sink.clients k).active = true → (w.sink.clients k).sock ≠ none →
      (w.sink.clients k).telnet = false →
      ((is.foldl (World.fanoutTo data res) w).log k).sent =
        (w.log k).sent ++ (if k ∈ is then data else [])
  | [], _, _, _, _, _ => by simp
  | j :: is, w, hnodup, hact, hsock, htel => by
    obtain ⟨hj, hrest⟩ := List.nodup_cons.1 hnodup
    have hsame := (World.fanoutTo_spec data res w j).1
    rw [List.foldl_cons, foldl_fanoutTo_sent hres is hrest (by rw [hsame.active]; exact hact)
      (by rw [hsame.sock]; exact hsock) (by rw [fanoutTo_telnet]; exact htel),
      fanoutTo_sent hres hact hsock htel, List.append_assoc]
    rcases eq_or_ne j k with rfl | hjk
    · simp [hj]
    · simp [hjk, hjk.symm]

/-- The steps after the accept into slot `k`: the fanouts to a raw client are complete,
and its task does not get to its cleanup. -/
def Serving (k : Slot) (w : World σ) : Label ρ → Prop
  | .cleanup i => i ≠ k
  | l => FanoutComplete k w l

/-- The slot whose cleanup section a step is. -/
def Label.cleans : Label ρ → Option Slot
  | .cleanup i => some i
  | _ => none

theorem serving_iff (k : Slot) (w : World σ) (l : Label ρ) :
    Serving k w l ↔ l.cleans ≠ some k ∧ FanoutComplete k w l := by
  cases l <;> simp [Serving, Label.cleans, FanoutComplete]

instance (k : Slot) (w : World σ) : DecidablePred (Serving (ρ := ρ) k w) := fun l =>
  decidable_of_iff _ (serving_iff k w l).symm

/-- As long as the client has not committed to telnet it has been sent `first` and then
every block. -/
structure Served (k : Slot) (first : List UInt8) (w : World σ) (bs : List RxBlock) : Prop where
  slots : SlotInv w
  session : TelnetSession (w.session k)
  active : (w.sink.clients k).active = true
  sent : (w.sink.clients k).telnet = false → (w.log k).sent = first ++ rxBytes bs

theorem served_step {first : List UInt8} {bs : List RxBlock} (h : Served k first w bs)
    (hsessions : ∀ i, TelnetSession (w.session i)) (hok : Serving k w l)
    (hw : (sinkSystem src).step w l = some w') : Served k first w' (bs ++ w.rxBlocks l) := by
  have hclean : l ≠ .cleanup k := by
    rintro rfl
    exact hok rfl
  refine ⟨h.slots.step hw, telnetSessions_step hsessions h.slots hw k,
    step_active hw h.active hclean, fun htel => ?_⟩
  by_cases hrx : ∃ data res, l = .onRx data res
  · -- slot `k` is active, so the block is fanned out, and to slot `k` once
    obtain ⟨data, res, rfl⟩ := hrx
    have hsock := (h.slots.active k).1 h.active
    have hany : w.anyClient = true := List.any_eq_true.2
      ⟨k, List.mem_finRange k, by simp [h.active, Option.isSome_iff_ne_none.2 hsock]⟩
    have hbytes : rxBytes (bs ++ w.rxBlocks (.onRx data res : Label ρ)) = rxBytes bs ++ data := by
      simp [rxBytes, World.rxBlocks]
    have hstep : w.stepOnRx data res = some w' := hw
    rw [World.stepOnRx] at hstep
    rw [hbytes]
    split at hstep
    · next hempty =>
      cases hstep
      rw [hempty, List.append_nil]
      exact h.sent htel
    · cases hstep
      rw [foldl_fanoutTo_telnet] at htel
      have hres : (res k 0).Complete data.length := hok htel
      rw [foldl_fanoutTo_sent hres _ (List.nodup_finRange _) h.active hsock htel,
        if_pos (List.mem_finRange k), h.sent htel, List.append_assoc]
  · have hnone : w.rxBlocks l = [] := by
      cases l with
      | onRx data res => exact absurd ⟨data, res, rfl⟩ hrx
      | _ => rfl
    obtain ⟨hold, hsent⟩ := step_unsent h.session h.active hw
      (fun data res hl => hrx ⟨data, res, hl⟩) htel
    rw [hnone, List.append_nil, hsent]
    exact h.sent hold

/-! ## A reboot drop -/

/-- A run with a reboot drop and the next connection: in `dropped` all clients are
dropped; up to `waiting` the blocks `before` come in; there the next connection is put
into slot `k` inside the window, with a complete send; up to `final`, where its client
has not committed to telnet, the blocks `after` come in. -/
structure RebootRun (src : LineSource σ ρ) (start dropped waiting final : World σ) (k : Slot)
    (before after : List RxBlock) : Prop where
  reaches : (sinkSystem src).Reaches (fun _ _ => True) start dropped
  wait : ∃ armed, (sinkSystem src).step dropped .drop = some armed ∧
    ((sinkSystem src).record World.rxBlocks).Reaches (fun p => Waiting p.1) (armed, [])
      (waiting, before)
  window : waiting.clock ≤ dropped.clock + replayWindowUs
  slot : waiting.sink.findFreeSlot = some k
  serve : ∃ res accepted, (res 0).Complete waiting.sink.replay.buf.length ∧
    (sinkSystem src).step waiting (.insert res) = some accepted ∧
    ((sinkSystem src).record World.rxBlocks).Reaches (fun p => Serving k p.1) (accepted, [])
      (final, after)
  raw : (final.sink.clients k).telnet = false

/-- The new client has been sent what came in after the drop and before the accept, cut
to the last bytes, and then every later block. -/
def Replayed (final : World σ) (k : Slot) (before after : List RxBlock) : Prop :=
  (final.log k).sent = (rxBytes before).rtake replayBufSz ++ rxBytes after

instance (final : World σ) (k : Slot) (before after : List RxBlock) :
    Decidable (Replayed final k before after) := by
  unfold Replayed
  infer_instance

section Reboot

variable {plug : PlugState} {bridge : Option σ} {dropped waiting final : World σ}
  {before after : List RxBlock}

/-- The new client has been sent what was captured, and then every later block. -/
theorem RebootRun.sent
    (h : RebootRun src (World.start plug bridge) dropped waiting final k before after) :
    (final.log k).sent = (capturedBytes before).rtake replayBufSz ++ rxBytes after := by
  obtain ⟨armed, hdrop, hwait⟩ := h.wait
  obtain ⟨res, accepted, hres, hinsert, hserve⟩ := h.serve
  -- up to the insertion: the buffer follows the blocks
  have harmed : Armed dropped.clock waiting before := by
    refine Machine.Reaches.invariant (I := fun p => Armed dropped.clock p.1 p.2) hwait ?_ ?_
    · cases hdrop
      refine ⟨le_rfl, fun _ => ?_⟩
      rw [show capturedBytes [] = [] from rfl, List.rtake_nil]
      rfl
    · rintro ⟨s, es⟩ l ⟨t, fs⟩ hs hok ht
      obtain ⟨hstep, rfl⟩ := Machine.record_step ht
      exact armed_step hs hok hstep
  -- the whole run, for the invariants of slots and sessions
  have hdropped := h.reaches.tail ⟨.drop, trivial, hdrop⟩
  have hwaiting := hdropped.trans
    ((Machine.Reaches.of_record (fun w l => Waiting w l) hwait).mono fun _ _ _ => trivial)
  have haccepted := hwaiting.tail ⟨.insert res, trivial, hinsert⟩
  have hslots := reaches_slotInv haccepted
  have hsessions := reaches_telnetSession haccepted
  obtain ⟨cs, hacc, -⟩ := World.stepInsert_cases hinsert
  obtain ⟨hact, -, hsent⟩ := insert_session hinsert hacc h.slot
  rw [flush_sent harmed h.window hres] at hsent
  -- from there on: the socket follows them
  have hserved : Served k ((capturedBytes before).rtake replayBufSz) final after ∧
      ∀ i, TelnetSession (final.session i) := by
    refine Machine.Reaches.invariant (I := fun p =>
      Served k ((capturedBytes before).rtake replayBufSz) p.1 p.2 ∧
        ∀ i, TelnetSession (p.1.session i)) hserve ?_ ?_
    · exact ⟨⟨hslots, hsessions k, hact, fun _ => by
        rw [hsent]
        exact (List.append_nil _).symm⟩, hsessions⟩
    · rintro ⟨s, es⟩ l ⟨t, fs⟩ ⟨hs, hsess⟩ hok ht
      obtain ⟨hstep, rfl⟩ := Machine.record_step ht
      exact ⟨served_step hs hsess hok hstep, telnetSessions_step hsess hs.slots hstep⟩
  exact hserved.1.sent h.raw

/-- **What a reboot drop loses.** In every run with a reboot drop, whenever the dropped
clients' tasks clean up: the new client is sent exactly the bytes the source delivered
between drop and accept, cut to the last ones, and then every later block, if and only
if the last bytes delivered before the accept are the last of those delivered while no
slot was active. -/
theorem replay_across_drop
    (h : RebootRun src (World.start plug bridge) dropped waiting final k before after) :
    Replayed final k before after ↔
      (rxBytes before).rtake replayBufSz = (capturedBytes before).rtake replayBufSz := by
  rw [Replayed, h.sent, List.append_cancel_right_eq, eq_comm]

/-- Nothing is lost if every block before the accept finds all slots free. -/
theorem RebootRun.replayed_of_idle
    (h : RebootRun src (World.start plug bridge) dropped waiting final k before after)
    (hidle : ∀ b ∈ before, b.fanned = false) : Replayed final k before after := by
  have hall : capturedBytes before = rxBytes before := by
    rw [capturedBytes, List.filter_eq_self.2 fun b hb => by rw [hidle b hb]; rfl, rxBytes]
  rw [Replayed, h.sent, hall]

end Reboot

/-! ## Two runs -/

/-- Replay of a run with a reboot drop: the steps up to the drop, from there to the
insertion, and from there on. -/
def rebootReplay (src : LineSource σ ρ) (start : World σ) (k : Slot)
    (upToDrop upToInsert : List (Label ρ)) (res : Nat → SendResult)
    (later : List (Label ρ)) : Option (World σ × World σ × World σ × List RxBlock × List RxBlock) :=
  ((sinkSystem src).runIf (fun _ _ => True) start upToDrop).bind fun dropped =>
  ((sinkSystem src).step dropped .drop).bind fun armed =>
  (((sinkSystem src).record World.rxBlocks).runIf (fun p => Waiting p.1) (armed, [])
    upToInsert).bind fun p =>
  ((sinkSystem src).step p.1 (.insert res)).bind fun accepted =>
  (((sinkSystem src).record World.rxBlocks).runIf (fun p => Serving k p.1) (accepted, [])
    later).bind fun q =>
  if p.1.clock ≤ dropped.clock + replayWindowUs ∧ p.1.sink.findFreeSlot = some k ∧
      (res 0).Complete p.1.sink.replay.buf.length ∧ (q.1.sink.clients k).telnet = false
  then some (dropped, p.1, q.1, p.2, q.2) else none

/-- A successful replay is such a run. -/
theorem rebootRun_of_replay {start : World σ} {upToDrop upToInsert later : List (Label ρ)}
    {res : Nat → SendResult} {dropped waiting final : World σ} {before after : List RxBlock}
    (h : rebootReplay src start k upToDrop upToInsert res later =
      some (dropped, waiting, final, before, after)) :
    RebootRun src start dropped waiting final k before after := by
  simp only [rebootReplay, Option.bind_eq_some_iff] at h
  obtain ⟨d, hd, armed, harmed, p, hp, accepted, haccepted, q, hq, hend⟩ := h
  split at hend
  · next hcond =>
    cases hend
    obtain ⟨hwindow, hslot, hres, hraw⟩ := hcond
    exact ⟨Machine.reaches_of_runIf _ hd, ⟨armed, harmed, Machine.reaches_of_runIf _ hp⟩, hwindow,
      hslot, ⟨res, accepted, hres, haccepted, Machine.reaches_of_runIf _ hq⟩, hraw⟩
  · cases hend

/-- A client on descriptor 3 that is dropped, and whose task cleans up. -/
def leaveSteps : List (Label Unit) := [.hangup 0, .cleanup 0]

/-- A connection up to its insertion. -/
def arriveSteps : List (Label Unit) := [.accept 3, .gate]

/-- The dropped client is gone when the radio speaks: all of it is replayed. -/
theorem replay_across_drop_idle : ∃ dropped waiting final, RebootRun shadowSource
    (World.start .up (some ⟨115200, 8, 0, 0⟩)) dropped waiting final 0
    [⟨[0x41], false⟩, ⟨[0x42], false⟩] [⟨[0x43], true⟩] ∧
    Replayed final 0 [⟨[0x41], false⟩, ⟨[0x42], false⟩] [⟨[0x43], true⟩] := by
  have hreplay : ((rebootReplay shadowSource (World.start .up (some ⟨115200, 8, 0, 0⟩)) 0
      [.accept 3, .gate, .insert fun _ => .eagain, .spawn true]
      [leaveSteps, [.onRx [0x41] fun _ _ => .eagain, .onRx [0x42] fun _ _ => .eagain,
        .tick 3000000], arriveSteps].flatten
      (fun _ => .accepted 2) [.spawn true, .onRx [0x43] fun _ _ => .accepted 1]).map
      fun r => r.2.2.2) =
      some ([⟨[0x41], false⟩, ⟨[0x42], false⟩], [⟨[0x43], true⟩]) := by
    decide +kernel
  obtain ⟨⟨dropped, waiting, final, before, after⟩, hrun, hblocks⟩ :=
    Option.map_eq_some_iff.1 hreplay
  cases hblocks
  have hreboot := rebootRun_of_replay hrun
  exact ⟨dropped, waiting, final, hreboot, (replay_across_drop hreboot).2 (by decide)⟩

/-- The radio speaks before the dropped client's task has cleaned up: the byte is fanned
out to the dead socket and kept for nobody. -/
theorem replay_across_drop_fails : ¬ ∀ (dropped waiting final : World LineCoding) (k : Slot)
    (before after : List RxBlock), RebootRun shadowSource
      (World.start .up (some ⟨115200, 8, 0, 0⟩)) dropped waiting final k before after →
    Replayed final k before after := by
  have hreplay : ((rebootReplay shadowSource (World.start .up (some ⟨115200, 8, 0, 0⟩)) 0
      [.accept 3, .gate, .insert fun _ => .eagain, .spawn true]
      [[.onRx [0x41] fun _ _ => .error], leaveSteps, arriveSteps].flatten
      (fun _ => .accepted 0) []).map
      fun r => ((r.2.2.1.log 0).sent, r.2.2.2)) = some ([], [⟨[0x41], true⟩], []) := by
    decide +kernel
  obtain ⟨⟨dropped, waiting, final, before, after⟩, hrun, hend⟩ :=
    Option.map_eq_some_iff.1 hreplay
  simp only [Prod.mk.injEq] at hend
  obtain ⟨hsent, rfl, rfl⟩ := hend
  intro hall
  have hreplayed := hall dropped waiting final 0 _ _ (rebootRun_of_replay hrun)
  rw [Replayed, hsent] at hreplayed
  exact absurd hreplayed (by decide)

end Cdc2Net.SinkTcp
