import Cdc2Net.SinkTcp.SlotInvariant
import Cdc2Net.SinkTcp.TelnetDecode

/-!
# Raw sessions

A connection whose first byte is not 0xFF stays byte-transparent for its whole
life, whatever the other tasks do (`raw_session_transparent`): the bytes passed
to the source are the bytes received, no control frame is ever sent, the client
never owns the line, and its socket gets the fanned-out bytes as they are.

What one slot's connection is about is its `Session`. Steps of other slots leave
it (`OwnSession`), and the steps of its own task keep `RawSession`.
-/

set_option autoImplicit false

namespace Cdc2Net.SinkTcp

open Cdc2Net.SinkTcp.Telnet
open Cdc2Net.Source
open Cdc2Net.Lib.Transition

universe u v

variable {σ : Type u} {ρ : Type v} {src : LineSource σ ρ} {w w' w'' : World σ} {i j : Slot}
  {l : Label ρ}

/-! ## The codec on raw streams -/

theorem processRx_raw {c : Codec} (hc : c.tstate = .raw) {chunk : List UInt8} (h : chunk ≠ []) :
    processRx c chunk = (c, [.toSource chunk]) := by
  cases chunk with
  | nil => exact absurd rfl h
  | cons b bs => rw [processRx, rxLoop, if_pos hc]; rfl

/-- The sniffed byte is read again by the raw fast path. -/
theorem processRx_sniff {c : Codec} (hc : c.tstate = .sniff) {b : UInt8} (hb : b ≠ tcIac)
    (bs : List UInt8) :
    processRx c (b :: bs) = ({ c with tstate := .raw }, [.toSource (b :: bs)]) := by
  rw [processRx, rxLoop, if_neg (by rw [hc]; simp), if_pos ⟨hc, hb⟩]
  rfl

/-! ## One slot's connection -/

/-- The connection of a slot: parse state and flags, task, and log. -/
structure Session where
  codec : Codec
  telnet : Bool
  isController : Bool
  task : Option ClientPc
  log : ConnLog

/-- The connection of slot `i`. -/
def World.session (w : World σ) (i : Slot) : Session :=
  ⟨(w.sink.clients i).codec, (w.sink.clients i).telnet, (w.sink.clients i).isController, w.task i,
    w.log i⟩

/-- A task that serves a raw connection: `process_rx` has only data to pass on. -/
def ClientPc.Raw : ClientPc → Prop
  | .recv => True
  | .rx todo => ∀ c ∈ todo, ∃ data, c = .toSource data
  | .cleanup => True
  | _ => False

/-- The bytes `process_rx` has still to pass on. -/
def pendingBytes : Option ClientPc → List UInt8
  | some (.rx todo) => todo.flatMap RxCall.sourceBytes
  | _ => []

/-- What holds of a connection that did not lead with 0xFF. -/
structure RawSession (s : Session) : Prop where
  sniff : s.log.received = [] → s.codec.tstate = .sniff
  raw : s.log.received ≠ [] → s.codec.tstate = .raw
  telnet : s.telnet = false
  isController : s.isController = false
  task : ∀ pc, s.task = some pc → pc.Raw
  toSource : s.log.toSource ++ pendingBytes s.task = s.log.received
  control : s.log.control = []
  sent : s.log.sent = s.log.replayed ++ s.log.fanned

/-- The connection so far does not lead with 0xFF. -/
def World.LeadsRaw (w : World σ) (i : Slot) : Prop := (w.log i).received.head? ≠ some tcIac

/-! ## Steps of one task leave the other connections -/

/-- The step changes no connection but that of slot `i`, and no received bytes. -/
structure OwnSession (w w' : World σ) (i : Slot) : Prop where
  other : ∀ j, j ≠ i → w'.session j = w.session j
  received : (w'.log i).received = (w.log i).received

namespace OwnSession

theorem trans (h : OwnSession w w' i) (h' : OwnSession w' w'' i) : OwnSession w w'' i :=
  ⟨fun j hj => (h'.other j hj).trans (h.other j hj), h'.received.trans h.received⟩

theorem of_eq (h : ∀ j, w'.session j = w.session j) : OwnSession w w' i :=
  ⟨fun j _ => h j, congrArg (fun s => s.log.received) (h i)⟩

theorem setTask (w : World σ) (i : Slot) (pc : ClientPc) : OwnSession w (w.setTask i pc) i :=
  ⟨fun j hj => by simp [World.session, World.setTask, hj], rfl⟩

theorem setLog (w : World σ) {i : Slot} {log : ConnLog}
    (h : log.received = (w.log i).received) : OwnSession w (w.setLog i log) i :=
  ⟨fun j hj => by simp [World.session, World.setLog, hj], by simpa [World.setLog] using h⟩

theorem setClient (w : World σ) {s : Sink} (h : ∀ j, j ≠ i → s.clients j = w.sink.clients j) :
    OwnSession w { w with sink := s } i :=
  ⟨fun j hj => by simp [World.session, h j hj], rfl⟩

theorem shutdown (w : World σ) (i : Slot) : OwnSession w (w.shutdown i) i := by
  refine of_eq fun j => ?_
  rw [World.shutdown]
  split <;> rfl

theorem startSend (w : World σ) (i : Slot) (frame : List UInt8) (acq : Bool)
    (todo : List RxCall) : OwnSession w (w.startSend i frame acq todo) i := by
  have hlog : OwnSession w
      (w.setLog i { w.log i with control := (w.log i).control ++ [frame] }) i := setLog w rfl
  simp only [World.startSend]
  split
  · exact hlog.trans (setTask _ i _)
  · exact hlog.trans (setTask _ i _)

theorem replySubneg (w : World σ) (i : Slot) (sb : List UInt8) (lc : LineCoding)
    (todo : List RxCall) : OwnSession w (w.replySubneg i sb lc todo) i := by
  rw [World.replySubneg]
  split
  · exact setTask w i _
  · exact startSend w i _ _ _

theorem callStep (w : World σ) (i : Slot) (todo : List RxCall) (c : RxCall) :
    OwnSession w (w.callStep i todo c) i := by
  cases c with
  | toSource data =>
    have hlog : OwnSession (w.setTask i (.rx todo)) ((w.setTask i (.rx todo)).setLog i
        { w.log i with toSource := (w.log i).toSource ++ data }) i := setLog _ rfl
    exact ((setTask w i _).trans hlog).trans (of_eq fun _ => rfl)
  | tnCommit => exact (setTask w i _).trans (setClient _ fun j hj => Sink.setClient_other _ _ hj)
  | tnNegotiate cmd opt =>
    cases hneg : negotiateReply cmd opt with
    | none =>
      simp only [World.callStep, hneg]
      exact setTask w i _
    | some r =>
      simp only [World.callStep, hneg]
      exact startSend w i _ _ _
  | tnSubneg sb =>
    by_cases hopt : sb.head? = some toptComport
    · simp only [World.callStep, if_pos hopt]
      exact setTask w i _
    · simp only [World.callStep, if_neg hopt]
      exact setTask w i _

theorem stepHangup (h : w.stepHangup i = some w') : OwnSession w w' i := by
  obtain ⟨-, rfl⟩ := World.stepHangup_cases h
  exact setTask w i _

theorem stepCall (h : w.stepCall i = some w') : OwnSession w w' i := by
  rcases World.stepCall_cases h with ⟨-, rfl⟩ | ⟨c, todo, -, rfl⟩
  · exact setTask w i _
  · exact callStep w i _ _

theorem stepSend {r : SendResult} (h : w.stepSend i r = some w') : OwnSession w w' i := by
  obtain ⟨rest, stalls, acq, todo, -, v, pc, rfl, -, hv⟩ := World.stepSend_cases h
  have hlog : OwnSession w
      (w.setLog i { w.log i with sent := (w.log i).sent ++ (tnSendStep rest stalls r).1 }) i :=
    setLog w rfl
  rcases hv with rfl | rfl
  · exact hlog.trans (setTask _ i _)
  · exact (hlog.trans (shutdown _ i)).trans (setTask _ i _)

theorem stepAcquire (h : w.stepAcquire i = some w') : OwnSession w w' i := by
  obtain ⟨todo, -, rfl⟩ := World.stepAcquire_cases h
  exact (setTask w i _).trans (setClient _ fun j hj => w.sink.comportAcquire_other hj)

theorem stepSnapshot (h : w.stepSnapshot i = some w') : OwnSession w w' i := by
  obtain ⟨sb, todo, -, rfl⟩ := World.stepSnapshot_cases h
  exact setTask w i _

theorem stepGetLc (h : World.stepGetLc src w i = some w') : OwnSession w w' i := by
  obtain ⟨ctrl, sb, todo, -, rfl⟩ := World.stepGetLc_cases h
  exact setTask w i _

theorem stepApply {r : ρ} (h : World.stepApply src w i r = some w') : OwnSession w w' i := by
  obtain ⟨ctrl, sb, lc, todo, -, ⟨-, rfl⟩ | ⟨new, a, -, -, rfl⟩⟩ := World.stepApply_cases h
  · exact replySubneg w i _ _ _
  · exact (replySubneg w i _ _ _).trans (of_eq fun _ => rfl)

theorem stepCleanup (h : w.stepCleanup i = some w') : OwnSession w w' i := by
  obtain ⟨-, rfl⟩ := World.stepCleanup_cases h
  refine ⟨fun j hj => ?_, rfl⟩
  simp [World.session, hj, Sink.cleanup_other w.sink hj]

end OwnSession

/-! ## A raw connection stays raw -/

/-- The invariant of slot `i`. -/
def RawInv (i : Slot) (w : World σ) : Prop := w.LeadsRaw i → RawSession (w.session i)

/-- The sends of a fanout to a raw client in slot `i` are complete. -/
def FanoutComplete (i : Slot) (w : World σ) : Label ρ → Prop
  | .onRx data res => (w.sink.clients i).telnet = false → (res i 0).Complete data.length
  | _ => True

instance (i : Slot) (w : World σ) : DecidablePred (FanoutComplete (ρ := ρ) i w) := fun l => by
  cases l <;> unfold FanoutComplete <;> infer_instance

theorem RawInv.of_session (h : RawInv i w) (hs : w'.session i = w.session i) : RawInv i w' := by
  intro hlead
  rw [hs]
  refine h ?_
  rw [World.LeadsRaw, show w.log i = w'.log i from (congrArg Session.log hs).symm]
  exact hlead

/-- A step of slot `j`'s task: only slot `j`'s connection needs an argument. -/
theorem RawInv.of_own (h : RawInv i w) (hown : OwnSession w w' j)
    (hself : j = i → RawSession (w.session i) → RawSession (w'.session i)) : RawInv i w' := by
  by_cases hji : j = i
  · intro hlead
    refine hself hji (h ?_)
    rw [World.LeadsRaw, ← hji, ← hown.received, hji]
    exact hlead
  · exact h.of_session (hown.other i fun he => hji he.symm)

/-- The task of a raw connection is never where only telnet clients get. -/
theorem RawSession.not_task {pc : ClientPc} (h : RawSession (w.session i)) (ht : w.task i = some pc)
    (hpc : ¬ pc.Raw) : False := hpc (h.task pc ht)

theorem rawSession_call (h : RawSession (w.session i)) (hw : w.stepCall i = some w') :
    RawSession (w'.session i) := by
  rcases World.stepCall_cases hw with ⟨ht, rfl⟩ | ⟨c, todo, ht, rfl⟩
  · have hsource := h.toSource
    simp only [World.session, ht, pendingBytes] at hsource
    refine ⟨h.sniff, h.raw, h.telnet, h.isController, ?_, ?_, h.control, h.sent⟩
    · -- `task`
      intro pc hpc
      obtain rfl : ClientPc.recv = pc := by simpa [World.session, World.setTask] using hpc
      trivial
    · -- `toSource`
      simpa [World.session, World.setTask, pendingBytes] using hsource
  · have hcalls : ∀ c' ∈ c :: todo, ∃ data, c' = RxCall.toSource data := h.task _ ht
    obtain ⟨data, rfl⟩ := hcalls c (by simp)
    have hsource := h.toSource
    simp only [World.session, ht, pendingBytes, List.flatMap_cons, RxCall.sourceBytes] at hsource
    refine ⟨?_, ?_, h.telnet, h.isController, ?_, ?_, ?_, ?_⟩
    · -- `sniff`
      simpa [World.session, World.callStep, World.setLog, World.setTask] using h.sniff
    · -- `raw`
      simpa [World.session, World.callStep, World.setLog, World.setTask] using h.raw
    · -- `task`
      intro pc hpc
      obtain rfl : ClientPc.rx todo = pc := by
        simpa [World.session, World.callStep, World.setLog, World.setTask] using hpc
      exact fun c' hc' => hcalls c' (by simp [hc'])
    · -- `toSource`
      simpa [World.session, World.callStep, World.setLog, World.setTask, pendingBytes] using hsource
    · -- `control`
      simpa [World.session, World.callStep, World.setLog, World.setTask] using h.control
    · -- `sent`
      simpa [World.session, World.callStep, World.setLog, World.setTask] using h.sent

theorem rawInv_recv {chunk : List UInt8} (h : RawInv i w) (hw : w.stepRecv j chunk = some w') :
    RawInv i w' := by
  obtain ⟨ht, hne, r, rfl, rfl⟩ := World.stepRecv_cases hw
  rcases eq_or_ne j i with rfl | hji
  · intro hlead
    have hlead' : ((w.log j).received ++ chunk).head? ≠ some tcIac := by
      simpa [World.LeadsRaw, World.setLog] using hlead
    have hold : w.LeadsRaw j := by
      intro hh
      refine hlead' ?_
      cases hr : (w.log j).received with
      | nil => simp [hr] at hh
      | cons b bs => simpa [hr] using hh
    have hraw := h hold
    -- both parse states a raw connection can be in pass the whole chunk on
    obtain ⟨c', hrx, hc'⟩ : ∃ c', processRx (w.sink.clients j).codec chunk =
        (c', [.toSource chunk]) ∧ c'.tstate = .raw := by
      by_cases hr : (w.log j).received = []
      · cases chunk with
        | nil => exact absurd rfl hne
        | cons b bs =>
          exact ⟨_, processRx_sniff (hraw.sniff hr) (by simpa [hr] using hlead') bs, rfl⟩
      · exact ⟨_, processRx_raw (hraw.raw hr) hne, hraw.raw hr⟩
    have hsource := hraw.toSource
    simp only [World.session, ht, pendingBytes, List.append_nil] at hsource
    refine ⟨?_, ?_, ?_, ?_, ?_, ?_, ?_, ?_⟩
    · -- `sniff`
      simp [World.session, World.setLog, hne]
    · -- `raw`
      simp [World.session, World.setLog, hrx, hc']
    · -- `telnet`
      simpa [World.session] using hraw.telnet
    · -- `isController`
      simpa [World.session] using hraw.isController
    · -- `task`
      intro pc hpc
      obtain rfl : ClientPc.rx [.toSource chunk] = pc := by
        simpa [World.session, World.setLog, World.setTask, hrx] using hpc
      exact fun c hc => ⟨chunk, by simpa using hc⟩
    · -- `toSource`
      simp [World.session, World.setLog, World.setTask, hrx, pendingBytes, RxCall.sourceBytes,
        hsource]
    · -- `control`
      simpa [World.session, World.setLog] using hraw.control
    · -- `sent`
      simpa [World.session, World.setLog] using hraw.sent
  · refine h.of_session ?_
    have hij : i ≠ j := fun he => hji he.symm
    simp [World.session, World.setLog, World.setTask, hij]

theorem sendEffect_session_self (w : World σ) (i : Slot) (e : SendEffect) (log : ConnLog) :
    (w.sendEffect i e log).session i =
      { w.session i with log := { log with sent := log.sent ++ e.sent } } := by
  rw [World.sendEffect]
  cases e.shutdown <;> simp [World.session, World.setLog]

theorem sendEffect_session_other (w : World σ) (e : SendEffect) (log : ConnLog) (h : j ≠ i) :
    (w.sendEffect i e log).session j = w.session j := by
  rw [World.sendEffect]
  cases e.shutdown <;> simp [World.session, World.setLog, h]

/-- A freshly inserted connection has sent the replayed block and nothing else. -/
theorem rawInv_insert {res : Nat → SendResult} (h : RawInv i w) (hs : SlotInv w)
    (hw : w.stepInsert res = some w') : RawInv i w' := by
  obtain ⟨cs, -, rfl | ⟨k, hk, flush, log, v, -, rfl, rfl, rfl⟩⟩ := World.stepInsert_cases hw
  · exact h.of_session rfl
  · have hfree := Sink.findFreeSlot_some hk
    have hidle : w.task k = none := by
      by_contra hn
      rw [hs.live k hn] at hfree
      cases hfree
    rcases eq_or_ne k i with rfl | hki
    · intro _
      have hself := sendEffect_session_self (w.inserted k cs) k flush.1
        { ConnLog.start (w.connOf cs) with replayed := flush.1.sent }
      refine Eq.mpr (congrArg RawSession hself) ?_
      have hclient : (w.inserted k cs).session k = ⟨.fresh, false, false, none, w.log k⟩ := by
        simp [World.session, World.inserted, Sink.acceptInsert, hidle]
      rw [hclient]
      exact ⟨fun _ => rfl, fun hr => absurd rfl hr, rfl, rfl, fun pc hpc => (by cases hpc), rfl,
        rfl, by simp [ConnLog.start]⟩
    · refine h.of_session ((sendEffect_session_other (w.inserted k cs) _ _ hki.symm).trans ?_)
      simp [World.session, World.inserted, Sink.acceptInsert, hki.symm]

theorem rawInv_spawn {ok : Bool} (h : RawInv i w) (hs : SlotInv w)
    (hw : w.stepSpawn ok = some w') : RawInv i w' := by
  obtain ⟨k, hacc, rfl⟩ := World.stepSpawn_cases hw
  cases ok with
  | false => exact h.of_session rfl
  | true =>
    refine h.of_own ((OwnSession.setTask w k .recv).trans (.of_eq fun _ => rfl)) ?_
    rintro rfl hraw
    have hsource := hraw.toSource
    simp only [World.session, (hs.spawn k hacc).2, pendingBytes] at hsource
    refine ⟨hraw.sniff, hraw.raw, hraw.telnet, hraw.isController, ?_, ?_, hraw.control,
      hraw.sent⟩
    · -- `task`
      intro pc hpc
      obtain rfl : ClientPc.recv = pc := by simpa [World.session, World.setTask] using hpc
      trivial
    · -- `toSource`
      simpa [World.session, World.setTask, pendingBytes] using hsource

theorem rawSession_hangup (h : RawSession (w.session i)) (hw : w.stepHangup i = some w') :
    RawSession (w'.session i) := by
  obtain ⟨ht, rfl⟩ := World.stepHangup_cases hw
  have hsource := h.toSource
  simp only [World.session, ht, pendingBytes] at hsource
  refine ⟨h.sniff, h.raw, h.telnet, h.isController, ?_, ?_, h.control, h.sent⟩
  · -- `task`
    intro pc hpc
    obtain rfl : ClientPc.cleanup = pc := by simpa [World.session, World.setTask] using hpc
    trivial
  · -- `toSource`
    simpa [World.session, World.setTask, pendingBytes] using hsource

theorem rawSession_cleanup (h : RawSession (w.session i)) (hw : w.stepCleanup i = some w') :
    RawSession (w'.session i) := by
  obtain ⟨ht, rfl⟩ := World.stepCleanup_cases hw
  have hsource := h.toSource
  simp only [World.session, ht, pendingBytes] at hsource
  have hflag : (w.sink.clients i).isController = false := h.isController
  obtain ⟨hcodec, htelnet⟩ := Sink.cleanup_codec w.sink i i
  refine ⟨?_, ?_, ?_, ?_, ?_, ?_, h.control, h.sent⟩
  · -- `sniff`
    simpa [World.session, hcodec] using h.sniff
  · -- `raw`
    simpa [World.session, hcodec] using h.raw
  · -- `telnet`
    simpa [World.session, htelnet] using h.telnet
  · -- `isController`
    exact Sink.cleanup_flag w.sink fun hf => by simp [hflag] at hf
  · -- `task`
    intro pc hpc
    simp [World.session] at hpc
  · -- `toSource`
    simpa [World.session, pendingBytes] using hsource

/-- One slot's part of a fanout keeps a raw connection raw. -/
theorem rawSession_fanoutTo {data : List UInt8} {res : Slot → Nat → SendResult}
    (h : RawSession (w.session i)) (hres : (res i 0).Complete data.length) (j : Slot) :
    RawSession ((World.fanoutTo data res w j).session i) := by
  rw [World.fanoutTo]
  split
  · rcases eq_or_ne i j with rfl | hij
    · rw [sendEffect_session_self]
      have htelnet : (w.sink.clients i).telnet = false := h.telnet
      have hsent := h.sent
      simp only [World.session] at hsent
      refine ⟨h.sniff, h.raw, h.telnet, h.isController, h.task, h.toSource, h.control, ?_⟩
      simp only [htelnet, clientSend_raw_complete data _ hres, hsent, List.append_assoc]
    · rw [sendEffect_session_other _ _ _ hij]
      exact h
  · exact h

theorem fanoutTo_received (data : List UInt8) (res : Slot → Nat → SendResult) (w : World σ)
    (i j : Slot) : ((World.fanoutTo data res w j).log i).received = (w.log i).received := by
  rw [World.fanoutTo]
  split
  · rcases eq_or_ne i j with rfl | hij
    · exact congrArg (fun s => s.log.received) (sendEffect_session_self w i _ _)
    · exact congrArg (fun s => s.log.received) (sendEffect_session_other w _ _ hij)
  · rfl

theorem rawInv_fanout {data : List UInt8} {res : Slot → Nat → SendResult} (is : List Slot)
    (h : RawInv i w) (hres : (w.sink.clients i).telnet = false → (res i 0).Complete data.length) :
    RawInv i (is.foldl (World.fanoutTo data res) w) := by
  have hreceived : ∀ (is : List Slot) (w : World σ),
      ((is.foldl (World.fanoutTo data res) w).log i).received = (w.log i).received := by
    intro is
    induction is with
    | nil => exact fun _ => rfl
    | cons j is ih => exact fun w => (ih _).trans (fanoutTo_received data res w i j)
  intro hlead
  have hraw : RawSession (w.session i) := h (by rw [World.LeadsRaw, ← hreceived is w]; exact hlead)
  have hcomplete := hres hraw.telnet
  clear h hres hlead
  induction is generalizing w with
  | nil => exact hraw
  | cons j is ih => exact ih (rawSession_fanoutTo hraw hcomplete j)

/-- Losing the ownership does not touch a connection that never had it. -/
theorem RawInv.of_dropCtrl (h : RawInv i w)
    (hs : w'.session i = { w.session i with isController := false }) : RawInv i w' := by
  intro hlead
  have hlog : w'.log i = w.log i := congrArg Session.log hs
  have hraw := h (by rw [World.LeadsRaw, ← hlog]; exact hlead)
  rw [hs]
  exact ⟨hraw.sniff, hraw.raw, hraw.telnet, rfl, hraw.task, hraw.toSource, hraw.control, hraw.sent⟩

theorem rawInv_step (h : RawInv i w) (hs : SlotInv w) (hok : FanoutComplete i w l)
    (hw : (sinkSystem src).step w l = some w') : RawInv i w' := by
  cases l with
  | accept fd =>
    obtain ⟨-, rfl⟩ := World.stepAccept_cases hw
    exact h.of_session rfl
  | gate =>
    obtain ⟨cs, -, ⟨-, rfl⟩ | rfl⟩ := World.stepGate_cases hw
    · exact h.of_session rfl
    · exact h.of_session rfl
  | insert res => exact rawInv_insert h hs hw
  | spawn ok => exact rawInv_spawn h hs hw
  | recv j chunk => exact rawInv_recv h hw
  | hangup j =>
    exact h.of_own (OwnSession.stepHangup hw) fun hji hraw => by
      subst hji
      exact rawSession_hangup hraw hw
  | call j =>
    exact h.of_own (OwnSession.stepCall hw) fun hji hraw => by
      subst hji
      exact rawSession_call hraw hw
  | send j r =>
    refine h.of_own (OwnSession.stepSend hw) ?_
    rintro rfl hraw
    obtain ⟨rest, stalls, acq, todo, ht, -⟩ := World.stepSend_cases hw
    exact (hraw.not_task ht fun hp => hp).elim
  | acquire j =>
    refine h.of_own (OwnSession.stepAcquire hw) ?_
    rintro rfl hraw
    obtain ⟨todo, ht, -⟩ := World.stepAcquire_cases hw
    exact (hraw.not_task ht fun hp => hp).elim
  | snapshot j =>
    refine h.of_own (OwnSession.stepSnapshot hw) ?_
    rintro rfl hraw
    obtain ⟨sb, todo, ht, -⟩ := World.stepSnapshot_cases hw
    exact (hraw.not_task ht fun hp => hp).elim
  | getLc j =>
    refine h.of_own (OwnSession.stepGetLc hw) ?_
    rintro rfl hraw
    obtain ⟨ctrl, sb, todo, ht, -⟩ := World.stepGetLc_cases hw
    exact (hraw.not_task ht fun hp => hp).elim
  | apply j r =>
    refine h.of_own (OwnSession.stepApply hw) ?_
    rintro rfl hraw
    obtain ⟨ctrl, sb, lc, todo, ht, -⟩ := World.stepApply_cases hw
    exact (hraw.not_task ht fun hp => hp).elim
  | cleanup j =>
    exact h.of_own (OwnSession.stepCleanup hw) fun hji hraw => by
      subst hji
      exact rawSession_cleanup hraw hw
  | revert r =>
    obtain ⟨-, rfl⟩ := World.stepRevert_cases hw
    exact h.of_session rfl
  | drop =>
    cases hw
    exact h.of_dropCtrl rfl
  | onRx data res =>
    rcases World.stepOnRx_cases hw with rfl | rfl | rfl
    · exact h
    · exact rawInv_fanout _ h hok
    · exact h.of_session rfl
  | unplug =>
    obtain ⟨-, rfl⟩ := World.stepUnplug_cases hw
    exact h.of_session rfl
  | sourceDown =>
    obtain ⟨-, rfl⟩ := World.stepSourceDown_cases hw
    exact h.of_dropCtrl rfl
  | replug =>
    obtain ⟨-, rfl⟩ := World.stepReplug_cases hw
    exact h.of_session rfl
  | tick us =>
    cases hw
    exact h.of_session rfl

theorem rawInv_start (plug : PlugState) (bridge : Option σ) (i : Slot) :
    RawInv i (World.start plug bridge) := fun _ =>
  ⟨fun _ => rfl, fun hr => absurd rfl hr, rfl, rfl, fun _ hpc => (by cases hpc), rfl, rfl, rfl⟩

/-- **Raw sessions are byte-transparent.** In every run in which the fanouts to a
raw client in slot `i` are complete, as long as the connection in slot `i` has not
led with 0xFF: what was passed to the source and what `process_rx` has still to
pass is what was received; no control frame was sent; the client is not the
controller and its telnet flag is off; and its socket was given the block
replayed at accept, if there was one, and then the fanned-out bytes. -/
theorem raw_session_transparent {plug : PlugState} {bridge : Option σ}
    (h : (sinkSystem src).Reaches (FanoutComplete i) (World.start plug bridge) w)
    (hraw : (w.log i).received.head? ≠ some 0xFF) :
    (w.log i).toSource ++ pendingBytes (w.task i) = (w.log i).received ∧
      (w.log i).control = [] ∧ w.sink.ctrlClient ≠ some i ∧
      (w.sink.clients i).isController = false ∧ (w.sink.clients i).telnet = false ∧
      (w.log i).sent = (w.log i).replayed ++ (w.log i).fanned := by
  obtain ⟨hs, hinv⟩ : SlotInv w ∧ RawInv i w := by
    refine Machine.Reaches.invariant (I := fun w => SlotInv w ∧ RawInv i w) h
      ⟨.start _ _, rawInv_start _ _ i⟩ ?_
    rintro s l t ⟨hs, hi⟩ hok ht
    exact ⟨hs.step ht, rawInv_step hi hs hok ht⟩
  have hsession := hinv hraw
  refine ⟨hsession.toSource, hsession.control, fun howner => ?_, hsession.isController,
    hsession.telnet, hsession.sent⟩
  have hflag : (w.sink.clients i).isController = false := hsession.isController
  rw [← hs.ctrl i, hflag] at howner
  cases howner

/-- A raw client that sends 0xFF inside its stream, with 0xFF fanned out to it. -/
theorem raw_session_transparent_iac : ∃ w, (sinkSystem shadowSource).Reaches (FanoutComplete 0)
    (World.start .up (some ⟨115200, 8, 0, 0⟩)) w ∧
    (w.log 0).toSource = [0x41, 0xFF, 0xFB] ∧ (w.log 0).sent = [0xFF, 0x42] := by
  obtain ⟨w, hw, hreceived, htask, hreplayed, hfanned⟩ := Machine.exists_reaches_of_runIf
    (sinkSystem shadowSource) (FanoutComplete 0)
    (fun w => (w.log 0).received = [0x41, 0xFF, 0xFB] ∧ w.task 0 = some .recv ∧
      (w.log 0).replayed = [] ∧ (w.log 0).fanned = [0xFF, 0x42])
    (World.start .up (some ⟨115200, 8, 0, 0⟩))
    [.accept 3, .gate, .insert fun _ => .eagain, .spawn true, .recv 0 [0x41], .call 0,
      .onRx [0xFF] fun _ _ => .accepted 1, .call 0, .recv 0 [0xFF, 0xFB], .call 0,
      .onRx [0x42] fun _ _ => .accepted 1, .call 0] (by decide +kernel)
  obtain ⟨hsource, -, -, -, -, hsent⟩ :=
    raw_session_transparent hw (by rw [hreceived]; decide)
  refine ⟨w, hw, ?_, ?_⟩
  · simpa [htask, pendingBytes, hreceived] using hsource
  · simpa [hreplayed, hfanned] using hsent

end Cdc2Net.SinkTcp
