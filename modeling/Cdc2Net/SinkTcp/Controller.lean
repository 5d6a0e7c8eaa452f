import Cdc2Net.SinkTcp.Descriptors
import Cdc2Net.SinkTcp.RawSession
import Cdc2Net.SinkTcp.Ownership

/-!
# Who the controller is

`S.ctrl_client` and the `is_controller` flags are two copies of one fact, kept by
`comport_acquire`, the cleanup section, the slot reset of `accept_task` and the two
drops. They agree in every reachable state, and the controlling slot holds the very
connection that negotiated COM-PORT and acquired (`controller_bookkeeping`).

That the owner's connection has negotiated is an invariant of its session
(`TelnetSession`): what `process_rx` has still to do comes from the bytes received on
this connection, and only a committed telnet client gets to a negotiation.
-/

set_option autoImplicit false

namespace Cdc2Net.SinkTcp

open Cdc2Net.SinkTcp.Telnet
open Cdc2Net.Source
open Cdc2Net.Lib.Transition

universe u v

variable {σ : Type u} {ρ : Type v} {src : LineSource σ ρ} {w w' : World σ} {i j : Slot}
  {l : Label ρ}

/-! ## The session of a telnet client -/

/-- The peer has offered or asked for COM-PORT in the bytes received. -/
def Negotiated (received : List UInt8) : Prop :=
  ∃ cmd, (cmd = tcWill ∨ cmd = tcDo) ∧
    .negotiate cmd toptComport ∈ (decode .fresh received).2

/-- What `process_rx` has still to call for the present chunk. -/
def ClientPc.todo : ClientPc → List RxCall
  | .recv => []
  | .rx todo => todo
  | .tnSend _ _ _ todo => todo
  | .acquire todo => todo
  | .snapshot _ todo => todo
  | .getLc _ _ todo => todo
  | .apply _ _ _ todo => todo
  | .cleanup => []

/-- The task is on its way to `comport_acquire`. -/
def ClientPc.Acquires : ClientPc → Prop
  | .tnSend _ _ acq _ => acq = true
  | .acquire _ => True
  | _ => False

/-- A task of a client that has not committed to telnet: it passes raw data on, or is
about to commit. -/
def ClientPc.Uncommitted : ClientPc → Prop
  | .recv => True
  | .rx todo => (∀ c ∈ todo, ∃ data, c = .toSource data) ∨ ∃ rest, todo = .tnCommit :: rest
  | .cleanup => True
  | _ => False

/-- What holds of every connection. -/
structure TelnetSession (s : Session) : Prop where
  codec : s.codec = (decode .fresh s.log.received).1
  todo : ∀ pc, s.task = some pc → ∀ o ∈ pc.todo.flatMap RxCall.obs,
    o ∈ (decode .fresh s.log.received).2
  uncommitted : s.telnet = false → ∀ pc, s.task = some pc → pc.Uncommitted
  unlocked : s.telnet = false → s.codec.tstate = .sniff ∨ s.codec.tstate = .raw ∨
    ∃ rest, s.task = some (.rx (.tnCommit :: rest))
  acquires : ∀ pc, s.task = some pc → pc.Acquires → Negotiated s.log.received
  controller : s.isController = true → s.telnet = true ∧ Negotiated s.log.received

/-- More received bytes keep what was observed. -/
theorem mem_decode_append {o : Obs} {received : List UInt8} (chunk : List UInt8)
    (h : o ∈ (decode .fresh received).2) : o ∈ (decode .fresh (received ++ chunk)).2 := by
  rw [decode_append]
  exact List.mem_append_left _ h

theorem Negotiated.append {received : List UInt8} (h : Negotiated received)
    (chunk : List UInt8) : Negotiated (received ++ chunk) := by
  obtain ⟨cmd, hcmd, hmem⟩ := h
  exact ⟨cmd, hcmd, mem_decode_append chunk hmem⟩

/-- A chunk that leads with IAC commits first. -/
theorem processRx_commit {c : Codec} (hc : c.tstate = .sniff) (bs : List UInt8) :
    ∃ rest, (processRx c (tcIac :: bs)).2 = .tnCommit :: rest := by
  rw [processRx, rxLoop, if_neg (by rw [hc]; simp), if_neg (by simp)]
  exact ⟨(rxLoop (rxByte ⟨c, []⟩ tcIac).1 bs).2, by simp [rxByte, hc]⟩

namespace TelnetSession

variable {s s' : Session} (h : TelnetSession s)
include h

/-- Only the record of what was sent changes. -/
theorem of_log (hs : s' = { s with log := s'.log }) (hr : s'.log.received = s.log.received) :
    TelnetSession s' := by
  obtain ⟨codec, telnet, isController, task, log⟩ := s'
  cases hs
  simp only at hr
  refine ⟨?_, ?_, h.uncommitted, h.unlocked, ?_, ?_⟩
  · simpa only [hr] using h.codec
  · simpa only [hr] using h.todo
  · simpa only [hr] using h.acquires
  · simpa only [hr] using h.controller

/-- The task of a committed client moves on. -/
theorem moved {pc pc' : ClientPc} {log : ConnLog} (ht : s.task = some pc)
    (hr : log.received = s.log.received) (htodo : ∀ c ∈ pc'.todo, c ∈ pc.todo)
    (hunc : s.telnet = false → pc'.Uncommitted)
    (hlock : s.telnet = false → s.codec.tstate = .sniff ∨ s.codec.tstate = .raw)
    (hacq : pc'.Acquires → Negotiated s.log.received) :
    TelnetSession { s with task := some pc', log := log } := by
  refine ⟨by simpa only [hr] using h.codec, ?_, ?_, ?_, ?_, ?_⟩
  · -- `todo`
    rintro pc'' hpc o ho
    cases hpc
    obtain ⟨c, hc, hoc⟩ := List.mem_flatMap.1 ho
    rw [hr]
    exact h.todo pc ht o (List.mem_flatMap.2 ⟨c, htodo c hc, hoc⟩)
  · -- `uncommitted`
    rintro htel pc'' hpc
    cases hpc
    exact hunc htel
  · -- `unlocked`
    exact fun htel => (hlock htel).imp_right Or.inl
  · -- `acquires`
    rintro pc'' hpc
    cases hpc
    rw [hr]
    exact hacq
  · simpa only [hr] using h.controller

/-- A task where only committed clients get. -/
theorem committed {pc : ClientPc} (ht : s.task = some pc) (hpc : ¬ pc.Uncommitted) :
    s.telnet = true := by
  by_contra hf
  exact hpc (h.uncommitted (by simpa using hf) pc ht)

/-- A client that has not committed and is not about to is sniffing or raw. -/
theorem locked {pc : ClientPc} (ht : s.task = some pc)
    (hpc : ∀ rest, pc ≠ .rx (.tnCommit :: rest)) (htel : s.telnet = false) :
    s.codec.tstate = .sniff ∨ s.codec.tstate = .raw := by
  rcases h.unlocked htel with hs | hs | ⟨rest, hs⟩
  · exact Or.inl hs
  · exact Or.inr hs
  · rw [ht] at hs
    exact absurd (Option.some.inj hs) (hpc rest)

end TelnetSession

/-! ## The steps of a task -/

theorem afterSend_todo (acq : Bool) (todo : List RxCall) :
    (World.afterSend acq todo).todo = todo := by
  cases acq <;> rfl

theorem afterSend_acquires {acq : Bool} {todo : List RxCall}
    (h : (World.afterSend acq todo).Acquires) : acq = true := by
  cases acq
  · exact h.elim
  · rfl

theorem setTask_session (w : World σ) (i : Slot) (pc : ClientPc) : (w.setTask i pc).session i =
    { w.session i with task := some pc, log := w.log i } := by
  simp [World.session, World.setTask]

theorem shutdown_sink (w : World σ) (i : Slot) : (w.shutdown i).sink = w.sink := by
  rw [World.shutdown]
  split <;> rfl

/-- Entering `tn_send`. -/
theorem startSend_session (w : World σ) (i : Slot) (frame : List UInt8) (acq : Bool)
    (todo : List RxCall) : ∃ pc log, (w.startSend i frame acq todo).session i =
      { w.session i with task := some pc, log := log } ∧ log.received = (w.log i).received ∧
      (pc = World.afterSend acq todo ∨ pc = .tnSend frame 0 acq todo) := by
  simp only [World.startSend]
  split
  · exact ⟨_, { w.log i with control := (w.log i).control ++ [frame] },
      by simp [World.session, World.setTask, World.setLog], rfl, Or.inl rfl⟩
  · exact ⟨_, { w.log i with control := (w.log i).control ++ [frame] },
      by simp [World.session, World.setTask, World.setLog], rfl, Or.inr rfl⟩

variable (h : TelnetSession (w.session i))
include h

/-- A committed client's task moves on. -/
theorem telnetSession_moved {pc pc' : ClientPc} (ht : w.task i = some pc)
    (htel : (w.sink.clients i).telnet = true) {log : ConnLog}
    (hs : w'.session i = { w.session i with task := some pc', log := log })
    (hr : log.received = (w.log i).received) (htodo : ∀ c ∈ pc'.todo, c ∈ pc.todo)
    (hacq : pc'.Acquires → Negotiated (w.log i).received) : TelnetSession (w'.session i) := by
  have hfalse : ¬ (w.session i).telnet = false := by simp [World.session, htel]
  rw [hs]
  exact h.moved ht hr htodo (fun hf => absurd hf hfalse) (fun hf => absurd hf hfalse) hacq

/-- Entering `tn_send` for a reply. -/
theorem telnetSession_startSend {pc : ClientPc} {frame : List UInt8} {acq : Bool}
    {todo : List RxCall} (ht : w.task i = some pc) (htel : (w.sink.clients i).telnet = true)
    (htodo : ∀ c ∈ todo, c ∈ pc.todo) (hacq : acq = true → Negotiated (w.log i).received) :
    TelnetSession ((w.startSend i frame acq todo).session i) := by
  obtain ⟨pc', log, hs, hr, rfl | rfl⟩ := startSend_session w i frame acq todo
  · exact telnetSession_moved h ht htel hs hr (by rw [afterSend_todo]; exact htodo)
      fun ha => hacq (afterSend_acquires ha)
  · exact telnetSession_moved h ht htel hs hr htodo hacq

theorem telnetSession_replySubneg {pc : ClientPc} {sb : List UInt8} {lc : LineCoding}
    {todo : List RxCall} (ht : w.task i = some pc) (htel : (w.sink.clients i).telnet = true)
    (htodo : ∀ c ∈ todo, c ∈ pc.todo) :
    TelnetSession ((w.replySubneg i sb lc todo).session i) := by
  rw [World.replySubneg]
  split
  · exact telnetSession_moved h ht htel (setTask_session w i (.rx todo)) rfl htodo
      fun ha => ha.elim
  · exact telnetSession_startSend h ht htel htodo fun ha => by cases ha

theorem telnetSession_call (hw : w.stepCall i = some w') : TelnetSession (w'.session i) := by
  rcases World.stepCall_cases hw with ⟨ht, rfl⟩ | ⟨c, todo, ht, rfl⟩
  · rw [setTask_session]
    exact h.moved ht rfl (fun c hc => by cases hc) (fun _ => trivial)
      (h.locked ht fun rest hpc => by cases hpc) fun ha => ha.elim
  · have htodo : ∀ c' ∈ (ClientPc.rx todo).todo, c' ∈ (ClientPc.rx (c :: todo)).todo :=
      fun c' hc' => List.mem_cons_of_mem c hc'
    -- a call other than data and commit belongs to a committed client
    have hcommitted : (∀ data, c ≠ .toSource data) → c ≠ .tnCommit →
        (w.sink.clients i).telnet = true := by
      intro hdata hcommit
      refine h.committed ht ?_
      rintro (hraw | ⟨rest, hrest⟩)
      · obtain ⟨data, hc⟩ := hraw c List.mem_cons_self
        exact hdata data hc
      · exact hcommit (List.cons.inj hrest).1
    cases c with
    | toSource data =>
      have hs : (w.callStep i todo (.toSource data)).session i = { w.session i with
          task := some (.rx todo)
          log := { w.log i with toSource := (w.log i).toSource ++ data } } := by
        simp [World.session, World.callStep, World.setLog, World.setTask]
      rw [hs]
      refine h.moved ht rfl htodo (fun htel => ?_) (h.locked ht fun rest hpc => by cases hpc)
        fun ha => ha.elim
      -- raw data is followed by raw data only
      rcases h.uncommitted htel _ ht with hraw | ⟨rest, hrest⟩
      · exact Or.inl fun c' hc' => hraw c' (List.mem_cons_of_mem _ hc')
      · cases hrest
    | tnCommit =>
      have hs : (w.callStep i todo .tnCommit).session i = { w.session i with
          telnet := true, task := some (.rx todo) } := by
        simp [World.session, World.callStep, World.setTask, Sink.tnCommit]
      rw [hs]
      refine ⟨h.codec, ?_, fun hf => (by cases hf), fun hf => (by cases hf), ?_,
        fun hc => ⟨rfl, (h.controller hc).2⟩⟩
      · -- `todo`
        rintro pc hpc o ho
        cases hpc
        exact h.todo _ ht o (by simpa [ClientPc.todo, RxCall.obs] using ho)
      · -- `acquires`
        rintro pc hpc ha
        cases hpc
        exact ha.elim
    | tnNegotiate cmd opt =>
      have htel := hcommitted (by simp) (by simp)
      cases hneg : negotiateReply cmd opt with
      | none =>
        simp only [World.callStep, hneg]
        exact telnetSession_moved h ht htel (setTask_session w i (.rx todo)) rfl htodo
          fun ha => ha.elim
      | some r =>
        simp only [World.callStep, hneg]
        refine telnetSession_startSend h ht htel htodo fun hopt => ?_
        -- only an offer or a request is answered
        obtain rfl : opt = toptComport := by simpa using hopt
        refine ⟨cmd, ?_, h.todo _ ht _ (by simp [ClientPc.todo, RxCall.obs])⟩
        simp only [negotiateReply, true_or, if_true] at hneg
        split at hneg
        · next hwill => exact Or.inl hwill
        · split at hneg
          · next hdo => exact Or.inr hdo
          · cases hneg
    | tnSubneg sb =>
      have htel := hcommitted (by simp) (by simp)
      by_cases hopt : sb.head? = some toptComport
      · simp only [World.callStep, if_pos hopt]
        exact telnetSession_moved h ht htel (setTask_session w i (.snapshot sb todo)) rfl htodo
          fun ha => ha.elim
      · simp only [World.callStep, if_neg hopt]
        exact telnetSession_moved h ht htel (setTask_session w i (.rx todo)) rfl htodo
          fun ha => ha.elim

theorem telnetSession_recv {chunk : List UInt8} (hw : w.stepRecv i chunk = some w') :
    TelnetSession (w'.session i) := by
  obtain ⟨ht, hne, r, rfl, rfl⟩ := World.stepRecv_cases hw
  have hcodec : (w.sink.clients i).codec = (decode .fresh (w.log i).received).1 := h.codec
  obtain ⟨hstate, hobs⟩ := processRx_decode (w.sink.clients i).codec chunk
  have hdecode := decode_append .fresh (w.log i).received chunk
  rw [← hcodec] at hdecode
  -- a client that has not committed sniffs the first byte or is locked raw
  have hcalls : (w.sink.clients i).telnet = false →
      ((processRx (w.sink.clients i).codec chunk).1.tstate = .raw ∧
        (processRx (w.sink.clients i).codec chunk).2 = [.toSource chunk]) ∨
      ∃ rest, (processRx (w.sink.clients i).codec chunk).2 = .tnCommit :: rest := by
    intro htel
    have hlock : (w.sink.clients i).codec.tstate = .sniff ∨
        (w.sink.clients i).codec.tstate = .raw := h.locked ht (fun rest hpc => by cases hpc) htel
    rcases hlock with hs | hs
    · cases chunk with
      | nil => exact absurd rfl hne
      | cons b bs =>
        rcases eq_or_ne b tcIac with rfl | hb
        · exact Or.inr (processRx_commit hs bs)
        · exact Or.inl (by rw [processRx_sniff hs hb]; exact ⟨rfl, rfl⟩)
    · exact Or.inl (by rw [processRx_raw hs hne]; exact ⟨hs, rfl⟩)
  have hs : ({ (w.setTask i (.rx (processRx (w.sink.clients i).codec chunk).2)).setLog i
      { w.log i with received := (w.log i).received ++ chunk } with
      sink := w.sink.setClient i { w.sink.clients i with
        codec := (processRx (w.sink.clients i).codec chunk).1 } } : World σ).session i =
      { w.session i with
        codec := (processRx (w.sink.clients i).codec chunk).1
        task := some (.rx (processRx (w.sink.clients i).codec chunk).2)
        log := { w.log i with received := (w.log i).received ++ chunk } } := by
    simp [World.session, World.setLog, World.setTask]
  rw [hs]
  refine ⟨?_, ?_, ?_, ?_, ?_, ?_⟩
  · -- `codec`
    simp only [hdecode, hstate]
  · -- `todo`
    rintro pc hpc o ho
    cases hpc
    simp only [ClientPc.todo, hobs] at ho
    simp only [hdecode]
    exact List.mem_append_right _ ho
  · -- `uncommitted`
    rintro htel pc hpc
    cases hpc
    rcases hcalls htel with ⟨-, hraw⟩ | hcommit
    · exact Or.inl fun c hc => ⟨chunk, by rw [hraw] at hc; exact List.mem_singleton.1 hc⟩
    · exact Or.inr hcommit
  · -- `unlocked`
    intro htel
    rcases hcalls htel with ⟨hraw, -⟩ | ⟨rest, hrest⟩
    · exact Or.inr (Or.inl hraw)
    · exact Or.inr (Or.inr ⟨rest, by rw [hrest]⟩)
  · -- `acquires`
    rintro pc hpc ha
    cases hpc
    exact ha.elim
  · -- `controller`
    exact fun hc => ⟨(h.controller hc).1, (h.controller hc).2.append chunk⟩

theorem telnetSession_send {r : SendResult} (hw : w.stepSend i r = some w') :
    TelnetSession (w'.session i) := by
  obtain ⟨rest, stalls, acq, todo, ht, v, pc, rfl, hpc, hv⟩ := World.stepSend_cases hw
  have htel : (w.sink.clients i).telnet = true := h.committed ht fun hp => hp
  have hacq : acq = true → Negotiated (w.log i).received := fun ha => h.acquires _ ht ha
  have hs : w'.session i = { w.session i with
      task := some pc
      log := { w.log i with sent := (w.log i).sent ++ (tnSendStep rest stalls r).1 } } := by
    rcases hv with rfl | rfl
    · simp [World.session, World.setLog, World.setTask]
    · simp [World.session, World.setLog, World.setTask, shutdown_sink]
  rcases hpc with rfl | ⟨rest', stalls', rfl⟩
  · exact telnetSession_moved h ht htel hs rfl (by rw [afterSend_todo]; exact fun c hc => hc)
      fun ha => hacq (afterSend_acquires ha)
  · exact telnetSession_moved h ht htel hs rfl (fun c hc => hc) hacq

theorem telnetSession_acquire (hw : w.stepAcquire i = some w') :
    TelnetSession (w'.session i) := by
  obtain ⟨todo, ht, rfl⟩ := World.stepAcquire_cases hw
  have htel : (w.sink.clients i).telnet = true := h.committed ht fun hp => hp
  have hneg : Negotiated (w.log i).received := h.acquires _ ht trivial
  have hmoved := telnetSession_moved h ht htel (setTask_session w i (.rx todo)) rfl
    (fun c hc => hc) fun ha => ha.elim
  have hs : ({ w.setTask i (.rx todo) with sink := w.sink.comportAcquire i } : World σ).session i =
      { (w.setTask i (.rx todo)).session i with
        isController := ((w.sink.comportAcquire i).clients i).isController } := by
    simp only [World.session, World.setTask, Sink.comportAcquire]
    split <;> simp
  rw [hs]
  exact ⟨hmoved.codec, hmoved.todo, hmoved.uncommitted, hmoved.unlocked, hmoved.acquires,
    fun _ => ⟨htel, hneg⟩⟩

theorem telnetSession_apply {r : ρ} (hw : World.stepApply src w i r = some w') :
    TelnetSession (w'.session i) := by
  obtain ⟨ctrl, sb, lc, todo, ht, ⟨-, rfl⟩ | ⟨new, a, -, -, rfl⟩⟩ := World.stepApply_cases hw
  · exact telnetSession_replySubneg h ht (h.committed ht fun hp => hp) fun c hc => hc
  · exact telnetSession_replySubneg h ht (h.committed ht fun hp => hp) fun c hc => hc

theorem telnetSession_cleanup (hs : SlotInv w) (hw : w.stepCleanup i = some w') :
    TelnetSession (w'.session i) := by
  obtain ⟨ht, rfl⟩ := World.stepCleanup_cases hw
  obtain ⟨hcodec, htelnet⟩ := Sink.cleanup_codec w.sink i i
  have hflag : ((w.sink.cleanup i).clients i).isController = false :=
    Sink.cleanup_flag w.sink (hs.ctrl i).1
  have hlock := h.locked ht fun rest hpc => by cases hpc
  refine ⟨?_, ?_, ?_, ?_, ?_, ?_⟩
  · simpa [World.session, hcodec] using h.codec
  · exact fun pc hpc => by simp [World.session] at hpc
  · exact fun _ pc hpc => by simp [World.session] at hpc
  · intro htel
    simp only [World.session, htelnet] at htel
    simpa [World.session, hcodec] using hlock htel
  · exact fun pc hpc => by simp [World.session] at hpc
  · intro hc
    simp [World.session, hflag] at hc

omit h

/-! ## Every step keeps the sessions -/

/-- A step of slot `j`'s task: only slot `j`'s session needs an argument. -/
theorem telnetSessions_of_own (h : ∀ i, TelnetSession (w.session i))
    (hown : ∀ i, i ≠ j → w'.session i = w.session i) (hself : TelnetSession (w'.session j)) :
    ∀ i, TelnetSession (w'.session i) := by
  intro i
  rcases eq_or_ne i j with rfl | hij
  · exact hself
  · rw [hown i hij]
    exact h i

theorem telnetSession_fresh (log : ConnLog) (hr : log.received = []) :
    TelnetSession ⟨.fresh, false, false, none, log⟩ where
  codec := by rw [hr]; rfl
  todo pc hpc := by cases hpc
  uncommitted _ pc hpc := by cases hpc
  unlocked _ := Or.inl rfl
  acquires pc hpc := by cases hpc
  controller hc := by cases hc

theorem telnetSessions_insert {res : Nat → SendResult} (h : ∀ i, TelnetSession (w.session i))
    (hs : SlotInv w) (hw : w.stepInsert res = some w') : ∀ i, TelnetSession (w'.session i) := by
  obtain ⟨cs, -, rfl | ⟨k, hk, flush, log, v, -, rfl, rfl, rfl⟩⟩ := World.stepInsert_cases hw
  · exact h
  · -- a free slot has no task, and its session starts afresh
    have hfree := Sink.findFreeSlot_some hk
    have hidle : w.task k = none := by
      by_contra hn
      rw [hs.live k hn] at hfree
      cases hfree
    refine telnetSessions_of_own (j := k) h (fun i hik => ?_) ?_
    · refine (sendEffect_session_other (w.inserted k cs) _ _ hik).trans ?_
      simp [World.session, World.inserted, Sink.acceptInsert, hik]
    · have hself := sendEffect_session_self (w.inserted k cs) k flush.1
        { ConnLog.start (w.connOf cs) with replayed := flush.1.sent }
      refine Eq.mpr (congrArg TelnetSession hself) ?_
      have hclient : (w.inserted k cs).session k = ⟨.fresh, false, false, none, w.log k⟩ := by
        simp [World.session, World.inserted, Sink.acceptInsert, hidle]
      rw [hclient]
      exact telnetSession_fresh _ rfl

theorem telnetSessions_spawn {ok : Bool} (h : ∀ i, TelnetSession (w.session i))
    (hs : SlotInv w) (hw : w.stepSpawn ok = some w') : ∀ i, TelnetSession (w'.session i) := by
  obtain ⟨k, hacc, rfl⟩ := World.stepSpawn_cases hw
  cases ok with
  | false => exact h
  | true =>
    have hself : TelnetSession ((w.setTask k .recv).session k) := by
      have hk := h k
      have hnone : w.task k = none := (hs.spawn k hacc).2
      rw [setTask_session]
      refine ⟨hk.codec, ?_, ?_, ?_, ?_, hk.controller⟩
      · rintro pc hpc o ho
        cases hpc
        cases ho
      · rintro - pc hpc
        cases hpc
        trivial
      · -- `unlocked`: no task was there to be about to commit
        intro htel
        refine (hk.unlocked htel).imp_right (Or.imp_right ?_)
        rintro ⟨rest, hrest⟩
        rw [show (w.session k).task = none from hnone] at hrest
        cases hrest
      · rintro pc hpc ha
        cases hpc
        exact ha.elim
    exact telnetSessions_of_own h (OwnSession.setTask w k .recv).other hself

theorem telnetSession_fanoutTo {data : List UInt8} {res : Slot → Nat → SendResult}
    (h : TelnetSession (w.session i)) (j : Slot) :
    TelnetSession ((World.fanoutTo data res w j).session i) := by
  rw [World.fanoutTo]
  split
  · rcases eq_or_ne i j with rfl | hij
    · rw [sendEffect_session_self]
      exact h.of_log rfl rfl
    · rw [sendEffect_session_other _ _ _ hij]
      exact h
  · exact h

theorem telnetSession_fanout {data : List UInt8} {res : Slot → Nat → SendResult} :
    ∀ (is : List Slot) {w : World σ}, TelnetSession (w.session i) →
      TelnetSession ((is.foldl (World.fanoutTo data res) w).session i)
  | [], _, h => h
  | j :: is, _, h => telnetSession_fanout is (telnetSession_fanoutTo h j)

/-- Losing the ownership keeps the rest of the session. -/
theorem TelnetSession.dropCtrl {s : Session} (h : TelnetSession s) :
    TelnetSession { s with isController := false } :=
  ⟨h.codec, h.todo, h.uncommitted, h.unlocked, h.acquires, fun hc => by cases hc⟩

theorem telnetSessions_step (h : ∀ i, TelnetSession (w.session i)) (hs : SlotInv w)
    (hw : (sinkSystem src).step w l = some w') : ∀ i, TelnetSession (w'.session i) := by
  cases l with
  | accept fd =>
    obtain ⟨-, rfl⟩ := World.stepAccept_cases hw
    exact h
  | gate =>
    obtain ⟨cs, -, ⟨-, rfl⟩ | rfl⟩ := World.stepGate_cases hw
    · exact h
    · exact h
  | insert res => exact telnetSessions_insert h hs hw
  | spawn ok => exact telnetSessions_spawn h hs hw
  | recv j chunk =>
    refine telnetSessions_of_own h (fun i hij => ?_) (telnetSession_recv (h j) hw)
    obtain ⟨-, -, r, -, rfl⟩ := World.stepRecv_cases hw
    simp [World.session, World.setLog, World.setTask, hij]
  | hangup j =>
    refine telnetSessions_of_own h (OwnSession.stepHangup hw).other ?_
    obtain ⟨ht, rfl⟩ := World.stepHangup_cases hw
    rw [setTask_session]
    exact (h j).moved ht rfl (fun c hc => by cases hc) (fun _ => trivial)
      ((h j).locked ht fun rest hpc => by cases hpc) fun ha => ha.elim
  | call j =>
    exact telnetSessions_of_own h (OwnSession.stepCall hw).other (telnetSession_call (h j) hw)
  | send j r =>
    exact telnetSessions_of_own h (OwnSession.stepSend hw).other (telnetSession_send (h j) hw)
  | acquire j =>
    exact telnetSessions_of_own h (OwnSession.stepAcquire hw).other
      (telnetSession_acquire (h j) hw)
  | snapshot j =>
    refine telnetSessions_of_own h (OwnSession.stepSnapshot hw).other ?_
    obtain ⟨sb, todo, ht, rfl⟩ := World.stepSnapshot_cases hw
    exact telnetSession_moved (h j) ht ((h j).committed ht fun hp => hp)
      (setTask_session w j (.getLc _ sb todo)) rfl (fun c hc => hc) fun ha => ha.elim
  | getLc j =>
    refine telnetSessions_of_own h (OwnSession.stepGetLc hw).other ?_
    obtain ⟨ctrl, sb, todo, ht, rfl⟩ := World.stepGetLc_cases hw
    exact telnetSession_moved (h j) ht ((h j).committed ht fun hp => hp)
      (setTask_session w j (.apply ctrl sb _ todo)) rfl (fun c hc => hc) fun ha => ha.elim
  | apply j r =>
    exact telnetSessions_of_own h (OwnSession.stepApply hw).other (telnetSession_apply (h j) hw)
  | cleanup j =>
    exact telnetSessions_of_own h (OwnSession.stepCleanup hw).other
      (telnetSession_cleanup (h j) hs hw)
  | revert r =>
    obtain ⟨-, rfl⟩ := World.stepRevert_cases hw
    exact h
  | drop =>
    cases hw
    exact fun i => (h i).dropCtrl
  | onRx data res =>
    rcases World.stepOnRx_cases hw with rfl | rfl | rfl
    · exact h
    · exact fun i => telnetSession_fanout _ (h i)
    · exact h
  | unplug =>
    obtain ⟨-, rfl⟩ := World.stepUnplug_cases hw
    exact h
  | sourceDown =>
    obtain ⟨-, rfl⟩ := World.stepSourceDown_cases hw
    exact fun i => (h i).dropCtrl
  | replug =>
    obtain ⟨-, rfl⟩ := World.stepReplug_cases hw
    exact h
  | tick us =>
    cases hw
    exact h

/-- What is received on a connection decides what its task does, in every reachable
state. -/
theorem reaches_telnetSession {ok : World σ → Label ρ → Prop} {plug : PlugState}
    {bridge : Option σ} (h : (sinkSystem src).Reaches ok (World.start plug bridge) w) (i : Slot) :
    TelnetSession (w.session i) := by
  have hinv : SlotInv w ∧ ∀ i, TelnetSession (w.session i) := by
    refine Machine.Reaches.invariant (I := fun w => SlotInv w ∧ ∀ i, TelnetSession (w.session i))
      h ⟨.start _ _, fun i => telnetSession_fresh _ rfl⟩ ?_
    rintro s l t ⟨hs, ht⟩ - hstep
    exact ⟨hs.step hstep, telnetSessions_step ht hs hstep⟩
  exact hinv.2 i

/-! ## The acquisitions of a run -/

/-- Slot and connection of a client that takes the line. -/
def World.acquisitions (w : World σ) : Label ρ → List (Slot × Nat)
  | .acquire i => if w.sink.ctrlClient = none then [(i, (w.log i).conn)] else []
  | _ => []

/-- The owner's slot holds the connection of the last acquisition. -/
def LastAcquired (w : World σ) (hist : List (Slot × Nat)) : Prop :=
  ∀ i, w.sink.ctrlClient = some i → hist.getLast? = some (i, (w.log i).conn)

theorem lastAcquired_step {hist : List (Slot × Nat)} (h : LastAcquired w hist) (hs : SlotInv w)
    (hw : (sinkSystem src).step w l = some w') :
    LastAcquired w' (hist ++ w.acquisitions l) := by
  intro i howner
  obtain ⟨hline, -⟩ := step_line hs hw
  have hconn : (w.sink.clients i).active = true → (w'.log i).conn = (w.log i).conn := step_conn hw
  -- an owner that stays keeps the line, so nobody acquires it
  have hkeep : w.sink.ctrlClient = some i →
      (hist ++ w.acquisitions l).getLast? = some (i, (w'.log i).conn) := by
    intro hold
    have hnone : w.acquisitions l = [] := by
      cases l <;> simp [World.acquisitions, hold]
    rw [hnone, List.append_nil, hconn (hs.owner i hold)]
    exact h i hold
  generalize hll : w'.line = line at hline
  have howner' : line.owner = some i := by rw [← hll]; exact howner
  cases hline with
  | quiet l => exact hkeep howner'
  | apply k r new hcall => exact hkeep howner'
  | acquire k hfree =>
    cases howner'
    obtain ⟨todo, ht, -⟩ := World.stepAcquire_cases hw
    rw [hconn (hs.live i (by rw [ht]; simp))]
    simp [World.acquisitions, hfree]
  | release k hk hpc => cases howner'
  | revert r hpos => exact hkeep howner'
  | lose l hl => cases howner'

/-- **Controller bookkeeping.** In every reachable state of the sink, with slots reused
and clients dropped at any time: at most one slot has `is_controller` set, and
`S.ctrl_client` names a slot exactly if its flag is set; the controlling slot is active
and has `telnet` set, its present connection has negotiated COM-PORT in what was received
on it, and it is this connection that acquired the line last. -/
theorem controller_bookkeeping (src : LineSource σ ρ) (plug : PlugState) (bridge : Option σ)
    (w : World σ) (hist : List (Slot × Nat))
    (h : ((sinkSystem src).record World.acquisitions).Reaches (fun _ _ => True)
      (World.start plug bridge, []) (w, hist)) :
    (∀ i j, (w.sink.clients i).isController = true → (w.sink.clients j).isController = true →
      i = j) ∧
    (∀ i, w.sink.ctrlClient = some i ↔ (w.sink.clients i).isController = true) ∧
    ∀ i, w.sink.ctrlClient = some i → (w.sink.clients i).active = true ∧
      (w.sink.clients i).telnet = true ∧ Negotiated (w.log i).received ∧
      hist.getLast? = some (i, (w.log i).conn) := by
  have hrun : (sinkSystem src).Reaches (fun _ _ => True) (World.start plug bridge) w :=
    Machine.Reaches.of_record (fun _ _ => True) h
  have hs := reaches_slotInv hrun
  have hlast : SlotInv w ∧ LastAcquired w hist := by
    refine Machine.Reaches.invariant (I := fun p => SlotInv p.1 ∧ LastAcquired p.1 p.2) h
      ⟨.start _ _, fun i hi => by cases hi⟩ ?_
    rintro ⟨s, es⟩ l ⟨t, fs⟩ ⟨hs, hl⟩ - ht
    obtain ⟨hstep, rfl⟩ := Machine.record_step ht
    exact ⟨hs.step hstep, lastAcquired_step hl hs hstep⟩
  refine ⟨fun i j hi hj => ?_, fun i => (hs.ctrl i).symm, fun i hi => ?_⟩
  · have hij := ((hs.ctrl i).1 hi).symm.trans ((hs.ctrl j).1 hj)
    exact Option.some.inj hij
  · obtain ⟨htel, hneg⟩ := (reaches_telnetSession hrun i).controller ((hs.ctrl i).2 hi)
    exact ⟨hs.owner i hi, htel, hneg, hlast.2 i hi⟩

/-- The owner hangs up; the next connection in its slot owns the line only after it has
negotiated itself. -/
theorem controller_bookkeeping_reuse : ∃ w hist, (tcmSystem.record
    World.acquisitions).Reaches (fun _ _ => True) (tcmStart, []) (w, hist) ∧
    hist = [(0, 0), (0, 1)] ∧ (w.log 0).conn = 1 ∧ (w.sink.clients 0).telnet = true := by
  obtain ⟨⟨w, hist⟩, hrun, hhist, hctrl⟩ := Machine.exists_reaches_of_runIf
    (tcmSystem.record World.acquisitions) (fun _ _ => True)
    (fun p => p.2 = [(0, 0), (0, 1)] ∧ p.1.sink.ctrlClient = some 0) (tcmStart, [])
    [connectSteps 3, acquireSteps 0, [.hangup 0, .cleanup 0], connectSteps 3,
      acquireSteps 0].flatten (by decide +kernel)
  obtain ⟨-, -, howner⟩ := controller_bookkeeping tcmSource _ _ w hist hrun
  obtain ⟨-, htel, -, hlast⟩ := howner 0 hctrl
  have hhist' : hist = [(0, 0), (0, 1)] := hhist
  refine ⟨w, hist, hrun, hhist, ?_, htel⟩
  rw [hhist'] at hlast
  simpa using hlast.symm

end Cdc2Net.SinkTcp
