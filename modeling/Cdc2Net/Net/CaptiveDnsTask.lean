import Cdc2Net.Lib.Transition
import Cdc2Net.Net.Softap
import Mathlib.Algebra.GroupWithZero.Nat
import Mathlib.Data.List.Perm.Basic

/-!
# The captive DNS task and the AP

`net_start_softap` clears `s_dns_stop` and creates `captive_dns_task` unless the handle
`s_dns_task` is set; `net_stop_softap` sets `s_dns_stop`, which the task notices up to a second
later, and the task clears the handle and the flag itself when it exits. The calls come from
several tasks, so every read and write of theirs is a step of its own, as the task's are.

A start that finds the handle of a task on its way out leaves an AP without the responder,
and the last write of such a task can take a stop signal from its successor. While no step
does that, the responder runs in every quiet state if and only if the AP is up, and each
step left out can be carried on to a quiet state where it does not (`runs_with_ap`).
-/

set_option autoImplicit false

namespace Cdc2Net.Net.DnsTask

open Cdc2Net.Lib.Transition

/-! ## The calls and the task -/

/-- Where a call of `net_start_softap` or `net_stop_softap` stands, less its driver calls and
what it does with the STA supervisor and the client counter. -/
inductive CallPc where
  /-- Before the look at `s_ap_active`. -/
  | startActive
  | startEth
  /-- Before the driver calls. -/
  | startRaise
  /-- Before `s_ap_active = true`. -/
  | startMark
  /-- Before `s_dns_stop = false`. -/
  | startClear
  /-- Before the look at `s_dns_task`. -/
  | startTest
  | startCreate
  /-- Before the look at `s_ap_active` of `net_stop_softap`. -/
  | stopActive
  /-- Before `s_dns_stop = true`. -/
  | stopSignal
  | stopMode
  /-- Before `s_ap_active = false`. -/
  | stopUnmark
  | done
  deriving DecidableEq, Repr

/-- Where a `captive_dns_task` stands. -/
inductive TaskPc where
  /-- `socket` and `bind`, which succeed. -/
  | opening
  /-- Before the test of `s_dns_stop`. -/
  | test
  /-- In `recvfrom`, or with a datagram. -/
  | recv
  | close
  /-- Before `s_dns_task = NULL`. -/
  | unhandle
  /-- Before `s_dns_stop = false`. -/
  | unstop
  | gone
  deriving DecidableEq, Repr

/-- `s_ap_active`, `s_dns_stop` and `s_dns_task != NULL`. -/
structure DnsFlags where
  apActive : Bool
  dnsStop : Bool
  dnsTask : Bool
  deriving DecidableEq, Repr

/-- The flags, the calls and the tasks. -/
structure DnsState where
  flags : DnsFlags
  calls : List CallPc
  tasks : List TaskPc
  deriving DecidableEq, Repr

inductive DnsLabel where
  /-- Somebody calls `net_start_softap`. -/
  | start
  /-- Somebody calls `net_stop_softap`. -/
  | stop
  /-- The `i`-th call goes on; ethernet is up or not, if it comes to that. -/
  | call (i : Nat) (ethUp : Bool)
  /-- The `j`-th task goes on. -/
  | task (j : Nat)
  deriving DecidableEq, Repr

/-- One step of a call: the flags, the task it creates, if any, and where it stands then. -/
def callStep (f : DnsFlags) (ethUp : Bool) : CallPc → DnsFlags × List TaskPc × CallPc
  | .startActive => (f, [], if f.apActive then .done else .startEth)
  | .startEth => (f, [], if ethUp then .done else .startRaise)
  | .startRaise => (f, [], .startMark)
  | .startMark => ({ f with apActive := true }, [], .startClear)
  | .startClear => ({ f with dnsStop := false }, [], .startTest)
  | .startTest => (f, [], if f.dnsTask then .done else .startCreate)
  | .startCreate => ({ f with dnsTask := true }, [.opening], .done)
  | .stopActive => (f, [], if f.apActive then .stopSignal else .done)
  | .stopSignal => ({ f with dnsStop := true }, [], .stopMode)
  | .stopMode => (f, [], .stopUnmark)
  | .stopUnmark => ({ f with apActive := false }, [], .done)
  | .done => (f, [], .done)

/-- One step of a task. -/
def taskStep (f : DnsFlags) : TaskPc → DnsFlags × TaskPc
  | .opening => (f, .test)
  | .test => (f, if f.dnsStop then .close else .recv)
  | .recv => (f, .test)
  | .close => (f, .unhandle)
  | .unhandle => ({ f with dnsTask := false }, .unstop)
  | .unstop => ({ f with dnsStop := false }, .gone)
  | .gone => (f, .gone)

namespace DnsState

/-- After boot. -/
def boot : DnsState := ⟨⟨false, false, false⟩, [], []⟩

/-- After a step of the `i`-th call, which stands at `c`. -/
def afterCall (s : DnsState) (i : Nat) (ethUp : Bool) (c : CallPc) : DnsState :=
  let r := callStep s.flags ethUp c
  ⟨r.1, s.calls.set i r.2.2, s.tasks ++ r.2.1⟩

/-- After a step of the `j`-th task, which stands at `p`. -/
def afterTask (s : DnsState) (j : Nat) (p : TaskPc) : DnsState :=
  let r := taskStep s.flags p
  ⟨r.1, s.calls, s.tasks.set j r.2⟩

end DnsState

/-- The calls and the tasks, in any order. -/
def dnsSystem : Machine DnsState DnsLabel where
  step s
    | .start => some { s with calls := s.calls ++ [.startActive] }
    | .stop => some { s with calls := s.calls ++ [.stopActive] }
    | .call i ethUp => s.calls[i]?.map (s.afterCall i ethUp)
    | .task j => s.tasks[j]?.map (s.afterTask j)

/-- The part of the flags of `net.c` that the calls and the task share. -/
def dnsFlags (f : Flags) : DnsFlags := ⟨f.apActive, f.dnsStop, f.dnsTask⟩

/-- The steps of a call in a row. -/
def runCall (ethUp : Bool) : Nat → DnsFlags → CallPc → DnsFlags × CallPc
  | 0, f, c => (f, c)
  | n + 1, f, c => runCall ethUp n (callStep f ethUp c).1 (callStep f ethUp c).2.2

/-- A start that nobody interrupts is `netStartSoftap`. -/
theorem start_alone (f : Flags) :
    runCall f.ethUp 7 (dnsFlags f) .startActive = (dnsFlags f.netStartSoftap, .done) := by
  by_cases hap : f.apActive = true
  · simp [runCall, callStep, dnsFlags, Flags.netStartSoftap, hap]
  · by_cases heth : f.ethUp = true
    · simp [runCall, callStep, dnsFlags, Flags.netStartSoftap, hap, heth]
    · cases hh : f.dnsTask <;>
        simp [runCall, callStep, dnsFlags, Flags.netStartSoftap, hap, heth, hh]

/-- A stop that nobody interrupts is `netStopSoftap`. -/
theorem stop_alone (f : Flags) :
    runCall f.ethUp 4 (dnsFlags f) .stopActive = (dnsFlags f.netStopSoftap, .done) := by
  by_cases hap : f.apActive = true
  · simp [runCall, callStep, dnsFlags, Flags.netStopSoftap, hap]
  · simp [runCall, callStep, dnsFlags, Flags.netStopSoftap, hap]

/-! ## Quiet states -/

/-- The task has not seen the flag set. -/
def TaskPc.inLoop : TaskPc → Bool
  | .opening | .test | .recv => true
  | _ => false

/-- No call is in progress and no task is on its way out or about to see the flag set. -/
structure Quiet (s : DnsState) : Prop where
  calls : ∀ c ∈ s.calls, c = CallPc.done
  tasks : ∀ p ∈ s.tasks, p = TaskPc.gone ∨ p.inLoop = true ∧ s.flags.dnsStop = false

instance (s : DnsState) : Decidable (Quiet s) :=
  decidable_of_iff ((∀ c ∈ s.calls, c = CallPc.done) ∧
      ∀ p ∈ s.tasks, p = TaskPc.gone ∨ p.inLoop = true ∧ s.flags.dnsStop = false)
    ⟨fun h => ⟨h.1, h.2⟩, fun h => ⟨h.calls, h.tasks⟩⟩

/-- Nobody calls `net_stop_softap`. -/
def NoStop : DnsState → DnsLabel → Prop := fun _ l => l ≠ .stop

/-- The `j`-th task is in its loop and stays there while nobody calls `net_stop_softap`. -/
def Stays (s : DnsState) (j : Nat) : Prop :=
  ∀ t, dnsSystem.Reaches NoStop s t → ∃ p, t.tasks[j]? = some p ∧ p.inLoop = true

/-- The responder runs exactly while the AP does. -/
structure RunsWithAp (s : DnsState) : Prop where
  up : s.flags.apActive = true → ∃ j, Stays s j
  down : s.flags.apActive = false → ∀ p ∈ s.tasks, p = TaskPc.gone

/-! ## The steps that keep it -/

/-- Some task is in its loop. -/
def DnsState.running (s : DnsState) : Bool := s.tasks.any TaskPc.inLoop

/-- A start that will mark the AP active. -/
def CallPc.raising : CallPc → Bool
  | .startRaise | .startMark => true
  | _ => false

/-- A start that will still look at the handle. -/
def CallPc.starting : CallPc → Bool
  | .startRaise | .startMark | .startClear | .startTest | .startCreate => true
  | _ => false

/-- A stop that will set the flag. -/
def CallPc.signalling : CallPc → Bool
  | .stopSignal => true
  | _ => false

/-- A stop that will mark an active AP inactive. -/
def CallPc.stopping : CallPc → Bool
  | .stopActive | .stopSignal | .stopMode | .stopUnmark => true
  | _ => false

/-- A call that gives a task in its loop under an inactive AP its AP or its signal. -/
def CallPc.corrects (c : CallPc) : Bool := c.raising || c.signalling

/-- A call that gives an active AP without a task its task or its end. -/
def CallPc.settles (c : CallPc) : Bool := c.starting || c.stopping

/-- Some entry apart from the `i`-th. -/
def others {α : Type} (l : List α) (i : Nat) (p : α → Bool) : Bool := (l.eraseIdx i).any p

/-- The condition on a step of a call: some task is `running` in its loop, the other calls
settle or correct what it leaves. -/
def SafeCall (f : DnsFlags) (running settled corrected : Bool) : CallPc → Prop
  | .startClear => f.apActive = true ∨ running = false ∨ corrected = true
  | .startTest => f.dnsTask = true → f.apActive = true → running = true ∨ settled = true
  | .startCreate => f.apActive = true ∨ f.dnsStop = true ∨ corrected = true
  | .stopUnmark => f.dnsStop = true ∨ running = false ∨ corrected = true
  | _ => True

instance (f : DnsFlags) (running settled corrected : Bool) :
    DecidablePred (SafeCall f running settled corrected) := fun c => by
  unfold SafeCall
  split <;> infer_instance

/-- The condition on a step of a task. -/
def SafeTask (f : DnsFlags) (running corrected : Bool) : TaskPc → Prop
  | .unstop => f.apActive = true ∨ running = false ∨ corrected = true
  | _ => True

instance (f : DnsFlags) (running corrected : Bool) :
    DecidablePred (SafeTask f running corrected) := fun p => by
  unfold SafeTask
  split <;> infer_instance

/-- The steps that lose neither signal:

* a start that finds the handle set finds a task in its loop, unless the AP is not active
  or another call settles the matter;
* a task clears the flag on its way out, and a start before its look at the handle, while the
  AP is active or no task is in its loop, or another call corrects it;
* a stop marks the AP inactive while its signal stands or no task is in its loop;
* a start creates the task of an active AP, or with a signal for it already set. -/
def SafeStep (s : DnsState) : DnsLabel → Prop
  | .call i _ => ∀ c ∈ s.calls[i]?, SafeCall s.flags s.running
      (others s.calls i CallPc.settles) (others s.calls i CallPc.corrects) c
  | .task j => ∀ p ∈ s.tasks[j]?,
      SafeTask s.flags s.running (s.calls.any CallPc.corrects) p
  | _ => True

instance (s : DnsState) : DecidablePred (SafeStep s)
  | .start => isTrue trivial
  | .stop => isTrue trivial
  | .call _ _ => inferInstanceAs (Decidable (∀ c ∈ _, _))
  | .task _ => inferInstanceAs (Decidable (∀ p ∈ _, _))

/-- The AP is active, and no task and no call does anything about it. -/
def unserved (f : DnsFlags) (running settled : Bool) : Bool :=
  f.apActive && !running && !settled

/-- A task runs on under an AP that is down, and no call does anything about it. -/
def orphaned (f : DnsFlags) (running corrected : Bool) : Bool :=
  !f.apActive && !f.dnsStop && running && !corrected

/-- Nothing is left undone. -/
structure Covered (s : DnsState) : Prop where
  served : unserved s.flags s.running (s.calls.any CallPc.settles) = false
  stopped : orphaned s.flags s.running (s.calls.any CallPc.corrects) = false

/-! ## One step -/

/-- A call in whose middle the flag is set although the AP is active. -/
def CallPc.holdsStop : CallPc → Bool
  | .startClear | .stopMode | .stopUnmark => true
  | _ => false

/-- What holds in every run: an active AP has the flag set only in the middle of a call. -/
def Signalled (s : DnsState) : Prop :=
  (s.flags.apActive && s.flags.dnsStop && !s.calls.any CallPc.holdsStop) = false

section Lists

variable {α : Type} {l : List α} {i : Nat} {c : α}

theorem perm_at (h : l[i]? = some c) : l.Perm (c :: l.eraseIdx i) := by
  obtain ⟨hi, rfl⟩ := List.getElem?_eq_some_iff.mp h
  exact (List.getElem_cons_eraseIdx_perm hi).symm

theorem perm_set (h : l[i]? = some c) (d : α) : (l.set i d).Perm (d :: l.eraseIdx i) := by
  have hi : i < l.length := (List.getElem?_eq_some_iff.mp h).1
  have hd : (l.set i d)[i]? = some d := List.getElem?_set_self hi
  have hperm := perm_at hd
  rwa [List.eraseIdx_set_eq] at hperm

theorem any_at (h : l[i]? = some c) (p : α → Bool) : l.any p = (p c || others l i p) :=
  (perm_at h).any_eq

theorem any_set (h : l[i]? = some c) (d : α) (p : α → Bool) :
    (l.set i d).any p = (p d || others l i p) :=
  (perm_set h d).any_eq

theorem any_concat (l : List α) (d : α) (p : α → Bool) :
    (l ++ [d]).any p = (l.any p || p d) := by
  rw [List.any_append, List.any_cons, List.any_nil, Bool.or_false]

end Lists

/-- What a step of a call does to the flags and the classes of the calls. -/
theorem callStep_table (f : DnsFlags) (ethUp running settled corrected held : Bool)
    (c : CallPc) :
    let r := callStep f ethUp c
    ((f.apActive && f.dnsStop && !(c.holdsStop || held)) = false →
      (r.1.apActive && r.1.dnsStop && !(r.2.2.holdsStop || held)) = false) ∧
    (unserved f running (c.settles || settled) = false →
      orphaned f running (c.corrects || corrected) = false →
      (SafeCall f running settled corrected c ↔
        unserved r.1 (running || r.2.1.any TaskPc.inLoop) (r.2.2.settles || settled) = false ∧
        orphaned r.1 (running || r.2.1.any TaskPc.inLoop) (r.2.2.corrects || corrected) =
          false)) := by
  obtain ⟨a, x, h⟩ := f
  cases c <;> revert a x h ethUp running settled corrected held <;> decide

/-- What a step of a task does. `held` are the calls in whose middle the flag may be set. -/
theorem taskStep_table (f : DnsFlags) (other settled corrected held : Bool) (p : TaskPc) :
    let r := taskStep f p
    (held && !settled) = false → (f.apActive && f.dnsStop && !held) = false →
    (r.1.apActive && r.1.dnsStop && !held) = false ∧
    (unserved f (p.inLoop || other) settled = false →
      orphaned f (p.inLoop || other) corrected = false →
      (SafeTask f (p.inLoop || other) corrected p ↔
        unserved r.1 (r.2.inLoop || other) settled = false ∧
        orphaned r.1 (r.2.inLoop || other) corrected = false)) := by
  obtain ⟨a, x, h⟩ := f
  cases p <;> revert a x h other settled corrected held <;> decide

variable {s t : DnsState} {l : DnsLabel} {i j : Nat} {ethUp : Bool} {c : CallPc} {p : TaskPc}

theorem settles_of_holdsStop (s : DnsState) :
    (s.calls.any CallPc.holdsStop && !s.calls.any CallPc.settles) = false := by
  cases hheld : s.calls.any CallPc.holdsStop with
  | false => rfl
  | true =>
    obtain ⟨c, hc, hh⟩ := List.any_eq_true.mp hheld
    have hsettles : s.calls.any CallPc.settles = true := by
      refine List.any_eq_true.mpr ⟨c, hc, ?_⟩
      revert hh
      cases c <;> decide
    rw [hsettles]
    rfl

theorem running_afterCall :
    (s.afterCall i ethUp c).running =
      (s.running || (callStep s.flags ethUp c).2.1.any TaskPc.inLoop) :=
  List.any_append

/-- A step of a call leaves nothing undone exactly if it is safe. -/
theorem afterCall_covered (ethUp : Bool) (hc : s.calls[i]? = some c) (hsig : Signalled s)
    (h : Covered s) :
    Signalled (s.afterCall i ethUp c) ∧
      (SafeCall s.flags s.running (others s.calls i CallPc.settles)
        (others s.calls i CallPc.corrects) c ↔ Covered (s.afterCall i ethUp c)) := by
  obtain ⟨hserved, hstopped⟩ := h
  rw [Signalled, any_at hc] at hsig
  rw [any_at hc] at hserved hstopped
  obtain ⟨hkeep, hiff⟩ := callStep_table s.flags ethUp s.running
    (others s.calls i CallPc.settles) (others s.calls i CallPc.corrects)
    (others s.calls i CallPc.holdsStop) c
  refine ⟨?_, (hiff hserved hstopped).trans ⟨fun hcov => ⟨?_, ?_⟩, fun hcov => ⟨?_, ?_⟩⟩⟩
  · rw [Signalled, DnsState.afterCall, any_set hc]
    exact hkeep hsig
  · rw [running_afterCall, DnsState.afterCall, any_set hc]
    exact hcov.1
  · rw [running_afterCall, DnsState.afterCall, any_set hc]
    exact hcov.2
  · have := hcov.served
    rw [running_afterCall, DnsState.afterCall, any_set hc] at this
    exact this
  · have := hcov.stopped
    rw [running_afterCall, DnsState.afterCall, any_set hc] at this
    exact this

/-- The same of a task. -/
theorem afterTask_covered (hp : s.tasks[j]? = some p) (hsig : Signalled s) (h : Covered s) :
    Signalled (s.afterTask j p) ∧
      (SafeTask s.flags s.running (s.calls.any CallPc.corrects) p ↔
        Covered (s.afterTask j p)) := by
  obtain ⟨hserved, hstopped⟩ := h
  have hrun : s.running = (p.inLoop || others s.tasks j TaskPc.inLoop) := any_at hp _
  have hrun' : (s.afterTask j p).running =
      ((taskStep s.flags p).2.inLoop || others s.tasks j TaskPc.inLoop) := any_set hp _ _
  rw [hrun] at hserved hstopped
  obtain ⟨hkeep, hiff⟩ := taskStep_table s.flags (others s.tasks j TaskPc.inLoop)
    (s.calls.any CallPc.settles) (s.calls.any CallPc.corrects) (s.calls.any CallPc.holdsStop) p
    (settles_of_holdsStop s) hsig
  refine ⟨hkeep, ?_⟩
  rw [hrun, hiff hserved hstopped, ← hrun']
  exact ⟨fun hcov => ⟨hcov.1, hcov.2⟩, fun hcov => ⟨hcov.1, hcov.2⟩⟩

/-- A new call changes nothing yet. -/
theorem begin_covered (hc : c = .startActive ∨ c = .stopActive) (hsig : Signalled s)
    (h : Covered s) :
    Signalled { s with calls := s.calls ++ [c] } ∧
      Covered { s with calls := s.calls ++ [c] } := by
  obtain ⟨hserved, hstopped⟩ := h
  have hrun : DnsState.running { s with calls := s.calls ++ [c] } = s.running := rfl
  have hheld : c.holdsStop = false := by rcases hc with rfl | rfl <;> rfl
  have hcor : c.corrects = false := by rcases hc with rfl | rfl <;> rfl
  refine ⟨?_, ?_, ?_⟩
  · rw [Signalled, any_concat, hheld, Bool.or_false]
    exact hsig
  · rw [hrun, any_concat]
    simp only [unserved, Bool.and_eq_false_iff, Bool.not_eq_false', Bool.or_eq_true] at hserved ⊢
    exact hserved.imp_right .inl
  · rw [hrun, any_concat, hcor, Bool.or_false]
    exact hstopped

/-- A step leaves nothing undone exactly if it is safe. -/
theorem step_covered (hsig : Signalled s) (h : Covered s) (hstep : dnsSystem.step s l = some t) :
    Signalled t ∧ (SafeStep s l ↔ Covered t) := by
  cases l with
  | start =>
    cases hstep
    obtain ⟨hsig', hcov⟩ := begin_covered (.inl rfl) hsig h
    exact ⟨hsig', fun _ => hcov, fun _ => trivial⟩
  | stop =>
    cases hstep
    obtain ⟨hsig', hcov⟩ := begin_covered (.inr rfl) hsig h
    exact ⟨hsig', fun _ => hcov, fun _ => trivial⟩
  | call i ethUp =>
    obtain ⟨c, hc, rfl⟩ := Option.map_eq_some_iff.mp hstep
    obtain ⟨hsig', hiff⟩ := afterCall_covered ethUp hc hsig h
    refine ⟨hsig', ?_⟩
    rw [← hiff, SafeStep, hc]
    exact ⟨fun hsafe => hsafe c rfl, fun hsafe d hd => Option.some.inj hd ▸ hsafe⟩
  | task j =>
    obtain ⟨p, hp, rfl⟩ := Option.map_eq_some_iff.mp hstep
    obtain ⟨hsig', hiff⟩ := afterTask_covered hp hsig h
    refine ⟨hsig', ?_⟩
    rw [← hiff, SafeStep, hp]
    exact ⟨fun hsafe => hsafe p rfl, fun hsafe q hq => Option.some.inj hq ▸ hsafe⟩

theorem reaches_covered (h : dnsSystem.Reaches SafeStep .boot s) : Signalled s ∧ Covered s := by
  refine Machine.Reaches.invariant (I := fun s => Signalled s ∧ Covered s) h ⟨rfl, rfl, rfl⟩ ?_
  intro s l t hs hsafe hstep
  obtain ⟨hsig, hiff⟩ := step_covered hs.1 hs.2 hstep
  exact ⟨hsig, hiff.mp hsafe⟩

/-! ## Quiet states of a run -/

theorem running_of_getElem? (hp : s.tasks[j]? = some p) (hin : p.inLoop = true) :
    s.running = true :=
  List.any_eq_true.mpr ⟨p, List.mem_of_getElem? hp, hin⟩

/-- A start clears the flag or leaves it. -/
theorem callStep_clear {f : DnsFlags} (ethUp : Bool) (hx : f.dnsStop = false)
    (hc : c.stopping = false) : (callStep f ethUp c).1.dnsStop = false ∧
      (callStep f ethUp c).2.2.stopping = false := by
  obtain ⟨a, x, h⟩ := f
  cases hx
  revert hc a h ethUp
  cases c <;> decide

/-- A task in its loop with the flag clear stays there unless somebody calls
`net_stop_softap`. -/
theorem stays (hx : s.flags.dnsStop = false) (hcalls : s.calls.any CallPc.stopping = false)
    (hp : s.tasks[j]? = some p) (hin : p.inLoop = true) : Stays s j := by
  intro t ht
  have hkeep := Machine.Reaches.invariant (I := fun s => s.flags.dnsStop = false ∧
    s.calls.any CallPc.stopping = false ∧ ∃ p, s.tasks[j]? = some p ∧ p.inLoop = true) ht
    ⟨hx, hcalls, p, hp, hin⟩ ?_
  · exact hkeep.2.2
  · rintro s l t ⟨hx, hcalls, p, hp, hin⟩ hl hstep
    cases l with
    | stop => exact absurd rfl hl
    | start =>
      cases hstep
      refine ⟨hx, ?_, p, hp, hin⟩
      rw [any_concat, hcalls]
      rfl
    | call i ethUp =>
      obtain ⟨c, hc, rfl⟩ := Option.map_eq_some_iff.mp hstep
      rw [any_at hc, Bool.or_eq_false_iff] at hcalls
      obtain ⟨hcs, hothers⟩ := hcalls
      have hcall := callStep_clear ethUp hx hcs
      refine ⟨hcall.1, ?_, p, ?_, hin⟩
      · rw [DnsState.afterCall, any_set hc, hcall.2, hothers]
        rfl
      · rw [DnsState.afterCall, List.getElem?_append_left (List.getElem?_eq_some_iff.mp hp).1]
        exact hp
    | task k =>
      obtain ⟨q, hq, rfl⟩ := Option.map_eq_some_iff.mp hstep
      have hflag : (taskStep s.flags q).1.dnsStop = false := by
        cases q <;> first | exact hx | rfl
      refine ⟨hflag, hcalls, ?_⟩
      by_cases hk : k = j
      · subst hk
        obtain rfl := Option.some.inj (hp.symm.trans hq)
        refine ⟨(taskStep s.flags p).2,
          List.getElem?_set_self (List.getElem?_eq_some_iff.mp hp).1, ?_⟩
        cases p with
        | opening => rfl
        | test => rw [taskStep, hx]; rfl
        | recv => rfl
        | close | unhandle | unstop | gone => cases hin
      · exact ⟨p, (List.getElem?_set_ne hk).trans hp, hin⟩

theorem any_done (hq : Quiet s) {f : CallPc → Bool} (hf : f .done = false) :
    s.calls.any f = false := by
  rw [List.any_eq_false]
  intro c hc
  rw [hq.calls c hc, hf]
  exact Bool.false_ne_true

/-- Where nothing is left undone, quiet states are as they should be. -/
theorem Covered.runs (h : Covered s) (hq : Quiet s) : RunsWithAp s := by
  obtain ⟨hserved, hstopped⟩ := h
  rw [any_done hq rfl] at hserved hstopped
  constructor
  · intro hact
    have hrun : s.running = true := by simpa [unserved, hact] using hserved
    obtain ⟨p, hp, hin⟩ := List.any_eq_true.mp hrun
    obtain ⟨j, hj⟩ := List.mem_iff_getElem?.mp hp
    rcases hq.tasks p hp with rfl | hloop
    · cases hin
    · exact ⟨j, stays hloop.2 (any_done hq rfl) hj hin⟩
  · intro hact p hp
    rcases hq.tasks p hp with hgone | hloop
    · exact hgone
    · have hrun : s.running = true := List.any_eq_true.mpr ⟨p, hp, hloop.1⟩
      simp [orphaned, hact, hloop.2, hrun] at hstopped

/-- Something is left undone. -/
def Undone (s : DnsState) : Prop :=
  unserved s.flags s.running (s.calls.any CallPc.settles) = true ∨
    orphaned s.flags s.running (s.calls.any CallPc.corrects) = true

theorem not_covered (h : ¬ Covered s) : Undone s := by
  by_contra hundone
  rw [Undone, not_or, Bool.not_eq_true, Bool.not_eq_true] at hundone
  exact h ⟨hundone.1, hundone.2⟩

theorem Undone.not_runs (h : Undone s) : ¬ RunsWithAp s := by
  intro hruns
  rcases h with h | h
  · simp only [unserved, Bool.and_eq_true, Bool.not_eq_true'] at h
    obtain ⟨j, hj⟩ := hruns.up h.1.1
    obtain ⟨p, hp, hin⟩ := hj s Relation.ReflTransGen.refl
    rw [running_of_getElem? hp hin] at h
    cases h.1.2
  · simp only [orphaned, Bool.and_eq_true, Bool.not_eq_true'] at h
    obtain ⟨p, hp, hin⟩ := List.any_eq_true.mp h.1.2
    rw [hruns.down h.1.1.1 p hp] at hin
    cases hin

/-! ## Carrying on -/

/-- Nobody calls either function. -/
def NoCall : DnsState → DnsLabel → Prop := fun _ l => l ≠ .start ∧ l ≠ .stop

/-- How many steps of its own a call still takes at most. -/
def CallPc.rank : CallPc → Nat
  | .startActive => 7
  | .startEth => 6
  | .startRaise => 5
  | .startMark => 4
  | .startClear => 3
  | .startTest => 2
  | .startCreate => 1
  | .stopActive => 4
  | .stopSignal => 3
  | .stopMode => 2
  | .stopUnmark => 1
  | .done => 0

/-- How many steps a task on its way out still takes. -/
def TaskPc.rank : TaskPc → Nat
  | .close => 3
  | .unhandle => 2
  | .unstop => 1
  | _ => 0

def DnsState.rank (s : DnsState) : Nat :=
  (s.calls.map CallPc.rank).sum + (s.tasks.map TaskPc.rank).sum

/-- A call that goes on with ethernet up repairs nothing that no call was to repair. -/
theorem callStep_undone (f : DnsFlags) (running settled corrected : Bool) (c : CallPc) :
    let r := callStep f true c
    (c ≠ .done → r.2.2.rank + (r.2.1.map TaskPc.rank).sum < c.rank) ∧
    (unserved f running (c.settles || settled) = true →
      unserved r.1 (running || r.2.1.any TaskPc.inLoop) (r.2.2.settles || settled) = true) ∧
    (orphaned f running (c.corrects || corrected) = true →
      orphaned r.1 (running || r.2.1.any TaskPc.inLoop) (r.2.2.corrects || corrected) =
        true) := by
  obtain ⟨a, x, h⟩ := f
  cases c <;> revert a x h running settled corrected <;> decide

/-- Nor does a task on its way out. -/
theorem taskStep_undone (f : DnsFlags) (other settled corrected : Bool) (p : TaskPc) :
    let r := taskStep f p
    p.rank ≠ 0 → r.2.rank < p.rank ∧
    (unserved f (p.inLoop || other) settled = true →
      unserved r.1 (r.2.inLoop || other) settled = true) ∧
    (orphaned f (p.inLoop || other) corrected = true →
      orphaned r.1 (r.2.inLoop || other) corrected = true) := by
  obtain ⟨a, x, h⟩ := f
  cases p <;> revert a x h other settled corrected <;> decide

theorem sum_at {α : Type} {l : List α} {c : α} (h : l[i]? = some c) (f : α → Nat) :
    (l.map f).sum = f c + ((l.eraseIdx i).map f).sum :=
  ((perm_at h).map f).sum_nat

theorem sum_set {α : Type} {l : List α} {c : α} (h : l[i]? = some c) (d : α) (f : α → Nat) :
    ((l.set i d).map f).sum = f d + ((l.eraseIdx i).map f).sum :=
  ((perm_set h d).map f).sum_nat

theorem afterCall_undone (hc : s.calls[i]? = some c) (hne : c ≠ .done) (h : Undone s) :
    Undone (s.afterCall i true c) ∧ (s.afterCall i true c).rank < s.rank := by
  obtain ⟨hrank, hun, hor⟩ := callStep_undone s.flags s.running
    (others s.calls i CallPc.settles) (others s.calls i CallPc.corrects) c
  rw [Undone, any_at hc, any_at hc] at h
  constructor
  · rw [Undone, running_afterCall, DnsState.afterCall, any_set hc, any_set hc]
    exact h.imp hun hor
  · have := hrank hne
    rw [DnsState.rank, DnsState.rank, DnsState.afterCall, sum_at hc, sum_set hc, List.map_append,
      List.sum_append]
    omega

theorem afterTask_undone (hp : s.tasks[j]? = some p) (hne : p.rank ≠ 0) (h : Undone s) :
    Undone (s.afterTask j p) ∧ (s.afterTask j p).rank < s.rank := by
  have hrun : s.running = (p.inLoop || others s.tasks j TaskPc.inLoop) := any_at hp _
  have hrun' : (s.afterTask j p).running =
      ((taskStep s.flags p).2.inLoop || others s.tasks j TaskPc.inLoop) := any_set hp _ _
  obtain ⟨hrank, hun, hor⟩ := taskStep_undone s.flags (others s.tasks j TaskPc.inLoop)
    (s.calls.any CallPc.settles) (s.calls.any CallPc.corrects) p hne
  rw [Undone, hrun] at h
  constructor
  · rw [Undone, hrun']
    exact h.imp hun hor
  · have htask : (s.afterTask j p).rank = (s.calls.map CallPc.rank).sum +
        ((s.tasks.set j (taskStep s.flags p).2).map TaskPc.rank).sum := rfl
    rw [htask, DnsState.rank, sum_at hp, sum_set hp]
    omega

/-- With nothing on its way, a state with something left undone is quiet. -/
theorem Undone.quiet (h : Undone s) (hcalls : ∀ c ∈ s.calls, c = CallPc.done)
    (htasks : ∀ p ∈ s.tasks, TaskPc.rank p = 0) : Quiet s := by
  refine ⟨hcalls, fun p hp => ?_⟩
  have hloop : p = .gone ∨ p.inLoop = true := by
    have := htasks p hp
    revert this
    cases p <;> decide
  rcases hloop with hgone | hin
  · exact .inl hgone
  · have hrun : s.running = true := List.any_eq_true.mpr ⟨p, hp, hin⟩
    rcases h with h | h
    · simp [unserved, hrun] at h
    · simp only [orphaned, Bool.and_eq_true, Bool.not_eq_true'] at h
      exact .inr ⟨hin, h.1.1.2⟩

/-- What is left undone stays so when the calls and the tasks on their way come to their
ends, with ethernet up. -/
theorem Undone.carry_on (h : Undone s) :
    ∃ u, dnsSystem.Reaches NoCall s u ∧ Quiet u ∧ ¬ RunsWithAp u := by
  induction hn : s.rank using Nat.strongRecOn generalizing s with
  | _ n ih =>
    subst hn
    -- one more step of `l`, and the rest by induction
    have hgo : ∀ l t, l ≠ .start ∧ l ≠ .stop → dnsSystem.step s l = some t →
        Undone t ∧ t.rank < s.rank →
        ∃ u, dnsSystem.Reaches NoCall s u ∧ Quiet u ∧ ¬ RunsWithAp u := by
      rintro l t hl hstep ⟨ht, hlt⟩
      obtain ⟨u, hu, hquiet, hruns⟩ := ih t.rank hlt ht rfl
      exact ⟨u, Relation.ReflTransGen.head ⟨l, hl, hstep⟩ hu, hquiet, hruns⟩
    by_cases hcalls : ∀ c ∈ s.calls, c = CallPc.done
    · by_cases htasks : ∀ p ∈ s.tasks, TaskPc.rank p = 0
      · exact ⟨s, Relation.ReflTransGen.refl, h.quiet hcalls htasks, h.not_runs⟩
      · push Not at htasks
        obtain ⟨p, hp, hne⟩ := htasks
        obtain ⟨j, hj⟩ := List.mem_iff_getElem?.mp hp
        exact hgo (.task j) _ (by constructor <;> rintro ⟨⟩)
          (Option.map_eq_some_iff.mpr ⟨p, hj, rfl⟩)
          (afterTask_undone hj hne h)
    · push Not at hcalls
      obtain ⟨c, hc, hne⟩ := hcalls
      obtain ⟨i, hi⟩ := List.mem_iff_getElem?.mp hc
      exact hgo (.call i true) _ (by constructor <;> rintro ⟨⟩)
        (Option.map_eq_some_iff.mpr ⟨c, hi, rfl⟩)
        (afterCall_undone hi hne h)

/-! ## Whole runs -/

/-- While every step is safe, the responder runs in a quiet state if and only if the AP is
up; every other step can be carried on, without another call, to a quiet state where it
does not. -/
theorem runs_with_ap (s : DnsState) (hs : dnsSystem.Reaches SafeStep .boot s) :
    (Quiet s → RunsWithAp s) ∧
      ∀ l t, dnsSystem.step s l = some t → ¬ SafeStep s l →
        ∃ u, dnsSystem.Reaches NoCall t u ∧ Quiet u ∧ ¬ RunsWithAp u := by
  obtain ⟨hsig, hcov⟩ := reaches_covered hs
  constructor
  · intro hquiet
    exact hcov.runs hquiet
  · intro l t hstep hunsafe
    have ht : ¬ Covered t := fun h => hunsafe ((step_covered hsig hcov hstep).2.mpr h)
    exact (not_covered ht).carry_on

/-- The AP is raised and the task waits for a datagram. -/
theorem runs_with_ap_raised :
    RunsWithAp ⟨⟨true, false, true⟩, [CallPc.done], [TaskPc.recv]⟩ :=
  (runs_with_ap _
    (Machine.reaches_of_runIf
      [[.start], List.replicate 7 (.call 0 false), List.replicate 2 (.task 0)].flatten
      (by decide))).1
    (by decide)

/-- The AP is torn down; the task sees the flag; the AP is raised again and finds the handle
set; the task exits. -/
theorem runs_with_ap_fails :
    ¬ ∀ s, dnsSystem.Reaches (fun _ _ => True) .boot s → Quiet s → RunsWithAp s := by
  intro hall
  have hrun : dnsSystem.Reaches (fun _ _ => True) .boot
      ⟨⟨true, false, false⟩, List.replicate 3 CallPc.done, [TaskPc.gone]⟩ :=
    Machine.reaches_of_runIf
      [[.start], List.replicate 7 (.call 0 false), List.replicate 2 (.task 0), [.stop],
        List.replicate 4 (.call 1 false), List.replicate 2 (.task 0), [.start],
        List.replicate 6 (.call 2 false), List.replicate 3 (.task 0)].flatten
      (by decide)
  have hundone : Undone ⟨⟨true, false, false⟩, List.replicate 3 CallPc.done, [TaskPc.gone]⟩ :=
    .inl rfl
  exact hundone.not_runs (hall _ hrun (by decide))

end Cdc2Net.Net.DnsTask
