import Cdc2Net.Lib.Transition

/-!
# The control transfers of `cul_dfu.c`

`ctrl` uses one transfer object with its buffer, and one binary semaphore that
`xfer_done_cb` gives when the transfer completes. Calls follow each other; a call that times
out leaves its transfer in flight, and the completion may come at any time later. Every
semaphore operation, buffer write, submit and completion is a step.

`ctrl_own_outcome` gives the conditions under which a call that returns `ESP_OK` reports its
own transfer. Without them the next call rewrites the buffer of the transfer in flight and
takes the late completion for its own (`ctrl_own_outcome_fails`). `unsettled_unsound` says that
no step outside the conditions is safe.
-/

set_option autoImplicit false

namespace Cdc2Net.Dfu.Transfer

open Cdc2Net.Lib.Transition

/-- The arguments of `ctrl`: `out` is what it sends, and an inbound transfer has an `in`. -/
structure Request where
  inbound : Bool
  out : List UInt8
  len : Nat
  deriving DecidableEq

/-- `CTRL_BUF_BYTES - sizeof(usb_setup_packet_t)`. -/
def dataBytes : Nat := 32 + 0x400 + 16

/-- Where a call stands. -/
inductive Pc where
  | idle
  /-- Before the setup packet is written. -/
  | setup
  /-- Before `out` is copied to the buffer. -/
  | fill
  /-- Before `xSemaphoreTake(S.done, 0)`. -/
  | drain
  /-- Before `usb_host_transfer_submit_control`. -/
  | submit
  /-- In `xSemaphoreTake(S.done, timeout)`. -/
  | wait
  /-- Before `S.xfer->status` is read. -/
  | status
  /-- Before the buffer is copied to `in`. -/
  | copy
  deriving DecidableEq

/-- A transfer in flight, with the call that submitted it. -/
structure InFlight where
  call : Nat
  inbound : Bool
  len : Nat
  deriving DecidableEq

/-- The caller, the semaphore and the transfer object; the buffer is the part behind the
setup packet. -/
structure State where
  pc : Pc
  call : Nat
  req : Request
  done : Bool
  inFlight : Option InFlight
  completed : Bool
  buffer : Nat → UInt8

/-- After `cul_dfu_start`. -/
def State.start : State := ⟨.idle, 0, ⟨false, [], 0⟩, false, none, false, fun _ => 0⟩

/-- What can happen. -/
inductive Label where
  /-- A call of `ctrl`, with or without a device. -/
  | call (req : Request) (present : Bool)
  | setup
  | fill
  | drain
  /-- The host takes the transfer, or refuses it. -/
  | submit (accepted : Bool)
  | take
  | timeout
  | status
  | copy
  /-- The transfer completes with its status and data, and `xfer_done_cb` runs. -/
  | complete (completed : Bool) (data : List UInt8)
  deriving DecidableEq

/-- `memcpy` to the buffer. -/
def write (data : List UInt8) (buffer : Nat → UInt8) : Nat → UInt8 := fun a =>
  if a < data.length then data.getD a 0 else buffer a

/-- `memcpy` from the buffer. -/
def read (len : Nat) (buffer : Nat → UInt8) : List UInt8 := (List.range len).map buffer

/-- The data of a transfer, which are at most as many bytes as were asked for. -/
def InFlight.data (q : InFlight) (data : List UInt8) : List UInt8 :=
  if q.inbound then data.take q.len else []

/-- What a call copies to `in`. -/
def State.answer (s : State) : List UInt8 := if s.req.inbound then read s.req.len s.buffer else []

/-- The steps of `ctrl` and of the host. A transfer that is in flight is not taken again. -/
def transfer : Machine State Label where
  step s
    | .call req present =>
      if s.pc = .idle then
        if present = false ∨ dataBytes < req.len then some s
        else some { s with pc := .setup, call := s.call + 1, req := req }
      else none
    | .setup =>
      if s.pc = .setup then
        some { s with pc := if s.req.inbound = false ∧ s.req.len ≠ 0 then .fill else .drain }
      else none
    | .fill =>
      if s.pc = .fill then
        some { s with pc := .drain, buffer := write (s.req.out.take s.req.len) s.buffer }
      else none
    | .drain => if s.pc = .drain then some { s with pc := .submit, done := false } else none
    | .submit accepted =>
      if s.pc = .submit then
        if accepted = true ∧ s.inFlight = none then
          some { s with pc := .wait, inFlight := some ⟨s.call, s.req.inbound, s.req.len⟩ }
        else some { s with pc := .idle }
      else none
    | .take =>
      if s.pc = .wait ∧ s.done = true then some { s with pc := .status, done := false } else none
    | .timeout => if s.pc = .wait ∧ s.done = false then some { s with pc := .idle } else none
    | .status =>
      if s.pc = .status then some { s with pc := if s.completed then .copy else .idle } else none
    | .copy => if s.pc = .copy then some { s with pc := .idle } else none
    | .complete completed data =>
      match s.inFlight with
      | some q => some { s with
          inFlight := none, completed := completed, done := true,
          buffer := write (q.data data) s.buffer }
      | none => none

/-- The record of a run. -/
inductive Event where
  | wrote (call : Nat)
  | submitted (call : Nat)
  | completed (call : Nat) (completed : Bool) (data : List UInt8)
  /-- The call returns `ESP_OK` with `data` in `in`. -/
  | returned (call : Nat) (data : List UInt8)
  deriving DecidableEq

/-- What a step shows. -/
def emit (s : State) : Label → List Event
  | .setup => [.wrote s.call]
  | .fill => [.wrote s.call]
  | .submit accepted => if accepted = true ∧ s.inFlight = none then [.submitted s.call] else []
  | .copy => [.returned s.call s.answer]
  | .complete completed data =>
    s.inFlight.toList.map fun q => .completed q.call completed (q.data data)
  | _ => []

/-- A call that returns `ESP_OK` has its own transfer completed and returns its data, and the
buffer is written only when every transfer submitted has completed. -/
def OwnAfter (es : List Event) : Event → Prop
  | .returned k data => .submitted k ∈ es ∧ .completed k true data ∈ es
  | .wrote _ => ∀ j, .submitted j ∈ es → ∃ c data, .completed j c data ∈ es
  | _ => True

/-- No call reports another call's outcome. -/
def OwnOutcome : List Event → Prop := EachAfter OwnAfter

/-- Nobody writes a setup packet while a transfer is in flight, and a transfer that completes
while its call waits delivers as many bytes as it was asked for. -/
def Settled (s : State) : Label → Prop
  | .setup => s.inFlight = none
  | .complete completed data =>
    s.pc = .wait → completed = true → s.req.inbound = true → s.req.len ≤ data.length
  | _ => True

instance (s : State) : DecidablePred (Settled s) := fun l =>
  match l with
  | .setup => inferInstanceAs (Decidable (_ = _))
  | .complete _ _ => inferInstanceAs (Decidable (_ → _))
  | .call _ _ => .isTrue trivial
  | .fill => .isTrue trivial
  | .drain => .isTrue trivial
  | .submit _ => .isTrue trivial
  | .take => .isTrue trivial
  | .timeout => .isTrue trivial
  | .status => .isTrue trivial
  | .copy => .isTrue trivial

/-! ## The buffer -/

section Buffer

variable {data : List UInt8} {buffer : Nat → UInt8} {s : State} {q : InFlight}

theorem read_length (len : Nat) (buffer : Nat → UInt8) : (read len buffer).length = len := by
  simp [read]

/-- What was written in full is read back. -/
theorem read_write (data : List UInt8) (buffer : Nat → UInt8) :
    read data.length (write data buffer) = data := by
  refine List.ext_getElem (read_length _ _) fun i hi hi' => ?_
  simp [read, write, hi']

/-- An answer in full is what the transfer delivered. -/
theorem answer_complete (hq : q = ⟨s.call, s.req.inbound, s.req.len⟩)
    (hfull : s.req.inbound = true → s.req.len ≤ data.length) :
    (if s.req.inbound then read s.req.len (write (q.data data) s.buffer) else []) =
      q.data data := by
  subst hq
  cases hin : s.req.inbound with
  | false => simp [InFlight.data]
  | true =>
    have hlen : (data.take s.req.len).length = s.req.len := by
      rw [List.length_take]
      exact Nat.min_eq_left (hfull hin)
    have hread := read_write (data.take s.req.len) s.buffer
    rw [hlen] at hread
    simpa [InFlight.data] using hread

end Buffer

/-! ## The invariant -/

/-- The transfer of the current call has completed, and the buffer holds its data. -/
structure Own (s : State) (es : List Event) : Prop where
  submitted : .submitted s.call ∈ es
  completed : ∃ data, .completed s.call s.completed data ∈ es ∧
    (s.completed = true → s.answer = data)

/-- What holds of the transfer object while a call stands at `pc`. -/
def Phase (s : State) (es : List Event) : Prop :=
  match s.pc with
  | .idle => True
  | .setup => True
  | .fill => s.inFlight = none
  | .drain => s.inFlight = none
  | .submit => s.inFlight = none ∧ s.done = false
  | .wait =>
    (s.inFlight = some ⟨s.call, s.req.inbound, s.req.len⟩ ∧ s.done = false ∧
        .submitted s.call ∈ es) ∨
      s.inFlight = none ∧ Own s es
  | .status => s.inFlight = none ∧ Own s es
  | .copy => s.inFlight = none ∧ Own s es ∧ s.completed = true

/-- Every transfer submitted has completed, or it is in flight. -/
def Accounted (s : State) (es : List Event) : Prop :=
  ∀ j, .submitted j ∈ es → (∃ c data, .completed j c data ∈ es) ∨
    ∃ q, s.inFlight = some q ∧ q.call = j

structure Inv (p : State × List Event) : Prop where
  outcome : OwnOutcome p.2
  accounted : Accounted p.1 p.2
  phase : Phase p.1 p.2

section Invariant

variable {s t : State} {es : List Event} {e : Event} {l : Label}

theorem Own.mono (h : Own s es) (e : Event) : Own s (es ++ [e]) := by
  obtain ⟨data, hmem, hans⟩ := h.completed
  exact ⟨List.mem_append_left _ h.submitted, data, List.mem_append_left _ hmem, hans⟩

theorem Accounted.mono (h : Accounted s es) (hf : t.inFlight = s.inFlight)
    (he : ∀ j, e ≠ .submitted j) : Accounted t (es ++ [e]) := by
  intro j hj
  rcases List.mem_append.1 hj with hj | hj
  · rcases h j hj with ⟨c, data, hc⟩ | hq
    · exact Or.inl ⟨c, data, List.mem_append_left _ hc⟩
    · exact Or.inr (hf ▸ hq)
  · exact absurd (List.mem_singleton.1 hj).symm (he j)

/-- With nothing in flight the buffer may be written. -/
theorem Accounted.ownAfter_wrote (h : Accounted s es) (hf : s.inFlight = none) (k : Nat) :
    OwnAfter es (.wrote k) := by
  intro j hj
  rcases h j hj with hc | ⟨q, hq, -⟩
  · exact hc
  · rw [hf] at hq
    cases hq

theorem Inv.start : Inv (.start, []) where
  outcome := eachAfter_nil
  accounted := fun j hj => by cases hj
  phase := trivial

/-- A step that shows nothing. -/
theorem Inv.silent (h : Inv (s, es)) (hf : t.inFlight = s.inFlight) (hp : Phase t es)
    (he : emit s l = []) : Inv (t, es ++ emit s l) := by
  rw [he, List.append_nil]
  refine ⟨h.outcome, fun j hj => ?_, hp⟩
  rw [hf]
  exact h.accounted j hj

theorem Inv.step (h : Inv (s, es)) (hok : Settled s l) (hs : transfer.step s l = some t) :
    Inv (t, es ++ emit s l) := by
  obtain ⟨hout, hacc, hph⟩ := h
  cases l with
  | call req present =>
    simp only [transfer] at hs
    split at hs
    · next hpc =>
      split at hs
      · cases hs
        exact Inv.silent ⟨hout, hacc, hph⟩ rfl hph rfl
      · cases hs
        exact Inv.silent ⟨hout, hacc, hph⟩ rfl trivial rfl
    · cases hs
  | setup =>
    simp only [transfer] at hs
    split at hs
    · cases hs
      have hnone : s.inFlight = none := hok
      refine ⟨eachAfter_concat.2 ⟨hout, hacc.ownAfter_wrote hnone _⟩,
        hacc.mono rfl (by simp), ?_⟩
      by_cases hfill : s.req.inbound = false ∧ s.req.len ≠ 0
      · simp [Phase, hfill, hnone]
      · simp only [Phase, if_neg hfill, hnone]
    · cases hs
  | fill =>
    simp only [transfer] at hs
    split at hs
    · next hpc =>
      cases hs
      have hnone : s.inFlight = none := by simpa [Phase, hpc] using hph
      exact ⟨eachAfter_concat.2 ⟨hout, hacc.ownAfter_wrote hnone _⟩,
        hacc.mono rfl (by simp), hnone⟩
    · cases hs
  | drain =>
    simp only [transfer] at hs
    split at hs
    · next hpc =>
      cases hs
      have hnone : s.inFlight = none := by simpa [Phase, hpc] using hph
      exact Inv.silent ⟨hout, hacc, hph⟩ rfl ⟨hnone, rfl⟩ rfl
    · cases hs
  | submit accepted =>
    simp only [transfer] at hs
    split at hs
    · next hpc =>
      obtain ⟨hnone, hdone⟩ : s.inFlight = none ∧ s.done = false := by
        simpa [Phase, hpc] using hph
      split at hs
      · next hacc' =>
        cases hs
        have he : emit s (.submit accepted) = [.submitted s.call] := if_pos hacc'
        rw [he]
        refine ⟨eachAfter_concat.2 ⟨hout, trivial⟩, fun j hj => ?_, Or.inl ⟨rfl, hdone, by simp⟩⟩
        rcases List.mem_append.1 hj with hj | hj
        · rcases hacc j hj with ⟨c, data, hc⟩ | ⟨q, hq, -⟩
          · exact Or.inl ⟨c, data, List.mem_append_left _ hc⟩
          · rw [show s.inFlight = some q from hq] at hnone
            cases hnone
        · obtain rfl : j = s.call := by simpa using hj
          exact Or.inr ⟨_, rfl, rfl⟩
      · next hacc' =>
        cases hs
        exact Inv.silent ⟨hout, hacc, hph⟩ rfl trivial (if_neg hacc')
    · cases hs
  | take =>
    simp only [transfer] at hs
    split at hs
    · next hpc =>
      cases hs
      have hown : s.inFlight = none ∧ Own s es := by
        have hph' := hph
        simp only [Phase, hpc.1] at hph'
        rcases hph' with ⟨-, hdone, -⟩ | hown
        · rw [hpc.2] at hdone
          cases hdone
        · exact hown
      exact Inv.silent ⟨hout, hacc, hph⟩ rfl ⟨hown.1, hown.2.submitted, hown.2.completed⟩ rfl
    · cases hs
  | timeout =>
    simp only [transfer] at hs
    split at hs
    · cases hs
      exact Inv.silent ⟨hout, hacc, hph⟩ rfl trivial rfl
    · cases hs
  | status =>
    simp only [transfer] at hs
    split at hs
    · next hpc =>
      cases hs
      obtain ⟨hnone, hown⟩ : s.inFlight = none ∧ Own s es := by
        have hph' := hph
        simpa only [Phase, hpc] using hph'
      refine Inv.silent ⟨hout, hacc, hph⟩ rfl ?_ rfl
      by_cases hc : s.completed = true
      · rw [if_pos hc]
        exact ⟨hnone, ⟨hown.submitted, hown.completed⟩, hc⟩
      · rw [if_neg hc]
        trivial
    · cases hs
  | copy =>
    simp only [transfer] at hs
    split at hs
    · next hpc =>
      cases hs
      obtain ⟨-, hown, hc⟩ : s.inFlight = none ∧ Own s es ∧ s.completed = true := by
        have hph' := hph
        simpa only [Phase, hpc] using hph'
      obtain ⟨data, hmem, hans⟩ := hown.completed
      refine ⟨eachAfter_concat.2 ⟨hout, hown.submitted, ?_⟩, hacc.mono rfl (by simp), trivial⟩
      rw [hans hc, ← hc]
      exact hmem
    · cases hs
  | complete completed data =>
    simp only [transfer] at hs
    split at hs
    · next q hq =>
      cases hs
      have he : emit s (.complete completed data) =
          [.completed q.call completed (q.data data)] := by
        simp [emit, hq]
      rw [he]
      refine ⟨eachAfter_concat.2 ⟨hout, trivial⟩, fun j hj => ?_, ?_⟩
      · rcases List.mem_append.1 hj with hj | hj
        · rcases hacc j hj with ⟨c, d, hc⟩ | ⟨q', hq', rfl⟩
          · exact Or.inl ⟨c, d, List.mem_append_left _ hc⟩
          · obtain rfl : q = q' := Option.some.inj (hq.symm.trans hq')
            exact Or.inl ⟨completed, q.data data, by simp⟩
        · simp at hj
      · -- only a call that waits, or none, can have a transfer in flight
        cases hpc : s.pc with
        | idle => trivial
        | setup => trivial
        | fill =>
          simp only [Phase, hpc] at hph
          cases hq.symm.trans hph
        | drain =>
          simp only [Phase, hpc] at hph
          cases hq.symm.trans hph
        | submit =>
          simp only [Phase, hpc] at hph
          cases hq.symm.trans hph.1
        | wait =>
          simp only [Phase, hpc] at hph
          obtain ⟨hown, -, hsub⟩ | ⟨hnone, -⟩ := hph
          · obtain rfl : q = ⟨s.call, s.req.inbound, s.req.len⟩ :=
              Option.some.inj (hq.symm.trans hown)
            refine Or.inr ⟨rfl, List.mem_append_left _ hsub, _,
              List.mem_append_right _ (List.mem_singleton_self _), fun hc => ?_⟩
            exact answer_complete rfl (hok hpc hc)
          · cases hq.symm.trans hnone
        | status =>
          simp only [Phase, hpc] at hph
          cases hq.symm.trans hph.1
        | copy =>
          simp only [Phase, hpc] at hph
          cases hq.symm.trans hph.1
    · cases hs

end Invariant

/-! ## The outcome of a call -/

/-- In a run that is settled no call reports another call's outcome. -/
theorem ctrl_own_outcome {p : State × List Event}
    (h : (transfer.record emit).Reaches (fun p l => Settled p.1 l) (.start, []) p) :
    OwnOutcome p.2 := by
  have hinv : Inv p := Machine.Reaches.invariant h Inv.start fun p l q hp hok hs => by
    obtain ⟨hst, hes⟩ := Machine.record_step hs
    have hstep : Inv (q.1, p.2 ++ emit p.1 l) := Inv.step hp hok hst
    rw [← hes] at hstep
    exact hstep
  exact hinv.outcome

/-- A call of `dfu_getstatus`. -/
def getStatus : Request := ⟨true, [], 6⟩
/-- The full erase of `atmel_erase_blocks`. -/
def eraseAll : Request := ⟨false, [0x04, 0x00, 0xFF], 3⟩

/-- A status that comes too late for its call, but before the next. -/
theorem ctrl_own_outcome_late :
    ∃ p, (transfer.record emit).Reaches (fun p l => Settled p.1 l) (.start, []) p ∧
      OwnOutcome p.2 ∧ .returned 2 [0, 0, 0, 0, 2, 0] ∈ p.2 := by
  obtain ⟨p, hrun, hret⟩ := Machine.exists_reaches_of_runIf (transfer.record emit)
    (fun p l => Settled p.1 l) (fun p => .returned 2 [0, 0, 0, 0, 2, 0] ∈ p.2) (.start, [])
    [.call getStatus true, .setup, .drain, .submit true, .timeout,
      .complete true [0, 0, 0, 0, 5, 0], .call getStatus true, .setup, .drain, .submit true,
      .complete true [0, 0, 0, 0, 2, 0], .take, .status, .copy] (by decide +kernel)
  exact ⟨p, hrun, ctrl_own_outcome hrun, hret⟩

/-- A status times out, the erase that follows takes its completion for its own, and the
status of the erase is answered with the bytes of the first. -/
theorem ctrl_own_outcome_fails :
    ∃ p, (transfer.record emit).Reaches (fun _ _ => True) (.start, []) p ∧
      p.2 = [.wrote 1, .submitted 1, .wrote 2, .wrote 2, .completed 1 true [0, 0, 0, 0, 2, 0],
        .submitted 2, .returned 2 [], .wrote 3, .completed 2 true [], .submitted 3,
        .returned 3 [0, 0, 0, 0, 2, 0]] ∧ ¬ OwnOutcome p.2 := by
  obtain ⟨p, hrun, hes⟩ := Machine.exists_reaches_of_runIf (transfer.record emit)
    (fun _ _ => True)
    (fun p => p.2 = [.wrote 1, .submitted 1, .wrote 2, .wrote 2,
      .completed 1 true [0, 0, 0, 0, 2, 0], .submitted 2, .returned 2 [], .wrote 3,
      .completed 2 true [], .submitted 3, .returned 3 [0, 0, 0, 0, 2, 0]]) (.start, [])
    [.call getStatus true, .setup, .drain, .submit true, .timeout,
      .call eraseAll true, .setup, .fill, .drain, .complete true [0, 0, 0, 0, 2, 0],
      .submit true, .take, .status, .copy,
      .call getStatus true, .setup, .drain, .complete true [], .submit true, .take, .status,
      .copy] (by decide +kernel)
  refine ⟨p, hrun, hes, fun h => ?_⟩
  rw [hes] at h
  -- the erase returned before its transfer completed
  have hown := h [.wrote 1, .submitted 1, .wrote 2, .wrote 2,
    .completed 1 true [0, 0, 0, 0, 2, 0], .submitted 2] (.returned 2 []) _ rfl
  simp [OwnAfter] at hown

/-! ## Why the condition is needed -/

/-- What holds of the numbers of the calls in every run. -/
structure Book (s : State) (es : List Event) : Prop where
  fresh : ∀ j, .submitted j ∈ es → j ≤ s.call ∧
    (s.pc = .setup ∨ s.pc = .fill ∨ s.pc = .drain ∨ s.pc = .submit → j < s.call)
  completed : ∀ j c data, .completed j c data ∈ es → .submitted j ∈ es
  inFlight : ∀ q, s.inFlight = some q →
    .submitted q.call ∈ es ∧ ∀ c data, .completed q.call c data ∉ es
  own : s.pc = .wait → ∀ q, s.inFlight = some q → q = ⟨s.call, s.req.inbound, s.req.len⟩

section Book

variable {s t : State} {es : List Event} {l : Label}

theorem Book.step (h : Book s es) (hs : transfer.step s l = some t) :
    Book t (es ++ emit s l) := by
  obtain ⟨hfresh, hcomp, hin, hown⟩ := h
  cases l <;>
  · simp only [transfer] at hs
    constructor <;> grind -ring -linarith [emit]

/-- A call whose transfer has completed returns. -/
theorem returns_of_done {q : State × List Event} (hpc : q.1.pc = .wait) (hdone : q.1.done = true)
    (hc : q.1.completed = true) :
    ∃ r, (transfer.record emit).Reaches (fun _ _ => True) q r ∧
      r.2 = q.2 ++ [Event.returned q.1.call q.1.answer] := by
  obtain ⟨s, es⟩ := q
  have hrun : (transfer.record emit).runIf (fun _ _ => True) (s, es) [.take, .status, .copy] =
      some ({ s with pc := .idle, done := false }, es ++ [Event.returned s.call s.answer]) := by
    simp only at hpc hdone hc
    simp [Machine.runIf, Machine.record, transfer, emit, hpc, hdone, hc, State.answer]
  exact ⟨_, Machine.reaches_of_runIf _ hrun, rfl⟩

theorem Book.of_reaches {p : State × List Event}
    (h : (transfer.record emit).Reaches (fun _ _ => True) (.start, []) p) : Book p.1 p.2 := by
  refine Machine.Reaches.invariant (I := fun p => Book p.1 p.2) h ?_ fun p l q hp _ hs => ?_
  · constructor <;> simp [State.start]
  · obtain ⟨hst, hes⟩ := Machine.record_step hs
    rw [hes]
    exact hp.step hst

/-- A setup packet written while a transfer is in flight. -/
theorem Book.rewrite (h : Book s es) {q : InFlight} (hq : s.inFlight = some q) (k : Nat) :
    ¬ OwnOutcome (es ++ [Event.wrote k]) := by
  intro hout
  obtain ⟨hsub, hnot⟩ := h.inFlight q hq
  obtain ⟨c, data, hc⟩ := (eachAfter_concat.1 hout).2 q.call hsub
  exact hnot c data hc

/-- The bytes of a call that got less than it asked for are not those of its transfer. -/
theorem Book.stale (h : Book s es) (hpc : s.pc = .wait) {q : InFlight} (hq : s.inFlight = some q)
    {data : List UInt8} (hin : s.req.inbound = true) (hshort : data.length < s.req.len)
    (buffer : Nat → UInt8) :
    ¬ OwnOutcome (es ++ [Event.completed q.call true (q.data data)] ++
      [.returned s.call (read s.req.len buffer)]) := by
  intro hout
  obtain ⟨-, hc⟩ := (eachAfter_concat.1 hout).2
  have hown : q = ⟨s.call, s.req.inbound, s.req.len⟩ := h.own hpc q hq
  rcases List.mem_append.1 hc with hc | hc
  · refine (h.inFlight q hq).2 true (read s.req.len buffer) ?_
    rw [hown]
    exact hc
  · have hdata : read s.req.len buffer = q.data data := by
      simpa [hown] using hc
    have hlen := congrArg List.length hdata
    rw [read_length, hown] at hlen
    simp only [InFlight.data, hin, if_true, List.length_take] at hlen
    omega

end Book

/-- Every step that is not settled leads to a call that reports another call's outcome, or to
a buffer rewritten under a transfer. -/
theorem unsettled_unsound {p q : State × List Event} {l : Label}
    (h : (transfer.record emit).Reaches (fun _ _ => True) (.start, []) p)
    (hs : (transfer.record emit).step p l = some q) (hl : ¬ Settled p.1 l) :
    ∃ r, (transfer.record emit).Reaches (fun _ _ => True) q r ∧ ¬ OwnOutcome r.2 := by
  have hbook : Book p.1 p.2 := Book.of_reaches h
  obtain ⟨hst, hes⟩ := Machine.record_step hs
  cases l with
  | setup =>
    obtain ⟨f, hf⟩ := Option.ne_none_iff_exists'.1 (show p.1.inFlight ≠ none from hl)
    refine ⟨q, Relation.ReflTransGen.refl, ?_⟩
    rw [hes]
    exact hbook.rewrite hf _
  | complete completed data =>
    simp only [Settled, Classical.not_imp, Nat.not_le] at hl
    obtain ⟨hpc, rfl, hin, hshort⟩ := hl
    cases hf : p.1.inFlight with
    | none => simp [transfer, hf] at hst
    | some f =>
      have hq : q.1 = { p.1 with
          inFlight := none, completed := true, done := true,
          buffer := write (f.data data) p.1.buffer } := by
        simp only [transfer, hf] at hst
        exact (Option.some.inj hst).symm
      obtain ⟨r, hr, hrs⟩ := returns_of_done (q := q) (by rw [hq, hpc]) (by rw [hq]) (by rw [hq])
      have hans : q.1.answer = read p.1.req.len (write (f.data data) p.1.buffer) := by
        simp [hq, State.answer, hin]
      refine ⟨r, hr, ?_⟩
      rw [hrs, hes, hans, hq]
      simp only [emit, hf, Option.toList, List.map_cons, List.map_nil]
      exact hbook.stale hpc hf hin hshort _
  | _ => exact absurd trivial hl

end Cdc2Net.Dfu.Transfer
