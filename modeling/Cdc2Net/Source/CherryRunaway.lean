import Cdc2Net.Source.CherryDelivery

/-!
# When reception of a stick goes wrong

Two ways in which the driver's reception fails. A URB that came back and was not submitted again
stays where it is: in a quiet run only `SET_ATTR` submits it (`silent_until_armed`), and the read
loop of `stick_task` calls that once. And a store of `SET_ATTR` to the counters that falls into a
read is undone by the read's `rb->out += size`: the counters then differ by almost `2 ^ 32`, and
the following reads return as many bytes as they ask for, at once and without one that was
received (`store_into_read_runs_away`).
-/

set_option autoImplicit false

namespace Cdc2Net.Source.CherryRx

open Cdc2Net.Lib.Transition Cdc2Net.Lib.FixedBuffer Cdc2Net.Lib.RingQueue
open UsbRingbuffer

/-! ## A link that has stopped -/

/-- The URB has been submitted since it last came back for good. -/
def armed (es : List Event) : Bool :=
  es.foldl (fun up e => match e with
    | .stopped => false
    | .armed => true
    | _ => up) false

/-- A transfer, or bytes for the ring, only come while the URB is kept going. -/
def WhileArmed (pre : List Event) : Event → Prop
  | .arrived _ | .accepted _ => armed pre = true
  | _ => True

/-- Where the URB is in flight or is about to be submitted again, nothing has stopped. -/
structure LinkOk (s : Port) (es : List Event) : Prop where
  urb : s.urb.isSome = true → armed es = true
  entered : ∀ n, s.callback = .entered n → armed es = true
  submitted : ∀ n, s.callback = .submitted n → armed es = true

theorem armed_append (es : List Event) (e : Event) :
    armed (es ++ [e]) = match e with
      | .stopped => false
      | .armed => true
      | _ => armed es := by
  rw [armed, List.foldl_append]
  rfl

section Link

variable {hdr : Nat} {s s' : Port} {es : List Event}

theorem linkOk_opened (pool : Buf UInt8 rxSize) (io : Bool → Buf UInt8 packetSize) :
    LinkOk (opened pool io) [] where
  urb := fun h => by cases h
  entered := fun _ h => by cases h
  submitted := fun _ h => by cases h

/-- A step of the reader, or of `SET_ATTR` on the ring, says nothing about the link. -/
theorem LinkOk.keep (h : LinkOk s es) {fs : List Event} (hurb : s'.urb = s.urb)
    (hcallback : s'.callback = s.callback)
    (hfs : fs = [] ∨ fs = [.reset] ∨ ∃ bytes, fs = [.got bytes]) : LinkOk s' (es ++ fs) := by
  have harmed : armed (es ++ fs) = armed es := by
    rcases hfs with rfl | rfl | ⟨bytes, rfl⟩
    · rw [List.append_nil]
    · rw [armed_append]
    · rw [armed_append]
  constructor
  · rw [hurb, harmed]
    exact h.urb
  · rw [hcallback, harmed]
    exact h.entered
  · rw [hcallback, harmed]
    exact h.submitted

/-- With the URB back and the callback elsewhere, nothing is claimed of the link. -/
theorem linkOk_of_none (es : List Event) (hurb : s.urb = none)
    (hentered : ∀ n, s.callback ≠ .entered n) (hsubmitted : ∀ n, s.callback ≠ .submitted n) :
    LinkOk s es where
  urb := fun h => by
    rw [hurb] at h
    cases h
  entered := fun n h => absurd h (hentered n)
  submitted := fun n h => absurd h (hsubmitted n)

theorem LinkOk.complete (h : LinkOk s es) {nbytes : Int}
    (hstep : completeStep hdr s nbytes = some s') :
    LinkOk s' (es ++ emit hdr s (.complete nbytes)) ∧ s.urb.isSome = true := by
  unfold completeStep at hstep
  split at hstep
  · next half hurb hpc =>
    have hup : armed es = true := h.urb (by rw [hurb]; rfl)
    refine ⟨?_, by rw [hurb]; rfl⟩
    rw [emit, hurb]
    dsimp only
    split at hstep
    · cases hstep
      exact linkOk_of_none _ rfl (fun _ => CallbackPc.noConfusion)
        fun _ => CallbackPc.noConfusion
    · split at hstep
      · cases hstep
        exact linkOk_of_none _ rfl (fun _ => CallbackPc.noConfusion)
          fun _ => CallbackPc.noConfusion
      · next hneg hshort =>
        split at hstep
        · cases hstep
          rw [if_neg hshort]
          have harmed : ∀ payload, armed (es ++ [Event.arrived payload]) = true := by
            intro payload
            rw [armed_append]
            exact hup
          exact ⟨fun heq => (by cases heq), fun _ _ => harmed _, fun _ _ => harmed _⟩
        · cases hstep
  · cases hstep

theorem LinkOk.callback (h : LinkOk s es) {ret : Int} (hstep : callbackStep hdr s ret = some s') :
    LinkOk s' (es ++ emit hdr s (.callback ret)) := by
  unfold CherryRx.callbackStep at hstep
  rw [emit]
  cases hpc : s.callback with
  | idle =>
    rw [hpc] at hstep
    cases hstep
  | entered n =>
    have hup := h.entered n hpc
    rw [hpc] at hstep
    dsimp only at hstep ⊢
    split at hstep
    · next hsome =>
      cases hstep
      rw [if_neg (fun hand => by
        rw [Option.isNone_iff_eq_none] at hand
        rw [hand.1] at hsome
        cases hsome), List.append_nil]
      exact ⟨fun _ => hup, fun _ heq => (by cases heq), fun _ heq => by cases heq⟩
    · next hnone =>
      have hurb : s.urb = none := Option.not_isSome_iff_eq_none.1 hnone
      split at hstep
      · next hneg =>
        cases hstep
        exact linkOk_of_none _ hurb (fun _ => CallbackPc.noConfusion)
          fun _ => CallbackPc.noConfusion
      · next hneg =>
        cases hstep
        rw [if_neg (fun hand => hneg hand.2), List.append_nil]
        exact ⟨fun _ => hup, fun _ _ => hup, fun _ _ => hup⟩
  | submitted n =>
    have hup := h.submitted n hpc
    rw [hpc] at hstep
    cases hstep
    have harmed : ∀ k, armed (es ++ [Event.accepted k]) = true := by
      intro k
      rw [armed_append]
      exact hup
    exact ⟨fun _ => harmed _, fun _ _ => harmed _, fun _ _ => harmed _⟩
  | copying half c =>
    rw [hpc] at hstep
    dsimp only at hstep ⊢
    rw [List.append_nil]
    split at hstep
    · cases hstep
      unfold copyIn
      split
      · exact ⟨h.urb, h.entered, h.submitted⟩
      · split
        · exact ⟨h.urb, h.entered, h.submitted⟩
        · exact ⟨h.urb, fun _ heq => (by cases heq), fun _ heq => by cases heq⟩
    · cases hstep
      exact ⟨h.urb, fun _ heq => (by cases heq), fun _ heq => by cases heq⟩
  | _ =>
    rw [hpc] at hstep
    cases hstep
    dsimp only
    rw [List.append_nil]
    exact ⟨h.urb, fun _ heq => (by cases heq), fun _ heq => by cases heq⟩

theorem LinkOk.control (h : LinkOk s es) {ret : Int} (hquiet : Quiet s (.control ret))
    (hstep : controlStep s ret = some s') : LinkOk s' (es ++ emit hdr s (.control ret)) := by
  unfold CherryRx.controlStep at hstep
  rw [emit]
  cases hpc : s.control with
  | idle =>
    rw [hpc] at hstep
    cases hstep
  | kill =>
    have hcb := hquiet.1 hpc
    rw [hpc] at hstep
    dsimp only at hstep ⊢
    split at hstep
    · cases hstep
      have hidle : ∀ pc, pc ≠ CallbackPc.idle → s.callback ≠ pc := by
        intro pc hne heq
        exact hne (heq.symm.trans hcb)
      exact linkOk_of_none _ rfl (fun _ => hidle _ CallbackPc.noConfusion)
        fun _ => hidle _ CallbackPc.noConfusion
    · next hsome =>
      cases hstep
      rw [if_neg hsome]
      exact h.keep rfl rfl (Or.inl rfl)
  | resetOut =>
    rw [hpc] at hstep
    cases hstep
    exact h.keep rfl rfl (Or.inr (Or.inl rfl))
  | submit =>
    rw [hpc] at hstep
    dsimp only at hstep ⊢
    split at hstep
    · next hfail =>
      cases hstep
      rw [if_pos hfail]
      exact h.keep rfl rfl (Or.inl rfl)
    · next hsent =>
      cases hstep
      rw [if_neg hsent]
      have harmed : armed (es ++ [Event.armed]) = true := armed_append es .armed
      exact ⟨fun _ => harmed, fun _ _ => harmed, fun _ _ => harmed⟩
  | _ =>
    rw [hpc] at hstep
    cases hstep
    exact h.keep rfl rfl (Or.inl rfl)

theorem LinkOk.step (h : LinkOk s es) {l : Label} (hquiet : Quiet s l)
    (hstep : (rx hdr).step s l = some s') : LinkOk s' (es ++ emit hdr s l) := by
  cases l with
  | dma content =>
    obtain ⟨half, hurb, rfl⟩ := Option.map_eq_some_iff.1 hstep
    exact h.keep rfl rfl (Or.inl rfl)
  | complete nbytes => exact (h.complete hstep).1
  | callback ret => exact h.callback hstep
  | read buflen =>
    have hread : readStep s buflen = some s' := hstep
    simp only [readStep] at hread
    split at hread
    · cases hread
      exact h.keep rfl rfl (Or.inl rfl)
    · cases hread
  | reader timeout =>
    obtain ⟨hurb, hcb⟩ := readerStep_same hstep
    refine h.keep hurb hcb ?_
    rcases emit_reader hdr s timeout with heq | hgot
    · exact Or.inl heq
    · exact Or.inr (Or.inr hgot)
  | setAttr =>
    have hset : (if s.control = .idle then some { s with control := .kill } else none) =
      some s' := hstep
    split at hset
    · cases hset
      exact h.keep rfl rfl (Or.inl rfl)
    · cases hset
  | control ret => exact h.control hquiet hstep

/-- What a step shows of a transfer or of the ring's intake, it shows while the link is up. -/
theorem LinkOk.whileArmed (h : LinkOk s es) {l : Label} (hstep : (rx hdr).step s l = some s')
    (hes : EachAfter WhileArmed es) : EachAfter WhileArmed (es ++ emit hdr s l) := by
  refine eachAfter_emit hes fun e he => ?_
  cases e with
  | accepted n =>
    obtain ⟨m, hpc, -⟩ := accepted_mem he
    exact h.submitted m hpc
  | arrived payload =>
    obtain ⟨nbytes, rfl⟩ := arrived_mem he
    exact h.urb (h.complete hstep).2
  | _ => trivial

end Link

/-- In every quiet run, once the URB has come back with an error or too short, or could not be
submitted again, no transfer arrives and the ring accepts nothing until a `SET_ATTR` has submitted
the URB. -/
theorem silent_until_armed (hdr : Nat) (pool : Buf UInt8 rxSize)
    (io : Bool → Buf UInt8 packetSize) (p : Port × List Event)
    (h : ((rx hdr).record (emit hdr)).Reaches (fun p l => Quiet p.1 l)
      (opened pool io, []) p) : EachAfter WhileArmed p.2 := by
  refine (Machine.Reaches.invariant (I := fun p => LinkOk p.1 p.2 ∧ EachAfter WhileArmed p.2) h
    ⟨linkOk_opened pool io, eachAfter_nil⟩ ?_).2
  rintro p l p' ⟨hlink, hes⟩ hquiet hstep
  obtain ⟨hnext, hhist⟩ := Machine.record_step hstep
  rw [hhist]
  exact ⟨hlink.step hquiet hnext, hlink.whileArmed hnext hes⟩

/-- The transfer after the first one comes back with an error. -/
theorem silent_until_armed_error :
    ∃ p : Port × List Event, armed p.2 = false ∧ EachAfter WhileArmed p.2 := by
  obtain ⟨p, hrun, hdown⟩ : ∃ p, ((rx 0).record (emit 0)).Reaches (fun p l => Quiet p.1 l)
      (opened (zeros _) fun _ => zeros _, []) p ∧ armed p.2 = false :=
    Machine.exists_reaches_of_runIf _ _ _ _
      (receive ++ Label.complete (-12) :: List.replicate 2 (.callback 0)) (by decide)
  exact ⟨p, hdown, silent_until_armed 0 _ _ p hrun⟩

/-! ## A store into a read -/

/-- The reader is in `usb_osal_sem_take`. -/
def ReaderPc.sleeps : ReaderPc → Bool
  | .waiting _ => true
  | _ => false

/-- Steps of the reader and of `SET_ATTR` only, with the reader awake: nothing comes in, and
nothing is waited for. -/
def NoTransfer (p : Port × List Event) : Label → Prop
  | .dma _ | .complete _ | .callback _ => False
  | _ => p.1.reader.sleeps = false

section Runaway

variable {hdr : Nat} {s s' : Port} {es : List Event} {c : Copy} {bytes : List UInt8}

/-- Where the driver gets by such steps, with what is seen of it. -/
abbrev Drains (hdr : Nat) : Port × List Event → Port × List Event → Prop :=
  ((rx hdr).record (emit hdr)).Reaches NoTransfer

theorem drains_step (hdr : Nat) (es : List Event) {l : Label} (hl : NoTransfer (s, es) l)
    (hstep : (rx hdr).step s l = some s') : Drains hdr (s, es) (s', es ++ emit hdr s l) := by
  refine Relation.ReflTransGen.single ⟨l, hl, ?_⟩
  show ((rx hdr).step s l).map _ = _
  rw [hstep]
  rfl

theorem drains_reader (hdr : Nat) (es : List Event) (hawake : s.reader.sleeps = false)
    (hstep : readerStep s false = some s') :
    Drains hdr (s, es) (s', es ++ emit hdr s (.reader false)) :=
  drains_step hdr es (l := .reader false) hawake hstep

theorem drains_control (hdr : Nat) (es : List Event) (hawake : s.reader.sleeps = false)
    (hstep : controlStep s 0 = some s') :
    Drains hdr (s, es) (s', es ++ emit hdr s (.control 0)) :=
  drains_step hdr es (l := .control 0) hawake hstep

/-- A read that has its sizes goes through, whatever has become of the counters. -/
theorem drains_copy (hdr : Nat) (es : List Event) {counter : Nat} (k : Nat) :
    ∀ {s : Port} {c : Copy} {bytes : List UInt8},
    s.reader = .copying c bytes → Runs c counter → c.size.toNat ≤ rxSize →
    c.size.toNat = c.done + k → ∃ all, all.length = bytes.length + k ∧
      Drains hdr (s, es) ({ s with rb := { s.rb with out := s.rb.out + c.size }, reader := .idle },
        es ++ [Event.got all]) := by
  induction k with
  | zero =>
    intro s c bytes hreader hruns hsize hk
    have hend : ¬ c.done < c.size.toNat := by omega
    refine ⟨bytes, rfl, ?_⟩
    have hstep : readerStep s false =
        some { s with rb := { s.rb with out := s.rb.out + c.size }, reader := .idle } := by
      rw [readerStep, hreader]
      exact if_neg hend
    have hemit : emit hdr s (.reader false) = [.got bytes] := by
      rw [emit, hreader]
      exact if_neg hend
    rw [← hemit]
    exact drains_reader hdr es (congrArg ReaderPc.sleeps hreader) hstep
  | succ k ih =>
    intro s c bytes hreader hruns hsize hk
    have hlt : c.done < c.size.toNat := by omega
    have haddress : c.address < rxSize := by
      rw [hruns.address_eq hlt hsize]
      exact Nat.mod_lt _ (by decide)
    obtain ⟨byte, hread⟩ : ∃ byte, s.rb.pool.read c.address = .ok byte :=
      ⟨_, s.rb.pool.read_eq
        (List.getElem?_eq_getElem (haddress.trans_eq s.rb.pool.length_eq.symm))⟩
    have hstep : readerStep s false = some { s with
        reader := .copying { c with done := c.done + 1 } (bytes ++ [byte]) } := by
      rw [readerStep, hreader]
      refine (if_pos hlt).trans ?_
      rw [copyOut, hread]
    have hemit : emit hdr s (.reader false) = [] := by
      rw [emit, hreader]
      exact if_pos hlt
    have hone := drains_reader hdr es (congrArg ReaderPc.sleeps hreader) hstep
    rw [hemit, List.append_nil] at hone
    obtain ⟨all, hall, hrest⟩ := ih (s := { s with reader := .copying _ (bytes ++ [byte]) })
      (c := { c with done := c.done + 1 }) rfl ⟨hruns.offset, hruns.remain⟩ hsize
      (show c.size.toNat = c.done + 1 + k by omega)
    refine ⟨all, ?_, hone.trans hrest⟩
    rw [hall, List.length_append, List.length_singleton]
    omega

/-- `usb_ringbuffer_read` computes its sizes from the counters, right or wrong. -/
theorem runs_startRead (hmask : s.rb.mask = 2047) (b : UInt32) :
    Runs (startRead s.rb b) s.rb.out.toNat := by
  have hempty : Represents s.rb.reset [] :=
    ⟨⟨11, by omega, size_of_mask hmask⟩, toNat_getUsed_of_eq rfl,
      holds_nil _ _ (size_of_mask (show s.rb.reset.mask = 2047 from hmask)).le⟩
  exact runs_startCopy hempty hmask _ _

/-- A read of `b` bytes returns `b` bytes while the counters say that there are as many. -/
theorem drains_read (hdr : Nat) (es : List Event) (hreader : s.reader = .idle)
    (hmask : s.rb.mask = 2047) {b : UInt32}
    (hb : 0 < b.toNat) (hle : b.toNat ≤ rxSize) (hused : b.toNat ≤ s.rb.getUsed.toNat) :
    ∃ all, all.length = b.toNat ∧
      Drains hdr (s, es) ({ s with rb := { s.rb with out := s.rb.out + b } },
        es ++ [Event.got all]) := by
  have hsize : (startRead s.rb b).size = b := by
    show (if s.rb.inp - s.rb.out < b then _ else b) = b
    refine if_neg ?_
    rw [UInt32.lt_iff_toNat_lt]
    exact Nat.not_lt.2 hused
  have hcut : (startRead s.rb b).size.toNat = b.toNat := congrArg UInt32.toNat hsize
  have hcall : (rx hdr).step s (.read b) = some { s with reader := .entered b } := by
    show readStep s b = _
    rw [readStep, hreader]
  have hsome : readerStep { s with reader := .entered b } false =
      some { s with reader := .reading b } := by
    rw [readerStep]
    refine if_neg ?_
    intro hzero
    have hnone : s.rb.getUsed = 0 := hzero
    rw [hnone] at hused
    have htoNat : (0 : UInt32).toNat = 0 := rfl
    omega
  have hstart : readerStep { s with reader := .reading b } false =
      some { s with reader := .copying (startRead s.rb b) [] } := rfl
  have h₁ := drains_step hdr es (l := .read b) (congrArg ReaderPc.sleeps hreader) hcall
  have h₂ := drains_reader hdr es rfl hsome
  have h₃ := drains_reader hdr es rfl hstart
  rw [show emit hdr s (.read b) = [] from rfl, List.append_nil] at h₁
  rw [show emit hdr { s with reader := .entered b } (.reader false) = [] from rfl,
    List.append_nil] at h₂
  rw [show emit hdr { s with reader := .reading b } (.reader false) = [] from rfl,
    List.append_nil] at h₃
  obtain ⟨all, hall, h₄⟩ := drains_copy hdr es b.toNat
    (s := { s with reader := .copying (startRead s.rb b) [] }) rfl (runs_startRead hmask b)
    (hcut ▸ hle) (hcut.trans (Nat.zero_add _).symm)
  refine ⟨all, by rw [hall, List.length_nil, Nat.zero_add], ?_⟩
  have hend : { s with rb := { s.rb with out := s.rb.out + (startRead s.rb b).size }
                       reader := .idle } =
      { s with rb := { s.rb with out := s.rb.out + b } } := by
    rw [hsize, ← hreader]
  exact hend ▸ ((h₁.trans h₂).trans h₃).trans h₄

/-- Reads one after the other, each of them full. -/
theorem drains_reads (hdr : Nat) (bs : List UInt32) :
    ∀ {s : Port} (es : List Event), s.reader = .idle → s.rb.mask = 2047 →
      (∀ b ∈ bs, 0 < b.toNat ∧ b.toNat ≤ rxSize) →
      (bs.map UInt32.toNat).sum ≤ s.rb.getUsed.toNat →
      ∃ s', ∃ reads : List (List UInt8), Drains hdr (s, es) (s', es ++ reads.map Event.got) ∧
        reads.map List.length = bs.map UInt32.toNat := by
  induction bs with
  | nil =>
    intro s es _ _ _ _
    refine ⟨s, [], ?_, rfl⟩
    rw [List.map_nil, List.append_nil]
  | cons b bs ih =>
    intro s es hreader hmask hbs hused
    rw [List.map_cons, List.sum_cons] at hused
    obtain ⟨hb, hle⟩ := hbs b List.mem_cons_self
    obtain ⟨all, hall, hone⟩ := drains_read hdr es hreader hmask hb hle (by omega)
    have hleft : (getUsed { s.rb with out := s.rb.out + b }).toNat = s.rb.getUsed.toNat - b.toNat :=
      toNat_getUsed_advance (by omega)
    obtain ⟨s', reads, hrest, hlen⟩ :=
      ih (s := { s with rb := { s.rb with out := s.rb.out + b } }) (es ++ [Event.got all])
        hreader hmask (fun c hc => hbs c (List.mem_cons_of_mem b hc)) (by rw [hleft]; omega)
    refine ⟨s', all :: reads, ?_, by rw [List.map_cons, List.map_cons, hall, hlen]⟩
    rw [List.map_cons, List.append_cons]
    exact hone.trans hrest

end Runaway

/-- What was read since the ring was emptied, and that nothing was accepted. -/
theorem tally_reads (es : List Event) (first : List UInt8) (reads : List (List UInt8)) :
    tally (es ++ Event.reset :: .got first :: reads.map .got) =
      { tally es with kept := [], got := first ++ reads.flatten } := by
  have hgots : ∀ t : Tally, (reads.map Event.got).foldl Tally.add t =
      { t with got := t.got ++ reads.flatten } := by
    induction reads with
    | nil =>
      intro t
      rw [List.flatten_nil, List.append_nil]
      rfl
    | cons r reads ih =>
      intro t
      rw [List.map_cons, List.foldl_cons, ih]
      rw [List.flatten_cons, ← List.append_assoc]
      rfl
  rw [tally, List.foldl_append, List.foldl_cons, List.foldl_cons, hgots]
  rfl

/-- Every quiet run that comes to the stores of `SET_ATTR` while a read of some bytes is under
way can be carried on, without a transfer and without a reader that sleeps, so that after the ring
was emptied the reader gets those bytes and then every further read is full, whatever their sizes,
up to `2 ^ 32` bytes in all. -/
theorem store_into_read_runs_away (hdr : Nat) (pool : Buf UInt8 rxSize)
    (io : Bool → Buf UInt8 packetSize) (p : Port × List Event)
    (h : ((rx hdr).record (emit hdr)).Reaches (fun p l => Quiet p.1 l)
      (opened pool io, []) p)
    (hcontrol : p.1.control = .resetIn) (c : Copy) (bytes : List UInt8)
    (hreader : p.1.reader = .copying c bytes) (hpos : 0 < c.size.toNat) (bs : List UInt32)
    (hbs : ∀ b ∈ bs, 0 < b.toNat ∧ b.toNat ≤ rxSize)
    (hsum : c.size.toNat + (bs.map UInt32.toNat).sum ≤ 2 ^ 32) :
    ∃ s', ∃ first : List UInt8, ∃ reads : List (List UInt8),
      Drains hdr p (s', p.2 ++ Event.reset :: .got first :: reads.map .got) ∧
      first.length = c.size.toNat ∧ reads.map List.length = bs.map UInt32.toNat := by
  obtain ⟨⟨q, staged, hgood⟩, -, -⟩ := reaches_rxInv h
  have hring := hgood.ring (by rw [hcontrol]; exact ControlPc.noConfusion)
  have hr := hgood.reader
  unfold ReaderOk at hr
  rw [hreader] at hr
  obtain ⟨hruns, hsize, hdone, hbytes⟩ := hr
  have hmax := hring.length_le
  obtain ⟨s, es⟩ := p
  dsimp only at hcontrol hreader hring hruns hbytes
  have hawake : s.reader.sleeps = false := congrArg ReaderPc.sleeps hreader
  -- both stores, while the read stands still
  have hin : controlStep s 0 =
      some { s with rb := { s.rb with inp := 0 }, control := .resetOut } := by
    rw [controlStep, hcontrol]
  have hout : controlStep { s with rb := { s.rb with inp := 0 }, control := .resetOut } 0 =
      some { s with rb := { s.rb with inp := 0, out := 0 }, control := .semReset } := rfl
  have h₁ := drains_control hdr es hawake hin
  have h₂ := drains_control hdr es (by exact hawake) hout
  rw [show emit hdr s (.control 0) = [] by rw [emit, hcontrol], List.append_nil] at h₁
  -- then the rest of the read, whose `rb->out += size` follows the stores
  obtain ⟨first, hall, h₃⟩ := drains_copy hdr (es ++ [Event.reset])
    (c.size.toNat - c.done)
    (s := { s with rb := { s.rb with inp := 0, out := 0 }, control := .semReset }) hreader hruns
    (by omega) (by omega)
  have hlen : first.length = c.size.toNat := by
    rw [hall, hbytes, List.length_take]
    omega
  have hused : (getUsed { s.rb with inp := 0, out := 0 + c.size }).toNat =
      2 ^ 32 - c.size.toNat := by
    show (0 - (0 + c.size)).toNat = _
    rw [UInt32.zero_add, UInt32.toNat_sub]
    have hzero : (0 : UInt32).toNat = 0 := rfl
    omega
  obtain ⟨s', reads, h₄, hreads⟩ := drains_reads hdr bs
    (s := { s with rb := { s.rb with inp := 0, out := 0 + c.size }
                   control := .semReset, reader := .idle })
    (es ++ [Event.reset] ++ [Event.got first]) rfl hring.mask hbs (hused ▸ by omega)
  have hshown : es ++ [Event.reset] ++ [Event.got first] ++ reads.map Event.got =
      es ++ Event.reset :: .got first :: reads.map .got := by
    rw [List.append_assoc, List.append_assoc]
    rfl
  exact ⟨s', first, reads, ((h₁.trans h₂).trans h₃).trans (hshown ▸ h₄), hlen, hreads⟩

/-- `SET_ATTR` comes to its stores while the reader has the sizes for three bytes: the read and
two more, of 512 bytes and of one, are full although the ring has accepted nothing. -/
theorem store_into_read_runs_away_packet :
    ∃ es : List Event, ∃ first : List UInt8, ∃ reads : List (List UInt8),
      tally (es ++ Event.reset :: .got first :: reads.map .got) =
        { tally es with kept := [], got := first ++ reads.flatten } ∧
      first.length = 3 ∧ reads.map List.length = [512, 1] := by
  obtain ⟨p, hrun, hcontrol, hreader⟩ :
      ∃ p, ((rx 0).record (emit 0)).Reaches (fun p l => Quiet p.1 l)
        (opened (zeros _) fun _ => zeros _, []) p ∧ p.1.control = .resetIn ∧
        p.1.reader = .copying ⟨0, 3, 3, 0⟩ [] :=
    Machine.exists_reaches_of_runIf _ _ _ _
      [receive.take 21, List.replicate 2 (.reader false), [.setAttr],
        List.replicate 5 (.control 0)].flatten
      (by decide)
  obtain ⟨s', first, reads, -, hfirst, hreads⟩ := store_into_read_runs_away 0 _ _ p hrun hcontrol
    _ _ hreader (by decide) [512, 1]
    (List.forall_mem_cons.2 ⟨by decide, List.forall_mem_singleton.2 (by decide)⟩) (by decide)
  exact ⟨p.2, first, reads, tally_reads p.2 first reads, hfirst, hreads⟩

end Cdc2Net.Source.CherryRx
