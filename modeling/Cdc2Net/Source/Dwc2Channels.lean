import Cdc2Net.Source.Dwc2

/-!
# Who has a channel

A run on one core is quiet if nobody fills a URB that is in flight, and every section of
`usbh_kill_urb` finds the transfer running. In every state of a quiet run each channel in use has
exactly one URB, and what that URB's caller does next fits what the controller does with the
channel (`UrbInv`). So no NULL pointer is dereferenced, every transfer is completed once, and a
sleeper gets the result of its own transfer.
-/

set_option autoImplicit false

namespace Cdc2Net.Source.Dwc2

open Cdc2Net.Lib.Transition

/-! ## The history of a URB -/

/-- The stages of a transfer. -/
def Endpoint.stages : Endpoint → List Ep0State
  | .bulk _ => []
  | .control setup =>
    .setup :: match setup.next with
      | .inData => [.inData, .outStatus]
      | .outData => [.outData, .inStatus]
      | st => [st]

/-- What has become of a URB. -/
inductive Status where
  | fresh
  /-- In flight, with the stages that are complete. -/
  | flying (endpoint : Endpoint) (done : List Ep0State)
  | landed (code : Int)
  deriving DecidableEq, Repr

def Status.isFlying : Status → Bool
  | .flying _ _ => true
  | _ => false

/-- What an event does to a URB. -/
def Status.after (u : Nat) (st : Status) : Event → Status
  | .submitted v endpoint => if v = u then .flying endpoint [] else st
  | .stage v stage =>
    if v = u then
      match st with
      | .flying endpoint done => .flying endpoint (done ++ [stage])
      | st => st
    else st
  | .completed v code => if v = u then .landed code else st
  | .returned _ _ => st

def statusOf (u : Nat) (es : List Event) : Status := es.foldl (Status.after u) .fresh

/-- An event is in order: a URB is submitted when it is not in flight and completed when it is,
with code 0 after all its stages; and a caller that was woken gets the code of its transfer. -/
def InOrder (pre : List Event) : Event → Prop
  | .submitted u _ => (statusOf u pre).isFlying = false
  | .stage u _ => (statusOf u pre).isFlying = true
  | .completed u code => ∃ endpoint done, statusOf u pre = .flying endpoint done ∧
      (code = 0 → done = endpoint.stages)
  | .returned u ret => statusOf u pre = .landed ret

/-- The URB that an event is about. -/
def Event.urb : Event → Nat
  | .submitted u _ | .stage u _ | .completed u _ | .returned u _ => u

theorem statusOf_append (u : Nat) (es fs : List Event) :
    statusOf u (es ++ fs) = fs.foldl (Status.after u) (statusOf u es) :=
  List.foldl_append

theorem Status.after_of_ne {u : Nat} {e : Event} (h : e.urb ≠ u) (st : Status) :
    st.after u e = st := by
  cases e with
  | submitted v endpoint => exact if_neg h
  | stage v stage => exact if_neg h
  | completed v code => exact if_neg h
  | returned v ret => rfl

/-- Events about `u` say nothing about another URB. -/
theorem statusOf_other {u v : Nat} (hne : v ≠ u) (es fs : List Event)
    (hfs : ∀ e ∈ fs, e.urb = u) : statusOf v (es ++ fs) = statusOf v es := by
  rw [statusOf_append]
  induction fs generalizing es with
  | nil => rfl
  | cons e fs ih =>
    have he : e.urb ≠ v := fun heq => hne (heq.symm.trans (hfs e List.mem_cons_self))
    rw [List.foldl_cons, Status.after_of_ne he]
    exact ih es fun f hf => hfs f (List.mem_cons_of_mem _ hf)

/-! ## What holds in a quiet run -/

/-- The transfer of a URB is running. -/
def Hcd.Runs (s : Hcd) (u : Nat) : Prop :=
  ∃ c, (s.urb u).hcpriv = some c ∧ (s.chan c).hw = .running

instance (s : Hcd) (u : Nat) : Decidable (s.Runs u) :=
  match h : (s.urb u).hcpriv with
  | none => isFalse fun ⟨_, hc, _⟩ => Option.some_ne_none _ (hc.symm.trans h)
  | some c =>
    if hrun : (s.chan c).hw = .running then isTrue ⟨c, h, hrun⟩
    else isFalse fun ⟨_, hc, hc'⟩ => hrun (Option.some.inj (h.symm.trans hc) ▸ hc')

/-- The step does not fill a URB in flight, and is no section of `usbh_kill_urb` whose transfer has
ended. -/
def Quiet (s : Hcd) : Label → Prop
  | .call u _ _ => (s.urb u).errorcode ≠ errBusy
  | .submit u => s.sub u = .inKill → s.Runs u
  | .killSection k => ∀ u ∈ s.killer k, s.Runs u
  | _ => True

instance (s : Hcd) : DecidablePred (Quiet s)
  | .call _ _ _ => inferInstanceAs (Decidable (_ ≠ _))
  | .submit _ => inferInstanceAs (Decidable (_ → _))
  | .killSection k => inferInstanceAs (Decidable (∀ u ∈ s.killer k, s.Runs u))
  | .expire _ | .kill _ _ | .halted _ _ | .irq _ => inferInstanceAs (Decidable True)

/-- The stages that a channel still has ahead. -/
def Chan.ahead (chan : Chan) : Endpoint → List Ep0State
  | .bulk _ => []
  | .control setup =>
    match chan.ep0State with
    | .setup => (Endpoint.control setup).stages
    | .inData => [.inData, .outStatus]
    | .outData => [.outData, .inStatus]
    | st => [st]

/-- The URB and the channel point to each other. -/
structure Linked (s : Hcd) (u c : Nat) : Prop where
  hcpriv : (s.urb u).hcpriv = some c
  urb : (s.chan c).urb = some u
  inuse : (s.chan c).inuse = true

/-- The controller is at work for the URB. -/
structure Flying (s : Hcd) (es : List Event) (u c : Nat) : Prop where
  linked : Linked s u c
  hw : (s.chan c).hw ≠ .off
  waitsem : (s.chan c).waitsem = false
  errorcode : (s.urb u).errorcode = errBusy
  status : ∃ done, statusOf u es = .flying (s.urb u).endpoint done ∧
    done ++ (s.chan c).ahead (s.urb u).endpoint = (s.urb u).endpoint.stages
  epDir : ∀ setup, (s.urb u).endpoint = .control setup →
    (s.chan c).epDir = (s.chan c).ep0State.dirIn

/-- The transfer is over; the token of the channel is there or has been taken. -/
structure Landed (s : Hcd) (es : List Event) (u c : Nat) (token : Bool) : Prop where
  linked : Linked s u c
  hw : (s.chan c).hw = .off
  waitsem : (s.chan c).waitsem = token
  errorcode : (s.urb u).errorcode ≠ errBusy
  status : statusOf u es = .landed (s.urb u).errorcode

/-- The URB has no channel. -/
structure Apart (s : Hcd) (es : List Event) (u : Nat) : Prop where
  hcpriv : (s.urb u).hcpriv = none
  errorcode : (s.urb u).errorcode ≠ errBusy
  status : (statusOf u es).isFlying = false

/-- A channel with nothing on it. -/
structure Blank (chan : Chan) : Prop where
  urb : chan.urb = none
  hw : chan.hw = .off
  waitsem : chan.waitsem = false

/-- A URB with a caller at this point. -/
def UrbInv (s : Hcd) (es : List Event) (u : Nat) : SubmitPc → Prop
  | .idle => Apart s es u ∨ (s.urb u).timeout = false ∧ ∃ c, Flying s es u c
  | .entered => Apart s es u
  | .allocated c => Apart s es u ∧ Blank (s.chan c) ∧ (s.chan c).inuse = true
  | .bound c => Linked s u c ∧ (s.chan c).hw = .off ∧ (s.chan c).waitsem = false ∧
      (s.urb u).errorcode = errBusy ∧ statusOf u es = .flying (s.urb u).endpoint []
  | .waiting c => (s.urb u).timeout = true ∧ (Flying s es u c ∨ Landed s es u c true)
  | .woken c => (s.urb u).timeout = true ∧ Landed s es u c false
  | .cleared c => (s.urb u).timeout = false ∧ Landed s es u c false
  | .freeing c ret => (s.urb u).timeout = false ∧ Landed s es u c false ∧
      ret = (s.urb u).errorcode
  | .expired => (s.urb u).timeout = true ∧ ∃ c, Flying s es u c ∨ Landed s es u c true
  | .killing | .inKill => (s.urb u).timeout = false ∧
      (Apart s es u ∨ ∃ c, Flying s es u c ∨ Landed s es u c true)

/-- The URB has the channel, or its caller has just got it for it. -/
def Uses (s : Hcd) (u c : Nat) : Prop :=
  (s.urb u).hcpriv = some c ∨ s.sub u = .allocated c

/-- What the steps of a quiet run keep. -/
structure Inv (s : Hcd) (es : List Event) : Prop where
  crashed : s.crashed = false
  urbs : ∀ u, UrbInv s es u (s.sub u)
  used : ∀ c, (s.chan c).inuse = true → ∃ u, Uses s u c
  blank : ∀ c, (s.chan c).inuse = false → Blank (s.chan c)
  excl : ∀ u v c, Uses s u c → Uses s v c → u = v
  inOrder : EachAfter InOrder es

theorem inv_init : Inv .init [] where
  crashed := rfl
  urbs u := Or.inl ⟨rfl, show (0 : Int) ≠ errBusy by decide, rfl⟩
  used c h := by cases h
  blank c _ := ⟨rfl, rfl, rfl⟩
  excl u v c h := by
    rcases h with h | h
    · cases h
    · cases h
  inOrder := eachAfter_nil

section Steps

variable {s s' : Hcd} {es fs : List Event} {u v c : Nat} {pc : SubmitPc}

/-- A URB has no channel, or one that points back to it and works for it unless it is off. -/
theorem UrbInv.cases (h : UrbInv s es u pc) : Apart s es u ∨
    ∃ c, Linked s u c ∧ ((s.chan c).hw ≠ .off → Flying s es u c) := by
  have hflying : ∀ c, Flying s es u c →
      ∃ c, Linked s u c ∧ ((s.chan c).hw ≠ .off → Flying s es u c) :=
    fun c hc => ⟨c, hc.linked, fun _ => hc⟩
  have hoff : ∀ c, Linked s u c → (s.chan c).hw = .off →
      ∃ c, Linked s u c ∧ ((s.chan c).hw ≠ .off → Flying s es u c) :=
    fun c hc hhw => ⟨c, hc, fun hne => absurd hhw hne⟩
  have hboth : (∃ c, Flying s es u c ∨ Landed s es u c true) →
      ∃ c, Linked s u c ∧ ((s.chan c).hw ≠ .off → Flying s es u c) := by
    rintro ⟨c, hc | hc⟩
    · exact hflying c hc
    · exact hoff c hc.linked hc.hw
  cases pc with
  | idle => exact h.imp_right fun ⟨_, c, hc⟩ => hflying c hc
  | entered => exact Or.inl h
  | allocated c => exact Or.inl h.1
  | bound c => exact Or.inr (hoff c h.1 h.2.1)
  | waiting c => exact Or.inr (hboth ⟨c, h.2⟩)
  | woken c => exact Or.inr (hoff c h.2.linked h.2.hw)
  | cleared c => exact Or.inr (hoff c h.2.linked h.2.hw)
  | freeing c ret => exact Or.inr (hoff c h.2.1.linked h.2.1.hw)
  | expired => exact Or.inr (hboth h.2)
  | killing => exact h.2.imp_right hboth
  | inKill => exact h.2.imp_right hboth

theorem UrbInv.held (h : UrbInv s es u pc) (hc : (s.urb u).hcpriv = some c) :
    Linked s u c ∧ ((s.chan c).hw ≠ .off → Flying s es u c) := by
  rcases h.cases with hapart | ⟨d, hd⟩
  · exact absurd (hapart.hcpriv.symm.trans hc) (Option.some_ne_none c).symm
  · have heq : d = c := Option.some.inj (hd.1.hcpriv.symm.trans hc)
    exact heq ▸ hd

/-- Where the caller of a URB in flight stands. -/
theorem UrbInv.of_flying (h : UrbInv s es u pc) (hf : Flying s es u c) :
    (s.urb u).timeout = true ∧ (pc = .waiting c ∨ pc = .expired) ∨
      (s.urb u).timeout = false ∧ (pc = .idle ∨ pc = .killing ∨ pc = .inKill) := by
  have hapart : ¬ Apart s es u := fun ha =>
    absurd (ha.hcpriv.symm.trans hf.linked.hcpriv) (Option.some_ne_none c).symm
  have hoff : ∀ d, Linked s u d → (s.chan d).hw ≠ .off := by
    intro d hd
    have heq : d = c := Option.some.inj (hd.hcpriv.symm.trans hf.linked.hcpriv)
    exact heq ▸ hf.hw
  cases pc with
  | idle =>
    rcases h with ha | ⟨ht, -⟩
    · exact absurd ha hapart
    · exact Or.inr ⟨ht, Or.inl rfl⟩
  | entered => exact absurd h hapart
  | allocated d => exact absurd h.1 hapart
  | bound d => exact absurd h.2.1 (hoff d h.1)
  | waiting d =>
    have heq : d = c := by
      rcases h.2 with hd | hd
      · exact Option.some.inj (hd.linked.hcpriv.symm.trans hf.linked.hcpriv)
      · exact absurd hd.hw (hoff d hd.linked)
    exact Or.inl ⟨h.1, Or.inl (by rw [heq])⟩
  | woken d => exact absurd h.2.hw (hoff d h.2.linked)
  | cleared d => exact absurd h.2.hw (hoff d h.2.linked)
  | freeing d ret => exact absurd h.2.1.hw (hoff d h.2.1.linked)
  | expired => exact Or.inl ⟨h.1, Or.inr rfl⟩
  | killing => exact Or.inr ⟨h.1, Or.inr (Or.inl rfl)⟩
  | inKill => exact Or.inr ⟨h.1, Or.inr (Or.inr rfl)⟩

/-- A URB in flight is in flight after a step that leaves its caller. -/
theorem UrbInv.fly (h : UrbInv s es u pc) (hf : Flying s es u c) {es' : List Event}
    (htimeout : (s'.urb u).timeout = (s.urb u).timeout) (hf' : Flying s' es' u c) :
    UrbInv s' es' u pc := by
  rcases h.of_flying hf with ⟨ht, rfl | rfl⟩ | ⟨ht, rfl | rfl | rfl⟩
  · exact ⟨htimeout.trans ht, Or.inl hf'⟩
  · exact ⟨htimeout.trans ht, c, Or.inl hf'⟩
  · exact Or.inr ⟨htimeout.trans ht, c, hf'⟩
  · exact ⟨htimeout.trans ht, Or.inr ⟨c, Or.inl hf'⟩⟩
  · exact ⟨htimeout.trans ht, Or.inr ⟨c, Or.inl hf'⟩⟩

/-! ### Steps elsewhere -/

section Frame

variable {es' : List Event}

theorem Linked.frame (h : Linked s u c) (hurb : s'.urb u = s.urb u)
    (hchan : s'.chan c = s.chan c) : Linked s' u c :=
  ⟨hurb ▸ h.hcpriv, hchan ▸ h.urb, hchan ▸ h.inuse⟩

theorem Flying.frame (h : Flying s es u c) (hurb : s'.urb u = s.urb u)
    (hchan : s'.chan c = s.chan c) (hstatus : statusOf u es' = statusOf u es) :
    Flying s' es' u c where
  linked := h.linked.frame hurb hchan
  hw := hchan ▸ h.hw
  waitsem := hchan ▸ h.waitsem
  errorcode := hurb ▸ h.errorcode
  status := by
    rw [hurb, hchan, hstatus]
    exact h.status
  epDir := by
    rw [hurb, hchan]
    exact h.epDir

theorem Landed.frame {token : Bool} (h : Landed s es u c token) (hurb : s'.urb u = s.urb u)
    (hchan : s'.chan c = s.chan c) (hstatus : statusOf u es' = statusOf u es) :
    Landed s' es' u c token where
  linked := h.linked.frame hurb hchan
  hw := hchan ▸ h.hw
  waitsem := hchan ▸ h.waitsem
  errorcode := hurb ▸ h.errorcode
  status := by
    rw [hurb, hstatus]
    exact h.status

theorem Apart.frame (h : Apart s es u) (hurb : s'.urb u = s.urb u)
    (hstatus : statusOf u es' = statusOf u es) : Apart s' es' u :=
  ⟨hurb ▸ h.hcpriv, hurb ▸ h.errorcode, hstatus ▸ h.status⟩

/-- A URB keeps its invariant if it, its channel and its history are left alone. -/
theorem UrbInv.frame (h : UrbInv s es u pc) (hurb : s'.urb u = s.urb u)
    (hstatus : statusOf u es' = statusOf u es)
    (hchan : ∀ c, (s.urb u).hcpriv = some c ∨ pc = .allocated c → s'.chan c = s.chan c) :
    UrbInv s' es' u pc := by
  have hapart : Apart s es u → Apart s' es' u := fun ha => ha.frame hurb hstatus
  have hflying : ∀ c, Flying s es u c → Flying s' es' u c := fun c hc =>
    hc.frame hurb (hchan c (Or.inl hc.linked.hcpriv)) hstatus
  have hlanded : ∀ c token, Landed s es u c token → Landed s' es' u c token := fun c token hc =>
    hc.frame hurb (hchan c (Or.inl hc.linked.hcpriv)) hstatus
  have hboth : ∀ c, Flying s es u c ∨ Landed s es u c true →
      Flying s' es' u c ∨ Landed s' es' u c true := fun c =>
    Or.imp (hflying c) (hlanded c true)
  cases pc with
  | idle => exact h.imp hapart fun ⟨ht, c, hc⟩ => ⟨hurb ▸ ht, c, hflying c hc⟩
  | entered => exact hapart h
  | allocated c =>
    have heq := hchan c (Or.inr rfl)
    exact ⟨hapart h.1, heq ▸ h.2.1, heq ▸ h.2.2⟩
  | bound c =>
    have heq := hchan c (Or.inl h.1.hcpriv)
    exact ⟨h.1.frame hurb heq, heq ▸ h.2.1, heq ▸ h.2.2.1, hurb ▸ h.2.2.2.1,
      by rw [hurb, hstatus]; exact h.2.2.2.2⟩
  | waiting c => exact ⟨hurb ▸ h.1, hboth c h.2⟩
  | woken c => exact ⟨hurb ▸ h.1, hlanded c false h.2⟩
  | cleared c => exact ⟨hurb ▸ h.1, hlanded c false h.2⟩
  | freeing c ret => exact ⟨hurb ▸ h.1, hlanded c false h.2.1, hurb ▸ h.2.2⟩
  | expired => exact ⟨hurb ▸ h.1, h.2.imp hboth⟩
  | killing => exact ⟨hurb ▸ h.1, h.2.imp hapart (Exists.imp hboth)⟩
  | inKill => exact ⟨hurb ▸ h.1, h.2.imp hapart (Exists.imp hboth)⟩

end Frame

theorem Inv.inuse_of_uses (h : Inv s es) (hu : Uses s u c) : (s.chan c).inuse = true := by
  have hinv := h.urbs u
  rcases hu with hc | hpc
  · exact (hinv.held hc).1.inuse
  · rw [hpc] at hinv
    exact hinv.2.2

/-- A URB uses one channel at most. -/
theorem Inv.uses_unique (h : Inv s es) {d : Nat} (hc : Uses s u c) (hd : Uses s u d) : c = d := by
  have hinv := h.urbs u
  have hnot : ∀ c d, (s.urb u).hcpriv = some c → s.sub u ≠ .allocated d := by
    intro c d hc hpc
    rw [hpc] at hinv
    exact Option.some_ne_none c (hc.symm.trans hinv.1.hcpriv)
  rcases hc with hc | hc
  · rcases hd with hd | hd
    · exact Option.some.inj (hc.symm.trans hd)
    · exact absurd hd (hnot c d hc)
  · rcases hd with hd | hd
    · exact absurd hc (hnot d c hd)
    · exact SubmitPc.allocated.inj (hc.symm.trans hd)

/-- A channel that is at work works for a URB. -/
theorem Inv.owner (h : Inv s es) (hhw : (s.chan c).hw ≠ .off) : ∃ u, Flying s es u c := by
  cases hin : (s.chan c).inuse with
  | false => exact absurd (h.blank c hin).hw hhw
  | true =>
    obtain ⟨u, hc | hpc⟩ := h.used c hin
    · exact ⟨u, ((h.urbs u).held hc).2 hhw⟩
    · have hinv := h.urbs u
      rw [hpc] at hinv
      exact absurd hinv.2.1.hw hhw

/-- Only this URB and this channel have changed. -/
structure Touches (s s' : Hcd) (u c : Nat) : Prop where
  urb : ∀ v, v ≠ u → s'.urb v = s.urb v
  sub : ∀ v, v ≠ u → s'.sub v = s.sub v
  chan : ∀ d, d ≠ c → s'.chan d = s.chan d
  crashed : s'.crashed = s.crashed

/-- A step of one URB that touches at most one channel, its own or a free one. -/
theorem Inv.step_chan (h : Inv s es) (ht : Touches s s' u c) (hevents : ∀ e ∈ fs, e.urb = u)
    (hmine : Uses s u c ∨ (s.chan c).inuse = false ∧ ∀ d, ¬ Uses s u d)
    (hinv : UrbInv s' (es ++ fs) u (s'.sub u))
    (huses : ∀ d, Uses s' u d → d = c) (hin : (s'.chan c).inuse = true → Uses s' u c)
    (hout : (s'.chan c).inuse = false → Blank (s'.chan c))
    (horder : EachAfter InOrder (es ++ fs)) : Inv s' (es ++ fs) := by
  obtain ⟨hurb, hsub, hchan, hcrash⟩ := ht
  have hother : ∀ v d, v ≠ u → Uses s v d → d ≠ c := by
    rintro v d hne hv rfl
    rcases hmine with hu | ⟨hfree, -⟩
    · exact hne (h.excl v u d hv hu)
    · exact Bool.false_ne_true (hfree.symm.trans (h.inuse_of_uses hv))
  have hown : ∀ d, Uses s u d → d = c := by
    intro d hd
    rcases hmine with hu | ⟨-, hnone⟩
    · exact h.uses_unique hd hu
    · exact absurd hd (hnone d)
  have huses' : ∀ v d, v ≠ u → (Uses s' v d ↔ Uses s v d) := by
    intro v d hne
    rw [Uses, Uses, hurb v hne, hsub v hne]
  constructor
  · exact hcrash.trans h.crashed
  · intro v
    rcases eq_or_ne v u with rfl | hne
    · exact hinv
    · rw [hsub v hne]
      refine (h.urbs v).frame (hurb v hne) (statusOf_other hne es fs hevents) fun d hd => ?_
      exact hchan d (hother v d hne hd)
  · intro d hd
    rcases eq_or_ne d c with rfl | hne
    · exact ⟨u, hin hd⟩
    · rw [hchan d hne] at hd
      obtain ⟨v, hv⟩ := h.used d hd
      rcases eq_or_ne v u with rfl | hvu
      · exact absurd (hown d hv) hne
      · exact ⟨v, (huses' v d hvu).2 hv⟩
  · intro d hd
    rcases eq_or_ne d c with rfl | hne
    · exact hout hd
    · rw [hchan d hne] at hd ⊢
      exact h.blank d hd
  · intro v w d hv hw
    rcases eq_or_ne v u with rfl | hvu
    · rcases eq_or_ne w v with rfl | hwu
      · rfl
      · exact absurd (huses d hv) (hother w d hwu ((huses' w d hwu).1 hw))
    · rcases eq_or_ne w u with rfl | hwu
      · exact absurd (huses d hw) (hother v d hvu ((huses' v d hvu).1 hv))
      · exact h.excl v w d ((huses' v d hvu).1 hv) ((huses' w d hwu).1 hw)
  · exact horder

/-- A step of one URB that touches no channel. -/
theorem Inv.step_urb (h : Inv s es) (u : Nat)
    (hurb : ∀ v, v ≠ u → s'.urb v = s.urb v) (hsub : ∀ v, v ≠ u → s'.sub v = s.sub v)
    (hchan : s'.chan = s.chan) (hevents : ∀ e ∈ fs, e.urb = u)
    (hcrashed : s'.crashed = false) (hinv : UrbInv s' (es ++ fs) u (s'.sub u))
    (huses : ∀ d, Uses s' u d ↔ Uses s u d)
    (horder : EachAfter InOrder (es ++ fs)) : Inv s' (es ++ fs) := by
  have huses' : ∀ v d, Uses s' v d ↔ Uses s v d := by
    intro v d
    rcases eq_or_ne v u with rfl | hne
    · exact huses d
    · rw [Uses, Uses, hurb v hne, hsub v hne]
  constructor
  · exact hcrashed
  · intro v
    rcases eq_or_ne v u with rfl | hne
    · exact hinv
    · rw [hsub v hne]
      exact (h.urbs v).frame (hurb v hne) (statusOf_other hne es fs hevents) fun d _ =>
        congrFun hchan d
  · intro d hd
    rw [hchan] at hd
    exact (h.used d hd).imp fun v => (huses' v d).2
  · intro d hd
    rw [hchan] at hd ⊢
    exact h.blank d hd
  · exact fun v w d hv hw => h.excl v w d ((huses' v d).1 hv) ((huses' w d).1 hw)
  · exact horder

/-! ### The end of a transfer -/

@[simp]
theorem setChan_chan (s : Hcd) (c : Nat) (chan : Chan) : (s.setChan c chan).chan c = chan := by
  simp [Hcd.setChan]

theorem setChan_chan_of_ne (s : Hcd) {c d : Nat} (h : d ≠ c) (chan : Chan) :
    (s.setChan c chan).chan d = s.chan d := by
  simp [Hcd.setChan, h]

@[simp]
theorem setChan_urb (s : Hcd) (c : Nat) (chan : Chan) : (s.setChan c chan).urb = s.urb := rfl

@[simp]
theorem setUrb_chan (s : Hcd) (u : Nat) (urb : Urb) : (s.setUrb u urb).chan = s.chan := rfl

@[simp]
theorem setUrb_urb (s : Hcd) (u : Nat) (urb : Urb) : (s.setUrb u urb).urb u = urb := by
  simp [Hcd.setUrb]

theorem setUrb_urb_of_ne (s : Hcd) {u v : Nat} (h : v ≠ u) (urb : Urb) :
    (s.setUrb u urb).urb v = s.urb v := by
  simp [Hcd.setUrb, h]

theorem setUrb_setUrb (s : Hcd) (u : Nat) (urb urb' : Urb) :
    (s.setUrb u urb).setUrb u urb' = s.setUrb u urb' := by
  simp [Hcd.setUrb]

@[simp]
theorem setSub_sub (s : Hcd) (u : Nat) (pc : SubmitPc) : (s.setSub u pc).sub u = pc := by
  simp [Hcd.setSub]

theorem setSub_sub_of_ne (s : Hcd) {u v : Nat} (h : v ≠ u) (pc : SubmitPc) :
    (s.setSub u pc).sub v = s.sub v := by
  simp [Hcd.setSub, h]

theorem waitup_give {code : Int} (hc : (s.urb u).hcpriv = some c)
    (ht : (s.urb u).timeout = true) :
    s.waitup u code = (s.setUrb u { s.urb u with errorcode := code }).setChan c
      { s.chan c with waitsem := true } := by
  simp only [Hcd.waitup, hc, Hcd.release, setUrb_urb, setUrb_chan, ht, if_true]

theorem chanFree_linked (hurb : (s.chan c).urb = some u) :
    s.chanFree c = (s.setUrb u { s.urb u with hcpriv := none }).setChan c
      { s.chan c with urb := none, inuse := false } := by
  simp only [Hcd.chanFree, hurb]

theorem waitup_free {code : Int} (hc : (s.urb u).hcpriv = some c)
    (ht : (s.urb u).timeout = false) (hurb : (s.chan c).urb = some u) :
    s.waitup u code =
      (s.setUrb u { s.urb u with errorcode := code, hcpriv := none }).setChan c
        { s.chan c with urb := none, inuse := false } := by
  simp only [Hcd.waitup, hc, Hcd.release, setUrb_urb, ht, Bool.false_eq_true, if_false]
  rw [chanFree_linked (s := s.setUrb u _) hurb, setUrb_setUrb]
  simp only [setUrb_urb, setUrb_chan]

/-! Updates of one URB and one channel touch nothing else. -/

theorem Touches.refl (s : Hcd) (u c : Nat) : Touches s s u c :=
  ⟨fun _ _ => rfl, fun _ _ => rfl, fun _ _ => rfl, rfl⟩

theorem Touches.setChan (h : Touches s s' u c) (chan : Chan) : Touches s (s'.setChan c chan) u c :=
  ⟨h.urb, h.sub, fun d hne => (setChan_chan_of_ne s' hne chan).trans (h.chan d hne), h.crashed⟩

theorem Touches.setUrb (h : Touches s s' u c) (urb : Urb) : Touches s (s'.setUrb u urb) u c :=
  ⟨fun v hne => (setUrb_urb_of_ne s' hne urb).trans (h.urb v hne), h.sub, h.chan, h.crashed⟩

theorem Touches.setSub (h : Touches s s' u c) (pc : SubmitPc) : Touches s (s'.setSub u pc) u c :=
  ⟨h.urb, fun v hne => (setSub_sub_of_ne s' hne pc).trans (h.sub v hne), h.chan, h.crashed⟩

theorem Flying.not_allocated (hf : Flying s es u c) (h : UrbInv s es u pc) (d : Nat) :
    pc ≠ .allocated d := by
  rintro rfl
  exact Option.some_ne_none c (hf.linked.hcpriv.symm.trans h.1.hcpriv)

/-- A transfer with a sleeper is over: there is a token for it. -/
theorem Inv.land_give (h : Inv s es) (hf : Flying s es u c)
    (hpc : s.sub u = .waiting c ∨ s.sub u = .expired) (ht : Touches s s' u c)
    (hsub : s'.sub u = s.sub u) (htimeout : (s'.urb u).timeout = true)
    (hland : Landed s' (es ++ fs) u c true) (hevents : ∀ e ∈ fs, e.urb = u)
    (horder : EachAfter InOrder (es ++ fs)) : Inv s' (es ++ fs) := by
  refine h.step_chan ht hevents (Or.inl (Or.inl hf.linked.hcpriv)) ?_ ?_
    (fun _ => Or.inl hland.linked.hcpriv)
    (fun hout => absurd (hout.symm.trans hland.linked.inuse) Bool.false_ne_true) horder
  · rw [hsub]
    rcases hpc with hpc | hpc
    · rw [hpc]
      exact ⟨htimeout, Or.inr hland⟩
    · rw [hpc]
      exact ⟨htimeout, c, Or.inr hland⟩
  · rintro d (hd | hd)
    · exact Option.some.inj (hd.symm.trans hland.linked.hcpriv)
    · exact absurd (hsub.symm.trans hd) (hf.not_allocated (h.urbs u) d)

/-- A transfer without a sleeper is over: the channel is free. -/
theorem Inv.land_free (h : Inv s es) (hf : Flying s es u c)
    (hpc : s'.sub u = .idle ∨ s'.sub u = .killing ∨ s'.sub u = .inKill) (ht : Touches s s' u c)
    (htimeout : (s'.urb u).timeout = false) (hapart : Apart s' (es ++ fs) u)
    (hblank : Blank (s'.chan c)) (hinuse : (s'.chan c).inuse = false)
    (hevents : ∀ e ∈ fs, e.urb = u) (horder : EachAfter InOrder (es ++ fs)) :
    Inv s' (es ++ fs) := by
  have hnone : ∀ d, ¬ Uses s' u d := by
    rintro d (hd | hd)
    · exact Option.some_ne_none d (hd.symm.trans hapart.hcpriv)
    · rcases hpc with hpc | hpc | hpc
      · exact SubmitPc.noConfusion (hd.symm.trans hpc)
      · exact SubmitPc.noConfusion (hd.symm.trans hpc)
      · exact SubmitPc.noConfusion (hd.symm.trans hpc)
  refine h.step_chan ht hevents (Or.inl (Or.inl hf.linked.hcpriv)) ?_
    (fun d hd => absurd hd (hnone d))
    (fun hin => absurd (hinuse.symm.trans hin) Bool.false_ne_true) (fun _ => hblank) horder
  rcases hpc with hpc | hpc | hpc
  · rw [hpc]
    exact Or.inl hapart
  · rw [hpc]
    exact ⟨htimeout, Or.inl hapart⟩
  · rw [hpc]
    exact ⟨htimeout, Or.inl hapart⟩

/-- A transfer in flight comes to its end. -/
theorem Inv.land (h : Inv s es) (hf : Flying s es u c) (chan : Chan) (hoff : chan.hw = .off)
    (hsem : chan.waitsem = false) (hurb : chan.urb = some u) (hin : chan.inuse = true)
    (code : Int) (hcode : code ≠ errBusy) (hevents : ∀ e ∈ fs, e.urb = u)
    (hstatus : statusOf u (es ++ fs) = .landed code) (horder : EachAfter InOrder (es ++ fs)) :
    Inv ((s.setChan c chan).waitup u code) (es ++ fs) := by
  have hc : ((s.setChan c chan).urb u).hcpriv = some c := hf.linked.hcpriv
  have htouches := (Touches.refl s u c).setChan chan
  rcases (h.urbs u).of_flying hf with ⟨ht, hpc⟩ | ⟨ht, hpc⟩
  · -- somebody sleeps, or is about to give up
    rw [waitup_give hc ht]
    refine h.land_give hf hpc ((htouches.setUrb _).setChan _) rfl ?_ ?_ hevents horder
    · simp [ht]
    · exact ⟨⟨by simp [hf.linked.hcpriv], by simp [hurb], by simp [hin]⟩, by simp [hoff],
        by simp, by simp [hcode], by simp [hstatus]⟩
  · -- nobody sleeps
    rw [waitup_free hc ht (by rw [setChan_chan]; exact hurb)]
    refine h.land_free hf hpc ((htouches.setUrb _).setChan _) ?_ ?_ ?_ ?_ hevents horder
    · simp [ht]
    · exact ⟨by simp, by simp [hcode], by rw [hstatus]; rfl⟩
    · exact ⟨by simp, by simp [hoff], by simp [hsem]⟩
    · simp

/-- A transfer in flight goes on. -/
theorem Inv.fly_on (h : Inv s es) (hf : Flying s es u c) (ht : Touches s s' u c)
    (hsub : s'.sub u = s.sub u) (htimeout : (s'.urb u).timeout = (s.urb u).timeout)
    (hf' : Flying s' (es ++ fs) u c) (hevents : ∀ e ∈ fs, e.urb = u)
    (horder : EachAfter InOrder (es ++ fs)) : Inv s' (es ++ fs) := by
  refine h.step_chan ht hevents (Or.inl (Or.inl hf.linked.hcpriv)) ?_ ?_
    (fun _ => Or.inl hf'.linked.hcpriv)
    (fun hout => absurd (hout.symm.trans hf'.linked.inuse) Bool.false_ne_true) horder
  · rw [hsub]
    exact (h.urbs u).fly hf htimeout hf'
  · rintro d (hd | hd)
    · exact Option.some.inj (hd.symm.trans hf'.linked.hcpriv)
    · exact absurd (hsub.symm.trans hd) (hf.not_allocated (h.urbs u) d)

/-! ### The interrupt -/

theorem Setup.next_cases (setup : Setup) :
    setup.next = .inData ∨ setup.next = .outData ∨ setup.next = .inStatus := by
  rw [Setup.next]
  split
  · split
    · exact Or.inl rfl
    · exact Or.inr (Or.inl rfl)
  · exact Or.inr (Or.inr rfl)

/-- A completed stage starts the next one, or it was the last. -/
theorem Chan.xfrc_control (chan : Chan) (setup : Setup)
    (hdir : chan.epDir = chan.ep0State.dirIn) :
    (∃ st, chan.xfrc (.control setup) = ({ chan with ep0State := st }.controlUrbInit, none) ∧
      chan.ahead (.control setup) =
        chan.ep0State :: ({ chan with ep0State := st } : Chan).ahead (.control setup)) ∨
    chan.xfrc (.control setup) = ({ chan with ep0State := .setup }, some 0) ∧
      chan.ahead (.control setup) = [chan.ep0State] := by
  rw [Chan.xfrc, hdir]
  cases hst : chan.ep0State with
  | setup =>
    refine Or.inl ⟨setup.next, rfl, ?_⟩
    simp only [Chan.ahead, hst, Endpoint.stages]
    rcases setup.next_cases with hnext | hnext | hnext <;> rw [hnext]
  | inData => exact Or.inl ⟨.outStatus, rfl, by simp only [Chan.ahead, hst]⟩
  | outData => exact Or.inl ⟨.inStatus, rfl, by simp only [Chan.ahead, hst]⟩
  | inStatus => exact Or.inr ⟨rfl, by simp only [Chan.ahead, hst]⟩
  | outStatus => exact Or.inr ⟨rfl, by simp only [Chan.ahead, hst]⟩

theorem Cause.code_ne {cause : Cause} {code : Int} (h : cause.code = some code) :
    code ≠ errBusy ∧ code ≠ 0 := by
  revert h code
  cases cause <;> simp [Cause.code, errBusy, errIo, errStall, errNak, errBabble, errDt]

theorem statusOf_completed (u : Nat) (es : List Event) (code : Int) :
    statusOf u (es ++ [Event.completed u code]) = .landed code := by
  rw [statusOf_append]
  exact if_pos rfl

theorem statusOf_stage {done : List Ep0State} {endpoint : Endpoint} (st : Ep0State)
    (h : statusOf u es = .flying endpoint done) :
    statusOf u (es ++ [Event.stage u st]) = .flying endpoint (done ++ [st]) := by
  rw [statusOf_append, h]
  exact if_pos rfl

theorem setChan_setChan (s : Hcd) (c : Nat) (chan chan' : Chan) :
    (s.setChan c chan).setChan c chan' = s.setChan c chan' := by
  simp [Hcd.setChan]

theorem Chan.xfrc_stop (chan : Chan) (endpoint : Endpoint) :
    (chan.stop.xfrc endpoint).2 = (chan.xfrc endpoint).2 := by
  cases endpoint with
  | bulk dirIn => rfl
  | control setup =>
    simp only [Chan.xfrc]
    split
    · split <;> simp_all [Chan.stop]
    · split <;> simp_all [Chan.stop]

theorem irq_code {cause : Cause} {code : Int} (hurb : (s.chan c).urb = some u)
    (hcode : cause.code = some code) :
    s.irq c cause = (s.setChan c (s.chan c).stop).waitup u code := by
  have hurb' : ((s.setChan c (s.chan c).stop).chan c).urb = some u := by
    rw [setChan_chan]
    exact hurb
  simp only [Hcd.irq, hurb', hcode]

/-- The handler's part for `XFRC` when the transfer goes on. -/
theorem irq_stage {cause : Cause} (hurb : (s.chan c).urb = some u) (hcode : cause.code = none)
    {chan : Chan} (hr : (s.chan c).stop.xfrc (s.urb u).endpoint = (chan, none)) :
    s.irq c cause = s.setChan c chan := by
  have hurb' : ((s.setChan c (s.chan c).stop).chan c).urb = some u := by
    rw [setChan_chan]
    exact hurb
  have hr' : ((s.setChan c (s.chan c).stop).chan c).xfrc
      ((s.setChan c (s.chan c).stop).urb u).endpoint = (chan, none) := by
    rw [setChan_chan]
    exact hr
  simp only [Hcd.irq, hurb', hcode, hr', setChan_setChan]

/-- The handler's part for `XFRC` when it is complete. -/
theorem irq_done {cause : Cause} (hurb : (s.chan c).urb = some u) (hcode : cause.code = none)
    {chan : Chan} {code : Int}
    (hr : (s.chan c).stop.xfrc (s.urb u).endpoint = (chan, some code)) :
    s.irq c cause = (s.setChan c chan).waitup u code := by
  have hurb' : ((s.setChan c (s.chan c).stop).chan c).urb = some u := by
    rw [setChan_chan]
    exact hurb
  have hr' : ((s.setChan c (s.chan c).stop).chan c).xfrc
      ((s.setChan c (s.chan c).stop).urb u).endpoint = (chan, some code) := by
    rw [setChan_chan]
    exact hr
  simp only [Hcd.irq, hurb', hcode, hr', setChan_setChan]

theorem singleton_urb {e : Event} (he : e.urb = u) : ∀ f ∈ [e], f.urb = u := by
  intro f hf
  rw [List.mem_singleton.1 hf]
  exact he

/-- A halt that is no completed stage ends the transfer with its error. -/
theorem inv_irq_code (h : Inv s es) (hf : Flying s es u c) {cause : Cause} {code : Int}
    (hcode : cause.code = some code) : Inv (s.irq c cause) (es ++ emitIrq s c cause) := by
  have hemit : emitIrq s c cause = [.completed u code] := by
    simp only [emitIrq, hf.linked.urb, hcode]
  obtain ⟨done, hstatus, -⟩ := hf.status
  obtain ⟨hbusy, hzero⟩ := Cause.code_ne hcode
  rw [hemit, irq_code hf.linked.urb hcode]
  refine h.land hf (s.chan c).stop rfl hf.waitsem hf.linked.urb hf.linked.inuse
    code hbusy (singleton_urb rfl) (statusOf_completed u es code) ?_
  exact eachAfter_concat.2 ⟨h.inOrder, _, _, hstatus, fun heq => absurd heq hzero⟩

theorem inv_irq_bulk (h : Inv s es) (hf : Flying s es u c) {cause : Cause} {dirIn : Bool}
    (hcode : cause.code = none) (hendpoint : (s.urb u).endpoint = .bulk dirIn) :
    Inv (s.irq c cause) (es ++ emitIrq s c cause) := by
  have hemit : emitIrq s c cause = [.completed u 0] := by
    simp only [emitIrq, hf.linked.urb, hcode, hendpoint]
  obtain ⟨done, hstatus, hahead⟩ := hf.status
  have hxfrc : (s.chan c).stop.xfrc (s.urb u).endpoint = ((s.chan c).stop, some 0) := by
    rw [hendpoint]
    rfl
  rw [hemit, irq_done hf.linked.urb hcode hxfrc]
  refine h.land hf (s.chan c).stop rfl hf.waitsem hf.linked.urb hf.linked.inuse 0 (by decide)
    (singleton_urb rfl) (statusOf_completed u es 0) ?_
  refine eachAfter_concat.2 ⟨h.inOrder, _, _, hstatus, fun _ => ?_⟩
  rw [hendpoint] at hahead ⊢
  exact (List.append_nil done).symm.trans hahead

/-- A completed stage of a control transfer. -/
theorem inv_irq_control (h : Inv s es) (hf : Flying s es u c) {cause : Cause} {setup : Setup}
    (hcode : cause.code = none) (hendpoint : (s.urb u).endpoint = .control setup) :
    Inv (s.irq c cause) (es ++ emitIrq s c cause) := by
  have hemit : emitIrq s c cause = .stage u (s.chan c).ep0State ::
      (((s.chan c).stop.xfrc (.control setup)).2.map fun code => .completed u code).toList := by
    simp only [emitIrq, hf.linked.urb, hcode, hendpoint, Chan.xfrc_stop]
  obtain ⟨done, hstatus, hahead⟩ := hf.status
  have hstage := statusOf_stage (s.chan c).ep0State hstatus
  have horder : EachAfter InOrder (es ++ [Event.stage u (s.chan c).ep0State]) :=
    eachAfter_concat.2 ⟨h.inOrder, by simp only [InOrder, hstatus]; rfl⟩
  rw [hendpoint] at hahead
  rw [hemit]
  rcases Chan.xfrc_control (s.chan c).stop setup (hf.epDir setup hendpoint) with
    ⟨st, hxfrc, hnext⟩ | ⟨hxfrc, hlast⟩
  · -- the next stage
    rw [irq_stage hf.linked.urb hcode ((congrArg _ hendpoint).trans hxfrc), hxfrc]
    refine h.fly_on hf ((Touches.refl s u c).setChan _) rfl rfl ?_ (singleton_urb rfl) horder
    refine ⟨⟨hf.linked.hcpriv, ?_, ?_⟩, ?_, ?_, hf.errorcode, ⟨_, hstage, ?_⟩, ?_⟩
    · rw [setChan_chan]
      exact hf.linked.urb
    · rw [setChan_chan]
      exact hf.linked.inuse
    · rw [setChan_chan]
      exact Hw.noConfusion
    · rw [setChan_chan]
      exact hf.waitsem
    · rw [setChan_chan, setChan_urb, hendpoint, ← hahead, List.append_assoc]
      exact congrArg (done ++ ·) hnext.symm
    · intro setup' _
      rw [setChan_chan]
      rfl
  · -- the last one
    have hdone : done ++ [(s.chan c).ep0State] = (Endpoint.control setup).stages := by
      rw [← hahead]
      exact congrArg (done ++ ·) hlast.symm
    have hsplit : es ++ [Event.stage u (s.chan c).ep0State, .completed u 0] =
        es ++ [Event.stage u (s.chan c).ep0State] ++ [Event.completed u 0] := by simp
    rw [irq_done hf.linked.urb hcode ((congrArg _ hendpoint).trans hxfrc), hxfrc, Option.map_some,
      Option.toList_some]
    refine h.land hf { (s.chan c).stop with ep0State := .setup } rfl hf.waitsem hf.linked.urb
      hf.linked.inuse 0 (by decide) ?_ ?_ ?_
    · intro e he
      rcases List.mem_cons.1 he with rfl | he
      · rfl
      · exact singleton_urb (e := .completed u 0) rfl e he
    · rw [hsplit]
      exact statusOf_completed u _ 0
    · rw [hsplit]
      refine eachAfter_concat.2 ⟨horder, _, _, hstage, fun _ => ?_⟩
      rw [hendpoint]
      exact hdone

theorem inv_irq (h : Inv s es) {cause : Cause} (hhw : (s.chan c).hw = .halted cause) :
    Inv (s.irq c cause) (es ++ emitIrq s c cause) := by
  obtain ⟨u, hf⟩ := h.owner (c := c) (by rw [hhw]; exact Hw.noConfusion)
  cases hcode : cause.code with
  | some code => exact inv_irq_code h hf hcode
  | none =>
    cases hendpoint : (s.urb u).endpoint with
    | control setup => exact inv_irq_control h hf hcode hendpoint
    | bulk dirIn => exact inv_irq_bulk h hf hcode hendpoint

/-- The controller halts a channel. -/
theorem inv_halted (h : Inv s es) {cause : Cause} (hs : s.chanHalted c cause = some s') :
    Inv s' es := by
  simp only [Hcd.chanHalted] at hs
  split at hs
  · next hhw =>
    cases hs
    obtain ⟨u, hf⟩ := h.owner (c := c) (by rw [hhw]; exact Hw.noConfusion)
    rw [← List.append_nil es]
    refine h.fly_on hf ((Touches.refl s u c).setChan _) rfl rfl ?_ (by simp)
      (by rw [List.append_nil]; exact h.inOrder)
    rw [List.append_nil]
    obtain ⟨done, hstatus, hahead⟩ := hf.status
    refine ⟨⟨hf.linked.hcpriv, by simpa using hf.linked.urb, by simpa using hf.linked.inuse⟩,
      by simp, by simpa using hf.waitsem, hf.errorcode, ⟨done, hstatus, ?_⟩, ?_⟩
    · rw [setChan_chan]
      exact hahead
    · rw [setChan_chan]
      exact hf.epDir
  · cases hs

/-! ### `usbh_kill_urb` -/

/-- The section of `usbh_kill_urb` on a running transfer ends it. -/
theorem killSection_eq (hc : (s.urb u).hcpriv = some c) (hhw : (s.chan c).hw = .running) :
    s.killSection u = (s.setChan c (s.chan c).stop).waitup u errShutdown := by
  simp only [Hcd.killSection, Hcd.waitup, hc, Hcd.halt, hhw, setChan_urb]

theorem inv_killSection (h : Inv s es) (hruns : s.Runs u) :
    Inv (s.killSection u) (es ++ emitKill s u) := by
  obtain ⟨c, hc, hhw⟩ := hruns
  have hf := ((h.urbs u).held hc).2 (by rw [hhw]; exact Hw.noConfusion)
  obtain ⟨done, hstatus, -⟩ := hf.status
  rw [killSection_eq hc hhw, emitKill, hc]
  refine h.land hf (s.chan c).stop rfl hf.waitsem hf.linked.urb hf.linked.inuse errShutdown
    (by decide) (singleton_urb rfl) (statusOf_completed u es errShutdown) ?_
  exact eachAfter_concat.2 ⟨h.inOrder, _, _, hstatus, fun heq => absurd heq (by decide)⟩

/-- Without a sleeper the section takes the channel from the URB. -/
theorem killSection_hcpriv (h : Inv s es) (hruns : s.Runs u)
    (ht : (s.urb u).timeout = false) : ((s.killSection u).urb u).hcpriv = none := by
  obtain ⟨c, hc, hhw⟩ := hruns
  have hurb : ((s.setChan c (s.chan c).stop).chan c).urb = some u := by
    rw [setChan_chan]
    exact ((h.urbs u).held hc).1.urb
  rw [killSection_eq hc hhw, waitup_free (s := s.setChan c (s.chan c).stop) hc ht hurb]
  simp

/-! ### `usbh_submit_urb` -/

/-- A caller moves on without touching a channel. -/
theorem inv_move (h : Inv s es) (hchan : s'.chan = s.chan)
    (hurb : ∀ v, v ≠ u → s'.urb v = s.urb v) (hsub : ∀ v, v ≠ u → s'.sub v = s.sub v)
    (hcrashed : s'.crashed = s.crashed) (hhcpriv : (s'.urb u).hcpriv = (s.urb u).hcpriv)
    (hold : ∀ d, s.sub u ≠ .allocated d) (hnew : ∀ d, s'.sub u ≠ .allocated d)
    (hinv : UrbInv s' es u (s'.sub u)) : Inv s' es := by
  have hes : es ++ [] = es := List.append_nil es
  rw [← hes]
  refine h.step_urb u hurb hsub hchan (by simp) (hcrashed.trans h.crashed) (hes.symm ▸ hinv)
    (fun d => ?_) (hes.symm ▸ h.inOrder)
  rw [Uses, Uses, hhcpriv]
  constructor
  · rintro (hd | hd)
    · exact Or.inl hd
    · exact absurd hd (hnew d)
  · rintro (hd | hd)
    · exact Or.inl hd
    · exact absurd hd (hold d)

theorem inv_call (h : Inv s es) {endpoint : Endpoint} {timeout : Bool}
    (hquiet : (s.urb u).errorcode ≠ errBusy) (hs : s.call u endpoint timeout = some s') :
    Inv s' es := by
  simp only [Hcd.call] at hs
  split at hs
  · next hpc =>
    simp only [setUrb_urb, if_neg hquiet] at hs
    cases hs
    have hapart : Apart s es u := by
      have hinv := h.urbs u
      rw [hpc] at hinv
      rcases hinv with hapart | ⟨-, c, hf⟩
      · exact hapart
      · exact absurd hf.errorcode hquiet
    refine inv_move (u := u) h rfl (fun v hne => setUrb_urb_of_ne s hne _)
      (fun v hne => setSub_sub_of_ne _ hne _) rfl ?_ ?_ ?_ ?_
    · show ((s.setUrb u _).urb u).hcpriv = _
      rw [setUrb_urb]
    · rw [hpc]
      exact fun d => SubmitPc.noConfusion
    · rw [setSub_sub]
      exact fun d => SubmitPc.noConfusion
    · rw [setSub_sub]
      show Apart _ es u
      exact ⟨by simp [Hcd.setSub, hapart.hcpriv], by simpa [Hcd.setSub] using hquiet,
        hapart.status⟩
  · cases hs

theorem inv_alloc (h : Inv s es) {n : Nat} (hpc : s.sub u = .entered)
    (halloc : s.chanAlloc n = some c) :
    Inv ((s.setChan c { s.chan c with inuse := true }).setSub u (.allocated c)) es := by
  have hes : es ++ [] = es := List.append_nil es
  have hfree : (s.chan c).inuse = false := by
    have hfind := List.find?_some halloc
    simpa using hfind
  have hapart : Apart s es u := by
    have hinv := h.urbs u
    rw [hpc] at hinv
    exact hinv
  have hblank := h.blank c hfree
  rw [← hes]
  refine h.step_chan (((Touches.refl s u c).setChan _).setSub _) (by simp)
    (Or.inr ⟨hfree, ?_⟩) ?_ ?_ ?_ ?_ (hes.symm ▸ h.inOrder)
  · rintro d (hd | hd)
    · exact Option.some_ne_none d (hd.symm.trans hapart.hcpriv)
    · exact SubmitPc.noConfusion (hd.symm.trans hpc)
  · rw [setSub_sub, hes]
    exact ⟨⟨hapart.hcpriv, hapart.errorcode, hapart.status⟩,
      ⟨by simp [Hcd.setSub, hblank.urb], by simp [Hcd.setSub, hblank.hw],
        by simp [Hcd.setSub, hblank.waitsem]⟩, by simp [Hcd.setSub]⟩
  · rintro d (hd | hd)
    · exact absurd (hd.symm.trans hapart.hcpriv) (Option.some_ne_none d)
    · rw [setSub_sub] at hd
      exact (SubmitPc.allocated.inj hd).symm
  · exact fun _ => Or.inr (setSub_sub _ u _)
  · intro hout
    simp [Hcd.setSub] at hout

theorem inv_bind (h : Inv s es) (hpc : s.sub u = .allocated c) :
    Inv (((s.setChan c { s.chan c with urb := some u }).setUrb u
      { s.urb u with hcpriv := some c, errorcode := errBusy }).setSub u (.bound c))
      (es ++ [Event.submitted u (s.urb u).endpoint]) := by
  have hinv := h.urbs u
  rw [hpc] at hinv
  obtain ⟨hapart, hblank, hinuse⟩ := hinv
  refine h.step_chan ((((Touches.refl s u c).setChan _).setUrb _).setSub _) (singleton_urb rfl)
    (Or.inl (Or.inr hpc)) ?_ ?_ ?_ ?_ (eachAfter_concat.2 ⟨h.inOrder, hapart.status⟩)
  · rw [setSub_sub]
    refine ⟨⟨?_, ?_, ?_⟩, ?_, ?_, ?_, ?_⟩
    · simp [Hcd.setSub]
    · simp [Hcd.setSub]
    · simp [Hcd.setSub, hinuse]
    · simp [Hcd.setSub, hblank.hw]
    · simp [Hcd.setSub, hblank.waitsem]
    · simp [Hcd.setSub]
    · rw [statusOf_append]
      simp [Hcd.setSub, Status.after]
  · rintro d (hd | hd)
    · have hd' : some c = some d := by simpa [Hcd.setSub] using hd
      exact (Option.some.inj hd').symm
    · exact SubmitPc.noConfusion ((setSub_sub _ u _).symm.trans hd)
  · exact fun _ => Or.inl (by simp [Hcd.setSub])
  · intro hout
    simp [Hcd.setSub, hinuse] at hout

/-- The start of a bound transfer. -/
theorem inv_start (h : Inv s es) (hpc : s.sub u = .bound c) :
    Inv ((s.setChan c ((s.chan c).start (s.urb u).endpoint)).setSub u
      (if (s.urb u).timeout then .waiting c else .idle)) es := by
  have hes : es ++ [] = es := List.append_nil es
  have hinv := h.urbs u
  rw [hpc] at hinv
  obtain ⟨hlinked, hhw, hsem, hbusy, hstatus⟩ := hinv
  have hf : ∀ pc, Flying ((s.setChan c ((s.chan c).start (s.urb u).endpoint)).setSub u pc)
      es u c := by
    intro pc
    have hchan : ((s.setChan c ((s.chan c).start (s.urb u).endpoint)).setSub u pc).chan c =
        (s.chan c).start (s.urb u).endpoint := setChan_chan s c _
    refine ⟨⟨hlinked.hcpriv, ?_, ?_⟩, ?_, ?_, hbusy, ⟨[], hstatus, ?_⟩, ?_⟩
    · rw [hchan]
      cases (s.urb u).endpoint <;> exact hlinked.urb
    · rw [hchan]
      cases (s.urb u).endpoint <;> exact hlinked.inuse
    · rw [hchan]
      cases (s.urb u).endpoint <;> exact Hw.noConfusion
    · rw [hchan]
      cases (s.urb u).endpoint <;> exact hsem
    · rw [hchan]
      show ((s.chan c).start (s.urb u).endpoint).ahead (s.urb u).endpoint =
        (s.urb u).endpoint.stages
      cases (s.urb u).endpoint <;> rfl
    · intro setup hendpoint
      have hendpoint' : (s.urb u).endpoint = .control setup := hendpoint
      rw [hchan, hendpoint']
      rfl
  rw [← hes]
  refine h.step_chan (((Touches.refl s u c).setChan _).setSub _) (by simp)
    (Or.inl (Or.inl hlinked.hcpriv)) ?_ ?_ ?_ ?_ (hes.symm ▸ h.inOrder)
  · rw [setSub_sub, hes]
    cases ht : (s.urb u).timeout with
    | true => exact ⟨ht, Or.inl (hf _)⟩
    | false => exact Or.inr ⟨ht, c, hf _⟩
  · rintro d (hd | hd)
    · exact Option.some.inj (hd.symm.trans hlinked.hcpriv)
    · rw [setSub_sub] at hd
      split at hd
      · cases hd
      · cases hd
  · exact fun _ => Or.inl hlinked.hcpriv
  · exact fun hout => absurd (hout.symm.trans (hf _).linked.inuse) Bool.false_ne_true

/-- The sleeper takes its token. -/
theorem inv_take (h : Inv s es) (hpc : s.sub u = .waiting c) (hsem : (s.chan c).waitsem = true) :
    Inv ((s.setChan c { s.chan c with waitsem := false }).setSub u (.woken c)) es := by
  have hes : es ++ [] = es := List.append_nil es
  have hinv := h.urbs u
  rw [hpc] at hinv
  obtain ⟨ht, hf | hland⟩ := hinv
  · exact absurd (hf.waitsem.symm.trans hsem) Bool.false_ne_true
  rw [← hes]
  refine h.step_chan (((Touches.refl s u c).setChan _).setSub _) (by simp)
    (Or.inl (Or.inl hland.linked.hcpriv)) ?_ ?_ ?_ ?_ (hes.symm ▸ h.inOrder)
  · rw [setSub_sub, hes]
    refine ⟨ht, ⟨hland.linked.hcpriv, ?_, ?_⟩, ?_, ?_, hland.errorcode, hland.status⟩
    · simp [Hcd.setSub, hland.linked.urb]
    · simp [Hcd.setSub, hland.linked.inuse]
    · simp [Hcd.setSub, hland.hw]
    · simp [Hcd.setSub]
  · rintro d (hd | hd)
    · exact Option.some.inj (hd.symm.trans hland.linked.hcpriv)
    · exact SubmitPc.noConfusion ((setSub_sub _ u _).symm.trans hd)
  · exact fun _ => Or.inl hland.linked.hcpriv
  · intro hout
    simp [Hcd.setSub, hland.linked.inuse] at hout

/-- The caller that was woken frees the channel. -/
theorem inv_free (h : Inv s es) {ret : Int} (hpc : s.sub u = .freeing c ret) :
    Inv ((s.chanFree c).setSub u .idle) (es ++ [Event.returned u ret]) := by
  have hinv := h.urbs u
  rw [hpc] at hinv
  obtain ⟨ht, hland, rfl⟩ := hinv
  have hstatus : statusOf u (es ++ [Event.returned u (s.urb u).errorcode]) = statusOf u es := by
    rw [statusOf_append]
    rfl
  rw [chanFree_linked hland.linked.urb]
  have hapart : ∀ t : Hcd, t.urb u = { s.urb u with hcpriv := none } →
      Apart t (es ++ [Event.returned u (s.urb u).errorcode]) u := by
    intro t hurb
    exact ⟨by rw [hurb], by rw [hurb]; exact hland.errorcode, by rw [hstatus, hland.status]; rfl⟩
  refine h.step_chan ((((Touches.refl s u c).setUrb _).setChan _).setSub _) (singleton_urb rfl)
    (Or.inl (Or.inl hland.linked.hcpriv)) ?_ ?_ ?_ ?_
    (eachAfter_concat.2 ⟨h.inOrder, hland.status⟩)
  · rw [setSub_sub]
    exact Or.inl (hapart _ (by simp [Hcd.setSub]))
  · rintro d (hd | hd)
    · simp [Hcd.setSub] at hd
    · exact SubmitPc.noConfusion ((setSub_sub _ u _).symm.trans hd)
  · intro hin
    simp [Hcd.setSub] at hin
  · intro _
    exact ⟨by simp [Hcd.setSub], by simp [Hcd.setSub, hland.hw],
      by simp [Hcd.setSub, hland.waitsem]⟩

/-- A caller moves on, with at most its `timeout` cleared. -/
theorem inv_move_sub (h : Inv s es) (urb : Urb) (hhcpriv : urb.hcpriv = (s.urb u).hcpriv)
    (hold : ∀ d, s.sub u ≠ .allocated d) (hnew : ∀ d, pc ≠ .allocated d)
    (hinv : UrbInv ((s.setUrb u urb).setSub u pc) es u pc) :
    Inv ((s.setUrb u urb).setSub u pc) es := by
  refine inv_move (u := u) h rfl (fun v hne => setUrb_urb_of_ne s hne urb)
    (fun v hne => setSub_sub_of_ne _ hne pc) rfl ?_ hold ?_ ?_
  · show ((s.setUrb u urb).urb u).hcpriv = _
    rw [setUrb_urb, hhcpriv]
  · rw [setSub_sub]
    exact hnew
  · rw [setSub_sub]
    exact hinv

theorem setUrb_self (s : Hcd) (u : Nat) : s.setUrb u (s.urb u) = s := by
  simp [Hcd.setUrb]

/-- The facts about a landed URB and its channel do not name `timeout` or the caller. -/
theorem Landed.clear {token : Bool} (h : Landed s es u c token) (timeout : Bool)
    (pc : SubmitPc) :
    Landed ((s.setUrb u { s.urb u with timeout }).setSub u pc) es u c token where
  linked := ⟨by simp [Hcd.setSub, h.linked.hcpriv], h.linked.urb, h.linked.inuse⟩
  hw := h.hw
  waitsem := h.waitsem
  errorcode := by simpa [Hcd.setSub] using h.errorcode
  status := by simpa [Hcd.setSub] using h.status

theorem Flying.clear (h : Flying s es u c) (timeout : Bool) (pc : SubmitPc) :
    Flying ((s.setUrb u { s.urb u with timeout }).setSub u pc) es u c where
  linked := ⟨by simp [Hcd.setSub, h.linked.hcpriv], h.linked.urb, h.linked.inuse⟩
  hw := h.hw
  waitsem := h.waitsem
  errorcode := by simpa [Hcd.setSub] using h.errorcode
  status := by
    obtain ⟨done, hstatus, hahead⟩ := h.status
    refine ⟨done, ?_, ?_⟩
    · simpa [Hcd.setSub] using hstatus
    · simpa [Hcd.setSub] using hahead
  epDir := by
    have hdir := h.epDir
    simpa [Hcd.setSub] using hdir

theorem Apart.clear (h : Apart s es u) (timeout : Bool) (pc : SubmitPc) :
    Apart ((s.setUrb u { s.urb u with timeout }).setSub u pc) es u :=
  ⟨by simp [Hcd.setSub, h.hcpriv], by simpa [Hcd.setSub] using h.errorcode, h.status⟩

/-- A move of the caller alone is one with the `timeout` stored as it is. -/
theorem setSub_eq (s : Hcd) (u : Nat) (pc : SubmitPc) :
    s.setSub u pc = (s.setUrb u { s.urb u with timeout := (s.urb u).timeout }).setSub u pc := by
  rw [setUrb_self]

theorem inv_clear (h : Inv s es) (hpc : s.sub u = .woken c) :
    Inv ((s.setUrb u { s.urb u with timeout := false }).setSub u (.cleared c)) es := by
  have hinv := h.urbs u
  rw [hpc] at hinv
  refine inv_move_sub h _ rfl (by rw [hpc]; exact fun d => SubmitPc.noConfusion)
    (fun d => SubmitPc.noConfusion) ⟨?_, hinv.2.clear false _⟩
  simp [Hcd.setSub]

theorem inv_read (h : Inv s es) (hpc : s.sub u = .cleared c) :
    Inv (s.setSub u (.freeing c (s.urb u).errorcode)) es := by
  have hinv := h.urbs u
  rw [hpc] at hinv
  rw [setSub_eq]
  refine inv_move_sub h _ rfl (by rw [hpc]; exact fun d => SubmitPc.noConfusion)
    (fun d => SubmitPc.noConfusion) ⟨?_, hinv.2.clear _ _, ?_⟩
  · simpa [Hcd.setSub] using hinv.1
  · simp [Hcd.setSub]

theorem inv_expire (h : Inv s es) (hs : s.expire u = some s') : Inv s' es := by
  simp only [Hcd.expire] at hs
  split at hs
  · next c hpc =>
    split at hs
    · cases hs
    · cases hs
      have hinv := h.urbs u
      rw [hpc] at hinv
      rw [setSub_eq]
      refine inv_move_sub h _ rfl (by rw [hpc]; exact fun d => SubmitPc.noConfusion)
        (fun d => SubmitPc.noConfusion) ⟨?_, c, ?_⟩
      · simpa [Hcd.setSub] using hinv.1
      · exact hinv.2.imp (fun hf => hf.clear _ _) (fun hland => hland.clear _ _)
  · cases hs

theorem inv_giveUp (h : Inv s es) (hpc : s.sub u = .expired) :
    Inv ((s.setUrb u { s.urb u with timeout := false }).setSub u .killing) es := by
  have hinv := h.urbs u
  rw [hpc] at hinv
  obtain ⟨-, c, hc⟩ := hinv
  refine inv_move_sub h _ rfl (by rw [hpc]; exact fun d => SubmitPc.noConfusion)
    (fun d => SubmitPc.noConfusion) ⟨?_, Or.inr ⟨c, ?_⟩⟩
  · simp [Hcd.setSub]
  · exact hc.imp (fun hf => hf.clear _ _) (fun hland => hland.clear _ _)

/-- The check of `usbh_kill_urb`, called by the sleeper. -/
theorem inv_check (h : Inv s es) (hpc : s.sub u = .killing) :
    Inv (s.setSub u (if (s.urb u).hcpriv.isSome then .inKill else .idle)) es := by
  have hinv := h.urbs u
  rw [hpc] at hinv
  obtain ⟨ht, hcases⟩ := hinv
  have hold : ∀ d, s.sub u ≠ .allocated d := by
    rw [hpc]
    exact fun d => SubmitPc.noConfusion
  rw [setSub_eq]
  split
  · refine inv_move_sub h _ rfl hold (fun d => SubmitPc.noConfusion) ⟨?_, ?_⟩
    · simpa [Hcd.setSub] using ht
    · refine hcases.imp (fun ha => ha.clear _ _) (Exists.imp fun c => ?_)
      exact Or.imp (fun hf => hf.clear _ _) (fun hland => hland.clear _ _)
  · next hnone =>
    -- the interrupt has freed the channel in the meantime
    refine inv_move_sub h _ rfl hold (fun d => SubmitPc.noConfusion) (Or.inl ?_)
    rcases hcases with ha | ⟨c, hf | hland⟩
    · exact ha.clear _ _
    · rw [hf.linked.hcpriv] at hnone
      exact absurd rfl hnone
    · rw [hland.linked.hcpriv] at hnone
      exact absurd rfl hnone

/-- The section of `usbh_kill_urb`, called by the sleeper, and its return. -/
theorem inv_inKill (h : Inv s es) (hpc : s.sub u = .inKill) (hruns : s.Runs u) :
    Inv ((s.killSection u).setSub u .idle) (es ++ emitKill s u) := by
  have hinv := h.urbs u
  rw [hpc] at hinv
  have hnone := killSection_hcpriv h hruns hinv.1
  have hkilled := inv_killSection h hruns
  have hsub : (s.killSection u).sub u = .inKill := by
    obtain ⟨c, hc, hhw⟩ := hruns
    have hurb : ((s.setChan c (s.chan c).stop).chan c).urb = some u := by
      rw [setChan_chan]
      exact ((h.urbs u).held hc).1.urb
    rw [killSection_eq hc hhw, waitup_free (s := s.setChan c (s.chan c).stop) hc hinv.1 hurb]
    exact hpc
  have hinv' := hkilled.urbs u
  rw [hsub] at hinv'
  rw [setSub_eq]
  refine inv_move_sub hkilled _ rfl (by rw [hsub]; exact fun d => SubmitPc.noConfusion)
    (fun d => SubmitPc.noConfusion) (Or.inl ?_)
  rcases hinv'.2 with ha | ⟨c, hf | hland⟩
  · exact ha.clear _ _
  · exact absurd (hf.linked.hcpriv.symm.trans hnone) (Option.some_ne_none c)
  · exact absurd (hland.linked.hcpriv.symm.trans hnone) (Option.some_ne_none c)

theorem inv_submit {n : Nat} (h : Inv s es) (hquiet : s.sub u = .inKill → s.Runs u)
    (hs : s.submit n u = some s') : Inv s' (es ++ emit s (.submit u)) := by
  cases hpc : s.sub u with
  | idle =>
    simp only [Hcd.submit, hpc] at hs
    cases hs
  | entered =>
    simp only [Hcd.submit, hpc] at hs
    simp only [emit, hpc, List.append_nil]
    split at hs
    · next c halloc =>
      cases hs
      exact inv_alloc h hpc halloc
    · cases hs
      have hinv := h.urbs u
      rw [hpc] at hinv
      rw [setSub_eq]
      exact inv_move_sub h _ rfl (by rw [hpc]; exact fun d => SubmitPc.noConfusion)
        (fun d => SubmitPc.noConfusion) (Or.inl (hinv.clear _ _))
  | allocated c =>
    simp only [Hcd.submit, hpc] at hs
    simp only [emit, hpc]
    cases hs
    exact inv_bind h hpc
  | bound c =>
    simp only [Hcd.submit, hpc] at hs
    simp only [emit, hpc, List.append_nil]
    cases hs
    exact inv_start h hpc
  | waiting c =>
    simp only [Hcd.submit, hpc] at hs
    simp only [emit, hpc, List.append_nil]
    split at hs
    · next hsem =>
      cases hs
      exact inv_take h hpc hsem
    · cases hs
  | woken c =>
    simp only [Hcd.submit, hpc] at hs
    simp only [emit, hpc, List.append_nil]
    cases hs
    exact inv_clear h hpc
  | cleared c =>
    simp only [Hcd.submit, hpc] at hs
    simp only [emit, hpc, List.append_nil]
    cases hs
    exact inv_read h hpc
  | freeing c ret =>
    simp only [Hcd.submit, hpc] at hs
    simp only [emit, hpc]
    cases hs
    exact inv_free h hpc
  | expired =>
    simp only [Hcd.submit, hpc] at hs
    simp only [emit, hpc, List.append_nil]
    cases hs
    exact inv_giveUp h hpc
  | killing =>
    simp only [Hcd.submit, hpc] at hs
    simp only [emit, hpc, List.append_nil]
    cases hs
    exact inv_check h hpc
  | inKill =>
    simp only [Hcd.submit, hpc] at hs
    simp only [emit, hpc]
    cases hs
    exact inv_inKill h hpc (hquiet hpc)

/-- The tasks in `usbh_kill_urb` are not part of the invariant. -/
theorem Inv.withKiller (h : Inv s es) (killer : Nat → Option Nat) :
    Inv { s with killer } es := by
  refine ⟨h.crashed, fun u => ?_, h.used, h.blank, h.excl, h.inOrder⟩
  exact (h.urbs u).frame rfl rfl fun _ _ => rfl

theorem inv_step {n : Nat} {l : Label} (h : Inv s es) (hquiet : Quiet s l)
    (hs : (dwc2 n).step s l = some s') : Inv s' (es ++ emit s l) := by
  simp only [dwc2, h.crashed, Bool.false_eq_true, if_false] at hs
  cases l with
  | call u endpoint timeout =>
    simp only [emit, List.append_nil]
    exact inv_call h hquiet hs
  | submit u => exact inv_submit h hquiet hs
  | expire u =>
    simp only [emit, List.append_nil]
    exact inv_expire h hs
  | kill k u =>
    simp only [emit, List.append_nil]
    simp only [Hcd.kill] at hs
    split at hs
    · cases hs
      split
      · exact h.withKiller _
      · exact h
    · cases hs
  | killSection k =>
    simp only [Hcd.killerSection] at hs
    split at hs
    · next u hk =>
      cases hs
      simp only [emit, hk]
      exact (inv_killSection h (hquiet u hk)).withKiller _
    · cases hs
  | halted c cause =>
    simp only [emit, List.append_nil]
    exact inv_halted h hs
  | irq c =>
    simp only [Hcd.irqHandler] at hs
    split at hs
    · next cause hhw =>
      cases hs
      simp only [emit, hhw]
      exact inv_irq h hhw
    · cases hs

end Steps

theorem inv_of_reaches {n : Nat} {s : Hcd} {es : List Event}
    (h : ((dwc2 n).record emit).Reaches (fun p l => Quiet p.1 l) (.init, []) (s, es)) :
    Inv s es := by
  refine Machine.Reaches.invariant (I := fun p => Inv p.1 p.2) h inv_init ?_
  intro p l q hp hquiet hstep
  obtain ⟨hs, hes⟩ := Machine.record_step hstep
  rw [hes]
  exact inv_step hp hquiet hs

/-- **On one core every transfer is its own.** In every quiet run, whatever the order of callers,
killers, controller and interrupts: no NULL pointer is dereferenced, every transfer is completed
once and with code 0 only after all its stages, a sleeper that was woken returns the code of its
transfer, and a channel in use has one URB, a channel that is not has no transfer and no token. -/
theorem one_core_transfers_in_order {n : Nat} {s : Hcd} {es : List Event}
    (h : ((dwc2 n).record emit).Reaches (fun p l => Quiet p.1 l) (.init, []) (s, es)) :
    s.crashed = false ∧ EachAfter InOrder es ∧
      (∀ c, (s.chan c).inuse = true → ∃ u, Uses s u c ∧ ∀ v, Uses s v c → v = u) ∧
      ∀ c, (s.chan c).inuse = false → Blank (s.chan c) := by
  have hinv := inv_of_reaches h
  refine ⟨hinv.crashed, hinv.inOrder, fun c hc => ?_, hinv.blank⟩
  obtain ⟨u, hu⟩ := hinv.used c hc
  exact ⟨u, hu, fun v hv => hinv.excl v u c hv hu⟩

/-- `GET_DESCRIPTOR`, 18 bytes. -/
def getDescriptor : Setup := ⟨0x80, 18⟩

/-- A control transfer of URB 0 sleeps through its three stages while URB 1, a bulk transfer without
a sleeper, is killed by another task. -/
def twoTransfers : List Label :=
  [.call 0 (.control getDescriptor) true, .submit 0, .submit 0, .submit 0,
    .call 1 (.bulk true) false, .submit 1, .submit 1, .submit 1,
    .halted 0 .xfrc, .irq 0, .kill 5 1, .halted 0 .xfrc, .killSection 5, .irq 0,
    .halted 0 .xfrc, .irq 0, .submit 0, .submit 0, .submit 0, .submit 0]

theorem one_core_transfers_in_order_two : ∃ (s : Hcd) (es : List Event),
    s.crashed = false ∧ .returned 0 0 ∈ es ∧ .completed 1 errShutdown ∈ es ∧
      EachAfter InOrder es := by
  obtain ⟨⟨s, es⟩, hs, h0, h1⟩ := Machine.exists_reaches_of_runIf
    ((dwc2 8).record emit) (fun p l => Quiet p.1 l)
    (fun p => .returned 0 0 ∈ p.2 ∧ .completed 1 errShutdown ∈ p.2)
    (Hcd.init, []) twoTransfers (by decide)
  obtain ⟨hcrash, horder, -⟩ := one_core_transfers_in_order hs
  exact ⟨s, es, hcrash, h0, h1, horder⟩

end Cdc2Net.Source.Dwc2
