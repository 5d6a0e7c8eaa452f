import Cdc2Net.Source.Dwc2Channels

/-!
# A time-out that meets its completion

A sleeper whose time is over has not yet cleared `urb->timeout`; a transfer that ends before it does
gives the semaphore to nobody. `usbh_kill_urb` then frees the channel with the token on it, and the
next sleeper on that channel is woken at once: its `usbh_submit_urb` returns `-USB_ERR_BUSY` and
frees the channel while the controller is at work, and the interrupt finds no URB. Nor does it
after a `usbh_kill_urb` that meets a channel which has halted already: `dwc2_halt` leaves the
interrupt pending.
-/

set_option autoImplicit false

namespace Cdc2Net.Source.Dwc2

open Cdc2Net.Lib.Transition

/-- The halt ends the transfer, and not only one of its stages. -/
def Ends (s : Hcd) (u c : Nat) (cause : Cause) : Prop :=
  cause.code ≠ none ∨ ((s.chan c).xfrc (s.urb u).endpoint).2 ≠ none

/-- The controller ends the transfer of a sleeper that has just given up, and the sleeper kills
it. -/
def lateEnd (u c : Nat) (cause : Cause) : List Label :=
  [.halted c cause, .irq c, .submit u, .submit u, .submit u]

/-- The next transfer on the channel, and its interrupt. -/
def nextTransfer (v c : Nat) (endpoint : Endpoint) (cause : Cause) : List Label :=
  [.call v endpoint true, .submit v, .submit v, .submit v, .submit v, .submit v, .submit v,
    .submit v, .halted c cause, .irq c]

/-- What a step has left of one URB and one channel. -/
structure At (s s' : Hcd) (u c : Nat) (chan : Chan) (urb : Urb) (pc : SubmitPc) : Prop where
  touches : Touches s s' u c
  chan : s'.chan c = chan
  urb : s'.urb u = urb
  sub : s'.sub u = pc

section Steps

variable {s s' : Hcd} {u c n : Nat} {chan : Chan} {urb : Urb} {pc : SubmitPc}

theorem At.init (s : Hcd) (u c : Nat) : At s s u c (s.chan c) (s.urb u) (s.sub u) :=
  ⟨Touches.refl s u c, rfl, rfl, rfl⟩

theorem At.setChan (h : At s s' u c chan urb pc) (chan' : Chan) :
    At s (s'.setChan c chan') u c chan' urb pc :=
  ⟨h.touches.setChan chan', setChan_chan s' c chan', h.urb, h.sub⟩

theorem At.setUrb (h : At s s' u c chan urb pc) (urb' : Urb) :
    At s (s'.setUrb u urb') u c chan urb' pc :=
  ⟨h.touches.setUrb urb', h.chan, setUrb_urb s' u urb', h.sub⟩

theorem At.setSub (h : At s s' u c chan urb pc) (pc' : SubmitPc) :
    At s (s'.setSub u pc') u c chan urb pc' :=
  ⟨h.touches.setSub pc', h.chan, h.urb, setSub_sub s' u pc'⟩

theorem At.chanFree (h : At s s' u c chan urb pc) (hurb : chan.urb = some u) :
    At s (s'.chanFree c) u c { chan with urb := none, inuse := false }
      { urb with hcpriv := none } pc := by
  have hurb' : (s'.chan c).urb = some u := by rw [h.chan, hurb]
  rw [chanFree_linked hurb', h.chan, h.urb]
  exact (h.setUrb _).setChan _

theorem At.waitup (h : At s s' u c chan urb pc) (hcpriv : urb.hcpriv = some c)
    (ht : urb.timeout = true) (code : Int) :
    At s (s'.waitup u code) u c { chan with waitsem := true } { urb with errorcode := code }
      pc := by
  rw [waitup_give (c := c) (by rw [h.urb, hcpriv]) (by rw [h.urb, ht]), h.urb, h.chan]
  exact (h.setUrb _).setChan _

/-- The section of `usbh_kill_urb` on a channel that has halted frees the channel as it is. -/
theorem At.killSection (h : At s s' u c chan urb pc) (hcpriv : urb.hcpriv = some c)
    (ht : urb.timeout = false) (hurb : chan.urb = some u) (hoff : chan.hw ≠ .running) :
    At s (s'.killSection u) u c { chan with urb := none, inuse := false }
      { urb with errorcode := errShutdown, hcpriv := none } pc := by
  have hhalt : s'.halt c = s' := by
    rw [Hcd.halt, h.chan]
    split
    · next hrun => exact absurd hrun hoff
    · rfl
  simp only [Hcd.killSection, h.urb, hcpriv, hhalt, Hcd.release, setUrb_urb, ht,
    Bool.false_eq_true, if_false]
  exact (h.setUrb _).chanFree hurb

/-- An interrupt that ends the transfer of a sleeper. -/
theorem At.irq (h : At s s' u c chan urb pc) (hcpriv : urb.hcpriv = some c)
    (ht : urb.timeout = true) (hurb : chan.urb = some u) {cause : Cause}
    (hends : cause.code ≠ none ∨ (chan.xfrc urb.endpoint).2 ≠ none) :
    ∃ (chan' : Chan) (code : Int), chan'.urb = some u ∧ chan'.hw = .off ∧
      At s (s'.irq c cause) u c { chan' with waitsem := true } { urb with errorcode := code }
        pc := by
  have hurb' : (s'.chan c).urb = some u := by rw [h.chan, hurb]
  cases hcode : cause.code with
  | some code =>
    refine ⟨chan.stop, code, hurb, rfl, ?_⟩
    rw [irq_code hurb' hcode, h.chan]
    exact (h.setChan _).waitup hcpriv ht code
  | none =>
    have hdone : (chan.stop.xfrc urb.endpoint).2 ≠ none := by
      rw [Chan.xfrc_stop]
      exact hends.resolve_left fun hne => hne hcode
    obtain ⟨code, hsome⟩ := Option.ne_none_iff_exists'.1 hdone
    have hlast : ∃ chan' : Chan, chan.stop.xfrc urb.endpoint = (chan', some code) ∧
        chan'.urb = some u ∧ chan'.hw = .off := by
      refine ⟨(chan.stop.xfrc urb.endpoint).1, Prod.ext rfl hsome, ?_⟩
      cases hendpoint : urb.endpoint with
      | bulk dirIn => exact ⟨hurb, rfl⟩
      | control setup =>
        rw [hendpoint] at hsome
        revert hsome
        simp only [Chan.xfrc]
        split
        · split <;> simp [Chan.stop, hurb]
        · split <;> simp [Chan.stop, hurb]
    obtain ⟨chan', hxfrc, hchan'⟩ := hlast
    have hxfrc' : (s'.chan c).stop.xfrc (s'.urb u).endpoint = (chan', some code) := by
      rw [h.chan, h.urb]
      exact hxfrc
    refine ⟨chan', code, hchan'.1, hchan'.2, ?_⟩
    rw [irq_done hurb' hcode hxfrc']
    exact (h.setChan _).waitup hcpriv ht code

end Steps

/-! ## The two runs -/

section Runs

variable {s t s' : Hcd} {es es' : List Event} {u v c n : Nat} {l : Label} {ls : List Label}

/-- From `s` the labels lead to `s'`, and show `fs`. -/
def Leads (n : Nat) (s : Hcd) (ls : List Label) (s' : Hcd) (fs : List Event) : Prop :=
  ∀ es, ((dwc2 n).record emit).runIf (fun _ _ => True) (s, es) ls = some (s', es ++ fs)

theorem Leads.nil (n : Nat) (s : Hcd) : Leads n s [] s [] := by
  intro es
  rw [List.append_nil]
  rfl

theorem Leads.cons {fs : List Event} (hstep : (dwc2 n).step s l = some t)
    (h : Leads n t ls s' fs) : Leads n s (l :: ls) s' (emit s l ++ fs) := by
  intro es
  rw [Machine.runIf, if_pos trivial, ← List.append_assoc, ← h (es ++ emit s l)]
  show (((dwc2 n).step s l).map fun t => (t, es ++ emit s l)).bind _ = _
  rw [hstep]
  rfl

theorem step_submit (hcrashed : s.crashed = false) (h : s.submit n u = some t) :
    (dwc2 n).step s (.submit u) = some t := by
  simp only [dwc2, hcrashed, Bool.false_eq_true, if_false]
  exact h

/-- The channel is free and its semaphore is not. -/
structure Poisoned (chan : Chan) : Prop where
  inuse : chan.inuse = false
  urb : chan.urb = none
  hw : chan.hw = .off
  waitsem : chan.waitsem = true

/-- The sleeper that gave up frees the channel with the token of its transfer on it. -/
theorem lateEnd_poisons (h : Inv s es) (hu : s.sub u = .expired)
    (hc : (s.urb u).hcpriv = some c) (hhw : (s.chan c).hw = .running) {cause : Cause}
    (hends : Ends s u c cause) :
    ∃ t fs, Leads n s (lateEnd u c cause) t fs ∧ Touches s t u c ∧ Poisoned (t.chan c) := by
  have hf := ((h.urbs u).held hc).2 (by rw [hhw]; exact Hw.noConfusion)
  have ht : (s.urb u).timeout = true := by
    have hinv := h.urbs u
    rw [hu] at hinv
    exact hinv.1
  have h₀ := At.init s u c
  rw [hu] at h₀
  -- the controller, and the interrupt that gives the semaphore
  have h₁ := h₀.setChan { s.chan c with hw := .halted cause }
  have hurb₁ : ({ s.chan c with hw := .halted cause } : Chan).urb = some u := hf.linked.urb
  have hends₁ : cause.code ≠ none ∨
      (({ s.chan c with hw := .halted cause } : Chan).xfrc (s.urb u).endpoint).2 ≠ none := by
    refine hends.imp_right fun hne => ?_
    rw [← Chan.xfrc_stop] at hne ⊢
    exact hne
  obtain ⟨chan, code, hurb, hoff, h₂⟩ := h₁.irq hc ht hurb₁ hends₁
  have step₁ : (dwc2 n).step s (.halted c cause) = some (s.setChan c
      { s.chan c with hw := .halted cause }) := by
    simp only [dwc2, h.crashed, Bool.false_eq_true, if_false, Hcd.chanHalted, hhw]
  generalize hs₁ : s.setChan c { s.chan c with hw := .halted cause } = s₁ at *
  have hcrash₁ : s₁.crashed = false := h₁.touches.crashed.trans h.crashed
  have step₂ : (dwc2 n).step s₁ (.irq c) = some (s₁.irq c cause) := by
    simp only [dwc2, hcrash₁, Bool.false_eq_true, if_false, Hcd.irqHandler, h₁.chan]
  generalize s₁.irq c cause = s₂ at *
  have hcrash₂ : s₂.crashed = false := h₂.touches.crashed.trans h.crashed
  -- the sleeper clears `timeout`, and `usbh_kill_urb` frees the channel
  have step₃ := step_submit (n := n) hcrash₂ (show s₂.submit n u = some ((s₂.setUrb u
    { s₂.urb u with timeout := false }).setSub u .killing) by rw [Hcd.submit, h₂.sub])
  rw [h₂.urb] at step₃
  have h₃ := (h₂.setUrb { s.urb u with errorcode := code, timeout := false }).setSub .killing
  generalize (s₂.setUrb u _).setSub u .killing = s₃ at *
  have hcrash₃ : s₃.crashed = false := h₃.touches.crashed.trans h.crashed
  have step₄ := step_submit (n := n) hcrash₃ (show s₃.submit n u = some (s₃.setSub u .inKill) by
    simp only [Hcd.submit, h₃.sub, h₃.urb, hc, Option.isSome_some, if_true])
  have h₄ := h₃.setSub .inKill
  generalize s₃.setSub u .inKill = s₄ at *
  have hcrash₄ : s₄.crashed = false := h₄.touches.crashed.trans h.crashed
  have step₅ := step_submit (n := n) hcrash₄
    (show s₄.submit n u = some ((s₄.killSection u).setSub u .idle) by rw [Hcd.submit, h₄.sub])
  have hhalted : ({ chan with waitsem := true } : Chan).hw ≠ .running := by
    rw [show ({ chan with waitsem := true } : Chan).hw = .off from hoff]
    exact Hw.noConfusion
  have h₅ := (h₄.killSection hc rfl hurb hhalted).setSub .idle
  refine ⟨_, _, .cons step₁ (.cons step₂ (.cons step₃ (.cons step₄ (.cons step₅ (.nil n _))))),
    h₅.touches, ?_⟩
  rw [h₅.chan]
  exact ⟨rfl, rfl, hoff, rfl⟩

/-- A transfer on a channel with such a token is given up while the controller is at work, and its
interrupt dereferences NULL. -/
theorem nextTransfer_crashes (hcrashed : s.crashed = false) (hpoisoned : Poisoned (s.chan c))
    (hn : c < n) (hlow : ∀ d, d < c → (s.chan d).inuse = true) (hv : s.sub v = .idle)
    (hbusy : (s.urb v).errorcode ≠ errBusy) (endpoint : Endpoint) (cause : Cause) :
    ∃ t fs, Leads n s (nextTransfer v c endpoint cause) t fs ∧ .returned v errBusy ∈ fs ∧
      t.crashed = true := by
  -- fill, call and checks
  have step₁ : (dwc2 n).step s (.call v endpoint true) = some ((s.setUrb v
      { s.urb v with endpoint, timeout := true }).setSub v .entered) := by
    simp only [dwc2, hcrashed, Bool.false_eq_true, if_false, Hcd.call, hv, setUrb_urb,
      if_neg hbusy]
  have h₁ := ((At.init s v c).setUrb { s.urb v with endpoint, timeout := true }).setSub .entered
  generalize (s.setUrb v _).setSub v .entered = s₁ at *
  have hcrash₁ : s₁.crashed = false := h₁.touches.crashed.trans hcrashed
  -- the first channel that is not in use is this one
  have halloc : s₁.chanAlloc n = some c := by
    refine List.find?_range_eq_some.2 ⟨?_, List.mem_range.2 hn, fun d hd => ?_⟩
    · rw [h₁.chan, hpoisoned.inuse]
      rfl
    · rw [h₁.touches.chan d (Nat.ne_of_lt hd), hlow d hd]
      rfl
  have step₂ := step_submit (n := n) hcrash₁ (show s₁.submit n v = some ((s₁.setChan c
    { s₁.chan c with inuse := true }).setSub v (.allocated c)) by
      simp only [Hcd.submit, h₁.sub, halloc])
  have h₂ := (h₁.setChan { s₁.chan c with inuse := true }).setSub (.allocated c)
  rw [h₁.chan] at step₂ h₂
  generalize (s₁.setChan c _).setSub v (.allocated c) = s₂ at *
  have hcrash₂ : s₂.crashed = false := h₂.touches.crashed.trans hcrashed
  have step₃ := step_submit (n := n) hcrash₂ (show s₂.submit n v = some (((s₂.setChan c
    { s₂.chan c with urb := some v }).setUrb v
      { s₂.urb v with hcpriv := some c, errorcode := errBusy }).setSub v (.bound c)) by
      simp only [Hcd.submit, h₂.sub])
  have h₃ := ((h₂.setChan { s₂.chan c with urb := some v }).setUrb
    { s₂.urb v with hcpriv := some c, errorcode := errBusy }).setSub (.bound c)
  rw [h₂.chan, h₂.urb] at step₃ h₃
  generalize ((s₂.setChan c _).setUrb v _).setSub v (.bound c) = s₃ at *
  have hcrash₃ : s₃.crashed = false := h₃.touches.crashed.trans hcrashed
  -- the controller starts, and the semaphore lets the caller pass
  have step₄ := step_submit (n := n) hcrash₃ (show s₃.submit n v = some ((s₃.setChan c
    ((s₃.chan c).start (s₃.urb v).endpoint)).setSub v (.waiting c)) by
      simp only [Hcd.submit, h₃.sub, h₃.urb, if_true])
  have h₄ := (h₃.setChan ((s₃.chan c).start (s₃.urb v).endpoint)).setSub (.waiting c)
  rw [h₃.chan, h₃.urb] at step₄ h₄
  generalize hstart : Chan.start _ _ = chan at step₄ h₄
  have hchan : chan.hw = .running ∧ chan.waitsem = true ∧ chan.urb = some v := by
    rw [← hstart]
    cases endpoint
    · exact ⟨rfl, hpoisoned.waitsem, rfl⟩
    · exact ⟨rfl, hpoisoned.waitsem, rfl⟩
  generalize (s₃.setChan c _).setSub v (.waiting c) = s₄ at *
  have hcrash₄ : s₄.crashed = false := h₄.touches.crashed.trans hcrashed
  have step₅ := step_submit (n := n) hcrash₄ (show s₄.submit n v = some ((s₄.setChan c
    { s₄.chan c with waitsem := false }).setSub v (.woken c)) by
      simp only [Hcd.submit, h₄.sub, h₄.chan, hchan.2.1, if_true])
  have h₅ := (h₄.setChan { s₄.chan c with waitsem := false }).setSub (.woken c)
  rw [h₄.chan] at step₅ h₅
  generalize (s₄.setChan c _).setSub v (.woken c) = s₅ at *
  have hcrash₅ : s₅.crashed = false := h₅.touches.crashed.trans hcrashed
  have step₆ := step_submit (n := n) hcrash₅ (show s₅.submit n v = some ((s₅.setUrb v
    { s₅.urb v with timeout := false }).setSub v (.cleared c)) by simp only [Hcd.submit, h₅.sub])
  have h₆ := (h₅.setUrb { s₅.urb v with timeout := false }).setSub (.cleared c)
  rw [h₅.urb] at step₆ h₆
  generalize (s₅.setUrb v _).setSub v (.cleared c) = s₆ at *
  have hcrash₆ : s₆.crashed = false := h₆.touches.crashed.trans hcrashed
  -- `errorcode` is still what the submission has stored
  have step₇ := step_submit (n := n) hcrash₆ (show s₆.submit n v =
    some (s₆.setSub v (.freeing c (s₆.urb v).errorcode)) by simp only [Hcd.submit, h₆.sub])
  have h₇ := h₆.setSub (.freeing c (s₆.urb v).errorcode)
  rw [h₆.urb] at step₇ h₇
  generalize s₆.setSub v _ = s₇ at *
  have hcrash₇ : s₇.crashed = false := h₇.touches.crashed.trans hcrashed
  have step₈ := step_submit (n := n) hcrash₇
    (show s₇.submit n v = some ((s₇.chanFree c).setSub v .idle) by simp only [Hcd.submit, h₇.sub])
  have hemit : emit s₇ (.submit v) = [.returned v errBusy] := by
    simp only [emit, h₇.sub]
  have h₈ := (h₇.chanFree hchan.2.2).setSub .idle
  generalize (s₇.chanFree c).setSub v .idle = s₈ at *
  have hcrash₈ : s₈.crashed = false := h₈.touches.crashed.trans hcrashed
  have step₉ : (dwc2 n).step s₈ (.halted c cause) =
      some (s₈.setChan c { s₈.chan c with hw := .halted cause }) := by
    simp only [dwc2, hcrash₈, Bool.false_eq_true, if_false, Hcd.chanHalted, h₈.chan, hchan.1]
  have h₉ := h₈.setChan { s₈.chan c with hw := .halted cause }
  rw [h₈.chan] at step₉ h₉
  generalize s₈.setChan c _ = s₉ at *
  have hcrash₉ : s₉.crashed = false := h₉.touches.crashed.trans hcrashed
  have step₁₀ : (dwc2 n).step s₉ (.irq c) = some (s₉.irq c cause) := by
    simp only [dwc2, hcrash₉, Bool.false_eq_true, if_false, Hcd.irqHandler, h₉.chan]
  have hnone : ((s₉.setChan c (s₉.chan c).stop).chan c).urb = none := by
    rw [setChan_chan, h₉.chan]
    rfl
  refine ⟨_, _, .cons step₁ (.cons step₂ (.cons step₃ (.cons step₄ (.cons step₅ (.cons step₆
    (.cons step₇ (.cons step₈ (.cons step₉ (.cons step₁₀ (.nil n _)))))))))), ?_, ?_⟩
  · simp [hemit]
  · simp only [Hcd.irq, hnone]

/-- **A late end poisons the channel.** From every state of a quiet run in which the sleeper of a
running transfer has given up: if the transfer ends before the sleeper clears `timeout`, the
channel is freed with a token on it, and the next transfer of any URB with a sleeper that gets
this channel returns `-USB_ERR_BUSY` at once and its interrupt crashes. -/
theorem late_end_crashes
    (h : ((dwc2 n).record emit).Reaches (fun p l => Quiet p.1 l) (.init, []) (s, es))
    (hu : s.sub u = .expired) (hc : (s.urb u).hcpriv = some c)
    (hhw : (s.chan c).hw = .running) {cause : Cause} (hends : Ends s u c cause) (hn : c < n)
    (hlow : ∀ d, d < c → (s.chan d).inuse = true) (hv : s.sub v = .idle)
    (hbusy : (s.urb v).errorcode ≠ errBusy) (endpoint : Endpoint) (cause' : Cause) :
    ∃ t fs t' fs', Leads n s (lateEnd u c cause) t fs ∧
      Leads n t (nextTransfer v c endpoint cause') t' fs' ∧ .returned v errBusy ∈ fs' ∧
        t'.crashed = true := by
  obtain ⟨t, fs, hlead, htouches, hpoisoned⟩ :=
    lateEnd_poisons (n := n) (inv_of_reaches h) hu hc hhw hends
  have hvu : v ≠ u := by
    rintro rfl
    exact SubmitPc.noConfusion (hv.symm.trans hu)
  have hcrash : t.crashed = false := htouches.crashed.trans (inv_of_reaches h).crashed
  obtain ⟨t', fs', hlead', hret, hcrashed⟩ := nextTransfer_crashes (n := n) hcrash hpoisoned hn
    (fun d hd => by rw [htouches.chan d (Nat.ne_of_lt hd)]; exact hlow d hd)
    ((htouches.sub v hvu).trans hv) (by rw [htouches.urb v hvu]; exact hbusy) endpoint cause'
  exact ⟨t, fs, t', fs', hlead, hlead', hret, hcrashed⟩

/-- The device answers a control transfer with NAK when its sleeper has just given up; the next
transfer is a bulk write. -/
theorem late_end_crashes_nak : ∃ (s t t' : Hcd) (fs fs' : List Event),
    Leads 8 s (lateEnd 0 0 .nak) t fs ∧ Leads 8 t (nextTransfer 1 0 (.bulk false) .xfrc) t' fs' ∧
      .returned 1 errBusy ∈ fs' ∧ t'.crashed = true := by
  obtain ⟨⟨s, es⟩, hs, hu, hc, hhw, hv, hbusy⟩ := Machine.exists_reaches_of_runIf
    ((dwc2 8).record emit) (fun p l => Quiet p.1 l)
    (fun p => p.1.sub 0 = .expired ∧ (p.1.urb 0).hcpriv = some 0 ∧
      (p.1.chan 0).hw = .running ∧ p.1.sub 1 = .idle ∧ (p.1.urb 1).errorcode ≠ errBusy)
    (Hcd.init, [])
    [.call 0 (.control getDescriptor) true, .submit 0, .submit 0, .submit 0, .expire 0]
    (by decide)
  obtain ⟨t, fs, t', fs', h⟩ := late_end_crashes hs hu hc hhw
    (show Ends s 0 0 .nak from Or.inl (Option.some_ne_none _)) (by decide)
    (fun d hd => absurd hd (Nat.not_lt_zero d)) hv hbusy (.bulk false) .xfrc
  exact ⟨s, t, t', fs, fs', h⟩

/-- **A kill after the halt.** In every state of a quiet run: if another task is at the section of
`usbh_kill_urb` for a transfer without a sleeper, and its channel has halted in the meantime, the
section frees the channel and leaves the interrupt, which crashes. -/
theorem late_kill_crashes {k : Nat}
    (h : ((dwc2 n).record emit).Reaches (fun p l => Quiet p.1 l) (.init, []) (s, es))
    (hk : s.killer k = some u) (hc : (s.urb u).hcpriv = some c)
    (ht : (s.urb u).timeout = false) {cause : Cause} (hhw : (s.chan c).hw = .halted cause) :
    ∃ t fs, Leads n s [.killSection k, .irq c] t fs ∧ t.crashed = true := by
  have hinv := inv_of_reaches h
  have hlinked := ((hinv.urbs u).held hc).1
  have hnot : (s.chan c).hw ≠ .running := by
    rw [hhw]
    exact Hw.noConfusion
  have step₁ : (dwc2 n).step s (.killSection k) = some
      { s.killSection u with killer := Function.update s.killer k none } := by
    simp only [dwc2, hinv.crashed, Bool.false_eq_true, if_false, Hcd.killerSection, hk]
  have h₁ := (At.init s u c).killSection hc ht hlinked.urb hnot
  have hcrash₁ : (s.killSection u).crashed = false := h₁.touches.crashed.trans hinv.crashed
  generalize s.killSection u = s₁ at *
  have hhw₁ : (s₁.chan c).hw = .halted cause := by
    rw [h₁.chan]
    exact hhw
  have step₂ : (dwc2 n).step { s₁ with killer := Function.update s.killer k none } (.irq c) =
      some (Hcd.irq { s₁ with killer := Function.update s.killer k none } c cause) := by
    simp only [dwc2, hcrash₁, Bool.false_eq_true, if_false, Hcd.irqHandler, hhw₁]
  have hnone : (s₁.chan c).stop.urb = none := by
    rw [h₁.chan]
    rfl
  refine ⟨_, _, .cons step₁ (.cons step₂ (.nil n _)), ?_⟩
  simp only [Hcd.irq, setChan_chan, hnone]

/-- A bulk read is killed when its packet has just arrived. -/
theorem late_kill_crashes_read : ∃ (s t : Hcd) (fs : List Event),
    Leads 8 s [.killSection 5, .irq 0] t fs ∧ t.crashed = true := by
  obtain ⟨⟨s, es⟩, hs, hk, hc, ht, hhw⟩ := Machine.exists_reaches_of_runIf
    ((dwc2 8).record emit) (fun p l => Quiet p.1 l)
    (fun p => p.1.killer 5 = some 0 ∧ (p.1.urb 0).hcpriv = some 0 ∧
      (p.1.urb 0).timeout = false ∧ (p.1.chan 0).hw = .halted .xfrc)
    (Hcd.init, [])
    [.call 0 (.bulk true) false, .submit 0, .submit 0, .submit 0, .kill 5 0, .halted 0 .xfrc]
    (by decide)
  exact ⟨s, late_kill_crashes hs hk hc ht hhw⟩

end Runs

end Cdc2Net.Source.Dwc2
