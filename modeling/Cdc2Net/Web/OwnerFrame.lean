import Cdc2Net.SinkTcp.Ownership
import Cdc2Net.Web.SerialPost

/-!
# The web handler and the owner of the line

The TCP sink, a source that may be unplugged and reopened, and `POST /api/serial`, as one
machine. The handler does not ask who owns the line: it takes a coding marked 2 for a
controller's. A client owns the line from `comport_acquire` on, but the mark comes with its
first successful set.

`owner_undisturbed` says in which states no request can change the line under an owner, and
which runs stay in such states (`keepsOwner`); `owner_undisturbed_fails` leaves them with
nothing but a connection and a `WILL COM-PORT-OPTION`.
-/

set_option autoImplicit false

namespace Cdc2Net.Web

open Cdc2Net.Lib.Transition
open Cdc2Net.Source
open Cdc2Net.SinkTcp
open Cdc2Net.SinkTcp.Telnet

universe u v w x

/-- A step of the sink, a request, or a step of `stick_task`. -/
inductive ConfigLabel (ρ : Type v) (δ : Type w) where
  | sink (l : Label ρ)
  | post (req : SerialRequest) (r : NvsResults) (d : ρ)
  | closed
  | opened (r : ρ) (dev : δ)

section System

variable {σ : Type u} {ρ : Type v} {δ : Type w} {W : Type x} (src : SerialSource σ ρ δ W)

/-- A device is connected. -/
def attachedNow (b : Option σ) : Bool := b.any fun s => (src.serialInfo s).connected

/-- The sink and the NVS table. A source becomes ready only with a device. -/
def configSystem : Machine (World σ × NvsTable) (ConfigLabel ρ δ) where
  step p
    | .sink l =>
      if (l matches .replug) → attachedNow src p.1.bridge = true then
        ((sinkSystem (src.lineSource p.2)).step p.1 l).map fun w => (w, p.2)
      else none
    | .post req r d =>
      let o := hSerialPost src req r d p.2 p.1.bridge
      some ({ p.1 with bridge := o.2.2 }, o.2.1)
    | .closed =>
      if p.1.plug = .closing then
        some ({ p.1 with bridge := p.1.bridge.map src.closed }, p.2)
      else none
    | .opened r dev =>
      if p.1.plug = .gone then
        some ({ p.1 with bridge := p.1.bridge.map (src.opened p.2 r dev) }, p.2)
      else none

/-- No request changes the coding on the line. -/
def PostKeepsWire (nvs : NvsTable) (b : Option σ) : Prop :=
  ∀ req r d, (hSerialPost src req r d nvs b).2.2.map src.wire = b.map src.wire

/-- While a client owns the line, no request changes the coding on it. -/
def OwnerUndisturbed (p : World σ × NvsTable) : Prop :=
  p.1.sink.ctrlClient ≠ none → PostKeepsWire src p.2 p.1.bridge

/-- The handler keeps off: the coding is marked a controller's, or none reaches a line. -/
def keepsOff (b : Option σ) : Bool :=
  b.all fun s => (src.serialInfo s).lcSource = 2 || !(src.serialInfo s).connected ||
    !src.drives s

/-- After the revert no coding reaches a line, or the driver refused the coding. -/
def revertsOff (nvs : NvsTable) (r : ρ) (b : Option σ) : Bool :=
  b.all fun s => !(src.serialInfo s).connected || !src.drives s ||
    (src.applyLc r s (src.revertCoding nvs s).1 (src.revertCoding nvs s).2).1 ≠ .ok

/-- A client comes to own the line only where the handler keeps off already; under an owner
no revert is made, and no device opened, after which it does not. -/
def keepsOwner (p : World σ × NvsTable) : ConfigLabel ρ δ → Bool
  | .sink (.acquire _) => p.1.sink.ctrlClient.isSome || keepsOff src p.1.bridge
  | .sink (.revert r) => p.1.sink.ctrlClient.isNone || revertsOff src p.2 r p.1.bridge
  | .opened r dev => p.1.sink.ctrlClient.isNone || p.1.bridge.all (src.opensOff r dev)
  | _ => true

end System

/-! ## One request -/

section Request

variable {σ : Type u} {ρ : Type v} {δ : Type w} {W : Type x} {src : SerialSource σ ρ δ W}
  {nvs : NvsTable} {s : σ} {b : Option σ}

theorem keepsOff_some : keepsOff src (some s) = true ↔ (src.serialInfo s).lcSource = 2 ∨
    (src.serialInfo s).connected = false ∨ src.drives s = false := by
  simp [keepsOff, or_assoc]

/-- An apply that fails, or that is marked 2, leaves the handler off. -/
theorem keepsOff_apply (r : ρ) (s : σ) (lc : LineCoding) (t : UInt8)
    (h : keepsOff src (some s) = true) (hmark : (src.applyLc r s lc t).1 = .ok → t = 2) :
    keepsOff src (some (src.applyLc r s lc t).2) = true := by
  rw [keepsOff_some] at h ⊢
  by_cases hok : (src.applyLc r s lc t).1 = .ok
  · -- the new mark decides
    rw [src.info_ok r s lc t hok]
    exact .inl (hmark hok)
  · rw [src.info_err r s lc t hok, src.drives_apply]
    exact h

/-- An apply of the handler goes to a connected device with an unmarked coding. -/
theorem appliesLive_some {key : List UInt8} (h : appliesLive (some (src.serialInfo s)) key = true) :
    (src.serialInfo s).connected = true ∧ (src.serialInfo s).lcSource ≠ 2 := by
  simp only [appliesLive, Option.any_some, Bool.and_eq_true, decide_eq_true_eq, ne_eq] at h
  exact h.1

/-- An apply is decided only where the guard lets it. -/
theorem appliesLive_of_apply {info : Option SerialInfo} {req : SerialRequest} {r : NvsResults}
    {lc : LineCoding} {t : UInt8} {resp : Bool → SerialResponse}
    (h : (postDecide info req r nvs).2 = .apply lc t resp) :
    ∃ key, appliesLive info key = true := by
  simp only [postDecide] at h
  split at h
  · cases h
  · next key _ =>
    refine ⟨key, ?_⟩
    split at h
    · cases h
    · split at h
      · simp only at h
        split at h
        · assumption
        · cases h
      · simp only at h
        split at h
        · cases h
        · split at h
          · assumption
          · cases h

/-- Where the handler keeps off, a request leaves the line and stays off. -/
theorem hSerialPost_of_keepsOff (h : keepsOff src b = true) (req : SerialRequest)
    (r : NvsResults) (d : ρ) :
    (hSerialPost src req r d nvs b).2.2.map src.wire = b.map src.wire ∧
      keepsOff src (hSerialPost src req r d nvs b).2.2 = true := by
  simp only [hSerialPost]
  split
  · exact ⟨rfl, h⟩
  · next lc t resp happly =>
    obtain ⟨key, hlive⟩ := appliesLive_of_apply happly
    cases b with
    | none => exact ⟨rfl, rfl⟩
    | some s =>
      obtain ⟨hconn, hsrc⟩ := appliesLive_some hlive
      have hidle : src.drives s = false := by
        simpa [keepsOff, hconn, hsrc] using h
      refine ⟨congrArg some (src.wire_idle d s lc t hidle), ?_⟩
      simp [keepsOff, sourceApply, src.drives_apply, hidle]

/-- Two baud rates the handler takes. -/
def probe (key : List UInt8) (baud : Int) : SerialRequest :=
  ⟨some key, false, some baud, none, none, none⟩

/-- An upsert for the attached device reaches its line. -/
theorem hSerialPost_probe (nvs : NvsTable) (hconn : (src.serialInfo s).connected = true)
    (hsrc : (src.serialInfo s).lcSource ≠ 2) (hdrives : src.drives s = true) (baud : Int) :
    ∃ d, (hSerialPost src (probe (src.serialInfo s).key baud) .allOk d nvs (some s)).2.2.map
      src.wire = some (src.wireOf (probe (src.serialInfo s).key baud).coding) := by
  have hkey := (src.keyed s hconn).ne_nil
  obtain ⟨d, hd⟩ := src.exists_ok s (probe (src.serialInfo s).key baud).coding 1
  have hup : (serialcfgUpsert .allOk nvs (src.serialInfo s).key
      (probe (src.serialInfo s).key baud).coding).1 = .ok := by
    rw [serialcfgUpsert, if_neg hkey]
    rfl
  have hdecide : (postDecide (some (src.serialInfo s)) (probe (src.serialInfo s).key baud) .allOk
      nvs).2 = .apply (probe (src.serialInfo s).key baud).coding 1 .saved := by
    have hlive := (appliesLive_own hconn).2 hsrc
    simp only [postDecide, probe, if_neg hkey, Bool.false_eq_true, if_false] at hup ⊢
    simp only [hup, ne_eq, not_true_eq_false, if_false, hlive, if_true]
  refine ⟨d, ?_⟩
  simp only [hSerialPost, Option.map_some, hdecide, sourceApply]
  rw [src.wire_ok d s _ 1 hd hdrives]

/-- No request can change the line exactly where the handler keeps off. -/
theorem postKeepsWire_iff (nvs : NvsTable) (b : Option σ) :
    PostKeepsWire src nvs b ↔ keepsOff src b = true := by
  refine ⟨fun h => ?_, fun h req r d => (hSerialPost_of_keepsOff h req r d).1⟩
  by_contra hnot
  cases b with
  | none => exact hnot rfl
  | some s =>
    obtain ⟨⟨hsrc, hconn⟩, hdrives⟩ : ((src.serialInfo s).lcSource ≠ 2 ∧
        (src.serialInfo s).connected = true) ∧ src.drives s = true := by
      simpa [keepsOff] using hnot
    -- of two rates at least one is new to the line
    obtain ⟨d, hd⟩ := hSerialPost_probe nvs hconn hsrc hdrives 300
    obtain ⟨d', hd'⟩ := hSerialPost_probe nvs hconn hsrc hdrives 301
    have hone := (h _ _ d).symm.trans hd
    have htwo := (h _ _ d').symm.trans hd'
    have hbaud := src.wireOf_baud _ _ (Option.some.inj (hone.symm.trans htwo))
    have hne : (300 : UInt32) ≠ 301 := by decide
    exact hne hbaud

end Request

/-! ## One step -/

section Step

variable {σ : Type u} {ρ : Type v} {δ : Type w} {W : Type x} {src : SerialSource σ ρ δ W}
  {nvs : NvsTable} {w w' : World σ} {p q : World σ × NvsTable} {b : Option σ}

theorem ownerUndisturbed_iff (p : World σ × NvsTable) :
    OwnerUndisturbed src p ↔ (p.1.sink.ctrlClient ≠ none → keepsOff src p.1.bridge = true) := by
  rw [OwnerUndisturbed, postKeepsWire_iff]

/-- The line of a sink state, and whether the handler keeps off it. -/
def Line.Off (src : SerialSource σ ρ δ W) (line : Line σ) : Prop :=
  line.owner ≠ none → keepsOff src line.bridge = true

/-- A revert leaves the handler off if no coding reaches a line after it, or it failed. -/
theorem keepsOff_revert (r : ρ) (h : keepsOff src b = true) :
    keepsOff src ((src.lineSource nvs).bridgeRevertLineCoding b r) = true ↔
      revertsOff src nvs r b = true := by
  cases b with
  | none => exact Iff.rfl
  | some s =>
    have hrevert : (src.lineSource nvs).bridgeRevertLineCoding (some s) r =
      some (src.applyLc r s (src.revertCoding nvs s).1 (src.revertCoding nvs s).2).2 := rfl
    rw [hrevert, keepsOff_some, src.drives_apply]
    rw [keepsOff_some] at h
    by_cases hok : (src.applyLc r s (src.revertCoding nvs s).1 (src.revertCoding nvs s).2).1 = .ok
    · -- the table's coding is not marked 2
      rw [src.info_ok r s _ _ hok]
      simp [revertsOff, hok, src.revert_unmarked nvs s]
    · rw [src.info_err r s _ _ hok]
      simp [revertsOff, hok, h]

/-- Steps of the sink other than an acquire and a revert leave the handler off: an apply
marks the coding 2, and the others take the owner away or do not touch the line. -/
theorem LineStep.keepsOff {l : Label ρ} {line : Line σ} (h : Line.Off src w.line)
    (hline : LineStep (src.lineSource nvs) w l line) (hacq : ∀ i, l ≠ .acquire i)
    (hrev : ∀ r, l ≠ .revert r) : Line.Off src line := by
  cases hline with
  | quiet l => exact h
  | apply i r new hcall =>
    intro howner
    have hoff := h howner
    change Web.keepsOff src ((src.lineSource nvs).bridgeApplyLineCoding w.bridge r new).2 = true
    cases hb : w.bridge with
    | none => rfl
    | some s =>
      have hs : Web.keepsOff src (some s) = true := hb ▸ hoff
      exact keepsOff_apply r s new 2 hs fun _ => rfl
  | acquire i hfree => exact absurd rfl (hacq i)
  | release i howner hpc => exact fun hne => absurd rfl hne
  | revert r hpos => exact absurd rfl (hrev r)
  | lose l hl => exact fun hne => absurd rfl hne

/-- What a step of the sink does to an undisturbed owner. -/
theorem sink_step_off_iff (hs : SlotInv w) (h : Line.Off src w.line) {l : Label ρ}
    (hw : (sinkSystem (src.lineSource nvs)).step w l = some w') :
    Line.Off src w'.line ↔ keepsOwner src (w, nvs) (.sink l) = true := by
  have hline := (step_line hs hw).1
  cases l with
  | acquire i =>
    obtain ⟨todo, -, rfl⟩ := World.stepAcquire_cases hw
    by_cases hfree : w.sink.ctrlClient = none
    · -- slot `i` owns the line now, whatever it is marked
      simp [Line.Off, World.line, World.setTask, Sink.comportAcquire, keepsOwner, hfree]
    · have hoff : Web.keepsOff src w.bridge = true := h hfree
      simp [Line.Off, World.line, World.setTask, Sink.comportAcquire, keepsOwner, hfree, hoff]
  | revert r =>
    obtain ⟨-, rfl⟩ := World.stepRevert_cases hw
    by_cases hfree : w.sink.ctrlClient = none
    · simp [Line.Off, World.line, keepsOwner, hfree]
    · have hoff : Web.keepsOff src w.bridge = true := h hfree
      simp [Line.Off, World.line, keepsOwner, hfree, keepsOff_revert r hoff]
  | _ =>
    exact iff_of_true
      (LineStep.keepsOff h hline (fun _ h => by cases h) fun _ h => by cases h) rfl

/-- Every step of the whole system from an undisturbed owner: the next state is undisturbed
exactly if the step meets `keepsOwner`. -/
theorem step_undisturbed_iff {l : ConfigLabel ρ δ} (hs : SlotInv p.1)
    (h : OwnerUndisturbed src p) (hstep : (configSystem src).step p l = some q) :
    SlotInv q.1 ∧ (OwnerUndisturbed src q ↔ keepsOwner src p l = true) := by
  rw [ownerUndisturbed_iff] at h ⊢
  cases l with
  | sink l =>
    simp only [configSystem, Option.ite_none_right_eq_some] at hstep
    obtain ⟨-, hstep⟩ := hstep
    obtain ⟨w', hw, rfl⟩ := Option.map_eq_some_iff.1 hstep
    exact ⟨hs.step hw, sink_step_off_iff hs h hw⟩
  | post req r d =>
    -- the handler is kept off, and stays so
    cases hstep
    exact ⟨hs.of_same (.of_eq rfl rfl rfl rfl) fun _ => Iff.rfl,
      iff_of_true (fun howner => (hSerialPost_of_keepsOff (h howner) req r d).2) rfl⟩
  | closed =>
    simp only [configSystem, Option.ite_none_right_eq_some] at hstep
    obtain ⟨-, hstep⟩ := hstep
    cases hstep
    refine ⟨hs.of_same (.of_eq rfl rfl rfl rfl) fun _ => Iff.rfl, iff_of_true ?_ rfl⟩
    intro howner
    cases hb : p.1.bridge with
    | none => simp [Web.keepsOff]
    | some s =>
      have hoff := h howner
      rw [hb] at hoff
      -- a soldered-in module does not close
      rcases src.closed_off s with hsame | hoff'
      · simpa [hb, hsame] using hoff
      · simpa [hb] using keepsOff_some.2 (.inr (.inl hoff'))
  | opened r dev =>
    simp only [configSystem, Option.ite_none_right_eq_some] at hstep
    obtain ⟨-, hstep⟩ := hstep
    cases hstep
    refine ⟨hs.of_same (.of_eq rfl rfl rfl rfl) fun _ => Iff.rfl, ?_⟩
    by_cases hfree : p.1.sink.ctrlClient = none
    · exact iff_of_true (fun hne => absurd hfree hne) (by simp [keepsOwner, hfree])
    · cases hb : p.1.bridge with
      | none => simp [keepsOwner, hfree, hb, Web.keepsOff]
      | some s =>
        have hopen := src.opened_off p.2 r dev s
        rw [← keepsOff_some] at hopen
        simp [keepsOwner, hfree, hb, hopen]

end Step

/-! ## Runs -/

section Runs

variable {σ : Type u} {ρ : Type v} {δ : Type w} {W : Type x}

theorem undisturbed_reaches {src : SerialSource σ ρ δ W} {plug : PlugState} {bridge : Option σ}
    {nvs : NvsTable} {p : World σ × NvsTable}
    (h : (configSystem src).Reaches (fun p l => keepsOwner src p l = true)
      (World.start plug bridge, nvs) p) : SlotInv p.1 ∧ OwnerUndisturbed src p := by
  refine Machine.Reaches.invariant (I := fun p => SlotInv p.1 ∧ OwnerUndisturbed src p) h
    ⟨.start plug bridge, fun hne => absurd rfl hne⟩ ?_
  rintro p l q ⟨hs, hoff⟩ hok hstep
  obtain ⟨hs', hiff⟩ := step_undisturbed_iff hs hoff hstep
  exact ⟨hs', hiff.2 hok⟩

/-- **When a request disturbs an owner.** In a reachable state no request can change the
coding under an owner exactly if the handler keeps off. In a run whose steps all meet
`keepsOwner` no request can in any state, and a step out of such a run leads to a state of
that kind exactly if it meets `keepsOwner`. -/
theorem owner_undisturbed (src : SerialSource σ ρ δ W) (plug : PlugState) (bridge : Option σ)
    (nvs : NvsTable) :
    (∀ p, (configSystem src).Reaches (fun _ _ => True) (World.start plug bridge, nvs) p →
      (OwnerUndisturbed src p ↔
        (p.1.sink.ctrlClient ≠ none → keepsOff src p.1.bridge = true))) ∧
    ∀ p, (configSystem src).Reaches (fun p l => keepsOwner src p l = true)
        (World.start plug bridge, nvs) p →
      OwnerUndisturbed src p ∧ ∀ l q, (configSystem src).step p l = some q →
        (OwnerUndisturbed src q ↔ keepsOwner src p l = true) := by
  refine ⟨fun p _ => ownerUndisturbed_iff p, fun p hp => ?_⟩
  obtain ⟨hs, hoff⟩ := undisturbed_reaches hp
  exact ⟨hoff, fun l q hstep => (step_undisturbed_iff hs hoff hstep).2⟩

end Runs

/-- The steps in which a client connects and takes the line. -/
def takeLine {ρ : Type v} {δ : Type w} : List (ConfigLabel ρ δ) :=
  [.accept 3, .gate, .insert fun _ => .eagain, .spawn true,
    .recv 0 [tcIac, tcWill, toptComport], .call 0, .call 0, .send 0 (.accepted 3), .acquire 0,
    .call 0].map .sink

/-- A stick with a native CDC-ACM device. -/
def nativeStick : Usb.State where
  connected := true
  handle := true
  isVcp := false
  key := asciiBytes "stick"
  lc := serialcfgDefault
  lcSource := 0
  wire := serialcfgDefault
  keyed _ := by decide

/-- esp-usb only records the codings of such a device, also under an owner. -/
theorem owner_undisturbed_native : ∃ p : World Usb.State × NvsTable,
    p.1.sink.ctrlClient = some 0 ∧ PostKeepsWire espUsbSource p.2 p.1.bridge := by
  obtain ⟨p, hp, howner⟩ := Machine.exists_reaches_of_runIf (configSystem espUsbSource)
    (fun p l => keepsOwner espUsbSource p l = true) (fun p => p.1.sink.ctrlClient = some 0)
    (World.start .up (some nativeStick), emptyTable false) takeLine (by decide +kernel)
  refine ⟨p, howner, ((owner_undisturbed espUsbSource _ _ _).2 p hp).1 ?_⟩
  rw [howner]
  exact Option.some_ne_none _

/-- The UART source of a TCM515. -/
def tcmUart : SerialSource Uart.State Uart.SetResults Empty Uart.Port :=
  uartSource (Uart.tcm515 460800) tcm515_key

/-- A client of the TCM515 takes the line and sends no set; a request for 9600 baud changes
the baud rate under it. -/
theorem owner_undisturbed_fails :
    ∃ p, (configSystem tcmUart).Reaches (fun _ _ => True) (tcmStart, emptyTable false) p ∧
      p.1.sink.ctrlClient = some 0 ∧ p.1.bridge.map (fun s => s.port.baud) = some 460800 ∧
      (hSerialPost tcmUart (probe (asciiBytes "tcm515") 9600) .allOk .allOk p.2 p.1.bridge).2.2.map
        (fun s => s.port.baud) = some 9600 ∧
      ¬ OwnerUndisturbed tcmUart p := by
  obtain ⟨p, hp, howner, hbefore, hafter⟩ := Machine.exists_reaches_of_runIf
    (configSystem tcmUart) (fun _ _ => True)
    (fun p => p.1.sink.ctrlClient = some 0 ∧
      p.1.bridge.map (fun s => s.port.baud) = some 460800 ∧
      (hSerialPost tcmUart (probe (asciiBytes "tcm515") 9600) .allOk .allOk p.2 p.1.bridge).2.2.map
        (fun s => s.port.baud) = some 9600)
    (tcmStart, emptyTable false) takeLine (by decide +kernel)
  refine ⟨p, hp, howner, hbefore, hafter, fun hall => ?_⟩
  have hsame := hall (by rw [howner]; exact Option.some_ne_none _)
    (probe (asciiBytes "tcm515") 9600) .allOk .allOk
  have hbaud := congrArg (Option.map Uart.Port.baud) hsame
  rw [Option.map_map, Option.map_map] at hbaud
  exact absurd (hafter.symm.trans (hbaud.trans hbefore)) (by decide)

end Cdc2Net.Web
