import Cdc2Net.Dfu.Bootloader
import Cdc2Net.Lib.StateTriple

/-!
# Flashing a CUL

`cul_dfu_flash` of `cul_dfu.c` and what it calls, over a bootloader whose transfers go as a
schedule says. Every function has a triple over two predicates on the flash and the record,
one for the end in any case and one for a success: `waitOk_spec`, `sendMessage_spec`.
-/

set_option autoImplicit false

namespace Cdc2Net.Dfu

open Cdc2Net.Lib.NorFlash Cdc2Net.Lib.StateTriple

/-! ## The code -/

/-- The results of `cul_dfu.c`. -/
inductive Err where
  | ok
  | fail
  | timeout
  | invalidArg
  | invalidSize
  | invalidState
  | notFound
  deriving DecidableEq, Repr

/-- `CUL_DFU_APP_LIMIT`. -/
def culDfuAppLimit : Nat := 0x7000
/-- `EEPROM_GUARD_BYTES`. -/
def eepromGuardBytes : Nat := 256
/-- `ATMEL_UNIT_EEPROM`. -/
def atmelUnitEeprom : UInt8 := 0x02

/-- The static `S` of `cul_dfu.c` and the bootloader, with the number of transfers so far and
the record of what happened. -/
structure World where
  boot : Boot
  dev : Bool
  locked : Bool
  busy : Bool
  written : Nat
  eepromChecked : Bool
  eepromIntact : Bool
  sends : Nat
  log : List Event

/-- A control transfer. -/
inductive Request where
  | dnload (msg : List UInt8)
  | upload (len : Nat)
  | getStatus
  | clrStatus
  deriving DecidableEq, Repr

/-- `wLength`. -/
def Request.len : Request → Nat
  | .dnload msg => msg.length
  | .upload len => len
  | .getStatus => 6
  | .clrStatus => 0

/-- Only a download can have an effect. -/
def Request.carryOut (part : Option Nat) (b : Boot) : Request → Boot
  | .dnload msg => b.carryOut part (decode msg)
  | _ => b

/-- What it does to the flash. -/
def Request.events (part : Option Nat) : Request → List Event
  | .dnload msg => (decode msg).events part
  | _ => []

section Code

-- how the transfers go
variable (sched : Nat → Outcome)

/-- `ctrl`: the error, and the answer of the bootloader. A stick that is off the bus may be
back later. -/
def ctrl (r : Request) : StateM World (Err × Outcome) := fun w =>
  let o := sched w.sends
  let w' := { w with dev := !o.gone, sends := w.sends + 1, log := w.log ++ [.request r.len] }
  if w.dev = false then ((.invalidState, o), w')
  else if ctrlBufBytes < r.len then ((.invalidSize, o), w')
  else
    let boot := r.carryOut o.part w.boot
    ((if o.returns then .ok else .fail, { o with status := boot.status o }),
      { w' with boot := boot, log := w'.log ++ r.events o.part })

/-- `dfu_dnload`. -/
def dfuDnload (msg : List UInt8) : StateM World Err := do
  let r ← ctrl sched (.dnload msg)
  pure r.1

/-- `wait_ok`. -/
def waitOk (totalMs : Nat) : StateM World Err :=
  loop (fun _ => do
    let r ← ctrl sched .getStatus
    if r.1 ≠ .ok then pure (some r.1)
    else if r.2.status = 0x00 then pure (some .ok)
    else if r.2.state = dfuStateError then do
      let _ ← ctrl sched .clrStatus
      pure (some .fail)
    else pure none) (pure .timeout) (totalMs / 100 + 1) 0

/-- A message, and the wait until it has been carried out. -/
def sendMessage (msg : List UInt8) (totalMs : Nat) : StateM World Err := do
  let e ← dfuDnload sched msg
  if e ≠ .ok then pure e else waitOk sched totalMs

/-- `modes` of `atmel_erase_blocks`. -/
def eraseModes : List UInt8 := [0x00, 0x20, 0x40, 0x80]

/-- `atmel_erase_blocks`: the error, and whether it fell back to a full erase. -/
def atmelEraseBlocks (imgLen : Nat) : StateM World (Err × Bool) :=
  loop (fun i => do
    let e ← sendMessage sched [0x04, 0x00, eraseModes.getD i 0] 20000
    if e = .ok then pure none
    else do
      let e ← sendMessage sched [0x04, 0x00, 0xFF] 20000
      pure (some (e, true))) (pure (.ok, false)) (min ((imgLen + 0x3FFF) / 0x4000) 4) 0

/-- The two bytes of an address, modulo 64 KiB. -/
def addressBytes (a : Nat) : List UInt8 :=
  [UInt8.ofNat (a % 0x10000 / 256), UInt8.ofNat (a % 0x10000)]

/-- The message of `atmel_flash_block`: control block, data and footer. -/
def blockMsg (start : Nat) (data : List UInt8) : List UInt8 :=
  [0x01, 0x00] ++ addressBytes start ++ addressBytes (start + data.length - 1) ++
    List.replicate 26 0 ++ data ++
    [0, 0, 0, 0, 16, 0x44, 0x46, 0x55, 0x01, 0x10, 0xFF, 0xFF, 0xFF, 0xFF, 0xFF, 0xFF]

/-- `atmel_flash_block`. -/
def atmelFlashBlock (start : Nat) (data : List UInt8) : StateM World Err :=
  sendMessage sched (blockMsg start data) 5000

/-- `atmel_read`. -/
def atmelRead (unit : UInt8) (start len : Nat) : StateM World (Err × List UInt8) := do
  let e ← dfuDnload sched ([0x03, unit] ++ addressBytes start ++ addressBytes (start + len - 1))
  if e ≠ .ok then pure (e, [])
  else do
    let r ← ctrl sched (.upload len)
    pure (r.1, r.2.data)

/-- `atmel_start_app`: the answer to the second download is not awaited. -/
def atmelStartApp : StateM World Err := do
  let e ← dfuDnload sched [0x04, 0x03, 0x00]
  if e ≠ .ok then pure e
  else do
    let _ ← dfuDnload sched []
    pure .ok

/-- One block of the loop of `cul_dfu_flash`. -/
def writeBlock (img : List UInt8) (i : Nat) : StateM World (Option Err) := do
  let off := i * maxTransfer
  let n := if maxTransfer < img.length - off then maxTransfer else img.length - off
  let e ← atmelFlashBlock sched off ((img.drop off).take n)
  if e ≠ .ok then pure (some e)
  else do
    modify fun w => { w with written := off + n }
    let w ← get
    pure (if w.dev = false then some .notFound else none)

/-- The comparison of the EEPROM with what it was before. -/
def eepromGuard (before : Err × List UInt8) : StateM World PUnit :=
  if before.1 = .ok then do
    let after ← atmelRead sched atmelUnitEeprom 0 eepromGuardBytes
    if after.1 = .ok then
      modify fun w => { w with eepromChecked := true, eepromIntact := before.2 == after.2 }
    else pure ⟨⟩
  else pure ⟨⟩

/-- `cul_dfu_flash` with the lock, up to the label `out`. -/
def flashLocked (img : List UInt8) : StateM World Err := do
  let before ← atmelRead sched atmelUnitEeprom 0 eepromGuardBytes
  let r ← atmelEraseBlocks sched img.length
  if r.1 ≠ .ok then pure r.1
  else
    loop (writeBlock sched img) (do
      eepromGuard sched before
      atmelStartApp sched) ((img.length + (maxTransfer - 1)) / maxTransfer) 0

/-- `cul_dfu_flash`. -/
def culDfuFlash (img : List UInt8) : StateM World Err := do
  let w ← get
  if img = [] then pure .invalidArg
  else if culDfuAppLimit < img.length then pure .invalidSize
  else if w.dev = false then pure .notFound
  else if w.locked = true then pure .invalidState
  else do
    modify fun w => { w with
      locked := true, busy := true, written := 0, eepromChecked := false, eepromIntact := false }
    let e ← flashLocked sched img
    modify fun w => { w with busy := false, locked := false }
    pure e

end Code

/-! ## Transfers and messages -/

/-- The lock, and what the status says of the run: no transfer changes it. -/
def World.rest (w : World) : Bool × Bool × Nat := (w.locked, w.busy, w.written)

/-- The flash and the record satisfy `P`, and the rest is `f`. -/
def On (P : Flash → List Event → Prop) (f : Bool × Bool × Nat) (w : World) : Prop :=
  P w.boot.flash w.log ∧ w.rest = f

/-- `P` does not mind a request. -/
def Steady (P : Flash → List Event → Prop) : Prop :=
  ∀ fl es n, n ≤ ctrlBufBytes → P fl es → P fl (es ++ [.request n])

/-- A request without an effect on the flash. -/
structure Quiet (r : Request) : Prop where
  fits : r.len ≤ ctrlBufBytes
  flash : ∀ part b, (r.carryOut part b).flash = b.flash
  events : ∀ part, r.events part = []

section Specs

variable {sched : Nat → Outcome} {P Q G : Flash → List Event → Prop}
variable {f : Bool × Bool × Nat} {w : World} {r : Request} {msg : List UInt8}

/-- A transfer is refused, or it goes as scheduled. -/
theorem ctrl_cases (sched : Nat → Outcome) (hr : r.len ≤ ctrlBufBytes) (w : World) :
    ((ctrl sched r).run w).2.rest = w.rest ∧
    ((((ctrl sched r).run w).1.1 ≠ .ok ∧ ((ctrl sched r).run w).2.boot = w.boot ∧
        ((ctrl sched r).run w).2.log = w.log ++ [Event.request r.len]) ∨
      ∃ o : Outcome, ((ctrl sched r).run w).1.2.status = (r.carryOut o.part w.boot).status o ∧
        ((ctrl sched r).run w).2.boot = r.carryOut o.part w.boot ∧
        ((ctrl sched r).run w).2.log = w.log ++ [Event.request r.len] ++ r.events o.part) := by
  have hlen : ¬ ctrlBufBytes < r.len := Nat.not_lt.2 hr
  by_cases hdev : w.dev = false
  · refine ⟨?_, Or.inl ⟨?_, ?_, ?_⟩⟩ <;> simp [ctrl, StateT.run, hdev, World.rest]
  · refine ⟨?_, Or.inr ⟨sched w.sends, ?_, ?_, ?_⟩⟩ <;>
      simp [ctrl, StateT.run, hdev, hlen, World.rest]

theorem quiet_getStatus : Quiet .getStatus := ⟨by decide, fun _ _ => rfl, fun _ => rfl⟩

theorem quiet_clrStatus : Quiet .clrStatus := ⟨by decide, fun _ _ => rfl, fun _ => rfl⟩

theorem quiet_upload {len : Nat} (h : len ≤ ctrlBufBytes) : Quiet (.upload len) :=
  ⟨h, fun _ _ => rfl, fun _ => rfl⟩

theorem quiet_dnload (h : msg.length ≤ ctrlBufBytes) (hd : decode msg = .other) :
    Quiet (.dnload msg) where
  fits := h
  flash := fun part b => by simp [Request.carryOut, hd, Boot.carryOut]
  events := fun part => by simp [Request.events, hd, Command.events]

/-- A quiet request keeps what is steady. -/
theorem ctrl_quiet (hP : Steady P) (hr : Quiet r) :
    Triple (On P f) (ctrl sched r) fun _ => On P f := by
  rintro w ⟨hw, hrest⟩
  obtain ⟨hf, ⟨-, hb, hl⟩ | ⟨o, -, hb, hl⟩⟩ := ctrl_cases sched hr.fits w
  · refine ⟨?_, hf.trans hrest⟩
    rw [hb, hl]
    exact hP _ _ _ hr.fits hw
  · refine ⟨?_, hf.trans hrest⟩
    rw [hb, hl, hr.flash, hr.events, List.append_nil]
    exact hP _ _ _ hr.fits hw

theorem dfuDnload_quiet (hP : Steady P) (h : Quiet (.dnload msg)) :
    Triple (On P f) (dfuDnload sched msg) fun _ => On P f :=
  Triple.bind (ctrl_quiet hP h) fun _ => Triple.pure fun _ hw => hw

/-- A status answer keeps what is steady; if it is good, so was the last message. -/
theorem getStatus_spec (hQ : Steady Q) (hG : Steady G) :
    Triple (fun w => On Q f w ∧ (w.boot.good = true → G w.boot.flash w.log))
      (ctrl sched .getStatus) fun r w =>
        (On Q f w ∧ (w.boot.good = true → G w.boot.flash w.log)) ∧
          (r.1 = .ok → r.2.status = 0x00 → w.boot.good = true) := by
  rintro w ⟨⟨hw, hrest⟩, hgood⟩
  have hfits : Request.getStatus.len ≤ ctrlBufBytes := quiet_getStatus.fits
  obtain ⟨hf, ⟨herr, hb, hl⟩ | ⟨o, hs, hb, hl⟩⟩ := ctrl_cases sched hfits w
  · refine ⟨⟨⟨?_, hf.trans hrest⟩, ?_⟩, fun hok => absurd hok herr⟩
    · rw [hb, hl]
      exact hQ _ _ _ hfits hw
    · rw [hb, hl]
      exact fun h => hG _ _ _ hfits (hgood h)
  · rw [quiet_getStatus.events, List.append_nil] at hl
    refine ⟨⟨⟨?_, hf.trans hrest⟩, ?_⟩, fun _ hok => ?_⟩
    · rw [hb, hl]
      exact hQ _ _ _ hfits hw
    · rw [hb, hl]
      exact fun h => hG _ _ _ hfits (hgood h)
    · rw [hb]
      exact Boot.good_of_status (hs.symm.trans hok)

/-- `wait_ok` succeeds only after a message that was carried out in full. -/
theorem waitOk_spec (hQ : Steady Q) (hG : Steady G) (totalMs : Nat) :
    Triple (fun w => On Q f w ∧ (w.boot.good = true → G w.boot.flash w.log))
      (waitOk sched totalMs) fun e w => On Q f w ∧ (e = .ok → G w.boot.flash w.log) := by
  refine Triple.loop (I := fun _ w => On Q f w ∧ (w.boot.good = true → G w.boot.flash w.log))
    (fun i _ => ?_) ?_ (Nat.zero_add _)
  · refine Triple.bind (getStatus_spec hQ hG) fun r => ?_
    refine Triple.ite (fun hne => Triple.pure fun w hw => ⟨hw.1.1, fun h => absurd h hne⟩)
      fun heq => Triple.ite (fun hok => ?_) fun _ => Triple.ite (fun _ => ?_) fun _ => ?_
    · exact Triple.pure fun w hw => ⟨hw.1.1, fun _ => hw.1.2 (hw.2 (not_not.1 heq) hok)⟩
    · refine Triple.bind
        ((ctrl_quiet hQ quiet_clrStatus).weaken (fun w hw => hw.1.1) fun _ _ h => h) fun _ => ?_
      exact Triple.pure fun w hw => ⟨hw, fun h => by cases h⟩
    · exact Triple.pure fun w hw => hw.1
  · exact Triple.pure fun w hw => ⟨hw.1, fun h => by cases h⟩

/-- What a download does: `Q` in any case, and `G` if it is carried out in full. -/
structure Effect (P Q G : Flash → List Event → Prop) (msg : List UInt8) : Prop where
  fits : msg.length ≤ ctrlBufBytes
  refused : ∀ fl es, P fl es → Q fl (es ++ [.request msg.length])
  part : ∀ (b : Boot) es part, P b.flash es → Q (b.carryOut part (decode msg)).flash
    (es ++ [.request msg.length] ++ (decode msg).events part)
  full : ∀ (b : Boot) es, P b.flash es → G (b.carryOut none (decode msg)).flash
    (es ++ [.request msg.length] ++ (decode msg).events none)

theorem dfuDnload_spec (h : Effect P Q G msg) :
    Triple (On P f) (dfuDnload sched msg) fun e w =>
      On Q f w ∧ (e = .ok → w.boot.good = true → G w.boot.flash w.log) := by
  refine Triple.bind (R := fun r w =>
    On Q f w ∧ (r.1 = .ok → w.boot.good = true → G w.boot.flash w.log)) ?_
    fun r => Triple.pure fun w hw => hw
  rintro w ⟨hw, hrest⟩
  obtain ⟨hf, ⟨herr, hb, hl⟩ | ⟨o, -, hb, hl⟩⟩ := ctrl_cases (r := .dnload msg) sched h.fits w
  · refine ⟨⟨?_, hf.trans hrest⟩, fun hok => absurd hok herr⟩
    rw [hb, hl]
    exact h.refused _ _ hw
  · refine ⟨⟨?_, hf.trans hrest⟩, fun _ hgood => ?_⟩
    · rw [hb, hl]
      exact h.part _ _ _ hw
    · rw [hb] at hgood
      have hnone : o.part = none := Boot.part_of_good hgood
      rw [hb, hl, hnone]
      exact h.full _ _ hw

/-- A message ends in `Q`, and in `G` if it succeeds. -/
theorem sendMessage_spec (hQ : Steady Q) (hG : Steady G) (h : Effect P Q G msg)
    (totalMs : Nat) :
    Triple (On P f) (sendMessage sched msg totalMs) fun e w =>
      On Q f w ∧ (e = .ok → G w.boot.flash w.log) := by
  refine Triple.bind (dfuDnload_spec h) fun e => Triple.ite (fun hne => ?_) fun heq => ?_
  · exact Triple.pure fun w hw => ⟨hw.1, fun hok => absurd hok hne⟩
  · exact (waitOk_spec hQ hG totalMs).weaken (fun w hw => ⟨hw.1, hw.2 (not_not.1 heq)⟩)
      fun _ _ hw => hw

theorem decode_read (unit : UInt8) (a b : List UInt8) :
    decode ([0x03, unit] ++ a ++ b) = .other := by
  simp [decode]

theorem addressBytes_length (a : Nat) : (addressBytes a).length = 2 := rfl

/-- Reading the EEPROM has no effect on the flash. -/
theorem atmelRead_quiet (hP : Steady P) (unit : UInt8) (start : Nat) {len : Nat}
    (hlen : len ≤ ctrlBufBytes) :
    Triple (On P f) (atmelRead sched unit start len) fun _ => On P f := by
  have hfits : ([0x03, unit] ++ addressBytes start ++ addressBytes (start + len - 1)).length ≤
      ctrlBufBytes := by
    simp [addressBytes_length]
    decide
  refine Triple.bind (dfuDnload_quiet hP (quiet_dnload hfits (decode_read _ _ _)))
    fun e => Triple.ite (fun _ => Triple.pure fun w hw => hw) fun _ => ?_
  exact Triple.bind (ctrl_quiet hP (quiet_upload hlen)) fun r => Triple.pure fun w hw => hw

/-- Nor has starting the application. -/
theorem atmelStartApp_quiet (hP : Steady P) :
    Triple (On P f) (atmelStartApp sched) fun _ => On P f := by
  have hstart : Quiet (.dnload [0x04, 0x03, 0x00]) := quiet_dnload (by decide) (by decide)
  have hnull : Quiet (.dnload []) := quiet_dnload (by decide) (by decide)
  refine Triple.bind (dfuDnload_quiet hP hstart) fun e =>
    Triple.ite (fun _ => Triple.pure fun w hw => hw) fun _ => ?_
  exact Triple.bind (dfuDnload_quiet hP hnull) fun _ => Triple.pure fun w hw => hw

end Specs

end Cdc2Net.Dfu
