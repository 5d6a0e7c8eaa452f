import Cdc2Net.Lib.FlashWriter
import Cdc2Net.Ota.Upload

/-!
# Two paths into one slot

`POST /api/ota` (`Ota.Upload`, run by the one web server task) and `ota_install_task` of
`ota_check.c` write the same passive slot. `s_install` keeps a second install out; nothing
keeps the two paths apart. A step is one call into the flash or the boot partition, one
request, or the restart that both paths have ordered 500 ms ahead.

`restart_into_image`: if each `esp_ota_begin` finds the slot free and the boot partition
not switched, a restart into the slot finds one complete image in it. `restart_into_erased`
is a run that meets neither.
-/

set_option autoImplicit false

namespace Cdc2Net.Ota

open Cdc2Net.Lib.Transition
open Cdc2Net.Lib.NorFlash
open Cdc2Net.Source (cString)

/-! ## The install task -/

/-- The error codes the task tells apart. -/
inductive EspErr where
  | invalidVersion
  | timeout
  | validateFailed
  | other (code : Int)
  deriving DecidableEq, Repr

/-- `s_install_err`. -/
inductive InstallErr where
  /-- `esp_err_to_name(e)`. -/
  | name (e : EspErr)
  | text (msg : String)
  /-- `foreign image '%.*s' (expected '%.*s')`. -/
  | foreign (project expected : List UInt8)
  deriving DecidableEq, Repr

/-- What is reported when a download ends with `e`. -/
def performErr : EspErr → InstallErr
  | .invalidVersion => .text "incompatible image (chip_id or chip_revision mismatch)"
  | .timeout => .text "download stalled (timed out)"
  | e => .name e

/-- What is reported when `esp_https_ota_finish` returns `e`. -/
def finishErr : EspErr → InstallErr
  | .validateFailed => .text "image validation failed (corrupt)"
  | e => .name e

/-- `s_install`. -/
inductive InstallFlag where
  | idle
  | running
  | error
  deriving DecidableEq, Repr

/-- Where `ota_install_task` stands. -/
inductive InstallPc where
  | httpsBegin
  | imgDesc
  /-- Before the first `esp_https_ota_perform`, which calls `esp_ota_begin`. -/
  | otaBegin
  | perform
  /-- In `esp_https_ota_finish`. -/
  | otaEnd
  | setBoot
  /-- The 500 ms before `esp_restart`. -/
  | delay
  deriving DecidableEq, Repr

/-- The task: the image the server sends and how much of it has been written. -/
structure Install where
  pc : InstallPc
  img : List UInt8
  got : Nat
  writer : Writer

/-- The task starts. -/
def Install.start : Install := ⟨.httpsBegin, [], 0, ⟨0, 0⟩⟩

/-- The results of the calls the task makes. -/
inductive InstallLabel where
  /-- The connection gives an image or fails. -/
  | httpsBegin (r : Except EspErr (List UInt8))
  /-- The first 288 bytes come, or not. -/
  | imgDesc (ok : Bool)
  /-- Room for `room` bytes is erased at once, the rest as it is written. -/
  | otaBegin (room : Nat)
  /-- It fails after `n` sectors. -/
  | otaBeginErr (e : EspErr) (n : Nat)
  /-- `ESP_ERR_HTTPS_OTA_IN_PROGRESS`, with `n` more bytes written. -/
  | perform (n : Nat)
  /-- An error or the deadline, with `n` more bytes written. -/
  | performErr (e : EspErr) (n : Nat)
  /-- `ESP_OK`: the server sends no more. -/
  | performDone
  | otaEnd (r : Except EspErr Unit)
  | setBoot (r : Except EspErr Unit)

/-! ## The device -/

/-- `SPI_FLASH_SEC_SIZE`. -/
def flashSector : Nat := 4096

/-- The two slots, the boot partition, the web server's upload and the install task. -/
structure Device where
  running : Flash
  passive : Flash
  switched : Bool
  upload : Option (Upload × List OtaCall)
  uploadWriter : Writer
  sInstall : InstallFlag
  installErr : Option InstallErr
  install : Option Install
  /-- `delayed_reboot_task`s. -/
  reboots : Nat

/-- A request, a call of one of the paths, or the restart. -/
inductive DeviceLabel where
  | otaPost (req : OtaRequest)
  /-- `POST /api/update/install`, whose task can be created or not. -/
  | installPost (spawned : Bool)
  | upload (l : UploadLabel)
  | install (l : InstallLabel)
  | restart

namespace Device

/-- A device that has just booted. -/
def boot (running passive : Flash) : Device :=
  ⟨running, passive, false, none, ⟨0, 0⟩, .idle, none, none, 0⟩

/-- What a call of the upload does. -/
def call (s : Device) : OtaCall → Device
  | .otaBegin len .ok =>
    { s with
      passive := Writer.startFlash flashSector len s.passive
      uploadWriter := Writer.start flashSector len }
  | .otaBegin _ (.failed n) => { s with passive := eraseSectors flashSector 0 n s.passive }
  | .otaWrite bytes .ok =>
    { s with
      passive := s.uploadWriter.appendFlash flashSector bytes s.passive
      uploadWriter := s.uploadWriter.append flashSector bytes }
  | .otaWrite bytes (.failed n) =>
    { s with passive := s.uploadWriter.appendFlash flashSector (bytes.take n) s.passive }
  -- the handler answers and creates the task that restarts
  | .setBootPartition true => { s with switched := true, reboots := s.reboots + 1 }
  | _ => s

/-- The handler returns with its answer. -/
def pending (u : Upload) (calls : List OtaCall) : Option (Upload × List OtaCall) :=
  match u.pc with
  | .answered _ => none
  | _ => some (u, calls)

/-- A step of the upload; `esp_ota_end` succeeds only on a slot that is valid. -/
def uploadStep (cfg : OtaConfig) (valid : Flash → Bool) (s : Device) (p : Upload × List OtaCall)
    (l : UploadLabel) : Option Device :=
  if l = .otaEnd true → valid s.passive = true then
    (p.1.step cfg l).map fun r =>
      { r.2.foldl call s with upload := pending r.1 (p.2 ++ r.2) }
  else none

/-- `install_set_err` and the end of the task. -/
def installFail (s : Device) (e : InstallErr) : Device :=
  { s with sInstall := .error, installErr := some e, install := none }

/-- A step of the install task. -/
def installStep (cfg : OtaConfig) (valid : Flash → Bool) (s : Device) (i : Install) :
    InstallLabel → Option Device
  | .httpsBegin r =>
    if i.pc = .httpsBegin then
      match r with
      | .ok img => some { s with install := some { i with pc := .imgDesc, img := img } }
      | .error e => some (s.installFail (.name e))
    else none
  | .imgDesc ok =>
    if i.pc = .imgDesc ∧ (ok = true → hdrSize ≤ i.img.length) then
      if ok = false then some (s.installFail (.text "image header unreadable"))
      else if SameProject cfg (i.img.take hdrSize) then
        some { s with install := some { i with pc := .otaBegin } }
      else some (s.installFail (.foreign (cString (hdrProjectName (i.img.take hdrSize)))
        (cString (cfg.running.projectName.take 32))))
    else none
  | .otaBegin room =>
    if i.pc = .otaBegin then
      some { s with
        passive := Writer.startFlash flashSector room s.passive
        install := some { i with pc := .perform, writer := Writer.start flashSector room } }
    else none
  | .otaBeginErr e n =>
    if i.pc = .otaBegin then
      some ({ s with passive := eraseSectors flashSector 0 n s.passive }.installFail
        (performErr e))
    else none
  | .perform n =>
    if i.pc = .perform ∧ i.got + n ≤ i.img.length ∧ i.got + n ≤ cfg.slotSize then
      some { s with
        passive := i.writer.appendFlash flashSector ((i.img.drop i.got).take n) s.passive
        install := some { i with
          got := i.got + n
          writer := i.writer.append flashSector ((i.img.drop i.got).take n) } }
    else none
  | .performErr e n =>
    if i.pc = .perform then
      some ({ s with
        passive := i.writer.appendFlash flashSector ((i.img.drop i.got).take n) s.passive
        }.installFail (performErr e))
    else none
  | .performDone =>
    if i.pc = .perform then
      if i.got = i.img.length then some { s with install := some { i with pc := .otaEnd } }
      else some (s.installFail (.text "incomplete download"))
    else none
  | .otaEnd r =>
    if i.pc = .otaEnd then
      match r with
      | .ok _ =>
        if valid s.passive = true then some { s with install := some { i with pc := .setBoot } }
        else none
      | .error e => some (s.installFail (finishErr e))
    else none
  | .setBoot r =>
    if i.pc = .setBoot then
      match r with
      | .ok _ => some { s with switched := true, install := some { i with pc := .delay } }
      | .error e => some (s.installFail (finishErr e))
    else none

/-- A restart has been ordered. -/
def restartPending (s : Device) : Bool :=
  0 < s.reboots || s.install.any fun i => i.pc = .delay

/-- `esp_restart`: a switched device comes up on the other slot. -/
def restarted (s : Device) : Device :=
  if s.switched then boot s.passive s.running else boot s.running s.passive

/-- One step of the device. The web server handles one request at a time. -/
def step (cfg : OtaConfig) (valid : Flash → Bool) (s : Device) : DeviceLabel → Option Device
  | .otaPost req =>
    match s.upload with
    | none => some { s with upload := some (Upload.start req, []) }
    | some _ => none
  | .installPost spawned =>
    match s.upload with
    | none =>
      if s.sInstall = .running then some s
      else if spawned then
        some { s with sInstall := .running, installErr := none, install := some Install.start }
      else some (s.installFail (.text "task spawn failed"))
    | some _ => none
  | .upload l => s.upload.bind fun p => s.uploadStep cfg valid p l
  | .install l => s.install.bind fun i => s.installStep cfg valid i l
  | .restart => if s.restartPending then some s.restarted else none

end Device

/-- The device with both paths. -/
def otaSystem (cfg : OtaConfig) (valid : Flash → Bool) : Machine Device DeviceLabel where
  step := Device.step cfg valid

/-- The images the two paths set out to write. -/
def imagesOf (_ : Device) : DeviceLabel → List (List UInt8)
  | .otaPost req => [req.body.take req.contentLen]
  | .install (.httpsBegin (.ok img)) => [img]
  | _ => []

/-! ## When the slot is held -/

/-- The upload has begun and not yet ended its way to the boot partition. -/
def Upload.holdsSlot (u : Upload) : Bool :=
  match u.pc with
  | .recv => true
  | .otaWrite _ => true
  | .check => true
  | .otaEnd => true
  | .setBoot => true
  | _ => false

/-- The install has begun and not yet ended its way to the boot partition. -/
def Install.holdsSlot (i : Install) : Bool :=
  match i.pc with
  | .perform => true
  | .otaEnd => true
  | .setBoot => true
  | _ => false

namespace Device

/-- The upload holds the slot. -/
def uploading (s : Device) : Bool := s.upload.any fun p => p.1.holdsSlot

/-- The install holds the slot. -/
def installing (s : Device) : Bool := s.install.any Install.holdsSlot

/-- An `esp_ota_begin` finds the boot partition as it was and the other path away from the
slot. -/
def beginAlone (s : Device) : DeviceLabel → Bool
  | .upload (.otaBegin _) => !s.switched && !s.installing
  | .install (.otaBegin _) => !s.switched && !s.uploading
  | .install (.otaBeginErr _ _) => !s.switched && !s.uploading
  | _ => true

end Device

/-! ## The upload and the slot -/

/-- An upload that has not been answered. While it holds the slot, the slot starts with
what it has written. -/
structure UploadOk (cfg : OtaConfig) (valid : Flash → Bool) (passive : Flash) (w : Writer)
    (hist : List (List UInt8)) (p : Upload × List OtaCall) : Prop where
  inv : UploadInv cfg true true p.1 p.2
  going : ∀ a, p.1.pc ≠ .answered a
  image : p.1.req.body.take p.1.req.contentLen ∈ hist
  slot : p.1.holdsSlot = true → w.Holds flashSector passive (writtenBytes p.2)
  checked : p.1.pc = .setBoot → valid passive = true

/-- The slot is valid and starts with a whole image of one of the paths. -/
def Whole (valid : Flash → Bool) (hist : List (List UInt8)) (f : Flash) : Prop :=
  valid f = true ∧ ∃ img ∈ hist, hdrSize ≤ img.length ∧ StartsWith f img

section UploadSteps

variable {cfg : OtaConfig} {valid : Flash → Bool} {s : Device} {hist hist' : List (List UInt8)}
  {u v : Upload} {calls cs : List OtaCall} {l : UploadLabel} {f g : Flash} {w w' : Writer}
  {p : Upload × List OtaCall}

theorem Upload.holdsSlot_setBoot (h : u.pc = .setBoot) : u.holdsSlot = true := by
  rw [Upload.holdsSlot, h]

/-- The other path may do what it likes with a slot that is not held. -/
theorem UploadOk.of_not_holds (h : UploadOk cfg valid f w hist p) (hn : p.1.holdsSlot = false) :
    UploadOk cfg valid g w' hist p := by
  refine ⟨h.inv, h.going, h.image, fun hh => ?_, fun hpc => ?_⟩
  · rw [hn] at hh
    cases hh
  · rw [Upload.holdsSlot_setBoot hpc] at hn
    cases hn

theorem UploadOk.mono (h : UploadOk cfg valid f w hist p) (hsub : hist ⊆ hist') :
    UploadOk cfg valid f w hist' p :=
  ⟨h.inv, h.going, hsub h.image, h.slot, h.checked⟩

theorem Whole.mono (h : Whole valid hist f) (hsub : hist ⊆ hist') : Whole valid hist' f := by
  obtain ⟨hvalid, img, himg, hlen, hstart⟩ := h
  exact ⟨hvalid, img, hsub himg, hlen, hstart⟩

/-- Before its switch an upload has a whole image in the slot. -/
theorem UploadOk.whole (h : UploadOk cfg valid f w hist p) (hpc : p.1.pc = .setBoot) :
    Whole valid hist f := by
  have hinv := h.inv
  simp only [UploadInv, hpc] at hinv
  obtain ⟨hd, -⟩ := hinv
  have hstart := (h.slot (Upload.holdsSlot_setBoot hpc)).written
  have hlen := hd.length
  rw [hd.written] at hstart hlen
  refine ⟨h.checked hpc, _, h.image, ?_, hstart⟩
  have hmin := hlen.2.2
  rw [hlen.2.1]
  simp only [minLen, hdrSize] at hmin ⊢
  omega

/-- A call that does not end the upload keeps what is known of its record. -/
theorem uploadInv_going (h : UploadInv cfg true true u calls)
    (hstep : u.step cfg l = some (v, cs)) (hv : ∀ a, v.pc ≠ .answered a) :
    UploadInv cfg true true v (calls ++ cs) := by
  refine uploadInv_step h ?_ hstep
  -- the two results that are not free would end it
  cases Upload.step_cases hstep with
  | endFailed hpc => exact absurd rfl (hv _)
  | switchFailed hpc => exact absurd rfl (hv _)
  | ended hpc => exact rfl
  | switched hpc => exact rfl
  | _ => exact trivial

theorem checkHeader_pc (cfg : OtaConfig) (u : Upload) (c : List UInt8) :
    (u.checkHeader cfg c).1.pc = u.pc ∨ ∃ a, (u.checkHeader cfg c).1.pc = .answered a := by
  simp only [Upload.checkHeader, Upload.refuse]
  split
  · exact .inl rfl
  · split
    · split
      · exact .inr ⟨_, rfl⟩
      · split
        · exact .inl rfl
        · exact .inr ⟨_, rfl⟩
    · exact .inl rfl

/-- The switch is next only after `esp_ota_end`. -/
theorem otaEnd_of_setBoot (hstep : u.step cfg l = some (v, cs)) (hv : v.pc = .setBoot) :
    l = .otaEnd true := by
  have hloop : ∀ w : Upload, w.loop.pc ≠ .setBoot := fun w hw => by
    rcases loop_pc w with h | h <;> rw [h] at hw <;> cases hw
  cases Upload.step_cases hstep with
  | ended hpc => rfl
  | begun hpc => exact absurd hv (hloop _)
  | written c hpc => exact absurd hv (hloop _)
  | headerRefused n hpc hbody hrefused =>
    rcases checkHeader_pc cfg u (u.chunk n) with h | ⟨a, h⟩
    · rw [h, hpc] at hv
      cases hv
    · rw [h] at hv
      cases hv
  | timeout hpc =>
    rw [hpc] at hv
    cases hv
  | _ => cases hv

/-- What a step of the upload does outside the handler: nothing, unless it begins, writes
or switches. -/
theorem upload_calls (hstep : u.step cfg l = some (v, cs)) :
    (cs.foldl Device.call s = s ∧ writtenBytes cs = [] ∧
        (v.holdsSlot = true → u.holdsSlot = true)) ∨
      (∃ r, l = .otaBegin r ∧ u.pc = .otaBegin ∧ cs = [.otaBegin u.req.contentLen r]) ∨
      (∃ c r, l = .otaWrite r ∧ u.holdsSlot = true ∧ (cs = [.otaWrite c .ok] ∨
        (∃ n, cs = [.otaWrite c (.failed n), .otaAbort]) ∧ ∃ a, v.pc = .answered a)) ∨
      (u.pc = .setBoot ∧ cs = [.setBootPartition true] ∧ ∃ a, v.pc = .answered a) := by
  cases Upload.step_cases hstep with
  | begun hpc => exact .inr (.inl ⟨.ok, rfl, hpc, rfl⟩)
  | beginFailed n hpc => exact .inr (.inl ⟨.failed n, rfl, hpc, rfl⟩)
  | written c hpc =>
    exact .inr (.inr (.inl ⟨c, .ok, rfl, by rw [Upload.holdsSlot, hpc], .inl rfl⟩))
  | writeFailed c n hpc =>
    exact .inr (.inr (.inl ⟨c, .failed n, rfl, by rw [Upload.holdsSlot, hpc],
      .inr ⟨⟨n, rfl⟩, _, rfl⟩⟩))
  | switched hpc => exact .inr (.inr (.inr ⟨hpc, rfl, _, rfl⟩))
  -- the rest makes no call that reaches the flash
  | headerRefused n hpc hbody hrefused =>
    exact .inl ⟨rfl, rfl, fun _ => by rw [Upload.holdsSlot, hpc]⟩
  | received n hpc hpos hle hbody haccepted =>
    exact .inl ⟨rfl, rfl, fun _ => by rw [Upload.holdsSlot, hpc]⟩
  | timeout hpc => exact .inl ⟨rfl, rfl, id⟩
  | checked hpc hval => exact .inl ⟨rfl, rfl, fun _ => by rw [Upload.holdsSlot, hpc]⟩
  | ended hpc => exact .inl ⟨rfl, rfl, fun _ => by rw [Upload.holdsSlot, hpc]⟩
  | _ => exact .inl ⟨rfl, rfl, fun h => (Bool.false_ne_true h).elim⟩

/-- A call that does not end the upload keeps what is known of the slot. -/
theorem uploadOk_step (h : UploadOk cfg valid s.passive s.uploadWriter hist (u, calls))
    (hl : l = .otaEnd true → valid s.passive = true)
    (hstep : u.step cfg l = some (v, cs)) (hv : ∀ a, v.pc ≠ .answered a) :
    UploadOk cfg valid (cs.foldl Device.call s).passive (cs.foldl Device.call s).uploadWriter
      hist (v, calls ++ cs) := by
  have himage : v.req.body.take v.req.contentLen ∈ hist := by
    rw [step_req hstep]
    exact h.image
  have hinv := uploadInv_going h.inv hstep hv
  rcases upload_calls (s := s) hstep with ⟨hsame, hnone, hholds⟩ | ⟨r, rfl, hpc, rfl⟩ |
    ⟨c, r, rfl, hholds, rfl | ⟨-, a, ha⟩⟩ | ⟨-, -, a, ha⟩
  · rw [hsame]
    refine ⟨hinv, hv, himage, fun hh => ?_, fun hpc => ?_⟩
    · rw [writtenBytes_append, hnone, List.append_nil]
      exact h.slot (hholds hh)
    · exact hl (otaEnd_of_setBoot hstep hpc)
  · -- the first call: no byte has been written yet
    have hcalls : calls = [] := by
      have hfresh := h.inv
      simp only [UploadInv, hpc] at hfresh
      exact hfresh.1.calls
    cases r with
    | ok =>
      refine ⟨hinv, hv, himage, fun _ => ?_, fun hpc => ?_⟩
      · rw [hcalls]
        exact Writer.start_holds _ _ _
      · exact absurd (otaEnd_of_setBoot hstep hpc) (by simp)
    | failed n =>
      simp only [Upload.step, if_pos hpc] at hstep
      cases hstep
      exact absurd rfl (hv _)
  · refine ⟨hinv, hv, himage, fun _ => ?_, fun hpc => ?_⟩
    · have hbytes : writtenBytes (calls ++ [OtaCall.otaWrite c .ok]) = writtenBytes calls ++ c := by
        rw [writtenBytes_append]
        simp [writtenBytes]
      rw [hbytes]
      exact Writer.append_holds (by decide) (h.slot hholds) c
    · exact absurd (otaEnd_of_setBoot hstep hpc) (by simp)
  · exact absurd ha (hv a)
  · exact absurd ha (hv a)

end UploadSteps

/-! ## The install and the slot -/

/-- An install on its way. While it holds the slot, the slot starts with what it has
written. -/
structure InstallOk (valid : Flash → Bool) (passive : Flash) (hist : List (List UInt8))
    (i : Install) : Prop where
  image : i.pc ≠ .httpsBegin → i.img ∈ hist
  header : i.pc ≠ .httpsBegin → i.pc ≠ .imgDesc → hdrSize ≤ i.img.length
  slot : i.holdsSlot = true → i.writer.Holds flashSector passive (i.img.take i.got)
  fresh : i.pc = .httpsBegin ∨ i.pc = .imgDesc ∨ i.pc = .otaBegin → i.got = 0
  whole : i.pc = .otaEnd ∨ i.pc = .setBoot → i.got = i.img.length
  checked : i.pc = .setBoot → valid passive = true

/-- What holds in every state of a run that begins alone. -/
structure DeviceInv (cfg : OtaConfig) (valid : Flash → Bool) (s : Device)
    (hist : List (List UInt8)) : Prop where
  upload : ∀ p, s.upload = some p → UploadOk cfg valid s.passive s.uploadWriter hist p
  install : ∀ i, s.install = some i → InstallOk valid s.passive hist i
  alone : s.uploading = true → s.installing = false
  switched : s.switched = true →
    s.uploading = false ∧ s.installing = false ∧ Whole valid hist s.passive

section DeviceSteps

variable {cfg : OtaConfig} {valid : Flash → Bool} {s t : Device}
  {hist hist' : List (List UInt8)} {i : Install} {f g : Flash} {p : Upload × List OtaCall}

theorem Install.holdsSlot_setBoot (h : i.pc = .setBoot) : i.holdsSlot = true := by
  rw [Install.holdsSlot, h]

/-- The other path may do what it likes with a slot that is not held. -/
theorem InstallOk.of_not_holds (h : InstallOk valid f hist i) (hn : i.holdsSlot = false) :
    InstallOk valid g hist i := by
  refine ⟨h.image, h.header, fun hh => ?_, h.fresh, h.whole, fun hpc => ?_⟩
  · rw [hn] at hh
    cases hh
  · rw [Install.holdsSlot_setBoot hpc] at hn
    cases hn

theorem InstallOk.mono (h : InstallOk valid f hist i) (hsub : hist ⊆ hist') :
    InstallOk valid f hist' i :=
  ⟨fun hpc => hsub (h.image hpc), h.header, h.slot, h.fresh, h.whole, h.checked⟩

theorem DeviceInv.mono (h : DeviceInv cfg valid s hist) (hsub : hist ⊆ hist') :
    DeviceInv cfg valid s hist' :=
  ⟨fun p hp => (h.upload p hp).mono hsub, fun i hi => (h.install i hi).mono hsub, h.alone,
    fun hsw => ⟨(h.switched hsw).1, (h.switched hsw).2.1, (h.switched hsw).2.2.mono hsub⟩⟩

/-- Before its switch an install has a whole image in the slot. -/
theorem InstallOk.whole_slot (h : InstallOk valid f hist i) (hpc : i.pc = .setBoot) :
    Whole valid hist f := by
  have hstart := (h.slot (Install.holdsSlot_setBoot hpc)).written
  rw [h.whole (.inr hpc), List.take_length] at hstart
  exact ⟨h.checked hpc, i.img, h.image (by simp [hpc]), h.header (by simp [hpc]) (by simp [hpc]),
    hstart⟩

/-! ### The install on its way -/

theorem InstallOk.connected (h : InstallOk valid f hist i) (hpc : i.pc = .httpsBegin)
    (img : List UInt8) :
    InstallOk valid f (hist ++ [img]) { i with pc := .imgDesc, img := img } where
  image _ := by simp
  header _ hne := absurd rfl hne
  slot hh := (Bool.false_ne_true hh).elim
  fresh _ := h.fresh (.inl hpc)
  whole := by simp
  checked := by simp

theorem InstallOk.described (h : InstallOk valid f hist i) (hpc : i.pc = .imgDesc)
    (hlen : hdrSize ≤ i.img.length) : InstallOk valid f hist { i with pc := .otaBegin } where
  image _ := h.image (by simp [hpc])
  header _ _ := hlen
  slot hh := (Bool.false_ne_true hh).elim
  fresh _ := h.fresh (.inr (.inl hpc))
  whole := by simp
  checked := by simp

/-- The slot is taken, and nothing is written yet. -/
theorem InstallOk.begun (h : InstallOk valid f hist i) (hpc : i.pc = .otaBegin) (room : Nat) :
    InstallOk valid (Writer.startFlash flashSector room g) hist
      { i with pc := .perform, writer := Writer.start flashSector room } where
  image _ := h.image (by simp [hpc])
  header _ _ := h.header (by simp [hpc]) (by simp [hpc])
  slot _ := by
    rw [h.fresh (.inr (.inr hpc))]
    exact Writer.start_holds _ _ _
  fresh := by simp
  whole := by simp
  checked := by simp

/-- More bytes of the image go behind those written. -/
theorem InstallOk.performed (h : InstallOk valid f hist i) (hpc : i.pc = .perform) (n : Nat) :
    InstallOk valid (i.writer.appendFlash flashSector ((i.img.drop i.got).take n) f) hist
      { i with
        got := i.got + n, writer := i.writer.append flashSector ((i.img.drop i.got).take n) } where
  image _ := h.image (by simp [hpc])
  header _ _ := h.header (by simp [hpc]) (by simp [hpc])
  slot _ := by
    rw [List.take_add]
    exact Writer.append_holds (by decide) (h.slot (by rw [Install.holdsSlot, hpc])) _
  fresh := by simp [hpc]
  whole := by simp [hpc]
  checked := by simp [hpc]

theorem InstallOk.downloaded (h : InstallOk valid f hist i) (hpc : i.pc = .perform)
    (hall : i.got = i.img.length) : InstallOk valid f hist { i with pc := .otaEnd } where
  image _ := h.image (by simp [hpc])
  header _ _ := h.header (by simp [hpc]) (by simp [hpc])
  slot _ := h.slot (by rw [Install.holdsSlot, hpc])
  fresh := by simp
  whole _ := hall
  checked := by simp

theorem InstallOk.ended (h : InstallOk valid f hist i) (hpc : i.pc = .otaEnd)
    (hvalid : valid f = true) : InstallOk valid f hist { i with pc := .setBoot } where
  image _ := h.image (by simp [hpc])
  header _ _ := h.header (by simp [hpc]) (by simp [hpc])
  slot _ := h.slot (by rw [Install.holdsSlot, hpc])
  fresh := by simp
  whole _ := h.whole (.inl hpc)
  checked _ := hvalid

/-- The boot partition is switched: the install has let go of the slot. -/
theorem InstallOk.delayed (h : InstallOk valid f hist i) (hpc : i.pc = .setBoot) :
    InstallOk valid f hist { i with pc := .delay } where
  image _ := h.image (by simp [hpc])
  header _ _ := h.header (by simp [hpc]) (by simp [hpc])
  slot hh := (Bool.false_ne_true hh).elim
  fresh := by simp
  whole := by simp
  checked := by simp

/-! ### Which path holds the slot -/

theorem uploading_some (h : s.upload = some p) : s.uploading = p.1.holdsSlot := by
  rw [Device.uploading, h]
  rfl

theorem uploading_none (h : s.upload = none) : s.uploading = false := by
  rw [Device.uploading, h]
  rfl

theorem installing_some (h : s.install = some i) : s.installing = i.holdsSlot := by
  rw [Device.installing, h]
  rfl

/-- An install that does not hold the slot is untouched by what happens to it. -/
theorem DeviceInv.install_free (h : DeviceInv cfg valid s hist) (hn : s.installing = false)
    (hi : s.install = some i) : InstallOk valid g hist i := by
  rw [installing_some hi] at hn
  exact (h.install i hi).of_not_holds hn

/-- An upload that does not hold the slot is untouched by what happens to it. -/
theorem DeviceInv.upload_free {w : Writer} (h : DeviceInv cfg valid s hist)
    (hn : s.uploading = false) (hp : s.upload = some p) : UploadOk cfg valid g w hist p := by
  rw [uploading_some hp] at hn
  exact (h.upload p hp).of_not_holds hn

/-! ### The steps -/

theorem pending_some {u : Upload} {calls : List OtaCall} (h : Device.pending u calls = some p) :
    p = (u, calls) ∧ ∀ a, u.pc ≠ .answered a := by
  simp only [Device.pending] at h
  split at h
  · cases h
  · next hnot =>
    exact ⟨(Option.some.inj h).symm, hnot⟩

theorem pending_answered {u : Upload} (calls : List OtaCall) (h : ∃ a, u.pc = .answered a) :
    Device.pending u calls = none := by
  obtain ⟨a, ha⟩ := h
  rw [Device.pending, ha]

theorem deviceInv_upload {l : UploadLabel} (h : DeviceInv cfg valid s hist)
    (hok : s.beginAlone (.upload l) = true) (hp : s.upload = some p)
    (hstep : s.uploadStep cfg valid p l = some t) : DeviceInv cfg valid t hist := by
  simp only [Device.uploadStep] at hstep
  split at hstep
  · next hl =>
    obtain ⟨⟨v, cs⟩, hv, rfl⟩ := Option.map_eq_some_iff.1 hstep
    obtain ⟨u, calls⟩ := p
    have hup := h.upload _ hp
    have hnew : ∀ q, Device.pending v (calls ++ cs) = some q →
        UploadOk cfg valid (cs.foldl Device.call s).passive
          (cs.foldl Device.call s).uploadWriter hist q := by
      intro q hq
      obtain ⟨rfl, hnot⟩ := pending_some hq
      exact uploadOk_step hup hl hv hnot
    rcases upload_calls (s := s) hv with ⟨hsame, -, hholds⟩ | ⟨r, rfl, -, rfl⟩ |
      ⟨c, r, rfl, hholds, hcs⟩ | ⟨hpc, rfl, hans⟩
    · -- nothing reaches the flash; the upload holds the slot no more than before
      have hless : s.uploading = false →
          Option.any (fun q => q.1.holdsSlot) (Device.pending v (calls ++ cs)) = false := by
        intro hn
        rw [uploading_some hp] at hn
        cases hq : Device.pending v (calls ++ cs) with
        | none => rfl
        | some q =>
          obtain ⟨rfl, -⟩ := pending_some hq
          cases hvh : v.holdsSlot with
          | false => simpa using hvh
          | true =>
            rw [hholds hvh] at hn
            cases hn
      rw [hsame] at hnew ⊢
      refine ⟨hnew, h.install, fun hup => ?_, fun hsw => ?_⟩
      · cases hs : s.uploading with
        | true => exact h.alone hs
        | false => exact absurd ((hless hs).symm.trans hup) (by simp)
      · obtain ⟨hfree, hrest⟩ := h.switched hsw
        exact ⟨hless hfree, hrest⟩
    · -- `esp_ota_begin`: the condition finds the slot free
      obtain ⟨hsw, hfree⟩ : s.switched = false ∧ s.installing = false := by
        simpa [Device.beginAlone] using hok
      cases r with
      | ok =>
        refine ⟨hnew, fun i hi => h.install_free hfree hi, fun _ => hfree, fun hon => ?_⟩
        exact absurd (hsw.symm.trans hon) (by simp)
      | failed n =>
        refine ⟨hnew, fun i hi => h.install_free hfree hi, fun _ => hfree, fun hon => ?_⟩
        exact absurd (hsw.symm.trans hon) (by simp)
    · -- a write: the upload has held the slot since it began
      have hup' : s.uploading = true := by
        rw [uploading_some hp]
        exact hholds
      have hfree := h.alone hup'
      have hsw : s.switched = false := by
        cases hon : s.switched with
        | false => rfl
        | true => exact absurd ((h.switched hon).1.symm.trans hup') (by simp)
      rcases hcs with rfl | ⟨⟨n, rfl⟩, -⟩
      · refine ⟨hnew, fun i hi => h.install_free hfree hi, fun _ => hfree, fun hon => ?_⟩
        exact absurd (hsw.symm.trans hon) (by simp)
      · refine ⟨hnew, fun i hi => h.install_free hfree hi, fun _ => hfree, fun hon => ?_⟩
        exact absurd (hsw.symm.trans hon) (by simp)
    · -- the switch: the slot holds the image, and the upload lets go of it
      have hup' : s.uploading = true := by
        rw [uploading_some hp]
        exact Upload.holdsSlot_setBoot hpc
      have hnone := pending_answered (calls ++ [OtaCall.setBootPartition true]) hans
      refine ⟨hnew, h.install, fun _ => h.alone hup', fun _ => ?_⟩
      exact ⟨uploading_none hnone, h.alone hup', hup.whole hpc⟩
  · cases hstep

/-- The install moves on without touching the slot. -/
theorem DeviceInv.setInstall (h : DeviceInv cfg valid s hist) {o : Option Install}
    (hnew : ∀ j, o = some j → InstallOk valid s.passive hist j)
    (hless : s.installing = false → o.any Install.holdsSlot = false) (flag : InstallFlag)
    (err : Option InstallErr) :
    DeviceInv cfg valid { s with sInstall := flag, installErr := err, install := o } hist :=
  ⟨h.upload, hnew, fun hup => hless (h.alone hup), fun hsw => by
    obtain ⟨hup, hin, hwhole⟩ := h.switched hsw
    exact ⟨hup, hless hin, hwhole⟩⟩

/-- The install works on the slot. -/
theorem DeviceInv.useSlot (h : DeviceInv cfg valid s hist) (hup : s.uploading = false)
    (hsw : s.switched = false) {o : Option Install}
    (hnew : ∀ j, o = some j → InstallOk valid g hist j) (flag : InstallFlag)
    (err : Option InstallErr) :
    DeviceInv cfg valid { s with passive := g, sInstall := flag, installErr := err, install := o }
      hist :=
  ⟨fun _ hp => h.upload_free hup hp, hnew, fun hon => absurd (hup.symm.trans hon) (by simp),
    fun hon => absurd (hsw.symm.trans hon) (by simp)⟩

/-- While the install holds the slot nothing else does. -/
theorem DeviceInv.held (h : DeviceInv cfg valid s hist) (hi : s.install = some i)
    (hholds : i.holdsSlot = true) : s.uploading = false ∧ s.switched = false := by
  have hin : s.installing = true := (installing_some hi).trans hholds
  constructor
  · cases hup : s.uploading with
    | false => rfl
    | true => exact absurd ((h.alone hup).symm.trans hin) (by simp)
  · cases hsw : s.switched with
    | false => rfl
    | true => exact absurd ((h.switched hsw).2.1.symm.trans hin) (by simp)

theorem deviceInv_install {l : InstallLabel} (h : DeviceInv cfg valid s hist)
    (hok : s.beginAlone (.install l) = true) (hi : s.install = some i)
    (hstep : s.installStep cfg valid i l = some t) :
    DeviceInv cfg valid t (hist ++ imagesOf s (.install l)) := by
  have hin := h.install i hi
  have hnone : ∀ {g hist}, ∀ j, (none : Option Install) = some j →
      InstallOk valid g hist j := fun j hj => by cases hj
  -- only a connection adds an image
  cases l with
  | httpsBegin r =>
    simp only [Device.installStep] at hstep
    split at hstep
    · next hpc =>
      cases r with
      | ok img =>
        cases hstep
        refine (h.mono (List.subset_append_left _ _)).setInstall ?_ (fun _ => rfl) _ _
        rintro _ ⟨⟩
        exact hin.connected hpc img
      | error e =>
        cases hstep
        exact (h.mono (List.subset_append_left _ _)).setInstall hnone (fun _ => rfl) _ _
    · cases hstep
  | imgDesc ok =>
    simp only [imagesOf, List.append_nil]
    simp only [Device.installStep] at hstep
    split at hstep
    · next hpc =>
      obtain ⟨hpc, hlen⟩ := hpc
      split at hstep
      · cases hstep
        exact h.setInstall hnone (fun _ => rfl) _ _
      · next hread =>
        split at hstep
        · cases hstep
          refine h.setInstall ?_ (fun _ => rfl) _ _
          rintro _ ⟨⟩
          exact hin.described hpc (hlen (by simpa using hread))
        · cases hstep
          exact h.setInstall hnone (fun _ => rfl) _ _
    · cases hstep
  | otaBegin room =>
    simp only [imagesOf, List.append_nil]
    obtain ⟨hsw, hup⟩ : s.switched = false ∧ s.uploading = false := by
      simpa [Device.beginAlone] using hok
    simp only [Device.installStep] at hstep
    split at hstep
    · next hpc =>
      cases hstep
      refine h.useSlot hup hsw ?_ _ _
      rintro _ ⟨⟩
      exact hin.begun hpc room
    · cases hstep
  | otaBeginErr e n =>
    simp only [imagesOf, List.append_nil]
    obtain ⟨hsw, hup⟩ : s.switched = false ∧ s.uploading = false := by
      simpa [Device.beginAlone] using hok
    simp only [Device.installStep] at hstep
    split at hstep
    · cases hstep
      exact h.useSlot hup hsw hnone _ _
    · cases hstep
  | perform n =>
    simp only [imagesOf, List.append_nil]
    simp only [Device.installStep] at hstep
    split at hstep
    · next hpc =>
      obtain ⟨hpc, -, -⟩ := hpc
      cases hstep
      obtain ⟨hup, hsw⟩ := h.held hi (by rw [Install.holdsSlot, hpc])
      refine h.useSlot hup hsw ?_ _ _
      rintro _ ⟨⟩
      exact hin.performed hpc n
    · cases hstep
  | performErr e n =>
    simp only [imagesOf, List.append_nil]
    simp only [Device.installStep] at hstep
    split at hstep
    · next hpc =>
      cases hstep
      obtain ⟨hup, hsw⟩ := h.held hi (by rw [Install.holdsSlot, hpc])
      exact h.useSlot hup hsw hnone _ _
    · cases hstep
  | performDone =>
    simp only [imagesOf, List.append_nil]
    simp only [Device.installStep] at hstep
    split at hstep
    · next hpc =>
      split at hstep
      · next hall =>
        cases hstep
        refine h.setInstall ?_ (fun hn => ?_) _ _
        · rintro _ ⟨⟩
          exact hin.downloaded hpc hall
        · rw [installing_some hi, Install.holdsSlot, hpc] at hn
          cases hn
      · cases hstep
        exact h.setInstall hnone (fun _ => rfl) _ _
    · cases hstep
  | otaEnd r =>
    simp only [imagesOf, List.append_nil]
    simp only [Device.installStep] at hstep
    split at hstep
    · next hpc =>
      cases r with
      | ok x =>
        simp only at hstep
        split at hstep
        · next hvalid =>
          cases hstep
          refine h.setInstall ?_ (fun hn => ?_) _ _
          · rintro _ ⟨⟩
            exact hin.ended hpc hvalid
          · rw [installing_some hi, Install.holdsSlot, hpc] at hn
            cases hn
        · cases hstep
      | error e =>
        cases hstep
        exact h.setInstall hnone (fun _ => rfl) _ _
    · cases hstep
  | setBoot r =>
    simp only [imagesOf, List.append_nil]
    simp only [Device.installStep] at hstep
    split at hstep
    · next hpc =>
      obtain ⟨hup, -⟩ := h.held hi (Install.holdsSlot_setBoot hpc)
      cases r with
      | ok x =>
        cases hstep
        refine ⟨h.upload, ?_, fun _ => rfl, fun _ => ⟨hup, rfl, hin.whole_slot hpc⟩⟩
        rintro _ ⟨⟩
        exact hin.delayed hpc
      | error e =>
        cases hstep
        exact h.setInstall hnone (fun _ => rfl) _ _
    · cases hstep

theorem deviceInv_boot (running passive : Flash) (hist : List (List UInt8)) :
    DeviceInv cfg valid (Device.boot running passive) hist :=
  ⟨fun _ hp => (by cases hp), fun _ hi => (by cases hi), fun hup => (by cases hup),
    fun hsw => (by cases hsw)⟩

/-- A step that begins alone keeps the slot of the other path, and a switched slot. -/
theorem deviceInv_step {l : DeviceLabel} (h : DeviceInv cfg valid s hist)
    (hok : s.beginAlone l = true) (hstep : s.step cfg valid l = some t) :
    DeviceInv cfg valid t (hist ++ imagesOf s l) := by
  cases l with
  | otaPost req =>
    simp only [Device.step] at hstep
    split at hstep
    · next hnone =>
      cases hstep
      have h' := h.mono (List.subset_append_left hist (imagesOf s (.otaPost req)))
      refine ⟨?_, h'.install, fun hup => (Bool.false_ne_true hup).elim, fun hsw => ?_⟩
      · rintro _ ⟨⟩
        have hfresh : Fresh (Upload.start req) [] := ⟨rfl, rfl, rfl, rfl⟩
        refine ⟨hfresh, fun a ha => (by cases ha), ?_, fun hh => ?_, fun hb => by cases hb⟩
        · simp [imagesOf, Upload.start]
        · exact (Bool.false_ne_true hh).elim
      · exact ⟨rfl, (h'.switched hsw).2⟩
    · cases hstep
  | installPost spawned =>
    simp only [imagesOf, List.append_nil]
    simp only [Device.step] at hstep
    split at hstep
    · split at hstep
      · cases hstep
        exact h
      · split at hstep
        · cases hstep
          refine h.setInstall ?_ (fun _ => rfl) _ _
          rintro _ ⟨⟩
          refine ⟨fun hne => absurd rfl hne, fun hne => absurd rfl hne, fun hh => ?_,
            fun _ => rfl, fun hor => ?_, fun hb => by cases hb⟩
          · exact (Bool.false_ne_true hh).elim
          · rcases hor with hor | hor <;> cases hor
        · cases hstep
          exact h.setInstall (fun _ hj => by cases hj) (fun _ => rfl) _ _
    · cases hstep
  | upload l =>
    simp only [imagesOf, List.append_nil]
    obtain ⟨p, hp, hl⟩ := Option.bind_eq_some_iff.1 hstep
    exact deviceInv_upload h hok hp hl
  | install l =>
    obtain ⟨i, hi, hl⟩ := Option.bind_eq_some_iff.1 hstep
    exact deviceInv_install h hok hi hl
  | restart =>
    simp only [Device.step] at hstep
    split at hstep
    · cases hstep
      rw [Device.restarted]
      split
      · exact deviceInv_boot _ _ _
      · exact deviceInv_boot _ _ _
    · cases hstep

end DeviceSteps

/-! ## What a restart finds -/

/-- **A run whose begins are alone restarts into a whole image.** Start from any two slots
and let requests, calls of both paths and restarts come in any order, each `esp_ota_begin`
only while the other path does not hold the slot and the boot partition is not switched.
A restart with the boot partition switched then comes up on a slot that was validated as it
is and starts with a complete image of one of the two paths. -/
theorem restart_into_image (cfg : OtaConfig) (valid : Flash → Bool) (running passive : Flash)
    {s t : Device} {hist : List (List UInt8)}
    (hrun : ((otaSystem cfg valid).record imagesOf).Reaches (fun p l => p.1.beginAlone l = true)
      (Device.boot running passive, []) (s, hist))
    (hrestart : s.step cfg valid .restart = some t) (hsw : s.switched = true) :
    Whole valid hist t.running := by
  have hinv : DeviceInv cfg valid s hist := by
    refine hrun.invariant (I := fun p => DeviceInv cfg valid p.1 p.2)
      (deviceInv_boot running passive []) ?_
    rintro ⟨s, hist⟩ l ⟨t, hist'⟩ hinv hok hstep
    obtain ⟨hs, ht⟩ := Machine.record_step hstep
    rw [ht]
    exact deviceInv_step hinv hok hs
  obtain ⟨-, -, hwhole⟩ := hinv.switched hsw
  simp only [Device.step] at hrestart
  split at hrestart
  · cases hrestart
    rw [Device.restarted, if_pos hsw]
    exact hwhole
  · cases hrestart

/-- A validation that looks at the first byte of the image. -/
def imageMagic (f : Flash) : Bool := f 0 = 0xE9

/-- An install up to its 500 ms. -/
def installRun : List DeviceLabel :=
  [.installPost true, .install (.httpsBegin (.ok exampleHeader)), .install (.imgDesc true),
    .install (.otaBegin 0), .install (.perform 288), .install .performDone,
    .install (.otaEnd (.ok ())), .install (.setBoot (.ok ()))]

/-- An upload that begins in the meantime. -/
def lateUpload : List DeviceLabel :=
  [.otaPost ⟨300000, []⟩, .upload (.enter true), .upload (.otaBegin .ok)]

/-- The device of the runs below: both slots erased. -/
def blankDevice : Device := .boot (fun _ => erased) (fun _ => erased)

theorem restart_into_image_install :
    ∃ (s t : Device) (hist : List (List UInt8)),
      s.step exampleConfig imageMagic .restart = some t ∧ s.switched = true ∧
        Whole imageMagic hist t.running := by
  obtain ⟨⟨s, hist⟩, hrun, hsw, hpending⟩ := Machine.exists_reaches_of_runIf
    ((otaSystem exampleConfig imageMagic).record imagesOf) (fun p l => p.1.beginAlone l = true)
    (fun p => p.1.switched = true ∧ p.1.restartPending = true) (blankDevice, []) installRun
    (by decide +kernel)
  have hrestart : s.step exampleConfig imageMagic .restart = some s.restarted := if_pos hpending
  exact ⟨s, _, hist, hrestart, hsw,
    restart_into_image exampleConfig imageMagic _ _ hrun hrestart hsw⟩

/-- An upload begins while the restart into an installed image is pending: the device comes
up on erased flash. -/
theorem restart_into_erased :
    ∃ (s t : Device) (hist : List (List UInt8)),
      ((otaSystem exampleConfig imageMagic).record imagesOf).Reaches (fun _ _ => True)
        (blankDevice, []) (s, hist) ∧
      s.step exampleConfig imageMagic .restart = some t ∧ s.switched = true ∧
      ∀ img ∈ hist, hdrSize ≤ img.length → ¬ StartsWith t.running img := by
  obtain ⟨⟨s, hist⟩, hrun, hsw, hpending, hzero, hhist⟩ := Machine.exists_reaches_of_runIf
    ((otaSystem exampleConfig imageMagic).record imagesOf) (fun _ _ => True)
    (fun p => p.1.switched = true ∧ p.1.restartPending = true ∧ p.1.passive 0 = erased ∧
      p.2 = [exampleHeader, []]) (blankDevice, []) (installRun ++ lateUpload)
    (by decide +kernel)
  refine ⟨s, s.restarted, hist, hrun, if_pos hpending, hsw, fun img himg hlen hstart => ?_⟩
  have hrunning : s.restarted.running = s.passive := by
    rw [Device.restarted, if_pos hsw]
    rfl
  simp only at hhist hzero
  rw [hhist] at himg
  rw [hrunning] at hstart
  rcases List.mem_pair.1 himg with rfl | rfl
  · have hfirst := hstart 0 (by rw [exampleHeader_length]; decide)
    rw [hzero] at hfirst
    exact absurd hfirst (by decide)
  · exact absurd hlen (by decide)

end Cdc2Net.Ota
