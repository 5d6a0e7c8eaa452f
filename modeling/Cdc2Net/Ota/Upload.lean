import Cdc2Net.Lib.Transition
import Cdc2Net.Source.SerialCfg

/-!
# The firmware upload

`h_ota_body` of `webui.c`: the body of a request is streamed into the passive OTA slot,
and its first 288 bytes are gathered on the way and checked. A step of the model is one
`httpd_req_recv` or one `esp_ota_*` call, whose results are inputs; the handler's calls
are recorded.

At each exit the boot partition, the answer and the handle fit together
(`upload_all_or_nothing`), and a request with nothing wrong gets to its end
(`reaches_setBoot`).
-/

set_option autoImplicit false

namespace Cdc2Net.Ota

open Cdc2Net.Lib.Transition
open Cdc2Net.Source (cString)

/-! ## The handler -/

/-- The fields of `esp_app_desc_t` the handler reads, character arrays of 32. -/
structure AppDesc where
  version : List UInt8
  projectName : List UInt8

/-- The passive slot, at least one page long and of a size that is an `int`, and the
running application. -/
structure OtaConfig where
  slotSize : Nat
  page : 0x1000 ≤ slotSize
  fits : slotSize < 0x80000000
  running : AppDesc

/-- A request: `content_len` and the bytes the client sends. -/
structure OtaRequest where
  contentLen : Nat
  body : List UInt8

/-- `min_len`. -/
def minLen : Nat := 256 * 1024
/-- `max_len`. -/
def OtaConfig.maxLen (cfg : OtaConfig) : Nat := cfg.slotSize - 0x1000
/-- `sizeof(buf)`. -/
def bufSize : Nat := 1024
/-- `sizeof(hdr_buf)`: image header, segment header and application descriptor. -/
def hdrSize : Nat := 288
/-- `ESP_APP_DESC_MAGIC_WORD`. -/
def espAppDescMagicWord : Nat := 0xABCD5432

/-- `nd->magic_word`. -/
def hdrMagic (hdr : List UInt8) : Nat :=
  (hdr.getD 32 0).toNat + 256 * (hdr.getD 33 0).toNat + 65536 * (hdr.getD 34 0).toNat +
    16777216 * (hdr.getD 35 0).toNat

/-- `nd->version`. -/
def hdrVersion (hdr : List UInt8) : List UInt8 := (hdr.drop 48).take 32

/-- `nd->project_name`. -/
def hdrProjectName (hdr : List UInt8) : List UInt8 := (hdr.drop 80).take 32

/-- `strncmp(nd->project_name, cd->project_name, 32) == 0`. -/
def SameProject (cfg : OtaConfig) (hdr : List UInt8) : Prop :=
  cString (hdrProjectName hdr) = cString (cfg.running.projectName.take 32)

instance (cfg : OtaConfig) (hdr : List UInt8) : Decidable (SameProject cfg hdr) := by
  unfold SameProject
  infer_instance

/-- The header is that of an image of the running project. -/
def HeaderOk (cfg : OtaConfig) (hdr : List UInt8) : Prop :=
  hdrMagic hdr = espAppDescMagicWord ∧ SameProject cfg hdr

/-- How a flash operation ends; a failed one got `n` bytes far. -/
inductive FlashResult where
  | ok
  | failed (n : Nat)
  deriving DecidableEq, Repr

/-- The response of the handler. -/
inductive Answer where
  | done (bytes : Nat) (source target : List UInt8)
  | err (code : Nat) (text : String)
  deriving DecidableEq, Repr

/-- A call of the handler. -/
inductive OtaCall where
  | received (bytes : List UInt8)
  | otaBegin (len : Nat) (r : FlashResult)
  | otaWrite (bytes : List UInt8) (r : FlashResult)
  | otaEnd (ok : Bool)
  | otaAbort
  | setBootPartition (ok : Bool)
  deriving DecidableEq, Repr

/-- Where the handler stands. -/
inductive UploadPc where
  | entry
  | otaBegin
  | recv
  /-- Before `esp_ota_write` of a chunk. -/
  | otaWrite (chunk : List UInt8)
  /-- The loop is left. -/
  | check
  | otaEnd
  | setBoot
  | answered (a : Answer)
  deriving DecidableEq, Repr

/-- The locals of `h_ota_body`; `hdrBuf` is `hdr_buf[0 .. hdr_filled)`. -/
structure Upload where
  req : OtaRequest
  pc : UploadPc
  hdrBuf : List UInt8
  hdrValidated : Bool
  newVersion : List UInt8
  written : Nat

/-- A request arrives. -/
def Upload.start (req : OtaRequest) : Upload := ⟨req, .entry, [], false, [], 0⟩

/-- The results of the calls the handler makes. -/
inductive UploadLabel where
  /-- `esp_ota_get_next_update_partition` finds a slot or not. -/
  | enter (found : Bool)
  | otaBegin (r : FlashResult)
  /-- `httpd_req_recv` returns `n` bytes. -/
  | recv (n : Nat)
  /-- `HTTPD_SOCK_ERR_TIMEOUT`. -/
  | timeout
  /-- Any other result that is not positive. -/
  | recvError
  | otaWrite (r : FlashResult)
  /-- The check after the loop. -/
  | check
  | otaEnd (ok : Bool)
  | setBoot (ok : Bool)
  deriving DecidableEq, Repr

namespace Upload

/-- `remaining`, which goes down as `written` goes up. -/
def remaining (u : Upload) : Nat := u.req.contentLen - u.written

/-- `httpd_resp_send_err` and return. -/
def refuse (u : Upload) (code : Nat) (text : String) : Upload :=
  { u with pc := .answered (.err code text) }

/-- `content_len` is in range. -/
def InRange (cfg : OtaConfig) (req : OtaRequest) : Prop :=
  minLen ≤ req.contentLen ∧ req.contentLen ≤ cfg.maxLen

instance (cfg : OtaConfig) (req : OtaRequest) : Decidable (InRange cfg req) := by
  unfold InRange
  infer_instance

/-- The next `n` bytes of the body. -/
def chunk (u : Upload) (n : Nat) : List UInt8 := (u.req.body.drop u.written).take n

/-- The header check on a chunk: the locals, and whether the request is refused with a
handle to abort. -/
def checkHeader (cfg : OtaConfig) (u : Upload) (c : List UInt8) : Upload × Bool :=
  if u.hdrValidated then (u, false)
  else
    let v := { u with hdrBuf := u.hdrBuf ++ c.take (hdrSize - u.hdrBuf.length) }
    if v.hdrBuf.length = hdrSize then
      if hdrMagic v.hdrBuf ≠ espAppDescMagicWord then
        (v.refuse 400 "not an ESP image (magic mismatch)", true)
      else
        let v := { v with newVersion := cString (hdrVersion v.hdrBuf) }
        if SameProject cfg v.hdrBuf then ({ v with hdrValidated := true }, false)
        else (v.refuse 400 "project_name mismatch", true)
    else (v, false)

/-- One pass of the loop up to `esp_ota_write`. -/
def stepRecv (cfg : OtaConfig) (u : Upload) (n : Nat) : Option (Upload × List OtaCall) :=
  if 0 < n ∧ n ≤ min u.remaining bufSize ∧ u.written + n ≤ u.req.body.length then
    let c := u.chunk n
    let v := u.checkHeader cfg c
    if v.2 then some (v.1, [.received c, .otaAbort])
    else some ({ v.1 with pc := .otaWrite c }, [.received c])
  else none

/-- The head of the loop. -/
def loop (u : Upload) : Upload := { u with pc := if u.remaining = 0 then .check else .recv }

/-- One call of the handler and what follows up to the next: the locals and the calls
made. -/
def step (cfg : OtaConfig) (u : Upload) : UploadLabel → Option (Upload × List OtaCall)
  | .enter found =>
    if u.pc = .entry then
      if found = false then some (u.refuse 500 "no OTA partition", [])
      else if InRange cfg u.req then some ({ u with pc := .otaBegin }, [])
      else some (u.refuse 400 "content_len out of range", [])
    else none
  | .otaBegin r =>
    if u.pc = .otaBegin then
      match r with
      | .ok => some (u.loop, [.otaBegin u.req.contentLen r])
      | .failed _ => some (u.refuse 500 "ota_begin", [.otaBegin u.req.contentLen r])
    else none
  | .recv n => if u.pc = .recv then stepRecv cfg u n else none
  | .timeout => if u.pc = .recv then some (u, []) else none
  | .recvError => if u.pc = .recv then some (u.refuse 500 "recv error", [.otaAbort]) else none
  | .otaWrite r =>
    match u.pc with
    | .otaWrite c =>
      match r with
      | .ok => some ({ u with written := u.written + c.length }.loop, [.otaWrite c r])
      | .failed _ => some (u.refuse 500 "ota_write", [.otaWrite c r, .otaAbort])
    | _ => none
  | .check =>
    if u.pc = .check then
      if u.hdrValidated then some ({ u with pc := .otaEnd }, [])
      else some (u.refuse 400 "image too small", [.otaAbort])
    else none
  | .otaEnd ok =>
    if u.pc = .otaEnd then
      -- the handle is gone whatever `esp_ota_end` returns
      if ok then some ({ u with pc := .setBoot }, [.otaEnd ok])
      else some (u.refuse 500 "ota_end", [.otaEnd ok])
    else none
  | .setBoot ok =>
    if u.pc = .setBoot then
      if ok then
        some ({ u with pc := .answered (.done u.written (cString (cfg.running.version.take 32))
          u.newVersion) }, [.setBootPartition ok])
      else some (u.refuse 500 "set_boot", [.setBootPartition ok])
    else none

end Upload

/-- One upload, with the record of its calls. -/
def uploadSystem (cfg : OtaConfig) : Machine (Upload × List OtaCall) UploadLabel where
  step p l := (p.1.step cfg l).map fun r => (r.1, p.2 ++ r.2)

/-- The outcomes of a step: from where it is made, what its result makes of the locals, and
the calls. -/
inductive UploadStep (cfg : OtaConfig) (u : Upload) :
    UploadLabel → Upload → List OtaCall → Prop where
  | noSlot (hpc : u.pc = .entry) :
      UploadStep cfg u (.enter false) (u.refuse 500 "no OTA partition") []
  | outOfRange (hpc : u.pc = .entry) :
      UploadStep cfg u (.enter true) (u.refuse 400 "content_len out of range") []
  | entered (hpc : u.pc = .entry) (hrange : Upload.InRange cfg u.req) :
      UploadStep cfg u (.enter true) { u with pc := .otaBegin } []
  | begun (hpc : u.pc = .otaBegin) :
      UploadStep cfg u (.otaBegin .ok) u.loop [.otaBegin u.req.contentLen .ok]
  | beginFailed (n : Nat) (hpc : u.pc = .otaBegin) :
      UploadStep cfg u (.otaBegin (.failed n)) (u.refuse 500 "ota_begin")
        [.otaBegin u.req.contentLen (.failed n)]
  | headerRefused (n : Nat) (hpc : u.pc = .recv)
      (hbody : u.written + n ≤ u.req.body.length)
      (hrefused : (u.checkHeader cfg (u.chunk n)).2 = true) :
      UploadStep cfg u (.recv n) (u.checkHeader cfg (u.chunk n)).1
        [.received (u.chunk n), .otaAbort]
  | received (n : Nat) (hpc : u.pc = .recv) (hpos : 0 < n) (hle : n ≤ u.remaining)
      (hbody : u.written + n ≤ u.req.body.length)
      (haccepted : (u.checkHeader cfg (u.chunk n)).2 = false) :
      UploadStep cfg u (.recv n)
        { (u.checkHeader cfg (u.chunk n)).1 with pc := .otaWrite (u.chunk n) }
        [.received (u.chunk n)]
  | timeout (hpc : u.pc = .recv) : UploadStep cfg u .timeout u []
  | recvError (hpc : u.pc = .recv) :
      UploadStep cfg u .recvError (u.refuse 500 "recv error") [.otaAbort]
  | written (c : List UInt8) (hpc : u.pc = .otaWrite c) :
      UploadStep cfg u (.otaWrite .ok) { u with written := u.written + c.length }.loop
        [.otaWrite c .ok]
  | writeFailed (c : List UInt8) (n : Nat) (hpc : u.pc = .otaWrite c) :
      UploadStep cfg u (.otaWrite (.failed n)) (u.refuse 500 "ota_write")
        [.otaWrite c (.failed n), .otaAbort]
  | checked (hpc : u.pc = .check) (hval : u.hdrValidated = true) :
      UploadStep cfg u .check { u with pc := .otaEnd } []
  | tooSmall (hpc : u.pc = .check) (hval : u.hdrValidated = false) :
      UploadStep cfg u .check (u.refuse 400 "image too small") [.otaAbort]
  | ended (hpc : u.pc = .otaEnd) :
      UploadStep cfg u (.otaEnd true) { u with pc := .setBoot } [.otaEnd true]
  | endFailed (hpc : u.pc = .otaEnd) :
      UploadStep cfg u (.otaEnd false) (u.refuse 500 "ota_end") [.otaEnd false]
  | switched (hpc : u.pc = .setBoot) :
      UploadStep cfg u (.setBoot true)
        { u with pc := .answered (.done u.written (cString (cfg.running.version.take 32))
          u.newVersion) } [.setBootPartition true]
  | switchFailed (hpc : u.pc = .setBoot) :
      UploadStep cfg u (.setBoot false) (u.refuse 500 "set_boot") [.setBootPartition false]

theorem Upload.step_cases {cfg : OtaConfig} {u v : Upload} {l : UploadLabel} {cs : List OtaCall}
    (hstep : u.step cfg l = some (v, cs)) : UploadStep cfg u l v cs := by
  cases l with
  | enter found =>
    simp only [Upload.step] at hstep
    split at hstep
    · next hpc =>
      cases found with
      | false =>
        cases hstep
        exact .noSlot hpc
      | true =>
        simp only [Bool.true_eq_false, if_false] at hstep
        split at hstep
        · next hrange =>
          cases hstep
          exact .entered hpc hrange
        · cases hstep
          exact .outOfRange hpc
    · cases hstep
  | otaBegin r =>
    simp only [Upload.step] at hstep
    split at hstep
    · next hpc =>
      cases r with
      | ok =>
        cases hstep
        exact .begun hpc
      | failed n =>
        cases hstep
        exact .beginFailed n hpc
    · cases hstep
  | recv n =>
    -- the check of the header comes before the chunk is written
    simp only [Upload.step, Upload.stepRecv] at hstep
    split at hstep
    · next hpc =>
      split at hstep
      · next hn =>
        obtain ⟨hpos, hle, hbody⟩ := hn
        split at hstep
        · next hrefused =>
          cases hstep
          exact .headerRefused n hpc hbody hrefused
        · next haccepted =>
          cases hstep
          exact .received n hpc hpos (hle.trans (min_le_left _ _)) hbody (by simpa using haccepted)
      · cases hstep
    · cases hstep
  | timeout =>
    simp only [Upload.step] at hstep
    split at hstep
    · next hpc =>
      cases hstep
      exact .timeout hpc
    · cases hstep
  | recvError =>
    simp only [Upload.step] at hstep
    split at hstep
    · next hpc =>
      cases hstep
      exact .recvError hpc
    · cases hstep
  | otaWrite r =>
    simp only [Upload.step] at hstep
    split at hstep
    · next c hpc =>
      cases r with
      | ok =>
        cases hstep
        exact .written c hpc
      | failed n =>
        cases hstep
        exact .writeFailed c n hpc
    · cases hstep
  | check =>
    simp only [Upload.step] at hstep
    split at hstep
    · next hpc =>
      split at hstep
      · next hval =>
        cases hstep
        exact .checked hpc hval
      · next hval =>
        cases hstep
        exact .tooSmall hpc (by simpa using hval)
    · cases hstep
  | otaEnd ok =>
    simp only [Upload.step] at hstep
    split at hstep
    · next hpc =>
      cases ok with
      | true =>
        cases hstep
        exact .ended hpc
      | false =>
        cases hstep
        exact .endFailed hpc
    · cases hstep
  | setBoot ok =>
    simp only [Upload.step] at hstep
    split at hstep
    · next hpc =>
      cases ok with
      | true =>
        cases hstep
        exact .switched hpc
      | false =>
        cases hstep
        exact .switchFailed hpc
    · cases hstep

/-! ## What a record shows -/

/-- The bytes received. -/
def receivedBytes (calls : List OtaCall) : List UInt8 :=
  calls.flatMap fun
    | .received bytes => bytes
    | _ => []

/-- The bytes `esp_ota_write` took. -/
def writtenBytes (calls : List OtaCall) : List UInt8 :=
  calls.flatMap fun
    | .otaWrite bytes .ok => bytes
    | _ => []

/-- A handle is obtained. -/
def OtaCall.isOpen : OtaCall → Bool
  | .otaBegin _ .ok => true
  | _ => false

/-- The handle is ended or aborted. -/
def OtaCall.isClose : OtaCall → Bool
  | .otaEnd _ => true
  | .otaAbort => true
  | _ => false

/-- The handles obtained. -/
def opens (calls : List OtaCall) : Nat := calls.countP OtaCall.isOpen

/-- The handles ended or aborted. -/
def closes (calls : List OtaCall) : Nat := calls.countP OtaCall.isClose

/-- The boot partition is switched: by a successful `esp_ota_set_boot_partition` only. -/
def Switched (calls : List OtaCall) : Prop := .setBootPartition true ∈ calls

instance (calls : List OtaCall) : Decidable (Switched calls) := by
  unfold Switched
  infer_instance

section Append

variable (calls cs : List OtaCall)

@[simp] theorem receivedBytes_append :
    receivedBytes (calls ++ cs) = receivedBytes calls ++ receivedBytes cs := by
  simp [receivedBytes]

@[simp] theorem writtenBytes_append :
    writtenBytes (calls ++ cs) = writtenBytes calls ++ writtenBytes cs := by
  simp [writtenBytes]

@[simp] theorem opens_append : opens (calls ++ cs) = opens calls + opens cs := by
  simp [opens]

@[simp] theorem closes_append : closes (calls ++ cs) = closes calls + closes cs := by
  simp [closes]

@[simp] theorem switched_append : Switched (calls ++ cs) ↔ Switched calls ∨ Switched cs := by
  simp [Switched]

end Append

/-- Everything the request itself can do for a switch: its length is in range, all of
its bytes were received and written in order, and they start with the right header. -/
structure Delivered (cfg : OtaConfig) (req : OtaRequest) (calls : List OtaCall) : Prop where
  range : Upload.InRange cfg req
  sent : req.contentLen ≤ req.body.length
  received : receivedBytes calls = req.body.take req.contentLen
  written : writtenBytes calls = req.body.take req.contentLen
  header : HeaderOk cfg (req.body.take hdrSize)

/-- How a request is settled, when `esp_ota_end` and the switch return `endOk` and
`setBootOk`. -/
structure Settled (cfg : OtaConfig) (req : OtaRequest) (endOk setBootOk : Bool)
    (calls : List OtaCall) (a : Answer) : Prop where
  boot : Switched calls ↔ Delivered cfg req calls ∧ endOk = true ∧ setBootOk = true
  done : Switched calls → ∃ source target, a = .done req.contentLen source target
  err : ¬ Switched calls → ∃ code text, a = .err code text
  handle : closes calls = opens calls ∧ opens calls ≤ 1

/-- An error answer is right when something was missing and the handle is closed. -/
theorem Settled.of_err {cfg : OtaConfig} {req : OtaRequest} {endOk setBootOk : Bool}
    {calls : List OtaCall} (code : Nat) (text : String) (hboot : ¬ Switched calls)
    (hmissing : ¬ (Delivered cfg req calls ∧ endOk = true ∧ setBootOk = true))
    (hhandle : closes calls = opens calls ∧ opens calls ≤ 1) :
    Settled cfg req endOk setBootOk calls (.err code text) :=
  ⟨iff_of_false hboot hmissing, fun h => absurd h hboot, fun _ => ⟨code, text, rfl⟩, hhandle⟩

theorem Delivered.length {cfg : OtaConfig} {req : OtaRequest} {calls : List OtaCall}
    (h : Delivered cfg req calls) : (receivedBytes calls).length = req.contentLen ∧
      (writtenBytes calls).length = req.contentLen ∧ minLen ≤ req.contentLen := by
  rw [h.received, h.written, List.length_take, Nat.min_eq_left h.sent]
  exact ⟨rfl, rfl, h.range.1⟩

/-! ## The invariant of the handler -/

/-- What holds while the handle is open. -/
structure Going (cfg : OtaConfig) (u : Upload) (calls : List OtaCall) : Prop where
  range : Upload.InRange cfg u.req
  hdr : u.hdrBuf = (receivedBytes calls).take hdrSize
  checked : u.hdrValidated = true → hdrSize ≤ (receivedBytes calls).length ∧
    HeaderOk cfg ((receivedBytes calls).take hdrSize)
  unchecked : u.hdrValidated = false → (receivedBytes calls).length < hdrSize
  written : writtenBytes calls = u.req.body.take u.written
  inBody : u.written ≤ u.req.contentLen ∧ u.written ≤ u.req.body.length
  opened : opens calls = 1
  closed : closes calls = 0
  kept : ¬ Switched calls

/-- Nothing has been called. -/
structure Fresh (u : Upload) (calls : List OtaCall) : Prop where
  calls : calls = []
  hdr : u.hdrBuf = []
  checked : u.hdrValidated = false
  written : u.written = 0

/-- What holds at each point of the handler. -/
def UploadInv (cfg : OtaConfig) (endOk setBootOk : Bool) (u : Upload) (calls : List OtaCall) :
    Prop :=
  match u.pc with
  | .entry => Fresh u calls
  | .otaBegin => Fresh u calls ∧ Upload.InRange cfg u.req
  | .recv => Going cfg u calls ∧ receivedBytes calls = u.req.body.take u.written ∧
      u.written < u.req.contentLen
  | .otaWrite c => Going cfg u calls ∧ c ≠ [] ∧ c = u.chunk c.length ∧
      receivedBytes calls = u.req.body.take (u.written + c.length) ∧
      u.written + c.length ≤ u.req.contentLen ∧ u.written + c.length ≤ u.req.body.length
  | .check => Going cfg u calls ∧ receivedBytes calls = u.req.body.take u.written ∧
      u.written = u.req.contentLen
  | .otaEnd => Going cfg u calls ∧ receivedBytes calls = u.req.body.take u.written ∧
      u.written = u.req.contentLen ∧ u.hdrValidated = true
  | .setBoot => Delivered cfg u.req calls ∧ u.written = u.req.contentLen ∧ endOk = true ∧
      closes calls = 1 ∧ opens calls = 1 ∧ ¬ Switched calls
  | .answered a => Settled cfg u.req endOk setBootOk calls a

/-- The results of the last two calls. -/
def UploadLabel.Results (endOk setBootOk : Bool) : UploadLabel → Prop
  | .otaEnd ok => ok = endOk
  | .setBoot ok => ok = setBootOk
  | _ => True

section Steps

variable {cfg : OtaConfig} {endOk setBootOk : Bool} {u v : Upload} {calls cs : List OtaCall}

/-- The handle is open and bytes are missing: aborting it settles the request. -/
theorem Going.abort (h : Going cfg u calls) (cs : List OtaCall) (hcs : ¬ Switched cs)
    (hopen : opens cs = 0) (hclose : closes cs = 1) (code : Nat) (text : String)
    (hmissing : ¬ Delivered cfg u.req (calls ++ cs)) :
    Settled cfg u.req endOk setBootOk (calls ++ cs) (.err code text) := by
  refine .of_err code text ?_ (fun hd => hmissing hd.1) ?_
  · rw [switched_append, not_or]
    exact ⟨h.kept, hcs⟩
  · rw [closes_append, opens_append, h.opened, h.closed, hopen, hclose]
    exact ⟨rfl, le_rfl⟩

/-- Nothing has been received: the request is not delivered. -/
theorem Fresh.not_delivered (h : Fresh u calls) (hr : receivedBytes cs = []) :
    ¬ Delivered cfg u.req (calls ++ cs) := by
  intro hd
  have hlen := hd.length
  rw [h.calls, List.nil_append, hr] at hlen
  simp only [minLen, List.length_nil] at hlen
  omega

theorem uploadInv_enter {found : Bool} (h : UploadInv cfg endOk setBootOk u calls)
    (hstep : u.step cfg (.enter found) = some (v, cs)) :
    UploadInv cfg endOk setBootOk v (calls ++ cs) := by
  have hrefused : u.pc = .entry → ∀ code text, UploadInv cfg endOk setBootOk
      (u.refuse code text) (calls ++ []) := fun hpc code text => by
    simp only [UploadInv, hpc] at h
    refine Settled.of_err code text ?_ (fun hd => h.not_delivered rfl hd.1) ?_
    · rw [h.calls]
      exact List.not_mem_nil
    · rw [h.calls]
      exact ⟨rfl, Nat.zero_le 1⟩
  cases Upload.step_cases hstep with
  | noSlot hpc => exact hrefused hpc _ _
  | outOfRange hpc => exact hrefused hpc _ _
  | entered hpc hrange =>
    simp only [UploadInv, hpc] at h
    exact ⟨⟨by rw [h.calls]; rfl, h.hdr, h.checked, h.written⟩, hrange⟩

/-- The head of the loop. -/
theorem uploadInv_loop (h : Going cfg u calls)
    (hr : receivedBytes calls = u.req.body.take u.written) :
    UploadInv cfg endOk setBootOk u.loop calls := by
  have hg : Going cfg u.loop calls := ⟨h.range, h.hdr, h.checked, h.unchecked, h.written,
    h.inBody, h.opened, h.closed, h.kept⟩
  have hle := h.inBody.1
  by_cases hdone : u.remaining = 0
  · have hpc : u.loop.pc = .check := by simp [Upload.loop, hdone]
    simp only [UploadInv, hpc]
    refine ⟨hg, hr, ?_⟩
    simp only [Upload.remaining] at hdone
    simp only [Upload.loop]
    omega
  · have hpc : u.loop.pc = .recv := by simp [Upload.loop, hdone]
    simp only [UploadInv, hpc]
    refine ⟨hg, hr, ?_⟩
    simp only [Upload.remaining] at hdone
    simp only [Upload.loop]
    omega

theorem uploadInv_begin {r : FlashResult} (h : UploadInv cfg endOk setBootOk u calls)
    (hstep : u.step cfg (.otaBegin r) = some (v, cs)) :
    UploadInv cfg endOk setBootOk v (calls ++ cs) := by
  cases Upload.step_cases hstep with
  | begun hpc =>
    simp only [UploadInv, hpc] at h
    obtain ⟨hfresh, hrange⟩ := h
    refine uploadInv_loop ?_ ?_
    · rw [hfresh.calls]
      refine ⟨hrange, hfresh.hdr, fun hv => ?_, fun _ => ?_, ?_, ?_, rfl, rfl, ?_⟩
      · rw [hfresh.checked] at hv
        cases hv
      · simp [receivedBytes, hdrSize]
      · rw [hfresh.written]
        rfl
      · rw [hfresh.written]
        exact ⟨Nat.zero_le _, Nat.zero_le _⟩
      · simp [Switched]
    · rw [hfresh.calls, hfresh.written]
      rfl
  | beginFailed n hpc =>
    simp only [UploadInv, hpc] at h
    obtain ⟨hfresh, -⟩ := h
    refine Settled.of_err _ _ ?_ (fun hd => hfresh.not_delivered rfl hd.1) ?_
    · rw [hfresh.calls]
      simp [Switched]
    · rw [hfresh.calls]
      exact ⟨rfl, Nat.zero_le 1⟩

theorem checkHeader_req (u : Upload) (c : List UInt8) : (u.checkHeader cfg c).1.req = u.req := by
  simp only [Upload.checkHeader, Upload.refuse]
  split
  · rfl
  · split
    · split
      · rfl
      · split <;> rfl
    · rfl

/-- The header check sees the first 288 bytes received, however they were cut. -/
theorem checkHeader_spec (h : Going cfg u calls) (c : List UInt8) :
    (u.checkHeader cfg c).1.req = u.req ∧ (u.checkHeader cfg c).1.written = u.written ∧
      ((u.checkHeader cfg c).2 = true →
        (∃ code text, (u.checkHeader cfg c).1.pc = .answered (.err code text)) ∧
          hdrSize ≤ (receivedBytes calls ++ c).length ∧
          ¬ HeaderOk cfg ((receivedBytes calls ++ c).take hdrSize)) ∧
      ((u.checkHeader cfg c).2 = false →
        (u.checkHeader cfg c).1.hdrBuf = (receivedBytes calls ++ c).take hdrSize ∧
          ((u.checkHeader cfg c).1.hdrValidated = true →
            hdrSize ≤ (receivedBytes calls ++ c).length ∧
              HeaderOk cfg ((receivedBytes calls ++ c).take hdrSize)) ∧
          ((u.checkHeader cfg c).1.hdrValidated = false →
            (receivedBytes calls ++ c).length < hdrSize)) := by
  cases hval : u.hdrValidated with
  | true =>
    -- checked before: later bytes do not change the first 288
    obtain ⟨hlen, hok⟩ := h.checked hval
    have htake : (receivedBytes calls ++ c).take hdrSize = (receivedBytes calls).take hdrSize :=
      List.take_append_of_le_length hlen
    have hv : u.checkHeader cfg c = (u, false) := by rw [Upload.checkHeader, if_pos hval]
    rw [hv, htake, List.length_append]
    exact ⟨rfl, rfl, fun hf => (by cases hf), fun _ => ⟨h.hdr, fun _ => ⟨by omega, hok⟩,
      fun hf => by rw [hval] at hf; cases hf⟩⟩
  | false =>
    -- the chunk fills the buffer up to 288 bytes at most
    have hshort := h.unchecked hval
    have hbuf : u.hdrBuf ++ c.take (hdrSize - u.hdrBuf.length) =
        (receivedBytes calls ++ c).take hdrSize := by
      rw [h.hdr, List.take_append, List.take_of_length_le hshort.le]
    have hbuflen : ((receivedBytes calls ++ c).take hdrSize).length = hdrSize ↔
        hdrSize ≤ (receivedBytes calls ++ c).length := by
      rw [List.length_take]
      omega
    simp only [Upload.checkHeader, hval, Bool.false_eq_true, if_false, hbuf, hbuflen]
    split
    · next hfull =>
      split
      · next hmagic =>
        exact ⟨rfl, rfl, fun _ => ⟨⟨_, _, rfl⟩, hfull, fun hok => hmagic hok.1⟩,
          fun hf => by cases hf⟩
      · next hmagic =>
        split
        · next hproject =>
          refine ⟨rfl, rfl, fun hf => (by cases hf), fun _ => ⟨rfl, fun _ => ⟨hfull, ?_⟩,
            fun hf => by cases hf⟩⟩
          exact ⟨not_not.1 hmagic, hproject⟩
        · next hproject =>
          exact ⟨rfl, rfl, fun _ => ⟨⟨_, _, rfl⟩, hfull, fun hok => hproject hok.2⟩,
            fun hf => by cases hf⟩
    · next hfull =>
      refine ⟨rfl, rfl, fun hf => (by cases hf), fun _ => ⟨rfl, fun hv => ?_, fun _ => by omega⟩⟩
      cases hv

theorem uploadInv_recv {n : Nat} (h : UploadInv cfg endOk setBootOk u calls)
    (hstep : u.step cfg (.recv n) = some (v, cs)) :
    UploadInv cfg endOk setBootOk v (calls ++ cs) := by
  -- the bytes received so far are the first of the body
  have htake : u.pc = .recv →
      receivedBytes calls ++ u.chunk n = u.req.body.take (u.written + n) := fun hpc => by
    simp only [UploadInv, hpc] at h
    rw [h.2.1, Upload.chunk, List.take_add]
  cases Upload.step_cases hstep with
  | headerRefused n hpc hbody hrefused =>
    specialize htake hpc
    simp only [UploadInv, hpc] at h
    obtain ⟨hg, -, -⟩ := h
    obtain ⟨hreq, -, hbad, -⟩ := checkHeader_spec hg (u.chunk n)
    rw [htake, List.length_take, Nat.min_eq_left hbody] at hbad
    obtain ⟨⟨code, text, hans⟩, hfull, hno⟩ := hbad hrefused
    have hcalls : Settled cfg u.req endOk setBootOk
        (calls ++ [OtaCall.received (u.chunk n), .otaAbort]) (.err code text) := by
      refine hg.abort _ (by simp [Switched]) rfl rfl code text fun hd => hno ?_
      -- the first 288 bytes are those of the body
      rw [List.take_take, Nat.min_eq_left hfull]
      exact hd.header
    simp only [UploadInv, hans, hreq]
    exact hcalls
  | received n hpc hpos hle hbody haccepted =>
    specialize htake hpc
    simp only [UploadInv, hpc] at h
    obtain ⟨hg, -, hlt⟩ := h
    have hrem : u.written + n ≤ u.req.contentLen := by
      simp only [Upload.remaining] at hle
      omega
    have hlen : (u.chunk n).length = n := by
      simp only [Upload.chunk, List.length_take, List.length_drop]
      omega
    obtain ⟨hreq, hwritten, -, hgood⟩ := checkHeader_spec hg (u.chunk n)
    rw [htake, List.length_take, Nat.min_eq_left hbody] at hgood
    obtain ⟨hbuf, hok, hshort⟩ := hgood haccepted
    have hrecv : receivedBytes (calls ++ [OtaCall.received (u.chunk n)]) =
        u.req.body.take (u.written + n) := by
      rw [receivedBytes_append, ← htake]
      simp [receivedBytes]
    refine ⟨⟨?_, ?_, ?_, ?_, ?_, ?_, ?_, ?_, ?_⟩, ?_, ?_, ?_, ?_, ?_⟩
    · -- `Going`
      rw [hreq]
      exact hg.range
    · rw [hrecv]
      exact hbuf
    · intro hv
      rw [hrecv, List.length_take, Nat.min_eq_left hbody]
      exact hok hv
    · intro hv
      rw [hrecv, List.length_take, Nat.min_eq_left hbody]
      exact hshort hv
    · rw [writtenBytes_append, hreq, hwritten, hg.written]
      exact List.append_nil _
    · rw [hreq, hwritten]
      exact hg.inBody
    · rw [opens_append, hg.opened]
      rfl
    · rw [closes_append, hg.closed]
      rfl
    · rw [switched_append, not_or]
      exact ⟨hg.kept, by simp [Switched]⟩
    · -- the chunk ahead of its write
      intro hnil
      rw [hnil] at hlen
      exact absurd hlen.symm (Nat.ne_of_gt hpos)
    · show u.chunk n = ((u.checkHeader cfg (u.chunk n)).1.req.body.drop
        (u.checkHeader cfg (u.chunk n)).1.written).take (u.chunk n).length
      rw [hwritten, hreq, hlen, Upload.chunk]
    · rw [hrecv, hlen, hreq, hwritten]
    · rw [hlen, hreq, hwritten]
      exact hrem
    · rw [hlen, hreq, hwritten]
      exact hbody

theorem uploadInv_recvError (h : UploadInv cfg endOk setBootOk u calls)
    (hstep : u.step cfg .recvError = some (v, cs)) :
    UploadInv cfg endOk setBootOk v (calls ++ cs) := by
  cases Upload.step_cases hstep with
  | recvError hpc =>
    simp only [UploadInv, hpc] at h
    obtain ⟨hg, hr, hlt⟩ := h
    refine hg.abort _ (by simp [Switched]) rfl rfl _ _ fun hd => ?_
    have hlen := hd.length.1
    rw [receivedBytes_append, hr] at hlen
    simp [receivedBytes] at hlen
    omega

theorem uploadInv_write {r : FlashResult} (h : UploadInv cfg endOk setBootOk u calls)
    (hstep : u.step cfg (.otaWrite r) = some (v, cs)) :
    UploadInv cfg endOk setBootOk v (calls ++ cs) := by
  cases Upload.step_cases hstep with
  | written c hpc =>
    simp only [UploadInv, hpc] at h
    obtain ⟨hg, -, hchunk, hr, hlen, hbody⟩ := h
    have hrecv : receivedBytes (calls ++ [OtaCall.otaWrite c .ok]) = receivedBytes calls := by
      rw [receivedBytes_append]
      exact List.append_nil _
    refine uploadInv_loop ⟨hg.range, ?_, ?_, ?_, ?_, ⟨hlen, hbody⟩, ?_, ?_, ?_⟩ ?_
    · rw [hrecv]
      exact hg.hdr
    · rw [hrecv]
      exact hg.checked
    · rw [hrecv]
      exact hg.unchecked
    · -- the chunk goes behind what has been written
      have hbytes : writtenBytes [.otaWrite c .ok] = c := List.append_nil c
      rw [writtenBytes_append, hg.written, hbytes]
      rw [Upload.chunk] at hchunk
      rw [List.take_add, ← hchunk]
    · rw [opens_append, hg.opened]
      rfl
    · rw [closes_append, hg.closed]
      rfl
    · rw [switched_append, not_or]
      exact ⟨hg.kept, by simp [Switched]⟩
    · rw [hrecv]
      exact hr
  | writeFailed c n hpc =>
    simp only [UploadInv, hpc] at h
    obtain ⟨hg, hne, -, -, hlen, -⟩ := h
    refine hg.abort _ (by simp [Switched]) rfl rfl _ _ fun hd => ?_
    have hshort := hd.length.2.1
    have hpos : 0 < c.length := List.length_pos_of_ne_nil hne
    -- the refused chunk is missing in the slot
    rw [writtenBytes_append, hg.written] at hshort
    simp [writtenBytes] at hshort
    omega

theorem uploadInv_check (h : UploadInv cfg endOk setBootOk u calls)
    (hstep : u.step cfg .check = some (v, cs)) :
    UploadInv cfg endOk setBootOk v (calls ++ cs) := by
  cases Upload.step_cases hstep with
  | checked hpc hval =>
    simp only [UploadInv, hpc] at h
    obtain ⟨hg, hr, hdone⟩ := h
    rw [List.append_nil]
    exact ⟨⟨hg.range, hg.hdr, hg.checked, hg.unchecked, hg.written, hg.inBody, hg.opened,
      hg.closed, hg.kept⟩, hr, hdone, hval⟩
  | tooSmall hpc hval =>
    simp only [UploadInv, hpc] at h
    obtain ⟨hg, hr, hdone⟩ := h
    -- a body of at least 256 KiB has a whole header
    have hshort := hg.unchecked hval
    have hmin := hg.range.1
    have hbody := hg.inBody.2
    rw [hr, List.length_take, Nat.min_eq_left hbody] at hshort
    simp only [minLen, hdrSize] at hmin hshort
    omega

/-- `esp_ota_end` closes the handle, whatever it returns. -/
theorem Going.ended (h : Going cfg u calls) (ok : Bool) :
    opens (calls ++ [OtaCall.otaEnd ok]) = 1 ∧ closes (calls ++ [OtaCall.otaEnd ok]) = 1 ∧
      ¬ Switched (calls ++ [OtaCall.otaEnd ok]) := by
  refine ⟨?_, ?_, ?_⟩
  · rw [opens_append, h.opened]
    rfl
  · rw [closes_append, h.closed]
    rfl
  · rw [switched_append, not_or]
    exact ⟨h.kept, by simp [Switched]⟩

theorem uploadInv_end {ok : Bool} (h : UploadInv cfg endOk setBootOk u calls) (hok : ok = endOk)
    (hstep : u.step cfg (.otaEnd ok) = some (v, cs)) :
    UploadInv cfg endOk setBootOk v (calls ++ cs) := by
  cases Upload.step_cases hstep with
  | ended hpc =>
    simp only [UploadInv, hpc] at h
    obtain ⟨hg, hr, hdone, hval⟩ := h
    obtain ⟨hopen, hclose, hkept⟩ := hg.ended true
    have hrecv : receivedBytes (calls ++ [OtaCall.otaEnd true]) =
        u.req.body.take u.req.contentLen := by
      rw [receivedBytes_append, hr, hdone]
      exact List.append_nil _
    refine ⟨⟨hg.range, ?_, hrecv, ?_, ?_⟩, hdone, hok.symm, hclose, hopen, hkept⟩
    · rw [← hdone]
      exact hg.inBody.2
    · rw [writtenBytes_append, hg.written, hdone]
      exact List.append_nil _
    · obtain ⟨hfull, hheader⟩ := hg.checked hval
      rw [hr, List.length_take] at hfull
      rw [hr, List.take_take, Nat.min_eq_left (by omega)] at hheader
      exact hheader
  | endFailed hpc =>
    simp only [UploadInv, hpc] at h
    obtain ⟨hg, -⟩ := h
    obtain ⟨hopen, hclose, hkept⟩ := hg.ended false
    refine Settled.of_err _ _ hkept (fun hd => ?_) ⟨by rw [hclose, hopen], hopen.le⟩
    exact absurd (hok.trans hd.2.1) Bool.false_ne_true

theorem uploadInv_setBoot {ok : Bool} (h : UploadInv cfg endOk setBootOk u calls)
    (hok : ok = setBootOk) (hstep : u.step cfg (.setBoot ok) = some (v, cs)) :
    UploadInv cfg endOk setBootOk v (calls ++ cs) := by
  have hhandle : u.pc = .setBoot → closes (calls ++ [OtaCall.setBootPartition ok]) =
      opens (calls ++ [OtaCall.setBootPartition ok]) ∧
      opens (calls ++ [OtaCall.setBootPartition ok]) ≤ 1 := fun hpc => by
    simp only [UploadInv, hpc] at h
    obtain ⟨-, -, -, hclose, hopen, -⟩ := h
    rw [closes_append, opens_append, hclose, hopen]
    exact ⟨rfl, le_rfl⟩
  cases Upload.step_cases hstep with
  | switched hpc =>
    specialize hhandle hpc
    simp only [UploadInv, hpc] at h
    obtain ⟨hd, hdone, hend, -, -, -⟩ := h
    have hswitched : Switched (calls ++ [OtaCall.setBootPartition true]) := by simp [Switched]
    have hdelivered : Delivered cfg u.req (calls ++ [OtaCall.setBootPartition true]) := by
      refine ⟨hd.range, hd.sent, ?_, ?_, hd.header⟩
      · rw [receivedBytes_append, hd.received]
        exact List.append_nil _
      · rw [writtenBytes_append, hd.written]
        exact List.append_nil _
    refine ⟨iff_of_true hswitched ⟨hdelivered, hend, hok.symm⟩, fun _ => ?_,
      fun hn => absurd hswitched hn, hhandle⟩
    exact ⟨_, _, by rw [hdone]⟩
  | switchFailed hpc =>
    specialize hhandle hpc
    simp only [UploadInv, hpc] at h
    obtain ⟨-, -, -, -, -, hkept⟩ := h
    refine Settled.of_err _ _ ?_ (fun hall => ?_) hhandle
    · rw [switched_append, not_or]
      exact ⟨hkept, by simp [Switched]⟩
    · exact absurd (hok.trans hall.2.2) Bool.false_ne_true

/-- Every call keeps the invariant. -/
theorem uploadInv_step {l : UploadLabel} (h : UploadInv cfg endOk setBootOk u calls)
    (hl : l.Results endOk setBootOk) (hstep : u.step cfg l = some (v, cs)) :
    UploadInv cfg endOk setBootOk v (calls ++ cs) := by
  cases l with
  | enter found => exact uploadInv_enter h hstep
  | otaBegin r => exact uploadInv_begin h hstep
  | recv n => exact uploadInv_recv h hstep
  | timeout =>
    cases Upload.step_cases hstep with
    | timeout hpc =>
      rw [List.append_nil]
      exact h
  | recvError => exact uploadInv_recvError h hstep
  | otaWrite r => exact uploadInv_write h hstep
  | check => exact uploadInv_check h hstep
  | otaEnd ok => exact uploadInv_end h hl hstep
  | setBoot ok => exact uploadInv_setBoot h hl hstep

/-- Nothing is switched before the answer. -/
theorem UploadInv.not_switched (h : UploadInv cfg endOk setBootOk u calls)
    (hnot : ∀ a, u.pc ≠ .answered a) : ¬ Switched calls := by
  cases hpc : u.pc with
  | answered a => exact absurd hpc (hnot a)
  | entry =>
    simp only [UploadInv, hpc] at h
    rw [h.calls]
    exact List.not_mem_nil
  | otaBegin =>
    simp only [UploadInv, hpc] at h
    rw [h.1.calls]
    exact List.not_mem_nil
  | recv =>
    simp only [UploadInv, hpc] at h
    exact h.1.kept
  | otaWrite c =>
    simp only [UploadInv, hpc] at h
    exact h.1.kept
  | check =>
    simp only [UploadInv, hpc] at h
    exact h.1.kept
  | otaEnd =>
    simp only [UploadInv, hpc] at h
    exact h.1.kept
  | setBoot =>
    simp only [UploadInv, hpc] at h
    exact h.2.2.2.2.2

/-- The request is the same throughout. -/
theorem step_req {l : UploadLabel} (hstep : u.step cfg l = some (v, cs)) : v.req = u.req := by
  cases Upload.step_cases hstep with
  | headerRefused n hpc hbody hrefused => exact checkHeader_req u _
  | received n hpc hpos hle hbody haccepted => exact checkHeader_req u _
  | _ => rfl

/-! ## Progress -/

/-- The calls ahead, timeouts not counted: at most two for a missing byte. -/
def Upload.left (u : Upload) : Nat :=
  match u.pc with
  | .entry => 2 * u.req.contentLen + 6
  | .otaBegin => 2 * u.req.contentLen + 5
  | .recv => 2 * u.remaining + 4
  | .otaWrite _ => 2 * u.remaining + 3
  | .check => 3
  | .otaEnd => 2
  | .setBoot => 1
  | .answered _ => 0

theorem Upload.left_loop (u : Upload) : u.loop.left ≤ 2 * u.remaining + 4 := by
  by_cases hdone : u.remaining = 0
  · have hpc : u.loop.pc = .check := by simp [Upload.loop, hdone]
    simp only [Upload.left, hpc]
    omega
  · have hpc : u.loop.pc = .recv := by simp [Upload.loop, hdone]
    simp only [Upload.left, hpc]
    exact le_rfl

@[simp] theorem Upload.left_refuse (u : Upload) (code : Nat) (text : String) :
    (u.refuse code text).left = 0 := rfl

/-- Every call but a receive that times out takes the handler nearer to its exit. -/
theorem left_step {l : UploadLabel} (h : UploadInv cfg endOk setBootOk u calls)
    (hl : l ≠ .timeout) (hstep : u.step cfg l = some (v, cs)) : v.left < u.left := by
  have hpos : (∀ a, u.pc ≠ .answered a) → 0 < u.left := fun hnot => by
    cases hpc : u.pc with
    | answered a => exact absurd hpc (hnot a)
    | _ => simp [Upload.left, hpc]
  cases Upload.step_cases hstep with
  | entered hpc hrange =>
    simp only [Upload.left, hpc]
    omega
  | begun hpc =>
    have hloop := u.left_loop
    have hrem : u.remaining ≤ u.req.contentLen := Nat.sub_le _ _
    simp only [Upload.left, hpc] at hloop ⊢
    omega
  | headerRefused n hpc hbody hrefused =>
    simp only [UploadInv, hpc] at h
    obtain ⟨-, -, hbad, -⟩ := checkHeader_spec h.1 (u.chunk n)
    obtain ⟨⟨code, text, hans⟩, -⟩ := hbad hrefused
    simp only [Upload.left, hans, hpc]
    omega
  | received n hpc hpos hle hbody haccepted =>
    simp only [UploadInv, hpc] at h
    obtain ⟨hreq, hwritten, -, -⟩ := checkHeader_spec h.1 (u.chunk n)
    simp only [Upload.left, Upload.remaining, hpc, hreq, hwritten]
    omega
  | timeout hpc => exact absurd rfl hl
  | written c hpc =>
    -- a chunk has at least one byte, worth two calls
    simp only [UploadInv, hpc] at h
    obtain ⟨-, hne, -, -, hrem, -⟩ := h
    have hc : 0 < c.length := List.length_pos_of_ne_nil hne
    have hloop := Upload.left_loop { u with written := u.written + c.length }
    have hleft : u.left = 2 * u.remaining + 3 := by simp only [Upload.left, hpc]
    simp only [Upload.remaining] at hloop hleft
    omega
  | checked hpc hval =>
    simp only [Upload.left, hpc]
    omega
  | ended hpc =>
    simp only [Upload.left, hpc]
    omega
  | switched hpc =>
    simp only [Upload.left, hpc]
    omega
  -- a refusal is the last call
  | noSlot hpc => exact hpos (by simp [hpc])
  | outOfRange hpc => exact hpos (by simp [hpc])
  | beginFailed n hpc => exact hpos (by simp [hpc])
  | recvError hpc => exact hpos (by simp [hpc])
  | writeFailed c n hpc => exact hpos (by simp [hpc])
  | tooSmall hpc hval => exact hpos (by simp [hpc])
  | endFailed hpc => exact hpos (by simp [hpc])
  | switchFailed hpc => exact hpos (by simp [hpc])

/-- Only an exit stops the handler: elsewhere some result takes it on. -/
theorem exists_step (cfg : OtaConfig) (endOk setBootOk : Bool) (u : Upload)
    (h : ∀ a, u.pc ≠ .answered a) : ∃ l, l ≠ .timeout ∧
      UploadLabel.Results endOk setBootOk l ∧ (u.step cfg l).isSome = true := by
  cases hpc : u.pc with
  | entry => exact ⟨.enter false, by decide, trivial, by simp [Upload.step, hpc]⟩
  | otaBegin => exact ⟨.otaBegin .ok, by decide, trivial, by simp [Upload.step, hpc]⟩
  | recv => exact ⟨.recvError, by decide, trivial, by simp [Upload.step, hpc]⟩
  | otaWrite c => exact ⟨.otaWrite .ok, by decide, trivial, by simp [Upload.step, hpc]⟩
  | check =>
    refine ⟨.check, by decide, trivial, ?_⟩
    cases hval : u.hdrValidated with
    | true => simp [Upload.step, hpc, hval]
    | false => simp [Upload.step, hpc, hval]
  | otaEnd =>
    refine ⟨.otaEnd endOk, by simp, rfl, ?_⟩
    cases endOk with
    | true => simp [Upload.step, hpc]
    | false => simp [Upload.step, hpc]
  | setBoot =>
    refine ⟨.setBoot setBootOk, by simp, rfl, ?_⟩
    cases setBootOk with
    | true => simp [Upload.step, hpc]
    | false => simp [Upload.step, hpc]
  | answered a => exact absurd hpc (h a)

end Steps

/-! ## Whole uploads -/

section Runs

variable {cfg : OtaConfig} {endOk setBootOk : Bool}

/-- In every upload the invariant holds at every point. -/
theorem uploadInv_reaches {req : OtaRequest} {p : Upload × List OtaCall}
    (hrun : (uploadSystem cfg).Reaches (fun _ l => l.Results endOk setBootOk)
      (Upload.start req, []) p) :
    p.1.req = req ∧ UploadInv cfg endOk setBootOk p.1 p.2 := by
  have hfresh : UploadInv cfg endOk setBootOk (Upload.start req) [] :=
    show Fresh (Upload.start req) [] from ⟨rfl, rfl, rfl, rfl⟩
  refine hrun.invariant (I := fun p => p.1.req = req ∧ UploadInv cfg endOk setBootOk p.1 p.2)
    ⟨rfl, hfresh⟩ ?_
  rintro ⟨u, calls⟩ l q ⟨hreq, hinv⟩ hl hstep
  obtain ⟨⟨v, cs⟩, hv, rfl⟩ := Option.map_eq_some_iff.1 hstep
  exact ⟨(step_req hv).trans hreq, uploadInv_step hinv hl hv⟩

/-- **Upload is all or nothing.** For every request, however its body is cut and whatever
each call returns: once the handler has answered, the boot partition is switched exactly
if the length is in range, all bytes were received and written in order, they start with
the right header, and `esp_ota_end` and the switch succeeded; else the answer is an error.
The handle, if one was obtained, has been ended or aborted once. Before the answer nothing
is switched, and every result but a timeout takes the handler nearer to it. -/
theorem upload_all_or_nothing (cfg : OtaConfig) (req : OtaRequest) (endOk setBootOk : Bool)
    {u : Upload} {calls : List OtaCall}
    (hrun : (uploadSystem cfg).Reaches (fun _ l => l.Results endOk setBootOk)
      (Upload.start req, []) (u, calls)) :
    (∀ a, u.pc = .answered a → Settled cfg req endOk setBootOk calls a) ∧
      ((∀ a, u.pc ≠ .answered a) → ¬ Switched calls ∧
        (∃ l, l ≠ .timeout ∧ UploadLabel.Results endOk setBootOk l ∧
          (u.step cfg l).isSome = true) ∧
        ∀ l v cs, l ≠ .timeout → u.step cfg l = some (v, cs) → v.left < u.left) := by
  obtain ⟨hreq, hinv⟩ := uploadInv_reaches hrun
  refine ⟨fun a ha => ?_, fun hnot => ⟨hinv.not_switched hnot, exists_step cfg _ _ u hnot,
    fun l v cs hl hstep => left_step hinv hl hstep⟩⟩
  simp only [UploadInv, ha] at hinv
  rw [← hreq]
  exact hinv

theorem reaches_step {u v : Upload} {l : UploadLabel} {cs : List OtaCall}
    (hl : l.Results endOk setBootOk) (h : u.step cfg l = some (v, cs)) (calls : List OtaCall) :
    (uploadSystem cfg).Reaches (fun _ l => l.Results endOk setBootOk) (u, calls)
      (v, calls ++ cs) :=
  .single ⟨l, hl, Option.map_eq_some_iff.2 ⟨_, h, rfl⟩⟩

theorem loop_pc (u : Upload) : u.loop.pc = .recv ∨ u.loop.pc = .check := by
  by_cases hdone : u.remaining = 0
  · exact .inr (by simp [Upload.loop, hdone])
  · exact .inl (by simp [Upload.loop, hdone])

/-- A pass of the loop over the largest chunk it asks for, of a body the checks accept. -/
theorem exists_pass {u : Upload} {calls : List OtaCall}
    (hu : UploadInv cfg endOk setBootOk u calls) (hpc : u.pc = .recv)
    (hsent : u.req.contentLen ≤ u.req.body.length)
    (hok : HeaderOk cfg (u.req.body.take hdrSize)) :
    ∃ w calls', (uploadSystem cfg).Reaches (fun _ l => l.Results endOk setBootOk)
      (u, calls) (w, calls') ∧ (w.pc = .recv ∨ w.pc = .check) ∧ w.left < u.left := by
  have hinv := hu
  simp only [UploadInv, hpc] at hinv
  obtain ⟨hg, hr, hlt⟩ := hinv
  obtain ⟨n, hn⟩ : ∃ n, n = min u.remaining bufSize := ⟨_, rfl⟩
  have hcan : 0 < n ∧ n ≤ min u.remaining bufSize ∧ u.written + n ≤ u.req.body.length := by
    simp only [Upload.remaining, bufSize] at hn ⊢
    omega
  obtain ⟨-, -, hbad, -⟩ := checkHeader_spec hg (u.chunk n)
  have haccepted : (u.checkHeader cfg (u.chunk n)).2 = false := by
    cases hres : (u.checkHeader cfg (u.chunk n)).2 with
    | false => rfl
    | true =>
      obtain ⟨-, hfull, hno⟩ := hbad hres
      rw [hr, Upload.chunk, ← List.take_add] at hfull hno
      rw [List.length_take] at hfull
      rw [List.take_take, Nat.min_eq_left (by omega)] at hno
      exact absurd hok hno
  obtain ⟨v, hv⟩ : ∃ v : Upload,
      v = { (u.checkHeader cfg (u.chunk n)).1 with pc := .otaWrite (u.chunk n) } := ⟨_, rfl⟩
  have hrecv : u.step cfg (.recv n) = some (v, [.received (u.chunk n)]) := by
    simp only [Upload.step, if_pos hpc, Upload.stepRecv, if_pos hcan, haccepted,
      Bool.false_eq_true, if_false, hv]
  obtain ⟨w, hw⟩ : ∃ w : Upload,
      w = { v with written := v.written + (u.chunk n).length } := ⟨_, rfl⟩
  have hwrite : v.step cfg (.otaWrite .ok) = some (w.loop, [.otaWrite (u.chunk n) .ok]) := by
    simp only [Upload.step, hw, hv]
  have hvinv := uploadInv_step (l := .recv n) hu trivial hrecv
  have hdown := left_step (l := .recv n) hu (by simp) hrecv
  have hdown' := left_step (l := .otaWrite .ok) hvinv (by simp) hwrite
  have hone : (uploadSystem cfg).Reaches (fun _ l => l.Results endOk setBootOk) (u, calls) _ :=
    reaches_step (l := .recv n) trivial hrecv calls
  exact ⟨w.loop, _, hone.trans (reaches_step (l := .otaWrite .ok) trivial hwrite _), loop_pc w,
    by omega⟩

/-- A body that the checks accept is received to its end. -/
theorem reaches_check {req : OtaRequest} {p : Upload × List OtaCall}
    (hrun : (uploadSystem cfg).Reaches (fun _ l => l.Results endOk setBootOk)
      (Upload.start req, []) p) (hpc : p.1.pc = .recv ∨ p.1.pc = .check)
    (hsent : req.contentLen ≤ req.body.length) (hok : HeaderOk cfg (req.body.take hdrSize)) :
    ∃ q, (uploadSystem cfg).Reaches (fun _ l => l.Results endOk setBootOk)
      (Upload.start req, []) q ∧ q.1.pc = .check := by
  -- on the calls ahead; a pass takes the handler from head to head of the loop
  induction hleft : p.1.left using Nat.strong_induction_on generalizing p with
  | h k ih =>
    rcases hpc with hpc | hpc
    · obtain ⟨hreq, hinv⟩ := uploadInv_reaches hrun
      obtain ⟨w, calls', hpass, hwpc, hw⟩ := exists_pass hinv hpc (by rwa [hreq])
        (by rwa [hreq])
      rw [hleft] at hw
      exact ih _ hw (hrun.trans hpass) hwpc rfl
    · exact ⟨p, hrun, hpc⟩

/-- A request with nothing wrong gets to its end: nothing the checks ask for is out of
reach. -/
theorem reaches_setBoot {req : OtaRequest} (hrange : Upload.InRange cfg req)
    (hsent : req.contentLen ≤ req.body.length) (hok : HeaderOk cfg (req.body.take hdrSize)) :
    ∃ u calls, (uploadSystem cfg).Reaches (fun _ l => l.Results true true)
      (Upload.start req, []) (u, calls) ∧ Switched calls ∧
        ∃ source target, u.pc = .answered (.done req.contentLen source target) := by
  obtain ⟨s, hs⟩ : ∃ s : Upload, s = { Upload.start req with pc := .otaBegin } := ⟨_, rfl⟩
  have henter : (Upload.start req).step cfg (.enter true) = some (s, []) := by
    simp [Upload.step, Upload.start, hrange, hs]
  have hbegin : s.step cfg (.otaBegin .ok) = some (s.loop, [.otaBegin req.contentLen .ok]) := by
    simp [Upload.step, Upload.start, hs]
  have hstart : (uploadSystem cfg).Reaches (fun _ l => l.Results true true)
      (Upload.start req, []) _ := reaches_step (l := .enter true) trivial henter []
  obtain ⟨⟨v, calls⟩, hrun, hpc⟩ := reaches_check
    (hstart.trans (reaches_step (l := .otaBegin .ok) trivial hbegin _)) (loop_pc s) hsent hok
  obtain ⟨hreq, hinv⟩ := uploadInv_reaches hrun
  replace hpc : v.pc = .check := hpc
  simp only [UploadInv, hpc] at hinv
  obtain ⟨hg, hr, hdone⟩ := hinv
  have hval : v.hdrValidated = true := by
    cases hval : v.hdrValidated with
    | true => rfl
    | false =>
      -- 256 KiB have come in, a header has 288 bytes
      have hshort := hg.unchecked hval
      rw [hr, List.length_take, Nat.min_eq_left hg.inBody.2, hdone] at hshort
      have hmin := hg.range.1
      simp only [minLen, hdrSize] at hmin hshort
      omega
  have hcheck : v.step cfg .check = some ({ v with pc := .otaEnd }, []) := by
    simp [Upload.step, hpc, hval]
  have hend : Upload.step cfg { v with pc := .otaEnd } (.otaEnd true) =
      some ({ v with pc := .setBoot }, [.otaEnd true]) := rfl
  obtain ⟨a, ha⟩ : ∃ a, a = Answer.done v.written (cString (cfg.running.version.take 32))
      v.newVersion := ⟨_, rfl⟩
  have hboot : Upload.step cfg { v with pc := .setBoot } (.setBoot true) =
      some ({ v with pc := .answered a }, [.setBootPartition true]) := by
    rw [ha]
    rfl
  refine ⟨_, _, ((hrun.trans (reaches_step (l := .check) trivial hcheck calls)).trans
    (reaches_step (l := .otaEnd true) rfl hend _)).trans
      (reaches_step (l := .setBoot true) rfl hboot _), ?_, ?_⟩
  · simp [Switched]
  · exact ⟨cString (cfg.running.version.take 32), v.newVersion, by rw [ha, hdone, hreq]⟩

end Runs

/-! ## An image of the running project -/

/-- A slot of 3 MiB; the running project is `cdc2net`. -/
def exampleConfig : OtaConfig :=
  ⟨0x300000, by decide, by decide, [0x31, 0x2E, 0x30],
    [0x63, 0x64, 0x63, 0x32, 0x6E, 0x65, 0x74]⟩

/-- The header of an image of that project, version `1.1`. -/
def exampleHeader : List UInt8 :=
  0xE9 :: List.replicate 31 0 ++ [0x32, 0x54, 0xCD, 0xAB] ++ List.replicate 12 0 ++
    ([0x31, 0x2E, 0x31] ++ List.replicate 29 0) ++
    ([0x63, 0x64, 0x63, 0x32, 0x6E, 0x65, 0x74] ++ List.replicate 25 0) ++
    List.replicate 176 0

/-- An image of `n` bytes behind the header. -/
def exampleRequest (n : Nat) : OtaRequest :=
  ⟨hdrSize + n, exampleHeader ++ List.replicate n 0xFF⟩

theorem exampleHeader_length : exampleHeader.length = hdrSize := by
  simp only [exampleHeader, List.length_append, List.length_replicate, List.length_cons,
    List.length_nil, hdrSize]

theorem exampleHeader_ok : HeaderOk exampleConfig exampleHeader := by
  refine ⟨by decide +kernel, ?_⟩
  decide +kernel

theorem exampleRequest_sent (n : Nat) :
    (exampleRequest n).contentLen ≤ (exampleRequest n).body.length := by
  simp [exampleRequest, exampleHeader_length]

theorem exampleRequest_header (n : Nat) :
    HeaderOk exampleConfig ((exampleRequest n).body.take hdrSize) := by
  rw [exampleRequest, List.take_left' exampleHeader_length]
  exact exampleHeader_ok

theorem exampleRequest_inRange {n : Nat} (h : minLen ≤ hdrSize + n) (h' : n ≤ 3000000) :
    Upload.InRange exampleConfig (exampleRequest n) := by
  have hlen : (exampleRequest n).contentLen = 288 + n := rfl
  have hmax : exampleConfig.maxLen = 0x300000 - 0x1000 := rfl
  rw [Upload.InRange, hlen, hmax]
  exact ⟨h, by omega⟩

theorem upload_all_or_nothing_image :
    ∃ u calls, (uploadSystem exampleConfig).Reaches (fun _ l => l.Results true true)
        (Upload.start (exampleRequest 300000), []) (u, calls) ∧ Switched calls ∧
      ∃ a, u.pc = .answered a ∧
        Settled exampleConfig (exampleRequest 300000) true true calls a := by
  obtain ⟨u, calls, hrun, hswitched, source, target, hpc⟩ :=
    reaches_setBoot (exampleRequest_inRange (by decide) (by decide)) (exampleRequest_sent 300000)
      (exampleRequest_header 300000)
  exact ⟨u, calls, hrun, hswitched, _, hpc,
    (upload_all_or_nothing exampleConfig _ true true hrun).1 _ hpc⟩

end Cdc2Net.Ota
