import Cdc2Net.Lib.Transition
import Cdc2Net.Radio.Image
import Mathlib.Data.Nat.Basic

/-!
# Staging a radio image

`h_radio_body` of `webui.c`: a request erases the whole `radio_fw` partition, streams
its body behind sector 0, holds sector 0 back in RAM and writes it last. A step of
the model is one erased sector, one received chunk or one programmed byte; the
handler may fail and the device may restart between any two steps.

`stageInv_step` says what the partition holds at every point of a request. An
image that passes the checks reaches its commit (`reaches_commit`).
-/

set_option autoImplicit false

namespace Cdc2Net.Radio

open Cdc2Net.Lib.NorFlash
open Cdc2Net.Lib.Transition

/-- `sizeof(buf)` of the receive loop. -/
def recvBufSize : Nat := 1024

/-- A request body: `content_len` and the bytes that arrive. -/
structure Body where
  len : Nat
  byte : Flash

/-- The locals of `h_radio_body`; `oldChip` is `none` for -1. -/
structure Request where
  body : Body
  oldChip : Option Nat
  hdrChecked : Bool
  received : Nat

/-- Where the handler stands. -/
inductive StagePc where
  /-- No request. -/
  | idle
  /-- In `esp_partition_erase_range`, with the next sector. -/
  | erase (q : Request) (k : Nat)
  /-- In `httpd_req_recv`. -/
  | recv (q : Request)
  /-- In `esp_partition_write` of a chunk that ends at `stop`, with the next address. -/
  | write (q : Request) (next stop : Nat)
  /-- After the loop. -/
  | verify (q : Request)
  /-- In the write of sector 0, with the next address. -/
  | commit (q : Request) (next : Nat)

/-- The partition, the static `sec0`, and the handler. `staged` and `before` are not
part of the program: the body of the last request that came to its commit, and the
one staged before that. -/
structure Stage where
  part : Flash
  sec0 : Flash
  pc : StagePc
  staged : Body
  before : Body

/-- The steps of the handler and what may end it. -/
inductive StageLabel where
  /-- A request arrives; the read of the old header succeeds or not. -/
  | start (body : Body) (hdrRead : Bool)
  /-- `httpd_req_recv` returns `r` bytes. -/
  | recv (r : Nat)
  /-- The handler goes on. -/
  | run
  /-- A receive, read, erase or write error. -/
  | fail
  /-- Power loss or reset. -/
  | restart

section Machine

variable (sectors : Nat)

/-- `old_chip`: the chip id of the header, if it could be read and is that of an image. -/
def oldChipOf (part : Flash) (hdrRead : Bool) : Option Nat :=
  if hdrRead = true ∧ part 0 = imageMagic then some (chipId part) else none

/-- The handler up to the erase. -/
def stepStart (s : Stage) (body : Body) (hdrRead : Bool) : Option Stage :=
  match s.pc with
  | .idle =>
    -- refused before anything is erased
    if body.len < radioMinImage ∨ sectorSize * sectors < body.len then some s
    else some { s with pc := .erase ⟨body, oldChipOf s.part hdrRead, false, 0⟩ 0 }
  | _ => none

/-- The bytes of a chunk of `r` bytes that go into the held-back sector. -/
def takeOf (received r : Nat) : Nat :=
  if received < sectorSize then min (sectorSize - received) r else 0

/-- `memcpy(sec0 + received, buf, take)`. -/
def fillSec0 (sec0 : Flash) (q : Request) (r : Nat) : Flash := fun a =>
  if q.received ≤ a ∧ a < q.received + takeOf q.received r then q.body.byte a else sec0 a

/-- The header check is due: this chunk fills the held-back sector. -/
def HdrDue (q : Request) (r : Nat) : Prop :=
  q.received < sectorSize ∧ sectorSize ≤ q.received + takeOf q.received r ∧ q.hdrChecked = false

instance (q : Request) (r : Nat) : Decidable (HdrDue q r) := by
  unfold HdrDue
  infer_instance

/-- The header passes: image magic, and the chip id of the old header, if there is one. -/
def HdrPasses (sec0 : Flash) (oldChip : Option Nat) : Prop :=
  sec0 0 = imageMagic ∧ ∀ c ∈ oldChip, chipId sec0 = c

instance (sec0 : Flash) (oldChip : Option Nat) : Decidable (HdrPasses sec0 oldChip) := by
  unfold HdrPasses
  infer_instance

/-- One pass of the receive loop, up to the write of the chunk. -/
def stepRecv (s : Stage) (r : Nat) : Option Stage :=
  match s.pc with
  | .recv q =>
    if 0 < r ∧ r ≤ min (q.body.len - q.received) recvBufSize then
      let sec0 := fillSec0 s.sec0 q r
      let next := q.received + takeOf q.received r
      if HdrDue q r then
        if HdrPasses sec0 q.oldChip then
          some { s with
            sec0 := sec0, pc := .write { q with hdrChecked := true } next (q.received + r) }
        -- refused, but the partition is erased by now
        else some { s with sec0 := sec0, pc := .idle }
      else some { s with sec0 := sec0, pc := .write q next (q.received + r) }
    else none
  | _ => none

/-- The handler goes on: the next sector of the erase, the next byte of a write, the
bookkeeping after a chunk, the check of the descriptor, the next byte of the commit. -/
def stepStage (s : Stage) : Option Stage :=
  match s.pc with
  | .erase q k =>
    if k < sectors then
      some { s with part := eraseSector sectorSize k s.part, pc := .erase q (k + 1) }
    else some { s with pc := .recv q }
  | .write q next stop =>
    if next < stop then
      some { s with part := program s.part next (q.body.byte next), pc := .write q (next + 1) stop }
    else if stop < q.body.len then some { s with pc := .recv { q with received := stop } }
    else some { s with pc := .verify { q with received := stop } }
  | .verify q =>
    -- the descriptor as it was read back, not as it was received
    if DescValid s.part then
      some { s with pc := .commit q 0, staged := q.body, before := s.staged }
    else some { s with pc := .idle }
  | .commit q next =>
    if next < sectorSize then
      some { s with part := program s.part next (s.sec0 next), pc := .commit q (next + 1) }
    else some { s with pc := .idle }
  | _ => none

/-- Uploads to a partition of `sectors` sectors. -/
def stageSystem : Machine Stage StageLabel where
  step s
    | .start body hdrRead => stepStart sectors s body hdrRead
    | .recv r => stepRecv s r
    | .run => stepStage sectors s
    | .fail => some { s with pc := .idle }
    | .restart => some { s with pc := .idle, sec0 := fun _ => 0 }

end Machine

/-! ## What the partition holds -/

/-- The partition holds all of the body and nothing behind it. -/
def Holds (size : Nat) (part : Flash) (b : Body) : Prop :=
  b.len ≤ size ∧ ∀ a, a < size → part a = if a < b.len then b.byte a else erased

/-- The body up to `n` is streamed behind sector 0, all else is erased. -/
def Streamed (size : Nat) (part : Flash) (b : Body) (n : Nat) : Prop :=
  ∀ a, a < size → part a = if sectorSize ≤ a ∧ a < n then b.byte a else erased

/-- The body is streamed and the first `n` bytes of sector 0 are committed. -/
def Committed (size : Nat) (part : Flash) (b : Body) (n : Nat) : Prop :=
  ∀ a, a < size → part a = if a < b.len ∧ (a < n ∨ sectorSize ≤ a) then b.byte a else erased

/-- `sec0` holds the part of the body's first `n` bytes that falls into sector 0. -/
def Held (sec0 : Flash) (b : Body) (n : Nat) : Prop :=
  ∀ a, a < n → a < sectorSize → sec0 a = b.byte a

/-- `content_len` is in range. -/
def Body.Fits (sectors : Nat) (b : Body) : Prop :=
  radioMinImage ≤ b.len ∧ b.len ≤ sectorSize * sectors

/-- A checked header is an image's, and of the chip the old header named. -/
def Request.Checked (q : Request) : Prop := q.hdrChecked = true →
  q.body.byte 0 = imageMagic ∧ ∀ c ∈ q.oldChip, chipId q.body.byte = c

/-- What holds at each point of a request. -/
def StageInv (sectors : Nat) (s : Stage) : Prop :=
  match s.pc with
  | .idle => True
  | .erase q k => q.body.Fits sectors ∧ q.received = 0 ∧ q.hdrChecked = false ∧ k ≤ sectors ∧
      ∀ a, a < sectorSize * k → s.part a = erased
  | .recv q => q.body.Fits sectors ∧ q.Checked ∧ q.received < q.body.len ∧
      (sectorSize ≤ q.received → q.hdrChecked = true) ∧
      Streamed (sectorSize * sectors) s.part q.body q.received ∧ Held s.sec0 q.body q.received
  | .write q next stop => q.body.Fits sectors ∧ q.Checked ∧ next ≤ stop ∧ stop ≤ q.body.len ∧
      (next < stop → sectorSize ≤ next) ∧ (sectorSize ≤ stop → q.hdrChecked = true) ∧
      Streamed (sectorSize * sectors) s.part q.body next ∧ Held s.sec0 q.body stop
  | .verify q => q.body.Fits sectors ∧ q.Checked ∧ q.hdrChecked = true ∧
      Streamed (sectorSize * sectors) s.part q.body q.body.len ∧ Held s.sec0 q.body q.body.len
  | .commit q next => q.body.Fits sectors ∧ q.Checked ∧ q.hdrChecked = true ∧
      DescValid q.body.byte ∧ s.staged = q.body ∧ next ≤ sectorSize ∧
      Committed (sectorSize * sectors) s.part q.body next ∧ Held s.sec0 q.body q.body.len

/-- What a step can do. -/
inductive StageStep (sectors : Nat) (s : Stage) : StageLabel → Stage → Prop where
  | refused (body : Body) (hdrRead : Bool) (hpc : s.pc = .idle) :
      StageStep sectors s (.start body hdrRead) s
  | started (body : Body) (hdrRead : Bool) (hpc : s.pc = .idle) (hfits : body.Fits sectors) :
      StageStep sectors s (.start body hdrRead)
        { s with pc := .erase ⟨body, oldChipOf s.part hdrRead, false, 0⟩ 0 }
  | chunk (q : Request) (r : Nat) (checked : Bool) (hpc : s.pc = .recv q)
      (hr : 0 < r ∧ r ≤ q.body.len - q.received)
      (hchecked : (¬ HdrDue q r ∧ checked = q.hdrChecked) ∨
        (HdrDue q r ∧ HdrPasses (fillSec0 s.sec0 q r) q.oldChip ∧ checked = true)) :
      StageStep sectors s (.recv r) { s with
        sec0 := fillSec0 s.sec0 q r
        pc := .write { q with hdrChecked := checked } (q.received + takeOf q.received r)
          (q.received + r) }
  | rejected (q : Request) (r : Nat) (hpc : s.pc = .recv q) :
      StageStep sectors s (.recv r) { s with sec0 := fillSec0 s.sec0 q r, pc := .idle }
  | sectorErased (q : Request) (k : Nat) (hpc : s.pc = .erase q k) (hk : k < sectors) :
      StageStep sectors s .run
        { s with part := eraseSector sectorSize k s.part, pc := .erase q (k + 1) }
  | allErased (q : Request) (k : Nat) (hpc : s.pc = .erase q k) (hk : sectors ≤ k) :
      StageStep sectors s .run { s with pc := .recv q }
  | byteWritten (q : Request) (next stop : Nat) (hpc : s.pc = .write q next stop)
      (hlt : next < stop) : StageStep sectors s .run { s with
        part := program s.part next (q.body.byte next), pc := .write q (next + 1) stop }
  | chunkWritten (q : Request) (next stop : Nat) (hpc : s.pc = .write q next stop)
      (hle : stop ≤ next) (hmore : stop < q.body.len) :
      StageStep sectors s .run { s with pc := .recv { q with received := stop } }
  | allWritten (q : Request) (next stop : Nat) (hpc : s.pc = .write q next stop)
      (hle : stop ≤ next) (hdone : q.body.len ≤ stop) :
      StageStep sectors s .run { s with pc := .verify { q with received := stop } }
  | verified (q : Request) (hpc : s.pc = .verify q) (hdesc : DescValid s.part) :
      StageStep sectors s .run
        { s with pc := .commit q 0, staged := q.body, before := s.staged }
  | invalid (q : Request) (hpc : s.pc = .verify q) : StageStep sectors s .run { s with pc := .idle }
  | byteCommitted (q : Request) (next : Nat) (hpc : s.pc = .commit q next)
      (hlt : next < sectorSize) : StageStep sectors s .run
        { s with part := program s.part next (s.sec0 next), pc := .commit q (next + 1) }
  | done (q : Request) (next : Nat) (hpc : s.pc = .commit q next) (hle : sectorSize ≤ next) :
      StageStep sectors s .run { s with pc := .idle }
  | failed : StageStep sectors s .fail { s with pc := .idle }
  | restarted : StageStep sectors s .restart { s with pc := .idle, sec0 := fun _ => 0 }

variable {sectors : Nat} {s t : Stage}

theorem stepStart_cases {body : Body} {hdrRead : Bool}
    (h : stepStart sectors s body hdrRead = some t) :
    StageStep sectors s (.start body hdrRead) t := by
  rcases s with ⟨part, sec0, pc, staged, before⟩
  cases pc with
  | idle =>
      simp only [stepStart] at h
      split at h
      · cases h
        exact .refused body hdrRead rfl
      · cases h
        exact .started body hdrRead rfl ⟨by omega, by omega⟩
  | erase q k => cases h
  | recv q => cases h
  | write q next stop => cases h
  | verify q => cases h
  | commit q next => cases h

theorem stepRecv_cases {r : Nat} (h : stepRecv s r = some t) : StageStep sectors s (.recv r) t := by
  rcases s with ⟨part, sec0, pc, staged, before⟩
  cases pc with
  | recv q =>
      simp only [stepRecv] at h
      split at h
      · next hr =>
        have hrange : 0 < r ∧ r ≤ q.body.len - q.received :=
          ⟨hr.1, Nat.le_trans hr.2 (Nat.min_le_left _ _)⟩
        split at h
        · next hdue =>
          split at h
          · next hpass =>
            cases h
            exact .chunk q r true rfl hrange (Or.inr ⟨hdue, hpass, rfl⟩)
          · cases h
            exact .rejected q r rfl
        · next hdue =>
          cases h
          exact .chunk q r q.hdrChecked rfl hrange (Or.inl ⟨hdue, rfl⟩)
      · cases h
  | idle => cases h
  | erase q k => cases h
  | write q next stop => cases h
  | verify q => cases h
  | commit q next => cases h

theorem stepStage_cases (h : stepStage sectors s = some t) : StageStep sectors s .run t := by
  rcases s with ⟨part, sec0, pc, staged, before⟩
  cases pc with
  | idle => cases h
  | erase q k =>
      simp only [stepStage] at h
      split at h
      · next hk =>
        cases h
        exact .sectorErased q k rfl hk
      · next hk =>
        cases h
        exact .allErased q k rfl (Nat.le_of_not_lt hk)
  | recv q => cases h
  | write q next stop =>
      simp only [stepStage] at h
      split at h
      · next hlt =>
        cases h
        exact .byteWritten q next stop rfl hlt
      · next hge =>
        split at h
        · next hmore =>
          cases h
          exact .chunkWritten q next stop rfl (Nat.le_of_not_lt hge) hmore
        · next hdone =>
          cases h
          exact .allWritten q next stop rfl (Nat.le_of_not_lt hge) (Nat.le_of_not_lt hdone)
  | verify q =>
      simp only [stepStage] at h
      split at h
      · next hdesc =>
        cases h
        exact .verified q rfl hdesc
      · cases h
        exact .invalid q rfl
  | commit q next =>
      simp only [stepStage] at h
      split at h
      · next hlt =>
        cases h
        exact .byteCommitted q next rfl hlt
      · next hge =>
        cases h
        exact .done q next rfl (Nat.le_of_not_lt hge)

/-- Every step does one of the things `StageStep` lists. -/
theorem stage_cases {l : StageLabel} (h : (stageSystem sectors).step s l = some t) :
    StageStep sectors s l t := by
  cases l with
  | start body hdrRead => exact stepStart_cases h
  | recv r => exact stepRecv_cases h
  | run => exact stepStage_cases h
  | fail =>
      cases h
      exact .failed
  | restart =>
      cases h
      exact .restarted

theorem Body.Fits.sectorSize_lt {b : Body} (h : b.Fits sectors) : sectorSize < b.len := by
  have hlen := h.1
  simp only [radioMinImage, appImageAddr, sizeofAppDesc, sectorSize] at hlen ⊢
  omega

/-- What a chunk puts into sector 0 ends with the chunk or with the sector. -/
theorem takeOf_spec (received r : Nat) : takeOf received r ≤ r ∧
    (takeOf received r < r → sectorSize ≤ received + takeOf received r) ∧
    (takeOf received r = 0 ∨ received + takeOf received r ≤ sectorSize) := by
  simp only [takeOf]
  split <;> omega

/-- Between `received` and the start of a chunk's write lies only sector 0. -/
theorem streamed_take {size received r : Nat} {part : Flash} {b : Body}
    (h : Streamed size part b received) : Streamed size part b (received + takeOf received r) := by
  intro a ha
  obtain ⟨-, -, hsec⟩ := takeOf_spec received r
  rw [h a ha]
  by_cases hin : sectorSize ≤ a ∧ a < received
  · rw [if_pos hin, if_pos (by omega)]
  · rw [if_neg hin, if_neg (by omega)]

theorem held_fill {sec0 : Flash} {q : Request} {r : Nat} (h : Held sec0 q.body q.received) :
    Held (fillSec0 sec0 q r) q.body (q.received + r) := by
  intro a ha hsec
  obtain ⟨-, hlate, -⟩ := takeOf_spec q.received r
  simp only [fillSec0]
  split
  · rfl
  · exact h a (by omega) hsec

/-- One more byte of the body is streamed. -/
theorem streamed_program {size next : Nat} {part : Flash} {b : Body} (hsec : sectorSize ≤ next)
    (h : Streamed size part b next) :
    Streamed size (program part next (b.byte next)) b (next + 1) := by
  intro a ha
  rcases eq_or_ne a next with rfl | han
  · have herased : part a = erased := (h a ha).trans (if_neg (by omega))
    rw [program_erased _ herased, if_pos (by omega)]
  · rw [program_other _ han, h a ha]
    by_cases hin : sectorSize ≤ a ∧ a < next
    · rw [if_pos hin, if_pos (by omega)]
    · rw [if_neg hin, if_neg (by omega)]

/-- One more byte of sector 0 is committed. -/
theorem committed_program {size next : Nat} {part sec0 : Flash} {b : Body}
    (hlt : next < sectorSize) (hlen : sectorSize < b.len) (hheld : sec0 next = b.byte next)
    (h : Committed size part b next) :
    Committed size (program part next (sec0 next)) b (next + 1) := by
  intro a ha
  rcases eq_or_ne a next with rfl | han
  · have herased : part a = erased := (h a ha).trans (if_neg (by omega))
    rw [program_erased _ herased, if_pos (by omega), hheld]
  · rw [program_other _ han, h a ha]
    by_cases hin : a < b.len ∧ (a < next ∨ sectorSize ≤ a)
    · rw [if_pos hin, if_pos (by omega)]
    · rw [if_neg hin, if_neg (by omega)]

/-- A partition that has the body from sector 1 on has its descriptor. -/
theorem descValid_iff {part : Flash} {b : Body} (hfits : b.Fits sectors)
    (h : ∀ a, sectorSize ≤ a → a < b.len → part a = b.byte a) :
    DescValid part ↔ DescValid b.byte := by
  have hword : word part appDescAddr = word b.byte appDescAddr := by
    refine word_congr fun k hk => h _ ?_ ?_
    · simp only [sectorSize, appDescAddr, appImageAddr]
      omega
    · have hlen := hfits.1
      simp only [radioMinImage, appDescAddr, appImageAddr, sizeofAppDesc] at hlen ⊢
      omega
  rw [DescValid, DescValid, hword]

theorem streamed_desc {part : Flash} {b : Body} (hfits : b.Fits sectors)
    (h : Streamed (sectorSize * sectors) part b b.len) : DescValid part ↔ DescValid b.byte :=
  descValid_iff hfits fun a hsec hlen =>
    (h a (Nat.lt_of_lt_of_le hlen hfits.2)).trans (if_pos ⟨hsec, hlen⟩)

theorem committed_desc {part : Flash} {b : Body} {n : Nat} (hfits : b.Fits sectors)
    (h : Committed (sectorSize * sectors) part b n) : DescValid part ↔ DescValid b.byte :=
  descValid_iff hfits fun a hsec hlen =>
    (h a (Nat.lt_of_lt_of_le hlen hfits.2)).trans (if_pos ⟨hlen, Or.inr hsec⟩)

theorem chipId_held {sec0 : Flash} {b : Body} {n : Nat} (h : Held sec0 b n) (hn : 14 ≤ n) :
    chipId sec0 = chipId b.byte :=
  chipId_congr (h 12 (by omega) (by decide)) (h 13 (by omega) (by decide))

/-- A chunk that fits keeps the invariant: its write begins behind what is streamed, and
the header has been checked when sector 0 is full. -/
theorem stageInv_chunk {q : Request} {r : Nat} {checked : Bool} (hpc : s.pc = .recv q)
    (hr : 0 < r ∧ r ≤ q.body.len - q.received)
    (hcheck : (¬ HdrDue q r ∧ checked = q.hdrChecked) ∨
      (HdrDue q r ∧ HdrPasses (fillSec0 s.sec0 q r) q.oldChip ∧ checked = true))
    (h : StageInv sectors s) : StageInv sectors { s with
      sec0 := fillSec0 s.sec0 q r
      pc := .write { q with hdrChecked := checked } (q.received + takeOf q.received r)
        (q.received + r) } := by
  rw [StageInv, hpc] at h
  obtain ⟨hfits, hchecked, hmore, hhdr, hstream, hheld⟩ := h
  obtain ⟨hle, hlate, -⟩ := takeOf_spec q.received r
  have hfill := held_fill (r := r) hheld
  have hend : q.received + r ≤ q.body.len := by omega
  refine ⟨hfits, ?_, by omega, hend, by omega, ?_, streamed_take hstream, hfill⟩
  · rcases hcheck with ⟨-, rfl⟩ | ⟨hdue, hpass, -⟩
    · exact hchecked
    · -- the whole header is in `sec0`, so what passed is the body's header
      intro _
      have hfull : 14 ≤ q.received + r :=
        Nat.le_trans (by decide) (Nat.le_trans hdue.2.1 (Nat.add_le_add_left hle _))
      rw [← chipId_held hfill hfull, ← hfill 0 (by omega) (by decide)]
      exact hpass
  · intro hfull
    rcases hcheck with ⟨hdue, rfl⟩ | ⟨-, -, rfl⟩
    · rcases Nat.lt_or_ge q.received sectorSize with hold | hold
      · -- the sector is full only now, and the check was not due
        cases hflag : q.hdrChecked with
        | true => rfl
        | false => exact absurd ⟨hold, by omega, hflag⟩ hdue
      · exact hhdr hold
    · rfl

/-- Every step keeps the invariant. -/
theorem stageInv_step {l : StageLabel} (h : StageInv sectors s)
    (hs : (stageSystem sectors).step s l = some t) : StageInv sectors t := by
  cases stage_cases hs with
  | refused body hdrRead hpc => exact h
  | started body hdrRead hpc hfits =>
      exact ⟨hfits, rfl, rfl, Nat.zero_le _, fun a ha => absurd ha (Nat.not_lt_zero a)⟩
  | chunk q r checked hpc hr hcheck => exact stageInv_chunk hpc hr hcheck h
  | rejected q r hpc => trivial
  | sectorErased q k hpc hk =>
      rw [StageInv, hpc] at h
      obtain ⟨hfits, hreceived, hflag, -, herased⟩ := h
      exact ⟨hfits, hreceived, hflag, hk, eraseSector_prefix herased⟩
  | allErased q k hpc hk =>
      rw [StageInv, hpc] at h
      obtain ⟨hfits, hreceived, hflag, hle, herased⟩ := h
      have hlong := hfits.sectorSize_lt
      obtain rfl : k = sectors := Nat.le_antisymm hle hk
      refine ⟨hfits, fun hf => ?_, by omega, fun hfull => ?_, fun a ha => ?_, fun a ha => ?_⟩
      · rw [hflag] at hf
        cases hf
      · rw [hreceived] at hfull
        exact absurd hfull (by decide)
      · rw [if_neg (by omega)]
        exact herased a ha
      · omega
  | byteWritten q next stop hpc hlt =>
      rw [StageInv, hpc] at h
      obtain ⟨hfits, hchecked, -, hstop, hsec, hhdr, hstream, hheld⟩ := h
      exact ⟨hfits, hchecked, hlt, hstop, fun _ => Nat.le_succ_of_le (hsec hlt), hhdr,
        streamed_program (hsec hlt) hstream, hheld⟩
  | chunkWritten q next stop hpc hge hmore =>
      rw [StageInv, hpc] at h
      obtain ⟨hfits, hchecked, hle, -, -, hhdr, hstream, hheld⟩ := h
      obtain rfl : next = stop := Nat.le_antisymm hle hge
      exact ⟨hfits, hchecked, hmore, hhdr, hstream, hheld⟩
  | allWritten q next stop hpc hge hdone =>
      rw [StageInv, hpc] at h
      obtain ⟨hfits, hchecked, hle, hstop, -, hhdr, hstream, hheld⟩ := h
      obtain rfl : next = q.body.len := by omega
      obtain rfl : stop = q.body.len := by omega
      exact ⟨hfits, hchecked, hhdr (Nat.le_of_lt hfits.sectorSize_lt), hstream, hheld⟩
  | verified q hpc hdesc =>
      rw [StageInv, hpc] at h
      obtain ⟨hfits, hchecked, hflag, hstream, hheld⟩ := h
      refine ⟨hfits, hchecked, hflag, (streamed_desc hfits hstream).1 hdesc, rfl, Nat.zero_le _,
        fun a ha => ?_, hheld⟩
      rw [hstream a ha]
      by_cases hin : sectorSize ≤ a ∧ a < q.body.len
      · rw [if_pos hin, if_pos (by omega)]
      · rw [if_neg hin, if_neg (by omega)]
  | invalid q hpc => trivial
  | byteCommitted q next hpc hlt =>
      rw [StageInv, hpc] at h
      obtain ⟨hfits, hchecked, hflag, hdesc, hstaged, -, hcommitted, hheld⟩ := h
      have hlong := hfits.sectorSize_lt
      exact ⟨hfits, hchecked, hflag, hdesc, hstaged, hlt,
        committed_program hlt hlong (hheld next (by omega) hlt) hcommitted, hheld⟩
  | done q next hpc hge => trivial
  | failed => trivial
  | restarted => trivial

theorem stageInv_reaches {ok : Stage → StageLabel → Prop}
    (h : (stageSystem sectors).Reaches ok s t) (hs : StageInv sectors s) : StageInv sectors t :=
  Machine.Reaches.invariant h hs fun _ _ _ hs _ ht => stageInv_step hs ht

/-! ## The first byte of the partition -/

/-- The handler has not touched the partition: no request, or nothing erased yet. -/
def StagePc.Untouched : StagePc → Prop
  | .idle => True
  | .erase _ k => k = 0
  | _ => False

/-- The handler is between the erase of sector 0 and the first byte of its commit. -/
def StagePc.Unmarked : StagePc → Prop
  | .idle => False
  | .erase _ k => 0 < k
  | .commit _ next => next = 0
  | _ => True

/-- The rest of a request is its commit from the second byte on. -/
theorem StagePc.phases (pc : StagePc) :
    pc.Untouched ∨ pc.Unmarked ∨ ∃ q next, pc = .commit q next ∧ 0 < next := by
  cases pc with
  | idle => exact Or.inl trivial
  | erase q k => exact (Nat.eq_zero_or_pos k).imp_right Or.inl
  | recv q => exact Or.inr (Or.inl trivial)
  | write q next stop => exact Or.inr (Or.inl trivial)
  | verify q => exact Or.inr (Or.inl trivial)
  | commit q next =>
      exact Or.inr ((Nat.eq_zero_or_pos next).imp_right fun hpos => ⟨q, next, rfl, hpos⟩)

theorem Body.Fits.size_pos {b : Body} (h : b.Fits sectors) : 0 < sectorSize * sectors :=
  Nat.lt_of_lt_of_le (Nat.lt_of_le_of_lt (Nat.zero_le _) h.sectorSize_lt) h.2

/-- Until the commit begins the marker is erased. -/
theorem part_zero_erased (h : StageInv sectors s) (hpc : s.pc.Unmarked) : s.part 0 = erased := by
  rcases s with ⟨part, sec0, pc, staged, before⟩
  cases pc with
  | idle => exact hpc.elim
  | erase q k =>
      rcases h with ⟨-, -, -, -, herased⟩
      exact herased 0 (Nat.mul_pos (by decide) hpc)
  | recv q =>
      rcases h with ⟨hfits, -, -, -, hstream, -⟩
      exact (hstream 0 hfits.size_pos).trans (if_neg fun hin => absurd hin.1 (by decide))
  | write q next stop =>
      rcases h with ⟨hfits, -, -, -, -, -, hstream, -⟩
      exact (hstream 0 hfits.size_pos).trans (if_neg fun hin => absurd hin.1 (by decide))
  | verify q =>
      rcases h with ⟨hfits, -, -, hstream, -⟩
      exact (hstream 0 hfits.size_pos).trans (if_neg fun hin => absurd hin.1 (by decide))
  | commit q next =>
      cases hpc
      rcases h with ⟨hfits, -, -, -, -, -, hcommitted, -⟩
      refine (hcommitted 0 hfits.size_pos).trans (if_neg ?_)
      rintro ⟨-, hlt | hsec⟩
      · exact Nat.lt_irrefl 0 hlt
      · exact absurd hsec (by decide)

/-- A step that ends the request or only begins one leaves the partition as it is. -/
theorem untouched_step {l : StageLabel} (hs : (stageSystem sectors).step s l = some t)
    (ht : t.pc.Untouched) : t.part = s.part ∧ t.staged = s.staged ∧
      ∀ q next, s.pc = .commit q next → (l = .fail ∨ l = .restart) ∨ sectorSize ≤ next := by
  have hother {pc : StagePc} (hpc : s.pc = pc) (hne : ∀ q next, pc ≠ .commit q next) :
      ∀ q next, s.pc = .commit q next → (l = .fail ∨ l = .restart) ∨ sectorSize ≤ next :=
    fun q next hcommit => absurd (hpc.symm.trans hcommit) (hne q next)
  cases stage_cases hs with
  | refused body hdrRead hpc => exact ⟨rfl, rfl, hother hpc nofun⟩
  | started body hdrRead hpc hfits => exact ⟨rfl, rfl, hother hpc nofun⟩
  | chunk q r checked hpc hr hcheck => exact ht.elim
  | rejected q r hpc => exact ⟨rfl, rfl, hother hpc nofun⟩
  | sectorErased q k hpc hk => exact absurd ht (Nat.succ_ne_zero k)
  | allErased q k hpc hk => exact ht.elim
  | byteWritten q next stop hpc hlt => exact ht.elim
  | chunkWritten q next stop hpc hge hmore => exact ht.elim
  | allWritten q next stop hpc hge hdone => exact ht.elim
  | verified q hpc hdesc => exact ht.elim
  | invalid q hpc => exact ⟨rfl, rfl, hother hpc nofun⟩
  | byteCommitted q next hpc hlt => exact ht.elim
  | done q next hpc hge =>
      refine ⟨rfl, rfl, fun q' next' hcommit => Or.inr ?_⟩
      cases hpc.symm.trans hcommit
      exact hge
  | failed => exact ⟨rfl, rfl, fun _ _ _ => Or.inl (Or.inl rfl)⟩
  | restarted => exact ⟨rfl, rfl, fun _ _ _ => Or.inl (Or.inr rfl)⟩

/-! ## A good image reaches its commit -/

/-- A request with a body that fits begins to erase. -/
theorem start_fits {body : Body} (hdrRead : Bool) (hpc : s.pc = .idle)
    (hfits : body.Fits sectors) : (stageSystem sectors).step s (.start body hdrRead) =
      some { s with pc := .erase ⟨body, oldChipOf s.part hdrRead, false, 0⟩ 0 } := by
  have hlen := hfits
  simp only [Body.Fits] at hlen
  simp only [stageSystem, stepStart, hpc]
  rw [if_neg (by omega)]

section Upload

variable {ok : Stage → StageLabel → Prop} (hrun : ∀ s, ok s .run) (hrecv : ∀ s r, ok s (.recv r))
  {q : Request}

include hrun

/-- The erase comes to its end. -/
theorem reaches_recv {k : Nat} (hpc : s.pc = .erase q k) (hk : k ≤ sectors) :
    ∃ part, (stageSystem sectors).Reaches ok s { s with part := part, pc := .recv q } := by
  obtain ⟨left, hleft⟩ := Nat.exists_eq_add_of_le hk
  induction left generalizing k s with
  | zero =>
      refine ⟨s.part, Relation.ReflTransGen.single ⟨.run, hrun s, ?_⟩⟩
      simp only [stageSystem, stepStage, hpc]
      rw [if_neg (by omega)]
  | succ left ih =>
      let next : Stage := { s with part := eraseSector sectorSize k s.part, pc := .erase q (k + 1) }
      have hstep : (stageSystem sectors).step s .run = some next := by
        simp only [stageSystem, stepStage, hpc]
        rw [if_pos (by omega)]
      obtain ⟨part, h⟩ := @ih next (k + 1) rfl (by omega) (by omega)
      exact ⟨part, h.head ⟨.run, hrun s, hstep⟩⟩

/-- The write of a chunk comes to its end. -/
theorem reaches_written {next stop : Nat} (hpc : s.pc = .write q next stop) (hle : next ≤ stop) :
    ∃ part, (stageSystem sectors).Reaches ok s
      { s with part := part, pc := .write q stop stop } := by
  obtain ⟨left, hleft⟩ := Nat.exists_eq_add_of_le hle
  induction left generalizing next s with
  | zero =>
      cases hleft
      exact ⟨s.part, hpc ▸ .refl⟩
  | succ left ih =>
      let next' : Stage :=
        { s with part := program s.part next (q.body.byte next), pc := .write q (next + 1) stop }
      have hstep : (stageSystem sectors).step s .run = some next' := by
        simp only [stageSystem, stepStage, hpc]
        rw [if_pos (by omega)]
      obtain ⟨part, h⟩ := @ih next' (next + 1) rfl (by omega) (by omega)
      exact ⟨part, h.head ⟨.run, hrun s, hstep⟩⟩

/-- The commit comes to its `n`-th byte. -/
theorem reaches_commit_byte {next n : Nat} (hpc : s.pc = .commit q next) (hle : next ≤ n)
    (hn : n ≤ sectorSize) :
    ∃ part, (stageSystem sectors).Reaches ok s { s with part := part, pc := .commit q n } := by
  obtain ⟨left, hleft⟩ := Nat.exists_eq_add_of_le hle
  induction left generalizing next s with
  | zero =>
      cases hleft
      exact ⟨s.part, hpc ▸ .refl⟩
  | succ left ih =>
      let next' : Stage :=
        { s with part := program s.part next (s.sec0 next), pc := .commit q (next + 1) }
      have hstep : (stageSystem sectors).step s .run = some next' := by
        simp only [stageSystem, stepStage, hpc]
        rw [if_pos (by omega)]
      obtain ⟨part, h⟩ := @ih next' (next + 1) rfl (by omega) (by omega)
      exact ⟨part, h.head ⟨.run, hrun s, hstep⟩⟩

include hrecv

/-- One pass of the receive loop, with a good header: the chunk is written and the
handler is back at the loop's test. -/
theorem reaches_chunk {r : Nat} (hpc : s.pc = .recv q) (hmagic : q.body.byte 0 = imageMagic)
    (hchip : ∀ c ∈ q.oldChip, chipId q.body.byte = c)
    (hr : 0 < r ∧ r ≤ min (q.body.len - q.received) recvBufSize)
    (hheld : Held s.sec0 q.body q.received) : ∃ part q',
    (stageSystem sectors).Reaches ok s { s with
      part := part, sec0 := fillSec0 s.sec0 q r,
      pc := .write q' (q.received + r) (q.received + r) } ∧
    q'.body = q.body ∧ q'.oldChip = q.oldChip := by
  obtain ⟨hle, -, -⟩ := takeOf_spec q.received r
  -- the check sets `hdrChecked` if it is due, and passes
  obtain ⟨q', hstep, hbody, hold⟩ : ∃ q' : Request, (stageSystem sectors).step s (.recv r) =
      some { s with
        sec0 := fillSec0 s.sec0 q r,
        pc := .write q' (q.received + takeOf q.received r) (q.received + r) } ∧
      q'.body = q.body ∧ q'.oldChip = q.oldChip := by
    by_cases hdue : HdrDue q r
    · have hfull : sectorSize ≤ q.received + r := by
        have hsec := hdue.2.1
        omega
      have hfill := held_fill (r := r) hheld
      have hpass : HdrPasses (fillSec0 s.sec0 q r) q.oldChip := by
        constructor
        · rw [hfill 0 (by omega) (by decide), hmagic]
        · rw [chipId_held hfill (Nat.le_trans (by decide) hfull)]
          exact hchip
      refine ⟨{ q with hdrChecked := true }, ?_, rfl, rfl⟩
      simp only [stageSystem, stepRecv, hpc]
      rw [if_pos hr, if_pos hdue, if_pos hpass]
    · refine ⟨q, ?_, rfl, rfl⟩
      simp only [stageSystem, stepRecv, hpc]
      rw [if_pos hr, if_neg hdue]
  let mid : Stage := { s with
    sec0 := fillSec0 s.sec0 q r,
    pc := .write q' (q.received + takeOf q.received r) (q.received + r) }
  have hmid : mid.pc = .write q' (q.received + takeOf q.received r) (q.received + r) := rfl
  obtain ⟨part, h⟩ := reaches_written hrun hmid (Nat.add_le_add_left hle q.received)
  exact ⟨part, q', h.head ⟨.recv r, hrecv s r, hstep⟩, hbody, hold⟩

/-- The receive loop comes to its end if the header is good, one full chunk at a
time. -/
theorem reaches_verify (hpc : s.pc = .recv q) (hmagic : q.body.byte 0 = imageMagic)
    (hchip : ∀ c ∈ q.oldChip, chipId q.body.byte = c) (hinv : StageInv sectors s) :
    ∃ part sec0 q', (stageSystem sectors).Reaches ok s
      { s with part := part, sec0 := sec0, pc := .verify q' } ∧ q'.body = q.body := by
  induction hn : q.body.len - q.received using Nat.strongRecOn generalizing q s with
  | ind n ih =>
    have hrecvInv := hinv
    simp only [StageInv, hpc] at hrecvInv
    obtain ⟨-, -, hmore, -, -, hheld⟩ := hrecvInv
    let r := min (q.body.len - q.received) recvBufSize
    have hr : 0 < r := Nat.lt_min.2 ⟨by omega, by decide⟩
    obtain ⟨part, q', hreach, hbody, hold⟩ :=
      reaches_chunk hrun hrecv hpc hmagic hchip ⟨hr, Nat.le_refl r⟩ hheld
    by_cases hend : q.received + r < q.body.len
    · let next : Stage := { s with
        part := part, sec0 := fillSec0 s.sec0 q r
        pc := .recv { q' with received := q.received + r } }
      have hnext : (stageSystem sectors).Reaches ok s next := by
        refine hreach.tail ⟨.run, hrun _, ?_⟩
        simp only [stageSystem, stepStage]
        rw [if_neg (Nat.lt_irrefl _), if_pos (by rw [hbody]; exact hend)]
      have hleft : q'.body.len - (q.received + r) < n := by
        rw [hbody]
        omega
      obtain ⟨part', sec0', q'', h, hbody''⟩ := @ih _ hleft next
        { q' with received := q.received + r } rfl (by rw [← hmagic, ← hbody])
        (by rw [hold, hbody]; exact hchip) (stageInv_reaches hnext hinv) rfl
      exact ⟨part', sec0', q'', hnext.trans h, hbody''.trans hbody⟩
    · refine ⟨part, fillSec0 s.sec0 q r, { q' with received := q.received + r },
        hreach.tail ⟨.run, hrun _, ?_⟩, hbody⟩
      simp only [stageSystem, stepStage]
      rw [if_neg (Nat.lt_irrefl _), if_neg (by rw [hbody]; exact hend)]

/-- A request with image magic, the fence's chip id and a good descriptor comes to its
commit. -/
theorem reaches_commit {k : Nat} (hpc : s.pc = .erase q k) (hinv : StageInv sectors s)
    (hmagic : q.body.byte 0 = imageMagic) (hchip : ∀ c ∈ q.oldChip, chipId q.body.byte = c)
    (hdesc : DescValid q.body.byte) : ∃ part sec0 q',
    (stageSystem sectors).Reaches ok s ⟨part, sec0, .commit q' 0, q.body, s.staged⟩ ∧
      q'.body = q.body := by
  have herase := hinv
  simp only [StageInv, hpc] at herase
  obtain ⟨hfits, -, -, hk, -⟩ := herase
  obtain ⟨part₁, hrecvs⟩ := reaches_recv hrun hpc hk
  obtain ⟨part₂, sec0₂, q', hverify, hbody⟩ := reaches_verify hrun hrecv rfl hmagic hchip
    (stageInv_reaches hrecvs hinv)
  obtain ⟨-, -, -, hstream, -⟩ := stageInv_reaches (hrecvs.trans hverify) hinv
  have hvalid : DescValid part₂ := (streamed_desc (by rw [hbody]; exact hfits) hstream).2
    (by rw [hbody]; exact hdesc)
  refine ⟨part₂, sec0₂, q', (hrecvs.trans hverify).tail ⟨.run, hrun _, ?_⟩, hbody⟩
  simp only [stageSystem, stepStage]
  rw [if_pos hvalid, hbody]

end Upload

/-- A request with the sample image. -/
def sampleUpload (chip : UInt8) : Body := ⟨sampleSize, sampleImage chip⟩

theorem sampleUpload_fits (chip : UInt8) : (sampleUpload chip).Fits 33 := by
  simp [Body.Fits, sampleUpload, sampleSize, radioMinImage, appImageAddr, sizeofAppDesc, sectorSize]

end Cdc2Net.Radio
