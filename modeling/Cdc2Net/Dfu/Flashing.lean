import Cdc2Net.Dfu.CulDfu

/-!
# What a flash run leaves behind

`cul_dfu_flash_programs` is about every image that fits and every schedule of transfers: on
`ESP_OK` the flash holds the image, programmed in contiguous blocks on erased flash; on an
error it holds as much of the image as was reported; in both cases the lock is released.
`cul_dfu_flash_succeeds` says that a bootloader that answers is flashed.
-/

set_option autoImplicit false

namespace Cdc2Net.Dfu

open Cdc2Net.Lib.NorFlash Cdc2Net.Lib.StateTriple

/-! ## The messages -/

theorem address_bytes {a : Nat} (h : a < 0x10000) :
    address (UInt8.ofNat (a % 0x10000 / 256)) (UInt8.ofNat (a % 0x10000)) = a := by
  simp only [address, UInt8.toNat_ofNat']
  omega

theorem blockMsg_length (start : Nat) (data : List UInt8) :
    (blockMsg start data).length = controlBlockSize + data.length + footerSize := by
  simp [blockMsg, addressBytes, controlBlockSize, footerSize]
  omega

/-- The bootloader reads the message of a block as the block. -/
theorem decode_blockMsg {start : Nat} {data : List UInt8} (hpos : 1 ≤ data.length)
    (hfit : start + data.length ≤ 0x10000) :
    decode (blockMsg start data) = .program start data := by
  have hlo : address ((blockMsg start data).getD 2 0) ((blockMsg start data).getD 3 0) = start :=
    address_bytes (by omega)
  have hhi : address ((blockMsg start data).getD 4 0) ((blockMsg start data).getD 5 0) + 1 -
      start = data.length := by
    have hend : address ((blockMsg start data).getD 4 0) ((blockMsg start data).getD 5 0) =
        start + data.length - 1 := address_bytes (by omega)
    omega
  have hdata : ((blockMsg start data).drop controlBlockSize).take data.length = data := by
    simp [blockMsg, addressBytes, controlBlockSize]
  have hne : ∀ c, blockMsg start data ≠ [0x04, 0x00, c] := by
    intro c h
    simp [blockMsg] at h
  have htake : (blockMsg start data).take 2 = [0x01, 0x00] := rfl
  rw [decode, if_neg (hne _), if_neg (hne _), if_neg (hne _), if_pos htake]
  simp only [hlo, hhi, hdata, blockMsg_length, if_true]

theorem decode_erase {i : Nat} (h : i < 2) :
    decode [0x04, 0x00, eraseModes.getD i 0] = .erase (i * 0x4000) 0x4000 := by
  obtain rfl | rfl : i = 0 ∨ i = 1 := by omega
  · rfl
  · rfl

/-! ## How far a run has come -/

/-- `P` of the flash and what was recorded since `base`. -/
def Since (base : List Event) (P : Flash → List Event → Prop) (fl : Flash)
    (log : List Event) : Prop :=
  ∃ es, log = base ++ es ∧ P fl es

/-- The image is programmed up to `off`, and the flash is erased from there up to `hi`. -/
structure Progress (img : List UInt8) (hi off : Nat) (fl : Flash) (es : List Event) : Prop where
  orderly : Orderly es
  blocks : Contiguous 0 (programs es) off
  erasedAt : ∀ a < hi, ErasedAt es a
  written : ∀ a < off, fl a = img.getD a 0
  clear : ∀ a, off ≤ a → a < hi → fl a = erased

/-- The image is programmed up to `off`, and perhaps a part of the block that follows. -/
structure Stopped (img : List UInt8) (off : Nat) (fl : Flash) (es : List Event) : Prop where
  orderly : Orderly es
  inside : ∀ q ∈ programs es, q.1 + q.2 ≤ min img.length (off + maxTransfer)
  written : ∀ a < off, fl a = img.getD a 0

section Progress

variable {img : List UInt8} {hi hi' off n : Nat} {fl : Flash} {es base : List Event} {e : Event}
variable {P Q G : Flash → List Event → Prop} {msg : List UInt8}

theorem ErasedAt.concat {a : Nat} (h : ErasedAt es a) : ErasedAt (es ++ [e]) a := by
  obtain ⟨s, n, hmem, hlo, hhi⟩ := h
  exact ⟨s, n, List.mem_append_left _ hmem, hlo, hhi⟩

theorem Steady.since (h : Steady P) : Steady (Since base P) := by
  rintro fl log n hn ⟨es, rfl, hP⟩
  exact ⟨es ++ [Event.request n], List.append_assoc _ _ _, h _ _ _ hn hP⟩

theorem Effect.since (h : Effect P Q G msg) (base : List Event) :
    Effect (Since base P) (Since base Q) (Since base G) msg where
  fits := h.fits
  refused := by
    rintro fl log ⟨es, rfl, hP⟩
    exact ⟨_, List.append_assoc _ _ _, h.refused _ _ hP⟩
  part := by
    rintro b log part ⟨es, rfl, hP⟩
    exact ⟨_, by simp only [List.append_assoc], h.part _ _ part hP⟩
  full := by
    rintro b log ⟨es, rfl, hP⟩
    exact ⟨_, by simp only [List.append_assoc], h.full _ _ hP⟩

theorem Progress.steady : Steady (Progress img hi off) := fun _ _ _ hn h =>
  ⟨h.orderly.request hn, by simpa using h.blocks, fun a ha => (h.erasedAt a ha).concat, h.written,
    h.clear⟩

theorem Stopped.steady : Steady (Stopped img off) := fun _ _ _ hn h =>
  ⟨h.orderly.request hn, by simpa using h.inside, h.written⟩

theorem Progress.mono (h : Progress img hi off fl es) (hle : hi' ≤ hi) :
    Progress img hi' off fl es :=
  ⟨h.orderly, h.blocks, fun a ha => h.erasedAt a (by omega), h.written,
    fun a hlo hhi => h.clear a hlo (by omega)⟩

theorem Progress.stopped (h : Progress img hi off fl es) (hoff : off ≤ img.length) :
    Stopped img off fl es where
  orderly := h.orderly
  inside := fun q hq => by
    have hend := h.blocks.end_le q hq
    omega
  written := h.written

/-- Erasing keeps the order, and nothing has been programmed. -/
theorem Progress.erase_part (h : Progress img hi 0 fl es) (s n : Nat) (g : Flash) :
    Progress img 0 0 g (es ++ [Event.erased s n]) where
  orderly := h.orderly.erased
  blocks := by simpa using h.blocks
  erasedAt := fun a ha => absurd ha (Nat.not_lt_zero a)
  written := fun a ha => absurd ha (Nat.not_lt_zero a)
  clear := fun a _ ha => absurd ha (Nat.not_lt_zero a)

/-- Erasing what follows. -/
theorem Progress.erase_full (h : Progress img hi 0 fl es) {s : Nat} (hs : s ≤ hi) :
    Progress img (s + n) 0 (eraseSectors 1 s (s + n) fl) (es ++ [Event.erased s n]) where
  orderly := h.orderly.erased
  blocks := by simpa using h.blocks
  erasedAt := fun a ha => by
    by_cases hold : a < s
    · exact (h.erasedAt a (by omega)).concat
    · exact ⟨s, n, by simp, by omega, ha⟩
  written := fun a ha => absurd ha (Nat.not_lt_zero a)
  clear := fun a _ ha => by
    rw [eraseSectors]
    split
    · rfl
    · next hout => exact h.clear a (Nat.zero_le a) (by omega)

/-- What follows the blocks programmed so far is blank. -/
theorem Progress.blank (h : Progress img hi off fl es) {a : Nat} (hlo : off ≤ a) (hhi : a < hi) :
    BlankAt es a := by
  refine ⟨h.erasedAt a hhi, fun q hq hin => ?_⟩
  have hend := h.blocks.end_le q hq
  omega

/-- A block that is programmed on erased flash. -/
theorem Progress.program_eq (h : Progress img hi off fl es) {data : List UInt8}
    (hfit : off + data.length ≤ hi) (a : Nat) :
    programBytes off data fl a =
      if off ≤ a ∧ a < off + data.length then data.getD (a - off) 0 else fl a :=
  programRange_erased (fun b hlo hb => h.clear b hlo (by omega)) a

/-- A part of the next block. -/
theorem Progress.program_part (h : Progress img img.length off fl es) {data : List UInt8}
    (hoff : off ≤ img.length) (hn : n ≤ maxTransfer) (hfit : off + n ≤ img.length)
    (hdata : data.length ≤ n) (k : Nat) (hk : k ≤ n) :
    Stopped img off (programBytes off data fl) (es ++ [Event.programmed off k]) where
  orderly := h.orderly.programmed fun a hlo hhi => h.blank hlo (by omega)
  inside := by
    intro q hq
    rw [programs_programmed, List.mem_append, List.mem_singleton] at hq
    rcases hq with hq | rfl
    · have hend := h.blocks.end_le q hq
      omega
    · exact le_min (by omega) (by omega)
  written := fun a ha => by
    rw [h.program_eq (by omega), if_neg (by omega)]
    exact h.written a ha

/-- The whole of it. -/
theorem Progress.program_full (h : Progress img img.length off fl es)
    (hfit : off + n ≤ img.length) :
    Progress img img.length (off + n) (programBytes off ((img.drop off).take n) fl)
      (es ++ [Event.programmed off n]) := by
  have hlen : ((img.drop off).take n).length = n := by
    rw [List.length_take, List.length_drop]
    omega
  refine ⟨h.orderly.programmed fun a hlo hhi => h.blank hlo (by omega), ?_,
    fun a ha => (h.erasedAt a ha).concat, fun a ha => ?_, fun a hlo hhi => ?_⟩
  · rw [programs_programmed]
    exact h.blocks.concat
  · rw [h.program_eq (by omega)]
    by_cases hnew : off ≤ a
    · rw [if_pos (by omega), List.getD_eq_getElem?_getD, List.getD_eq_getElem?_getD,
        List.getElem?_take_of_lt (by omega), List.getElem?_drop, Nat.add_sub_cancel' hnew]
    · rw [if_neg (by omega)]
      exact h.written a (by omega)
  · rw [h.program_eq (by omega), if_neg (by omega)]
    exact h.clear a (by omega) hhi

theorem effect_erase {s : Nat} (hfits : msg.length ≤ ctrlBufBytes) (hd : decode msg = .erase s n)
    (hs : s ≤ hi) :
    Effect (Progress img hi 0) (Progress img 0 0) (Progress img (s + n) 0) msg where
  fits := hfits
  refused := fun fl es h => Progress.steady _ _ _ hfits (h.mono (Nat.zero_le hi))
  part := fun b es part h => by
    rw [hd]
    exact (Progress.steady _ _ _ hfits h).erase_part s (extent part n) _
  full := fun b es h => by
    rw [hd]
    exact (Progress.steady _ _ _ hfits h).erase_full hs

theorem effect_block (hn : 1 ≤ n) (hmax : n ≤ maxTransfer) (hfit : off + n ≤ img.length)
    (himg : img.length ≤ culDfuAppLimit) :
    Effect (Progress img img.length off) (Stopped img off) (Progress img img.length (off + n))
      (blockMsg off ((img.drop off).take n)) := by
  have hlen : ((img.drop off).take n).length = n := by
    rw [List.length_take, List.length_drop]
    omega
  have hfits : (blockMsg off ((img.drop off).take n)).length ≤ ctrlBufBytes := by
    rw [blockMsg_length, hlen, ctrlBufBytes]
    omega
  have hd : decode (blockMsg off ((img.drop off).take n)) =
      .program off ((img.drop off).take n) := by
    refine decode_blockMsg (by omega) ?_
    rw [hlen]
    exact Nat.le_trans hfit (Nat.le_trans himg (by decide))
  refine ⟨hfits, fun fl es h => ?_, fun b es part h => ?_, fun b es h => ?_⟩
  · exact Stopped.steady _ _ _ hfits (h.stopped (by omega))
  · have hk : extent part n ≤ n := by
      cases part with
      | none => exact Nat.le_refl n
      | some k => exact Nat.min_le_left n k
    rw [hd]
    simp only [Boot.carryOut, Command.events, hlen]
    refine (Progress.steady _ _ _ hfits h).program_part (by omega) hmax hfit ?_ _ hk
    rw [List.length_take, hlen]
    exact Nat.min_le_right _ _
  · rw [hd]
    simp only [Boot.carryOut, Command.events, hlen, extent, Option.elim_none]
    rw [List.take_of_length_le (Nat.le_of_eq hlen)]
    exact (Progress.steady _ _ _ hfits h).program_full hfit

end Progress

/-! ## The run -/

section Run

variable {sched : Nat → Outcome} {img : List UInt8} {base : List Event}
variable {f : Bool × Bool × Nat}

/-- The blocks that the image reaches into are erased, or the whole flash. -/
theorem atmelEraseBlocks_spec (himg : img.length ≤ culDfuAppLimit) :
    Triple (On (Since base (Progress img 0 0)) f) (atmelEraseBlocks sched img.length) fun r w =>
      On (Since base (Progress img 0 0)) f w ∧
        (r.1 = .ok → Since base (Progress img img.length 0) w.boot.flash w.log) := by
  have hlim : img.length ≤ 0x7000 := himg
  refine Triple.loop
    (I := fun i => On (Since base (Progress img (i * 0x4000) 0)) f) (fun i hi => ?_) ?_
    (Nat.zero_add _)
  · have hi2 : i < 2 := by omega
    have hblock : Effect (Progress img (i * 0x4000) 0) (Progress img 0 0)
        (Progress img (i * 0x4000 + 0x4000) 0) [0x04, 0x00, eraseModes.getD i 0] :=
      effect_erase (by simp; decide) (decode_erase hi2) (Nat.le_refl _)
    refine Triple.bind
      (sendMessage_spec Progress.steady.since Progress.steady.since (hblock.since base) _)
      fun e => Triple.ite (fun hok => ?_) fun hne => ?_
    · refine Triple.pure fun w hw => ⟨?_, hw.1.2⟩
      rw [Nat.add_one_mul]
      exact hw.2 hok
    · have hall : Effect (Progress img 0 0) (Progress img 0 0) (Progress img (0 + 0x8000) 0)
          [0x04, 0x00, 0xFF] := effect_erase (by decide) rfl (Nat.le_refl 0)
      refine Triple.bind ((sendMessage_spec Progress.steady.since Progress.steady.since
        (hall.since base) 20000).weaken (fun w hw => hw.1) fun _ _ hw => hw) fun e => ?_
      refine Triple.pure fun w hw => ?_
      refine ⟨hw.1, fun hok => ?_⟩
      obtain ⟨es, hl, hes⟩ := hw.2 hok
      exact ⟨es, hl, hes.mono (by omega)⟩
  · refine Triple.pure fun w hw => ?_
    obtain ⟨⟨es, hl, hes⟩, hf⟩ := hw
    exact ⟨⟨⟨es, hl, hes.mono (Nat.zero_le _)⟩, hf⟩, fun _ => ⟨es, hl, hes.mono (by omega)⟩⟩

/-- How a run ends: what was written is there, and all of it on a success. -/
structure Ends (img : List UInt8) (base : List Event) (e : Err) (w : World) : Prop where
  held : w.locked = true ∧ w.busy = true
  room : w.written ≤ img.length
  stopped : Since base (Stopped img w.written) w.boot.flash w.log
  ok : e = .ok → w.written = img.length ∧
    Since base (Progress img img.length img.length) w.boot.flash w.log

/-- The blocks before `i` are programmed. -/
def Blocks (img : List UInt8) (base : List Event) (i : Nat) : World → Prop :=
  On (Since base (Progress img img.length (min (i * maxTransfer) img.length)))
    (true, true, min (i * maxTransfer) img.length)

theorem Since.stopped {hi off : Nat} {w : World}
    (h : Since base (Progress img hi off) w.boot.flash w.log) (hoff : off ≤ img.length) :
    Since base (Stopped img off) w.boot.flash w.log := by
  obtain ⟨es, hl, hes⟩ := h
  exact ⟨es, hl, hes.stopped hoff⟩

theorem block_bounds {L i off n : Nat} (hi : i < (L + (maxTransfer - 1)) / maxTransfer)
    (hoff : off = i * maxTransfer)
    (hn : n = if maxTransfer < L - off then maxTransfer else L - off) :
    1 ≤ n ∧ n ≤ maxTransfer ∧ off + n ≤ L ∧ min (i * maxTransfer) L = off ∧
      min ((i + 1) * maxTransfer) L = off + n := by
  rw [maxTransfer] at *
  subst hoff hn
  split <;> omega

/-- One block more, or the run ends here. -/
theorem writeBlock_spec {i : Nat} (himg : img.length ≤ culDfuAppLimit)
    (hi : i < (img.length + (maxTransfer - 1)) / maxTransfer) :
    Triple (Blocks img base i) (writeBlock sched img i)
      (Exit (Ends img base) (Blocks img base (i + 1))) := by
  obtain ⟨off, hoff⟩ : ∃ off, off = i * maxTransfer := ⟨_, rfl⟩
  obtain ⟨n, hn⟩ : ∃ n, n = if maxTransfer < img.length - off then maxTransfer
      else img.length - off := ⟨_, rfl⟩
  obtain ⟨hpos, hmax, hfit, hmin, hnext⟩ := block_bounds hi hoff hn
  have hblock := (effect_block hpos hmax hfit himg).since base
  have hsteady : Steady (Since base (Progress img img.length (off + n))) := Progress.steady.since
  rw [Blocks, Blocks, hmin, hnext]
  simp only [writeBlock, ← hoff, ← hn]
  refine Triple.bind (sendMessage_spec Stopped.steady.since hsteady hblock _) fun e =>
    Triple.ite (fun hne => Triple.pure fun w hw => ?_) fun heq => ?_
  · -- the block failed: it is reported up to its start
    obtain ⟨⟨hst, hf⟩, -⟩ := hw
    simp only [World.rest, Prod.mk.injEq] at hf
    obtain ⟨hlock, hbusy, hwr⟩ := hf
    refine ⟨⟨hlock, hbusy⟩, by omega, ?_, fun hok => absurd hok hne⟩
    rw [hwr]
    exact hst
  · refine Triple.bind (R := fun _ => On (Since base (Progress img img.length (off + n)))
      (true, true, off + n)) (Triple.modify fun w hw => ?_) fun _ =>
      Triple.bind (R := fun _ => On (Since base (Progress img img.length (off + n)))
        (true, true, off + n)) (Triple.get fun w hw => hw) fun v => Triple.pure fun w hw => ?_
    · obtain ⟨⟨-, hf⟩, hok⟩ := hw
      simp only [World.rest, Prod.mk.injEq] at hf
      refine ⟨hok (not_not.1 heq), ?_⟩
      simp only [World.rest, hf.1, hf.2.1]
    · split
      · -- the stick is gone: the run ends behind the block
        obtain ⟨hpr, hf⟩ := hw
        simp only [World.rest, Prod.mk.injEq] at hf
        obtain ⟨hlock, hbusy, hwr⟩ := hf
        refine ⟨⟨hlock, hbusy⟩, by omega, ?_, fun h => by cases h⟩
        rw [hwr]
        exact hpr.stopped hfit
      · exact hw

/-- The guard changes the flags of the EEPROM only. -/
theorem eepromGuard_spec {P : Flash → List Event → Prop} (hP : Steady P)
    (before : Err × List UInt8) :
    Triple (On P f) (eepromGuard sched before) fun _ => On P f := by
  refine Triple.ite (fun _ => ?_) fun _ => Triple.pure fun w hw => hw
  refine Triple.bind (atmelRead_quiet hP _ _ (by decide)) fun after => ?_
  exact Triple.ite (fun _ => Triple.modify fun w hw => hw) fun _ => Triple.pure fun w hw => hw

/-- A run that has the lock. -/
theorem flashLocked_spec (himg : img.length ≤ culDfuAppLimit) :
    Triple (On (Since base (Progress img 0 0)) (true, true, 0)) (flashLocked sched img)
      (Ends img base) := by
  refine Triple.bind (atmelRead_quiet Progress.steady.since _ _ (by decide)) fun before => ?_
  refine Triple.bind (atmelEraseBlocks_spec himg) fun r =>
    Triple.ite (fun hne => Triple.pure fun w hw => ?_) fun heq => ?_
  · -- the erase failed: nothing has been written
    obtain ⟨⟨hst, hf⟩, -⟩ := hw
    simp only [World.rest, Prod.mk.injEq] at hf
    obtain ⟨hlock, hbusy, hwr⟩ := hf
    refine ⟨⟨hlock, hbusy⟩, by omega, ?_, fun hok => absurd hok hne⟩
    rw [hwr]
    exact hst.stopped (Nat.zero_le _)
  · have hloop : Triple (Blocks img base 0)
        (loop (writeBlock sched img) (do
          eepromGuard sched before
          atmelStartApp sched) ((img.length + (maxTransfer - 1)) / maxTransfer) 0)
        (Ends img base) := by
      refine Triple.loop (I := Blocks img base) (fun i hi => writeBlock_spec himg hi) ?_
        (Nat.zero_add _)
      have hall : min ((img.length + (maxTransfer - 1)) / maxTransfer * maxTransfer) img.length =
          img.length := by
        rw [maxTransfer]
        omega
      simp only [Blocks, hall]
      refine Triple.bind (eepromGuard_spec Progress.steady.since before) fun _ =>
        (atmelStartApp_quiet Progress.steady.since).weaken (fun w hw => hw) fun e w hw => ?_
      obtain ⟨hpr, hf⟩ := hw
      simp only [World.rest, Prod.mk.injEq] at hf
      obtain ⟨hlock, hbusy, hwr⟩ := hf
      refine ⟨⟨hlock, hbusy⟩, by omega, ?_, fun _ => ⟨hwr, hpr⟩⟩
      rw [hwr]
      exact hpr.stopped (Nat.le_refl _)
    refine hloop.weaken (fun w hw => ?_) fun _ _ hw => hw
    simp only [Blocks, Nat.zero_mul, Nat.zero_min]
    exact ⟨hw.2 (not_not.1 heq), hw.1.2⟩

/-- A run from `w` to `t`: the lock is released, everything programmed was erased before, lies
below the bootloader and not beyond the block after the last one reported, and the flash holds
the image as far as it was reported. A success reports the whole image, in blocks that follow
each other. -/
structure FlashResult (img : List UInt8) (w : World) (e : Err) (t : World) : Prop where
  released : t.locked = false ∧ t.busy = false
  history : ∃ es, t.log = w.log ++ es ∧ Orderly es ∧
    (∀ q ∈ programs es, q.1 + q.2 ≤ culDfuAppLimit ∧ q.1 + q.2 ≤ t.written + maxTransfer) ∧
    (e = .ok → Contiguous 0 (programs es) img.length ∧
      (programs es).Pairwise fun q r => q.1 + q.2 ≤ r.1)
  written : t.written ≤ img.length ∧ StartsWith t.boot.flash (img.take t.written)
  ok : e = .ok → t.written = img.length ∧ StartsWith t.boot.flash img

theorem startsWith_take {n : Nat} {fl : Flash} (h : ∀ a < n, fl a = img.getD a 0) :
    StartsWith fl (img.take n) := by
  intro a ha
  rw [List.length_take] at ha
  rw [h a (by omega), List.getD_eq_getElem?_getD, List.getD_eq_getElem?_getD,
    List.getElem?_take_of_lt (by omega)]

/-- What a run that ended leaves when the lock is released. -/
theorem Ends.result {e : Err} {w t : World} (himg : img.length ≤ culDfuAppLimit)
    (h : Ends img w.log e t) :
    FlashResult img w e { t with busy := false, locked := false } := by
  obtain ⟨es, hl, hst⟩ := h.stopped
  have hok : e = .ok →
      t.written = img.length ∧ Progress img img.length img.length t.boot.flash es := by
    intro heq
    obtain ⟨hwr, es', hl', hpr⟩ := h.ok heq
    obtain rfl : es = es' := List.append_cancel_left (hl.symm.trans hl')
    exact ⟨hwr, hpr⟩
  refine ⟨⟨rfl, rfl⟩, ⟨es, hl, hst.orderly, fun q hq => ?_, fun heq => ?_⟩,
    ⟨h.room, startsWith_take hst.written⟩, fun heq => ⟨(hok heq).1, (hok heq).2.written⟩⟩
  · have hin := Nat.le_min.1 (hst.inside q hq)
    exact ⟨Nat.le_trans hin.1 himg, hin.2⟩
  · exact ⟨(hok heq).2.blocks, (hok heq).2.blocks.disjoint⟩

/-- The state in which the run starts, with the lock. -/
def World.granted (w : World) : World :=
  { w with locked := true, busy := true, written := 0, eepromChecked := false,
           eepromIntact := false }

theorem culDfuFlash_run (sched : Nat → Outcome) (img : List UInt8) (w : World) :
    (culDfuFlash sched img).run w =
      (if img = [] then pure Err.invalidArg
      else if culDfuAppLimit < img.length then pure .invalidSize
      else if w.dev = false then pure .notFound
      else if w.locked = true then pure .invalidState
      else do
        modify fun w => { w with
          locked := true, busy := true, written := 0, eepromChecked := false,
          eepromIntact := false }
        let e ← flashLocked sched img
        modify fun w => { w with busy := false, locked := false }
        pure e : StateM World Err).run w := by
  simp only [culDfuFlash, run_get_bind]

/-- An image that fits is flashed if the bootloader is there and the lock is free. -/
theorem culDfuFlash_granted {w : World} (hpos : 1 ≤ img.length)
    (himg : img.length ≤ culDfuAppLimit) (hdev : w.dev = true) (hfree : w.locked = false) :
    (culDfuFlash sched img).run w =
      (((flashLocked sched img).run w.granted).1,
        { ((flashLocked sched img).run w.granted).2 with busy := false, locked := false }) := by
  have hnil : img ≠ [] := by
    rintro rfl
    exact absurd hpos (by simp)
  rw [culDfuFlash_run, if_neg hnil, if_neg (Nat.not_lt.2 himg), if_neg (by simp [hdev]),
    if_neg (by simp [hfree])]
  exact run_between World.granted _ _ _

/-- Otherwise it is refused, and nothing happens. -/
theorem culDfuFlash_refused {w : World} (h : img.length = 0 ∨ culDfuAppLimit < img.length ∨
    w.dev = false ∨ w.locked = true) :
    ((culDfuFlash sched img).run w).1 ≠ .ok ∧ ((culDfuFlash sched img).run w).2 = w := by
  rw [culDfuFlash_run]
  by_cases hnil : img = []
  · rw [if_pos hnil]
    exact ⟨by rintro ⟨⟩, rfl⟩
  by_cases hbig : culDfuAppLimit < img.length
  · rw [if_neg hnil, if_pos hbig]
    exact ⟨by rintro ⟨⟩, rfl⟩
  by_cases hgone : w.dev = false
  · rw [if_neg hnil, if_neg hbig, if_pos hgone]
    exact ⟨by rintro ⟨⟩, rfl⟩
  have hlocked : w.locked = true := by
    rcases h with h | h | h | h
    · exact absurd (List.eq_nil_of_length_eq_zero h) hnil
    · exact absurd h hbig
    · exact absurd h hgone
    · exact h
  rw [if_neg hnil, if_neg hbig, if_neg hgone, if_pos hlocked]
  exact ⟨by rintro ⟨⟩, rfl⟩

/-- Flashing programs exactly the image. -/
theorem cul_dfu_flash_programs (sched : Nat → Outcome) {img : List UInt8} {w : World}
    (hpos : 1 ≤ img.length) (himg : img.length ≤ culDfuAppLimit) (hdev : w.dev = true)
    (hfree : w.locked = false) :
    FlashResult img w ((culDfuFlash sched img).run w).1 ((culDfuFlash sched img).run w).2 := by
  refine of_run_eq (Q := FlashResult img w) (culDfuFlash_granted hpos himg hdev hfree) ?_
  refine Ends.result himg (flashLocked_spec himg w.granted ⟨⟨[], ?_, .nil, rfl, ?_, ?_, ?_⟩, rfl⟩)
  · exact (List.append_nil _).symm
  · exact fun a ha => absurd ha (Nat.not_lt_zero a)
  · exact fun a ha => absurd ha (Nat.not_lt_zero a)
  · exact fun a _ ha => absurd ha (Nat.not_lt_zero a)

end Run

/-! ## A bootloader that answers -/

/-- A transfer that goes well. -/
structure Outcome.Answers (o : Outcome) : Prop where
  part : o.part = none
  returns : o.returns = true
  gone : o.gone = false
  status : o.status = 0x00

section Success

variable {sched : Nat → Outcome} {img msg : List UInt8} {r : Request}

theorem ctrl_answers (hs : ∀ k, (sched k).Answers) (hr : r.len ≤ ctrlBufBytes) :
    Triple (fun w => w.dev = true) (ctrl sched r) fun a w => a.1 = .ok ∧ w.dev = true := by
  intro w hw
  have hlen : ¬ ctrlBufBytes < r.len := Nat.not_lt.2 hr
  simp [ctrl, StateT.run, hw, hlen, (hs w.sends).returns, (hs w.sends).gone]

theorem dfuDnload_answers (hs : ∀ k, (sched k).Answers) (hfits : msg.length ≤ ctrlBufBytes) :
    Triple (fun w => w.dev = true) (dfuDnload sched msg) fun e w =>
      (e = .ok ∧ w.dev = true) ∧ w.boot.good = true := by
  refine Triple.bind (R := fun a w => (a.1 = .ok ∧ w.dev = true) ∧ w.boot.good = true) ?_
    fun a => Triple.pure fun w hw => hw
  intro w hw
  refine ⟨ctrl_answers (r := .dnload msg) hs hfits w hw, ?_⟩
  have hlen : ¬ ctrlBufBytes < (Request.dnload msg).len := Nat.not_lt.2 hfits
  have hgood : ∀ c, (w.boot.carryOut none c).good = true := by
    intro c
    cases c <;> rfl
  simp [ctrl, StateT.run, hw, hlen, (hs w.sends).part, Request.carryOut, hgood]

theorem getStatus_answers (hs : ∀ k, (sched k).Answers) :
    Triple (fun w => w.dev = true ∧ w.boot.good = true) (ctrl sched .getStatus) fun a w =>
      a.1 = .ok ∧ a.2.status = 0x00 ∧ w.dev = true := by
  rintro w ⟨hw, hgood⟩
  have hfits : Request.getStatus.len ≤ ctrlBufBytes := quiet_getStatus.fits
  obtain ⟨hok, hdev⟩ := ctrl_answers (r := .getStatus) hs hfits w hw
  refine ⟨hok, ?_, hdev⟩
  have hlen : ¬ ctrlBufBytes < Request.getStatus.len := Nat.not_lt.2 hfits
  simp [ctrl, StateT.run, hw, hlen, Request.carryOut, Boot.status, hgood, (hs w.sends).status]

/-- A message is carried out, and its status is good at once. -/
theorem sendMessage_answers (hs : ∀ k, (sched k).Answers) (hfits : msg.length ≤ ctrlBufBytes)
    (totalMs : Nat) :
    Triple (fun w => w.dev = true) (sendMessage sched msg totalMs) fun e w =>
      e = .ok ∧ w.dev = true := by
  refine Triple.bind (dfuDnload_answers hs hfits) fun e =>
    Triple.ite (fun hne => Triple.pure fun w hw => absurd hw.1.1 hne) fun _ => ?_
  -- the loop ends with its first round
  refine (Triple.bind (R := fun e w => e = some .ok ∧ w.dev = true) (Triple.bind
    (getStatus_answers hs) fun a => Triple.ite (fun hne => Triple.pure fun w hw => absurd hw.1 hne)
      fun _ => Triple.ite (fun _ => Triple.pure fun w hw => ⟨rfl, hw.2.2⟩) fun hbad =>
        fun w hw => absurd hw.2.1 hbad) fun e => ?_).weaken
    (fun w hw => ⟨hw.1.2, hw.2⟩) fun _ _ hw => hw
  rintro w ⟨rfl, hw⟩
  exact ⟨rfl, hw⟩

theorem atmelRead_answers (hs : ∀ k, (sched k).Answers) (unit : UInt8) (start : Nat) {len : Nat}
    (hlen : len ≤ ctrlBufBytes) :
    Triple (fun w => w.dev = true) (atmelRead sched unit start len) fun _ w => w.dev = true := by
  have hfits : ([0x03, unit] ++ addressBytes start ++ addressBytes (start + len - 1)).length ≤
      ctrlBufBytes := by
    simp [addressBytes_length]
    decide
  refine Triple.bind (dfuDnload_answers hs hfits) fun e =>
    Triple.ite (fun _ => Triple.pure fun w hw => hw.1.2) fun _ => ?_
  refine Triple.bind (R := fun _ w => w.dev = true) ?_ fun a => Triple.pure fun w hw => hw
  exact (ctrl_answers (r := .upload len) hs hlen).weaken (fun w hw => hw.1.2) fun _ _ hw => hw.2

theorem writeBlock_answers (hs : ∀ k, (sched k).Answers) (himg : img.length ≤ culDfuAppLimit)
    {S : Err → World → Prop} {i : Nat} (hi : i < (img.length + (maxTransfer - 1)) / maxTransfer) :
    Triple (fun w => w.dev = true) (writeBlock sched img i)
      (Exit S fun w => w.dev = true) := by
  obtain ⟨off, hoff⟩ : ∃ off, off = i * maxTransfer := ⟨_, rfl⟩
  obtain ⟨n, hn⟩ : ∃ n, n = if maxTransfer < img.length - off then maxTransfer
      else img.length - off := ⟨_, rfl⟩
  obtain ⟨hpos, hmax, hfit, -, -⟩ := block_bounds hi hoff hn
  simp only [writeBlock, ← hoff, ← hn]
  refine Triple.bind (sendMessage_answers hs (effect_block hpos hmax hfit himg).fits _) fun e =>
    Triple.ite (fun hne => fun w hw => absurd hw.1 hne) fun _ => ?_
  refine Triple.bind (R := fun _ w => w.dev = true) (Triple.modify fun w hw => hw.2) fun _ =>
    Triple.bind (R := fun v w => v.dev = true ∧ w.dev = true) (Triple.get fun w hw => ⟨hw, hw⟩)
      fun v => Triple.pure fun w hw => ?_
  rw [if_neg (by simp [hw.1])]
  exact hw.2

/-- A bootloader that answers every transfer is flashed. -/
theorem cul_dfu_flash_succeeds (hs : ∀ k, (sched k).Answers) {w : World}
    (hpos : 1 ≤ img.length) (himg : img.length ≤ culDfuAppLimit) (hdev : w.dev = true)
    (hfree : w.locked = false) : ((culDfuFlash sched img).run w).1 = .ok := by
  have herase : Triple (fun w => w.dev = true) (atmelEraseBlocks sched img.length) fun r w =>
      r.1 = .ok ∧ w.dev = true := by
    refine Triple.loop (I := fun _ (w : World) => w.dev = true) (fun i hi => ?_)
      (Triple.pure fun w hw => ⟨rfl, hw⟩) (Nat.zero_add _)
    refine Triple.bind (sendMessage_answers hs (by simp; decide) _) fun e =>
      Triple.ite (fun _ => Triple.pure fun w hw => hw.2) fun hne => fun w hw => absurd hw.1 hne
  have hguard : ∀ before, Triple (fun w => w.dev = true) (eepromGuard sched before)
      fun _ w => w.dev = true := by
    intro before
    refine Triple.ite (fun _ => ?_) fun _ => Triple.pure fun w hw => hw
    refine Triple.bind (atmelRead_answers hs _ _ (by decide)) fun after => ?_
    exact Triple.ite (fun _ => Triple.modify fun w hw => hw) fun _ => Triple.pure fun w hw => hw
  have hstart : Triple (fun w => w.dev = true) (atmelStartApp sched) fun e _ => e = .ok := by
    refine Triple.bind (dfuDnload_answers hs (by decide)) fun e =>
      Triple.ite (fun hne => fun w hw => absurd hw.1.1 hne) fun _ => fun w _ => rfl
  refine of_run_eq (Q := fun e _ => e = .ok) (culDfuFlash_granted hpos himg hdev hfree) ?_
  have hrun : Triple (fun w => w.dev = true) (flashLocked sched img) fun e _ => e = .ok := by
    refine Triple.bind (atmelRead_answers hs _ _ (by decide)) fun before =>
      Triple.bind herase fun r => Triple.ite (fun hne => fun w hw => absurd hw.1 hne) fun _ => ?_
    have hloop : Triple (fun w => w.dev = true) (loop (writeBlock sched img) (do
        eepromGuard sched before
        atmelStartApp sched) ((img.length + (maxTransfer - 1)) / maxTransfer) 0)
        fun e _ => e = .ok :=
      Triple.loop (I := fun _ (w : World) => w.dev = true)
        (fun i hi => writeBlock_answers hs himg hi)
        (Triple.bind (hguard before) fun _ => hstart) (Nat.zero_add _)
    exact hloop.weaken (fun w hw => hw.2) fun _ _ hw => hw
  exact hrun w.granted hdev

end Success

/-- A bootloader that answers. -/
def answering : Nat → Outcome := fun _ => ⟨none, true, false, 0x00, 0x02, []⟩

/-- A stick with an old program in its bootloader. -/
def attached : World := ⟨⟨fun _ => 0x00, false⟩, true, false, false, 0, false, false, 0, []⟩

theorem cul_dfu_flash_programs_two_blocks :
    let t := (culDfuFlash answering (List.replicate 1025 0x5A)).run attached
    t.1 = .ok ∧ FlashResult (List.replicate 1025 0x5A) attached t.1 t.2 :=
  have hlen : (List.replicate 1025 (0x5A : UInt8)).length = 1025 := List.length_replicate
  have hpos : 1 ≤ (List.replicate 1025 (0x5A : UInt8)).length :=
    Nat.le_trans (by decide) (Nat.le_of_eq hlen.symm)
  have hfit : (List.replicate 1025 (0x5A : UInt8)).length ≤ culDfuAppLimit :=
    Nat.le_trans (Nat.le_of_eq hlen) (by decide)
  ⟨cul_dfu_flash_succeeds (fun _ => ⟨rfl, rfl, rfl, rfl⟩) hpos hfit rfl rfl,
    cul_dfu_flash_programs answering hpos hfit rfl rfl⟩

end Cdc2Net.Dfu
