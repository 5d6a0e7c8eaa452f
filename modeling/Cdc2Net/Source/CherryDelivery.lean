import Cdc2Net.Source.CherryRx

/-!
# What the reader of a stick gets

A run is quiet if `SET_ATTR` kills the URB between two callbacks and does not store to the
counters of the ring inside a read. In every state of a quiet run the ring holds a queue, with
the bytes of the transfer that the callback is copying behind it (`Good`): what was accepted is
what was read, then the queue, then the rest of that transfer.
-/

set_option autoImplicit false

namespace Cdc2Net.Source.CherryRx

open Cdc2Net.Lib.Transition Cdc2Net.Lib.FixedBuffer Cdc2Net.Lib.RingQueue
open UsbRingbuffer

/-- The reader is in `usb_ringbuffer_read`. -/
def ReaderPc.isCopying : ReaderPc → Bool
  | .copying _ _ => true
  | _ => false

/-- The reader is about to look at the counters in `usb_ringbuffer_read`. -/
def ReaderPc.isReading : ReaderPc → Bool
  | .reading _ => true
  | _ => false

/-- The step is not one of `SET_ATTR` that falls into a callback or into a read of the ring. -/
def Quiet (s : Port) : Label → Prop
  | .control _ => (s.control = .kill → s.callback = .idle) ∧
      (s.control = .resetIn → s.reader.isCopying = false)
  | .reader _ => s.control = .resetOut → s.reader.isReading = false
  | _ => True

instance decidableQuiet (s : Port) : DecidablePred (Quiet s)
  | .control _ => inferInstanceAs (Decidable (_ ∧ _))
  | .reader _ => inferInstanceAs (Decidable (_ → _))
  | .dma _ | .complete _ | .callback _ | .read _ | .setAttr => inferInstanceAs (Decidable True)

theorem not_copying {reader : ReaderPc} (h : reader.isCopying = false) (c : Copy)
    (bytes : List UInt8) : reader ≠ .copying c bytes := by
  intro heq
  rw [heq] at h
  cases h

/-! ## The ring -/

/-- The ring holds `q`, and `staged` behind it that is not announced yet. -/
structure Ring (rb : UsbRingbuffer rxSize) (q staged : List UInt8) : Prop where
  mask : rb.mask = 2047
  used : rb.getUsed.toNat = q.length
  holds : Holds rb.pool rxSize rb.out.toNat (q ++ staged)

/-- The copy is of a ring operation that started at this counter. -/
structure Runs (c : Copy) (counter : Nat) : Prop where
  offset : c.offset.toNat = counter % rxSize
  remain : c.remain.toNat = min (rxSize - counter % rxSize) c.size.toNat

section Ring

variable {rb : UsbRingbuffer rxSize} {q staged : List UInt8} {c : Copy}

theorem size_of_mask (h : rb.mask = 2047) : rb.size = rxSize := by
  rw [UsbRingbuffer.size, h]
  rfl

theorem Ring.length_le (h : Ring rb q staged) : q.length + staged.length ≤ rxSize := by
  have hle := h.holds.length_le
  rw [List.length_append] at hle
  exact hle

theorem Ring.represents (h : Ring rb q staged) : Represents rb q where
  pow := ⟨11, by omega, size_of_mask h.mask⟩
  used := h.used
  holds := by
    rw [size_of_mask h.mask]
    have htake := h.holds.take q.length
    rw [List.take_left] at htake
    exact htake

theorem Ring.of_represents (h : Represents rb q) (hmask : rb.mask = 2047) : Ring rb q [] where
  mask := hmask
  used := h.used
  holds := by
    have hholds := h.holds
    rw [size_of_mask hmask] at hholds
    rw [List.append_nil]
    exact hholds

/-- The elements that a copy touches are the ring's elements from the counter on. -/
theorem Runs.address_eq {counter : Nat} (h : Runs c counter) (hdone : c.done < c.size.toNat)
    (hsize : c.size.toNat ≤ rxSize) : c.address = (counter + c.done) % rxSize := by
  have hoff := h.offset
  have hrem := h.remain
  have hlt : counter % rxSize < rxSize := Nat.mod_lt _ (by decide)
  rw [Copy.address, Nat.add_mod, Nat.mod_eq_of_lt (show c.done < rxSize by omega)]
  split
  · have hin : counter % rxSize + c.done < rxSize := by omega
    rw [hoff, Nat.mod_eq_of_lt hin]
  · -- past the end of the pool
    have hout : rxSize ≤ counter % rxSize + c.done := by omega
    have hin : counter % rxSize + c.done - rxSize < rxSize := by omega
    rw [Nat.mod_eq_sub_mod hout, Nat.mod_eq_of_lt hin]
    omega

theorem runs_startCopy (h : Represents rb q) (hmask : rb.mask = 2047)
    (counter n : UInt32) : Runs (startCopy rb.mask counter n) counter.toNat where
  offset := by
    have hand := h.and_mask counter
    rw [size_of_mask hmask] at hand
    exact hand
  remain := by
    have hremain := h.toNat_remain counter n
    rw [size_of_mask hmask] at hremain
    exact hremain

theorem Ring.startWrite (h : Ring rb q staged) (n : UInt32) :
    Runs (startWrite rb n) rb.inp.toNat ∧ (startWrite rb n).done = 0 ∧
      (startWrite rb n).size.toNat = min n.toNat (rxSize - q.length) := by
  have hfree := h.represents.toNat_getFree
  rw [size_of_mask h.mask] at hfree
  refine ⟨runs_startCopy h.represents h.mask _ _, rfl, ?_⟩
  show (if rb.mask + 1 - (rb.inp - rb.out) < n then rb.mask + 1 - (rb.inp - rb.out)
    else n).toNat = _
  split
  · next hcut =>
    rw [UInt32.lt_iff_toNat_lt, hfree] at hcut
    omega
  · next hcut =>
    rw [UInt32.lt_iff_toNat_lt, hfree] at hcut
    omega

theorem Ring.startRead (h : Ring rb q staged) (n : UInt32) :
    Runs (startRead rb n) rb.out.toNat ∧ (startRead rb n).done = 0 ∧
      (startRead rb n).size.toNat ≤ q.length := by
  have hused : (rb.inp - rb.out).toNat = q.length := h.used
  refine ⟨runs_startCopy h.represents h.mask _ _, rfl, ?_⟩
  show (if rb.inp - rb.out < n then rb.inp - rb.out else n).toNat ≤ _
  split
  · exact hused.le
  · next hcut =>
    rw [UInt32.lt_iff_toNat_lt, hused] at hcut
    omega

/-- The next byte goes behind what is staged. -/
theorem Ring.put (h : Ring rb q staged) (hruns : Runs c rb.inp.toNat)
    (hdone : c.done = staged.length) (hlt : c.done < c.size.toNat)
    (hroom : q.length + c.size.toNat ≤ rxSize) (byte : UInt8) :
    ∃ pool, rb.pool.write c.address byte = .ok pool ∧
      Ring { rb with pool := pool } q (staged ++ [byte]) := by
  have haddress : c.address = (rb.out.toNat + (q ++ staged).length) % rxSize := by
    rw [hruns.address_eq hlt (by omega), List.length_append, ← Nat.add_assoc, hdone]
    have hinp := h.represents.inp_mod
    rw [size_of_mask h.mask] at hinp
    exact hinp.add_right _
  obtain ⟨pool, hwrite, hpool⟩ := h.holds.write byte
    (by rw [List.length_append]; omega) haddress
  rw [List.append_assoc] at hpool
  exact ⟨pool, hwrite, h.mask, h.used, hpool⟩

/-- `rb->in += size;` announces what is staged. -/
theorem Ring.announce (h : Ring rb q staged) {n : UInt32} (hn : n.toNat = staged.length) :
    Ring { rb with inp := rb.inp + n } (q ++ staged) [] := by
  have hholds : Holds rb.pool rb.size rb.out.toNat (q ++ staged) := by
    rw [size_of_mask h.mask]
    exact h.holds
  exact Ring.of_represents (h.represents.announce hn hholds) h.mask

/-- `rb->out += size;` gives the room of what was read back. -/
theorem Ring.advance (h : Ring rb q staged) {n : UInt32} (hn : n.toNat ≤ q.length) :
    Ring { rb with out := rb.out + n } (q.drop n.toNat) staged where
  mask := h.mask
  used := (h.represents.advance hn).used
  holds := by
    have hmod := h.represents.toNat_add_mod rb.out n
    rw [size_of_mask h.mask] at hmod
    have hdrop := h.holds.drop n.toNat
    rw [List.drop_append_of_le_length hn] at hdrop
    exact hdrop.congr hmod.symm

/-- The reader's next byte is the queue's. -/
theorem Ring.get (h : Ring rb q staged) (hruns : Runs c rb.out.toNat)
    (hsize : c.size.toNat ≤ q.length) (hlt : c.done < c.size.toNat) {byte : UInt8}
    (hbyte : q[c.done]? = some byte) : rb.pool.read c.address = .ok byte := by
  have hle := h.length_le
  rw [hruns.address_eq hlt (by omega)]
  refine h.holds.read ?_
  rw [List.getElem?_append_left (by omega)]
  exact hbyte

end Ring

/-! ## The invariant -/

/-- The transfer that brought `payload` is in the buffer. -/
structure Brought (hdr : Nat) (b : Buf UInt8 packetSize) (n : Nat) (payload : List UInt8) :
    Prop where
  le : hdr ≤ n
  le_packet : n ≤ packetSize
  eq : payload = (b.elems.take n).drop hdr

theorem Brought.length_eq {hdr n : Nat} {b : Buf UInt8 packetSize} {payload : List UInt8}
    (h : Brought hdr b n payload) : payload.length = n - hdr := by
  have hlen := b.length_eq
  have hle := h.le_packet
  rw [h.eq, List.length_drop, List.length_take]
  omega

theorem Brought.read {hdr n : Nat} {b : Buf UInt8 packetSize} {payload : List UInt8}
    (h : Brought hdr b n payload) {i : Nat} (hi : i < payload.length) :
    b.read (hdr + i) = .ok payload[i] := by
  have hlen := h.length_eq
  refine b.read_eq ?_
  have hget : payload[i]? = some payload[i] := List.getElem?_eq_getElem hi
  rw [← hget, h.eq, List.getElem?_drop, List.getElem?_take_of_lt (by omega)]

/-- What the callback has left to announce, for each place where it stands. -/
def CallbackOk (hdr : Nat) (s : Port) (t : Tally) (q staged : List UInt8) : Prop :=
  match s.callback with
  | .entered n | .submitted n =>
    staged = [] ∧ t.kept = t.got ++ q ∧ Brought hdr (s.io s.index) n t.payload
  | .copying half c =>
    half = s.index ∧ (∃ n, Brought hdr (s.io half) n t.payload) ∧
      c.size.toNat ≤ t.payload.length ∧ c.done ≤ c.size.toNat ∧
      staged = t.payload.take c.done ∧
      Runs c s.rb.inp.toNat ∧ q.length + c.size.toNat ≤ rxSize ∧
      t.kept = t.got ++ (q ++ t.payload.take c.size.toNat)
  | _ => staged = [] ∧ t.kept = t.got ++ q

/-- Which buffer an URB in flight has. -/
def UrbOk (s : Port) : Prop :=
  match s.callback with
  | .entered _ | .failed _ => s.urb = none
  | .submitted _ | .copying _ _ | .copied => ∀ half, s.urb = some half → half = !s.index
  | _ => ∀ half, s.urb = some half → half = s.index

/-- What the reader has copied. -/
def ReaderOk (s : Port) (q : List UInt8) : Prop :=
  match s.reader with
  | .copying c bytes => Runs c s.rb.out.toNat ∧ c.size.toNat ≤ q.length ∧
      c.done ≤ c.size.toNat ∧ bytes = q.take c.done
  | _ => True

/-- The callback has announced bytes and not given the semaphore yet. -/
def Announced (s : Port) : Prop :=
  s.callback = .copied ∨ s.callback = .toggled ∨ s.callback = .give

/-- A state of a quiet run with the queue in the ring and what is staged behind it. -/
structure Good (hdr : Nat) (s : Port) (t : Tally) (q staged : List UInt8) : Prop where
  fault : s.fault = false
  callback : CallbackOk hdr s t q staged
  urb : UrbOk s
  reader : ReaderOk s q
  /-- From `usbh_kill_urb` on there is no URB and no callback. -/
  killed : s.control ≠ .idle → s.control ≠ .kill → s.callback = .idle ∧ s.urb = none
  ring : s.control ≠ .resetOut → Ring s.rb q staged
  /-- Between the two stores the counters do not belong together. -/
  torn : s.control = .resetOut → s.rb.mask = 2047 ∧ s.rb.inp = 0 ∧
    ∀ c bytes, s.reader ≠ .copying c bytes
  emptied : s.control = .semReset → q = []
  /-- A reader that found the ring empty is woken for what has come since. -/
  wake : s.control ≠ .resetOut → ∀ buflen, s.reader = .waiting buflen →
    q = [] ∨ s.sem = true ∨ Announced s

def RxInv (hdr : Nat) (p : Port × List Event) : Prop :=
  ∃ q staged, Good hdr p.1 (tally p.2) q staged

theorem rxInv_opened (hdr : Nat) (pool : Buf UInt8 rxSize) (io : Bool → Buf UInt8 packetSize) :
    RxInv hdr (opened pool io, []) := by
  refine ⟨[], [], rfl, ⟨rfl, rfl⟩, ?_, trivial, fun h => absurd rfl h, fun _ => ?_, ?_, ?_, ?_⟩
  · intro half hurb
    cases hurb
  · exact ⟨rfl, toNat_getUsed_of_eq rfl, holds_nil _ _ (Nat.le_refl _)⟩
  · intro hcontrol
    cases hcontrol
  · intro hcontrol
    cases hcontrol
  · intro _ buflen hwait
    cases hwait

/-! ## Every step of a quiet run keeps it -/

section Step

variable {hdr : Nat} {s s' : Port} {t : Tally} {q staged : List UInt8}

/-- Only the buffer that is copied from, its index and `in` matter to the callback. -/
theorem CallbackOk.congr (h : CallbackOk hdr s t q staged) (hcallback : s'.callback = s.callback)
    (hindex : s'.index = s.index) (hinp : s'.rb.inp = s.rb.inp)
    (hio : s'.io s.index = s.io s.index) : CallbackOk hdr s' t q staged := by
  unfold CallbackOk at h ⊢
  rw [hcallback, hindex, hinp, hio]
  cases hpc : s.callback with
  | copying half c =>
    rw [hpc] at h
    obtain ⟨rfl, hrest⟩ := h
    dsimp only
    rw [hio]
    exact ⟨rfl, hrest⟩
  | _ =>
    rw [hpc] at h
    exact h

theorem Good.calm_of_callback (h : Good hdr s t q staged) (hcallback : s.callback ≠ .idle) :
    s.control = .idle ∨ s.control = .kill := by
  by_cases hidle : s.control = .idle
  · exact Or.inl hidle
  · by_cases hkill : s.control = .kill
    · exact Or.inr hkill
    · exact absurd (h.killed hidle hkill).1 hcallback

theorem Good.calm_of_urb (h : Good hdr s t q staged) (hurb : s.urb ≠ none) :
    s.control = .idle ∨ s.control = .kill := by
  by_cases hidle : s.control = .idle
  · exact Or.inl hidle
  · by_cases hkill : s.control = .kill
    · exact Or.inr hkill
    · exact absurd (h.killed hidle hkill).2 hurb

theorem not_resetOut_of_calm (h : s.control = .idle ∨ s.control = .kill) :
    s.control ≠ .resetOut := by
  intro heq
  rw [heq] at h
  rcases h with h | h <;> cases h

/-- Outside `SET_ATTR` nothing has to be said about it. -/
theorem Good.of_calm (hcalm : s.control = .idle ∨ s.control = .kill) (hfault : s.fault = false)
    (hcallback : CallbackOk hdr s t q staged) (hurb : UrbOk s) (hreader : ReaderOk s q)
    (hring : Ring s.rb q staged)
    (hwake : ∀ buflen, s.reader = .waiting buflen → q = [] ∨ s.sem = true ∨ Announced s) :
    Good hdr s t q staged where
  fault := hfault
  callback := hcallback
  urb := hurb
  reader := hreader
  killed := fun hidle hkill => absurd hcalm (not_or.2 ⟨hidle, hkill⟩)
  ring := fun _ => hring
  torn := fun heq => absurd heq (not_resetOut_of_calm hcalm)
  emptied := fun heq => by
    rw [heq] at hcalm
    rcases hcalm with h | h <;> cases h
  wake := fun _ => hwake

theorem Good.dma (h : Good hdr s t q staged) {half : Bool} (hurb : s.urb = some half)
    (content : Buf UInt8 packetSize) :
    Good hdr { s with io := fun i => if i = half then content else s.io i } t q staged := by
  have hcalm := h.calm_of_urb (by rw [hurb]; exact Option.some_ne_none _)
  refine Good.of_calm hcalm h.fault ?_ h.urb h.reader (h.ring (not_resetOut_of_calm hcalm))
    (h.wake (not_resetOut_of_calm hcalm))
  have hu := h.urb
  unfold UrbOk at hu
  -- while the callback has a buffer to copy, the URB in flight has the other one
  by_cases hsame : s.index = half
  · have hc := h.callback
    unfold CallbackOk at hc ⊢
    dsimp only
    cases hpc : s.callback with
    | entered n =>
      rw [hpc, hurb] at hu
      cases hu
    | submitted n =>
      rw [hpc] at hu
      have hnot := hu half hurb
      rw [← hsame] at hnot
      cases hindex : s.index <;> rw [hindex] at hnot <;> cases hnot
    | copying _ c =>
      rw [hpc] at hu
      have hnot := hu half hurb
      rw [← hsame] at hnot
      cases hindex : s.index <;> rw [hindex] at hnot <;> cases hnot
    | _ =>
      rw [hpc] at hc
      exact hc
  · exact h.callback.congr rfl rfl rfl (if_neg hsame)

/-- While the callback stands still, a reader that found the ring empty is not forgotten. -/
theorem Good.wake_idle (h : Good hdr s t q staged) (hcontrol : s.control ≠ .resetOut)
    (hnot : ¬ Announced s) {buflen : UInt32} (hwait : s.reader = .waiting buflen) :
    q = [] ∨ s.sem = true := by
  rcases h.wake hcontrol buflen hwait with hq | hsem | ha
  · exact Or.inl hq
  · exact Or.inr hsem
  · exact absurd ha hnot

theorem Good.complete (h : Good hdr s t q staged) {nbytes : Int}
    (hstep : completeStep hdr s nbytes = some s') :
    Good hdr s' ((emit hdr s (.complete nbytes)).foldl Tally.add t) q staged := by
  unfold completeStep at hstep
  split at hstep
  · next half hurb hpc =>
    have hcalm := h.calm_of_urb (by rw [hurb]; exact Option.some_ne_none _)
    have hcontrol := not_resetOut_of_calm hcalm
    have hnot : ¬ Announced s := by
      rintro (heq | heq | heq) <;> rw [hpc] at heq <;> cases heq
    have hc := h.callback
    unfold CallbackOk at hc
    rw [hpc] at hc
    have hu := h.urb
    unfold UrbOk at hu
    rw [hpc] at hu
    obtain rfl := hu half hurb
    rw [emit, hurb]
    dsimp only
    have hwake : ∀ buflen, s.reader = .waiting buflen → q = [] ∨ s.sem = true :=
      fun buflen hwait => h.wake_idle hcontrol hnot hwait
    split at hstep
    · next hneg =>
      cases hstep
      rw [if_pos (by omega)]
      exact Good.of_calm hcalm h.fault hc rfl h.reader (h.ring hcontrol)
        fun buflen hwait => (hwake buflen hwait).imp_right Or.inl
    · split at hstep
      · next hshort =>
        cases hstep
        rw [if_pos hshort]
        exact Good.of_calm hcalm h.fault hc rfl h.reader (h.ring hcontrol)
          fun buflen hwait => (hwake buflen hwait).imp_right Or.inl
      · next hneg hshort =>
        split at hstep
        · next hle =>
          cases hstep
          rw [if_neg hshort]
          refine Good.of_calm hcalm h.fault ⟨hc.1, hc.2, ?_, ?_, rfl⟩ rfl h.reader
            (h.ring hcontrol) fun buflen hwait => (hwake buflen hwait).imp_right Or.inl
          · omega
          · omega
        · cases hstep
  · cases hstep

theorem Good.callbackStep (h : Good hdr s t q staged) {ret : Int}
    (hstep : callbackStep hdr s ret = some s') :
    ∃ q' staged', Good hdr s' ((emit hdr s (.callback ret)).foldl Tally.add t) q' staged' := by
  have hc := h.callback
  unfold CallbackOk at hc
  have hu := h.urb
  unfold UrbOk at hu
  unfold CherryRx.callbackStep at hstep
  rw [emit]
  cases hpc : s.callback with
  | idle =>
    rw [hpc] at hstep
    cases hstep
  | failed code =>
    rw [hpc] at hstep hc hu
    have hcalm := h.calm_of_callback (by rw [hpc]; exact CallbackPc.noConfusion)
    cases hstep
    refine ⟨q, staged, Good.of_calm hcalm h.fault hc ?_ h.reader
      (h.ring (not_resetOut_of_calm hcalm)) fun _ _ => Or.inr (Or.inr (Or.inr (Or.inr rfl)))⟩
    intro half hurb
    rw [show s.urb = none from hu] at hurb
    cases hurb
  | entered n =>
    rw [hpc] at hstep hc hu
    have hcalm := h.calm_of_callback (by rw [hpc]; exact CallbackPc.noConfusion)
    have hcontrol := not_resetOut_of_calm hcalm
    have hnot : ¬ Announced s := by
      rintro (heq | heq | heq) <;> rw [hpc] at heq <;> cases heq
    have hurb : s.urb = none := hu
    have hwake : ∀ buflen, s.reader = .waiting buflen → q = [] ∨ s.sem = true :=
      fun buflen hwait => h.wake_idle hcontrol hnot hwait
    dsimp only at hstep ⊢
    rw [hurb] at hstep ⊢
    rw [if_neg (by decide)] at hstep
    split at hstep
    · next hneg =>
      cases hstep
      rw [if_pos ⟨rfl, hneg⟩]
      exact ⟨q, staged, Good.of_calm hcalm h.fault ⟨hc.1, hc.2.1⟩ rfl h.reader
        (h.ring hcontrol) fun buflen hwait => (hwake buflen hwait).imp_right Or.inl⟩
    · next hneg =>
      cases hstep
      rw [if_neg (fun hand => hneg hand.2)]
      refine ⟨q, staged, Good.of_calm hcalm h.fault hc ?_ h.reader
        (h.ring hcontrol) fun buflen hwait => (hwake buflen hwait).imp_right Or.inl⟩
      intro half hsome
      exact (Option.some.inj hsome).symm
  | submitted n =>
    rw [hpc] at hstep hc hu
    have hcalm := h.calm_of_callback (by rw [hpc]; exact CallbackPc.noConfusion)
    have hcontrol := not_resetOut_of_calm hcalm
    have hnot : ¬ Announced s := by
      rintro (heq | heq | heq) <;> rw [hpc] at heq <;> cases heq
    obtain ⟨rfl, hkept, hbrought⟩ := hc
    cases hstep
    obtain ⟨hruns, hdone, hsize⟩ :=
      (h.ring hcontrol).startWrite (UInt32.ofNat (n - hdr))
    have hlen := hbrought.length_eq
    have hn : (UInt32.ofNat (n - hdr)).toNat = n - hdr := by
      have hle : n ≤ 512 := hbrought.le_packet
      rw [UInt32.toNat_ofNat']
      omega
    have hle := (h.ring hcontrol).length_le
    rw [hn] at hsize
    rw [List.length_nil] at hle
    refine ⟨q, [], Good.of_calm hcalm h.fault ⟨rfl, ⟨n, hbrought⟩, ?_, ?_, ?_, hruns, ?_, ?_⟩
      hu h.reader (h.ring hcontrol) fun buflen hwait =>
        (h.wake_idle hcontrol hnot hwait).imp_right Or.inl⟩
    · show _ ≤ t.payload.length
      omega
    · rw [hdone]
      exact Nat.zero_le _
    · rw [hdone]
      rfl
    · omega
    · show t.kept ++ _ = t.got ++ _
      rw [hkept, List.append_assoc]
      rfl
  | copying half c =>
    rw [hpc] at hstep hc hu
    have hcalm := h.calm_of_callback (by rw [hpc]; exact CallbackPc.noConfusion)
    have hcontrol := not_resetOut_of_calm hcalm
    have hnot : ¬ Announced s := by
      rintro (heq | heq | heq) <;> rw [hpc] at heq <;> cases heq
    obtain ⟨hhalf, ⟨n, hbrought⟩, hsize, hdone, hstaged, hruns, hroom, hkept⟩ := hc
    have hlen : staged.length = c.done := by
      rw [hstaged, List.length_take]
      omega
    dsimp only at hstep
    split at hstep
    · next hlt =>
      have hin : c.done < t.payload.length := by omega
      have hread := hbrought.read hin
      obtain ⟨pool, hwrite, hring⟩ := (h.ring hcontrol).put hruns hlen.symm hlt hroom
        t.payload[c.done]
      have hnext : staged ++ [t.payload[c.done]] = t.payload.take (c.done + 1) :=
        (congrArg (· ++ [_]) hstaged).trans (List.take_append_getElem hin)
      rw [copyIn, hread] at hstep
      dsimp only at hstep
      rw [hwrite] at hstep
      cases hstep
      exact ⟨q, staged ++ [t.payload[c.done]], Good.of_calm hcalm h.fault
        ⟨hhalf, ⟨n, hbrought⟩, hsize, hlt, hnext, ⟨hruns.offset, hruns.remain⟩, hroom, hkept⟩
        hu h.reader hring fun buflen hwait =>
          (h.wake_idle hcontrol hnot hwait).imp_right Or.inl⟩
    · next hend =>
      cases hstep
      have heq : c.done = c.size.toNat := by omega
      refine ⟨q ++ staged, [], Good.of_calm hcalm h.fault ⟨rfl, ?_⟩ hu ?_
        ((h.ring hcontrol).announce (by omega)) fun _ _ => Or.inr (Or.inr (Or.inl rfl))⟩
      · show t.kept = t.got ++ (q ++ staged)
        rw [hkept, hstaged, heq]
      · -- the reader's bytes are still the first ones
        have hr := h.reader
        unfold ReaderOk at hr ⊢
        dsimp only
        cases hreader : s.reader with
        | copying r bytes =>
          rw [hreader] at hr
          obtain ⟨hrruns, hrsize, hrdone, hbytes⟩ := hr
          refine ⟨hrruns, ?_, hrdone, ?_⟩
          · rw [List.length_append]
            omega
          · rw [hbytes, List.take_append_of_le_length (by omega)]
        | _ => trivial
  | copied =>
    rw [hpc] at hstep hc hu
    have hcalm := h.calm_of_callback (by rw [hpc]; exact CallbackPc.noConfusion)
    cases hstep
    exact ⟨q, staged, Good.of_calm hcalm h.fault hc hu h.reader
      (h.ring (not_resetOut_of_calm hcalm)) fun _ _ => Or.inr (Or.inr (Or.inr (Or.inl rfl)))⟩
  | toggled =>
    rw [hpc] at hstep hc hu
    have hcalm := h.calm_of_callback (by rw [hpc]; exact CallbackPc.noConfusion)
    cases hstep
    exact ⟨q, staged, Good.of_calm hcalm h.fault hc hu h.reader
      (h.ring (not_resetOut_of_calm hcalm)) fun _ _ => Or.inr (Or.inr (Or.inr (Or.inr rfl)))⟩
  | give =>
    rw [hpc] at hstep hc hu
    have hcalm := h.calm_of_callback (by rw [hpc]; exact CallbackPc.noConfusion)
    cases hstep
    exact ⟨q, staged, Good.of_calm hcalm h.fault hc hu h.reader
      (h.ring (not_resetOut_of_calm hcalm)) fun _ _ => Or.inr (Or.inl rfl)⟩

/-- The reader takes bytes at the front while the callback works behind the queue. -/
theorem CallbackOk.advance (h : CallbackOk hdr s t q staged) {n : UInt32}
    (hn : n.toNat ≤ q.length) {s' : Port} (hcallback : s'.callback = s.callback)
    (hindex : s'.index = s.index) (hinp : s'.rb.inp = s.rb.inp) (hio : s'.io = s.io) :
    CallbackOk hdr s' { t with got := t.got ++ q.take n.toNat } (q.drop n.toNat) staged := by
  have hsplit : t.got ++ q = (t.got ++ q.take n.toNat) ++ q.drop n.toNat := by
    rw [List.append_assoc, List.take_append_drop]
  unfold CallbackOk at h ⊢
  rw [hcallback, hindex, hinp, hio]
  cases hpc : s.callback with
  | copying half c =>
    rw [hpc] at h
    obtain ⟨hhalf, hbrought, hsize, hdone, hstaged, hruns, hroom, hkept⟩ := h
    refine ⟨hhalf, hbrought, hsize, hdone, hstaged, hruns, ?_, ?_⟩
    · rw [List.length_drop]
      omega
    · rw [← List.append_assoc, ← hsplit, List.append_assoc]
      exact hkept
  | entered n =>
    rw [hpc] at h
    exact ⟨h.1, h.2.1.trans hsplit, h.2.2⟩
  | submitted n =>
    rw [hpc] at h
    exact ⟨h.1, h.2.1.trans hsplit, h.2.2⟩
  | _ =>
    rw [hpc] at h
    exact ⟨h.1, h.2.trans hsplit⟩

/-- The reader moves on without touching the ring or the semaphore. -/
theorem Good.withReader (h : Good hdr s t q staged) {reader : ReaderPc}
    (hcopy : ∀ c bytes, reader ≠ .copying c bytes)
    (hwake : s.control ≠ .resetOut → ∀ buflen, reader = .waiting buflen →
      q = [] ∨ s.sem = true ∨ Announced s) :
    Good hdr { s with reader := reader } t q staged where
  fault := h.fault
  callback := h.callback
  urb := h.urb
  reader := by
    unfold ReaderOk
    cases reader with
    | copying c bytes => exact absurd rfl (hcopy c bytes)
    | _ => trivial
  killed := h.killed
  ring := h.ring
  torn := fun heq => ⟨(h.torn heq).1, (h.torn heq).2.1, hcopy⟩
  emptied := h.emptied
  wake := hwake

theorem Good.readerStep (h : Good hdr s t q staged) {timeout : Bool}
    (hquiet : Quiet s (.reader timeout)) (hstep : readerStep s timeout = some s') :
    ∃ q', Good hdr s' ((emit hdr s (.reader timeout)).foldl Tally.add t) q' staged := by
  have hr := h.reader
  unfold ReaderOk at hr
  unfold CherryRx.readerStep at hstep
  rw [emit]
  cases hpc : s.reader with
  | idle =>
    rw [hpc] at hstep
    cases hstep
  | entered buflen =>
    rw [hpc] at hstep
    dsimp only at hstep
    split at hstep
    · next hused =>
      cases hstep
      refine ⟨q, h.withReader (fun _ _ => ReaderPc.noConfusion) fun hcontrol _ _ => Or.inl ?_⟩
      have hlen := (h.ring hcontrol).used
      rw [hused] at hlen
      exact List.length_eq_zero_iff.1 hlen.symm
    · cases hstep
      exact ⟨q, h.withReader (fun _ _ => ReaderPc.noConfusion) fun _ _ hw => by cases hw⟩
  | waiting buflen =>
    rw [hpc] at hstep
    dsimp only at hstep
    split at hstep
    · split at hstep
      · cases hstep
      · cases hstep
        have hmoved : Good hdr { s with reader := .woken buflen } t q staged :=
          h.withReader (fun _ _ => ReaderPc.noConfusion) fun _ _ hw => by cases hw
        exact ⟨q, hmoved.fault, hmoved.callback, hmoved.urb, hmoved.reader, hmoved.killed,
          hmoved.ring, hmoved.torn, hmoved.emptied, fun _ _ hw => by cases hw⟩
    · split at hstep
      · cases hstep
        exact ⟨q, h.withReader (fun _ _ => ReaderPc.noConfusion) fun _ _ hw => by cases hw⟩
      · cases hstep
  | woken buflen =>
    rw [hpc] at hstep
    dsimp only at hstep
    split at hstep <;> cases hstep <;>
      exact ⟨q, h.withReader (fun _ _ => ReaderPc.noConfusion) fun _ _ hw => by cases hw⟩
  | reading buflen =>
    rw [hpc] at hstep
    cases hstep
    have hcontrol : s.control ≠ .resetOut := by
      intro heq
      have hread := hquiet heq
      rw [hpc] at hread
      cases hread
    obtain ⟨hruns, hdone, hsize⟩ := (h.ring hcontrol).startRead buflen
    refine ⟨q, h.fault, h.callback, h.urb, ⟨hruns, hsize, ?_, ?_⟩, h.killed, h.ring,
      fun heq => absurd heq hcontrol, h.emptied, fun _ _ hw => by cases hw⟩
    · rw [hdone]
      exact Nat.zero_le _
    · rw [hdone]
      rfl
  | copying c bytes =>
    rw [hpc] at hstep hr
    have hcontrol : s.control ≠ .resetOut := fun heq => (h.torn heq).2.2 c bytes hpc
    obtain ⟨hruns, hsize, hdone, hbytes⟩ := hr
    dsimp only at hstep ⊢
    split at hstep
    · next hlt =>
      rw [if_pos hlt]
      have hin : c.done < q.length := by omega
      have hread := (h.ring hcontrol).get hruns hsize hlt (List.getElem?_eq_getElem hin)
      rw [copyOut, hread] at hstep
      cases hstep
      have hnext : bytes ++ [q[c.done]] = q.take (c.done + 1) :=
        (congrArg (· ++ [_]) hbytes).trans (List.take_append_getElem hin)
      exact ⟨q, h.fault, h.callback, h.urb, ⟨⟨hruns.offset, hruns.remain⟩, hsize, hlt, hnext⟩,
        h.killed, h.ring, fun heq => absurd heq hcontrol, h.emptied, fun _ _ hw => by cases hw⟩
    · next hend =>
      rw [if_neg hend]
      cases hstep
      have hall : bytes = q.take c.size.toNat := by
        rw [hbytes]
        congr 1
        omega
      refine ⟨q.drop c.size.toNat, h.fault, ?_, h.urb, trivial, h.killed, fun _ => ?_,
        fun heq => absurd heq hcontrol, ?_, fun _ _ hw => by cases hw⟩
      · show CallbackOk hdr _ { t with got := t.got ++ bytes } _ _
        rw [hall]
        exact h.callback.advance hsize rfl rfl rfl rfl
      · exact (h.ring hcontrol).advance hsize
      · intro heq
        rw [h.emptied heq, List.drop_nil]

/-- `SET_ATTR` moves on where only its own place changes. -/
theorem Good.withControl (h : Good hdr s t q staged) {control : ControlPc}
    (hfrom : s.control ≠ .resetOut) (hto : control ≠ .resetOut) (hsem : control ≠ .semReset)
    (hkilled : control ≠ .idle → control ≠ .kill → s.callback = .idle ∧ s.urb = none) :
    Good hdr { s with control := control } t q staged where
  fault := h.fault
  callback := h.callback.congr rfl rfl rfl rfl
  urb := h.urb
  reader := h.reader
  killed := hkilled
  ring := fun _ => h.ring hfrom
  torn := fun heq => absurd heq hto
  emptied := fun heq => absurd heq hsem
  wake := fun _ => h.wake hfrom

/-- From `usbh_kill_urb` on the callback has nothing left to announce. -/
theorem Good.callback_idle (h : Good hdr s t q staged) (hpc : s.callback = .idle) :
    staged = [] ∧ t.kept = t.got ++ q := by
  have hc := h.callback
  unfold CallbackOk at hc
  rw [hpc] at hc
  exact hc

theorem callbackOk_idle (hpc : s.callback = .idle)
    (h : staged = [] ∧ t.kept = t.got ++ q) : CallbackOk hdr s t q staged := by
  unfold CallbackOk
  rw [hpc]
  exact h

theorem urbOk_idle (hpc : s.callback = .idle) (h : ∀ half, s.urb = some half → half = s.index) :
    UrbOk s := by
  unfold UrbOk
  rw [hpc]
  exact h

theorem Good.controlStep (h : Good hdr s t q staged) {ret : Int}
    (hquiet : Quiet s (.control ret)) (hstep : controlStep s ret = some s') :
    ∃ q' staged', Good hdr s' ((emit hdr s (.control ret)).foldl Tally.add t) q' staged' := by
  unfold CherryRx.controlStep at hstep
  rw [emit]
  have hnone : ∀ half, (none : Option Bool) = some half → half = s.index :=
    fun half heq => by cases heq
  cases hpc : s.control with
  | idle =>
    rw [hpc] at hstep
    cases hstep
  | kill =>
    rw [hpc] at hstep
    have hcb := hquiet.1 hpc
    have hidle := h.callback_idle hcb
    dsimp only at hstep ⊢
    split at hstep
    · next hsome =>
      cases hstep
      rw [if_pos hsome]
      have hcontrol : s.control ≠ .resetOut := by rw [hpc]; exact ControlPc.noConfusion
      exact ⟨q, staged, h.fault, callbackOk_idle hcb hidle, urbOk_idle hcb hnone, h.reader,
        fun _ _ => ⟨hcb, rfl⟩, fun _ => h.ring hcontrol, fun heq => ControlPc.noConfusion heq,
        fun heq => ControlPc.noConfusion heq, fun _ => h.wake hcontrol⟩
    · next hsome =>
      cases hstep
      rw [if_neg hsome]
      have hurb : s.urb = none := by
        rw [Option.not_isSome_iff_eq_none] at hsome
        exact hsome
      exact ⟨q, staged, h.withControl (by rw [hpc]; exact ControlPc.noConfusion)
        ControlPc.noConfusion ControlPc.noConfusion fun _ _ => ⟨hcb, hurb⟩⟩
  | killed =>
    rw [hpc] at hstep
    have hcontrol : s.control ≠ .resetOut := by rw [hpc]; exact ControlPc.noConfusion
    obtain ⟨hcb, hurb⟩ := h.killed (by rw [hpc]; exact ControlPc.noConfusion)
      (by rw [hpc]; exact ControlPc.noConfusion)
    cases hstep
    have hmoved := h.withControl hcontrol (show ControlPc.killGive ≠ .resetOut from
      ControlPc.noConfusion) ControlPc.noConfusion fun _ _ => ⟨hcb, hurb⟩
    exact ⟨q, staged, hmoved.fault, hmoved.callback, hmoved.urb, hmoved.reader, hmoved.killed,
      hmoved.ring, hmoved.torn, hmoved.emptied, hmoved.wake⟩
  | killGive =>
    rw [hpc] at hstep
    have hcontrol : s.control ≠ .resetOut := by rw [hpc]; exact ControlPc.noConfusion
    obtain ⟨hcb, hurb⟩ := h.killed (by rw [hpc]; exact ControlPc.noConfusion)
      (by rw [hpc]; exact ControlPc.noConfusion)
    cases hstep
    have hmoved := h.withControl hcontrol (show ControlPc.coding ≠ .resetOut from
      ControlPc.noConfusion) ControlPc.noConfusion fun _ _ => ⟨hcb, hurb⟩
    exact ⟨q, staged, hmoved.fault, hmoved.callback, hmoved.urb, hmoved.reader, hmoved.killed,
      hmoved.ring, hmoved.torn, hmoved.emptied, fun _ _ _ => Or.inr (Or.inl rfl)⟩
  | coding =>
    rw [hpc] at hstep
    have hkilled := h.killed (by rw [hpc]; exact ControlPc.noConfusion)
      (by rw [hpc]; exact ControlPc.noConfusion)
    cases hstep
    refine ⟨q, staged, h.withControl (by rw [hpc]; exact ControlPc.noConfusion) ?_ ?_
      fun _ _ => hkilled⟩ <;> split <;> exact ControlPc.noConfusion
  | lineState =>
    rw [hpc] at hstep
    have hkilled := h.killed (by rw [hpc]; exact ControlPc.noConfusion)
      (by rw [hpc]; exact ControlPc.noConfusion)
    cases hstep
    refine ⟨q, staged, h.withControl (by rw [hpc]; exact ControlPc.noConfusion) ?_ ?_
      fun _ _ => hkilled⟩ <;> split <;> exact ControlPc.noConfusion
  | resetIn =>
    rw [hpc] at hstep
    have hcontrol : s.control ≠ .resetOut := by rw [hpc]; exact ControlPc.noConfusion
    have hkilled := h.killed (by rw [hpc]; exact ControlPc.noConfusion)
      (by rw [hpc]; exact ControlPc.noConfusion)
    cases hstep
    exact ⟨q, staged, h.fault, callbackOk_idle hkilled.1 (h.callback_idle hkilled.1), h.urb,
      h.reader, fun _ _ => hkilled, fun hne => absurd rfl hne,
      fun _ => ⟨(h.ring hcontrol).mask, rfl, not_copying (hquiet.2 hpc)⟩,
      fun heq => ControlPc.noConfusion heq,
      fun hne => absurd rfl hne⟩
  | resetOut =>
    rw [hpc] at hstep
    have hkilled := h.killed (by rw [hpc]; exact ControlPc.noConfusion)
      (by rw [hpc]; exact ControlPc.noConfusion)
    obtain ⟨hmask, hinp, hcopy⟩ := h.torn hpc
    cases hstep
    -- both counters are zero again, and nobody was between them
    refine ⟨[], [], h.fault, callbackOk_idle hkilled.1 ⟨rfl, rfl⟩, h.urb, ?_,
      fun _ _ => hkilled, fun _ => ⟨hmask, toNat_getUsed_of_eq hinp, holds_nil _ _ le_rfl⟩,
      fun heq => ControlPc.noConfusion heq, fun _ => rfl, fun _ _ _ => Or.inl rfl⟩
    unfold ReaderOk
    dsimp only
    cases hreader : s.reader with
    | copying c bytes => exact absurd hreader (hcopy c bytes)
    | _ => trivial
  | semReset =>
    rw [hpc] at hstep
    have hcontrol : s.control ≠ .resetOut := by rw [hpc]; exact ControlPc.noConfusion
    have hkilled := h.killed (by rw [hpc]; exact ControlPc.noConfusion)
      (by rw [hpc]; exact ControlPc.noConfusion)
    have hempty := h.emptied hpc
    cases hstep
    have hmoved := h.withControl hcontrol (show ControlPc.index ≠ .resetOut from
      ControlPc.noConfusion) ControlPc.noConfusion fun _ _ => hkilled
    exact ⟨q, staged, hmoved.fault, hmoved.callback, hmoved.urb, hmoved.reader, hmoved.killed,
      hmoved.ring, hmoved.torn, hmoved.emptied, fun _ _ _ => Or.inl hempty⟩
  | index =>
    rw [hpc] at hstep
    have hcontrol : s.control ≠ .resetOut := by rw [hpc]; exact ControlPc.noConfusion
    have hkilled := h.killed (by rw [hpc]; exact ControlPc.noConfusion)
      (by rw [hpc]; exact ControlPc.noConfusion)
    cases hstep
    refine ⟨q, staged, h.fault, callbackOk_idle hkilled.1 (h.callback_idle hkilled.1),
      urbOk_idle hkilled.1 ?_, h.reader, fun _ _ => hkilled, fun _ => h.ring hcontrol,
      fun heq => ControlPc.noConfusion heq, fun heq => ControlPc.noConfusion heq,
      fun _ => h.wake hcontrol⟩
    intro half hurb
    rw [show s.urb = none from hkilled.2] at hurb
    cases hurb
  | submit =>
    rw [hpc] at hstep
    have hcontrol : s.control ≠ .resetOut := by rw [hpc]; exact ControlPc.noConfusion
    have hkilled := h.killed (by rw [hpc]; exact ControlPc.noConfusion)
      (by rw [hpc]; exact ControlPc.noConfusion)
    dsimp only at hstep ⊢
    split at hstep
    · next hfail =>
      cases hstep
      rw [if_pos hfail]
      exact ⟨q, staged, h.withControl hcontrol ControlPc.noConfusion ControlPc.noConfusion
        fun _ _ => hkilled⟩
    · next hsent =>
      cases hstep
      rw [if_neg hsent]
      refine ⟨q, staged, h.fault, callbackOk_idle hkilled.1 (h.callback_idle hkilled.1),
        urbOk_idle hkilled.1 ?_, h.reader, fun hne => absurd rfl hne, fun _ => h.ring hcontrol,
        fun heq => ControlPc.noConfusion heq, fun heq => ControlPc.noConfusion heq,
        fun _ => h.wake hcontrol⟩
      intro half hurb
      exact (Option.some.inj hurb).symm

theorem Good.step (h : Good hdr s t q staged) {l : Label} (hquiet : Quiet s l)
    (hstep : (rx hdr).step s l = some s') :
    ∃ q' staged', Good hdr s' ((emit hdr s l).foldl Tally.add t) q' staged' := by
  cases l with
  | dma content =>
    obtain ⟨half, hurb, rfl⟩ := Option.map_eq_some_iff.1 hstep
    exact ⟨q, staged, h.dma hurb content⟩
  | complete nbytes => exact ⟨q, staged, h.complete hstep⟩
  | callback ret => exact h.callbackStep hstep
  | read buflen =>
    have hread : readStep s buflen = some s' := hstep
    simp only [readStep] at hread
    split at hread
    · cases hread
      exact ⟨q, staged, h.withReader (fun _ _ => ReaderPc.noConfusion)
        fun _ _ hw => ReaderPc.noConfusion hw⟩
    · cases hread
  | reader timeout =>
    obtain ⟨q', hgood⟩ := h.readerStep hquiet hstep
    exact ⟨q', staged, hgood⟩
  | setAttr =>
    have hset : (if s.control = .idle then some { s with control := .kill } else none) =
      some s' := hstep
    split at hset
    · next hidle =>
      cases hset
      exact ⟨q, staged, h.withControl (by rw [hidle]; exact ControlPc.noConfusion)
        ControlPc.noConfusion ControlPc.noConfusion fun _ hne => absurd rfl hne⟩
    · cases hset
  | control ret => exact h.controlStep hquiet hstep

end Step

/-! ## Whole runs -/

/-- A transfer has arrived that was neither taken into the ring nor the end of the URB yet. -/
def pending (es : List Event) : Bool :=
  es.foldl (fun due e => match e with
    | .arrived _ => true
    | .accepted _ | .stopped => false
    | _ => due) false

theorem pending_append (es : List Event) (e : Event) :
    pending (es ++ [e]) = match e with
      | .arrived _ => true
      | .accepted _ | .stopped => false
      | _ => pending es := by
  rw [pending, List.foldl_append]
  rfl

/-- No transfer arrives before the one before it is done with, and the ring takes of it, once,
what it has room for. -/
def Accepts (pre : List Event) : Event → Prop
  | .arrived _ => pending pre = false
  | .accepted n => pending pre = true ∧ n = min (tally pre).payload.length
      (rxSize - ((tally pre).kept.length - (tally pre).got.length))
  | _ => True

/-- The callback has a transfer that it has not written into the ring. -/
def CallbackPc.owes : CallbackPc → Bool
  | .entered _ | .submitted _ => true
  | _ => false

section Run

variable {hdr : Nat} {s s' : Port} {es : List Event} {q staged : List UInt8} {l : Label}

/-- Which step shows which event. -/
inductive Emits (hdr : Nat) (s : Port) : Label → Event → Prop
  | stopped {l : Label} (hreader : ∀ timeout, l ≠ .reader timeout) : Emits hdr s l .stopped
  | arrived (nbytes : Int) (payload : List UInt8) :
      Emits hdr s (.complete nbytes) (.arrived payload)
  | accepted (ret : Int) {n : Nat} (hpc : s.callback = .submitted n) :
      Emits hdr s (.callback ret)
        (.accepted (startWrite s.rb (UInt32.ofNat (n - hdr))).size.toNat)
  | got (timeout : Bool) (bytes : List UInt8) : Emits hdr s (.reader timeout) (.got bytes)
  | reset (ret : Int) : Emits hdr s (.control ret) .reset
  | armed (ret : Int) : Emits hdr s (.control ret) .armed

/-- Every step shows one event at most. -/
theorem emit_cases (hdr : Nat) (s : Port) (l : Label) :
    emit hdr s l = [] ∨ ∃ e, emit hdr s l = [e] ∧ Emits hdr s l e := by
  cases l with
  | complete nbytes =>
    rw [emit]
    split
    · exact Or.inl rfl
    · split
      · exact Or.inr ⟨_, rfl, .stopped fun _ => Label.noConfusion⟩
      · exact Or.inr ⟨_, rfl, .arrived nbytes _⟩
  | callback ret =>
    rw [emit]
    split
    · split
      · exact Or.inr ⟨_, rfl, .stopped fun _ => Label.noConfusion⟩
      · exact Or.inl rfl
    · next n hpc => exact Or.inr ⟨_, rfl, .accepted ret hpc⟩
    · exact Or.inl rfl
  | reader timeout =>
    rw [emit]
    split
    · split
      · exact Or.inl rfl
      · exact Or.inr ⟨_, rfl, .got timeout _⟩
    · exact Or.inl rfl
  | control ret =>
    rw [emit]
    split
    · split
      · exact Or.inr ⟨_, rfl, .stopped fun _ => Label.noConfusion⟩
      · exact Or.inl rfl
    · exact Or.inr ⟨_, rfl, .reset ret⟩
    · split
      · exact Or.inl rfl
      · exact Or.inr ⟨_, rfl, .armed ret⟩
    · exact Or.inl rfl
  | _ => exact Or.inl rfl

theorem Emits.of_mem {e : Event} (h : e ∈ emit hdr s l) : Emits hdr s l e := by
  rcases emit_cases hdr s l with hnone | ⟨e', hone, hemits⟩
  · rw [hnone] at h
    cases h
  · rw [hone] at h
    exact List.mem_singleton.1 h ▸ hemits

theorem eachAfter_emit {P : List Event → Event → Prop} (hes : EachAfter P es)
    (h : ∀ e ∈ emit hdr s l, P es e) : EachAfter P (es ++ emit hdr s l) := by
  rcases emit_cases hdr s l with hnone | ⟨e, hone, -⟩
  · rw [hnone, List.append_nil]
    exact hes
  · rw [hone] at h ⊢
    exact eachAfter_concat.2 ⟨hes, h e List.mem_cons_self⟩

theorem emit_reader (hdr : Nat) (s : Port) (timeout : Bool) :
    emit hdr s (.reader timeout) = [] ∨ ∃ bytes, emit hdr s (.reader timeout) = [.got bytes] := by
  refine (emit_cases hdr s (.reader timeout)).imp_right ?_
  rintro ⟨e, hone, hemits⟩
  cases hemits with
  | stopped hreader => exact absurd rfl (hreader timeout)
  | got _ bytes => exact ⟨bytes, hone⟩

/-- Only the step before `usb_ringbuffer_write` shows that something is accepted. -/
theorem accepted_mem {n : Nat} (h : Event.accepted n ∈ emit hdr s l) : ∃ m,
    s.callback = .submitted m ∧ n = (startWrite s.rb (UInt32.ofNat (m - hdr))).size.toNat := by
  cases Emits.of_mem h with
  | accepted ret hpc => exact ⟨_, hpc, rfl⟩

/-- Only the interrupt shows that a transfer arrives. -/
theorem arrived_mem {payload : List UInt8} (h : Event.arrived payload ∈ emit hdr s l) :
    ∃ nbytes, l = .complete nbytes := by
  cases Emits.of_mem h with
  | arrived nbytes => exact ⟨nbytes, rfl⟩

theorem readerStep_same {timeout : Bool} (hstep : readerStep s timeout = some s') :
    s'.urb = s.urb ∧ s'.callback = s.callback := by
  unfold CherryRx.readerStep at hstep
  split at hstep
  · cases hstep
  · split at hstep <;> cases hstep <;> exact ⟨rfl, rfl⟩
  · split at hstep <;> split at hstep <;> cases hstep <;> exact ⟨rfl, rfl⟩
  · split at hstep <;> cases hstep <;> exact ⟨rfl, rfl⟩
  · cases hstep
    exact ⟨rfl, rfl⟩
  · split at hstep
    · cases hstep
      unfold copyOut
      split <;> exact ⟨rfl, rfl⟩
    · cases hstep
      exact ⟨rfl, rfl⟩

theorem completeStep_idle {nbytes : Int} (hstep : completeStep hdr s nbytes = some s') :
    s.callback = .idle := by
  unfold completeStep at hstep
  split at hstep
  · next hpc => exact hpc
  · cases hstep

/-- The interrupt brings a transfer that the callback then has. -/
theorem owes_complete {nbytes : Int} (hstep : completeStep hdr s nbytes = some s') :
    s'.callback.owes = pending (es ++ emit hdr s (.complete nbytes)) := by
  unfold completeStep at hstep
  split at hstep
  · next half hurb hpc =>
    rw [emit, hurb]
    dsimp only
    split at hstep
    · next hneg =>
      cases hstep
      rw [if_pos (by omega), pending_append]
      rfl
    · split at hstep
      · next hshort =>
        cases hstep
        rw [if_pos hshort, pending_append]
        rfl
      · next hneg hshort =>
        split at hstep
        · cases hstep
          rw [if_neg hshort, pending_append]
          rfl
        · cases hstep
  · cases hstep

/-- The callback writes it into the ring, or has not submitted the URB again. -/
theorem owes_callback (howes : s.callback.owes = pending es)
    (hurb : ∀ n, s.callback = .entered n → s.urb = none) {ret : Int}
    (hstep : callbackStep hdr s ret = some s') :
    s'.callback.owes = pending (es ++ emit hdr s (.callback ret)) := by
  unfold CherryRx.callbackStep at hstep
  rw [emit]
  cases hpc : s.callback with
  | idle =>
    rw [hpc] at hstep
    cases hstep
  | entered n =>
    rw [hpc] at hstep howes
    rw [hurb n hpc] at hstep ⊢
    dsimp only at hstep ⊢
    rw [if_neg (by decide)] at hstep
    split at hstep
    · next hneg =>
      cases hstep
      rw [if_pos ⟨rfl, hneg⟩, pending_append]
      rfl
    · next hneg =>
      cases hstep
      rw [if_neg fun hand => hneg hand.2, List.append_nil]
      exact howes
  | submitted n =>
    rw [hpc] at hstep
    cases hstep
    rw [pending_append]
    rfl
  | copying half c =>
    rw [hpc] at hstep howes
    dsimp only at hstep ⊢
    rw [List.append_nil]
    split at hstep
    · cases hstep
      unfold copyIn
      split
      · rw [hpc]
        exact howes
      · split
        · rw [hpc]
          exact howes
        · exact howes
    · cases hstep
      exact howes
  | _ =>
    rw [hpc] at hstep howes
    cases hstep
    dsimp only
    rw [List.append_nil]
    exact howes

/-- `SET_ATTR` kills no URB whose transfer the callback has. -/
theorem owes_control (howes : s.callback.owes = pending es) {ret : Int}
    (hquiet : Quiet s (.control ret)) (hstep : controlStep s ret = some s') :
    s'.callback.owes = pending (es ++ emit hdr s (.control ret)) := by
  have hsame : s'.callback = s.callback := by
    unfold CherryRx.controlStep at hstep
    repeat' split at hstep
    all_goals cases hstep
    all_goals rfl
  rw [hsame, emit]
  split
  · next hpc =>
    split
    · rw [pending_append, hquiet.1 hpc]
      rfl
    · rw [List.append_nil]
      exact howes
  · rw [pending_append]
    exact howes
  · split
    · rw [List.append_nil]
      exact howes
    · rw [pending_append]
      exact howes
  · rw [List.append_nil]
    exact howes

/-- What has arrived and is not done with is what the callback has in hand. -/
theorem Good.owes (h : Good hdr s (tally es) q staged) (howes : s.callback.owes = pending es)
    (hquiet : Quiet s l) (hstep : (rx hdr).step s l = some s') :
    s'.callback.owes = pending (es ++ emit hdr s l) := by
  cases l with
  | dma content =>
    obtain ⟨half, -, rfl⟩ := Option.map_eq_some_iff.1 hstep
    exact howes.trans (congrArg pending (List.append_nil es).symm)
  | complete nbytes => exact owes_complete hstep
  | callback ret =>
    refine owes_callback howes (fun n hpc => ?_) hstep
    have hu := h.urb
    unfold UrbOk at hu
    rw [hpc] at hu
    exact hu
  | read buflen =>
    have hread : readStep s buflen = some s' := hstep
    simp only [readStep] at hread
    split at hread
    · cases hread
      exact howes.trans (congrArg pending (List.append_nil es).symm)
    · cases hread
  | reader timeout =>
    rw [(readerStep_same hstep).2]
    rcases emit_reader hdr s timeout with heq | ⟨bytes, heq⟩
    · rw [heq, List.append_nil]
      exact howes
    · rw [heq, pending_append]
      exact howes
  | setAttr =>
    have hset : (if s.control = .idle then some { s with control := .kill } else none) =
      some s' := hstep
    split at hset
    · cases hset
      exact howes.trans (congrArg pending (List.append_nil es).symm)
    · cases hset
  | control ret => exact owes_control howes hquiet hstep

/-- A transfer arrives when the callback has none, and is accepted when it has it. -/
theorem accepts_emit (h : Good hdr s (tally es) q staged) (howes : s.callback.owes = pending es)
    (hstep : (rx hdr).step s l = some s') (hes : EachAfter Accepts es) :
    EachAfter Accepts (es ++ emit hdr s l) := by
  refine eachAfter_emit hes fun e he => ?_
  cases e with
  | arrived payload =>
    obtain ⟨nbytes, rfl⟩ := arrived_mem he
    show pending es = false
    rw [← howes, completeStep_idle hstep]
    rfl
  | accepted n =>
    obtain ⟨m, hpc, rfl⟩ := accepted_mem he
    have hc := h.callback
    unfold CallbackOk at hc
    rw [hpc] at hc howes
    obtain ⟨-, hkept, hbrought⟩ := hc
    have hcalm := h.calm_of_callback (by rw [hpc]; exact CallbackPc.noConfusion)
    obtain ⟨-, -, hsize⟩ :=
      (h.ring (not_resetOut_of_calm hcalm)).startWrite (UInt32.ofNat (m - hdr))
    have hm : (UInt32.ofNat (m - hdr)).toNat = m - hdr := by
      have hle : m ≤ 512 := hbrought.le_packet
      rw [UInt32.toNat_ofNat']
      omega
    refine ⟨howes.symm, ?_⟩
    rw [hsize, hm, hbrought.length_eq, hkept, List.length_append, Nat.add_sub_cancel_left]
  | _ => trivial

/-- Every state of a quiet run. -/
theorem reaches_rxInv {pool : Buf UInt8 rxSize} {io : Bool → Buf UInt8 packetSize}
    {p : Port × List Event}
    (h : ((rx hdr).record (emit hdr)).Reaches (fun p l => Quiet p.1 l) (opened pool io, []) p) :
    RxInv hdr p ∧ p.1.callback.owes = pending p.2 ∧ EachAfter Accepts p.2 := by
  refine Machine.Reaches.invariant
    (I := fun p => RxInv hdr p ∧ p.1.callback.owes = pending p.2 ∧ EachAfter Accepts p.2) h
    ⟨rxInv_opened hdr pool io, rfl, eachAfter_nil⟩ ?_
  rintro p l p' ⟨⟨q, staged, hgood⟩, howes, hes⟩ hquiet hstep
  obtain ⟨hnext, hhist⟩ := Machine.record_step hstep
  obtain ⟨q', staged', hgood'⟩ := hgood.step hquiet hnext
  rw [← tally_append, ← hhist] at hgood'
  refine ⟨⟨q', staged', hgood'⟩, ?_⟩
  rw [hhist]
  exact ⟨hgood.owes howes hquiet hnext, accepts_emit hgood howes hnext hes⟩

/-- What was read is the beginning of what was accepted. -/
theorem Good.got_isPrefix {t : Tally} (h : Good hdr s t q staged) : t.got <+: t.kept := by
  have hc := h.callback
  unfold CallbackOk at hc
  split at hc
  · exact ⟨q, hc.2.1.symm⟩
  · exact ⟨q, hc.2.1.symm⟩
  · obtain ⟨-, -, -, -, -, -, -, hkept⟩ := hc
    exact ⟨_, hkept.symm⟩
  · exact ⟨q, hc.2.symm⟩

end Run

/-- In every quiet run, whatever the interrupt, the reader and `SET_ATTR` do and in whatever
order: no access leaves a buffer; what was read since the ring was last emptied is the beginning
of what was accepted since then, in order; and of every transfer, before the next one arrives and
before its callback has returned, is accepted what the ring had room for, unless the URB has
stopped. -/
theorem reads_what_was_accepted (hdr : Nat) (pool : Buf UInt8 rxSize)
    (io : Bool → Buf UInt8 packetSize) (p : Port × List Event)
    (h : ((rx hdr).record (emit hdr)).Reaches (fun p l => Quiet p.1 l)
      (opened pool io, []) p) :
    p.1.fault = false ∧ (tally p.2).got <+: (tally p.2).kept ∧ EachAfter Accepts p.2 ∧
      (p.1.callback = .idle → pending p.2 = false) := by
  obtain ⟨⟨q, staged, hgood⟩, howes, hes⟩ := reaches_rxInv h
  refine ⟨hgood.fault, hgood.got_isPrefix, hes, fun hidle => ?_⟩
  rw [← howes, hidle]
  rfl

theorem length_zeros (n : Nat) : (List.replicate n (0 : UInt8)).length = n :=
  List.length_replicate

/-- Buffers of zeros, and a packet of three bytes. -/
def zeros (n : Nat) : Buf UInt8 n := ⟨List.replicate n 0, length_zeros n⟩

theorem length_packet : ([7, 8, 9] ++ List.replicate 509 (0 : UInt8)).length = packetSize := by
  rw [List.length_append, List.length_replicate]
  rfl

def packet : Buf UInt8 packetSize := ⟨[7, 8, 9] ++ List.replicate 509 0, length_packet⟩

/-- `SET_ATTR` from its call to its return, a transfer of three bytes, and a read. -/
def receive : List Label :=
  .setAttr :: (List.replicate 8 (Label.control 0) ++ Label.dma packet :: .complete 3 ::
    (List.replicate 9 (Label.callback 0) ++ Label.read 512 :: List.replicate 6 (.reader false)))

/-- The three bytes are read. -/
theorem reads_what_was_accepted_packet :
    ∃ p : Port × List Event, (tally p.2).got = [7, 8, 9] ∧
      p.1.fault = false ∧ (tally p.2).got <+: (tally p.2).kept ∧ EachAfter Accepts p.2 ∧
        (p.1.callback = .idle → pending p.2 = false) := by
  obtain ⟨p, hrun, hgot⟩ : ∃ p, ((rx 0).record (emit 0)).Reaches (fun p l => Quiet p.1 l)
      (opened (zeros _) fun _ => zeros _, []) p ∧ (tally p.2).got = [7, 8, 9] :=
    Machine.exists_reaches_of_runIf _ _ _ _ receive (by decide)
  exact ⟨p, hgot, reads_what_was_accepted 0 _ _ p hrun⟩

/-- A reader that sleeps with no callback on its way to wake it has got everything that was
accepted since the ring was last emptied. -/
theorem sleeper_has_all (hdr : Nat) (pool : Buf UInt8 rxSize)
    (io : Bool → Buf UInt8 packetSize) (p : Port × List Event)
    (h : ((rx hdr).record (emit hdr)).Reaches (fun p l => Quiet p.1 l)
      (opened pool io, []) p)
    (buflen : UInt32) (hwait : p.1.reader = .waiting buflen) (hsem : p.1.sem = false)
    (hcallback : p.1.callback = .idle) (hcontrol : p.1.control ≠ .resetOut) :
    p.1.rb.getUsed = 0 ∧ (tally p.2).got = (tally p.2).kept := by
  obtain ⟨⟨q, staged, hgood⟩, -, -⟩ := reaches_rxInv h
  have hnot : ¬ Announced p.1 := by
    rintro (heq | heq | heq) <;> rw [hcallback] at heq <;> cases heq
  have hq : q = [] := by
    rcases hgood.wake_idle hcontrol hnot hwait with hq | hup
    · exact hq
    · rw [hsem] at hup
      cases hup
  have hused := (hgood.ring hcontrol).used
  have hkept := (hgood.callback_idle hcallback).2
  rw [hq] at hused hkept
  exact ⟨UInt32.toNat_inj.1 hused, by rw [hkept, List.append_nil]⟩

/-- The reader takes the semaphore of the transfer it has read already, and sleeps. -/
theorem sleeper_has_all_packet :
    ∃ p : Port × List Event, p.1.rb.getUsed = 0 ∧ (tally p.2).got = (tally p.2).kept := by
  obtain ⟨p, hrun, hwait, hsem, hcallback, hcontrol⟩ :
      ∃ p, ((rx 0).record (emit 0)).Reaches (fun p l => Quiet p.1 l)
        (opened (zeros _) fun _ => zeros _, []) p ∧ p.1.reader = .waiting 512 ∧
        p.1.sem = false ∧ p.1.callback = .idle ∧ p.1.control ≠ .resetOut :=
    Machine.exists_reaches_of_runIf _ _ _ _
      [receive, [.read 512], List.replicate 5 (.reader false), [.read 512, .reader false]].flatten
      (by decide)
  exact ⟨p, sleeper_has_all 0 _ _ p hrun 512 hwait hsem hcallback hcontrol⟩

end Cdc2Net.Source.CherryRx
