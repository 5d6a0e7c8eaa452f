import Cdc2Net.Lib.FlashWriter

/-!
# The DFU bootloader of a CUL

The bootloader of the stick's ATmega32U4 behind the messages of `cul_dfu.c`: 32 KiB of flash
that a message erases by blocks of 16 KiB or as a whole, and programs from a start address to
an end address. Every transfer may fail or report an error, and a message may be carried out
in part only, which the bootloader reports (`Boot.good_of_status`).

A history of what was requested, erased and programmed is `Orderly` if no request exceeds the
transfer buffer and every byte was erased before it was programmed, and not programmed twice.
-/

set_option autoImplicit false

namespace Cdc2Net.Dfu

open Cdc2Net.Lib.NorFlash

/-- `ATMEL_CONTROL_BLOCK_SIZE`. -/
def controlBlockSize : Nat := 32
/-- `ATMEL_FOOTER_SIZE`. -/
def footerSize : Nat := 16
/-- `ATMEL_MAX_TRANSFER`. -/
def maxTransfer : Nat := 0x400
/-- `CTRL_BUF_BYTES` without the setup packet. -/
def ctrlBufBytes : Nat := controlBlockSize + maxTransfer + footerSize
/-- `DFU_STATE_DFU_ERROR`. -/
def dfuStateError : UInt8 := 0x0A

/-- What a message tells the bootloader to do. -/
inductive Command where
  | erase (start len : Nat)
  | program (start : Nat) (data : List UInt8)
  | other
  deriving DecidableEq, Repr

/-- A big-endian address. -/
def address (hi lo : UInt8) : Nat := hi.toNat * 256 + lo.toNat

/-- The Atmel messages: `04 00` erases by mode, `01 00` programs the data between the control
block and the footer to the addresses from start to end inclusive. -/
def decode (msg : List UInt8) : Command :=
  if msg = [0x04, 0x00, 0x00] then .erase 0 0x4000
  else if msg = [0x04, 0x00, 0x20] then .erase 0x4000 0x4000
  else if msg = [0x04, 0x00, 0xFF] then .erase 0 0x8000
  else if msg.take 2 = [0x01, 0x00] then
    let start := address (msg.getD 2 0) (msg.getD 3 0)
    let n := address (msg.getD 4 0) (msg.getD 5 0) + 1 - start
    if msg.length = controlBlockSize + n + footerSize then
      .program start ((msg.drop controlBlockSize).take n)
    else .other
  else .other

/-- What happens, for the record: `ctrl` is called with `len` bytes, a range is erased or
programmed. -/
inductive Event where
  | request (len : Nat)
  | erased (start len : Nat)
  | programmed (start len : Nat)
  deriving DecidableEq, Repr

/-- The flash, and whether the last message was carried out in full. -/
structure Boot where
  flash : Flash
  good : Bool

/-- How a transfer goes. -/
structure Outcome where
  /-- The message is carried out in full, or its first bytes only, or not at all. -/
  part : Option Nat
  /-- The transfer completes. -/
  returns : Bool
  /-- The bootloader is off the bus afterwards. -/
  gone : Bool
  /-- The answer to a `DFU_GETSTATUS`. -/
  status : UInt8
  state : UInt8
  /-- The answer to a `DFU_UPLOAD`. -/
  data : List UInt8

/-- The bytes that a message of `n` bytes has an effect on. -/
def extent (part : Option Nat) (n : Nat) : Nat := part.elim n (min n)

/-- Carry a message out. -/
def Boot.carryOut (b : Boot) (part : Option Nat) : Command → Boot
  | .erase start n => ⟨eraseSectors 1 start (start + extent part n) b.flash, part.isNone⟩
  | .program start data =>
    ⟨programBytes start (data.take (extent part data.length)) b.flash, part.isNone⟩
  | .other => ⟨b.flash, part.isNone⟩

/-- What it does to the flash. -/
def Command.events (part : Option Nat) : Command → List Event
  | .erase start n => [.erased start (extent part n)]
  | .program start data => [.programmed start (extent part data.length)]
  | .other => []

/-- The status it reports: good only if the last message was carried out in full. -/
def Boot.status (b : Boot) (o : Outcome) : UInt8 :=
  if b.good = false ∧ o.status = 0x00 then 0x0E else o.status

theorem Boot.good_of_status {b : Boot} {o : Outcome} (h : b.status o = 0x00) : b.good = true := by
  rw [Boot.status] at h
  split at h
  · cases h
  · next hs =>
    by_contra hb
    exact hs ⟨by simpa using hb, h⟩

theorem Boot.part_of_good {b : Boot} {part : Option Nat} {c : Command}
    (h : (b.carryOut part c).good = true) : part = none := by
  cases c <;> exact Option.isNone_iff_eq_none.1 h

/-! ## Histories -/

/-- The ranges that were programmed, in order. -/
def programs (es : List Event) : List (Nat × Nat) :=
  es.filterMap fun
    | .programmed s n => some (s, n)
    | _ => none

/-- A byte has been erased. -/
def ErasedAt (es : List Event) (a : Nat) : Prop :=
  ∃ s n, .erased s n ∈ es ∧ s ≤ a ∧ a < s + n

/-- A byte has been erased, and not been programmed. -/
def BlankAt (es : List Event) (a : Nat) : Prop :=
  ErasedAt es a ∧ ∀ q ∈ programs es, ¬ (q.1 ≤ a ∧ a < q.1 + q.2)

/-- A history in which every request fits the buffer and every byte that is programmed is
blank. -/
inductive Orderly : List Event → Prop where
  | nil : Orderly []
  | request {es : List Event} {n : Nat} (h : Orderly es) (hn : n ≤ ctrlBufBytes) :
    Orderly (es ++ [.request n])
  | erased {es : List Event} {s n : Nat} (h : Orderly es) : Orderly (es ++ [.erased s n])
  | programmed {es : List Event} {s n : Nat} (h : Orderly es)
    (hb : ∀ a, s ≤ a → a < s + n → BlankAt es a) : Orderly (es ++ [.programmed s n])

/-- Ranges that follow each other without a gap, from `a` to `b`. -/
def Contiguous (a : Nat) : List (Nat × Nat) → Nat → Prop
  | [], b => a = b
  | (s, n) :: rs, b => s = a ∧ Contiguous (a + n) rs b

section Laws

variable {es : List Event} {a b s n : Nat} {rs : List (Nat × Nat)}

@[simp] theorem programs_request : programs (es ++ [Event.request n]) = programs es := by
  simp [programs, List.filterMap_append]

@[simp] theorem programs_erased : programs (es ++ [Event.erased s n]) = programs es := by
  simp [programs, List.filterMap_append]

@[simp] theorem programs_programmed :
    programs (es ++ [Event.programmed s n]) = programs es ++ [(s, n)] := by
  simp [programs, List.filterMap_append]

theorem Contiguous.concat (h : Contiguous a rs b) : Contiguous a (rs ++ [(b, n)]) (b + n) := by
  induction rs generalizing a with
  | nil =>
    obtain rfl : a = b := h
    exact ⟨rfl, rfl⟩
  | cons q rs ih => exact ⟨h.1, ih h.2⟩

theorem Contiguous.le (h : Contiguous a rs b) : a ≤ b := by
  induction rs generalizing a with
  | nil => exact Nat.le_of_eq h
  | cons q rs ih => exact Nat.le_trans (Nat.le_add_right _ _) (ih h.2)

/-- Each of them ends before the end. -/
theorem Contiguous.end_le (h : Contiguous a rs b) : ∀ q ∈ rs, q.1 + q.2 ≤ b := by
  induction rs generalizing a with
  | nil => simp
  | cons q rs ih =>
    intro q' hq'
    rcases List.mem_cons.1 hq' with rfl | hq'
    · rw [h.1]
      exact h.2.le
    · exact ih h.2 q' hq'

/-- Contiguous ranges do not overlap. -/
theorem Contiguous.disjoint (h : Contiguous a rs b) :
    rs.Pairwise fun q r => q.1 + q.2 ≤ r.1 := by
  induction rs generalizing a with
  | nil => exact .nil
  | cons q rs ih =>
    refine .cons (fun r hr => ?_) (ih h.2)
    have hlow : ∀ {c : Nat} {ts : List (Nat × Nat)}, Contiguous c ts b → ∀ r ∈ ts, c ≤ r.1 := by
      intro c ts
      induction ts generalizing c with
      | nil => simp
      | cons t ts iht =>
        intro hc r hr
        rcases List.mem_cons.1 hr with rfl | hr
        · exact Nat.le_of_eq hc.1.symm
        · exact Nat.le_trans (Nat.le_add_right _ _) (iht hc.2 r hr)
    rw [h.1]
    exact hlow h.2 r hr

end Laws

end Cdc2Net.Dfu
