import Cdc2Net.Lib.NorFlash
import Mathlib.Data.List.GetD

/-!
# Sequential writers on NOR flash

A writer fills a flash from address 0 on: it remembers how many sectors it has erased
and how many bytes it has written, erases what a write needs and programs behind the
last write. Erasing everything at the start and erasing sector by sector are both cases.

`Writer.Holds` is what a writer that has the flash for itself relies on; `start_holds`
and `append_holds` are its rules.
-/

set_option autoImplicit false

namespace Cdc2Net.Lib.NorFlash

/-- Erase the sectors `[first, last)` of `len` bytes. -/
def eraseSectors (len first last : Nat) (f : Flash) : Flash := fun a =>
  if len * first ≤ a ∧ a < len * last then erased else f a

/-- Program `bytes` from `start` on. -/
def programBytes (start : Nat) (bytes : List UInt8) (f : Flash) : Flash :=
  programRange (fun a => bytes.getD (a - start) 0) start bytes.length f

/-- The flash starts with `bytes`. -/
def StartsWith (f : Flash) (bytes : List UInt8) : Prop :=
  ∀ a < bytes.length, f a = bytes.getD a 0

/-- The sectors of `len` bytes that `n` bytes reach into. -/
def sectorsFor (len n : Nat) : Nat := (n + (len - 1)) / len

/-- A writer: the sectors erased and the bytes written. -/
structure Writer where
  sectors : Nat
  offset : Nat
  deriving DecidableEq, Repr

namespace Writer

/-- A writer that erases room for `n` bytes. -/
def start (len n : Nat) : Writer := ⟨sectorsFor len n, 0⟩

/-- The flash after the start. -/
def startFlash (len n : Nat) (f : Flash) : Flash := eraseSectors len 0 (sectorsFor len n) f

/-- The writer after `bytes`. -/
def append (len : Nat) (w : Writer) (bytes : List UInt8) : Writer :=
  ⟨max w.sectors (sectorsFor len (w.offset + bytes.length)), w.offset + bytes.length⟩

/-- The flash after `bytes`. -/
def appendFlash (len : Nat) (w : Writer) (bytes : List UInt8) (f : Flash) : Flash :=
  programBytes w.offset bytes (eraseSectors len w.sectors (w.append len bytes).sectors f)

/-- The flash holds what was written, and the rest of the erased sectors is erased. -/
structure Holds (len : Nat) (w : Writer) (f : Flash) (bytes : List UInt8) : Prop where
  offset : w.offset = bytes.length
  room : bytes.length ≤ len * w.sectors
  written : StartsWith f bytes
  clear : ∀ a, bytes.length ≤ a → a < len * w.sectors → f a = erased

end Writer

variable {len : Nat} {w : Writer} {f : Flash} {bytes c : List UInt8}

theorem le_sectorsFor (hlen : 0 < len) (n : Nat) : n ≤ len * sectorsFor len n := by
  have hdiv := Nat.div_add_mod (n + (len - 1)) len
  have hmod := Nat.mod_lt (n + (len - 1)) hlen
  rw [sectorsFor]
  omega

/-- Nothing has been written yet. -/
theorem Writer.start_holds (len n : Nat) (f : Flash) :
    (Writer.start len n).Holds len (Writer.startFlash len n f) [] where
  offset := rfl
  room := Nat.zero_le _
  written := fun a ha => absurd ha (Nat.not_lt_zero a)
  clear := fun a _ ha => if_pos ⟨Nat.zero_le a, ha⟩

/-- Appending keeps what is there and adds the bytes behind it. -/
theorem Writer.append_holds (hlen : 0 < len) (h : w.Holds len f bytes) (c : List UInt8) :
    (w.append len c).Holds len (w.appendFlash len c f) (bytes ++ c) := by
  obtain ⟨last, hlast⟩ : ∃ last, last = (w.append len c).sectors := ⟨_, rfl⟩
  obtain ⟨g, hg⟩ : ∃ g, g = eraseSectors len w.sectors last f := ⟨_, rfl⟩
  have hmore : w.sectors ≤ last := by
    rw [hlast]
    exact Nat.le_max_left _ _
  have hfit : bytes.length + c.length ≤ len * last := by
    refine le_trans (le_sectorsFor hlen (bytes.length + c.length)) (Nat.mul_le_mul_left len ?_)
    rw [hlast, Writer.append, ← h.offset]
    exact Nat.le_max_right _ _
  -- behind the bytes written everything up to the last sector is erased
  have hkeep : ∀ a < bytes.length, g a = f a := by
    intro a ha
    have hroom := h.room
    rw [hg, eraseSectors, if_neg (by omega)]
  have hclear : ∀ a, bytes.length ≤ a → a < len * last → g a = erased := by
    intro a ha hlt
    rw [hg, eraseSectors]
    split
    · rfl
    · next hnot => exact h.clear a ha (by omega)
  have hprog : ∀ a, w.appendFlash len c f a =
      if bytes.length ≤ a ∧ a < bytes.length + c.length then c.getD (a - bytes.length) 0
      else g a := by
    intro a
    rw [Writer.appendFlash, ← hlast, ← hg, programBytes, h.offset]
    exact programRange_erased (fun b hb hb' => hclear b hb (by omega)) a
  refine ⟨?_, ?_, ?_, ?_⟩
  · rw [Writer.append, List.length_append, h.offset]
  · rw [← hlast, List.length_append]
    exact hfit
  · intro a ha
    rw [List.length_append] at ha
    rw [hprog a]
    by_cases hold : a < bytes.length
    · rw [if_neg (by omega), hkeep a hold, List.getD_append _ _ _ _ hold]
      exact h.written a hold
    · rw [if_pos (by omega), List.getD_append_right _ _ _ _ (by omega)]
  · intro a ha hlt
    rw [List.length_append] at ha
    rw [← hlast] at hlt
    rw [hprog a, if_neg (by omega)]
    exact hclear a (by omega) hlt

end Cdc2Net.Lib.NorFlash
