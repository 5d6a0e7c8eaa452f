import Mathlib.Logic.Function.Basic
import Mathlib.Data.Nat.Basic

/-!
# NOR flash

A flash memory is a function from addresses to bytes. An erase sets a sector to
0xFF; programming clears bits and never sets one, so a byte takes the programmed
value only on erased flash (`program_erased`). `trim` is the length up to the last
byte that is not erased.
-/

set_option autoImplicit false

namespace Cdc2Net.Lib.NorFlash

/-- The bytes of a flash memory. -/
abbrev Flash := Nat → UInt8

/-- An erased byte. -/
def erased : UInt8 := 0xFF

/-- Erase sector `k` of `len` bytes. -/
def eraseSector (len k : Nat) (f : Flash) : Flash := fun a =>
  if len * k ≤ a ∧ a < len * (k + 1) then erased else f a

/-- Program one byte: only bits that are set can change. -/
def program (f : Flash) (a : Nat) (b : UInt8) : Flash := Function.update f a (f a &&& b)

/-- Program the bytes of `src` in `[start, start + n)`, in ascending order. -/
def programRange (src : Flash) (start : Nat) : Nat → Flash → Flash
  | 0, f => f
  | n + 1, f => program (programRange src start n f) (start + n) (src (start + n))

/-- The length of `[0, n)` without its erased tail. -/
def trim (f : Flash) : Nat → Nat
  | 0 => 0
  | n + 1 => if f n = erased then trim f n else n + 1

variable {f src : Flash} {len k a b n : Nat}

theorem eraseSector_of_mem (h : len * k ≤ a) (h' : a < len * (k + 1)) :
    eraseSector len k f a = erased := if_pos ⟨h, h'⟩

theorem eraseSector_of_not_mem (h : a < len * k ∨ len * (k + 1) ≤ a) :
    eraseSector len k f a = f a := by
  refine if_neg ?_
  rintro ⟨hlo, hhi⟩
  omega

/-- Erasing sector `k` extends an erased range by one sector. -/
theorem eraseSector_prefix (h : ∀ a, a < len * k → f a = erased) :
    ∀ a, a < len * (k + 1) → eraseSector len k f a = erased := by
  intro a ha
  by_cases hlo : len * k ≤ a
  · exact eraseSector_of_mem hlo ha
  · rw [eraseSector_of_not_mem (Or.inl (by omega))]
    exact h a (by omega)

@[simp] theorem program_other (v : UInt8) (h : b ≠ a) : program f a v b = f b := by
  simp [program, h]

/-- On erased flash a byte takes the value programmed. -/
theorem program_erased (v : UInt8) (h : f a = erased) : program f a v a = v := by
  have hand : (0xFF : UInt8) &&& v = v := by
    rw [show (0xFF : UInt8) = -1 from rfl]
    exact UInt8.neg_one_and
  simp [program, h, erased, hand]

/-- A range programmed on erased flash holds the source, the rest is unchanged. -/
theorem programRange_erased {start : Nat} : ∀ {n : Nat},
    (∀ a, start ≤ a → a < start + n → f a = erased) → ∀ a,
      programRange src start n f a = if start ≤ a ∧ a < start + n then src a else f a
  | 0, _, a => by rw [if_neg (by omega)]; rfl
  | n + 1, h, a => by
      have ih := programRange_erased (n := n) fun a hlo hhi => h a hlo (by omega)
      by_cases ha : a = start + n
      · subst ha
        rw [programRange, program_erased, if_pos (by omega)]
        rw [ih, if_neg (by omega)]
        exact h _ (by omega) (by omega)
      · rw [programRange, program_other _ ha, ih]
        by_cases hin : start ≤ a ∧ a < start + n
        · rw [if_pos hin, if_pos (by omega)]
        · rw [if_neg hin, if_neg (by omega)]

theorem trim_le (f : Flash) : ∀ n, trim f n ≤ n
  | 0 => Nat.le_refl 0
  | n + 1 => by
      rw [trim]
      split
      · exact Nat.le_succ_of_le (trim_le f n)
      · exact Nat.le_refl _

/-- A byte that is not erased lies before the end of the trimmed range. -/
theorem lt_trim (ha : a < n) (h : f a ≠ erased) : a < trim f n := by
  induction n with
  | zero => omega
  | succ n ih =>
      rw [trim]
      split
      · next hn =>
        refine ih (Nat.lt_of_le_of_ne (Nat.le_of_lt_succ ha) ?_)
        rintro rfl
        exact h hn
      · exact ha

/-- The last byte of a trimmed range is not erased. -/
theorem trim_last (h : 0 < trim f n) : f (trim f n - 1) ≠ erased := by
  induction n with
  | zero => exact absurd h (Nat.lt_irrefl 0)
  | succ n ih =>
      rw [trim] at h ⊢
      split
      · next hn =>
        rw [if_pos hn] at h
        exact ih h
      · next hn => simpa using hn

/-- Behind a trimmed range all is erased. -/
theorem erased_of_trim_le (ha : a < n) (h : trim f n ≤ a) : f a = erased := by
  by_contra hne
  exact absurd (lt_trim ha hne) (Nat.not_lt.2 h)

/-- A range reaches past `m` exactly if a byte from `m` on is not erased. -/
theorem lt_trim_iff {m : Nat} : m < trim f n ↔ ∃ a, m ≤ a ∧ a < n ∧ f a ≠ erased := by
  constructor
  · intro h
    have hpos : 0 < trim f n := Nat.zero_lt_of_lt h
    have hle := trim_le f n
    exact ⟨trim f n - 1, by omega, by omega, trim_last hpos⟩
  · rintro ⟨a, hm, ha, hne⟩
    exact Nat.lt_of_le_of_lt hm (lt_trim ha hne)

end Cdc2Net.Lib.NorFlash
