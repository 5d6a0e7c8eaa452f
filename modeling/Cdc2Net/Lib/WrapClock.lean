import Mathlib.Algebra.Group.Nat.Defs

/-!
# A millisecond clock of 32 bits

A clock shows the true time modulo 2^32. Two of its values that are less than 2^31 apart in
true time are ordered by the sign of their difference (`toInt_sub`), wherever the clock wraps.
-/

set_option autoImplicit false

namespace Cdc2Net.Lib.WrapClock

/-- What the clock shows at a true time. -/
def shown (t : Nat) : UInt32 := .ofNat t

theorem shown_add (t : Nat) (v : UInt32) : shown t + v = shown (t + v.toNat) := by
  rw [shown, shown, UInt32.ofNat_add, UInt32.ofNat_toNat]

/-- The signed difference is the true one. -/
theorem toInt_sub {t d : Nat} (hlate : t < d + 2 ^ 31) (hearly : d ≤ t + 2 ^ 31) :
    (shown t - shown d).toInt32.toInt = (t : Int) - d := by
  have hbits : (shown t - shown d).toInt32.toInt =
      (BitVec.ofNat 32 t - BitVec.ofNat 32 d).toInt := rfl
  rw [hbits, BitVec.toInt_sub, BitVec.toInt_ofNat', BitVec.toInt_ofNat', Int.sub_bmod_bmod,
    Int.bmod_sub_bmod]
  exact Int.bmod_eq_of_le (by omega) (by omega)

/-- Not before `d`. -/
theorem nonneg_sub_iff {t d : Nat} (hlate : t < d + 2 ^ 31) (hearly : d ≤ t + 2 ^ 31) :
    0 ≤ (shown t - shown d).toInt32 ↔ d ≤ t := by
  have hsub := toInt_sub hlate hearly
  rw [Int32.le_iff_toInt_le, hsub]
  change (0 : Int) ≤ (t : Int) - d ↔ d ≤ t
  omega

end Cdc2Net.Lib.WrapClock
