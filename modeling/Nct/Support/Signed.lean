import Mathlib.Data.UInt

/-! Signed and unsigned numbers of 64 bits, as integers. -/
namespace Signed

theorem toUInt64_toNat (x : Int64) : (x.toUInt64.toNat : Int) = x.toInt % 2 ^ 64 := by
  have hBits : (x.toUInt64.toNat : Int) % (2 ^ 64 : Nat) = x.toInt % (2 ^ 64 : Nat) := by
    rw [← Int64.toInt_toBitVec, ← Int64.toNat_toBitVec, BitVec.toInt_eq_toNat_bmod, Int.bmod_emod]
  have hSmall : (x.toUInt64.toNat : Int) < 2 ^ 64 := by exact_mod_cast x.toUInt64.toNat_lt
  rw [← Int.emod_eq_of_lt (Int.natCast_nonneg x.toUInt64.toNat) hSmall]
  exact_mod_cast hBits

theorem toInt64_toInt (w : UInt64) : w.toInt64.toInt = (w.toNat : Int).bmod (2 ^ 64) :=
  BitVec.toInt_eq_toNat_bmod w.toBitVec

theorem ofInt_toNat (x : Int) : ((UInt64.ofInt x).toNat : Int) = x % 2 ^ 64 := by
  rw [UInt64.ofInt, UInt64.toNat_ofNat', Int.natCast_mod, Int.toNat_of_nonneg (Int.emod_nonneg x (by decide))]
  exact Int.emod_emod_of_dvd x (Int.dvd_refl _)

theorem sub_toNat (a b : UInt64) : ((a - b).toNat : Int) = ((a.toNat : Int) - b.toNat) % 2 ^ 64 := by
  have hb := b.toNat_lt
  rw [UInt64.toNat_sub, Int.natCast_mod, Int.natCast_add, Int.natCast_sub (Nat.le_of_lt hb)]
  omega

theorem mul_toUInt64_toNat (x y : Int64) :
    ((x * y).toUInt64.toNat : Int) = x.toInt * y.toInt % 2 ^ 64 := by
  rw [toUInt64_toNat, Int64.toInt_mul]
  exact_mod_cast Int.bmod_emod (m := 2 ^ 64)

end Signed
