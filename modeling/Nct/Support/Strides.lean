import Mathlib.Data.Nat.ModEq

/-! Numbers a fixed stride apart, modulo a number that is coprime to the stride. -/
namespace Strides

/-- They come around just when their places are a multiple of the modulus apart. -/
theorem modEq_iff {m d : Nat} (hStride : Nat.Coprime m d) (x : Nat) {i j : Nat} (hLe : i ≤ j) :
    x + d * i ≡ x + d * j [MOD m] ↔ m ∣ j - i := by
  have hPlaces : x + d * i ≤ x + d * j := Nat.add_le_add_left (Nat.mul_le_mul_left d hLe) x
  have hApart : x + d * j - (x + d * i) = d * (j - i) := by
    rw [Nat.add_sub_add_left, Nat.mul_sub]
  rw [Nat.modEq_iff_dvd' hPlaces, hApart]
  exact hStride.dvd_mul_left

end Strides
