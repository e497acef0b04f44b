import Mathlib.Algebra.Order.Monoid.Unbundled.Basic
import Mathlib.Order.Basic

/-! When a quotient stays what it was although the divisor has changed, or although
only a remainder of the dividend was kept. -/
namespace Quotients

/-- A quotient stays the same when the divisor is increased by one, just if it is at
most the remainder. -/
theorem div_succ_eq_iff (x : Nat) {n : Nat} (hn : 0 < n) : x / (n + 1) = x / n ↔ x / n ≤ x % n := by
  have hSplit := Nat.div_add_mod x n
  have hRest := Nat.mod_lt x hn
  generalize x / n = q at hSplit ⊢
  generalize x % n = r at hSplit hRest ⊢
  have hNext : q * (n + 1) = n * q + q := by rw [Nat.mul_succ, Nat.mul_comm]
  constructor
  · intro hSame
    have hLe := Nat.div_mul_le_self x (n + 1)
    rw [hSame, hNext] at hLe
    omega
  · intro hLe
    apply Nat.div_eq_of_lt_le
    · omega
    · rw [Nat.succ_mul, hNext]
      omega

/-- The same when only the remainder of the dividend by `m` is kept. -/
theorem mod_div_succ_eq_iff (x : Nat) {m n : Nat} (hn : 0 < n) (hFew : n * n ≤ m) :
    x % m / (n + 1) = x / n ↔ x < m ∧ x / n ≤ x % n := by
  by_cases hSmall : x < m
  · rw [Nat.mod_eq_of_lt hSmall, div_succ_eq_iff x hn]
    exact (and_iff_right hSmall).symm
  · apply iff_of_false (Nat.ne_of_lt ?_) fun h => hSmall h.1
    have hLe := Nat.div_mul_le_self (x % m) (n + 1)
    have hMod := Nat.mod_lt x (Nat.lt_of_lt_of_le (Nat.mul_pos hn hn) hFew)
    generalize x % m / (n + 1) = a at hLe ⊢
    rw [Nat.lt_iff_add_one_le, Nat.le_div_iff_mul_le hn]
    rcases Nat.lt_or_ge a n with hLt | hGe
    · have hProduct : (a + 1) * n ≤ n * n := Nat.mul_le_mul_right n hLt
      omega
    · rw [Nat.succ_mul]
      rw [Nat.mul_succ] at hLe
      omega

/-- A quotient of a remainder by no less than the divisor is that of the number only
if the remainder is the number. -/
theorem mod_div_eq_iff (x : Nat) {m d : Nat} (hd : 0 < d) (hLe : d ≤ m) : x % m / d = x / d ↔ x < m := by
  constructor
  · intro hSame
    by_contra hLarge
    have hRest : x % m + d ≤ x := by
      have hFewer := Nat.mod_add_div x m
      have hOnce : m * 1 ≤ m * (x / m) :=
        Nat.mul_le_mul_left m (Nat.div_pos (Nat.le_of_not_lt hLarge) (Nat.lt_of_lt_of_le hd hLe))
      omega
    have hLess : x % m / d < x / d :=
      calc x % m / d < x % m / d + 1 := Nat.lt_succ_self _
        _ = (x % m + d) / d := (Nat.add_div_right _ hd).symm
        _ ≤ x / d := Nat.div_le_div_right hRest
    exact hLess.ne hSame
  · intro hSmall
    rw [Nat.mod_eq_of_lt hSmall]

end Quotients
