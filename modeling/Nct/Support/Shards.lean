import Mathlib.Algebra.BigOperators.Group.Finset.Basic

/-! A sum kept in parts: each of `n` workers adds to a part of its own and hands
it in from time to time. -/
namespace Shards

open Finset (range)
open Function (update)

universe u

variable {M : Type u} [AddCommMonoid M] {n t : Nat}

/-- What has been handed in, and what the workers have yet to hand in. -/
def total (n : Nat) (shared : M) (own : Nat → M) : M := shared + ∑ t ∈ range n, own t

/-- One worker's part on its own. -/
theorem total_split (ht : t < n) (shared : M) (own : Nat → M) :
    total n shared own = shared + own t + ∑ u ∈ (range n).erase t, own u := by
  rw [total, add_assoc, Finset.add_sum_erase _ own (Finset.mem_range.mpr ht)]

theorem total_update (ht : t < n) (shared : M) (own : Nat → M) (x : M) :
    total n shared (update own t x) = shared + x + ∑ u ∈ (range n).erase t, own u := by
  have hOthers : ∑ u ∈ (range n).erase t, update own t x u = ∑ u ∈ (range n).erase t, own u :=
    Finset.sum_congr rfl fun u hu => Function.update_of_ne (Finset.ne_of_mem_erase hu) x own
  rw [total_split ht, hOthers, Function.update_self]

/-- A worker adds to its part. -/
theorem total_add (ht : t < n) (shared : M) (own : Nat → M) (x : M) :
    total n shared (update own t (own t + x)) = total n shared own + x := by
  rw [total_update ht, total_split ht shared own, ← add_assoc, add_right_comm]

/-- A worker hands its part in. -/
theorem total_flush (ht : t < n) (shared : M) (own : Nat → M) :
    total n (shared + own t) (update own t 0) = total n shared own := by
  rw [total_update ht, total_split ht shared own, add_zero]

/-- Once all have handed in their parts, the shared sum is the total. -/
theorem total_of_clear {own : Nat → M} (h : ∀ t < n, own t = 0) (shared : M) :
    total n shared own = shared := by
  rw [total, Finset.sum_eq_zero fun t ht => h t (Finset.mem_range.mp ht), add_zero]

end Shards
