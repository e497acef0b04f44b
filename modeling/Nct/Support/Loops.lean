import Mathlib.Logic.Basic

/-! `while` loops, for which some number of passes is enough. -/
namespace Loops

universe u

variable {σ : Type u}

/-- `while (cond) body`, or nothing if the loop has not ended after `fuel` passes. -/
def whileDo (cond : σ → Bool) (body : σ → σ) : Nat → σ → Option σ
  | 0, s => if cond s then none else some s
  | fuel + 1, s => if cond s then whileDo cond body fuel (body s) else some s

/-- A loop ends after `n` passes if an invariant that counts them says so. -/
theorem whileDo_counted (cond : σ → Bool) (body : σ → σ) (Inv : Nat → σ → Prop) (n : Nat)
    (hStep : ∀ k < n, ∀ s, Inv k s → cond s = true ∧ Inv (k + 1) (body s))
    (hEnd : ∀ s, Inv n s → cond s = false) (fuel : Nat) :
    ∀ k s, Inv k s → k ≤ n → n ≤ k + fuel → ∃ s', whileDo cond body fuel s = some s' ∧ Inv n s' := by
  induction fuel with
  | zero =>
      intro k s hInv hLe hFuel
      obtain rfl : k = n := Nat.le_antisymm hLe hFuel
      refine ⟨s, ?_, hInv⟩
      rw [whileDo, hEnd s hInv]
      rfl
  | succ fuel ih =>
      intro k s hInv hLe hFuel
      rcases Nat.lt_or_ge k n with hLt | hGe
      · obtain ⟨hCond, hNext⟩ := hStep k hLt s hInv
        rw [whileDo, if_pos hCond]
        apply ih (k + 1) (body s) hNext hLt
        rwa [Nat.add_right_comm, Nat.add_assoc]
      · obtain rfl : k = n := Nat.le_antisymm hLe hGe
        refine ⟨s, ?_, hInv⟩
        rw [whileDo, hEnd s hInv]
        rfl

end Loops
