import Mathlib.Logic.Basic

/-! A loop over the indices `0, 1, ...` whose body changes a state and may stop
the loop. -/
namespace Scan

universe u v

variable {σ : Type u} {ε : Type v}

/-- The loop's first `n` passes. -/
def upTo (body : Nat → σ → Except ε σ) (s : σ) : Nat → Except ε σ
  | 0 => .ok s
  | n + 1 =>
      match upTo body s n with
      | .error e => .error e
      | .ok s' => body n s'

variable {body : Nat → σ → Except ε σ} {s s' : σ} {n : Nat}

theorem upTo_succ_of_ok (h : upTo body s n = .ok s') : upTo body s (n + 1) = body n s' := by
  rw [upTo, h]

/-- A loop that has got through its first passes got through all but the last of them. -/
theorem upTo_succ_eq_ok (h : upTo body s (n + 1) = .ok s') :
    ∃ mid, upTo body s n = .ok mid ∧ body n mid = .ok s' := by
  cases hMid : upTo body s n with
  | error e =>
      rw [upTo, hMid] at h
      cases h
  | ok mid => exact ⟨mid, rfl, (upTo_succ_of_ok hMid).symm.trans h⟩

/-- Where a pass stops the loop, all that follow are left out. -/
theorem upTo_error_of_le {e : ε} {m : Nat} (h : upTo body s m = .error e) (hLe : m ≤ n) :
    upTo body s n = .error e := by
  induction hLe with
  | refl => exact h
  | step hLe ih => rw [upTo, ih]

section
variable {Inv Spoilt : Nat → σ → Prop} {Good : Nat → Prop} (hStart : Inv 0 s)
  (hGood : ∀ i < n, ∀ s, Inv i s → Good i → ∃ s', body i s = .ok s' ∧ Inv (i + 1) s')

include hStart hGood

/-- If all passes are good, the loop gets through and keeps the invariant. -/
theorem upTo_good (h : ∀ i < n, Good i) : ∃ s', upTo body s n = .ok s' ∧ Inv n s' := by
  induction n with
  | zero => exact ⟨s, rfl, hStart⟩
  | succ n ih =>
      obtain ⟨mid, hMid, hInv⟩ := ih (fun i hi => hGood i (Nat.lt_succ_of_lt hi))
        fun i hi => h i (Nat.lt_succ_of_lt hi)
      obtain ⟨s', hLast, hNext⟩ := hGood n (Nat.lt_succ_self n) mid hInv (h n (Nat.lt_succ_self n))
      exact ⟨s', (upTo_succ_of_ok hMid).trans hLast, hNext⟩

/-- If one pass is not good, and what it spoils stays so, the loop does not get
through with nothing spoilt. -/
theorem upTo_bad (hBad : ∀ i < n, ∀ s s', Inv i s → ¬ Good i → body i s = .ok s' → Spoilt (i + 1) s')
    (hStays : ∀ i < n, ∀ s s', Spoilt i s → body i s = .ok s' → Spoilt (i + 1) s')
    (h : ¬ ∀ i < n, Good i) (hOk : upTo body s n = .ok s') : Spoilt n s' := by
  induction n generalizing s' with
  | zero => exact absurd (fun i hi => absurd hi (Nat.not_lt_zero i)) h
  | succ n ih =>
      have hBefore : ∀ i < n, i < n + 1 := fun i hi => Nat.lt_succ_of_lt hi
      have hHere := Nat.lt_succ_self n
      obtain ⟨mid, hMid, hLast⟩ := upTo_succ_eq_ok hOk
      by_cases hAll : ∀ i < n, Good i
      · obtain ⟨mid', hMid', hInv⟩ := upTo_good hStart (fun i hi => hGood i (hBefore i hi)) hAll
        obtain rfl : mid = mid' := Except.ok.inj (hMid.symm.trans hMid')
        have hNot : ¬ Good n := fun hn => h fun i hi =>
          (Nat.lt_succ_iff_lt_or_eq.mp hi).elim (hAll i) fun he => he ▸ hn
        exact hBad n hHere mid s' hInv hNot hLast
      · have hSpoilt := ih (fun i hi => hGood i (hBefore i hi)) (fun i hi => hBad i (hBefore i hi))
          (fun i hi => hStays i (hBefore i hi)) hAll hMid
        exact hStays n hHere mid s' hSpoilt hLast

end

end Scan
