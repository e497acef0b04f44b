import Mathlib.Order.Defs.PartialOrder

/-! A row of deadlines, which events meet one by one: an event meets the next
deadline if this is due then. -/
namespace Deadlines

universe u

variable {Event : Type u}

variable (due : Nat → Event → Prop) [∀ k x, Decidable (due k x)] (events : Nat → Event)

/-- How many deadlines have been met before event `i`. -/
def met : Nat → Nat
  | 0 => 0
  | i + 1 => if due (met i) (events i) then met i + 1 else met i

/-- Deadline `k` has not been met before event `i`: it was not due at the event
before, or this is the first event. -/
def Open : Nat → Nat → Prop
  | 0, k => k = 0
  | i + 1, k => ¬ due k (events i)

/-- Some deadline was open at an earlier event, and since then more deadlines have
come due than there have been events. -/
def Behind (i : Nat) : Prop :=
  ∃ h ≤ i, ∃ k, Open due events h k ∧ ∀ k' ≤ k + (i - h), due k' (events i)

theorem met_succ_le (i : Nat) : met due events (i + 1) ≤ met due events i + 1 := by
  rw [met]
  split <;> omega

theorem met_add_le (h n : Nat) : met due events (h + n) ≤ met due events h + n := by
  induction n with
  | zero => exact Nat.le_refl _
  | succ n ih =>
      have hStep := met_succ_le due events (h + n)
      rw [← Nat.add_assoc]
      omega

/-- Every deadline met was due at the event that met it. -/
theorem exists_due_of_lt_met {i k : Nat} (h : k < met due events i) :
    ∃ j < i, due k (events j) := by
  induction i with
  | zero => cases h
  | succ i ih =>
      by_cases hk : k < met due events i
      · obtain ⟨j, hj, hDue⟩ := ih hk
        exact ⟨j, Nat.lt_succ_of_lt hj, hDue⟩
      · rw [met] at h
        split at h
        · next hDue =>
            obtain rfl : k = met due events i := by omega
            exact ⟨i, Nat.lt_succ_self i, hDue⟩
        · exact absurd h hk

/-- Up to an event that meets a deadline goes a stretch of events that all do. -/
theorem exists_stretch (n : Nat) :
    ∃ h ≤ n, ∃ k, Open due events h k ∧ met due events n = k + (n - h) := by
  induction n with
  | zero => exact ⟨0, Nat.le_refl 0, 0, rfl, rfl⟩
  | succ n ih =>
      by_cases hDue : due (met due events n) (events n)
      · obtain ⟨h, hh, k, hOpen, hMet⟩ := ih
        refine ⟨h, Nat.le_succ_of_le hh, k, hOpen, ?_⟩
        rw [met, if_pos hDue, hMet]
        omega
      · refine ⟨n + 1, Nat.le_refl _, met due events n, hDue, ?_⟩
        rw [met, if_neg hDue]
        omega

section
variable {due events} {i : Nat} (hLater : ∀ k a b, a ≤ b → b ≤ i → due k (events a) → due k (events b))

include hLater

theorem met_le_of_open {h k : Nat} (hi : h ≤ i) (hOpen : Open due events h k) :
    met due events h ≤ k := by
  cases h with
  | zero => exact Nat.zero_le k
  | succ h =>
      refine Nat.le_of_not_lt fun hMore => ?_
      obtain ⟨j, hj, hDue⟩ := exists_due_of_lt_met due events hMore
      exact hOpen (hLater k j h (Nat.le_of_lt_succ hj) (Nat.le_of_succ_le hi) hDue)

/-- If what is due stays due, an event meets a deadline just if it is behind. -/
theorem due_met_iff_behind : due (met due events i) (events i) ↔ Behind due events i := by
  constructor
  · intro hDue
    obtain ⟨h, hh, k, hOpen, hMet⟩ := exists_stretch due events i
    refine ⟨h, hh, k, hOpen, fun k' hk' => ?_⟩
    rw [← hMet] at hk'
    rcases Nat.lt_or_eq_of_le hk' with hLt | rfl
    · obtain ⟨j, hj, hEarlier⟩ := exists_due_of_lt_met due events hLt
      exact hLater k' j i (Nat.le_of_lt hj) (Nat.le_refl i) hEarlier
    · exact hDue
  · rintro ⟨h, hh, k, hOpen, hAll⟩
    have hMet : met due events i ≤ k + (i - h) := by
      have hSince := met_add_le due events h (i - h)
      have hThen := met_le_of_open hLater hh hOpen
      rw [Nat.add_sub_of_le hh] at hSince
      omega
    exact hAll _ hMet

end

end Deadlines
