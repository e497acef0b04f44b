import Nct.Support.Run
import Mathlib.Algebra.BigOperators.Group.Finset.Basic

/-! Runs that cannot go on for ever: each step of them lowers a measure. -/
namespace Transition

universe u v w

variable {State : Type u} {Act : Type v}

/-- Exactly `n` steps that meet `ok`. -/
inductive Steps (step : State → Act → Option State) (ok : State → Act → Prop) (start : State) :
    Nat → State → Prop where
  | nil : Steps step ok start 0 start
  | snoc {n : Nat} {s s' : State} {act : Act} (prior : Steps step ok start n s) (hOk : ok s act)
      (last : step s act = some s') : Steps step ok start (n + 1) s'

variable {step : State → Act → Option State} {ok : State → Act → Prop} {start s s' : State}
  {n : Nat}

theorem Steps.run (steps : Steps step ok start n s) : Run step ok start s := by
  induction steps with
  | nil => exact .nil
  | snoc prior hOk last ih => exact ih.snoc hOk last

theorem Steps.trans {m : Nat} (first : Steps step ok start n s) (rest : Steps step ok s m s') :
    Steps step ok start (n + m) s' := by
  induction rest with
  | nil => exact first
  | snoc prior hOk last ih => exact ih.snoc hOk last

/-- An executed list of actions takes that many steps. -/
theorem Steps.of_exec [∀ s act, Decidable (ok s act)] {acts : List Act}
    (h : exec step ok s acts = some s') : Steps step ok s acts.length s' := by
  induction acts generalizing s with
  | nil =>
      cases h
      exact .nil
  | cons act acts ih =>
      rw [exec] at h
      split at h
      · next hOk =>
          split at h
          · next t hStep =>
              have hFirst : Steps step ok s 1 t := Steps.nil.snoc hOk hStep
              have hAll := hFirst.trans (ih h)
              rwa [Nat.add_comm] at hAll
          · cases h
      · cases h

/-- Such steps lead to a state that passes a test. -/
theorem Steps.of_exec_any [∀ s act, Decidable (ok s act)] (acts : List Act) {test : State → Prop}
    [DecidablePred test] (h : (exec step ok s acts).any (fun s' => decide (test s')) = true) :
    ∃ s', Steps step ok s acts.length s' ∧ test s' := by
  obtain ⟨s', hExec, hTest⟩ := (Option.any_eq_true _ _).mp h
  exact ⟨s', Steps.of_exec hExec, of_decide_eq_true hTest⟩

/-- Where every step lowers the measure there are no more steps than it admits. -/
theorem Steps.bounded {P : State → Prop} {m : State → Nat} (steps : Steps step ok start n s)
    (hStart : P start) (hStep : ∀ s act s', P s → ok s act → step s act = some s' → P s' ∧ m s' < m s) :
    P s ∧ n + m s ≤ m start := by
  induction steps with
  | nil => exact ⟨hStart, Nat.le_of_eq (Nat.zero_add _)⟩
  | snoc prior hOk last ih =>
      obtain ⟨hP, hBound⟩ := ih
      obtain ⟨hNext, hLess⟩ := hStep _ _ _ hP hOk last
      exact ⟨hNext, by omega⟩

/-- In a sum one summand changes. -/
theorem sum_changed {ι : Type w} [DecidableEq ι] {items : Finset ι} {i : ι} {f g : ι → Nat}
    (hi : i ∈ items) (h : ∀ j ∈ items, j ≠ i → g j = f j) :
    ∑ j ∈ items, g j + f i = ∑ j ∈ items, f j + g i := by
  have hg : g i + ∑ j ∈ items.erase i, g j = ∑ j ∈ items, g j := Finset.add_sum_erase items g hi
  have hf : f i + ∑ j ∈ items.erase i, f j = ∑ j ∈ items, f j := Finset.add_sum_erase items f hi
  have hRest : ∑ j ∈ items.erase i, g j = ∑ j ∈ items.erase i, f j :=
    Finset.sum_congr rfl fun j hj => h j (Finset.mem_of_mem_erase hj) (Finset.ne_of_mem_erase hj)
  omega

end Transition
