import Mathlib.Logic.Basic

/-! Runs of a system given by a partial step function. Every step of a run
meets a condition on the state before it and on the action taken. -/
namespace Transition

universe u v

variable {State : Type u} {Act : Type v}

/-- The states reached from `start` by steps that meet `ok`. -/
inductive Run (step : State → Act → Option State) (ok : State → Act → Prop) (start : State) :
    State → Prop where
  | nil : Run step ok start start
  | snoc {s s' : State} {act : Act} (prior : Run step ok start s) (hOk : ok s act)
      (last : step s act = some s') : Run step ok start s'

variable {step : State → Act → Option State} {ok ok' : State → Act → Prop} {start s s' : State}

/-- What holds at first and is kept by every step holds in every state reached. -/
theorem Run.invariant {P : State → Prop} (run : Run step ok start s) (hStart : P start)
    (hStep : ∀ s act s', P s → ok s act → step s act = some s' → P s') : P s := by
  induction run with
  | nil => exact hStart
  | snoc prior hOk last ih => exact hStep _ _ _ ih hOk last

theorem Run.mono (run : Run step ok start s) (h : ∀ s act, ok s act → ok' s act) :
    Run step ok' start s := by
  induction run with
  | nil => exact .nil
  | snoc prior hOk last ih => exact ih.snoc (h _ _ hOk) last

theorem Run.trans (first : Run step ok start s) (rest : Run step ok s s') :
    Run step ok start s' := by
  induction rest with
  | nil => exact first
  | snoc prior hOk last ih => exact ih.snoc hOk last

/-- Take the listed actions one after another as long as each meets `ok`. -/
def exec (step : State → Act → Option State) (ok : State → Act → Prop)
    [∀ s act, Decidable (ok s act)] : State → List Act → Option State
  | s, [] => some s
  | s, act :: acts =>
      if ok s act then
        match step s act with
        | some s' => exec step ok s' acts
        | none => none
      else none

section
variable [∀ s act, Decidable (ok s act)]

/-- An executed list of actions is a run. -/
theorem Run.of_exec {acts : List Act} (h : exec step ok s acts = some s') : Run step ok s s' := by
  induction acts generalizing s with
  | nil =>
      cases h
      exact .nil
  | cons act acts ih =>
      rw [exec] at h
      split at h
      · next hOk =>
          split at h
          · next t hStep => exact (Run.nil.snoc hOk hStep).trans (ih h)
          · cases h
      · cases h

/-- Such a run ends in a state that passes a test. -/
theorem Run.of_exec_any (acts : List Act) {test : State → Prop} [DecidablePred test]
    (h : (exec step ok s acts).any (fun s' => decide (test s')) = true) :
    ∃ s', Run step ok s s' ∧ test s' := by
  obtain ⟨s', hExec, hTest⟩ := (Option.any_eq_true _ _).mp h
  exact ⟨s', Run.of_exec hExec, of_decide_eq_true hTest⟩

end

end Transition
