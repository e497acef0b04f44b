import Mathlib.Data.List.Basic

/-! A path on which a step back to a place cuts off all that came after it. -/
namespace Trails

universe u

variable {α : Type u} [DecidableEq α]

/-- The path once the place is its end. -/
def visit (path : List α) (a : α) : List α := path.takeWhile (· ≠ a) ++ [a]

/-- What is left of the path after the visits. -/
def trail (visits : List α) : List α := visits.foldl visit []

/-- The visits after the last one to a place. -/
def afterLast (a : α) : List α → List α
  | [] => []
  | b :: visits =>
      if a ∈ visits then afterLast a visits else if b = a then visits else b :: visits

variable {a b : α} {path visits : List α}

theorem afterLast_length (a : α) (visits : List α) : (afterLast a visits).length ≤ visits.length := by
  induction visits with
  | nil => exact Nat.le_refl _
  | cons b visits ih =>
      rw [afterLast]
      split
      · exact Nat.le_succ_of_le ih
      · split
        · exact Nat.le_succ _
        · exact Nat.le_refl _

/-- No visit is lost: every other place visited before the last visit to the first
one is visited after it too, and so on from there. -/
def Kept : List α → Prop
  | [] => True
  | a :: visits => (∀ b ∈ visits, b = a ∨ b ∈ afterLast a visits) ∧ Kept (afterLast a visits)
termination_by visits => visits.length
decreasing_by exact Nat.lt_succ_of_le (afterLast_length a visits)

theorem mem_of_mem_afterLast (h : b ∈ afterLast a visits) : b ∈ visits := by
  induction visits with
  | nil => exact h
  | cons c visits ih =>
      rw [afterLast] at h
      split at h
      · exact List.mem_cons_of_mem _ (ih h)
      · split at h
        · exact List.mem_cons_of_mem _ h
        · exact h

theorem afterLast_of_notMem (h : a ∉ visits) : afterLast a visits = visits := by
  cases visits with
  | nil => rfl
  | cons b visits =>
      obtain ⟨hHead, hTail⟩ := not_or.mp (List.mem_cons.not.mp h)
      rw [afterLast, if_neg hTail, if_neg (Ne.symm hHead)]

/-- It does not come again after its last visit. -/
theorem notMem_afterLast : a ∉ afterLast a visits := by
  induction visits with
  | nil => exact List.not_mem_nil
  | cons b visits ih =>
      rw [afterLast]
      split
      · exact ih
      · next hTail =>
          split
          · exact hTail
          · next hHead => simp [Ne.symm hHead, hTail]

/-- A visit to the first place leaves only this one. -/
theorem visit_cons_self (a : α) (path : List α) : visit (a :: path) a = [a] := by
  simp [visit]

theorem visit_cons_of_ne (h : b ≠ a) : visit (a :: path) b = a :: visit path b := by
  simp [visit, h.symm]

/-- The first place stays on the path, and its last visit cuts off all that came
before. -/
theorem foldl_visit_cons (a : α) (path visits : List α) :
    visits.foldl visit (a :: path) =
      a :: if a ∈ visits then trail (afterLast a visits) else visits.foldl visit path := by
  induction visits generalizing path with
  | nil => rfl
  | cons b visits ih =>
      rw [List.foldl_cons]
      by_cases hSame : b = a
      · subst hSame
        rw [visit_cons_self, ih, if_pos List.mem_cons_self, afterLast]
        split
        · rfl
        · rw [if_pos rfl]
          rfl
      · rw [visit_cons_of_ne hSame, ih]
        by_cases hAgain : a ∈ visits
        · rw [if_pos hAgain, if_pos (List.mem_cons_of_mem _ hAgain), afterLast, if_pos hAgain]
        · have hNone : a ∉ b :: visits := by simp [Ne.symm hSame, hAgain]
          rw [if_neg hAgain, if_neg hNone, List.foldl_cons]

/-- The path from a place goes on after its last visit. -/
theorem trail_cons (a : α) (visits : List α) : trail (a :: visits) = a :: trail (afterLast a visits) := by
  have hFirst : trail (a :: visits) = visits.foldl visit [a] := rfl
  rw [hFirst, foldl_visit_cons]
  split
  · rfl
  · next hNone => rw [afterLast_of_notMem hNone, trail]

theorem mem_of_mem_trail {visits : List α} (h : b ∈ trail visits) : b ∈ visits := by
  induction visits using Kept.induct with
  | case1 => exact h
  | case2 a visits ih =>
      rw [trail_cons] at h
      rcases List.mem_cons.mp h with rfl | hRest
      · exact List.mem_cons_self
      · exact List.mem_cons_of_mem _ (mem_of_mem_afterLast (ih hRest))

/-- The path has every place that was visited just if no visit is lost. -/
theorem forall_mem_trail_iff (visits : List α) : (∀ b ∈ visits, b ∈ trail visits) ↔ Kept visits := by
  induction visits using Kept.induct with
  | case1 => simp [Kept]
  | case2 a visits ih =>
      rw [Kept, ← ih, trail_cons]
      constructor
      · intro h
        refine ⟨fun b hb => ?_, fun b hb => ?_⟩
        · rcases List.mem_cons.mp (h b (List.mem_cons_of_mem _ hb)) with hFirst | hRest
          · exact Or.inl hFirst
          · exact Or.inr (mem_of_mem_trail hRest)
        · have hVisited := mem_of_mem_afterLast hb
          rcases List.mem_cons.mp (h b (List.mem_cons_of_mem _ hVisited)) with rfl | hRest
          · exact absurd hb notMem_afterLast
          · exact hRest
      · rintro ⟨hAgain, hLater⟩ b hb
        rcases List.mem_cons.mp hb with rfl | hVisited
        · exact List.mem_cons_self
        · rcases hAgain b hVisited with rfl | hAfter
          · exact List.mem_cons_self
          · exact List.mem_cons_of_mem _ (hLater b hAfter)

instance (visits : List α) : Decidable (Kept visits) :=
  decidable_of_iff (∀ b ∈ visits, b ∈ trail visits) (forall_mem_trail_iff visits)

end Trails
