import Mathlib.Data.List.Induction
import Mathlib.Order.Bounds.Basic

/-! The least and the greatest of the values seen, kept one value at a time from
a start value that all values are better than. -/
namespace Extremes

universe u

variable {α : Type u}

/-- The last of the values that was better than what there was before. -/
def best (better : α → α → Prop) [DecidableRel better] (start : α) (values : List α) : α :=
  values.foldl (fun b x => if better x b then x else b) start

section
variable {better : α → α → Prop} [DecidableRel better]

theorem best_snoc (start x : α) (values : List α) :
    best better start (values ++ [x]) =
      if better x (best better start values) then x else best better start values := by
  rw [best, List.foldl_append]
  rfl

/-- The best value is the start or one of the values. -/
theorem best_mem (start : α) (values : List α) :
    best better start values = start ∨ best better start values ∈ values := by
  induction values using List.reverseRecOn with
  | nil => exact Or.inl rfl
  | append_singleton values x ih =>
      rw [best_snoc]
      split
      · exact Or.inr (by simp)
      · exact ih.imp_right fun h => List.mem_append_left _ h

/-- The best value is within a bound just if the start or some value is. -/
theorem best_le_iff (le : α → α → Prop) (hBetter : ∀ x y, better x y ↔ ¬ le y x) (hTrans : ∀ x y z, le x y → le y z → le x z)
    (hTotal : ∀ x y, le x y ∨ le y x) (start bound : α) (values : List α) :
    le (best better start values) bound ↔ le start bound ∨ ∃ x ∈ values, le x bound := by
  induction values using List.reverseRecOn with
  | nil => simp [best]
  | append_singleton values x ih =>
      have hMem : (∃ y ∈ values ++ [x], le y bound) ↔ (∃ y ∈ values, le y bound) ∨ le x bound := by
        simp [or_and_right, exists_or]
      rw [best_snoc, hMem, ← or_assoc, ← ih]
      split
      · next hNew =>
          have hLe : le x (best better start values) :=
            (hTotal _ _).resolve_right ((hBetter _ _).mp hNew)
          exact ⟨Or.inr, fun h => h.elim (hTrans _ _ _ hLe) id⟩
      · next hOld =>
          have hLe : le (best better start values) x := by
            by_contra hNot
            exact hOld ((hBetter _ _).mpr hNot)
          exact ⟨Or.inl, fun h => h.elim id (hTrans _ _ _ hLe)⟩

end

section
variable [LT α] [DecidableLT α]

def lowest (start : α) (values : List α) : α := best (fun x b => x < b) start values

def highest (start : α) (values : List α) : α := best (fun x b => b < x) start values

theorem lowest_snoc (start x : α) (values : List α) :
    lowest start (values ++ [x]) =
      if x < lowest start values then x else lowest start values :=
  best_snoc start x values

theorem highest_snoc (start x : α) (values : List α) :
    highest start (values ++ [x]) =
      if highest start values < x then x else highest start values :=
  best_snoc start x values

theorem lowest_mem (start : α) (values : List α) :
    lowest start values = start ∨ lowest start values ∈ values :=
  best_mem start values

theorem highest_mem (start : α) (values : List α) :
    highest start values = start ∨ highest start values ∈ values :=
  best_mem start values

variable [LE α] [Std.IsLinearOrder α] [Std.LawfulOrderLT α]

theorem lowest_le_iff (start bound : α) (values : List α) :
    lowest start values ≤ bound ↔ start ≤ bound ∨ ∃ x ∈ values, x ≤ bound :=
  best_le_iff (· ≤ ·) (fun _ _ => Std.not_le.symm) (fun _ _ _ => Std.le_trans)
    (fun _ _ => Std.le_total) start bound values

theorem le_highest_iff (start bound : α) (values : List α) :
    bound ≤ highest start values ↔ bound ≤ start ∨ ∃ x ∈ values, bound ≤ x :=
  best_le_iff (fun x y => y ≤ x) (fun _ _ => Std.not_le.symm)
    (fun _ _ _ hxy hyz => Std.le_trans hyz hxy) (fun _ _ => Std.le_total) start bound values

/-- From the ends of the whole range, a value lies between the extremes just if
it lies between two of the values seen. -/
theorem between_iff {least greatest : α} (hLeast : ∀ x, least ≤ x) (hGreatest : ∀ x, x ≤ greatest)
    (hRange : ¬ greatest ≤ least) (values : List α) (x : α) :
    (lowest greatest values ≤ x ∧ x ≤ highest least values) ↔
      (∃ y ∈ values, y ≤ x) ∧ ∃ y ∈ values, x ≤ y := by
  rw [lowest_le_iff, le_highest_iff]
  constructor
  · rintro ⟨hLow, hHigh⟩
    cases values with
    | nil =>
        simp only [List.not_mem_nil, false_and, exists_false, or_false] at hLow hHigh
        exact absurd (Std.le_trans hLow hHigh) hRange
    | cons y values =>
        have hBelow : greatest ≤ x → ∃ z ∈ y :: values, z ≤ x := fun h =>
          ⟨y, List.mem_cons_self, Std.le_trans (hGreatest y) h⟩
        have hAbove : x ≤ least → ∃ z ∈ y :: values, x ≤ z := fun h =>
          ⟨y, List.mem_cons_self, Std.le_trans h (hLeast y)⟩
        exact ⟨hLow.elim hBelow id, hHigh.elim hAbove id⟩
  · rintro ⟨hLow, hHigh⟩
    exact ⟨Or.inr hLow, Or.inr hHigh⟩

/-- From the end of the whole range, the lowest of some values is the least of them. -/
theorem isLeast_lowest {greatest : α} (hGreatest : ∀ x, x ≤ greatest) {values : List α}
    (hSome : values ≠ []) : IsLeast {x | x ∈ values} (lowest greatest values) := by
  have hBelow : ∀ x ∈ values, lowest greatest values ≤ x := fun x hx =>
    (lowest_le_iff greatest x values).mpr (Or.inr ⟨x, hx, Std.le_refl x⟩)
  refine ⟨?_, hBelow⟩
  rcases lowest_mem greatest values with hStart | hMem
  · obtain ⟨y, hy⟩ := List.exists_mem_of_ne_nil values hSome
    have hTop : greatest ≤ y := hStart ▸ hBelow y hy
    rw [hStart, Std.le_antisymm hTop (hGreatest y)]
    exact hy
  · exact hMem

/-- And from the other end, the highest is the greatest. -/
theorem isGreatest_highest {least : α} (hLeast : ∀ x, least ≤ x) {values : List α}
    (hSome : values ≠ []) : IsGreatest {x | x ∈ values} (highest least values) := by
  have hAbove : ∀ x ∈ values, x ≤ highest least values := fun x hx =>
    (le_highest_iff least x values).mpr (Or.inr ⟨x, hx, Std.le_refl x⟩)
  refine ⟨?_, hAbove⟩
  rcases highest_mem least values with hStart | hMem
  · obtain ⟨y, hy⟩ := List.exists_mem_of_ne_nil values hSome
    have hBottom : y ≤ least := hStart ▸ hAbove y hy
    rw [hStart, Std.le_antisymm (hLeast y) hBottom]
    exact hy
  · exact hMem

/-- From any start, the lowest of the values is one of them if some value is not
above the start. -/
theorem lowest_mem_of_le {start x : α} {values : List α} (hx : x ∈ values) (hLe : x ≤ start) :
    lowest start values ∈ values := by
  rcases lowest_mem start values with hStart | hMem
  · have hBelow : start ≤ x := hStart ▸ (lowest_le_iff start x values).mpr (Or.inr ⟨x, hx, Std.le_refl x⟩)
    rwa [hStart, Std.le_antisymm hBelow hLe]
  · exact hMem

/-- From any start, the lowest is the greatest lower bound of the values just if the
start is the end of the range or some value is not above it. -/
theorem isGLB_lowest_iff {greatest : α} (hGreatest : ∀ x, x ≤ greatest) (start : α) (values : List α) :
    IsGLB {x | x ∈ values} (lowest start values) ↔ start = greatest ∨ ∃ x ∈ values, x ≤ start := by
  have hBelow : ∀ x ∈ values, lowest start values ≤ x := fun x hx =>
    (lowest_le_iff start x values).mpr (Or.inr ⟨x, hx, Std.le_refl x⟩)
  constructor
  · rintro ⟨-, hLargest⟩
    by_cases hNone : values = []
    · subst hNone
      exact Or.inl (Std.le_antisymm (hGreatest start) (hLargest fun x hx => by cases hx))
    · obtain ⟨hMem, hLeast⟩ := isLeast_lowest hGreatest hNone
      have hStart : lowest start values ≤ start :=
        (lowest_le_iff start start values).mpr (Or.inl (Std.le_refl start))
      exact Or.inr ⟨_, hMem, Std.le_trans (hLargest hLeast) hStart⟩
  · rintro (rfl | ⟨x, hx, hLe⟩)
    · refine ⟨hBelow, fun bound hBound => ?_⟩
      rcases lowest_mem start values with hStart | hMem
      · rw [hStart]
        exact hGreatest bound
      · exact hBound hMem
    · exact ⟨hBelow, fun bound hBound => hBound (lowest_mem_of_le hx hLe)⟩

/-- From the other end of the range, the highest is the least upper bound. -/
theorem isLUB_highest {least : α} (hLeast : ∀ x, least ≤ x) (values : List α) :
    IsLUB {x | x ∈ values} (highest least values) := by
  refine ⟨fun x hx => (le_highest_iff least x values).mpr (Or.inr ⟨x, hx, Std.le_refl x⟩),
    fun bound hBound => ?_⟩
  rcases highest_mem least values with hStart | hMem
  · rw [hStart]
    exact hLeast bound
  · exact hBound hMem

/-- The extremes of the last of some values are those of all of them, just if each of
the others lies between two of the last. -/
theorem extremes_append_iff {least greatest : α} (hLeast : ∀ x, least ≤ x)
    (hGreatest : ∀ x, x ≤ greatest) (hRange : ¬ greatest ≤ least) (earlier : List α) {values : List α}
    (hSome : earlier ++ values ≠ []) :
    (IsLeast {x | x ∈ earlier ++ values} (lowest greatest values) ∧
        IsGreatest {x | x ∈ earlier ++ values} (highest least values)) ↔
      ∀ x ∈ earlier, (∃ y ∈ values, y ≤ x) ∧ ∃ y ∈ values, x ≤ y := by
  constructor
  · rintro ⟨hLow, hHigh⟩ x hx
    have hMem : x ∈ earlier ++ values := List.mem_append_left _ hx
    exact (between_iff hLeast hGreatest hRange values x).mp ⟨hLow.2 hMem, hHigh.2 hMem⟩
  · intro hBetween
    have hLast : values ≠ [] := by
      rintro rfl
      obtain ⟨x, hx⟩ := List.exists_mem_of_ne_nil _ hSome
      rw [List.append_nil] at hx
      obtain ⟨⟨y, hy, -⟩, -⟩ := hBetween x hx
      cases hy
    have hLow := isLeast_lowest hGreatest hLast
    have hHigh := isGreatest_highest hLeast hLast
    refine ⟨⟨List.mem_append_right _ hLow.1, fun x hx => ?_⟩,
      ⟨List.mem_append_right _ hHigh.1, fun x hx => ?_⟩⟩
    · rcases List.mem_append.mp hx with hEarlier | hValue
      · obtain ⟨⟨y, hy, hLe⟩, -⟩ := hBetween x hEarlier
        exact Std.le_trans (hLow.2 hy) hLe
      · exact hLow.2 hValue
    · rcases List.mem_append.mp hx with hEarlier | hValue
      · obtain ⟨-, y, hy, hLe⟩ := hBetween x hEarlier
        exact Std.le_trans hLe (hHigh.2 hy)
      · exact hHigh.2 hValue

end

end Extremes
