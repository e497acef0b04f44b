import Nct.Support.Places
import Mathlib.Algebra.BigOperators.Group.Finset.Piecewise
import Mathlib.Data.Finset.Option

/-! Items that move from place to place, one at a time, along the edges of a
graph of places. From some places an item can drop out, and is then nowhere. -/
namespace Places

universe u v

variable {Place : Type u} {Item : Type v}

/-- One step; the index is the item that drops out in it, if any. -/
inductive Shift (edge : Place → Place → Prop) (exit : Place → Prop)
    (now next : Place → Item → Prop) : Option Item → Prop where
  | stay (hSame : ∀ r y, next r y ↔ now r y) : Shift edge exit now next none
  | move {p q : Place} {x : Item} (hEdge : edge p q) (hFrom : now p x) (hTo : next q x)
      (hOther : ∀ r y, y ≠ x → (next r y ↔ now r y)) : Shift edge exit now next none
  | lose {p : Place} {x : Item} (hExit : exit p) (hFrom : now p x) (hGone : ∀ r, ¬ next r x)
      (hOther : ∀ r y, y ≠ x → (next r y ↔ now r y)) : Shift edge exit now next (some x)

section
variable {edge : Place → Place → Prop} {exit : Place → Prop}
  {now next : Place → Item → Prop} {lost : Option Item}

/-- A step is one between any two states in which the items are in the same places. -/
theorem Shift.congr {now' next' : Place → Item → Prop} (h : Shift edge exit now next lost)
    (hNow : ∀ r y, now r y ↔ now' r y) (hNext : ∀ r y, next' r y ↔ next r y) :
    Shift edge exit now' next' lost := by
  obtain rfl : now = now' := by
    funext r y
    exact propext (hNow r y)
  obtain rfl : next' = next := by
    funext r y
    exact propext (hNext r y)
  exact h

/-- Only an item that drops out loses its place, and none that has dropped out
gets one. -/
theorem Shift.placed (h : Shift edge exit now next lost) (y : Item) :
    (∃ r, next r y) ↔ (∃ r, now r y) ∧ lost ≠ some y := by
  cases h with
  | stay hSame => simp [hSame]
  | @move p q x hEdge hFrom hTo hOther =>
      by_cases hy : y = x
      · subst hy
        exact iff_of_true ⟨q, hTo⟩ ⟨⟨p, hFrom⟩, by simp⟩
      · simp [hOther _ y hy]
  | @lose p x hExit hFrom hGone hOther =>
      by_cases hy : y = x
      · subst hy
        exact iff_of_false (fun ⟨r, hr⟩ => hGone r hr) fun hOut => hOut.2 rfl
      · simp [hOther _ y hy, Ne.symm hy]

/-- What drops out had a place, from which it could. -/
theorem Shift.lost_placed {x : Item} (h : Shift edge exit now next (some x)) :
    ∃ p, exit p ∧ now p x := by
  cases h with
  | @lose p _ hExit hFrom _ _ => exact ⟨p, hExit, hFrom⟩

/-- An item that is somewhere before and after a step has stayed or followed an edge. -/
theorem Shift.follows (h : Shift edge exit now next lost) (hExclusive : Exclusive next)
    (hNow : Exclusive now) {p q : Place} {y : Item} (hp : now p y) (hq : next q y) :
    q = p ∨ edge p q := by
  cases h with
  | stay hSame => exact Or.inl (hNow q p y ((hSame q y).mp hq) hp)
  | @move p' q' x hEdge hFrom hTo hOther =>
      by_cases hy : y = x
      · subst hy
        rw [hNow p p' y hp hFrom, hExclusive q q' y hq hTo]
        exact Or.inr hEdge
      · exact Or.inl (hNow q p y ((hOther q y hy).mp hq) hp)
  | @lose p' x hExit hFrom hGone hOther =>
      by_cases hy : y = x
      · subst hy
        exact absurd hq (hGone q)
      · exact Or.inl (hNow q p y ((hOther q y hy).mp hq) hp)

/-- An item that is in one place before and after a step has not moved, though the
place may have been given to it anew. -/
theorem Shift.of_same_place {p : Place} {x : Item} (hNow : Exclusive now) (hNext : Exclusive next)
    (hFrom : now p x) (hTo : next p x) (hOther : ∀ r y, y ≠ x → (next r y ↔ now r y)) :
    Shift edge exit now next none := by
  refine .stay fun r y => ?_
  by_cases hy : y = x
  · subst hy
    constructor
    · intro hr
      exact hNext r p y hr hTo ▸ hFrom
    · intro hr
      exact hNow r p y hr hFrom ▸ hTo
  · exact hOther r y hy

end

/-- Places that hold at most one item each, and no item twice, hold as many items
as there are places that are not empty. -/
theorem card_filled [DecidableEq Item] (places : Finset Place) (content : Place → Option Item)
    (hOnce : ∀ p ∈ places, ∀ q ∈ places, ∀ x, content p = some x → content q = some x → p = q) :
    (places.biUnion fun p => (content p).toFinset).card =
      (places.filter fun p => (content p).isSome).card := by
  rw [Finset.card_biUnion, Finset.card_filter]
  · refine Finset.sum_congr rfl fun p _ => ?_
    cases content p <;> simp
  · intro p hp q hq hne
    refine Finset.disjoint_left.mpr fun x hx hx' => hne ?_
    exact hOnce p hp q hq x (Option.mem_toFinset.mp hx) (Option.mem_toFinset.mp hx')

end Places
