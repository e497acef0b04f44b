import Mathlib.Logic.Equiv.Basic

/-! Things that are in at most one place at a time. -/
namespace Places

universe u v

variable {Place : Type u} {Item : Type v}

/-- No item is in two places. -/
def Exclusive (lies : Place → Item → Prop) : Prop :=
  ∀ p q x, lies p x → lies q x → p = q

variable {now next : Place → Item → Prop}

/-- Items may leave their places. -/
theorem Exclusive.mono (h : Exclusive now) (hSub : ∀ p x, next p x → now p x) :
    Exclusive next :=
  fun p q x hp hq => h p q x (hSub p x hp) (hSub q x hq)

/-- One item leaves the place it is in for another. -/
theorem Exclusive.move {p q : Place} {x : Item} (h : Exclusive now) (hIn : now p x)
    (hOther : ∀ r y, y ≠ x → next r y → now r y)
    (hMoved : ∀ r, next r x → r = q ∨ now r x ∧ r ≠ p) : Exclusive next := by
  intro r s y hr hs
  by_cases hy : y = x
  · subst hy
    -- the item is nowhere but where it went
    have hThere : ∀ r, next r y → r = q := fun r hr =>
      (hMoved r hr).resolve_right fun hStill => hStill.2 (h r p y hStill.1 hIn)
    rw [hThere r hr, hThere s hs]
  · exact h r s y (hOther r y hy hr) (hOther s y hy hs)

/-- Two places exchange all that is in them. -/
theorem Exclusive.swap [DecidableEq Place] (h : Exclusive now) (p q : Place)
    (hSub : ∀ r x, next r x → now (Equiv.swap p q r) x) : Exclusive next :=
  fun _ _ x hr hs => (Equiv.swap p q).injective (h _ _ x (hSub _ x hr) (hSub _ x hs))

/-- Every item is in just one place. -/
def Settled (lies : Place → Item → Prop) : Prop := ∀ x, ∃! p, lies p x

theorem Settled.exclusive (h : Settled now) : Exclusive now :=
  fun _ _ x hp hq => (h x).unique hp hq

theorem Settled.not_at (h : Settled now) {p q : Place} {x : Item} (hp : now p x) (hne : q ≠ p) :
    ¬ now q x :=
  fun hq => hne (h.exclusive q p x hq hp)

/-- What is in a place when one item has been put somewhere. -/
def After (now : Place → Item → Prop) (x : Item) (q : Place) (p : Place) (y : Item) : Prop :=
  (y ≠ x ∧ now p y) ∨ (y = x ∧ p = q)

/-- One item is put somewhere, and the others stay. -/
theorem Settled.move {q : Place} {x : Item} (h : Settled now)
    (hNext : ∀ p y, next p y ↔ After now x q p y) : Settled next := by
  intro y
  by_cases hy : y = x
  · subst hy
    exact ⟨q, (hNext q y).mpr (Or.inr ⟨rfl, rfl⟩),
      fun r hr => ((hNext r y).mp hr).elim (fun hOld => absurd rfl hOld.1) fun hNew => hNew.2⟩
  · obtain ⟨p, hp, hOnly⟩ := h y
    refine ⟨p, (hNext p y).mpr (Or.inl ⟨hy, hp⟩), fun r hr => hOnly r ?_⟩
    exact ((hNext r y).mp hr).elim (fun hOld => hOld.2) fun hNew => absurd hNew.1 hy

/-- In a place where the item is neither before nor after, nothing changes. -/
theorem after_of_not_at {p q : Place} {x y : Item} (hNot : ¬ now p x) (hne : p ≠ q) :
    now p y ↔ After now x q p y := by
  constructor
  · intro hp
    refine Or.inl ⟨?_, hp⟩
    rintro rfl
    exact hNot hp
  · rintro (⟨-, hp⟩ | ⟨-, hEq⟩)
    · exact hp
    · exact absurd hEq hne

end Places
