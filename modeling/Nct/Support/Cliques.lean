import Mathlib.Combinatorics.SimpleGraph.Clique
import Mathlib.Data.List.Nodup

/-! Closed neighbourhoods in a list of vertices. Where one is a clique, it is a maximal
one, and a graph whose components are cliques falls into them. -/
namespace Cliques

variable {V : Type*} [DecidableEq V] (G : SimpleGraph V) [DecidableRel G.Adj] (xs : List V)

/-- A vertex and its neighbours in the list. -/
def around (x : V) : List V := xs.filter fun y => decide (x = y ∨ G.Adj x y)

def IsGroup (g : List V) : Prop := ∃ x ∈ xs, g = around G xs x ∧ G.IsClique {y | y ∈ g}

/-- A clique of vertices of the list. -/
def CliqueIn (s : Set V) : Prop := G.IsClique s ∧ ∀ y ∈ s, y ∈ xs

variable {G xs} {g h : List V} {x y : V}

theorem mem_around : y ∈ around G xs x ↔ y ∈ xs ∧ (x = y ∨ G.Adj x y) := by
  rw [around, List.mem_filter, decide_eq_true_iff]

theorem IsGroup.mem (hGroup : IsGroup G xs g) (h : y ∈ g) : y ∈ xs := by
  obtain ⟨x, -, rfl, -⟩ := hGroup
  exact (mem_around.mp h).1

/-- Nothing can be added to a group. -/
theorem IsGroup.maximal (hGroup : IsGroup G xs g) : Maximal (CliqueIn G xs) {y | y ∈ g} := by
  obtain ⟨x, hx, rfl, hClique⟩ := hGroup
  refine ⟨⟨hClique, fun y hy => (mem_around.mp hy).1⟩, fun s hs hSub y hy => ?_⟩
  have hCentre : x ∈ s := hSub (mem_around.mpr ⟨hx, Or.inl rfl⟩)
  apply mem_around.mpr
  refine ⟨hs.2 y hy, ?_⟩
  by_cases hxy : x = y
  · exact Or.inl hxy
  · exact Or.inr (hs.1 hCentre hy hxy)

/-- Groups with the same members are the same. -/
theorem IsGroup.ext (hg : IsGroup G xs g) (hh : IsGroup G xs h) (hSame : ∀ y, y ∈ g ↔ y ∈ h) :
    g = h := by
  obtain ⟨x, -, rfl, -⟩ := hg
  obtain ⟨z, -, rfl, -⟩ := hh
  apply List.filter_congr
  intro y hy
  have hAt := hSame y
  simp only [mem_around, hy, true_and] at hAt
  exact decide_eq_decide.mpr hAt

/-- No group is part of another. -/
theorem IsGroup.eq_of_subset (hg : IsGroup G xs g) (hh : IsGroup G xs h)
    (hSub : ∀ y ∈ g, y ∈ h) : g = h := by
  apply hg.ext hh
  intro y
  exact ⟨hSub y, fun hy => hg.maximal.2 hh.maximal.1 hSub hy⟩

/-- Where adjacency is transitive on the list, each vertex is in one group. -/
theorem existsUnique_group (hTrans : ∀ x ∈ xs, ∀ y ∈ xs, ∀ z ∈ xs, G.Adj x y → G.Adj y z →
      x ≠ z → G.Adj x z) (hx : x ∈ xs) : ∃! g, IsGroup G xs g ∧ x ∈ g := by
  have hClique : G.IsClique {y | y ∈ around G xs x} := by
    intro y hy z hz hyz
    obtain ⟨hyIn, hxy⟩ := mem_around.mp hy
    obtain ⟨hzIn, hxz⟩ := mem_around.mp hz
    rcases hxy with rfl | hxy
    · exact hxz.resolve_left hyz
    · rcases hxz with rfl | hxz
      · exact hxy.symm
      · exact hTrans y hyIn x hx z hzIn hxy.symm hxz hyz
  have hGroup : IsGroup G xs (around G xs x) := ⟨x, hx, rfl, hClique⟩
  refine ⟨_, ⟨hGroup, mem_around.mpr ⟨hx, Or.inl rfl⟩⟩, ?_⟩
  rintro h ⟨hh, hIn⟩
  apply hh.eq_of_subset hGroup
  intro y hy
  refine mem_around.mpr ⟨hh.mem hy, ?_⟩
  by_cases hxy : x = y
  · exact Or.inl hxy
  · exact Or.inr (hh.maximal.1.1 hIn hy hxy)

end Cliques
