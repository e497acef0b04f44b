import Mathlib.Data.List.Nodup
import Mathlib.Data.List.TakeWhile
import Mathlib.Logic.Function.Basic

/-! Singly linked lists kept as a table of next pointers. -/
namespace Linked

universe u

variable {α : Type u}

/-- Following `next` from `head` passes the listed nodes and then ends. -/
def Chain (next : α → Option α) : Option α → List α → Prop
  | head, [] => head = none
  | head, a :: nodes => head = some a ∧ Chain next (next a) nodes

variable {next : α → Option α} {head : Option α} {nodes others : List α}

/-- A chain is determined by its head. -/
theorem Chain.unique (h : Chain next head nodes) (h' : Chain next head others) :
    nodes = others := by
  induction nodes generalizing head others with
  | nil =>
      cases others with
      | nil => rfl
      | cons b others => exact absurd (h.symm.trans h'.1) (by simp)
  | cons a nodes ih =>
      cases others with
      | nil => exact absurd (h'.symm.trans h.1) (by simp)
      | cons b others =>
          obtain rfl : a = b := Option.some.inj (h.1.symm.trans h'.1)
          rw [ih h.2 h'.2]

/-- Every node of a chain starts a shorter one. -/
theorem Chain.tail_of_mem {a : α} (h : Chain next head nodes) (ha : a ∈ nodes) :
    ∃ rest, Chain next (next a) rest ∧ rest.length < nodes.length := by
  induction nodes generalizing head with
  | nil => cases ha
  | cons b nodes ih =>
      rcases List.mem_cons.mp ha with rfl | hMem
      · exact ⟨nodes, h.2, Nat.lt_succ_self _⟩
      · obtain ⟨rest, hRest, hLen⟩ := ih h.2 hMem
        exact ⟨rest, hRest, Nat.lt_succ_of_lt hLen⟩

/-- A chain that ends is acyclic, so no node is on it twice. -/
theorem Chain.nodup (h : Chain next head nodes) : nodes.Nodup := by
  induction nodes generalizing head with
  | nil => exact List.nodup_nil
  | cons a nodes ih =>
      refine List.nodup_cons.mpr ⟨fun ha => ?_, ih h.2⟩
      obtain ⟨rest, hRest, hLen⟩ := h.2.tail_of_mem ha
      rw [h.2.unique hRest] at hLen
      exact Nat.lt_irrefl _ hLen

theorem Chain.pop {a : α} (h : Chain next (some a) nodes) :
    ∃ rest, nodes = a :: rest ∧ Chain next (next a) rest := by
  cases nodes with
  | nil => cases h
  | cons b rest =>
      obtain rfl : a = b := Option.some.inj h.1
      exact ⟨rest, rfl, h.2⟩

/-- Following `next` from `head` passes the listed nodes and then comes to `target`. -/
def Path (next : α → Option α) : Option α → List α → Option α → Prop
  | head, [], target => head = target
  | head, a :: nodes, target => head = some a ∧ Path next (next a) nodes target

theorem chain_iff_path : Chain next head nodes ↔ Path next head nodes none := by
  induction nodes generalizing head with
  | nil => exact Iff.rfl
  | cons a nodes ih => exact and_congr_right fun _ => ih

theorem Path.append {target : Option α} (h : Path next head nodes target)
    (hRest : Chain next target others) : Chain next head (nodes ++ others) := by
  induction nodes generalizing head with
  | nil => exact (show head = target from h) ▸ hRest
  | cons a nodes ih => exact ⟨h.1, ih h.2⟩

/-- A chain passes the nodes before one of its nodes and comes to that. -/
theorem Chain.path {a : α} (h : Chain next head (nodes ++ a :: others)) :
    Path next head nodes (some a) := by
  induction nodes generalizing head with
  | nil => exact h.1
  | cons b nodes ih => exact ⟨h.1, ih h.2⟩

variable [DecidableEq α]

/-- Writing the pointer of a node that is not passed. -/
theorem Path.update {a : α} {p target : Option α} (h : Path next head nodes target) (ha : a ∉ nodes) :
    Path (Function.update next a p) head nodes target := by
  induction nodes generalizing head with
  | nil => exact h
  | cons b nodes ih =>
      have hne : a ≠ b := List.ne_of_not_mem_cons ha
      refine ⟨h.1, ?_⟩
      rw [Function.update_of_ne (Ne.symm hne)]
      exact ih h.2 (List.not_mem_of_not_mem_cons ha)

/-- Writing the pointer of a node that is not on the chain. -/
theorem Chain.update {a : α} {p : Option α} (h : Chain next head nodes) (ha : a ∉ nodes) :
    Chain (Function.update next a p) head nodes :=
  chain_iff_path.mpr ((chain_iff_path.mp h).update ha)

/-- A node becomes the end of the chain that it is on. -/
theorem Chain.cut {a : α} (h : Chain next head (nodes ++ a :: others)) :
    Chain (Function.update next a none) head (nodes ++ [a]) := by
  have hNew : a ∉ nodes := fun hMem =>
    List.disjoint_of_nodup_append h.nodup hMem List.mem_cons_self
  exact (h.path.update hNew).append ⟨rfl, Function.update_self _ _ _⟩

theorem takeWhile_ne {a : α} (h : a ∉ nodes) : (nodes ++ a :: others).takeWhile (· ≠ a) = nodes := by
  rw [List.takeWhile_append_of_pos]
  · simp
  · intro b hb
    simpa using ne_of_mem_of_not_mem hb h

/-- A node is linked to the end of a chain and becomes its end. If it was on the chain
before, what came after it is cut off. -/
theorem Chain.link {u v : α} (h : Chain next head (nodes ++ u :: others)) :
    Chain (Function.update (Function.update next u (some v)) v none) head
      ((nodes ++ [u]).takeWhile (· ≠ v) ++ [v]) := by
  have hLast : u ∉ nodes := fun hMem =>
    List.disjoint_of_nodup_append h.nodup hMem List.mem_cons_self
  by_cases hSame : v = u
  · subst hSame
    rw [takeWhile_ne hLast, Function.update_idem]
    exact h.cut
  · by_cases hOn : v ∈ nodes
    · obtain ⟨before, after, rfl, hNew⟩ := List.eq_append_cons_of_mem hOn
      rw [List.append_assoc, List.cons_append] at h
      have hBefore : u ∉ before := fun hMem => hLast (List.mem_append_left _ hMem)
      rw [List.append_assoc, List.cons_append, takeWhile_ne hNew]
      exact ((h.path.update hBefore).update hNew).append ⟨rfl, Function.update_self _ _ _⟩
    · have hAll : (nodes ++ [u]).takeWhile (· ≠ v) = nodes ++ [u] := by
        rw [List.takeWhile_eq_self_iff]
        intro b hb
        have hOff : v ∉ nodes ++ [u] := by simp [hOn, hSame]
        simpa using ne_of_mem_of_not_mem hb hOff
      rw [hAll, List.append_assoc]
      refine ((h.path.update hLast).update hOn).append ⟨rfl, ?_, Function.update_self _ _ _⟩
      rw [Function.update_of_ne (Ne.symm hSame), Function.update_self]

/-- From every node the list ends. -/
def Ends (next : α → Option α) : Prop := ∀ head, ∃ nodes, Chain next head nodes

/-- Making a node the end of its list leaves no list without an end. -/
theorem Ends.cut (h : Ends next) (a : α) : Ends (Function.update next a none) := by
  intro head
  obtain ⟨nodes, hChain⟩ := h head
  by_cases hOn : a ∈ nodes
  · obtain ⟨before, after, rfl, -⟩ := List.eq_append_cons_of_mem hOn
    exact ⟨before ++ [a], hChain.cut⟩
  · exact ⟨nodes, hChain.update hOn⟩

/-- Neither does linking a node to that end. -/
theorem Ends.link (h : Ends next) (u v : α) :
    Ends (Function.update (Function.update next u (some v)) v none) := by
  intro head
  obtain ⟨nodes, hChain⟩ := h head
  by_cases hOn : u ∈ nodes
  · obtain ⟨before, after, rfl, -⟩ := List.eq_append_cons_of_mem hOn
    exact ⟨_, hChain.link⟩
  · by_cases hEnd : v ∈ nodes
    · obtain ⟨before, after, rfl, -⟩ := List.eq_append_cons_of_mem hEnd
      exact ⟨before ++ [v], (hChain.update hOn).cut⟩
    · exact ⟨nodes, (hChain.update hOn).update hEnd⟩

theorem Chain.push {a : α} (h : Chain next head nodes) (ha : a ∉ nodes) :
    Chain (Function.update next a head) (some a) (a :: nodes) := by
  refine ⟨rfl, ?_⟩
  rw [Function.update_self]
  exact h.update ha

end Linked
