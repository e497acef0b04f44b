import Mathlib.Data.List.Basic

/-! A byte stream as a transport hands it to a reader. The sender's bytes
arrive in non-empty segments; a read returns at most one segment, so where the
segments end decides how a stream is split over reads. Every sequence of read
results is the reading of some sequence of arrivals. -/
namespace Delivery

/-- What reaches the receiving end. A segment holds at least one element. -/
inductive Arrival (α : Type) where
  | segment (first : α) (rest : List α)
  | closed
  | failed
  deriving DecidableEq, Repr

/-- The result of one read. -/
inductive Got (α : Type) where
  | bytes (read : List α)
  | closed
  | failed
  deriving DecidableEq, Repr

variable {α : Type}

/-- What can be read before the first end of stream or failure. -/
def ready : List (Arrival α) → List α
  | .segment first rest :: inbox => first :: rest ++ ready inbox
  | _ => []

/-- Offsets, counted from the front, at which a ready segment ends. -/
def ends : List (Arrival α) → List Nat
  | .segment _ rest :: inbox => (rest.length + 1) :: (ends inbox).map (· + (rest.length + 1))
  | _ => []

/-- Elements and faults left; every successful or failed read lowers it. -/
def weight : List (Arrival α) → Nat
  | [] => 0
  | .segment _ rest :: inbox => rest.length + 1 + weight inbox
  | _ :: inbox => weight inbox + 1

/-- Put back the unread end of a segment. -/
def push : List α → List (Arrival α) → List (Arrival α)
  | [], inbox => inbox
  | first :: rest, inbox => .segment first rest :: inbox

/-- The arrivals left after reading `n` ready elements. -/
def advance : Nat → List (Arrival α) → List (Arrival α)
  | n, .segment first rest :: inbox =>
      if n ≤ rest.length + 1 then push ((first :: rest).drop n) inbox
      else advance (n - (rest.length + 1)) inbox
  | _, inbox => inbox

/-- One read of at most `n` elements. After the last arrival the stream is closed. -/
def read (n : Nat) : List (Arrival α) → Got α × List (Arrival α)
  | .segment first rest :: inbox =>
      (.bytes ((first :: rest).take n), push ((first :: rest).drop n) inbox)
  | .closed :: inbox => (.closed, inbox)
  | .failed :: inbox => (.failed, inbox)
  | [] => (.closed, [])

/-- Collect `n` elements over as many segments as needed. A fault on the way
cuts the collection short and is used up by it. -/
def gather (n : Nat) : List (Arrival α) → List α × List (Arrival α)
  | .segment first rest :: inbox =>
      if n ≤ rest.length + 1 then ((first :: rest).take n, push ((first :: rest).drop n) inbox)
      else
        let more := gather (n - (rest.length + 1)) inbox
        (first :: rest ++ more.1, more.2)
  | _ :: inbox => ([], inbox)
  | [] => ([], [])

/-- One read that waits for all `n` elements. -/
def readAll (n : Nat) : List (Arrival α) → Got α × List (Arrival α)
  | .segment first rest :: inbox =>
      let all := gather n (.segment first rest :: inbox)
      (.bytes all.1, all.2)
  | .closed :: inbox => (.closed, inbox)
  | .failed :: inbox => (.failed, inbox)
  | [] => (.closed, [])

@[simp] theorem ready_push (bs : List α) (inbox : List (Arrival α)) :
    ready (push bs inbox) = bs ++ ready inbox := by
  cases bs <;> simp [push, ready]

@[simp] theorem weight_push (bs : List α) (inbox : List (Arrival α)) :
    weight (push bs inbox) = bs.length + weight inbox := by
  cases bs <;> simp [push, weight]

/-- Reading `n` elements removes exactly those from what is ready. -/
theorem ready_advance (n : Nat) (inbox : List (Arrival α)) :
    ready (advance n inbox) = (ready inbox).drop n := by
  induction inbox generalizing n with
  | nil => simp [advance, ready]
  | cons head inbox ih =>
      cases head with
      | closed => simp [advance, ready]
      | failed => simp [advance, ready]
      | segment first rest =>
          by_cases h : n ≤ rest.length + 1
          · rw [advance, if_pos h, ready_push, ready, List.drop_append_of_le_length (by simpa using h)]
          · have hPast : (first :: rest).length ≤ n := by simpa using (by omega : rest.length + 1 ≤ n)
            rw [advance, if_neg h, ih, ready, List.drop_append, List.drop_of_length_le hPast,
              List.nil_append, List.length_cons]

theorem advance_zero (inbox : List (Arrival α)) : advance 0 inbox = inbox := by
  cases inbox with
  | nil => rfl
  | cons head inbox => cases head <;> simp [advance, push]

/-- What is taken comes from the segment in front. -/
theorem advance_push_of_le {bs : List α} {n : Nat} (h : n ≤ bs.length) (inbox : List (Arrival α)) :
    advance n (push bs inbox) = push (bs.drop n) inbox := by
  cases bs with
  | nil =>
      have hn : n = 0 := by simpa using h
      simp [hn, push, advance_zero]
  | cons first rest => simp only [push, advance, if_pos (show n ≤ rest.length + 1 by simpa using h)]

/-- The segment in front is gone, and more is taken behind it. -/
theorem advance_push_of_ge {bs : List α} {n : Nat} (h : bs.length ≤ n) (inbox : List (Arrival α)) :
    advance n (push bs inbox) = advance (n - bs.length) inbox := by
  cases bs with
  | nil => simp [push]
  | cons first rest =>
      rcases Nat.lt_or_ge (rest.length + 1) n with hn | hn
      · simp only [push, advance, if_neg (by omega : ¬ n ≤ rest.length + 1), List.length_cons]
      · have he : n = rest.length + 1 := Nat.le_antisymm hn (by simpa using h)
        subst he
        simp [push, advance, advance_zero]

/-- Two reads in a row remove as much as one of the joint length. -/
theorem advance_advance (m n : Nat) (inbox : List (Arrival α)) :
    advance n (advance m inbox) = advance (m + n) inbox := by
  induction inbox generalizing m n with
  | nil => simp [advance]
  | cons head inbox ih =>
      cases head with
      | closed => simp [advance]
      | failed => simp [advance]
      | segment first rest =>
          by_cases hm : m ≤ rest.length + 1
          · have hDrop : ((first :: rest).drop m).length = rest.length + 1 - m := by simp
            rw [advance, if_pos hm]
            by_cases hn : m + n ≤ rest.length + 1
            · rw [advance, if_pos hn, advance_push_of_le (by omega), List.drop_drop]
            · rw [advance, if_neg hn, advance_push_of_ge (by omega), hDrop]
              congr 1
              omega
          · rw [advance, if_neg hm, ih, advance, if_neg (by omega)]
            congr 1
            omega

theorem pos_of_mem_ends {inbox : List (Arrival α)} {p : Nat} (h : p ∈ ends inbox) : 0 < p := by
  cases inbox with
  | nil => simp [ends] at h
  | cons head inbox =>
      cases head <;> simp only [ends, List.mem_cons, List.mem_map, List.not_mem_nil] at h
      rcases h with rfl | ⟨q, -, rfl⟩ <;> omega

/-- A segment ends within what can be read. -/
theorem ends_le_ready {inbox : List (Arrival α)} {p : Nat} (h : p ∈ ends inbox) :
    p ≤ (ready inbox).length := by
  induction inbox generalizing p with
  | nil => simp [ends] at h
  | cons head inbox ih =>
      cases head <;> simp only [ends, List.mem_cons, List.mem_map, List.not_mem_nil] at h
      rcases h with rfl | ⟨q, hq, rfl⟩
      · simp [ready]
      · have := ih hq
        simp only [ready, List.cons_append, List.length_cons, List.length_append]
        omega

/-- Everything ready ends with a segment. -/
theorem ready_length_mem_ends {inbox : List (Arrival α)} (h : ready inbox ≠ []) :
    (ready inbox).length ∈ ends inbox := by
  induction inbox with
  | nil => simp [ready] at h
  | cons head inbox ih =>
      cases head with
      | closed => simp [ready] at h
      | failed => simp [ready] at h
      | segment first rest =>
          by_cases hRest : ready inbox = []
          · simp [ends, ready, hRest]
          · rw [ends, List.mem_cons, List.mem_map]
            refine Or.inr ⟨_, ih hRest, ?_⟩
            simp [ready]
            omega

/-- The ends behind the segment that is put back move by its length. -/
theorem mem_ends_push {bs : List α} {inbox : List (Arrival α)} {p : Nat} (hp : 0 < p) :
    p ∈ ends (push bs inbox) ↔
      (bs ≠ [] ∧ p = bs.length) ∨ (bs.length < p ∧ p - bs.length ∈ ends inbox) := by
  cases bs with
  | nil => simp [push, hp]
  | cons first rest =>
      simp only [push, ends, List.mem_cons, List.mem_map, List.length_cons, ne_eq, reduceCtorEq,
        not_false_eq_true, true_and]
      refine or_congr_right ⟨?_, ?_⟩
      · rintro ⟨q, hq, rfl⟩
        have := pos_of_mem_ends hq
        exact ⟨by omega, by simpa using hq⟩
      · rintro ⟨hlt, hmem⟩
        exact ⟨_, hmem, by omega⟩

/-- Segment ends keep their places in the stream when part of it is read. -/
theorem mem_ends_advance {inbox : List (Arrival α)} {n p : Nat} (hp : 0 < p)
    (hn : n ≤ (ready inbox).length) : p ∈ ends (advance n inbox) ↔ n + p ∈ ends inbox := by
  induction inbox generalizing n with
  | nil =>
      have h0 : n = 0 := by simpa [ready] using hn
      simp [h0, advance]
  | cons head inbox ih =>
      cases head with
      | closed => simp [advance, ends]
      | failed => simp [advance, ends]
      | segment first rest =>
          have hWhole : n + p ∈ ends (push (first :: rest) inbox) ↔ _ := mem_ends_push (by omega)
          rw [push] at hWhole
          rw [hWhole]
          by_cases h : n ≤ rest.length + 1
          · rw [advance, if_pos h, mem_ends_push hp]
            have hLen : ((first :: rest).drop n).length = rest.length + 1 - n := by simp
            have hNil : (first :: rest).drop n ≠ [] ↔ n < rest.length + 1 := by
              rw [ne_eq, List.drop_eq_nil_iff, List.length_cons]
              omega
            rw [hNil, hLen, List.length_cons]
            have hIdx : p - (rest.length + 1 - n) = n + p - (rest.length + 1) := by omega
            rw [hIdx]
            constructor
            · rintro (⟨h1, h2⟩ | ⟨h1, h2⟩)
              · exact Or.inl ⟨List.cons_ne_nil _ _, by omega⟩
              · exact Or.inr ⟨by omega, h2⟩
            · rintro (⟨-, h2⟩ | ⟨h1, h2⟩)
              · exact Or.inl ⟨by omega, by omega⟩
              · exact Or.inr ⟨by omega, h2⟩
          · have hRest : n - (rest.length + 1) ≤ (ready inbox).length := by
              simp only [ready, List.cons_append, List.length_cons, List.length_append] at hn
              omega
            rw [advance, if_neg h, ih hRest, List.length_cons]
            have hIdx : n - (rest.length + 1) + p = n + p - (rest.length + 1) := by omega
            rw [hIdx]
            constructor
            · exact fun hm => Or.inr ⟨by omega, hm⟩
            · rintro (⟨-, h2⟩ | ⟨-, h2⟩)
              · omega
              · exact h2

/-- A read of ready data returns a non-empty beginning of it, which stops at
the first segment end unless the reader's limit comes before. -/
theorem read_ready {inbox : List (Arrival α)} {n : Nat} (hn : 0 < n) (h : ready inbox ≠ []) :
    ∃ k, 0 < k ∧ k ≤ n ∧ k ≤ (ready inbox).length ∧
      read n inbox = (.bytes ((ready inbox).take k), advance k inbox) ∧
      (k = n ∨ k ∈ ends inbox) ∧ ∀ p ∈ ends inbox, k ≤ p := by
  cases inbox with
  | nil => simp [ready] at h
  | cons head inbox =>
      cases head with
      | closed => simp [ready] at h
      | failed => simp [ready] at h
      | segment first rest =>
          refine ⟨min n (rest.length + 1), by omega, by omega, ?_, ?_, ?_, ?_⟩
          · simp only [ready, List.cons_append, List.length_cons, List.length_append]
            omega
          · rw [read, ready, advance, if_pos (by omega)]
            rcases Nat.le_total n (rest.length + 1) with hle | hge
            · rw [Nat.min_eq_left hle, List.take_append_of_le_length (by simpa using hle)]
            · rw [Nat.min_eq_right hge, List.take_append_of_le_length (by simp),
                List.take_of_length_le (by simpa using hge),
                List.drop_of_length_le (by simpa using hge)]
              simp
          · rcases Nat.le_total n (rest.length + 1) with hle | hge
            · exact Or.inl (Nat.min_eq_left hle)
            · exact Or.inr (by simp [ends, Nat.min_eq_right hge])
          · intro p hp
            simp only [ends, List.mem_cons, List.mem_map] at hp
            rcases hp with rfl | ⟨q, -, rfl⟩ <;> omega

/-- With nothing ready a read returns no data. -/
theorem read_not_ready {inbox : List (Arrival α)} (n : Nat) (h : ready inbox = []) :
    (read n inbox).1 = .closed ∨ (read n inbox).1 = .failed := by
  cases inbox with
  | nil => exact Or.inl rfl
  | cons head inbox =>
      cases head with
      | closed => exact Or.inl rfl
      | failed => exact Or.inr rfl
      | segment first rest => simp [ready] at h

/-- Enough can be read, and so much of it is. -/
theorem gather_ready {inbox : List (Arrival α)} {n : Nat} (hn : 0 < n)
    (h : n ≤ (ready inbox).length) :
    gather n inbox = ((ready inbox).take n, advance n inbox) := by
  induction inbox generalizing n with
  | nil => simp [ready] at h; omega
  | cons head inbox ih =>
      cases head with
      | closed => simp [ready] at h; omega
      | failed => simp [ready] at h; omega
      | segment first rest =>
          by_cases hle : n ≤ rest.length + 1
          · rw [gather, if_pos hle, advance, if_pos hle, ready,
              List.take_append_of_le_length (by simpa using hle)]
          · have hMore : n - (rest.length + 1) ≤ (ready inbox).length := by
              simp only [ready, List.cons_append, List.length_cons, List.length_append] at h
              omega
            have hPast : (first :: rest).length ≤ n := by
              simpa using (by omega : rest.length + 1 ≤ n)
            rw [gather, if_neg hle, advance, if_neg hle, ih (by omega) hMore, ready,
              List.take_append, List.take_of_length_le hPast, List.length_cons]

/-- A waiting read returns all it asked for when that much is ready, however
it is split into segments. -/
theorem readAll_ready {inbox : List (Arrival α)} {n : Nat} (hn : 0 < n)
    (h : n ≤ (ready inbox).length) :
    readAll n inbox = (.bytes ((ready inbox).take n), advance n inbox) := by
  cases inbox with
  | nil => simp [ready] at h; omega
  | cons head inbox =>
      cases head with
      | closed => simp [ready] at h; omega
      | failed => simp [ready] at h; omega
      | segment first rest => rw [readAll, gather_ready hn h]

/-- No more is read than was asked for. -/
theorem read_length {inbox left : List (Arrival α)} {n : Nat} {bs : List α}
    (h : read n inbox = (.bytes bs, left)) : bs.length ≤ n := by
  cases inbox with
  | nil => simp [read] at h
  | cons head inbox =>
      cases head with
      | closed => simp [read] at h
      | failed => simp [read] at h
      | segment first rest =>
          simp only [read, Prod.mk.injEq, Got.bytes.injEq] at h
          rw [← h.1]
          exact List.length_take_le ..

/-- A read uses something up. -/
theorem read_weight {inbox left : List (Arrival α)} {n : Nat} {bs : List α} (hn : 0 < n)
    (h : read n inbox = (.bytes bs, left)) : weight left < weight inbox := by
  cases inbox with
  | nil => simp [read] at h
  | cons head inbox =>
      cases head with
      | closed => simp [read] at h
      | failed => simp [read] at h
      | segment first rest =>
          simp only [read, Prod.mk.injEq] at h
          rw [← h.2, weight_push, weight, List.length_drop, List.length_cons]
          omega

theorem read_weight_le (n : Nat) (inbox : List (Arrival α)) :
    weight (read n inbox).2 ≤ weight inbox := by
  cases inbox with
  | nil => exact Nat.le_refl _
  | cons head inbox =>
      cases head with
      | closed => simp [read, weight]
      | failed => simp [read, weight]
      | segment first rest =>
          simp only [read, weight_push, weight, List.length_drop, List.length_cons]
          omega

/-- So does a read that waits, if anything is to come. -/
theorem gather_weight (inbox : List (Arrival α)) {n : Nat} (hn : 0 < n) :
    weight (gather n inbox).2 < weight inbox ∨ inbox = [] := by
  induction inbox generalizing n with
  | nil => exact Or.inr rfl
  | cons head inbox ih =>
      left
      cases head with
      | closed => simp [gather, weight]
      | failed => simp [gather, weight]
      | segment first rest =>
          by_cases hle : n ≤ rest.length + 1
          · rw [gather, if_pos hle, weight_push, weight, List.length_drop, List.length_cons]
            omega
          · rw [gather, if_neg hle, weight]
            rcases ih (n := n - (rest.length + 1)) (by omega) with h | h
            · simp only
              omega
            · simp [h, gather]

theorem readAll_weight {inbox left : List (Arrival α)} {n : Nat} {bs : List α} (hn : 0 < n)
    (h : readAll n inbox = (.bytes bs, left)) : weight left < weight inbox := by
  cases inbox with
  | nil => simp [readAll] at h
  | cons head inbox =>
      cases head with
      | closed => simp [readAll] at h
      | failed => simp [readAll] at h
      | segment first rest =>
          simp only [readAll, Prod.mk.injEq] at h
          rcases gather_weight (.segment first rest :: inbox) hn with hw | hw
          · rw [← h.2]
            exact hw
          · cases hw

end Delivery
