import Mathlib.Algebra.Order.Field.Rat
import Nct.Records
import Nct.Status

/-! The unit of the latencies in a status line. Cycles are divided by the time since
the line before, in cycles, and not by the frequency of the clock. -/
namespace Nct

def StatusLine.latencies (line : StatusLine) : List LatColumn := [line.latMin, line.latAvg, line.latMax]

/-- All latencies of a line are in microseconds. -/
def StatusLine.UnitsRight (line : StatusLine) (tscFreq : UInt64) : Prop :=
  ∀ column ∈ line.latencies, ∀ x d, column = .cycles x d →
    column.shown = some (x.toNat * 1000000 / tscFreq.toNat : ℚ)

theorem shown_eq_iff {x d tscFreq : UInt64} (hFreq : tscFreq ≠ 0) :
    (LatColumn.cycles x d).shown = some (x.toNat * 1000000 / tscFreq.toNat : ℚ) ↔
      d = tscFreq ∨ (d ≠ 0 ∧ x = 0) := by
  have hCast : ∀ y : UInt64, y ≠ 0 → (y.toNat : ℚ) ≠ 0 := fun y hy =>
    Nat.cast_ne_zero.mpr fun hZero => hy (UInt64.toNat_inj.mp hZero)
  by_cases hZero : d = 0
  · simp [LatColumn.shown, hZero, hFreq.symm]
  · rw [LatColumn.shown, if_neg hZero, Option.some.injEq]
    constructor
    · intro hSame
      by_cases hNone : x = 0
      · exact Or.inr ⟨hZero, hNone⟩
      · have hProduct : (x.toNat : ℚ) * 1000000 ≠ 0 := mul_ne_zero (hCast x hNone) (by decide)
        rw [div_eq_div_iff (hCast d hZero) (hCast tscFreq hFreq), mul_right_inj' hProduct,
          Nat.cast_inj] at hSame
        exact Or.inl (UInt64.toNat_inj.mp hSame.symm)
    · rintro (rfl | ⟨-, rfl⟩)
      · rfl
      · simp

section
variable {args : StatsArgs} {s : Status} {x : StatsTurn} {column : LatColumn}

/-- The divisor of a line is the time since the line before. -/
theorem line_latencies (h : column ∈ (s.line args x).latencies) {y d : UInt64}
    (hCycles : column = .cycles y d) : d = x.now - s.tscLast := by
  simp only [StatusLine.latencies, Status.line, List.mem_cons, List.not_mem_nil, or_false] at h
  by_cases hMoves : s.Moves x
  · simp only [if_pos hMoves] at h
    rcases h with rfl | rfl | rfl <;> exact (LatColumn.cycles.inj hCycles).2.symm
  · simp only [if_neg hMoves] at h
    rcases h with rfl | rfl | rfl <;> cases hCycles

/-- The latencies of a line are in microseconds just if it is printed one second after
the line before, or there are none but zeros. -/
theorem line_unitsRight_iff (hFreq : args.tscFreq ≠ 0) :
    (s.line args x).UnitsRight args.tscFreq ↔
      x.now - s.tscLast = args.tscFreq ∨
        ∀ column ∈ (s.line args x).latencies, ∀ y d, column = .cycles y d →
          x.now - s.tscLast ≠ 0 ∧ y = 0 := by
  constructor
  · intro hRight
    by_cases hSecond : x.now - s.tscLast = args.tscFreq
    · exact Or.inl hSecond
    · refine Or.inr fun column hColumn y d hCycles => ?_
      have hShown := hRight column hColumn y d hCycles
      rw [hCycles, shown_eq_iff hFreq, line_latencies hColumn hCycles] at hShown
      exact hShown.resolve_left hSecond
  · intro hSecond column hColumn y d hCycles
    rw [hCycles, shown_eq_iff hFreq, line_latencies hColumn hCycles]
    exact hSecond.imp_right fun hZero => hZero column hColumn y d hCycles

end

/-- In every run, the latencies of a line are in microseconds just if it is printed one
second after the line before, or some time after it and without a latency but zero. -/
theorem lineUnits_right_iff (args : StatsArgs) (mark : UInt32) (recs : UInt64 → StatsRec)
    (now : UInt64) (xs : List StatsTurn) (hFreq : args.tscFreq ≠ 0) :
    ∀ pair ∈ linesAfter now (args.statusLines mark (args.statusStart recs now) xs),
      pair.2.UnitsRight args.tscFreq ↔
        pair.2.printedAt - pair.1 = args.tscFreq ∨
          ∀ column ∈ pair.2.latencies, ∀ x d, column = .cycles x d →
            pair.2.printedAt - pair.1 ≠ 0 ∧ x = 0 := by
  refine StatsArgs.statusLines_forall args mark (fun _ _ => True)
    (fun before line => line.UnitsRight args.tscFreq ↔
      line.printedAt - before = args.tscFreq ∨
        ∀ column ∈ line.latencies, ∀ x d, column = .cycles x d → line.printedAt - before ≠ 0 ∧ x = 0)
    (fun _ _ _ _ => trivial) (fun s x xs _ => ⟨?_, trivial⟩) xs (args.statusStart recs now) trivial
  exact line_unitsRight_iff hFreq

def lateTurn : StatsTurn :=
  ⟨4800000000, { Stats.mounted with latencyMin := 2400, latencyMax := 2400, latencyCum := 2400, requests := 1 },
    1, [2400]⟩

theorem lineUnits_right_iff_late :
    ∃ pair ∈ linesAfter 0 ((mainStats 60 0 true 2400000000).statusLines 2
        ((mainStats 60 0 true 2400000000).statusStart (fun _ => .zero) 0) [lateTurn]),
      (pair.2.UnitsRight 2400000000 ↔
        pair.2.printedAt - pair.1 = 2400000000 ∨
          ∀ column ∈ pair.2.latencies, ∀ x d, column = .cycles x d →
            pair.2.printedAt - pair.1 ≠ 0 ∧ x = 0) := by
  have hSome : linesAfter 0 ((mainStats 60 0 true 2400000000).statusLines 2
      ((mainStats 60 0 true 2400000000).statusStart (fun _ => .zero) 0) [lateTurn]) ≠ [] := by
    decide +kernel
  obtain ⟨pair, hPair⟩ := List.exists_mem_of_ne_nil _ hSome
  exact ⟨pair, hPair, lineUnits_right_iff (mainStats 60 0 true 2400000000) 2 (fun _ => .zero) 0 [lateTurn]
    (by decide) pair hPair⟩

/-- A microsecond is shown as half of one when the mark period is two seconds. -/
theorem lineUnits_markPeriod :
    ¬ ∀ (args : StatsArgs) (mark : UInt32) (recs : UInt64 → StatsRec) (now : UInt64)
      (xs : List StatsTurn), args.tscFreq ≠ 0 →
      ∀ line ∈ args.statusLines mark (args.statusStart recs now) xs, line.UnitsRight args.tscFreq := by
  intro h
  have hColumn : (((mainStats 60 0 true 2400000000).statusLines 2
      ((mainStats 60 0 true 2400000000).statusStart (fun _ => .zero) 0) [lateTurn])[0]?.map
        (·.latMin)) = some (.cycles 2400 4800000000) := by
    decide +kernel
  obtain ⟨line, hLine, hLatMin⟩ := Option.map_eq_some_iff.mp hColumn
  have hRight := h (mainStats 60 0 true 2400000000) 2 (fun _ => .zero) 0 [lateTurn] (by decide) line
    (List.mem_of_getElem? hLine)
  have hOne := hRight line.latMin (List.mem_cons_self ..) 2400 4800000000 hLatMin
  rw [hLatMin] at hOne
  revert hOne
  decide +kernel

end Nct
