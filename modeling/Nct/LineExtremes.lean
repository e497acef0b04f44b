import Nct.Records
import Nct.Status
import Nct.Support.Extremes

/-! The extremes in a status line. They are reset by every sample, whether it prints
a line or not. -/
namespace Nct

/-- At each sample `mnt_stats` holds the extremes of the requests completed since it
was last reset, and has counted them. -/
def Reflects : Stats → List StatsTurn → Prop
  | _, [] => True
  | mntStats, x :: xs =>
      x.mntStats.latencyMin = Extremes.lowest mntStats.latencyMin x.batch ∧
        x.mntStats.latencyMax = Extremes.highest mntStats.latencyMax x.batch ∧
        x.mntStats.requests = mntStats.requests + UInt64.ofNat x.batch.length ∧
        Reflects x.mntStats.sampled xs

/-- The latencies of all requests that a line counts. -/
def StatusLine.counted (line : StatusLine) : List UInt64 := line.earlier ++ line.last

/-- The extremes of a line are those of the requests that it counts. -/
def StatusLine.ExtremesRight (line : StatusLine) : Prop :=
  (∀ x d, line.latMin = .cycles x d → IsLeast {latency | latency ∈ line.counted} x) ∧
    ∀ x d, line.latMax = .cycles x d → IsGreatest {latency | latency ∈ line.counted} x

/-- The latencies of earlier samples lie between those of the last one. -/
def StatusLine.LastCovers (line : StatusLine) : Prop :=
  ∀ x ∈ line.earlier, (∃ y ∈ line.last, y ≤ x) ∧ ∃ y ∈ line.last, x ≤ y

section
variable {args : StatsArgs} {mark : UInt32} {s : Status} {x : StatsTurn} {xs : List StatsTurn}

/-- The extremes have been reset, and the requests since the last line are counted. -/
def Status.Reset (s : Status) (xs : List StatsTurn) : Prop :=
  ∃ mntStats : Stats, mntStats.latencyMin = 0 - 1 ∧ mntStats.latencyMax = 0 ∧
    mntStats.requests = s.reqsLast + UInt64.ofNat s.since.length ∧ Reflects mntStats xs

theorem Status.Reset.found (h : s.Reset (x :: xs)) :
    x.mntStats.latencyMin = Extremes.lowest (0 - 1) x.batch ∧
      x.mntStats.latencyMax = Extremes.highest 0 x.batch ∧
      x.mntStats.requests = s.reqsLast + UInt64.ofNat (s.since ++ x.batch).length ∧
      Reflects x.mntStats.sampled xs := by
  obtain ⟨mntStats, hMin, hMax, hRequests, hLow, hHigh, hCount, hRest⟩ := h
  refine ⟨hMin ▸ hLow, hMax ▸ hHigh, ?_, hRest⟩
  rw [hCount, hRequests, List.length_append, UInt64.ofNat_add, UInt64.add_assoc]

theorem Status.Reset.pass (h : s.Reset (x :: xs)) : (s.pass x).Reset xs := by
  obtain ⟨-, -, hRequests, hRest⟩ := h.found
  exact ⟨x.mntStats.sampled, rfl, rfl, hRequests, hRest⟩

theorem Status.Reset.next (h : s.Reset (x :: xs)) : (s.next x).Reset xs := by
  obtain ⟨-, -, -, hRest⟩ := h.found
  exact ⟨x.mntStats.sampled, rfl, rfl, (UInt64.add_zero _).symm, hRest⟩

/-- A line counts the requests since the line before, and its extremes are right just
if the last sample's cover the others. -/
theorem Status.Reset.line (h : s.Reset (x :: xs)) (hMoves : s.Moves x) :
    (s.line args x).ops = UInt64.ofNat (s.line args x).counted.length ∧
      ((s.line args x).ExtremesRight ↔ (s.line args x).LastCovers) := by
  obtain ⟨hMin, hMax, hRequests, -⟩ := h.found
  have hOps : (s.line args x).ops = UInt64.ofNat (s.since ++ x.batch).length := by
    change x.mntStats.requests - s.reqsLast = _
    rw [hRequests, UInt64.add_comm, UInt64.add_sub_cancel]
  have hSome : s.since ++ x.batch ≠ [] := by
    intro hNone
    have hMore : x.mntStats.requests > s.reqsLast := hMoves
    rw [hRequests, hNone] at hMore
    simp at hMore
  have hLatMin : (s.line args x).latMin = .cycles x.mntStats.latencyMin (x.now - s.tscLast) := if_pos hMoves
  have hLatMax : (s.line args x).latMax = .cycles x.mntStats.latencyMax (x.now - s.tscLast) := if_pos hMoves
  refine ⟨hOps, ?_⟩
  have hZero : ∀ v : UInt64, 0 ≤ v := fun v => UInt64.le_iff_toNat_le.mpr (Nat.zero_le _)
  have hTop : ∀ v : UInt64, v ≤ 0 - 1 := fun v => UInt64.le_iff_toNat_le.mpr (Nat.le_pred_of_lt v.toNat_lt)
  have hLast := Extremes.extremes_append_iff hZero hTop (by decide) s.since hSome
  rw [← hMin, ← hMax] at hLast
  have hRight : (s.line args x).ExtremesRight ↔
      IsLeast {latency | latency ∈ s.since ++ x.batch} x.mntStats.latencyMin ∧
        IsGreatest {latency | latency ∈ s.since ++ x.batch} x.mntStats.latencyMax := by
    simp only [StatusLine.ExtremesRight, hLatMin, hLatMax, LatColumn.cycles.injEq]
    constructor
    · intro h
      exact ⟨h.1 _ _ ⟨rfl, rfl⟩, h.2 _ _ ⟨rfl, rfl⟩⟩
    · rintro ⟨hLeast, hGreatest⟩
      refine ⟨?_, ?_⟩
      · rintro v d ⟨rfl, rfl⟩
        exact hLeast
      · rintro v d ⟨rfl, rfl⟩
        exact hGreatest
  exact hRight.trans hLast

end

/-- In every run, the extremes of a line with replies are right just if the latencies
of earlier samples lie between those of the last one. -/
theorem lineExtremes_right_iff (args : StatsArgs) (mark : UInt32) (recs : UInt64 → StatsRec)
    (now : UInt64) (xs : List StatsTurn) (h : Reflects .mounted xs) :
    ∀ line ∈ args.statusLines mark (args.statusStart recs now) xs, line.latMin ≠ .unset →
      line.ops = UInt64.ofNat line.counted.length ∧ (line.ExtremesRight ↔ line.LastCovers) := by
  intro line hLine
  obtain ⟨before, hPair⟩ := exists_mem_linesAfter hLine now
  refine StatsArgs.statusLines_forall args mark Status.Reset
    (fun _ line => line.latMin ≠ .unset →
      line.ops = UInt64.ofNat line.counted.length ∧ (line.ExtremesRight ↔ line.LastCovers))
    ?_ ?_ xs (args.statusStart recs now) ⟨.mounted, rfl, rfl, rfl, h⟩ (before, line) hPair
  · intro s x xs hReset
    exact hReset.pass
  · intro s x xs hReset
    refine ⟨fun hShown => ?_, hReset.next⟩
    apply hReset.line
    by_contra hStalled
    exact hShown (if_neg hStalled)

/-- Two samples in a second: a request of 5 cycles completes before the first of them,
and one of 7 before the second, which prints a line. -/
def twoTurns : List StatsTurn :=
  [⟨240000000, { Stats.mounted with latencyMin := 5, latencyMax := 5, latencyCum := 5, requests := 1 }, 1, [5]⟩,
    ⟨2400000000, { Stats.mounted with latencyMin := 7, latencyMax := 7, latencyCum := 12, requests := 2 }, 1,
      [7]⟩]

theorem lineExtremes_right_iff_two :
    ∃ line ∈ (mainStats 60 0 true 2400000000).statusLines 1
        ((mainStats 60 0 true 2400000000).statusStart (fun _ => .zero) 0) twoTurns,
      line.ops = UInt64.ofNat line.counted.length ∧ (line.ExtremesRight ↔ line.LastCovers) := by
  have hReflects : Reflects .mounted twoTurns := by
    refine ⟨?_, ?_, ?_, ?_, ?_, ?_, trivial⟩ <;> decide
  have hShown : (((mainStats 60 0 true 2400000000).statusLines 1
      ((mainStats 60 0 true 2400000000).statusStart (fun _ => .zero) 0) twoTurns)[0]?.map
        (·.latMin)) = some (.cycles 7 2400000000) := by
    decide +kernel
  obtain ⟨line, hLine, hLatMin⟩ := Option.map_eq_some_iff.mp hShown
  have hMem := List.mem_of_getElem? hLine
  refine ⟨line, hMem, lineExtremes_right_iff (mainStats 60 0 true 2400000000) 1 (fun _ => .zero) 0
    twoTurns hReflects line hMem ?_⟩
  rw [hLatMin]
  exact LatColumn.noConfusion

/-- The line shows 7 as the least and the greatest number of cycles. -/
theorem lineExtremes_lastSample :
    ¬ ∀ (args : StatsArgs) (mark : UInt32) (recs : UInt64 → StatsRec) (now : UInt64)
      (xs : List StatsTurn), Reflects .mounted xs →
      ∀ line ∈ args.statusLines mark (args.statusStart recs now) xs, line.ExtremesRight := by
  intro h
  have hReflects : Reflects .mounted twoTurns := by
    refine ⟨?_, ?_, ?_, ?_, ?_, ?_, trivial⟩ <;> decide
  have hShown : (((mainStats 60 0 true 2400000000).statusLines 1
      ((mainStats 60 0 true 2400000000).statusStart (fun _ => .zero) 0) twoTurns)[0]?.map
        fun line => (line.latMin, line.counted)) = some (.cycles 7 2400000000, [5, 7]) := by
    decide +kernel
  obtain ⟨line, hLine, hColumns⟩ := Option.map_eq_some_iff.mp hShown
  obtain ⟨hLatMin, hCounted⟩ := Prod.mk.inj hColumns
  have hRight := h _ 1 (fun _ => .zero) 0 twoTurns hReflects line (List.mem_of_getElem? hLine)
  have hLeast := (hRight.1 7 2400000000 hLatMin).2
  rw [hCounted] at hLeast
  have hBound : (7 : UInt64) ≤ 5 := hLeast (List.mem_cons_self ..)
  exact absurd hBound (by decide)

end Nct
