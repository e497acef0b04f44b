import Nct.Series
import Nct.Support.Quotients

/-! The averages of the summary. The pass divides by the number of records, which is
by one more than the number of intervals. -/
namespace Nct

/-- The number of records from one of the table to another. -/
theorem recDiff_places (args : StatsArgs) {i j : Nat} (hj : j ≤ i) (hi : i ≤ 2 ^ 32) :
    (recDiff (UInt64.ofNat (args.place i)) (UInt64.ofNat (args.place j))).toInt = (i - j : Nat) := by
  have hSplit : args.place i = args.place j + 56 * (i - j) := by
    rw [StatsArgs.place_eq, StatsArgs.place_eq]
    omega
  have hBytes : UInt64.ofNat (args.place i) - UInt64.ofNat (args.place j) = UInt64.ofNat (56 * (i - j)) := by
    rw [hSplit, UInt64.ofNat_add, UInt64.add_comm, UInt64.add_sub_cancel]
  have hSize : (56 : Int64).toInt = 56 := rfl
  have hDiff : (UInt64.ofNat (56 * (i - j))).toInt64.toInt = 56 * (i - j : Nat) := by
    have hFits : 56 * (i - j) < 2 ^ 64 := by omega
    rw [Signed.toInt64_toInt, UInt64.toNat_ofNat_of_lt' hFits, Int.bmod_eq_of_le (by omega) (by omega)]
    exact Int.natCast_mul 56 (i - j)
  rw [recDiff, hBytes, Int64.toInt_div_of_ne_right _ _ (by decide), hDiff, hSize,
    Int.mul_tdiv_cancel_left _ (by decide)]

/-- The number of records before one of the table. -/
theorem recDiff_place (args : StatsArgs) {n : Nat} (hn : n ≤ 2 ^ 32) :
    (recDiff (UInt64.ofNat (args.place n)) args.statsv).toUInt64.toNat = n := by
  have hDiff := recDiff_places args n.zero_le hn
  have hUnsigned := Signed.toUInt64_toNat (recDiff (UInt64.ofNat (args.place n)) args.statsv)
  rw [args.ofNat_place_zero] at hDiff
  rw [hDiff] at hUnsigned
  omega

/-- The increase of a counter over `n` intervals, by the samples in a second. -/
def StatsArgs.perSecond (args : StatsArgs) (recs : UInt64 → StatsRec) (c : Counter) (n : Nat) : Nat :=
  args.increase recs c n * args.samplesPerSec.toUInt64.toNat

/-- The square of a number of records fits. -/
theorem records_mul_self_le {n : Nat} (hFew : n < 2 ^ 32) : n * n ≤ 2 ^ 64 :=
  calc n * n ≤ 2 ^ 32 * 2 ^ 32 := Nat.mul_le_mul hFew.le hFew.le
    _ = 2 ^ 64 := (Nat.pow_add 2 32 32).symm

section
variable {args : StatsArgs} {s : StatsLoop} {p : Summary} {n : Nat}

/-- The average that is printed for a counter. -/
theorem StatsArgs.Summed.avg (h : args.Summed s n n p) (hFew : n < 2 ^ 32) (mntStats : Stats)
    (c : Counter) :
    (c.line (args.report p mntStats)).avg.toNat =
      args.perSecond s.recs c n % 2 ^ 64 / (n + 1) := by
  have hLine : (c.line (args.report p mntStats)).avg =
      (c.totals p).tot * args.samplesPerSec.toUInt64 / (recDiff p.cur args.statsv).toUInt64 := by
    cases c <;> rfl
  rw [hLine, UInt64.toNat_div, UInt64.toNat_mul, h.tot c, h.cur, recDiff_place args hFew, Nat.mod_mul_mod]
  rfl

/-- A run all of whose records are of the table has the samples in it that are
summarised, and the pass stays within memory. -/
theorem StatsArgs.run_holds (hAlloc : args.Allocated) (recs : UInt64 → StatsRec) (now : UInt64)
    (samples : List (UInt64 × Stats)) (hWithin : args.Within (args.run recs now samples).written) :
    ∃ w, args.intervals (args.run recs now samples) ≤ w ∧
      args.Holds now samples w (args.run recs now samples) ∧
      args.place (args.intervals (args.run recs now samples) + 1) < 2 ^ 64 := by
  obtain ⟨w, hIntervals, hHolds⟩ :=
    (StatsArgs.run_recorded hAlloc recs now samples hWithin).holds hAlloc
  exact ⟨w, hIntervals, hHolds,
    (args.place_mono (Nat.succ_le_of_lt (hIntervals.trans_lt hHolds.room))).trans_lt hAlloc.ends⟩

/-- So it has a summary. -/
theorem StatsArgs.run_summary (hAlloc : args.Allocated) (recs : UInt64 → StatsRec) (now : UInt64)
    (samples : List (UInt64 × Stats)) (hWithin : args.Within (args.run recs now samples).written)
    (unset : UInt64) (mntStats : Stats) :
    ∃ w p, args.summary unset (args.run recs now samples) mntStats = some (args.report p mntStats) ∧
      args.Summed (args.run recs now samples) (args.intervals (args.run recs now samples))
        (args.intervals (args.run recs now samples)) p ∧
      args.intervals (args.run recs now samples) ≤ w ∧
      args.Holds now samples w (args.run recs now samples) := by
  obtain ⟨w, hIntervals, hHolds, hFits⟩ := StatsArgs.run_holds hAlloc recs now samples hWithin
  obtain ⟨p, hSummary, hSummed, -⟩ := StatsArgs.summary_invariant hFits unset mntStats
    (fun _ _ => True) trivial fun _ _ _ _ _ => trivial
  exact ⟨w, p, hSummary, hSummed, hIntervals, hHolds⟩

end

section
variable (args : StatsArgs) (hAlloc : args.Allocated) (recs : UInt64 → StatsRec) (now : UInt64)
  (samples : List (UInt64 × Stats)) (hWithin : args.Within (args.run recs now samples).written)
  (hSome : 0 < args.intervals (args.run recs now samples)) (unset : UInt64) (mntStats : Stats)

include hAlloc hWithin hSome

/-- The average of a counter is its increase over all intervals, by samples in a
second and per interval, just if that quotient is at most the remainder and the
product fits in 64 bits. -/
theorem averages_right_iff :
    ∃ report, args.summary unset (args.run recs now samples) mntStats = some report ∧
      ∀ c : Counter,
        let n := args.intervals (args.run recs now samples)
        let x := args.perSecond (args.run recs now samples).recs c n
        (c.line report).avg.toNat = x / n ↔ x < 2 ^ 64 ∧ x / n ≤ x % n := by
  obtain ⟨w, p, hSummary, hSummed, hIntervals, hHolds⟩ :=
    StatsArgs.run_summary hAlloc recs now samples hWithin unset mntStats
  have hFew := (hIntervals.trans_lt hHolds.room).trans args.statsc.toNat_lt
  refine ⟨args.report p mntStats, hSummary, fun c => ?_⟩
  rw [hSummed.avg hFew mntStats c]
  exact Quotients.mod_div_succ_eq_iff _ hSome (records_mul_self_le hFew)

/-- With the same increase in every interval, the average is that of an interval only
if it is zero. -/
theorem average_constant_iff (c : Counter) (d : Nat)
    (hSame : ∀ i < args.intervals (args.run recs now samples),
      (c.value (args.recAt (args.run recs now samples).recs (i + 1)) -
        c.value (args.recAt (args.run recs now samples).recs i)).toNat = d) :
    ∃ report, args.summary unset (args.run recs now samples) mntStats = some report ∧
      ((c.line report).avg.toNat = d * args.samplesPerSec.toUInt64.toNat ↔
        d * args.samplesPerSec.toUInt64.toNat = 0) := by
  obtain ⟨w, p, hSummary, hSummed, hIntervals, hHolds⟩ :=
    StatsArgs.run_summary hAlloc recs now samples hWithin unset mntStats
  have hFew := (hIntervals.trans_lt hHolds.room).trans args.statsc.toNat_lt
  have hIncrease : args.increase (args.run recs now samples).recs c
      (args.intervals (args.run recs now samples)) = args.intervals (args.run recs now samples) * d := by
    rw [StatsArgs.increase, Finset.sum_congr rfl fun i hi => hSame i (Finset.mem_range.mp hi)]
    simp
  refine ⟨args.report p mntStats, hSummary, ?_⟩
  have hScaled : args.perSecond (args.run recs now samples).recs c
      (args.intervals (args.run recs now samples)) =
        args.intervals (args.run recs now samples) * (d * args.samplesPerSec.toUInt64.toNat) := by
    rw [StatsArgs.perSecond, hIncrease, Nat.mul_assoc]
  have hAverage := Quotients.mod_div_succ_eq_iff
    (args.intervals (args.run recs now samples) * (d * args.samplesPerSec.toUInt64.toNat)) hSome
    (records_mul_self_le hFew)
  rw [Nat.mul_div_cancel_left _ hSome, Nat.mul_mod_right] at hAverage
  rw [hSummed.avg hFew mntStats c, hScaled, hAverage, Nat.le_zero]
  refine and_iff_right_of_imp fun hZero => ?_
  rw [hZero, Nat.mul_zero]
  exact Nat.two_pow_pos 64

end

def threeSamples : List (UInt64 × Stats) :=
  [(240000000, { Stats.zero with requests := 100 }), (480000000, { Stats.zero with requests := 200 }),
    (720000000, { Stats.zero with requests := 300 })]

/-- Two of three samples are summarised. -/
theorem averages_right_iff_three :
    ∃ report, (mainStats 60 4096 true 2400000000).summary 0
        ((mainStats 60 4096 true 2400000000).run (fun _ => .zero) 0 threeSamples) .zero = some report ∧
      ∀ c : Counter,
        let s := (mainStats 60 4096 true 2400000000).run (fun _ => .zero) 0 threeSamples
        let n := (mainStats 60 4096 true 2400000000).intervals s
        let x := (mainStats 60 4096 true 2400000000).perSecond s.recs c n
        (c.line report).avg.toNat = x / n ↔ x < 2 ^ 64 ∧ x / n ≤ x % n :=
  averages_right_iff (mainStats 60 4096 true 2400000000) ⟨by decide, by decide⟩ _ 0 threeSamples
    (by decide +kernel) (by decide +kernel) 0 .zero

/-- Their average is 666 requests per second. -/
theorem averages_dividedByRecords :
    ¬ ∀ (args : StatsArgs) (recs : UInt64 → StatsRec) (now : UInt64) (samples : List (UInt64 × Stats))
      (unset : UInt64) (mntStats : Stats), args.Allocated →
      args.Within (args.run recs now samples).written → 0 < args.intervals (args.run recs now samples) →
      ∃ report, args.summary unset (args.run recs now samples) mntStats = some report ∧
        ∀ c : Counter,
          (c.line report).avg.toNat =
            args.perSecond (args.run recs now samples).recs c (args.intervals (args.run recs now samples)) /
              args.intervals (args.run recs now samples) := by
  intro h
  obtain ⟨report, hSummary, hAverage⟩ := h (mainStats 60 4096 true 2400000000) (fun _ => .zero) 0
    threeSamples 0 .zero ⟨by decide, by decide⟩ (by decide +kernel) (by decide +kernel)
  have hShown : ((mainStats 60 4096 true 2400000000).summary 0
      ((mainStats 60 4096 true 2400000000).run (fun _ => .zero) 0 threeSamples) .zero).map
        (fun report => report.requests.avg) = some 666 := by
    decide +kernel
  have hExact : (mainStats 60 4096 true 2400000000).perSecond
      ((mainStats 60 4096 true 2400000000).run (fun _ => .zero) 0 threeSamples).recs .requests 2 / 2 = 1000 := by
    decide +kernel
  have hTwo : (mainStats 60 4096 true 2400000000).intervals
      ((mainStats 60 4096 true 2400000000).run (fun _ => .zero) 0 threeSamples) = 2 := by
    decide +kernel
  rw [hSummary] at hShown
  have hAvg : (Counter.requests.line report).avg = 666 := Option.some.inj hShown
  have hRight := hAverage .requests
  rw [hAvg, hTwo, hExact] at hRight
  exact absurd hRight (by decide)

end Nct
