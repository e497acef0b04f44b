import Mathlib.Data.List.GetD
import Nct.Averages

/-! The times in the file `raw`. A time in cycles is multiplied by a million before it
is divided, in 64 bits. -/
namespace Nct

def sampleTime (now : UInt64) (samples : List (UInt64 × Stats)) (i : Nat) : Nat :=
  ((now :: samples.map Prod.fst).getD i 0).toNat

/-- Times in the file are in microseconds since the start and do not decrease, and
durations are the times since the sample before. -/
structure Report.TimesRight (report : Report) (tscFreq now : UInt64)
    (samples : List (UInt64 × Stats)) (n : Nat) : Prop where
  rows : report.raw.length = n
  times : ∀ i row, report.raw[i]? = some row →
    row.time.toNat = (sampleTime now samples (i + 1) - sampleTime now samples 0) * 1000000 / tscFreq.toNat
  ordered : (report.raw.map (·.time)).Pairwise (· ≤ ·)
  durations : ∀ i row, report.raw[i]? = some row →
    row.duration.toNat =
      (sampleTime now samples (i + 1) - sampleTime now samples i) * 1000000 / tscFreq.toNat

section
variable {args : StatsArgs} {s : StatsLoop} {p : Summary} {now : UInt64}
  {samples : List (UInt64 × Stats)} {w n i j : Nat}

/-- Sample times that do not decrease. -/
theorem sampleTime_mono (hTimes : (now :: samples.map Prod.fst).Pairwise (· ≤ ·)) (hij : i ≤ j)
    (hj : j ≤ samples.length) : sampleTime now samples i ≤ sampleTime now samples j := by
  rcases Nat.lt_or_eq_of_le hij with hLt | rfl
  · have hLength : (now :: samples.map Prod.fst).length = samples.length + 1 := by simp
    have hOrder := List.pairwise_iff_getElem.mp hTimes i j (by omega) (by omega) hLt
    rw [sampleTime, sampleTime, List.getD_eq_getElem _ _ (by omega), List.getD_eq_getElem _ _ (by omega)]
    exact UInt64.le_iff_toNat_le.mp hOrder
  · exact le_rfl

theorem StatsArgs.Holds.le_length (h : args.Holds now samples w s) : w ≤ samples.length := by
  cases w with
  | zero => exact samples.length.zero_le
  | succ w =>
      obtain ⟨x, hSample, -⟩ := h.shown w w.lt_succ_self
      exact (List.getElem?_eq_some_iff.mp hSample).1

/-- The rebased time of a record is the time since the start. -/
theorem StatsArgs.Holds.sinceStart (h : args.Holds now samples w s)
    (hTimes : (now :: samples.map Prod.fst).Pairwise (· ≤ ·)) (hi : i ≤ w) :
    (args.sinceStart s i).toNat = sampleTime now samples i - sampleTime now samples 0 := by
  cases i with
  | zero => rw [StatsArgs.sinceStart, if_pos rfl, h.first, Nat.sub_self]; rfl
  | succ i =>
      obtain ⟨x, hSample, hShown⟩ := h.shown i hi
      have hTime : sampleTime now samples (i + 1) = x.1.toNat := by simp [sampleTime, hSample]
      have hOrder := sampleTime_mono hTimes (Nat.zero_le (i + 1)) (hi.trans h.le_length)
      rw [hTime] at hOrder ⊢
      rw [StatsArgs.sinceStart, if_neg i.succ_ne_zero, h.tscStart, hShown.time]
      exact UInt64.toNat_sub_of_le _ _ (UInt64.le_iff_toNat_le.mpr hOrder)

/-- The times in the line of a record. -/
theorem StatsArgs.Holds.rawTimes (h : args.Holds now samples w s)
    (hTimes : (now :: samples.map Prod.fst).Pairwise (· ≤ ·)) (hi : i < w) :
    (args.rawTimes s i).1.toNat =
        (sampleTime now samples (i + 1) - sampleTime now samples 0) * 1000000 % 2 ^ 64 / args.tscFreq.toNat ∧
      (args.rawTimes s i).2.toNat =
        (sampleTime now samples (i + 1) - sampleTime now samples i) * 1000000 % 2 ^ 64 / args.tscFreq.toNat := by
  have hNext := h.sinceStart hTimes hi
  have hThis := h.sinceStart hTimes hi.le
  have hFirst := sampleTime_mono hTimes i.zero_le (hi.le.trans h.le_length)
  have hOrder := sampleTime_mono hTimes i.le_succ (hi.trans_le h.le_length)
  have hLater : args.sinceStart s i ≤ args.sinceStart s (i + 1) := by
    rw [UInt64.le_iff_toNat_le, hNext, hThis]
    omega
  have hMillion : (1000000 : UInt64).toNat = 1000000 := rfl
  constructor
  · rw [StatsArgs.rawTimes, UInt64.toNat_div, UInt64.toNat_mul, hNext, hMillion]
  · have hDiff : sampleTime now samples (i + 1) - sampleTime now samples 0 -
        (sampleTime now samples i - sampleTime now samples 0) =
          sampleTime now samples (i + 1) - sampleTime now samples i := by
      omega
    rw [StatsArgs.rawTimes, UInt64.toNat_div, UInt64.toNat_mul, UInt64.toNat_sub_of_le _ _ hLater, hNext,
      hThis, hDiff, hMillion]

end

section
variable (args : StatsArgs) (hAlloc : args.Allocated) (recs : UInt64 → StatsRec) (now : UInt64)
  (samples : List (UInt64 × Stats)) (hWithin : args.Within (args.run recs now samples).written)
  (hFreq : 0 < args.tscFreq) (hTimes : (now :: samples.map Prod.fst).Pairwise (· ≤ ·))
  (unset : UInt64) (mntStats : Stats)

include hAlloc hWithin hFreq hTimes

/-- The times are right just if every summarised sample has been taken so early that
its time in cycles, by a million, fits in 64 bits. -/
theorem rawTimes_right_iff :
    ∃ report, args.summary unset (args.run recs now samples) mntStats = some report ∧
      (report.TimesRight args.tscFreq now samples (args.intervals (args.run recs now samples)) ↔
        ∀ i < args.intervals (args.run recs now samples),
          (sampleTime now samples (i + 1) - sampleTime now samples 0) * 1000000 < 2 ^ 64) := by
  obtain ⟨w, p, hSummary, hSummed, hIntervals, hHolds⟩ :=
    StatsArgs.run_summary hAlloc recs now samples hWithin unset mntStats
  refine ⟨args.report p mntStats, hSummary, ?_⟩
  generalize args.intervals (args.run recs now samples) = n at hSummed hIntervals ⊢
  generalize args.run recs now samples = s at hSummed hHolds
  have hRows : p.raw.length = n := by simpa using congrArg List.length hSummed.times
  have hFreqNat : 0 < args.tscFreq.toNat := UInt64.lt_iff_toNat_lt.mp hFreq
  have hRow : ∀ i row, p.raw[i]? = some row → i < n ∧
      row.time.toNat =
        (sampleTime now samples (i + 1) - sampleTime now samples 0) * 1000000 % 2 ^ 64 / args.tscFreq.toNat ∧
      row.duration.toNat =
        (sampleTime now samples (i + 1) - sampleTime now samples i) * 1000000 % 2 ^ 64 / args.tscFreq.toNat := by
    intro i row hAt
    have hi : i < n := hRows ▸ (List.getElem?_eq_some_iff.mp hAt).1
    have hLine : some (row.time, row.duration) = some (args.rawTimes s i) := by
      have hMap := congrArg (fun lines => lines[i]?) hSummed.times
      simpa [hAt, List.getElem?_range hi] using hMap
    obtain ⟨hTime, hDuration⟩ := hHolds.rawTimes hTimes (hi.trans_le hIntervals)
    rw [← Option.some.inj hLine] at hTime hDuration
    exact ⟨hi, hTime, hDuration⟩
  constructor
  · intro hRight i hi
    have hAt := List.getElem?_eq_getElem (hRows.symm ▸ hi : i < p.raw.length)
    have hExact := hRight.times i _ hAt
    rw [(hRow i _ hAt).2.1] at hExact
    exact (Quotients.mod_div_eq_iff _ hFreqNat args.tscFreq.toNat_lt.le).mp hExact
  · intro hFits
    have hTime : ∀ i row, p.raw[i]? = some row → row.time.toNat =
        (sampleTime now samples (i + 1) - sampleTime now samples 0) * 1000000 / args.tscFreq.toNat := by
      intro i row hAt
      obtain ⟨hi, hTime, -⟩ := hRow i row hAt
      rw [hTime, Nat.mod_eq_of_lt (hFits i hi)]
    refine ⟨hRows, hTime, ?_, fun i row hAt => ?_⟩
    · rw [List.pairwise_map, List.pairwise_iff_getElem]
      intro i j hi hj hij
      rw [UInt64.le_iff_toNat_le, hTime i _ (List.getElem?_eq_getElem hi),
        hTime j _ (List.getElem?_eq_getElem hj)]
      have hLength := hIntervals.trans hHolds.le_length
      have hOrder := sampleTime_mono hTimes (Nat.succ_le_succ hij.le)
        ((hRows ▸ hj : j < n).trans_le hLength)
      exact Nat.div_le_div_right (Nat.mul_le_mul_right _ (Nat.sub_le_sub_right hOrder _))
    · obtain ⟨hi, -, hDuration⟩ := hRow i row hAt
      have hFirst := sampleTime_mono hTimes i.zero_le
        (hi.le.trans (hIntervals.trans hHolds.le_length))
      have hShort := Nat.mul_le_mul_right 1000000
        (Nat.sub_le_sub_left hFirst (sampleTime now samples (i + 1)))
      rw [hDuration, Nat.mod_eq_of_lt (hShort.trans_lt (hFits i hi))]

end

/-- Two of three samples are in the file. -/
theorem rawTimes_right_iff_three :
    ∃ report, (mainStats 60 4096 true 2400000000).summary 0
        ((mainStats 60 4096 true 2400000000).run (fun _ => .zero) 0 threeSamples) .zero = some report ∧
      (report.TimesRight 2400000000 0 threeSamples
          ((mainStats 60 4096 true 2400000000).intervals
            ((mainStats 60 4096 true 2400000000).run (fun _ => .zero) 0 threeSamples)) ↔
        ∀ i < (mainStats 60 4096 true 2400000000).intervals
            ((mainStats 60 4096 true 2400000000).run (fun _ => .zero) 0 threeSamples),
          (sampleTime 0 threeSamples (i + 1) - sampleTime 0 threeSamples 0) * 1000000 < 2 ^ 64) :=
  rawTimes_right_iff (mainStats 60 4096 true 2400000000) ⟨by decide, by decide⟩ _ 0 threeSamples
    (by decide +kernel) (by decide) (by decide) 0 .zero

/-- The first sample, and two after 8000 s. -/
def lateSamples : List (UInt64 × Stats) :=
  [(240000000, .zero), (19200000000000, .zero), (19200240000000, .zero)]

/-- After 8000 s at 2.4 GHz the file has a time of 313 s. -/
theorem rawTimes_overflow :
    ¬ ∀ (args : StatsArgs) (recs : UInt64 → StatsRec) (now : UInt64) (samples : List (UInt64 × Stats))
      (unset : UInt64) (mntStats : Stats), args.Allocated →
      args.Within (args.run recs now samples).written → 0 < args.tscFreq →
      (now :: samples.map Prod.fst).Pairwise (· ≤ ·) →
      ∃ report, args.summary unset (args.run recs now samples) mntStats = some report ∧
        report.TimesRight args.tscFreq now samples (args.intervals (args.run recs now samples)) := by
  intro h
  obtain ⟨report, hSummary, hRight⟩ := h (mainStats 10000 4096 true 2400000000) (fun _ => .zero) 0
    lateSamples 0 .zero ⟨by decide, by decide⟩ (by decide +kernel) (by decide) (by decide)
  have hShown : ((mainStats 10000 4096 true 2400000000).summary 0
      ((mainStats 10000 4096 true 2400000000).run (fun _ => .zero) 0 lateSamples) .zero).map
        (fun report => report.raw[1]?.map (·.time)) = some (some 313856635) := by
    decide +kernel
  rw [hSummary] at hShown
  obtain ⟨row, hAt, hTime⟩ := Option.map_eq_some_iff.mp (Option.some.inj hShown)
  have hExact := hRight.times 1 row hAt
  rw [hTime] at hExact
  exact absurd hExact (by decide)

end Nct
