import Nct.StatsLoop
import Nct.Support.Signed

/-! The table of samples: main allocates it by a count of 32 bits, and
`nct_stats_loop` computes its end anew from the duration. -/
namespace Nct

def mainStatsc (duration : Int64) : UInt32 :=
  ((duration + 1) * (1000000 / (100 * 1000))).toUInt64.toUInt32

/-- What main calls `nct_stats_loop` with when it has allocated the table. -/
def mainStats (duration : Int64) (statsv : UInt64) (haveTsc : Bool) (tscFreq : UInt64) : StatsArgs :=
  ⟨100 * 1000, duration, statsv, mainStatsc duration, haveTsc, tscFreq⟩

def StatsArgs.place (args : StatsArgs) (i : Nat) : Nat := args.statsv.toNat + statsRecSize.toNat * i

/-- The table has been allocated: it is somewhere, and ends before the end of memory. -/
structure StatsArgs.Allocated (args : StatsArgs) : Prop where
  somewhere : args.statsv ≠ 0
  ends : args.place args.statsc.toNat < 2 ^ 64

/-- Every record written is one of the table. -/
def StatsArgs.Within (args : StatsArgs) (written : List UInt64) : Prop :=
  ∀ a ∈ written, ∃ i < args.statsc.toNat, a.toNat = args.place i

/-- The table is not empty, and its end does not lie before that which the loop
computes, or the loop does not get there. -/
def StatsArgs.Suffices (args : StatsArgs) (samples : Nat) : Prop :=
  0 < args.statsc ∧ (samples < args.statsc.toNat ∨ args.endRec.toNat ≤ args.place args.statsc.toNat)

theorem StatsArgs.place_eq (args : StatsArgs) (i : Nat) : args.place i = args.statsv.toNat + 56 * i := rfl

/-- An address is that of a record just if it is a whole number of records away. -/
theorem StatsArgs.exists_place_iff (args : StatsArgs) (a n : Nat) :
    (∃ i < n, a = args.place i) ↔
      args.statsv.toNat ≤ a ∧ (a - args.statsv.toNat) % 56 = 0 ∧ (a - args.statsv.toNat) / 56 < n := by
  constructor
  · rintro ⟨i, hi, hPlace⟩
    rw [StatsArgs.place_eq] at hPlace
    omega
  · rintro ⟨hAfter, hWhole, hFew⟩
    refine ⟨(a - args.statsv.toNat) / 56, hFew, ?_⟩
    rw [StatsArgs.place_eq]
    omega

instance (args : StatsArgs) (written : List UInt64) : Decidable (args.Within written) :=
  decidable_of_iff (written.all fun a => decide (args.statsv.toNat ≤ a.toNat ∧
      (a.toNat - args.statsv.toNat) % 56 = 0 ∧ (a.toNat - args.statsv.toNat) / 56 < args.statsc.toNat))
    (by simp only [List.all_eq_true, decide_eq_true_eq, ← args.exists_place_iff, StatsArgs.Within])

section
variable {args : StatsArgs} {s : StatsLoop} {k : Nat}

/-- One more record is written within the table. -/
theorem StatsArgs.Within.snoc {written : List UInt64} {a : UInt64} {i : Nat}
    (h : args.Within written) (ha : a.toNat = args.place i) (hi : i < args.statsc.toNat) :
    args.Within (written ++ [a]) := by
  intro b hb
  rcases List.mem_append.mp hb with hOld | hNew
  · exact h b hOld
  · rw [List.mem_singleton.mp hNew]
    exact ⟨i, hi, ha⟩

/-- How far the table has been filled with `k` samples. -/
inductive StatsArgs.Filled (args : StatsArgs) (s : StatsLoop) (k : Nat) : Prop where
  | more (hCur : s.cur.toNat = args.place (k + 1)) (hRoom : k < args.statsc.toNat)
      (hEnd : k = 0 ∨ s.cur < args.endRec) (hWithin : args.Within s.written)
  | full (hCur : s.cur = 0) (hEnd : args.endRec.toNat ≤ args.place args.statsc.toNat)
      (hWithin : args.Within s.written)
  | past (hEnd : args.place args.statsc.toNat < args.endRec.toNat) (hMany : args.statsc.toNat ≤ k)
      (hOut : ¬ args.Within s.written)

/-- What has been written is within the table just if the table has room for so many
samples. -/
theorem StatsArgs.Filled.within_iff (h : args.Filled s k) (hSome : 0 < args.statsc) :
    args.Within s.written ↔ args.Suffices k := by
  cases h with
  | more hCur hRoom hEnd hWithin => exact iff_of_true hWithin ⟨hSome, Or.inl hRoom⟩
  | full hCur hEnd hWithin => exact iff_of_true hWithin ⟨hSome, Or.inr hEnd⟩
  | past hEnd hMany hOut =>
      apply iff_of_false hOut
      rintro ⟨-, hFew | hEarly⟩
      · omega
      · omega

/-- Up to the end of the table, the address of the next record does not wrap. -/
theorem StatsArgs.Allocated.next_place (hAlloc : args.Allocated) {a : UInt64} {i : Nat}
    (ha : a.toNat = args.place i) (hi : i < args.statsc.toNat) :
    (a + statsRecSize).toNat = args.place (i + 1) := by
  have hEnds := hAlloc.ends
  have hNext : args.place (i + 1) ≤ args.place args.statsc.toNat :=
    Nat.add_le_add_left (Nat.mul_le_mul_left _ hi) _
  have hStep : args.place (i + 1) = args.place i + statsRecSize.toNat := by
    rw [StatsArgs.place, StatsArgs.place, Nat.mul_succ, Nat.add_assoc]
  rw [UInt64.toNat_add, ha, ← hStep]
  exact Nat.mod_eq_of_lt (Nat.lt_of_le_of_lt hNext hEnds)

/-- Before its first sample the loop has written nothing. -/
theorem StatsArgs.start_filled (hAlloc : args.Allocated) (hTwo : 1 < args.statsc.toNat)
    (recs : UInt64 → StatsRec) (now : UInt64) :
    (args.start recs now).endRec = args.endRec ∧ args.Filled (args.start recs now) 0 := by
  have hSome : args.statsc > 0 := UInt32.lt_iff_toNat_lt.mpr (Nat.lt_of_succ_lt hTwo)
  have hFirst : args.Within [args.statsv] := by
    intro a ha
    exact ⟨0, Nat.lt_of_succ_lt hTwo, by rw [List.mem_singleton.mp ha]; rfl⟩
  have hClear : args.clear recs now =
      ⟨now, now, 0, args.statsv + statsRecSize, args.endRec,
        Function.update recs args.statsv .zero, [args.statsv]⟩ := by
    rw [StatsArgs.clear, if_pos ⟨hAlloc.somewhere, hSome⟩]
  simp only [StatsArgs.start, if_pos hAlloc.somewhere, hClear]
  refine ⟨trivial, .more ?_ (Nat.lt_of_succ_lt hTwo) (Or.inl rfl) ?_⟩
  · exact hAlloc.next_place rfl (Nat.lt_of_succ_lt hTwo)
  · exact hFirst.snoc (i := 0) rfl (Nat.lt_of_succ_lt hTwo)

/-- A sample is put at `cur`, which then moves on or stops. -/
theorem sample_cur (hCur : s.cur ≠ 0) (now : UInt64) (mntStats : Stats) :
    (s.sample now mntStats).endRec = s.endRec ∧
      (s.sample now mntStats).written = s.written ++ [s.cur] ∧
      (s.sample now mntStats).cur =
        if s.cur + statsRecSize ≥ s.endRec then 0 else s.cur + statsRecSize := by
  simp [StatsLoop.sample, hCur]

/-- Once the loop has stopped, it writes nothing more. -/
theorem sample_stopped (hCur : s.cur = 0) (now : UInt64) (mntStats : Stats) :
    (s.sample now mntStats).endRec = s.endRec ∧
      (s.sample now mntStats).written = s.written ∧ (s.sample now mntStats).cur = 0 := by
  simp [StatsLoop.sample, hCur]

/-- What has been written stays written. -/
theorem mem_sample {a : UInt64} (ha : a ∈ s.written) (now : UInt64) (mntStats : Stats) :
    a ∈ (s.sample now mntStats).written := by
  by_cases hCur : s.cur = 0
  · rwa [(sample_stopped hCur now mntStats).2.1]
  · rw [(sample_cur hCur now mntStats).2.1]
    exact List.mem_append_left _ ha

/-- A sample writes the next record, or stops at the last. -/
theorem StatsArgs.Filled.sample (h : args.Filled s k) (hAlloc : args.Allocated)
    (hTwo : 1 < args.statsc.toNat) (hEndRec : s.endRec = args.endRec) (now : UInt64)
    (mntStats : Stats) : args.Filled (s.sample now mntStats) (k + 1) := by
  cases h with
  | more hCur hRoom hEnd hWithin =>
      have hNonzero : s.cur ≠ 0 := by
        intro hZero
        rw [hZero, StatsArgs.place_eq, UInt64.toNat_zero] at hCur
        omega
      obtain ⟨-, hWritten, hNext⟩ := sample_cur hNonzero now mntStats
      by_cases hMore : k + 1 < args.statsc.toNat
      · have hPlace := hAlloc.next_place hCur hMore
        have hWithin' := hWithin.snoc hCur hMore
        rw [← hWritten] at hWithin'
        split at hNext
        · next hStop =>
            refine .full hNext ?_ hWithin'
            rw [hEndRec] at hStop
            have hBefore : args.place (k + 2) ≤ args.place args.statsc.toNat :=
              Nat.add_le_add_left (Nat.mul_le_mul_left _ hMore) _
            exact (UInt64.le_iff_toNat_le.mp hStop).trans (hPlace.le.trans hBefore)
        · next hGo =>
            refine .more (hNext ▸ hPlace) hMore (Or.inr ?_) hWithin'
            rw [hNext, ← hEndRec]
            exact UInt64.not_le.mp hGo
      · have hLast : k + 1 = args.statsc.toNat := by omega
        have hPast := hEnd.resolve_left (by omega)
        refine .past ?_ hLast.ge ?_
        · rw [← hLast, ← hCur]
          exact UInt64.lt_iff_toNat_lt.mp hPast
        · intro hAll
          obtain ⟨i, hi, hSame⟩ := hAll s.cur (by rw [hWritten]; simp)
          rw [hCur, StatsArgs.place_eq, StatsArgs.place_eq] at hSame
          omega
  | full hCur hEnd hWithin =>
      obtain ⟨-, hWritten, hNext⟩ := sample_stopped hCur now mntStats
      exact .full hNext hEnd (hWritten ▸ hWithin)
  | past hEnd hMany hOut =>
      refine .past hEnd (Nat.le_succ_of_le hMany) fun hAll => hOut fun a ha => ?_
      exact hAll a (mem_sample ha now mntStats)

theorem StatsArgs.run_snoc (recs : UInt64 → StatsRec) (now : UInt64) (samples : List (UInt64 × Stats))
    (x : UInt64 × Stats) :
    args.run recs now (samples ++ [x]) = (args.run recs now samples).sample x.1 x.2 := by
  simp [StatsArgs.run]

/-- The first record is written in any case. -/
theorem StatsArgs.mem_run (hAlloc : args.Allocated) (recs : UInt64 → StatsRec) (now : UInt64)
    (samples : List (UInt64 × Stats)) : args.statsv ∈ (args.run recs now samples).written := by
  induction samples using List.reverseRecOn with
  | nil => simp [StatsArgs.run, StatsArgs.start, hAlloc.somewhere]
  | append_singleton samples x ih =>
      rw [args.run_snoc]
      exact mem_sample ih x.1 x.2

/-- After any samples, so many records have been written from the first one on. -/
theorem StatsArgs.run_filled (hAlloc : args.Allocated) (hTwo : 1 < args.statsc.toNat)
    (recs : UInt64 → StatsRec) (now : UInt64) (samples : List (UInt64 × Stats)) :
    (args.run recs now samples).endRec = args.endRec ∧
      args.Filled (args.run recs now samples) samples.length := by
  induction samples using List.reverseRecOn with
  | nil => exact args.start_filled hAlloc hTwo recs now
  | append_singleton samples x ih =>
      obtain ⟨hEnd, hFilled⟩ := ih
      rw [args.run_snoc, List.length_append, List.length_singleton]
      refine ⟨?_, hFilled.sample hAlloc hTwo hEnd x.1 x.2⟩
      by_cases hCur : (args.run recs now samples).cur = 0
      · exact (sample_stopped hCur x.1 x.2).1.trans hEnd
      · exact (sample_cur hCur x.1 x.2).1.trans hEnd

end

/-- The count keeps the last 32 bits. -/
theorem mainStatsc_toNat (duration : Int64) :
    ((mainStatsc duration).toNat : Int) = 10 * (duration.toInt + 1) % 2 ^ 32 := by
  have hTen : (1000000 / (100 * 1000) : Int64).toInt = 10 := rfl
  have hOne : (1 : Int64).toInt = 1 := rfl
  rw [mainStatsc, UInt64.toNat_toUInt32, Int.natCast_mod, Signed.mul_toUInt64_toNat, Int64.toInt_add,
    hTen, hOne, Int.bmod_eq_emod]
  split <;> omega

section
variable {duration : Int64} {statsv : UInt64} {haveTsc : Bool} {tscFreq : UInt64}

@[simp] theorem mainStats_statsv : (mainStats duration statsv haveTsc tscFreq).statsv = statsv := rfl

@[simp] theorem mainStats_statsc :
    (mainStats duration statsv haveTsc tscFreq).statsc = mainStatsc duration := rfl

theorem mainStats_samplesPerSec : (mainStats duration statsv haveTsc tscFreq).samplesPerSec = 10 := by
  change (1000000 / (100 * 1000) : Int64) = 10
  decide

/-- Where main has the table end, modulo 2^64. -/
theorem mainStats_endRec (duration : Int64) (statsv : UInt64) (haveTsc : Bool) (tscFreq : UInt64) :
    ((mainStats duration statsv haveTsc tscFreq).endRec.toNat : Int) =
      (statsv.toNat + 560 * duration.toInt) % 2 ^ 64 := by
  have hTen : (10 : Int64).toInt = 10 := rfl
  have hSize : (statsRecSize.toNat : Int) = 56 := rfl
  have hRecords := Signed.mul_toUInt64_toNat duration 10
  rw [hTen] at hRecords
  rw [StatsArgs.endRec, mainStats_samplesPerSec, UInt64.toNat_add, UInt64.toNat_mul, Int.natCast_mod,
    Int.natCast_add, Int.natCast_mod, Int.natCast_mul, hSize]
  simp only [mainStats]
  omega

/-- In a run of less than 13 years the table always suffices. -/
theorem mainStats_suffices (hNonneg : 0 ≤ duration.toInt)
    (hShort : 10 * (duration.toInt + 1) < 2 ^ 32)
    (hAlloc : (mainStats duration statsv haveTsc tscFreq).Allocated) (samples : Nat) :
    (mainStats duration statsv haveTsc tscFreq).Suffices samples := by
  have hCount := mainStatsc_toNat duration
  have hEnd := mainStats_endRec duration statsv haveTsc tscFreq
  have hEnds := hAlloc.ends
  rw [StatsArgs.place_eq, mainStats_statsv, mainStats_statsc] at hEnds
  rw [StatsArgs.Suffices, StatsArgs.place_eq, mainStats_statsv, mainStats_statsc, UInt32.lt_iff_toNat_lt,
    UInt32.toNat_zero]
  generalize (mainStats duration statsv haveTsc tscFreq).endRec.toNat = endRec at hEnd ⊢
  generalize (mainStatsc duration).toNat = count at hCount hEnds ⊢
  have hExact : (count : Int) = 10 * (duration.toInt + 1) := by
    rw [hCount]
    exact Int.emod_eq_of_lt (by omega) hShort
  refine ⟨by omega, Or.inr ?_⟩
  rw [Int.emod_eq_of_lt (by omega) (by omega)] at hEnd
  omega

end

/-- Every record written is one of the table just if the table suffices. -/
theorem records_within_iff (duration : Int64) (statsv : UInt64) (haveTsc : Bool) (tscFreq : UInt64)
    (hAlloc : (mainStats duration statsv haveTsc tscFreq).Allocated) (recs : UInt64 → StatsRec)
    (now : UInt64) (samples : List (UInt64 × Stats)) :
    (mainStats duration statsv haveTsc tscFreq).Within
        ((mainStats duration statsv haveTsc tscFreq).run recs now samples).written ↔
      (mainStats duration statsv haveTsc tscFreq).Suffices samples.length := by
  have hCount := mainStatsc_toNat duration
  by_cases hSome : 0 < (mainStatsc duration).toNat
  · have hTwo : 1 < (mainStats duration statsv haveTsc tscFreq).statsc.toNat := by
      rw [mainStats_statsc]
      omega
    obtain ⟨-, hFilled⟩ := StatsArgs.run_filled hAlloc hTwo recs now samples
    exact hFilled.within_iff (UInt32.lt_iff_toNat_lt.mpr hSome)
  · refine iff_of_false ?_ fun hSuffices => hSome (UInt32.lt_iff_toNat_lt.mp hSuffices.1)
    intro hWithin
    obtain ⟨i, hi, -⟩ := hWithin statsv (StatsArgs.mem_run hAlloc recs now samples)
    exact hSome (Nat.zero_lt_of_lt hi)

/-- A run of a minute, of which 700 samples are taken. -/
theorem records_within_iff_minute :
    (mainStats 60 4096 true 2400000000).Within
      ((mainStats 60 4096 true 2400000000).run (fun _ => .zero) 0
        (List.replicate 700 (0, .zero))).written := by
  have hAlloc : (mainStats 60 4096 true 2400000000).Allocated := ⟨by decide, by decide⟩
  exact (records_within_iff 60 4096 true 2400000000 hAlloc _ 0 _).mpr ⟨by decide, Or.inr (by decide)⟩

/-- For a run of 429496729 s main allocates four records, and the fourth sample is
put behind them. -/
theorem records_within_long :
    ¬ ∀ (duration : Int64) (statsv : UInt64) (haveTsc : Bool) (tscFreq : UInt64)
      (recs : UInt64 → StatsRec) (now : UInt64) (samples : List (UInt64 × Stats)),
      0 ≤ duration → (mainStats duration statsv haveTsc tscFreq).Allocated →
      (mainStats duration statsv haveTsc tscFreq).Within
        ((mainStats duration statsv haveTsc tscFreq).run recs now samples).written := by
  intro h
  have hWithin := h 429496729 4096 true 2400000000 (fun _ => .zero) 0
    (List.replicate 4 (0, .zero)) (by decide) ⟨by decide, by decide⟩
  obtain ⟨i, hi, hPlace⟩ := hWithin 4320 (by decide)
  rw [StatsArgs.place_eq, mainStats_statsv] at hPlace
  have hFour : i < 4 := hi
  have hIndex : 4320 = 4096 + 56 * i := hPlace
  omega

end Nct
