import Nct.Summary

/-! What the table holds when the loop ends: in record `i` the sample `i` that was
taken, for all the records that the pass at the end comes to. -/
namespace Nct

open Function (update)

/-- A record that a sample has been put into. -/
structure StatsRec.Shows (r : StatsRec) (x : UInt64 × Stats) : Prop where
  time : r.time = x.1
  requests : r.requests = x.2.requests
  throughputSend : r.throughputSend = x.2.thruputSend
  throughputRecv : r.throughputRecv = x.2.thruputRecv
  latency : r.latency = x.2.latencyCum

/-- The first record is the baseline, and the first `w` samples follow it. -/
structure StatsArgs.Holds (args : StatsArgs) (now : UInt64) (samples : List (UInt64 × Stats))
    (w : Nat) (s : StatsLoop) : Prop where
  tscStart : s.tscStart = now
  endRec : s.endRec = args.endRec
  room : w < args.statsc.toNat
  first : args.recAt s.recs 0 = { StatsRec.zero with duration := now }
  shown : ∀ i < w, ∃ x, samples[i]? = some x ∧ (args.recAt s.recs (i + 1)).Shows x

/-- How far a run has recorded its samples: all of them, or until the table was full. -/
inductive StatsArgs.Recorded (args : StatsArgs) (now : UInt64) (samples : List (UInt64 × Stats))
    (s : StatsLoop) : Prop where
  | all (hCur : s.cur = UInt64.ofNat (args.place (samples.length + 1)))
      (hHolds : args.Holds now samples samples.length s)
  | full (w : Nat) (hCur : s.cur = 0) (hEnd : args.endRec.toNat ≤ args.place (w + 1))
      (hHolds : args.Holds now samples w s)

section
variable {args : StatsArgs} {s : StatsLoop} {now : UInt64} {samples : List (UInt64 × Stats)} {w : Nat}

theorem StatsArgs.Allocated.toNat_place (hAlloc : args.Allocated) {i : Nat} (hi : i ≤ args.statsc.toNat) :
    (UInt64.ofNat (args.place i)).toNat = args.place i :=
  UInt64.toNat_ofNat_of_lt' ((args.place_mono hi).trans_lt hAlloc.ends)

theorem StatsArgs.Holds.snoc (h : args.Holds now samples w s) (x : UInt64 × Stats) :
    args.Holds now (samples ++ [x]) w s := by
  refine ⟨h.tscStart, h.endRec, h.room, h.first, fun i hi => ?_⟩
  obtain ⟨y, hSample, hShows⟩ := h.shown i hi
  exact ⟨y, by rw [List.getElem?_append_left (List.getElem?_eq_some_iff.mp hSample).1, hSample], hShows⟩

/-- A sample is put into the record after those that hold one. -/
theorem StatsArgs.Holds.sample (h : args.Holds now samples samples.length s) (hAlloc : args.Allocated)
    (hCur : s.cur = UInt64.ofNat (args.place (samples.length + 1))) (hNonzero : s.cur ≠ 0)
    (hRoom : samples.length + 1 < args.statsc.toNat) (x : UInt64 × Stats) :
    args.Holds now (samples ++ [x]) (samples.length + 1) (s.sample x.1 x.2) := by
  have hOther : ∀ i ≤ samples.length, args.recAt (s.sample x.1 x.2).recs i = args.recAt s.recs i := by
    intro i hi
    simp only [StatsLoop.sample, if_pos hNonzero, StatsArgs.recAt]
    rw [hCur]
    exact Function.update_of_ne
      (StatsArgs.ofNat_place_ne ((args.place_mono hRoom.le).trans_lt hAlloc.ends) (by omega) le_rfl
        (by omega)) _ _
  have hNew : (args.recAt (s.sample x.1 x.2).recs (samples.length + 1)).Shows x := by
    simp only [StatsLoop.sample, if_pos hNonzero, StatsArgs.recAt]
    rw [← hCur, Function.update_self]
    exact ⟨rfl, rfl, rfl, rfl, rfl⟩
  refine ⟨?_, ?_, hRoom, ?_, fun i hi => ?_⟩
  · simp only [StatsLoop.sample, if_pos hNonzero, h.tscStart]
  · simp only [StatsLoop.sample, if_pos hNonzero, h.endRec]
  · rw [hOther 0 (Nat.zero_le _), h.first]
  · rcases Nat.lt_or_ge i samples.length with hLt | hGe
    · obtain ⟨y, hSample, hShows⟩ := (h.snoc x).shown i hLt
      exact ⟨y, hSample, by rwa [hOther (i + 1) hLt]⟩
    · obtain rfl : i = samples.length := by omega
      exact ⟨x, by simp, hNew⟩

theorem StatsArgs.start_recorded (hAlloc : args.Allocated) (hSome : 0 < args.statsc.toNat)
    (recs : UInt64 → StatsRec) (now : UInt64) : args.Recorded now [] (args.start recs now) := by
  have hClear : args.clear recs now =
      ⟨now, now, 0, args.statsv + statsRecSize, args.endRec, update recs args.statsv .zero,
        [args.statsv]⟩ := by
    rw [StatsArgs.clear, if_pos ⟨hAlloc.somewhere, UInt32.lt_iff_toNat_lt.mpr hSome⟩]
  rw [StatsArgs.start, if_pos hAlloc.somewhere, hClear]
  refine .all ?_ ⟨rfl, rfl, hSome, ?_, fun i hi => absurd hi (Nat.not_lt_zero i)⟩
  · rw [List.length_nil, ← args.ofNat_place_succ, args.ofNat_place_zero]
  · simp [StatsArgs.recAt, StatsArgs.ofNat_place_zero]

/-- A run all of whose records are of the table records its samples. -/
theorem StatsArgs.run_recorded (hAlloc : args.Allocated) (recs : UInt64 → StatsRec) (now : UInt64)
    (samples : List (UInt64 × Stats)) (hWithin : args.Within (args.run recs now samples).written) :
    args.Recorded now samples (args.run recs now samples) := by
  induction samples using List.reverseRecOn with
  | nil =>
      obtain ⟨i, hi, -⟩ := hWithin args.statsv (StatsArgs.mem_run hAlloc recs now [])
      exact StatsArgs.start_recorded hAlloc (Nat.zero_lt_of_lt hi) recs now
  | append_singleton samples x ih =>
      rw [args.run_snoc] at hWithin ⊢
      have hBefore := ih fun a ha => hWithin a (mem_sample ha x.1 x.2)
      generalize args.run recs now samples = s at hWithin hBefore ⊢
      cases hBefore with
      | all hCur hHolds =>
          have hPlace := hAlloc.toNat_place hHolds.room
          have hNonzero : s.cur ≠ 0 := by
            intro hZero
            rw [← hCur, hZero, StatsArgs.place_eq, UInt64.toNat_zero] at hPlace
            omega
          obtain ⟨-, hWritten, hNext⟩ := sample_cur hNonzero x.1 x.2
          obtain ⟨j, hj, hSame⟩ := hWithin s.cur (by rw [hWritten]; simp)
          rw [hCur, hPlace, StatsArgs.place_eq, StatsArgs.place_eq] at hSame
          have hRoom : samples.length + 1 < args.statsc.toNat := by omega
          have hSample := hHolds.sample hAlloc hCur hNonzero hRoom x
          rw [hCur, args.ofNat_place_succ] at hNext
          split at hNext
          · next hStop =>
              refine .full (samples.length + 1) hNext ?_ hSample
              rw [ge_iff_le, hHolds.endRec, UInt64.le_iff_toNat_le, hAlloc.toNat_place hRoom] at hStop
              exact hStop
          · next hGo =>
              refine .all ?_ ?_
              · rw [hNext, List.length_append, List.length_singleton]
              · rwa [List.length_append, List.length_singleton]
      | full w hCur hEnd hHolds =>
          have hSame : (s.sample x.1 x.2).tscStart = s.tscStart ∧ (s.sample x.1 x.2).recs = s.recs := by
            simp [StatsLoop.sample, hCur]
          obtain ⟨hEndRec, -, hNext⟩ := sample_stopped hCur x.1 x.2
          obtain ⟨hStart, hEndRec', hRoom, hFirst, hShows⟩ := hHolds.snoc x
          refine .full w hNext hEnd ⟨hSame.1.trans hStart, hEndRec.trans hEndRec', hRoom, ?_, ?_⟩
          · rwa [hSame.2]
          · rwa [hSame.2]

/-- The pass comes to no more records than hold samples. -/
theorem StatsArgs.Recorded.holds (h : args.Recorded now samples s) (hAlloc : args.Allocated) :
    ∃ w, args.intervals s ≤ w ∧ args.Holds now samples w s := by
  cases h with
  | all hCur hHolds =>
      refine ⟨samples.length, ?_, hHolds⟩
      have hPlace := hAlloc.toNat_place hHolds.room
      have hNonzero : s.cur ≠ 0 := by
        intro hZero
        rw [← hCur, hZero, StatsArgs.place_eq, UInt64.toNat_zero] at hPlace
        omega
      have hEnd : s.passEnd = UInt64.ofNat (args.place samples.length) := by
        rw [StatsLoop.passEnd, if_pos hNonzero, hCur, ← args.ofNat_place_succ, UInt64.add_sub_cancel]
      rw [StatsArgs.intervals, hEnd, hAlloc.toNat_place hHolds.room.le, StatsArgs.place_eq,
        StatsArgs.place_eq]
      omega
  | full w hCur hEnd hHolds =>
      refine ⟨w, ?_, hHolds⟩
      rw [StatsArgs.place_eq] at hEnd
      rw [StatsArgs.intervals, StatsLoop.passEnd, if_neg (not_not.mpr hCur), hHolds.endRec,
        StatsArgs.place_eq]
      omega

end

end Nct
