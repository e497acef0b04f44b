import Nct.Averages
import Nct.Support.Extremes

/-! The running averages of the pass. The window's tail stays at the second record
until the window is a second long, and then follows. -/
namespace Nct

def ULONG_MAX : UInt64 := 0 - 1

/-- The running average that a line of the file has of a counter. -/
def Counter.ra : Counter → RawRow → UInt64
  | throughputSend => (·.thruputSendRa)
  | throughputRecv => (·.thruputRecvRa)
  | requests => (·.requestsRa)

/-- The increase of a counter that a line of the file has. -/
def Counter.column : Counter → RawRow → UInt64
  | throughputSend => (·.throughputSend)
  | throughputRecv => (·.throughputRecv)
  | requests => (·.requests)

/-- What the minimum of a counter is before the pass. -/
def Counter.minStart (unset : UInt64) : Counter → UInt64
  | throughputSend => ULONG_MAX
  | throughputRecv => ULONG_MAX
  | requests => unset

/-- The samples in a second, for a number that is positive. -/
def StatsArgs.perSec (args : StatsArgs) : Nat := args.samplesPerSec.toInt.toNat

/-- How much a counter increases over the `w` intervals up to record `i`. -/
def StatsArgs.window (args : StatsArgs) (recs : UInt64 → StatsRec) (c : Counter) (w i : Nat) : UInt64 :=
  c.value (args.recAt recs i) - c.value (args.recAt recs (i - w))

/-- The increases over a window, for all the records up to record `k` that are far
enough from the first. -/
def StatsArgs.windows (args : StatsArgs) (recs : UInt64 → StatsRec) (c : Counter) (w k : Nat) :
    List UInt64 :=
  (List.range (k - w)).map fun j => args.window recs c w (w + j + 1)

section
variable {args : StatsArgs} {s : StatsLoop} {p : Summary} {recs : UInt64 → StatsRec} {c : Counter}
  {unset : UInt64} {n k w : Nat}

theorem StatsArgs.mem_windows {x : UInt64} :
    x ∈ args.windows recs c w k ↔ ∃ i, w < i ∧ i ≤ k ∧ x = args.window recs c w i := by
  simp only [StatsArgs.windows, List.mem_map, List.mem_range]
  constructor
  · rintro ⟨j, hj, rfl⟩
    exact ⟨w + j + 1, by omega, by omega, rfl⟩
  · rintro ⟨i, hw, hi, rfl⟩
    refine ⟨i - w - 1, by omega, ?_⟩
    rw [show w + (i - w - 1) + 1 = i by omega]

/-- A record whose window is full adds its own to them. -/
theorem StatsArgs.windows_succ (args : StatsArgs) (recs : UInt64 → StatsRec) (c : Counter) (w k : Nat) :
    args.windows recs c w (k + 1) =
      if w ≤ k then args.windows recs c w k ++ [args.window recs c w (k + 1)]
      else args.windows recs c w k := by
  by_cases hFull : w ≤ k
  · have hLast : w + (k - w) + 1 = k + 1 := by omega
    rw [if_pos hFull, StatsArgs.windows, Nat.succ_sub hFull, List.range_succ, List.map_append,
      List.map_singleton, hLast]
    rfl
  · rw [if_neg hFull, StatsArgs.windows, StatsArgs.windows, Nat.sub_eq_zero_of_le (by omega),
      Nat.sub_eq_zero_of_le (by omega)]

/-- The pass after `k` records, as far as windows go: the tail of the window, and
what the file and the extremes have. -/
structure StatsArgs.Windowed (args : StatsArgs) (unset : UInt64) (s : StatsLoop) (k : Nat)
    (p : Summary) : Prop where
  tail : p.tail = UInt64.ofNat (args.place (k - args.perSec + 1))
  rows : p.raw.length = k
  averages : ∀ c i row, p.raw[i]? = some row → args.perSec ≤ i →
    c.ra row = args.window s.recs c args.perSec (i + 1)
  min : ∀ c, (c.totals p).min = Extremes.lowest (c.minStart unset) (args.windows s.recs c args.perSec k)
  max : ∀ c, (c.totals p).max = Extremes.highest 0 (args.windows s.recs c args.perSec k)
  increases : ∀ c, (p.raw.map c.column).sum = args.window s.recs c k k

theorem StatsArgs.summaryStart_windowed (args : StatsArgs) (unset : UInt64) (s : StatsLoop) :
    args.Windowed unset s 0 (args.summaryStart unset s) := by
  refine ⟨?_, rfl, ?_, ?_, ?_, ?_⟩
  · rw [Nat.zero_sub, ← args.ofNat_place_succ, args.ofNat_place_zero]
    rfl
  · intro c i row hRow
    simp [StatsArgs.summaryStart] at hRow
  · intro c
    rw [StatsArgs.windows, Nat.zero_sub]
    cases c <;> rfl
  · intro c
    rw [StatsArgs.windows, Nat.zero_sub]
    cases c <;> rfl
  · intro c
    rw [StatsArgs.window, UInt64.sub_self]
    rfl

/-- What the pass adds to a counter's totals at a record. -/
theorem summaryBody_totals (args : StatsArgs) (tscStart : UInt64) (p : Summary) (c : Counter) :
    c.totals (args.summaryBody tscStart p) =
      (c.totals p).add (c.value (p.recs p.cur) - c.value (p.recs p.prev))
        (if recDiff p.cur p.tail ≥ args.samplesPerSec then
          some (c.value (p.recs p.cur) - c.value (p.recs p.tail)) else none) := by
  cases c <;> rfl

/-- What it has in the record's line. -/
theorem summaryBody_raw (args : StatsArgs) (tscStart : UInt64) (p : Summary) :
    ∃ row, (args.summaryBody tscStart p).raw = p.raw ++ [row] ∧
      ∀ c : Counter, c.column row = c.value (p.recs p.cur) - c.value (p.recs p.prev) ∧
        (recDiff p.cur p.tail ≥ args.samplesPerSec →
          c.ra row = c.value (p.recs p.cur) - c.value (p.recs p.tail)) := by
  refine ⟨_, rfl, fun c => ⟨by cases c <;> rfl, fun hFull => ?_⟩⟩
  cases c <;> simp only [Counter.ra, if_pos hFull] <;> rfl

/-- The window is full once the record is far enough from the first. -/
theorem StatsArgs.Windowed.full_iff (h : args.Windowed unset s k p) (hSummed : args.Summed s n k p)
    (hRate : 1 ≤ args.samplesPerSec) (hFew : k + 1 ≤ 2 ^ 32) :
    recDiff p.cur p.tail ≥ args.samplesPerSec ↔ args.perSec ≤ k := by
  have hPos : (1 : Int) ≤ args.samplesPerSec.toInt := Int64.le_iff_toInt_le.mp hRate
  have hPerSec : args.perSec = args.samplesPerSec.toInt.toNat := rfl
  rw [ge_iff_le, Int64.le_iff_toInt_le, hSummed.cur, h.tail,
    recDiff_places args (Nat.add_le_add_right (Nat.sub_le _ _) 1) hFew]
  omega

theorem StatsArgs.Windowed.body (h : args.Windowed unset s k p) (hSummed : args.Summed s n k p)
    (hRate : 1 ≤ args.samplesPerSec) (hk : k < n) (hFew : n ≤ 2 ^ 32) :
    args.Windowed unset s (k + 1) (args.summaryBody s.tscStart p) := by
  have hFull := h.full_iff hSummed hRate (Nat.le_trans hk hFew)
  have hCur : ∀ c : Counter, c.value (p.recs p.cur) = c.value (args.recAt s.recs (k + 1)) := by
    intro c
    rw [hSummed.cur]
    exact hSummed.value le_rfl hk c
  have hPrev : ∀ c : Counter, c.value (p.recs p.prev) = c.value (args.recAt s.recs k) := by
    intro c
    rw [hSummed.prev]
    exact hSummed.value k.le_succ hk c
  have hTail : ∀ c : Counter,
      c.value (p.recs p.tail) = c.value (args.recAt s.recs (k - args.perSec + 1)) := by
    intro c
    rw [h.tail]
    exact hSummed.value (by omega) hk c
  have hWindow : args.perSec ≤ k → ∀ c : Counter,
      c.value (p.recs p.cur) - c.value (p.recs p.tail) = args.window s.recs c args.perSec (k + 1) := by
    intro hLe c
    rw [hCur, hTail, StatsArgs.window, Nat.succ_sub hLe]
  obtain ⟨row, hRaw, hRow⟩ := summaryBody_raw args s.tscStart p
  refine ⟨?_, ?_, ?_, ?_, ?_, ?_⟩
  · have hMoves : (args.summaryBody s.tscStart p).tail =
        if recDiff p.cur p.tail ≥ args.samplesPerSec then p.tail + statsRecSize else p.tail := rfl
    rw [hMoves, h.tail]
    by_cases hLe : args.perSec ≤ k
    · rw [if_pos (h.tail ▸ hFull.mpr hLe), args.ofNat_place_succ, Nat.succ_sub hLe]
    · rw [if_neg (h.tail ▸ mt hFull.mp hLe), Nat.sub_eq_zero_of_le (by omega),
        Nat.sub_eq_zero_of_le (by omega)]
  · rw [hRaw, List.length_append, h.rows]
    rfl
  · intro c i line hLine hLe
    rw [hRaw] at hLine
    rcases Nat.lt_or_ge i k with hOld | hNew
    · rw [List.getElem?_append_left (h.rows ▸ hOld)] at hLine
      exact h.averages c i line hLine hLe
    · obtain ⟨hi, -⟩ := List.getElem?_eq_some_iff.mp hLine
      rw [List.length_append, h.rows, List.length_singleton] at hi
      obtain rfl : i = k := by omega
      rw [List.getElem?_append_right h.rows.le, h.rows, Nat.sub_self] at hLine
      obtain rfl : row = line := Option.some.inj hLine
      rw [(hRow c).2 (hFull.mpr hLe), hWindow hLe]
  · intro c
    rw [summaryBody_totals, args.windows_succ]
    by_cases hLe : args.perSec ≤ k
    · rw [if_pos (hFull.mpr hLe), if_pos hLe, hWindow hLe, Extremes.lowest_snoc, ← h.min c]
      rfl
    · rw [if_neg (mt hFull.mp hLe), if_neg hLe, ← h.min c]
      rfl
  · intro c
    rw [summaryBody_totals, args.windows_succ]
    by_cases hLe : args.perSec ≤ k
    · rw [if_pos (hFull.mpr hLe), if_pos hLe, hWindow hLe, Extremes.highest_snoc, ← h.max c]
      rfl
    · rw [if_neg (mt hFull.mp hLe), if_neg hLe, ← h.max c]
      rfl
  · intro c
    rw [hRaw, List.map_append, List.sum_append, h.increases c, List.map_singleton, (hRow c).1, hCur,
      hPrev]
    simp only [StatsArgs.window, Nat.sub_self, List.sum_singleton]
    grind

/-- The running averages in the file are over a second, the extremes in the summary
bound those of all records that have one, and the increases add up to that of the
last record. The bounds of no values are the ends of the range. -/
structure StatsArgs.WindowsRight (args : StatsArgs) (s : StatsLoop) (report : Report) : Prop where
  rows : report.raw.length = args.intervals s
  averages : ∀ c i row, report.raw[i]? = some row → args.perSec < i + 1 →
    c.ra row = args.window s.recs c args.perSec (i + 1)
  min : ∀ c : Counter, IsGLB
    {x | ∃ i, args.perSec < i ∧ i ≤ args.intervals s ∧ x = args.window s.recs c args.perSec i}
    (c.line report).min
  max : ∀ c : Counter, IsLUB
    {x | ∃ i, args.perSec < i ∧ i ≤ args.intervals s ∧ x = args.window s.recs c args.perSec i}
    (c.line report).max
  increases : ∀ c : Counter, (report.raw.map c.column).sum =
    c.value (args.recAt s.recs (args.intervals s)) - c.value (args.recAt s.recs 0)

theorem le_ULONG_MAX (x : UInt64) : x ≤ ULONG_MAX := by
  have hMax : ULONG_MAX.toNat = 2 ^ 64 - 1 := by decide
  rw [UInt64.le_iff_toNat_le, hMax]
  have := x.toNat_lt
  omega

/-- At the end of the pass, only the minimum of the requests can be wrong. -/
theorem StatsArgs.Windowed.right_iff (h : args.Windowed unset s (args.intervals s) p)
    (mntStats : Stats) :
    args.WindowsRight s (args.report p mntStats) ↔
      unset = ULONG_MAX ∨ ∃ i, args.perSec < i ∧ i ≤ args.intervals s ∧
        args.window s.recs .requests args.perSec i ≤ unset := by
  have hLine : ∀ c : Counter, (c.line (args.report p mntStats)).min = (c.totals p).min ∧
      (c.line (args.report p mntStats)).max = (c.totals p).max := by
    intro c
    cases c <;> exact ⟨rfl, rfl⟩
  have hWindows : ∀ c : Counter,
      {x | ∃ i, args.perSec < i ∧ i ≤ args.intervals s ∧ x = args.window s.recs c args.perSec i} =
        {x | x ∈ args.windows s.recs c args.perSec (args.intervals s)} := by
    intro c
    ext x
    exact StatsArgs.mem_windows.symm
  have hMin : ∀ c : Counter, IsGLB
      {x | ∃ i, args.perSec < i ∧ i ≤ args.intervals s ∧ x = args.window s.recs c args.perSec i}
      (c.line (args.report p mntStats)).min ↔ c.minStart unset = ULONG_MAX ∨
        ∃ x ∈ args.windows s.recs c args.perSec (args.intervals s), x ≤ c.minStart unset := by
    intro c
    rw [hWindows, (hLine c).1, h.min c]
    exact Extremes.isGLB_lowest_iff le_ULONG_MAX _ _
  have hRequests : (∃ x ∈ args.windows s.recs .requests args.perSec (args.intervals s), x ≤ unset) ↔
      ∃ i, args.perSec < i ∧ i ≤ args.intervals s ∧
        args.window s.recs .requests args.perSec i ≤ unset := by
    simp only [StatsArgs.mem_windows]
    constructor
    · rintro ⟨x, ⟨i, hi, hLast, rfl⟩, hLe⟩
      exact ⟨i, hi, hLast, hLe⟩
    · rintro ⟨i, hi, hLast, hLe⟩
      exact ⟨_, ⟨i, hi, hLast, rfl⟩, hLe⟩
  constructor
  · intro hRight
    exact ((hMin .requests).mp (hRight.min .requests)).imp id hRequests.mp
  · intro hStart
    refine ⟨h.rows, fun c i row hRow hLe => h.averages c i row hRow (Nat.le_of_lt_succ hLe), ?_, ?_, ?_⟩
    · intro c
      rw [hMin]
      cases c with
      | requests => exact hStart.imp id hRequests.mpr
      | throughputSend => exact Or.inl rfl
      | throughputRecv => exact Or.inl rfl
    · intro c
      rw [hWindows, (hLine c).2, h.max c]
      exact Extremes.isLUB_highest (fun x => UInt64.zero_le) _
    · intro c
      have hSum := h.increases c
      rwa [StatsArgs.window, Nat.sub_self] at hSum

end

/-- For every run: the pass summarises the running averages rightly just if
`requests_min` starts from the end of the range or the requests of some second are
not above what it starts from. -/
theorem windows_right_iff (args : StatsArgs) (hAlloc : args.Allocated)
    (hRate : 1 ≤ args.samplesPerSec) (recs : UInt64 → StatsRec) (now : UInt64)
    (samples : List (UInt64 × Stats)) (hWithin : args.Within (args.run recs now samples).written)
    (unset : UInt64) (mntStats : Stats) :
    ∃ report, args.summary unset (args.run recs now samples) mntStats = some report ∧
      (args.WindowsRight (args.run recs now samples) report ↔
        unset = ULONG_MAX ∨ ∃ i, args.perSec < i ∧ i ≤ args.intervals (args.run recs now samples) ∧
          args.window (args.run recs now samples).recs .requests args.perSec i ≤ unset) := by
  obtain ⟨w, hIntervals, hHolds, hFits⟩ := StatsArgs.run_holds hAlloc recs now samples hWithin
  generalize args.run recs now samples = s at hIntervals hHolds hFits ⊢
  have hFew : args.intervals s ≤ 2 ^ 32 :=
    hIntervals.trans (hHolds.room.trans args.statsc.toNat_lt).le
  obtain ⟨p, hSummary, -, hWindowed⟩ := StatsArgs.summary_invariant hFits unset mntStats
    (args.Windowed unset s) (args.summaryStart_windowed unset s)
    fun k hk p hSummed hBefore => hBefore.body hSummed hRate hk hFew
  exact ⟨args.report p mntStats, hSummary, hWindowed.right_iff mntStats⟩

def twelveSamples : List (UInt64 × Stats) :=
  (List.range 12).map fun i =>
    (240000000 * UInt64.ofNat (i + 1), { Stats.zero with requests := 100 * UInt64.ofNat (i + 1) })

/-- The table of main for a minute, after them. -/
def twelveRun : StatsLoop := (mainStats 60 4096 true 2400000000).run (fun _ => .zero) 0 twelveSamples

theorem windows_right_iff_twelve :
    ∃ report, (mainStats 60 4096 true 2400000000).summary ULONG_MAX twelveRun .zero = some report ∧
      (mainStats 60 4096 true 2400000000).WindowsRight twelveRun report := by
  obtain ⟨report, hSummary, hRight⟩ := windows_right_iff (mainStats 60 4096 true 2400000000)
    ⟨by decide, by decide⟩ (by decide) (fun _ => .zero) 0 twelveSamples (by decide +kernel) ULONG_MAX
    .zero
  exact ⟨report, hSummary, hRight.mpr (Or.inl rfl)⟩

/-- The only running average is of 1000 requests. Where the conversion of a number
that is too large gives zero, that is the minimum. -/
theorem windows_unset :
    ¬ ∀ (args : StatsArgs) (recs : UInt64 → StatsRec) (now : UInt64) (samples : List (UInt64 × Stats))
      (unset : UInt64) (mntStats : Stats), args.Allocated → 1 ≤ args.samplesPerSec →
      args.Within (args.run recs now samples).written →
      ∃ report, args.summary unset (args.run recs now samples) mntStats = some report ∧
        args.WindowsRight (args.run recs now samples) report := by
  intro h
  obtain ⟨report, hSummary, hRight⟩ := h (mainStats 60 4096 true 2400000000) (fun _ => .zero) 0
    twelveSamples 0 .zero ⟨by decide, by decide⟩ (by decide) (by decide +kernel)
  have hShown : ((mainStats 60 4096 true 2400000000).summary 0 twelveRun .zero).map
      (fun report => report.requests.min) = some 0 := by
    decide +kernel
  have hIntervals : (mainStats 60 4096 true 2400000000).intervals twelveRun = 11 := by decide +kernel
  have hPerSec : (mainStats 60 4096 true 2400000000).perSec = 10 := by decide
  have hWindow : (mainStats 60 4096 true 2400000000).window twelveRun.recs .requests 10 11 = 1000 := by
    decide +kernel
  change (mainStats 60 4096 true 2400000000).summary 0 twelveRun .zero = _ at hSummary
  rw [hSummary] at hShown
  have hZero : (Counter.requests.line report).min = 0 := Option.some.inj hShown
  have hLargest := (hRight.min .requests).2
  rw [hZero, hPerSec] at hLargest
  have hBelow : (1000 : UInt64) ≤ 0 := by
    apply hLargest
    rintro x ⟨i, hi, hLast, rfl⟩
    obtain rfl : i = 11 := by
      change i ≤ (mainStats 60 4096 true 2400000000).intervals twelveRun at hLast
      omega
    exact UInt64.le_of_eq hWindow.symm
  exact absurd hBelow (by decide)

end Nct
