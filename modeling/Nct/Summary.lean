import Nct.Records
import Nct.Support.Loops
import Mathlib.Algebra.BigOperators.Group.Finset.Basic

/-! The pass over the table of samples that `nct_stats_loop` makes at its end, for
the file `raw` and for the summary. -/
namespace Nct

open Function (update)

/-- A line of the file `raw`. -/
structure RawRow where
  sample : UInt32
  time : UInt64
  duration : UInt64
  latency : UInt64
  requests : UInt64
  throughputSend : UInt64
  throughputRecv : UInt64
  requestsRa : UInt64
  thruputSendRa : UInt64
  thruputRecvRa : UInt64
  deriving DecidableEq, Repr

/-- `requests_min`, `requests_max` and `requests_tot`, or those of another counter. -/
structure Totals where
  min : UInt64
  max : UInt64
  tot : UInt64

/-- An increase, and a running average if there is one. -/
def Totals.add (t : Totals) (increase : UInt64) (ra : Option UInt64) : Totals :=
  let t := { t with tot := t.tot + increase }
  match ra with
  | none => t
  | some ra =>
      { t with
        max := if ra > t.max then ra else t.max
        min := if ra < t.min then ra else t.min }

/-- The variables of the pass, and the memory that the table is in. -/
structure Summary where
  cur : UInt64
  prev : UInt64
  tail : UInt64
  recs : UInt64 → StatsRec
  requests : Totals
  throughputSend : Totals
  throughputRecv : Totals
  latencyTot : UInt64
  raw : List RawRow

/-- The end of the pass. Unless the table is full, the last sample is ignored. -/
def StatsLoop.passEnd (s : StatsLoop) : UInt64 := if s.cur ≠ 0 then s.cur - statsRecSize else s.endRec

/-- The difference of two pointers to records. -/
def recDiff (a b : UInt64) : Int64 := (a - b).toInt64 / 56

section
variable (args : StatsArgs)

/-- What the pass starts with. `requests_min` is assigned `ULONG_MAX` by way of the
double `latency_min`, which makes it a number that no `uint64_t` can hold: `unset` is
what it becomes, which C leaves undefined. -/
def StatsArgs.summaryStart (unset : UInt64) (s : StatsLoop) : Summary where
  cur := args.statsv + statsRecSize
  prev := args.statsv
  tail := args.statsv + statsRecSize
  recs := s.recs
  requests := ⟨unset, 0, 0⟩
  throughputSend := ⟨0 - 1, 0, 0⟩
  throughputRecv := ⟨0 - 1, 0, 0⟩
  latencyTot := 0
  raw := []

/-- The body of the pass. -/
def StatsArgs.summaryBody (tscStart : UInt64) (p : Summary) : Summary :=
  let cur := p.recs p.cur
  let prev := p.recs p.prev
  let tail := p.recs p.tail
  let requests := cur.requests - prev.requests
  let throughputSend := cur.throughputSend - prev.throughputSend
  let throughputRecv := cur.throughputRecv - prev.throughputRecv
  let latency := cur.latency - prev.latency
  -- there are as many records from the window's tail as samples in a second
  let full := recDiff p.cur p.tail ≥ args.samplesPerSec
  let requestsRa := if full then some (cur.requests - tail.requests) else none
  let thruputSendRa := if full then some (cur.throughputSend - tail.throughputSend) else none
  let thruputRecvRa := if full then some (cur.throughputRecv - tail.throughputRecv) else none
  let time := cur.time - tscStart
  let recs := update p.recs p.cur { cur with time }
  { cur := p.cur + statsRecSize
    prev := p.cur
    tail := if full then p.tail + statsRecSize else p.tail
    recs
    requests := p.requests.add requests requestsRa
    throughputSend := p.throughputSend.add throughputSend thruputSendRa
    throughputRecv := p.throughputRecv.add throughputRecv thruputRecvRa
    latencyTot := p.latencyTot + latency
    raw := p.raw ++
      [{ sample := cur.sample
         time := time * 1000000 / args.tscFreq
         duration := (time - (recs p.prev).time) * 1000000 / args.tscFreq
         latency := latency * 1000000 / args.tscFreq
         requests
         throughputSend
         throughputRecv
         requestsRa := requestsRa.getD cur.requests
         thruputSendRa := thruputSendRa.getD cur.throughputSend
         thruputRecvRa := thruputRecvRa.getD cur.throughputRecv }] }

structure SummaryLine where
  min : UInt64
  avg : UInt64
  max : UInt64
  total : UInt64
  deriving DecidableEq, Repr

/-- What the pass has put into the file, and prints. -/
structure Report where
  raw : List RawRow
  throughputSend : SummaryLine
  throughputRecv : SummaryLine
  requests : SummaryLine
  latencyTotal : UInt64
  updates : UInt64
  marks : UInt64

def StatsArgs.summaryLine (samplesTot : Int64) (t : Totals) (total : UInt64) : SummaryLine where
  min := t.min
  avg := t.tot * args.samplesPerSec.toUInt64 / samplesTot.toUInt64
  max := t.max
  total := total

def StatsArgs.report (p : Summary) (mntStats : Stats) : Report :=
  let samplesTot := recDiff p.cur args.statsv
  { raw := p.raw
    throughputSend := args.summaryLine samplesTot p.throughputSend mntStats.thruputSend
    throughputRecv := args.summaryLine samplesTot p.throughputRecv mntStats.thruputRecv
    requests := args.summaryLine samplesTot p.requests mntStats.requests
    latencyTotal := mntStats.latencyCum
    updates := mntStats.updates
    marks := mntStats.marks }

/-- The pass, for which there is a table, a directory, and the open file. A pass
that does not end gives nothing. -/
def StatsArgs.summary (unset : UInt64) (s : StatsLoop) (mntStats : Stats) : Option Report :=
  let endRec := s.passEnd
  (Loops.whileDo (fun p => p.cur < endRec) (args.summaryBody s.tscStart) endRec.toNat
    (args.summaryStart unset s)).map fun p => args.report p mntStats

end

/-- The counters that the pass summarises. -/
inductive Counter where
  | throughputSend
  | throughputRecv
  | requests
  deriving DecidableEq, Repr

def Counter.value : Counter → StatsRec → UInt64
  | throughputSend => (·.throughputSend)
  | throughputRecv => (·.throughputRecv)
  | requests => (·.requests)

def Counter.totals : Counter → Summary → Totals
  | throughputSend => (·.throughputSend)
  | throughputRecv => (·.throughputRecv)
  | requests => (·.requests)

def Counter.line : Counter → Report → SummaryLine
  | throughputSend => (·.throughputSend)
  | throughputRecv => (·.throughputRecv)
  | requests => (·.requests)

def StatsArgs.recAt (args : StatsArgs) (recs : UInt64 → StatsRec) (i : Nat) : StatsRec :=
  recs (UInt64.ofNat (args.place i))

/-- How much a counter increases over the first `n` intervals of a table. -/
def StatsArgs.increase (args : StatsArgs) (recs : UInt64 → StatsRec) (c : Counter) (n : Nat) : Nat :=
  ∑ i ∈ Finset.range n, (c.value (args.recAt recs (i + 1)) - c.value (args.recAt recs i)).toNat

/-- How many intervals the pass summarises: as many as records follow the first one
before the end. -/
def StatsArgs.intervals (args : StatsArgs) (s : StatsLoop) : Nat :=
  (s.passEnd.toNat - args.place 1 + 55) / 56

section
variable {args : StatsArgs} {s : StatsLoop} {p : Summary} {n k i j : Nat}

/-- `++rec` -/
theorem StatsArgs.ofNat_place_succ (args : StatsArgs) (i : Nat) :
    UInt64.ofNat (args.place i) + statsRecSize = UInt64.ofNat (args.place (i + 1)) := by
  have hNext : args.place (i + 1) = args.place i + 56 := by
    rw [StatsArgs.place_eq, StatsArgs.place_eq, Nat.mul_succ, Nat.add_assoc]
  rw [hNext, UInt64.ofNat_add]
  rfl

theorem StatsArgs.ofNat_place_zero (args : StatsArgs) : UInt64.ofNat (args.place 0) = args.statsv := by
  simp [StatsArgs.place_eq]

theorem StatsArgs.place_mono (args : StatsArgs) (h : i ≤ j) : args.place i ≤ args.place j :=
  Nat.add_le_add_left (Nat.mul_le_mul_left _ h) _

/-- Records of the table are at different addresses. -/
theorem StatsArgs.ofNat_place_ne (hFits : args.place n < 2 ^ 64) (hi : i ≤ n) (hj : j ≤ n) (hNe : i ≠ j) :
    UInt64.ofNat (args.place i) ≠ UInt64.ofNat (args.place j) := by
  intro hSame
  have hPlace := congrArg UInt64.toNat hSame
  rw [UInt64.toNat_ofNat_of_lt' ((args.place_mono hi).trans_lt hFits),
    UInt64.toNat_ofNat_of_lt' ((args.place_mono hj).trans_lt hFits), StatsArgs.place_eq,
    StatsArgs.place_eq] at hPlace
  omega

/-- A time that has been rebased. The first record has none. -/
def StatsArgs.sinceStart (args : StatsArgs) (s : StatsLoop) (i : Nat) : UInt64 :=
  if i = 0 then (args.recAt s.recs 0).time else (args.recAt s.recs i).time - s.tscStart

/-- The first two columns that record `i + 1` has in the file, after its number. -/
def StatsArgs.rawTimes (args : StatsArgs) (s : StatsLoop) (i : Nat) : UInt64 × UInt64 :=
  (args.sinceStart s (i + 1) * 1000000 / args.tscFreq,
    (args.sinceStart s (i + 1) - args.sinceStart s i) * 1000000 / args.tscFreq)

/-- The pass after `k` records: it has rebased the times of these, and added up the
increases of the counters. -/
structure StatsArgs.Summed (args : StatsArgs) (s : StatsLoop) (n k : Nat) (p : Summary) : Prop where
  cur : p.cur = UInt64.ofNat (args.place (k + 1))
  prev : p.prev = UInt64.ofNat (args.place k)
  old : ∀ i ≤ n, k < i → args.recAt p.recs i = args.recAt s.recs i
  done : ∀ i ≤ k, args.recAt p.recs i = { args.recAt s.recs i with time := args.sinceStart s i }
  tot : ∀ c : Counter, (c.totals p).tot.toNat = args.increase s.recs c k % 2 ^ 64
  times : p.raw.map (fun row => (row.time, row.duration)) = (List.range k).map (args.rawTimes s)

/-- The increases add up, modulo 2^64. -/
theorem Totals.add_tot (t : Totals) (increase : UInt64) (ra : Option UInt64) :
    (t.add increase ra).tot = t.tot + increase := by
  cases ra <;> rfl

/-- Rebasing the time of a record leaves its counters. -/
theorem Counter.value_time (c : Counter) (r : StatsRec) (time : UInt64) :
    c.value { r with time } = c.value r := by
  cases c <;> rfl

/-- Before the first record nothing has been added. -/
theorem StatsArgs.summaryStart_summed (args : StatsArgs) (unset : UInt64) (s : StatsLoop) (n : Nat) :
    args.Summed s n 0 (args.summaryStart unset s) := by
  refine ⟨?_, args.ofNat_place_zero.symm, fun i _ _ => rfl, ?_, ?_, rfl⟩
  · rw [← args.ofNat_place_succ, args.ofNat_place_zero]
    rfl
  · intro i hi
    obtain rfl : i = 0 := Nat.le_zero.mp hi
    rfl
  · intro c
    cases c <;> rfl

/-- A record that the pass has come to still has its counters, and so has the one
before it. -/
theorem StatsArgs.Summed.value (h : args.Summed s n k p) (hi : i ≤ k + 1) (hk : k < n) (c : Counter) :
    c.value (args.recAt p.recs i) = c.value (args.recAt s.recs i) := by
  by_cases hDone : i ≤ k
  · rw [h.done i hDone, c.value_time]
  · rw [h.old i (by omega) (by omega)]

/-- The body adds one record more. -/
theorem StatsArgs.Summed.body (h : args.Summed s n k p) (hk : k < n) (hFits : args.place n < 2 ^ 64) :
    args.Summed s n (k + 1) (args.summaryBody s.tscStart p) := by
  have hCur : p.recs p.cur = args.recAt s.recs (k + 1) := by
    rw [h.cur]
    exact h.old (k + 1) hk k.lt_succ_self
  have hTime : (args.recAt s.recs (k + 1)).time - s.tscStart = args.sinceStart s (k + 1) := rfl
  have hRecs : ∀ i ≤ n, args.recAt (args.summaryBody s.tscStart p).recs i =
      if i = k + 1 then { args.recAt s.recs (k + 1) with time := args.sinceStart s (k + 1) }
      else args.recAt p.recs i := by
    intro i hi
    simp only [StatsArgs.summaryBody, hCur, hTime]
    split
    · next hSame =>
        subst hSame
        rw [StatsArgs.recAt, h.cur, Function.update_self]
    · next hOther =>
        rw [StatsArgs.recAt, h.cur, Function.update_of_ne (StatsArgs.ofNat_place_ne hFits hi hk hOther)]
        rfl
  have hBefore : ((args.summaryBody s.tscStart p).recs p.prev).time = args.sinceStart s k := by
    have hSame := hRecs k (by omega)
    rw [if_neg (by omega), h.done k le_rfl] at hSame
    rw [h.prev]
    exact congrArg StatsRec.time hSame
  refine ⟨?_, h.cur, ?_, ?_, ?_, ?_⟩
  · rw [← args.ofNat_place_succ, ← h.cur]
    rfl
  · intro i hi hLater
    rw [hRecs i hi, if_neg (by omega), h.old i hi (by omega)]
  · intro i hi
    rw [hRecs i (by omega)]
    split
    · next hSame => rw [hSame]
    · next hOther => rw [h.done i (by omega)]
  · intro c
    have hStep : (c.totals (args.summaryBody s.tscStart p)).tot =
        (c.totals p).tot + (c.value (p.recs p.cur) - c.value (p.recs p.prev)) := by
      cases c <;> exact Totals.add_tot ..
    have hCurValue : c.value (p.recs p.cur) = c.value (args.recAt s.recs (k + 1)) := by
      rw [hCur]
    have hPrevValue : c.value (p.recs p.prev) = c.value (args.recAt s.recs k) := by
      rw [h.prev]
      exact h.value k.le_succ hk c
    rw [hStep, hCurValue, hPrevValue, UInt64.toNat_add, h.tot c, StatsArgs.increase,
      StatsArgs.increase, Finset.sum_range_succ, Nat.mod_add_mod]
  · have hRaw : (args.summaryBody s.tscStart p).raw.map (fun row => (row.time, row.duration)) =
        p.raw.map (fun row => (row.time, row.duration)) ++
          [(((p.recs p.cur).time - s.tscStart) * 1000000 / args.tscFreq,
            ((p.recs p.cur).time - s.tscStart -
              ((args.summaryBody s.tscStart p).recs p.prev).time) * 1000000 / args.tscFreq)] := by
      simp [StatsArgs.summaryBody]
    rw [hRaw, h.times, hBefore, hCur, hTime, List.range_succ, List.map_append]
    rfl

/-- The pass ends after all intervals, with whatever else every record keeps. -/
theorem StatsArgs.summary_invariant (hFits : args.place (args.intervals s + 1) < 2 ^ 64)
    (unset : UInt64) (mntStats : Stats) (Inv : Nat → Summary → Prop)
    (hStart : Inv 0 (args.summaryStart unset s))
    (hBody : ∀ k < args.intervals s, ∀ p, args.Summed s (args.intervals s) k p → Inv k p →
      Inv (k + 1) (args.summaryBody s.tscStart p)) :
    ∃ p, args.summary unset s mntStats = some (args.report p mntStats) ∧
      args.Summed s (args.intervals s) (args.intervals s) p ∧ Inv (args.intervals s) p := by
  have hCount : args.intervals s = (s.passEnd.toNat - (args.statsv.toNat + 56) + 55) / 56 := rfl
  generalize args.intervals s = n at hCount hFits hBody ⊢
  have hPlace : ∀ i ≤ n + 1, (UInt64.ofNat (args.place i)).toNat = args.place i := fun i hi =>
    UInt64.toNat_ofNat_of_lt' ((args.place_mono hi).trans_lt hFits)
  have hStep : ∀ k < n, ∀ p, args.Summed s n k p ∧ Inv k p →
      decide (p.cur < s.passEnd) = true ∧
        args.Summed s n (k + 1) (args.summaryBody s.tscStart p) ∧
          Inv (k + 1) (args.summaryBody s.tscStart p) := by
    rintro k hk p ⟨hSummed, hInv⟩
    refine ⟨?_, hSummed.body hk ((args.place_mono n.le_succ).trans_lt hFits), hBody k hk p hSummed hInv⟩
    rw [decide_eq_true_eq, hSummed.cur, UInt64.lt_iff_toNat_lt, hPlace (k + 1) (by omega),
      StatsArgs.place_eq]
    omega
  have hEnd : ∀ p, args.Summed s n n p ∧ Inv n p → decide (p.cur < s.passEnd) = false := by
    rintro p ⟨hSummed, -⟩
    rw [decide_eq_false_iff_not, hSummed.cur, UInt64.lt_iff_toNat_lt, hPlace (n + 1) le_rfl,
      StatsArgs.place_eq]
    omega
  obtain ⟨p, hLoop, hSummed⟩ := Loops.whileDo_counted _ _ _ n hStep hEnd s.passEnd.toNat 0
    (args.summaryStart unset s) ⟨args.summaryStart_summed unset s n, hStart⟩ n.zero_le (by omega)
  refine ⟨p, ?_, hSummed⟩
  rw [StatsArgs.summary, hLoop]
  rfl

end

end Nct
