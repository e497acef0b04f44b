import Mathlib.Algebra.Field.Rat
import Nct.StatsLoop

/-! The status lines that `nct_stats_loop` prints every mark period. -/
namespace Nct

/-- A latency column: what `snprintf` is given for the buffer, which is a number of
cycles and what a million times it is divided by, or the text for no replies, or
nothing, so that the column shows what the stack holds. -/
inductive LatColumn where
  | cycles (x divisor : UInt64)
  | stalled
  | unset
  deriving DecidableEq, Repr

/-- The number that is shown, if it is one. -/
def LatColumn.shown : LatColumn → Option ℚ
  | cycles x divisor => if divisor = 0 then none else some (x.toNat * 1000000 / divisor.toNat : ℚ)
  | stalled => none
  | unset => none

/-- A status line. As history, when it is printed, and the latencies of the requests
counted in it: those that completed before the last but one sample and after it. -/
structure StatusLine where
  header : Bool
  samples : Int64
  duration : UInt64
  ops : UInt64
  txmb : ℚ
  rxmb : ℚ
  latMin : LatColumn
  latAvg : LatColumn
  latMax : LatColumn
  printedAt : UInt64
  earlier : List UInt64
  last : List UInt64
  deriving DecidableEq

/-- What a sample finds: the clock, `mnt_stats` and `mnt_jobs_cnt`; as history the
latencies of the requests that completed since the sample before. -/
structure StatsTurn where
  now : UInt64
  mntStats : Stats
  jobsCnt : UInt32
  batch : List UInt64

/-- The variables that are set when a line is printed, and as history the latencies
of the requests that completed since then. -/
structure Status where
  loop : StatsLoop
  tscLast : UInt64
  reqsLast : UInt64
  latencyPrev : UInt64
  throughputSendLast : UInt64
  throughputRecvLast : UInt64
  loops : Int64
  since : List UInt64

/-- The critical section resets the extremes when it has read them. -/
def Stats.sampled (mntStats : Stats) : Stats := { mntStats with latencyMin := 0 - 1, latencyMax := 0 }

section
variable (args : StatsArgs) (mark : UInt32)

def StatsArgs.printPeriod : Int64 :=
  let printPeriod := (mark.toUInt64 * args.tscFreq).toInt64
  if printPeriod ≥ args.samplePeriod then printPeriod - args.samplePeriod / 2 else printPeriod

def StatsArgs.statusStart (recs : UInt64 → StatsRec) (now : UInt64) : Status :=
  ⟨args.start recs now, now, 0, 0, 0, 0, 0, []⟩

section
variable (s : Status) (x : StatsTurn)

/-- There are replies since the last line. -/
def Status.Moves : Prop := x.mntStats.requests > s.reqsLast

instance : Decidable (s.Moves x) := inferInstanceAs (Decidable (x.mntStats.requests > s.reqsLast))

def Status.line : StatusLine :=
  let elapsed := x.now - s.tscLast
  let lat := (x.mntStats.latencyCum - s.latencyPrev) / (x.mntStats.requests - s.reqsLast)
  { header := s.loops % 22 = 0
    samples := (s.loop.sample x.now x.mntStats).samplesTot
    duration := elapsed * 1000000 / args.tscFreq
    ops := x.mntStats.requests - s.reqsLast
    txmb := if s.Moves x then (x.mntStats.thruputSend - s.throughputSendLast).toNat / (1024 * 1024) else 0
    rxmb := if s.Moves x then (x.mntStats.thruputRecv - s.throughputRecvLast).toNat / (1024 * 1024) else 0
    latMin := if s.Moves x then .cycles x.mntStats.latencyMin elapsed else .unset
    latAvg := if s.Moves x then .cycles lat elapsed else .stalled
    latMax := if s.Moves x then .cycles x.mntStats.latencyMax elapsed else .unset
    printedAt := x.now
    earlier := s.since
    last := x.batch }

/-- The sample of a turn that prints nothing. -/
def Status.pass : Status :=
  { s with loop := s.loop.sample x.now x.mntStats, since := s.since ++ x.batch }

/-- The variables after a line. -/
def Status.next : Status where
  loop := s.loop.sample x.now x.mntStats
  tscLast := x.now
  reqsLast := x.mntStats.requests
  latencyPrev := x.mntStats.latencyCum
  throughputSendLast := x.mntStats.thruputSend
  throughputRecvLast := x.mntStats.thruputRecv
  loops := s.loops + 1
  since := []

/-- A turn of the loop after its sleep: the line that it prints, and whether the loop
goes on. -/
def Status.turn : Status × Option StatusLine × Bool :=
  if mark = 0 then (s.pass x, none, x.jobsCnt ≥ 1)
  else if x.now - s.tscLast < (args.printPeriod mark).toUInt64 then (s.pass x, none, true)
  else if ¬ s.Moves x ∧ x.jobsCnt < 1 then (s.pass x, none, false)
  else (s.next x, some (s.line args x), true)

end

/-- The lines that the loop prints from a state, with the given samples. -/
def StatsArgs.statusLines : Status → List StatsTurn → List StatusLine
  | _, [] => []
  | s, x :: xs =>
      match s.turn args mark x with
      | (s', line, goes) => line.toList ++ if goes then statusLines s' xs else []

end

/-- Each line with the time when the line before was printed, or the loop started. -/
def linesAfter : UInt64 → List StatusLine → List (UInt64 × StatusLine)
  | _, [] => []
  | before, line :: lines => (before, line) :: linesAfter line.printedAt lines

section
variable {args : StatsArgs} {mark : UInt32} {s : Status} {x : StatsTurn}

theorem exists_mem_linesAfter {line : StatusLine} {lines : List StatusLine} (h : line ∈ lines)
    (before : UInt64) : ∃ last, (last, line) ∈ linesAfter before lines := by
  induction lines generalizing before with
  | nil => cases h
  | cons head lines ih =>
      rcases List.mem_cons.mp h with rfl | hLater
      · exact ⟨before, List.mem_cons_self ..⟩
      · obtain ⟨last, hMem⟩ := ih hLater head.printedAt
        exact ⟨last, List.mem_cons_of_mem _ hMem⟩

/-- What a turn can do: print nothing and go on or end, or print a line and go on. -/
theorem Status.turn_cases (args : StatsArgs) (mark : UInt32) (s : Status) (x : StatsTurn) :
    (∃ goes, s.turn args mark x = (s.pass x, none, goes)) ∨
      s.turn args mark x = (s.next x, some (s.line args x), true) := by
  simp only [Status.turn]
  split
  · exact Or.inl ⟨_, rfl⟩
  · split
    · exact Or.inl ⟨_, rfl⟩
    · split
      · exact Or.inl ⟨_, rfl⟩
      · exact Or.inr rfl

/-- If an invariant of the turns gives a property of every line printed, all lines of
a run have it. -/
theorem StatsArgs.statusLines_forall (args : StatsArgs) (mark : UInt32)
    (Inv : Status → List StatsTurn → Prop) (P : UInt64 → StatusLine → Prop)
    (hPass : ∀ s x xs, Inv s (x :: xs) → Inv (s.pass x) xs)
    (hNext : ∀ s x xs, Inv s (x :: xs) → P s.tscLast (s.line args x) ∧ Inv (s.next x) xs)
    (xs : List StatsTurn) :
    ∀ s, Inv s xs → ∀ pair ∈ linesAfter s.tscLast (args.statusLines mark s xs), P pair.1 pair.2 := by
  induction xs with
  | nil =>
      intro s hInv pair hPair
      cases hPair
  | cons x xs ih =>
      intro s hInv pair hPair
      rw [StatsArgs.statusLines] at hPair
      rcases s.turn_cases args mark x with ⟨goes, hTurn⟩ | hTurn
      · rw [hTurn] at hPair
        cases goes with
        | false => cases hPair
        | true => exact ih (s.pass x) (hPass s x xs hInv) pair hPair
      · rw [hTurn] at hPair
        obtain ⟨hHead, hTail⟩ := hNext s x xs hInv
        rcases List.mem_cons.mp hPair with rfl | hLater
        · exact hHead
        · exact ih (s.next x) hTail pair hLater

end

end Nct
