import Nct.Stats

/-! The loop of main that takes a sample of the statistics every sample period,
up to where it has put the sample in its table. -/
namespace Nct

open Function (update)

structure StatsRec where
  sample : UInt32
  time : UInt64
  duration : UInt64
  requests : UInt64
  throughputSend : UInt64
  throughputRecv : UInt64
  latency : UInt64
  deriving DecidableEq, Repr

def StatsRec.zero : StatsRec := ⟨0, 0, 0, 0, 0, 0, 0⟩

def statsRecSize : UInt64 := 56

/-- What `nct_stats_loop` is called with, and the kind of clock. `statsv` is an
address, and zero if it is NULL. -/
structure StatsArgs where
  samplePeriodUsec : Int64
  duration : Int64
  statsv : UInt64
  statsc : UInt32
  haveTsc : Bool
  tscFreq : UInt64

/-- Local variables of `nct_stats_loop`, the memory its table is in, by the address
of a record, and as history the addresses of the records written. -/
structure StatsLoop where
  tscStart : UInt64
  tscCur : UInt64
  samplesTot : Int64
  cur : UInt64
  endRec : UInt64
  recs : UInt64 → StatsRec
  written : List UInt64

def StatsArgs.samplesPerSec (args : StatsArgs) : Int64 := 1000000 / args.samplePeriodUsec

def StatsArgs.samplePeriod (args : StatsArgs) : Int64 :=
  (args.samplePeriodUsec.toUInt64 * args.tscFreq / 1000000).toInt64

def StatsArgs.endRec (args : StatsArgs) : UInt64 :=
  args.statsv + statsRecSize * (args.duration * args.samplesPerSec).toUInt64

/-- `bzero` of the first record, if there is one. -/
def StatsArgs.clear (args : StatsArgs) (recs : UInt64 → StatsRec) (now : UInt64) : StatsLoop :=
  if args.statsv ≠ 0 ∧ args.statsc > 0 then
    { tscStart := now
      tscCur := now
      samplesTot := 0
      cur := args.statsv + statsRecSize
      endRec := args.endRec
      recs := update recs args.statsv .zero
      written := [args.statsv] }
  else ⟨now, now, 0, 0, 0, recs, []⟩

def StatsArgs.start (args : StatsArgs) (recs : UInt64 → StatsRec) (now : UInt64) : StatsLoop :=
  let s := args.clear recs now
  if args.statsv ≠ 0 then
    { s with
      recs := update s.recs args.statsv { s.recs args.statsv with duration := now }
      written := s.written ++ [args.statsv] }
  else s

def sampleTarget (tscStart : UInt64) (samplesTot samplePeriod : Int64) : Int64 :=
  (tscStart + (samplesTot * samplePeriod).toUInt64).toInt64

def sampleDelta (haveTsc : Bool) (tscFreq : UInt64) (tgt : Int64) (tscCur : UInt64) : Int64 :=
  if haveTsc then ((tgt.toUInt64 - tscCur) * 1000000 / tscFreq).toInt64
  else (tgt.toUInt64 - tscCur).toInt64

/-- What the loop sleeps for, in us. The argument of `usleep` has 32 bits. -/
def sampleSleep (haveTsc : Bool) (tscFreq : UInt64) (tgt : Int64) (tscCur : UInt64) : UInt32 :=
  let delta := sampleDelta haveTsc tscFreq tgt tscCur
  if delta > 999 then (delta - 999).toUInt64.toUInt32 else 0

section
variable (args : StatsArgs) (s : StatsLoop)

/-- The sleep before the next sample. -/
def StatsLoop.sleep : UInt32 :=
  sampleSleep args.haveTsc args.tscFreq
    (sampleTarget s.tscStart (s.samplesTot + 1) args.samplePeriod) s.tscCur

/-- The next sample, at the given time. -/
def StatsLoop.sample (now : UInt64) (mntStats : Stats) : StatsLoop :=
  let samplesTot := s.samplesTot + 1
  let s := { s with samplesTot, tscCur := now }
  if s.cur ≠ 0 then
    let record :=
      { s.recs s.cur with
        time := now
        sample := samplesTot.toUInt64.toUInt32
        requests := mntStats.requests
        throughputSend := mntStats.thruputSend
        throughputRecv := mntStats.thruputRecv
        latency := mntStats.latencyCum }
    let next := s.cur + statsRecSize
    { s with
      recs := update s.recs s.cur record
      written := s.written ++ [s.cur]
      cur := if next ≥ s.endRec then 0 else next }
  else s

end

def StatsArgs.run (args : StatsArgs) (recs : UInt64 → StatsRec) (now : UInt64)
    (samples : List (UInt64 × Stats)) : StatsLoop :=
  samples.foldl (fun s x => s.sample x.1 x.2) (args.start recs now)

end Nct
