import Mathlib.Algebra.BigOperators.Group.List.Basic
import Nct.Records
import Nct.Stats
import Nct.Status

/-! What the status lines add up to. Main reads `mnt_stats` and prints, while the
receive threads go on adding to it. -/
namespace Nct

open Function (update)
open Transition (Run exec)

/-- What a status line counts: requests, and bytes sent and received. -/
@[ext] structure LineTally where
  requests : Nat
  sent : Nat
  received : Nat
  deriving DecidableEq

def Stats.tally (stats : Stats) : LineTally where
  requests := stats.requests.toNat
  sent := stats.thruputSend.toNat
  received := stats.thruputRecv.toNat

def Status.tally (s : Status) : LineTally where
  requests := s.reqsLast.toNat
  sent := s.throughputSendLast.toNat
  received := s.throughputRecvLast.toNat

/-- Nothing is lost from one count to a later one, and bytes come with requests. -/
structure LineTally.Before (a b : LineTally) : Prop where
  requests : a.requests ≤ b.requests
  sent : a.sent ≤ b.sent
  received : a.received ≤ b.received
  same : a.requests = b.requests → a = b

theorem LineTally.Before.refl (a : LineTally) : a.Before a := ⟨le_rfl, le_rfl, le_rfl, fun _ => rfl⟩

theorem LineTally.Before.trans {a b c : LineTally} (hab : a.Before b) (hbc : b.Before c) : a.Before c where
  requests := hab.requests.trans hbc.requests
  sent := hab.sent.trans hbc.sent
  received := hab.received.trans hbc.received
  same h := by
    have hab' := hab.requests
    have hbc' := hbc.requests
    rw [hab.same (by omega), hbc.same (by omega)]

/-- A record that has bytes only with requests. -/
def Stats.Whole (stats : Stats) : Prop := (Stats.zero.tally).Before stats.tally

@[simp] theorem Stats.sampled_tally (stats : Stats) : stats.sampled.tally = stats.tally := rfl

/-- A thread that has counted a request has not counted bytes alone. -/
theorem Stats.Whole.of_pos {stats : Stats} (h : stats.requests ≠ 0) : stats.Whole where
  requests := Nat.zero_le _
  sent := Nat.zero_le _
  received := Nat.zero_le _
  same hZero := absurd (UInt64.toNat_inj.mp hZero.symm) h

/-- `mnt_stats` has room for what a thread has to add, and the thread for one more
request. -/
def Metered.Room (m : Metered) (t : Nat) : Prop :=
  m.mntStats.requests.toNat + (m.own t).requests.toNat + 1 < 2 ^ 64 ∧
    m.mntStats.thruputSend.toNat + (m.own t).thruputSend.toNat < 2 ^ 64 ∧
    m.mntStats.thruputRecv.toNat + (m.own t).thruputRecv.toNat < 2 ^ 64

/-- No counter wraps in a step. -/
def HasRoom (m : Metered) (tick : Tick) : Prop :=
  match tick.act.agent with
  | .main => True
  | .recv t => m.Room t

instance (m : Metered) (t : Nat) : Decidable (m.Room t) := inferInstanceAs (Decidable (_ ∧ _))

instance (m : Metered) (tick : Tick) : Decidable (HasRoom m tick) := by
  unfold HasRoom
  generalize tick.act.agent = a
  induction a using Agent.casesOn <;> infer_instance

/-- Nobody has counted bytes without requests. -/
structure Metered.Whole (m : Metered) : Prop where
  shared : m.mntStats.Whole
  own : ∀ t, (m.own t).Whole

theorem Stats.tally_congr {a b : Stats} (h : a.amounts = b.amounts) : a.tally = b.tally := by
  simp only [Stats.amounts, Prod.mk.injEq] at h
  simp only [Stats.tally, h]

section
variable {m m' : Metered} {tick : Tick} {t : Nat} {tscFreq : UInt64} {cfg : Cfg}

theorem Metered.Room.flush (h : m.Room t) (tscDiff : UInt64) :
    (m.mntStats.flush (m.own t) tscDiff).tally =
      ⟨m.mntStats.tally.requests + (m.own t).tally.requests,
        m.mntStats.tally.sent + (m.own t).tally.sent,
        m.mntStats.tally.received + (m.own t).tally.received⟩ := by
  obtain ⟨hRequests, hSent, hReceived⟩ := h
  ext
  · exact (UInt64.toNat_add _ _).trans (Nat.mod_eq_of_lt (by omega))
  · exact (UInt64.toNat_add _ _).trans (Nat.mod_eq_of_lt hSent)
  · exact (UInt64.toNat_add _ _).trans (Nat.mod_eq_of_lt hReceived)

/-- What a thread adds leaves nothing out. -/
theorem Metered.Room.before_flush (h : m.Room t) (hOwn : (m.own t).Whole) (tscDiff : UInt64) :
    m.mntStats.tally.Before (m.mntStats.flush (m.own t) tscDiff).tally := by
  rw [h.flush tscDiff]
  constructor
  · exact Nat.le_add_right ..
  · exact Nat.le_add_right ..
  · exact Nat.le_add_right ..
  · intro hSame
    have hNone : (m.own t).tally.requests = 0 := by
      dsimp only at hSame
      omega
    rw [← hOwn.same hNone.symm]
    rfl

theorem Metered.Room.whole_count (h : m.Room t) (x : Sample) : ((m.own t).count x).Whole := by
  apply Stats.Whole.of_pos
  have hSucc : ((m.own t).count x).requests.toNat = (m.own t).requests.toNat + 1 :=
    (UInt64.toNat_add _ _).trans (Nat.mod_eq_of_lt (by have := h.1; simp; omega))
  intro hZero
  rw [hZero] at hSucc
  simp at hSucc

/-- What the receive threads do for the statistics leaves nothing out. -/
theorem Metered.Whole.recv (h : m.Whole) (hAgent : tick.act.agent ≠ .main)
    (hRoom : HasRoom m tick) (hStep : meterStep tscFreq cfg m tick = some m') :
    m'.Whole ∧ m.mntStats.tally.Before m'.mntStats.tally := by
  rcases meterStep_cases hStep with ⟨hMain, -⟩ |
    ⟨t, -, hRecv, ⟨times, -, -, rfl⟩ | ⟨-, sys, -, rfl⟩⟩
  · exact absurd hMain hAgent
  · simp only [HasRoom, hRecv] at hRoom
    unfold Metered.finish
    split
    · exact ⟨⟨h.shared, h.own⟩, .refl _⟩
    · have hBefore := hRoom.before_flush (h.own t) times.tscDiff
      refine ⟨⟨h.shared.trans hBefore, fun u => ?_⟩, hBefore⟩
      show (update m.own t .zero u).Whole
      by_cases hu : u = t
      · rw [hu, Function.update_self]
        exact .refl _
      · rw [Function.update_of_ne hu]
        exact h.own u
  · simp only [HasRoom, hRecv] at hRoom
    have hCounts := recvStats_counts tscFreq m t tick sys
    rw [hCounts.shared]
    refine ⟨⟨hCounts.shared ▸ h.shared, fun u => ?_⟩, .refl _⟩
    by_cases hu : u = t
    · subst hu
      rcases hCounts.counted with ⟨hSame, -⟩ | ⟨x, hCount, -⟩
      · rw [Stats.Whole, Stats.tally_congr hSame]
        exact h.own u
      · rw [hCount]
        exact hRoom.whole_count x
    · rw [hCounts.others u hu]
      exact h.own u

theorem Metered.Whole.step (h : m.Whole) (hRoom : HasRoom m tick)
    (hStep : meterStep tscFreq cfg m tick = some m') : m'.Whole := by
  by_cases hAgent : tick.act.agent = .main
  · rcases meterStep_cases hStep with ⟨-, sys, -, rfl⟩ | ⟨t, -, hRecv, -⟩
    · unfold Metered.mainStats
      split
      · exact ⟨.refl _, h.own⟩
      · exact ⟨h.shared, h.own⟩
    · rw [hAgent] at hRecv
      cases hRecv
  · exact (h.recv hAgent hRoom hStep).1

/-- In every run. -/
theorem run_whole (run : Run (meterStep tscFreq cfg) HasRoom Metered.boot m) : m.Whole :=
  run.invariant ⟨.refl _, fun _ => .refl _⟩ fun _ _ _ h hRoom hStep => h.step hRoom hStep

end

/-- The program while main is in `nct_stats_loop`. `read` is what main has read of
`mnt_stats` in its turn, and when; the turn in which the loop ends leaves it there. As
history the lines printed. -/
structure Reporting where
  prog : Metered
  status : Status
  read : Option (UInt64 × Stats)
  ended : Bool
  lines : List StatusLine

inductive ReportAct where
  /-- a step of a receive thread -/
  | tick (tick : Tick)
  /-- main has slept, and goes through its critical section -/
  | sample (now : UInt64)
  /-- from there to the end of the turn -/
  | print
  deriving DecidableEq, Repr

section
variable (args : StatsArgs) (cfg : Cfg) (mark : UInt32)

def Reporting.start (prog : Metered) (recs : UInt64 → StatsRec) (now : UInt64) : Reporting where
  prog := prog
  status := args.statusStart recs now
  read := none
  ended := false
  lines := []

/-- One step. `mnt_jobs_cnt` is read when the lock has been released. -/
def reportStep (s : Reporting) : ReportAct → Option Reporting
  | .tick tick =>
      if tick.act.agent = .main then none
      else (meterStep args.tscFreq cfg s.prog tick).map fun prog => { s with prog }
  | .sample now =>
      if s.prog.sys.pc .main = .stats ∧ s.prog.sys.halted = none ∧ s.read = none then
        some { s with
          prog := { s.prog with mntStats := s.prog.mntStats.sampled }
          read := some (now, s.prog.mntStats) }
      else none
  | .print =>
      match s.read with
      | none => none
      | some (now, mntStats) =>
          if s.prog.sys.halted = none ∧ ¬ s.ended then
            match s.status.turn args mark ⟨now, mntStats, s.prog.sys.mnt.jobsCnt, []⟩ with
            | (status, line, goes) =>
                some { s with
                  status
                  read := if goes then none else s.read
                  ended := ! goes
                  lines := s.lines ++ line.toList }
          else none

/-- No counter wraps in a step. -/
def ReportRoom (s : Reporting) : ReportAct → Prop
  | .tick tick => HasRoom s.prog tick
  | _ => True

instance (s : Reporting) (act : ReportAct) : Decidable (ReportRoom s act) := by
  unfold ReportRoom
  cases act <;> infer_instance

variable {args : StatsArgs} {cfg : Cfg} {mark : UInt32} {s s' : Reporting} {act : ReportAct}

structure AddUp (lines : List StatusLine) (tally : LineTally) : Prop where
  ops : (lines.map (·.ops.toNat)).sum = tally.requests
  txmb : (lines.map (·.txmb)).sum * (1024 * 1024) = tally.sent
  rxmb : (lines.map (·.rxmb)).sum * (1024 * 1024) = tally.received

/-- A column adds what has been counted since the line before. -/
theorem columns_add {column : StatusLine → ℚ} {lines : List StatusLine} {line : StatusLine}
    {last cur : UInt64} (h : (lines.map column).sum * (1024 * 1024) = last.toNat)
    (hLast : last ≤ cur) (hLine : column line * (1024 * 1024) = (cur - last).toNat) :
    ((lines ++ [line]).map column).sum * (1024 * 1024) = cur.toNat := by
  rw [List.map_append, List.sum_append, List.map_singleton, List.sum_singleton, add_mul, h, hLine,
    UInt64.toNat_sub_of_le _ _ hLast, Nat.cast_sub (UInt64.le_iff_toNat_le.mp hLast)]
  ring

/-- A line adds what has been counted since the line before. -/
theorem AddUp.line {lines : List StatusLine} {status : Status} {x : StatsTurn}
    (h : AddUp lines status.tally) (hBefore : status.tally.Before x.mntStats.tally) :
    AddUp (lines ++ [status.line args x]) x.mntStats.tally := by
  have hSame : ¬ status.Moves x →
      status.throughputSendLast = x.mntStats.thruputSend ∧
        status.throughputRecvLast = x.mntStats.thruputRecv := fun hStalled => by
    have hTally := hBefore.same (le_antisymm hBefore.requests (not_lt.mp hStalled))
    exact ⟨UInt64.toNat_inj.mp (congrArg LineTally.sent hTally),
      UInt64.toNat_inj.mp (congrArg LineTally.received hTally)⟩
  constructor
  · rw [List.map_append, List.sum_append, h.ops, List.map_singleton, List.sum_singleton]
    show status.reqsLast.toNat + (x.mntStats.requests - status.reqsLast).toNat = _
    rw [UInt64.toNat_sub_of_le _ _ hBefore.requests]
    exact Nat.add_sub_cancel' hBefore.requests
  · apply columns_add h.txmb hBefore.sent
    show (if status.Moves x then _ else _) * _ = _
    split
    · exact div_mul_cancel₀ _ (by norm_num)
    · next hStalled => rw [(hSame hStalled).1, sub_self, zero_mul, UInt64.toNat_zero, Nat.cast_zero]
  · apply columns_add h.rxmb hBefore.received
    show (if status.Moves x then _ else _) * _ = _
    split
    · exact div_mul_cancel₀ _ (by norm_num)
    · next hStalled => rw [(hSame hStalled).2, sub_self, zero_mul, UInt64.toNat_zero, Nat.cast_zero]

/-- The loop ends when nothing has been counted since the last line. -/
theorem Status.turn_ends (args : StatsArgs) (status : Status) (x : StatsTurn) (hMark : mark ≠ 0)
    (h : (status.turn args mark x).2.2 = false) : ¬ status.Moves x := by
  unfold Status.turn at h
  rw [if_neg hMark] at h
  split at h
  · cases h
  · split at h
    · next hEnd => exact hEnd.1
    · cases h

/-- What has been printed so far, has been read and is in `mnt_stats`. -/
structure Reporting.Accounted (mark : UInt32) (s : Reporting) : Prop where
  whole : s.prog.Whole
  addUp : AddUp s.lines s.status.tally
  counted : s.status.tally.Before s.prog.mntStats.tally
  read : ∀ now mntStats, s.read = some (now, mntStats) →
    s.status.tally.Before mntStats.tally ∧ mntStats.tally.Before s.prog.mntStats.tally
  ended : s.ended = true → mark ≠ 0 → ∃ now mntStats, s.read = some (now, mntStats) ∧
    s.status.tally = mntStats.tally

/-- Steps of the receive threads. -/
theorem Reporting.Accounted.tick {prog : Metered} (h : s.Accounted mark) (hWhole : prog.Whole)
    (hBefore : s.prog.mntStats.tally.Before prog.mntStats.tally) :
    ({ s with prog } : Reporting).Accounted mark where
  whole := hWhole
  addUp := h.addUp
  counted := h.counted.trans hBefore
  read now mntStats hRead :=
    ⟨(h.read now mntStats hRead).1, (h.read now mntStats hRead).2.trans hBefore⟩
  ended := h.ended

theorem Reporting.Accounted.sample (h : s.Accounted mark) (hNone : s.read = none) (now : UInt64) :
    ({ s with
      prog := { s.prog with mntStats := s.prog.mntStats.sampled }
      read := some (now, s.prog.mntStats) } : Reporting).Accounted mark where
  whole := ⟨h.whole.shared, h.whole.own⟩
  addUp := h.addUp
  counted := h.counted
  read _ _ hRead := by
    obtain ⟨rfl, rfl⟩ := Prod.mk.inj (Option.some.inj hRead)
    exact ⟨h.counted, .refl _⟩
  ended hEnded hMark := by
    obtain ⟨_, _, hRead, -⟩ := h.ended hEnded hMark
    rw [hNone] at hRead
    cases hRead

/-- The rest of a turn. It prints a line, or ends the loop when there is none to print. -/
theorem Reporting.Accounted.print {x : StatsTurn} (h : s.Accounted mark)
    (hRead : s.read = some (x.now, x.mntStats)) :
    ({ s with
      status := (s.status.turn args mark x).1
      read := if (s.status.turn args mark x).2.2 then none else s.read
      ended := ! (s.status.turn args mark x).2.2
      lines := s.lines ++ (s.status.turn args mark x).2.1.toList } : Reporting).Accounted mark := by
  obtain ⟨hLast, hCur⟩ := h.read x.now x.mntStats hRead
  rcases s.status.turn_cases args mark x with ⟨goes, hTurn⟩ | hTurn
  · have hEnds := fun hMark : mark ≠ 0 => s.status.turn_ends args x hMark
    rw [hTurn] at hEnds ⊢
    refine ⟨h.whole, ?_, h.counted, ?_, ?_⟩
    · rw [Option.toList_none, List.append_nil]
      exact h.addUp
    · intro now mntStats hStill
      cases goes with
      | true => cases hStill
      | false => exact h.read now mntStats hStill
    · intro hEnded hMark
      cases goes with
      | true => cases hEnded
      | false =>
          have hStalled := hEnds hMark rfl
          have hSame := hLast.same (le_antisymm hLast.requests (not_lt.mp hStalled))
          exact ⟨x.now, x.mntStats, hRead, hSame⟩
  · rw [hTurn]
    refine ⟨h.whole, h.addUp.line hLast, hCur, ?_, ?_⟩
    · intro _ _ hNone
      cases hNone
    · intro hEnded
      cases hEnded

theorem Reporting.Accounted.step (h : s.Accounted mark) (hRoom : ReportRoom s act)
    (hStep : reportStep args cfg mark s act = some s') : s'.Accounted mark := by
  cases act with
  | tick tick =>
      simp only [reportStep] at hStep
      split at hStep
      · cases hStep
      · next hAgent =>
          obtain ⟨prog, hProg, rfl⟩ := Option.map_eq_some_iff.mp hStep
          obtain ⟨hWhole, hBefore⟩ := h.whole.recv hAgent hRoom hProg
          exact h.tick hWhole hBefore
  | sample now =>
      simp only [reportStep] at hStep
      split at hStep
      · next hTurn =>
          cases hStep
          exact h.sample hTurn.2.2 now
      · cases hStep
  | print =>
      simp only [reportStep] at hStep
      split at hStep
      · cases hStep
      · next now mntStats hRead =>
          split at hStep
          · cases hStep
            exact h.print (x := ⟨now, mntStats, _, []⟩) hRead
          · cases hStep

/-- In every run of main's loop and the receive threads, the columns OPS, TXMB and RXMB
of the lines printed add up to what was read of `mnt_stats` for the last of them, and
once the loop has ended, to what was read last. -/
theorem line_totals (args : StatsArgs) (cfg : Cfg) (mark : UInt32) (recs : UInt64 → StatsRec)
    (now : UInt64) {m : Metered} (hBoot : Run (meterStep args.tscFreq cfg) HasRoom Metered.boot m)
    {s : Reporting} (run : Run (reportStep args cfg mark) ReportRoom (.start args m recs now) s) :
    AddUp s.lines s.status.tally ∧ s.status.tally.Before s.prog.mntStats.tally ∧
      (s.ended = true → mark ≠ 0 → ∃ now mntStats, s.read = some (now, mntStats) ∧
        AddUp s.lines mntStats.tally) := by
  have hStart : (Reporting.start args m recs now).Accounted mark := by
    have hWhole := run_whole hBoot
    exact ⟨hWhole, ⟨rfl, by simp [Reporting.start, StatsArgs.statusStart, Status.tally],
      by simp [Reporting.start, StatsArgs.statusStart, Status.tally]⟩, hWhole.shared, nofun, nofun⟩
  have hAll : s.Accounted mark :=
    run.invariant hStart fun _ _ _ h hRoom hStep => h.step hRoom hStep
  refine ⟨hAll.addUp, hAll.counted, fun hEnded hMark => ?_⟩
  obtain ⟨now, mntStats, hRead, hSame⟩ := hAll.ended hEnded hMark
  exact ⟨now, mntStats, hRead, hSame ▸ hAll.addUp⟩

end

/-- The program until main is in `nct_stats_loop`. -/
def toStatsLoop : List Tick :=
  ticksAt 0 (mountSteps 1 getattrBody ++ (Agent.recv 0).steps 3 ++ Agent.main.steps 13)

/-- The only job ends and is counted, and main prints a line. When nothing more has
been counted in its next turn, the loop ends. -/
def reportJob : List ReportAct :=
  (ticksAt 5 ((Agent.recv 0).hears 11 1 [] :: (Agent.recv 0).steps 9)).map .tick ++
    [.sample 2000000000, .print, .sample 4000000000, .print]

theorem line_totals_oneJob : ∃ (s : Reporting) (mntStats : Stats),
    s.lines.map (·.ops) = [1] ∧ s.read = some (4000000000, mntStats) ∧
      AddUp s.lines mntStats.tally := by
  have hExec : ∃ m, Run (meterStep oneJob.1 oneJob.2) HasRoom Metered.boot m ∧
      (exec (reportStep (mainStats 60 0 true oneJob.1) oneJob.2 1) ReportRoom
          (.start (mainStats 60 0 true oneJob.1) m (fun _ => .zero) 0) reportJob).any
        (fun s => decide (s.ended = true ∧ s.lines.map (·.ops) = [1] ∧
          s.read.map Prod.fst = some 4000000000)) = true :=
    Run.of_exec_any toStatsLoop (by decide +kernel)
  obtain ⟨m, hBoot, hExec⟩ := hExec
  obtain ⟨s, run, hEnded, hOps, hNow⟩ := Run.of_exec_any reportJob hExec
  obtain ⟨-, -, hLast⟩ := line_totals (mainStats 60 0 true oneJob.1) oneJob.2 1 _ 0 hBoot run
  obtain ⟨now, mntStats, hRead, hAddUp⟩ := hLast hEnded (by decide)
  rw [hRead] at hNow
  obtain rfl : now = 4000000000 := Option.some.inj hNow
  exact ⟨s, mntStats, hOps, hRead, hAddUp⟩

end Nct
