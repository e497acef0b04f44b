import Mathlib.Data.UInt
import Nct.Ownership
import Nct.Support.Shards

/-! The statistics of a mount. Each receive thread counts in a record of its own,
which it adds to `mnt_stats` at the end of an iteration, if it is time. -/
namespace Nct

open Function (update)
open Transition (Run)

structure Stats where
  latencyMin : UInt64
  latencyMax : UInt64
  latencyCum : UInt64
  requests : UInt64
  thruputSend : UInt64
  thruputRecv : UInt64
  updates : UInt64
  marks : UInt64
  deriving DecidableEq, Repr

def Stats.zero : Stats := ⟨0, 0, 0, 0, 0, 0, 0, 0⟩

/-- `mnt_stats` as `nct_mount` leaves it. -/
def Stats.mounted : Stats := { Stats.zero with latencyMin := 0 - 1 }

/-- What is counted of a reply. -/
structure Sample where
  latency : UInt64
  sent : UInt64
  received : UInt64
  deriving DecidableEq, Repr

/-- A receive thread updates its cumulative stats. -/
def Stats.count (stats : Stats) (x : Sample) : Stats :=
  { stats with
    latencyCum := stats.latencyCum + x.latency
    thruputSend := stats.thruputSend + x.sent
    thruputRecv := stats.thruputRecv + x.received
    requests := stats.requests + 1 }

/-- A receive thread adds its `stats` to `mnt_stats`. -/
def Stats.flush (mntStats stats : Stats) (tscDiff : UInt64) : Stats where
  latencyMin := if tscDiff < mntStats.latencyMin then tscDiff else mntStats.latencyMin
  latencyMax := if tscDiff > mntStats.latencyMax then tscDiff else mntStats.latencyMax
  latencyCum := mntStats.latencyCum + stats.latencyCum
  thruputSend := mntStats.thruputSend + stats.thruputSend
  thruputRecv := mntStats.thruputRecv + stats.thruputRecv
  requests := mntStats.requests + stats.requests
  marks := mntStats.marks + stats.marks
  updates := mntStats.updates + 1

structure Times where
  tscStop : UInt64
  tscDiff : UInt64
  deriving DecidableEq, Repr

/-- The program with its statistics. `own` and `tscStats` are variables of each
receive thread, and so is `times`, set from the update of its stats to the end of
the iteration. The last two fields are history: whether `nct_mount` has reset
`mnt_stats`, and the replies counted since. -/
structure Metered where
  sys : Sys
  mntStats : Stats
  own : Nat → Stats
  tscStats : Nat → UInt64
  times : Nat → Option Times
  reset : Bool
  replies : List Sample

def Metered.boot : Metered where
  sys := Sys.boot
  mntStats := .zero
  own := fun _ => .zero
  tscStats := fun _ => 0
  times := fun _ => none
  reset := false
  replies := []

/-- A step of the program, with what it takes from outside for the statistics:
an earlier value of the clock, and whether `mnt_recv_mark` is set. -/
structure Tick where
  act : Act
  earlier : UInt64
  marked : Bool
  deriving DecidableEq, Repr

section
variable (tscFreq : UInt64)

/-- The first time that a thread is to flush its stats. -/
def tscStart (earlier now : UInt64) : UInt64 := earlier % 777 * 1000 * 1000000 / tscFreq + now

/-- What a receive thread does for the statistics in a step to `sys`. -/
def Metered.recvStats (m : Metered) (t : Nat) (tick : Tick) (sys : Sys) : Metered :=
  match m.sys.pc (.recv t) with
  | .boot =>
      { m with
        sys
        tscStats := update m.tscStats t (tscStart tscFreq tick.earlier tick.act.input.now) }
  | .idle =>
      if tick.marked ∧ tick.act.input.reply.isSome then
        { m with sys, own := update m.own t { m.own t with marks := (m.own t).marks + 1 } }
      else { m with sys }
  | .got rep =>
      match m.sys.mnt.reqTbl (slot rep.xid) with
      | none => { m with sys }
      | some req =>
          if m.sys.mnt.reqXid req ≠ rep.xid then { m with sys }
          else
            let tscStop := tick.act.input.now
            let tscDiff := tscStop - m.sys.mnt.reqTscStart req
            let x : Sample :=
              { latency := tscDiff
                sent := UInt64.ofNat (m.sys.mnt.msgLen (m.sys.mnt.reqMsg req))
                received := UInt64.ofNat rep.len }
            { m with
              sys
              own := update m.own t ((m.own t).count x)
              times := update m.times t (some ⟨tscStop, tscDiff⟩)
              replies := m.replies ++ [x] }
  | _ => { m with sys }

def Metered.finish (m : Metered) (t : Nat) (times : Times) : Metered :=
  if times.tscStop < m.tscStats t then { m with times := update m.times t none }
  else
    { m with
      mntStats := m.mntStats.flush (m.own t) times.tscDiff
      own := update m.own t .zero
      tscStats := update m.tscStats t (m.tscStats t + 1000 * 1000000 / tscFreq)
      times := update m.times t none }

/-- What main does for the statistics in a step to `sys`. -/
def Metered.mainStats (m : Metered) (sys : Sys) : Metered :=
  match m.sys.pc .main with
  | .back .mounted _ _ _ => { m with sys, mntStats := .mounted, reset := true, replies := [] }
  | _ => { m with sys }

def meterStep (cfg : Cfg) (m : Metered) (tick : Tick) : Option Metered :=
  match tick.act.agent with
  | .main => (step cfg m.sys tick.act).map m.mainStats
  | .recv t =>
      match m.sys.pc (.recv t), m.times t with
      | .idle, some times =>
          if t < cfg.tdsMax ∧ m.sys.halted = none then some (m.finish tscFreq t times) else none
      | _, _ => (step cfg m.sys tick.act).map (m.recvStats tscFreq t tick)

end

/-- What `mnt_stats` is to sum up over the replies. -/
abbrev Amounts := UInt64 × UInt64 × UInt64 × UInt64

def Stats.amounts (stats : Stats) : Amounts :=
  (stats.requests, stats.thruputSend, stats.thruputRecv, stats.latencyCum)

def Sample.amounts (x : Sample) : Amounts := (1, x.sent, x.received, x.latency)

/-- When `nct_mount` resets `mnt_stats`, all receive threads have flushed theirs. -/
def FlushedAtReset (cfg : Cfg) (m : Metered) (tick : Tick) : Prop :=
  match tick.act.agent, m.sys.pc .main with
  | .main, .back .mounted _ _ _ => ∀ t < cfg.tdsMax, (m.own t).amounts = 0
  | _, _ => True

/-- A receive thread that reads end of file has flushed its stats. -/
def FlushedAtExit (m : Metered) (tick : Tick) : Prop :=
  match tick.act.agent with
  | .main => True
  | .recv t =>
      m.sys.pc (.recv t) = .idle → m.times t = none → tick.act.input.reply = none →
        (m.own t).amounts = 0

instance (cfg : Cfg) (m : Metered) (tick : Tick) : Decidable (FlushedAtReset cfg m tick) := by
  unfold FlushedAtReset
  generalize tick.act.agent = a, m.sys.pc .main = pc
  induction a using Agent.casesOn with
  | recv t => infer_instance
  | main =>
      induction pc using Pc.casesOn with
      | back fn req ret freed => induction fn using Fn.casesOn <;> infer_instance
      | _ => infer_instance

instance (m : Metered) (tick : Tick) : Decidable (FlushedAtExit m tick) := by
  unfold FlushedAtExit
  generalize tick.act.agent = a
  induction a using Agent.casesOn <;> infer_instance

/-- `mnt_stats` and the threads' stats add up to what was counted. -/
def Metered.Balanced (cfg : Cfg) (m : Metered) : Prop :=
  m.mntStats.amounts + ∑ t ∈ Finset.range cfg.tdsMax, (m.own t).amounts =
    (m.replies.map Sample.amounts).sum

@[simp] theorem Stats.amounts_zero : Stats.zero.amounts = 0 := rfl

/-- A reply adds its own amounts. -/
theorem Stats.amounts_count (stats : Stats) (x : Sample) :
    (stats.count x).amounts = stats.amounts + x.amounts := rfl

/-- A flush adds up what has been counted, whatever becomes of the extremes. -/
theorem Stats.amounts_flush (mntStats stats : Stats) (tscDiff : UInt64) :
    (mntStats.flush stats tscDiff).amounts = mntStats.amounts + stats.amounts := rfl

/-- The amounts of all threads when those of one change. -/
theorem amounts_update (own : Nat → Stats) (t : Nat) (stats : Stats) :
    (fun u => (update own t stats u).amounts) = update (fun u => (own u).amounts) t stats.amounts := by
  funext u
  exact Function.apply_update (fun _ => Stats.amounts) own t stats u

/-- What a receive thread does for the statistics in a step to `sys`, other than
to end an iteration: it counts a reply, or none. -/
structure Metered.Counts (m : Metered) (t : Nat) (sys : Sys) (m' : Metered) : Prop where
  sys : m'.sys = sys
  reset : m'.reset = m.reset
  shared : m'.mntStats = m.mntStats
  others : ∀ u, u ≠ t → m'.own u = m.own u
  counted : (m'.own t).amounts = (m.own t).amounts ∧ m'.replies = m.replies ∨
    ∃ x, m'.own t = (m.own t).count x ∧ m'.replies = m.replies ++ [x]

/-- At the end of an iteration a receive thread changes no stats but its own and
`mnt_stats`. -/
structure Metered.Finishes (m : Metered) (t : Nat) (m' : Metered) : Prop where
  sys : m'.sys = m.sys
  reset : m'.reset = m.reset
  others : ∀ u, u ≠ t → m'.own u = m.own u

/-- A step of a receive thread counts a reply or none, and leaves the rest as it is. -/
theorem recvStats_counts (tscFreq : UInt64) (m : Metered) (t : Nat) (tick : Tick) (sys : Sys) :
    m.Counts t sys (m.recvStats tscFreq t tick sys) := by
  unfold Metered.recvStats
  split
  · exact ⟨rfl, rfl, rfl, fun _ _ => rfl, Or.inl ⟨rfl, rfl⟩⟩
  · split
    · refine ⟨rfl, rfl, rfl, fun u hu => Function.update_of_ne hu _ _, Or.inl ⟨?_, rfl⟩⟩
      simp [Stats.amounts]
    · exact ⟨rfl, rfl, rfl, fun _ _ => rfl, Or.inl ⟨rfl, rfl⟩⟩
  · split
    · exact ⟨rfl, rfl, rfl, fun _ _ => rfl, Or.inl ⟨rfl, rfl⟩⟩
    · split
      · exact ⟨rfl, rfl, rfl, fun _ _ => rfl, Or.inl ⟨rfl, rfl⟩⟩
      · refine ⟨rfl, rfl, rfl, fun u hu => Function.update_of_ne hu _ _, Or.inr ⟨_, ?_, rfl⟩⟩
        exact Function.update_self _ _ _
  · exact ⟨rfl, rfl, rfl, fun _ _ => rfl, Or.inl ⟨rfl, rfl⟩⟩

/-- The end of an iteration flushes the stats of its thread or keeps them. -/
theorem finish_finishes (tscFreq : UInt64) (m : Metered) (t : Nat) (times : Times) :
    m.Finishes t (m.finish tscFreq t times) := by
  unfold Metered.finish
  split
  · exact ⟨rfl, rfl, fun _ _ => rfl⟩
  · exact ⟨rfl, rfl, fun u hu => Function.update_of_ne hu _ _⟩

section
variable {tscFreq : UInt64} {cfg : Cfg} {m m' : Metered} {t : Nat} {tick : Tick}

/-- Only the amounts matter, and the replies. -/
theorem Metered.Balanced.congr (h : m.Balanced cfg) (hShared : m'.mntStats = m.mntStats)
    (hOwn : ∀ t, (m'.own t).amounts = (m.own t).amounts) (hReplies : m'.replies = m.replies) :
    m'.Balanced cfg := by
  simpa only [Metered.Balanced, hShared, hOwn, hReplies] using h

/-- A reply that is counted goes to one summand and to the replies alike. -/
theorem Metered.Balanced.counts {sys : Sys} (h : m.Balanced cfg) (ht : t < cfg.tdsMax)
    (hCounts : m.Counts t sys m') : m'.Balanced cfg := by
  obtain ⟨-, -, hShared, hOthers, ⟨hOwn, hReplies⟩ | ⟨x, hOwn, hReplies⟩⟩ := hCounts
  · refine h.congr hShared (fun u => ?_) hReplies
    by_cases hu : u = t
    · rw [hu, hOwn]
    · rw [hOthers u hu]
  · have hUpdate : m'.own = update m.own t ((m.own t).count x) :=
      Function.eq_update_iff.mpr ⟨hOwn, hOthers⟩
    have hTotal := Shards.total_add ht m.mntStats.amounts (fun u => (m.own u).amounts) x.amounts
    rw [← Stats.amounts_count, ← amounts_update, ← hUpdate, ← hShared] at hTotal
    apply hTotal.trans
    rw [hShared, hReplies, List.map_append, List.sum_append, List.map_singleton, List.sum_singleton]
    exact congrArg (· + x.amounts) h

/-- A flush moves amounts from one summand to another. -/
theorem Metered.Balanced.finish (h : m.Balanced cfg) (ht : t < cfg.tdsMax) (times : Times) :
    (m.finish tscFreq t times).Balanced cfg := by
  unfold Metered.finish
  split
  · exact h.congr rfl (fun _ => rfl) rfl
  · have hTotal := Shards.total_flush ht m.mntStats.amounts (fun u => (m.own u).amounts)
    rw [← Stats.amounts_flush m.mntStats (m.own t) times.tscDiff, ← Stats.amounts_zero,
      ← amounts_update] at hTotal
    exact hTotal.trans h

/-- What a step is: one of main, one of a receive thread, or the end of an iteration. -/
theorem meterStep_cases (h : meterStep tscFreq cfg m tick = some m') :
    (tick.act.agent = .main ∧ ∃ sys, step cfg m.sys tick.act = some sys ∧ m' = m.mainStats sys) ∨
      ∃ t < cfg.tdsMax, tick.act.agent = .recv t ∧
        ((∃ times, m.sys.pc (.recv t) = .idle ∧ m.times t = some times ∧ m' = m.finish tscFreq t times) ∨
          ((m.sys.pc (.recv t) = .idle → m.times t = none) ∧
            ∃ sys, step cfg m.sys tick.act = some sys ∧ m' = m.recvStats tscFreq t tick sys)) := by
  unfold meterStep at h
  split at h
  · next hAgent =>
      obtain ⟨sys, hStep, rfl⟩ := Option.map_eq_some_iff.mp h
      exact Or.inl ⟨hAgent, sys, hStep, rfl⟩
  · next t hAgent =>
      right
      split at h
      · next times hPc hTimes =>
          split at h
          · next hRun =>
              cases h
              exact ⟨t, hRun.1, hAgent, Or.inl ⟨times, hPc, hTimes, rfl⟩⟩
          · cases h
      · next hOther =>
          obtain ⟨sys, hStep, rfl⟩ := Option.map_eq_some_iff.mp h
          refine ⟨t, (step_cases hStep).2 t hAgent, hAgent, Or.inr ⟨fun hPc => ?_, sys, hStep, rfl⟩⟩
          cases hTimes : m.times t with
          | none => rfl
          | some times => exact absurd hTimes (hOther times hPc)

/-- The step at which `nct_mount` resets the statistics starts with the sums equal. -/
theorem Metered.Balanced.step (h : m.reset = true → m.Balanced cfg) (hOk : FlushedAtReset cfg m tick)
    (hStep : meterStep tscFreq cfg m tick = some m') (hReset : m'.reset = true) : m'.Balanced cfg := by
  rcases meterStep_cases hStep with ⟨hAgent, sys, -, rfl⟩ |
    ⟨t, ht, -, ⟨times, -, -, rfl⟩ | ⟨-, sys, -, rfl⟩⟩
  · unfold Metered.mainStats at hReset ⊢
    split
    · next req ret freed hPc =>
        simp only [FlushedAtReset, hAgent, hPc] at hOk
        exact Shards.total_of_clear hOk _
    · next hPc =>
        split at hReset
        · next hMounted => exact absurd hMounted (hPc _ _ _)
        · exact (h hReset).congr rfl (fun _ => rfl) rfl
  · rw [(finish_finishes tscFreq m t times).reset] at hReset
    exact (h hReset).finish ht times
  · have hCounts := recvStats_counts tscFreq m t tick sys
    exact (h (hCounts.reset ▸ hReset)).counts ht hCounts

/-- A receive thread exits when it reads end of file, and not otherwise. -/
theorem step_exited {s s' : Sys} {act : Act} (hAgent : act.agent = .recv t)
    (hStep : step cfg s act = some s') (hExit : s'.pc (.recv t) = .exited) :
    s.pc (.recv t) = .idle ∧ act.input.reply = none := by
  have hIdle : s.pc (.recv t) = .idle := by
    obtain ⟨hCase, -⟩ := step_cases hStep
    rw [hAgent] at hCase
    cases hCase with
    | eof hPc => exact hPc
    | cantDecode hPc => exact hPc
    | nullSlot hPc | xidMismatch hPc | sendCheck hPc =>
        rw [show s.pc (.recv t) = .exited from hExit] at hPc
        cases hPc
    | settle hPc =>
        rw [Sys.goto_pc_self] at hExit
        split at hExit <;> cases hExit
    | _ =>
        rw [Sys.goto_pc_self] at hExit
        cases hExit
  refine ⟨hIdle, ?_⟩
  cases hReply : act.input.reply with
  | none => rfl
  | some rep =>
      simp only [step, hAgent, recvStep, hIdle, hReply] at hStep
      split_ifs at hStep
      · cases hStep
        exact absurd (hIdle.symm.trans hExit) (by simp)
      · cases hStep
        simp at hExit

/-- A thread that has exited has nothing unflushed. -/
def Metered.ExitsClean (m : Metered) : Prop :=
  ∀ t, m.sys.pc (.recv t) = .exited → (m.own t).amounts = 0

/-- A thread that reads end of file has flushed before. -/
theorem Metered.ExitsClean.step (h : m.ExitsClean) (hOk : FlushedAtExit m tick)
    (hStep : meterStep tscFreq cfg m tick = some m') : m'.ExitsClean := by
  intro u hExit
  rcases meterStep_cases hStep with ⟨hAgent, sys, hSys, rfl⟩ |
    ⟨t, -, hAgent, ⟨times, hPc, hTimes, rfl⟩ | ⟨hDone, sys, hSys, rfl⟩⟩
  · have hOther : sys.pc (.recv u) = m.sys.pc (.recv u) :=
      step_pc_other (step_cases hSys).1 (by simp [hAgent])
    unfold Metered.mainStats at hExit ⊢
    split at hExit <;> exact h u (hOther.symm.trans hExit)
  · obtain ⟨hSame, -, hOthers⟩ := finish_finishes tscFreq m t times
    rw [hSame] at hExit
    have hu : u ≠ t := by
      rintro rfl
      exact absurd (hPc.symm.trans hExit) (by simp)
    rw [hOthers u hu]
    exact h u hExit
  · have hCounts := recvStats_counts tscFreq m t tick sys
    rw [hCounts.sys] at hExit
    by_cases hu : u = t
    · subst hu
      obtain ⟨hIdle, hReply⟩ := step_exited hAgent hSys hExit
      have hFlushed : (m.own u).amounts = 0 := by
        simp only [FlushedAtExit, hAgent] at hOk
        exact hOk hIdle (hDone hIdle) hReply
      simpa only [Metered.recvStats, hIdle, hReply, Option.isSome_none, Bool.false_eq_true,
        and_false, if_false] using hFlushed
    · rw [hCounts.others u hu]
      have hOther : sys.pc (.recv u) = m.sys.pc (.recv u) :=
        step_pc_other (step_cases hSys).1 (by simpa [hAgent] using hu)
      exact h u (hOther.symm.trans hExit)

end

/-- Each reply is one request. -/
theorem sum_requests (replies : List Sample) :
    (replies.map Sample.amounts).sum.1 = UInt64.ofNat replies.length := by
  induction replies with
  | nil => rfl
  | cons x replies ih =>
      rw [List.map_cons, List.sum_cons, Prod.fst_add, ih, List.length_cons, UInt64.ofNat_add,
        UInt64.add_comm]
      rfl

/-- From the reset on, `mnt_stats` and what is not flushed add up to the replies
counted, if all was flushed at the reset. If the threads that have exited had
flushed their stats too, `mnt_stats` has them all in the end. -/
theorem completions_counted (tscFreq : UInt64) (cfg : Cfg) :
    (∀ m, Run (meterStep tscFreq cfg) (FlushedAtReset cfg) Metered.boot m →
      m.reset = true → m.Balanced cfg) ∧
    ∀ m, Run (meterStep tscFreq cfg) (fun m tick => FlushedAtReset cfg m tick ∧ FlushedAtExit m tick)
        Metered.boot m →
      m.reset = true → (∀ t < cfg.tdsMax, m.sys.pc (.recv t) = .exited) →
      m.mntStats.requests = UInt64.ofNat m.replies.length := by
  have hBalanced : ∀ m, Run (meterStep tscFreq cfg) (FlushedAtReset cfg) Metered.boot m →
      m.reset = true → m.Balanced cfg := fun m run =>
    run.invariant (P := fun m => m.reset = true → m.Balanced cfg) (fun h => by cases h)
      fun _ _ _ h hOk hStep hReset => Metered.Balanced.step h hOk hStep hReset
  refine ⟨hBalanced, fun m run hReset hExited => ?_⟩
  have hClean : m.ExitsClean := by
    refine run.invariant (P := Metered.ExitsClean) (fun t _ => rfl) ?_
    exact fun _ _ _ h hOk hStep => h.step hOk.2 hStep
  have hTotal := hBalanced m (run.mono fun _ _ hOk => hOk.1) hReset
  have hShared : m.mntStats.amounts = (m.replies.map Sample.amounts).sum :=
    (Shards.total_of_clear (fun t ht => hClean t (hExited t ht)) _).symm.trans hTotal
  exact (congrArg Prod.fst hShared).trans (sum_requests m.replies)

def ticksAt (now : UInt64) (acts : List Act) : List Tick :=
  acts.map fun act => ⟨{ act with input.now := now }, 0, false⟩

/-- The only receive thread flushes what it counted of the mount's GETATTR. The
only job is sent and ends with an error at the given time, and the write side is
shut down. -/
def oneJobTicks (now : UInt64) : List Tick :=
  ticksAt 0 (mountSteps 1 getattrBody ++ (Agent.recv 0).steps 3 ++ Agent.main.steps 13) ++
    ticksAt now ((Agent.recv 0).hears 11 1 [] :: (Agent.recv 0).steps 8)

def oneJob : UInt64 × Cfg := (1000000000, ⟨.null, 1, 1, 4096, 1000, fun _ => 100, rfcInts⟩)

/-- It is time to flush, and then end of file is read. -/
theorem completions_counted_flushed :
    ∃ m : Metered, m.reset = true ∧ m.replies.length = 1 ∧ m.Balanced oneJob.2 ∧
      m.mntStats.requests = UInt64.ofNat m.replies.length := by
  obtain ⟨m, hRun, hReset, hLength, hExited⟩ : ∃ m, Run (meterStep oneJob.1 oneJob.2)
        (fun m tick => FlushedAtReset oneJob.2 m tick ∧ FlushedAtExit m tick) Metered.boot m ∧
      m.reset = true ∧ m.replies.length = 1 ∧ ∀ t < oneJob.2.tdsMax, m.sys.pc (.recv t) = .exited :=
    Run.of_exec_any (oneJobTicks 5 ++ ticksAt 5 ((Agent.recv 0).steps 2)) (by decide +kernel)
  obtain ⟨hBalanced, hAll⟩ := completions_counted oneJob.1 oneJob.2
  exact ⟨m, hReset, hLength, hBalanced m (hRun.mono fun _ _ hOk => hOk.1) hReset,
    hAll m hRun hReset hExited⟩

/-- The thread is late to flush what it counted of the GETATTR. -/
def lateFlushTicks : List Tick :=
  ticksAt 0 (mountSteps 1 getattrBody ++ (Agent.recv 0).steps 2 ++ Agent.main.steps 5)

/-- A reset while the GETATTR is not flushed leaves it to be counted in. If it is
not yet time to flush when the job's reply comes in, it is not counted at all. -/
theorem completions_counted_unflushed :
    (¬ ∀ (tscFreq : UInt64) (cfg : Cfg) (m : Metered),
      Run (meterStep tscFreq cfg) (fun _ _ => True) Metered.boot m → m.reset = true →
      m.Balanced cfg) ∧
    ¬ ∀ (tscFreq : UInt64) (cfg : Cfg) (m : Metered),
      Run (meterStep tscFreq cfg) (FlushedAtReset cfg) Metered.boot m → m.reset = true →
      (∀ t < cfg.tdsMax, m.sys.pc (.recv t) = .exited) →
      m.mntStats.requests = UInt64.ofNat m.replies.length := by
  constructor
  · intro h
    obtain ⟨m, hRun, hReset, hShared, hOwn, hNone⟩ : ∃ m,
        Run (meterStep oneJob.1 oneJob.2) (fun _ _ => True) Metered.boot m ∧
        m.reset = true ∧ m.mntStats = .mounted ∧ (m.own 0).requests = 1 ∧ m.replies = [] :=
      Run.of_exec_any lateFlushTicks (by decide +kernel)
    have hBalanced := congrArg Prod.fst (h oneJob.1 oneJob.2 m hRun hReset)
    simp [hShared, hNone, oneJob, Stats.amounts, Stats.mounted, Stats.zero, hOwn] at hBalanced
  · intro h
    obtain ⟨m, hRun, hReset, hExited, hRequests⟩ : ∃ m,
        Run (meterStep oneJob.1 oneJob.2) (FlushedAtReset oneJob.2) Metered.boot m ∧
        m.reset = true ∧ (∀ t < oneJob.2.tdsMax, m.sys.pc (.recv t) = .exited) ∧
        m.mntStats.requests ≠ UInt64.ofNat m.replies.length :=
      Run.of_exec_any (oneJobTicks 0 ++ ticksAt 0 ((Agent.recv 0).steps 2)) (by decide +kernel)
    exact hRequests (h oneJob.1 oneJob.2 m hRun hReset hExited)

end Nct
