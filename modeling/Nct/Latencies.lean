import Nct.Link
import Nct.Stats
import Nct.Support.Extremes

/-! The latencies that `mnt_stats` sums up, and its least and greatest latency. The
sum is of all requests in a thread's stats, the extremes are of the last one. -/
namespace Nct

open Function (update)
open Transition (Run)

def Stats.resetExtremes (mntStats : Stats) : Stats :=
  { mntStats with latencyMin := 0 - 1, latencyMax := 0 }

/-- The latencies added to `latency_cum` since a reset by `nct_stats_loop`: those
of each flush in the order of the replies, and those of requests sent again. -/
structure Interval where
  start : UInt64
  flushes : List (List UInt64)
  resent : List UInt64
  deriving DecidableEq, Repr

def Interval.added (interval : Interval) : List UInt64 := interval.flushes.flatten ++ interval.resent

/-- The sum of all latencies is that of the flushes and of those sent again. -/
theorem Interval.added_sum (interval : Interval) :
    interval.added.sum = (interval.flushes.map List.sum).sum + interval.resent.sum := by
  rw [Interval.added, List.sum_append, List.sum_flatten]

/-- The latencies of the replies that were the last of their flush. -/
def Interval.lasts (interval : Interval) : List UInt64 := interval.flushes.filterMap List.getLast?

def Interval.flush (interval : Interval) (batch : List UInt64) : Interval :=
  { interval with flushes := interval.flushes ++ [batch] }

def Interval.resend (interval : Interval) (latencies : List UInt64) : Interval :=
  { interval with resent := interval.resent ++ latencies }

/-- The state of a run. `batch` and `interval` are history: the latencies that
each thread has yet to flush, and what has been added since the last reset. -/
structure Watched where
  meter : Metered
  last : UInt64
  scan : Nat → Option Nat
  batch : Nat → List UInt64
  interval : Option Interval

def Watched.boot : Watched := ⟨Metered.boot, 0, fun _ => none, fun _ => [], none⟩

/-- The program without its statistics. -/
def Watched.link (w : Watched) : Link := ⟨w.meter.sys, w.last, w.scan⟩

inductive WatchAct where
  | tick (tick : Tick)
  | drop (t : Nat)
  | scan (t : Nat) (now : UInt64) (complete : Bool)
  /-- `nct_stats_loop` takes a sample. -/
  | sample
  deriving DecidableEq

/-- The latency of the request that a pass of the resend loop sends. -/
def Link.resentLatencies (s : Link) (t : Nat) (now : UInt64) (complete : Bool) : List UInt64 :=
  match s.scan t with
  | none => []
  | some i =>
      if i < NCT_REQ_MAX then
        match resendSlot (fun _ => now) (fun _ => complete) i ⟨s.sys.mnt, 0, []⟩ with
        | .error _ => []
        | .ok r => r.sends.map fun _ => r.latencyCum
      else []

/-- For the statistics, main changes nothing of the program. -/
theorem mainStats_sys (m : Metered) (sys : Sys) : (m.mainStats sys).sys = sys := by
  unfold Metered.mainStats
  split <;> rfl

/-- A step of the program, with what it adds to the history. -/
def Watched.go (w : Watched) (tick : Tick) (meter : Metered) : Watched :=
  match tick.act.agent with
  | .main => { w with meter, last := tick.act.input.now }
  | .recv t =>
      match w.meter.sys.pc (.recv t), w.meter.times t with
      | .idle, some times =>
          if times.tscStop < w.meter.tscStats t then { w with meter }
          else
            { w with
              meter
              batch := update w.batch t []
              interval := w.interval.map fun interval => interval.flush (w.batch t) }
      | _, _ =>
          let counted := meter.replies.drop w.meter.replies.length
          { w with
            meter
            last := tick.act.input.now
            batch := update w.batch t (w.batch t ++ counted.map Sample.latency) }

def watchStep (tscFreq : UInt64) (cfg : Cfg) (w : Watched) : WatchAct → Option Watched
  | .tick tick =>
      if w.link.Out tick.act.agent ∧ w.last ≤ tick.act.input.now then
        (meterStep tscFreq cfg w.meter tick).map (w.go tick)
      else none
  | .drop t =>
      if w.meter.times t = none then
        (linkStep cfg w.link (.drop t)).map fun link =>
          { w with meter := { w.meter with sys := link.sys }, scan := link.scan }
      else none
  | .scan t now complete =>
      (linkStep cfg w.link (.scan t now complete)).map fun link =>
        let latencies := w.link.resentLatencies t now complete
        let mntStats :=
          { w.meter.mntStats with latencyCum := w.meter.mntStats.latencyCum + latencies.sum }
        { w with
          meter := { w.meter with sys := link.sys, mntStats }
          last := link.last
          scan := link.scan
          interval := w.interval.map fun interval => interval.resend latencies }
  | .sample =>
      if w.meter.sys.pc .main = .stats ∧ w.meter.sys.halted = none then
        some { w with
          meter := { w.meter with mntStats := w.meter.mntStats.resetExtremes }
          interval := some ⟨w.meter.mntStats.latencyCum, [], []⟩ }
      else none

section
variable {tscFreq : UInt64} {cfg : Cfg} {w w' : Watched} {act : WatchAct} {tick : Tick} {t : Nat}

/-- A step of main adds nothing to the history. -/
theorem Watched.go_main {meter : Metered} (hAgent : tick.act.agent = .main) :
    w.go tick meter = { w with meter, last := tick.act.input.now } := by
  simp only [Watched.go, hAgent]

/-- At the end of an iteration, the thread flushes or not. -/
theorem Watched.go_finish {meter : Metered} {times : Times} (hAgent : tick.act.agent = .recv t)
    (hPc : w.meter.sys.pc (.recv t) = .idle) (hTimes : w.meter.times t = some times) :
    w.go tick meter = if times.tscStop < w.meter.tscStats t then { w with meter } else
      { w with
        meter
        batch := update w.batch t []
        interval := w.interval.map fun interval => interval.flush (w.batch t) } := by
  simp only [Watched.go, hAgent, hPc, hTimes]

/-- A step of a receive thread adds the latency of the reply that it counts, if any, to
what the thread has yet to flush. -/
theorem Watched.go_recv {meter : Metered} (hAgent : tick.act.agent = .recv t)
    (hOther : w.meter.sys.pc (.recv t) = .idle → w.meter.times t = none) :
    w.go tick meter =
      { w with
        meter
        last := tick.act.input.now
        batch := update w.batch t
          (w.batch t ++ (meter.replies.drop w.meter.replies.length).map Sample.latency) } := by
  simp only [Watched.go, hAgent]
  split
  · next hPc hTimes => cases (hOther hPc).symm.trans hTimes
  · rfl

/-- Without its statistics, every step is one of the program or none. -/
theorem watchStep_link (h : watchStep tscFreq cfg w act = some w') :
    w'.link = w.link ∨ ∃ act', linkStep cfg w.link act' = some w'.link := by
  cases act with
  | tick tick =>
      simp only [watchStep] at h
      split at h
      · next hNow =>
          obtain ⟨meter, hMeter, rfl⟩ := Option.map_eq_some_iff.mp h
          have hGo : ∀ sys, step cfg w.meter.sys tick.act = some sys →
              linkStep cfg w.link (.go tick.act) = some ⟨sys, tick.act.input.now, w.scan⟩ := by
            intro sys hSys
            exact (if_pos hNow).trans (congrArg (Option.map _) hSys)
          rcases meterStep_cases hMeter with ⟨hAgent, sys, hSys, rfl⟩ |
            ⟨t, -, hAgent, ⟨times, hPc, hTimes, rfl⟩ | ⟨hOther, sys, hSys, rfl⟩⟩
          · refine Or.inr ⟨.go tick.act, (hGo sys hSys).trans ?_⟩
            rw [Watched.go_main hAgent, Watched.link, mainStats_sys]
          · left
            rw [Watched.go_finish hAgent hPc hTimes]
            have hSame := (finish_finishes tscFreq w.meter t times).sys
            split <;> simp only [Watched.link, hSame]
          · refine Or.inr ⟨.go tick.act, (hGo sys hSys).trans ?_⟩
            rw [Watched.go_recv hAgent hOther, Watched.link,
              (recvStats_counts tscFreq w.meter t tick sys).sys]
      · cases h
  | drop t =>
      simp only [watchStep] at h
      split at h
      · obtain ⟨link, hLink, rfl⟩ := Option.map_eq_some_iff.mp h
        refine Or.inr ⟨.drop t, hLink.trans ?_⟩
        simp only [linkStep] at hLink
        split at hLink
        · cases hLink
          rfl
        · cases hLink
      · cases h
  | scan t now complete =>
      simp only [watchStep] at h
      obtain ⟨link, hLink, rfl⟩ := Option.map_eq_some_iff.mp h
      exact Or.inr ⟨.scan t now complete, hLink⟩
  | sample =>
      simp only [watchStep] at h
      split at h
      · cases h
        exact Or.inl rfl
      · cases h

/-- What a step of receive thread `t` other than the end of an iteration does to
its batch: nothing, or it counts one more latency, which is then its last. -/
theorem recvStats_latency (tscFreq : UInt64) (m : Metered) (t : Nat) (tick : Tick) (sys : Sys) :
    (∀ u, u ≠ t → (m.recvStats tscFreq t tick sys).times u = m.times u) ∧
      ∃ latencies : List UInt64,
        ((m.recvStats tscFreq t tick sys).replies.drop m.replies.length).map Sample.latency =
          latencies ∧
        ((m.recvStats tscFreq t tick sys).own t).latencyCum =
          (m.own t).latencyCum + latencies.sum ∧
        (((m.recvStats tscFreq t tick sys).times t = m.times t ∧ latencies = []) ∨
          ∃ times, (m.recvStats tscFreq t tick sys).times t = some times ∧
            latencies = [times.tscDiff]) := by
  unfold Metered.recvStats
  split
  · exact ⟨fun _ _ => rfl, [], by simp⟩
  · split
    · exact ⟨fun _ _ => rfl, [], by simp⟩
    · exact ⟨fun _ _ => rfl, [], by simp⟩
  · split
    · exact ⟨fun _ _ => rfl, [], by simp⟩
    · split
      · exact ⟨fun _ _ => rfl, [], by simp⟩
      · refine ⟨fun u hu => Function.update_of_ne hu _ _, [_], by simp, ?_,
          Or.inr ⟨_, Function.update_self _ _ _, rfl⟩⟩
        simp [Stats.count]
  · exact ⟨fun _ _ => rfl, [], by simp⟩

structure Watched.Traces (w : Watched) : Prop where
  own : ∀ t, (w.meter.own t).latencyCum = (w.batch t).sum
  newest : ∀ t, ∀ times ∈ w.meter.times t, (w.batch t).getLast? = some times.tscDiff
  main : w.interval.isSome → w.meter.sys.pc .main = .stats
  cum : ∀ interval ∈ w.interval,
    w.meter.mntStats.latencyCum = interval.start + interval.added.sum
  least : ∀ interval ∈ w.interval,
    w.meter.mntStats.latencyMin = Extremes.lowest (0 - 1) interval.lasts
  greatest : ∀ interval ∈ w.interval,
    w.meter.mntStats.latencyMax = Extremes.highest 0 interval.lasts

/-- Nothing has been added before the first step. -/
theorem Watched.boot_traces : Watched.boot.Traces where
  own := fun _ => rfl
  newest := by simp [Watched.boot, Metered.boot]
  main := by simp [Watched.boot]
  cum := by simp [Watched.boot]
  least := by simp [Watched.boot]
  greatest := by simp [Watched.boot]

/-- Main stays in `nct_stats_loop`. -/
theorem step_main_stats {s s' : Sys} {act : Act} (hStep : step cfg s act = some s')
    (hStats : s.pc .main = .stats) : act.agent ≠ .main ∧ s'.pc .main = .stats := by
  obtain ⟨hCase, -⟩ := step_cases hStep
  have hAgent : act.agent ≠ .main := by
    intro hMain
    rw [hMain] at hCase
    cases hCase <;> simp_all
  exact ⟨hAgent, (step_pc_other hCase hAgent.symm).trans hStats⟩

/-- Only its reset of the statistics concerns the history. -/
theorem Watched.Traces.main_step (h : w.Traces) (hAgent : tick.act.agent = .main) {sys : Sys}
    (hSys : step cfg w.meter.sys tick.act = some sys) : (w.go tick (w.meter.mainStats sys)).Traces := by
  have hNone : w.interval = none := by
    cases hInterval : w.interval with
    | none => rfl
    | some interval =>
        exact absurd hAgent (step_main_stats hSys (h.main (by simp [hInterval]))).1
  have hOwn : (w.meter.mainStats sys).own = w.meter.own := by
    unfold Metered.mainStats
    split <;> rfl
  have hTimes : (w.meter.mainStats sys).times = w.meter.times := by
    unfold Metered.mainStats
    split <;> rfl
  rw [Watched.go_main hAgent]
  refine ⟨by simpa only [hOwn] using h.own, by simpa only [hTimes] using h.newest, ?_, ?_, ?_, ?_⟩ <;>
    simp [hNone]

/-- An iteration that ends with a flush moves what its thread has counted to the
flushes. -/
theorem Watched.Traces.finish (h : w.Traces) (hAgent : tick.act.agent = .recv t) {times : Times}
    (hPc : w.meter.sys.pc (.recv t) = .idle) (hTimes : w.meter.times t = some times) :
    (w.go tick (w.meter.finish tscFreq t times)).Traces := by
  have hLast : (w.batch t).getLast? = some times.tscDiff := h.newest t times hTimes
  rw [Watched.go_finish hAgent hPc hTimes]
  unfold Metered.finish
  have hNewest : ∀ u, u ≠ t → ∀ times' ∈ update w.meter.times t none u,
      (w.batch u).getLast? = some times'.tscDiff := by
    intro u hu times' hTimes'
    exact h.newest u times' (by simpa [hu] using hTimes')
  split
  · refine ⟨h.own, fun u times' hTimes' => ?_, h.main, h.cum, h.least, h.greatest⟩
    by_cases hu : u = t
    · simp [hu] at hTimes'
    · exact hNewest u hu times' hTimes'
  · refine ⟨fun u => ?_, fun u times' hTimes' => ?_, fun hSome => h.main (by simpa using hSome),
      ?_, ?_, ?_⟩
    · by_cases hu : u = t
      · simp [hu, Stats.zero]
      · simpa [hu] using h.own u
    · by_cases hu : u = t
      · simp [hu] at hTimes'
      · simpa [hu] using hNewest u hu times' hTimes'
    · refine Option.forall_mem_map.mpr fun interval hPrior => ?_
      simp only [Stats.flush, h.cum interval hPrior, h.own t, Interval.flush, Interval.added_sum,
        List.map_append, List.sum_append, List.map_singleton, List.sum_singleton]
      rw [add_assoc, add_right_comm]
    · refine Option.forall_mem_map.mpr fun interval hPrior => ?_
      simp [Stats.flush, h.least interval hPrior, Interval.flush, Interval.lasts, hLast,
        Extremes.lowest, Extremes.best_snoc]
    · refine Option.forall_mem_map.mpr fun interval hPrior => ?_
      simp [Stats.flush, h.greatest interval hPrior, Interval.flush, Interval.lasts, hLast,
        Extremes.highest, Extremes.best_snoc]

/-- A reply that is counted is in the history of its thread as it is in its stats. -/
theorem Watched.Traces.recv (h : w.Traces) (hAgent : tick.act.agent = .recv t) {sys : Sys}
    (hSys : step cfg w.meter.sys tick.act = some sys)
    (hOther : w.meter.sys.pc (.recv t) = .idle → w.meter.times t = none) :
    (w.go tick (w.meter.recvStats tscFreq t tick sys)).Traces := by
  obtain ⟨hSame, -, hShared, hOthers, -⟩ := recvStats_counts tscFreq w.meter t tick sys
  obtain ⟨hTimes, latencies, hCounted, hOwn, hLast⟩ :=
    recvStats_latency tscFreq w.meter t tick sys
  rw [Watched.go_recv hAgent hOther, hCounted]
  refine ⟨fun u => ?_, fun u times hMem => ?_, fun hSome => ?_, ?_, ?_, ?_⟩
  · by_cases hu : u = t
    · subst hu
      simp [hOwn, h.own]
    · simpa [hu, hOthers u hu] using h.own u
  · replace hMem : (w.meter.recvStats tscFreq t tick sys).times u = some times := hMem
    by_cases hu : u = t
    · subst hu
      rcases hLast with ⟨hKept, rfl⟩ | ⟨newest, hNew, rfl⟩
      · simpa using h.newest u times (hKept ▸ hMem)
      · obtain rfl := Option.some.inj (hNew.symm.trans hMem)
        simp
    · simpa [hu] using h.newest u times (hTimes u hu ▸ hMem)
  · simp only [hSame]
    exact (step_main_stats hSys (h.main hSome)).2
  · simpa only [hShared] using h.cum
  · simpa only [hShared] using h.least
  · simpa only [hShared] using h.greatest

/-- A step of the program keeps it, whichever thread takes it. -/
theorem Watched.Traces.turn (h : w.Traces) (hStep : watchStep tscFreq cfg w (.tick tick) = some w') :
    w'.Traces := by
  simp only [watchStep] at hStep
  split at hStep
  · obtain ⟨meter, hMeter, rfl⟩ := Option.map_eq_some_iff.mp hStep
    rcases meterStep_cases hMeter with ⟨hAgent, sys, hSys, rfl⟩ |
      ⟨t, -, hAgent, ⟨times, hPc, hTimes, rfl⟩ | ⟨hOther, sys, hSys, rfl⟩⟩
    · exact h.main_step hAgent hSys
    · exact h.finish hAgent hPc hTimes
    · exact h.recv hAgent hSys hOther
  · cases hStep

theorem Watched.Traces.drop (h : w.Traces) (hStep : watchStep tscFreq cfg w (.drop t) = some w') :
    w'.Traces := by
  simp only [watchStep] at hStep
  split at hStep
  · obtain ⟨link, hLink, rfl⟩ := Option.map_eq_some_iff.mp hStep
    simp only [linkStep] at hLink
    split at hLink
    · cases hLink
      exact ⟨h.own, h.newest, h.main, h.cum, h.least, h.greatest⟩
    · cases hLink
  · cases hStep

theorem linkStep_scan_pc {link link' : Link} {now : UInt64} {complete : Bool}
    (h : linkStep cfg link (.scan t now complete) = some link') : link'.sys.pc = link.sys.pc := by
  simp only [linkStep] at h
  split at h
  · cases h
  · split at h
    · cases h
    · split at h
      · split at h <;> cases h <;> rfl
      · cases h
        rfl

/-- A pass of the resend loop adds the latency of the request that it sends, and flushes
nothing. -/
theorem Watched.Traces.scan (h : w.Traces) {now : UInt64} {complete : Bool}
    (hStep : watchStep tscFreq cfg w (.scan t now complete) = some w') : w'.Traces := by
  simp only [watchStep] at hStep
  obtain ⟨link, hLink, rfl⟩ := Option.map_eq_some_iff.mp hStep
  refine ⟨h.own, h.newest, fun hSome => ?_, ?_, ?_, ?_⟩
  · simp only [linkStep_scan_pc hLink]
    exact h.main (by simpa using hSome)
  · refine Option.forall_mem_map.mpr fun interval hPrior => ?_
    simp only [h.cum interval hPrior, Interval.added_sum, Interval.resend, List.sum_append]
    rw [add_assoc, add_assoc]
  · exact Option.forall_mem_map.mpr h.least
  · exact Option.forall_mem_map.mpr h.greatest

/-- With its sample main resets the extremes and the history with them. -/
theorem Watched.Traces.sample (h : w.Traces) (hStep : watchStep tscFreq cfg w .sample = some w') :
    w'.Traces := by
  simp only [watchStep] at hStep
  split at hStep
  · next hMain =>
      cases hStep
      refine ⟨h.own, h.newest, fun _ => hMain.1, ?_, ?_, ?_⟩ <;> intro interval hInterval <;>
        obtain rfl := Option.some.inj hInterval
      · simp [Stats.resetExtremes, Interval.added]
      · rfl
      · rfl
  · cases hStep

theorem Watched.Traces.step (h : w.Traces) (hStep : watchStep tscFreq cfg w act = some w') :
    w'.Traces := by
  cases act with
  | tick tick => exact h.turn hStep
  | drop t => exact h.drop hStep
  | scan t now complete => exact h.scan hStep
  | sample => exact h.sample hStep

end

/-- The extremes cover every latency added since the reset just if every such
latency lies between two of replies that were the last of their flush. -/
theorem extremes_cover_iff (tscFreq : UInt64) (cfg : Cfg) (w : Watched) (interval : Interval)
    (hRun : Run (watchStep tscFreq cfg) (fun _ _ => True) Watched.boot w)
    (hReset : w.interval = some interval) :
    w.meter.mntStats.latencyCum = interval.start + interval.added.sum ∧
      ((∀ x ∈ interval.added, w.meter.mntStats.latencyMin ≤ x ∧ x ≤ w.meter.mntStats.latencyMax) ↔
        ∀ x ∈ interval.added, (∃ y ∈ interval.lasts, y ≤ x) ∧ ∃ y ∈ interval.lasts, x ≤ y) := by
  have hTraces : w.Traces := hRun.invariant Watched.boot_traces fun _ _ _ h _ hLast => h.step hLast
  refine ⟨hTraces.cum interval hReset, forall₂_congr fun x _ => ?_⟩
  rw [hTraces.least interval hReset, hTraces.greatest interval hReset]
  refine Extremes.between_iff (fun x => ?_) (fun x => ?_) (by decide) interval.lasts x
  · exact UInt64.le_iff_toNat_le.mpr (Nat.zero_le _)
  · exact UInt64.le_iff_toNat_le.mpr (Nat.le_pred_of_lt x.toNat_lt)

/-- One job on a clock of 1 MHz: its first reply comes too early to be flushed,
and its second at the given time. -/
def twoReplies (now : UInt64) : List WatchAct :=
  let before := ticksAt 0 (mountSteps 1 getattrBody ++ (Agent.recv 0).steps 3 ++ Agent.main.steps 13)
  let first := ticksAt 500 ((Agent.recv 0).hears 11 RPC_SUCCESS [] :: (Agent.recv 0).steps 11)
  let second := ticksAt now ((Agent.recv 0).hears 22 RPC_SUCCESS [] :: (Agent.recv 0).steps 9)
  before.map .tick ++ .sample :: (first ++ second).map .tick

/-- Two replies of one latency, flushed one after the other. -/
theorem extremes_cover_iff_equal :
    ∃ (w : Watched) (interval : Interval), interval.added = [500, 500] ∧
      ∀ x ∈ interval.added, w.meter.mntStats.latencyMin ≤ x ∧ x ≤ w.meter.mntStats.latencyMax := by
  obtain ⟨w, hRun, hReset⟩ : ∃ w,
      Run (watchStep 1000000 oneJob.2) (fun _ _ => True) Watched.boot w ∧
      w.interval = some ⟨0, [[500, 500]], []⟩ :=
    Run.of_exec_any (twoReplies 1000) (by decide +kernel)
  obtain ⟨-, hCover⟩ := extremes_cover_iff 1000000 oneJob.2 w _ hRun hReset
  refine ⟨w, _, rfl, hCover.mpr fun x hx => ?_⟩
  obtain rfl : x = 500 := by simpa [Interval.added] using hx
  have hLast : (500 : UInt64) ∈ Interval.lasts ⟨0, [[500, 500]], []⟩ := by simp [Interval.lasts]
  exact ⟨⟨500, hLast, UInt64.le_refl 500⟩, 500, hLast, UInt64.le_refl 500⟩

/-- The second reply takes longer than the first, and only it counts for the
least latency. -/
theorem extremes_cover_early :
    ¬ ∀ (tscFreq : UInt64) (cfg : Cfg) (w : Watched) (interval : Interval),
      Run (watchStep tscFreq cfg) (fun _ _ => True) Watched.boot w →
      w.interval = some interval →
      ∀ x ∈ interval.added, w.meter.mntStats.latencyMin ≤ x ∧ x ≤ w.meter.mntStats.latencyMax := by
  intro h
  obtain ⟨w, hRun, hReset, hMin⟩ : ∃ w,
      Run (watchStep 1000000 oneJob.2) (fun _ _ => True) Watched.boot w ∧
      w.interval = some ⟨0, [[500, 510]], []⟩ ∧ w.meter.mntStats.latencyMin = 510 :=
    Run.of_exec_any (twoReplies 1010) (by decide +kernel)
  have hCover := (h 1000000 oneJob.2 w _ hRun hReset 500 (by decide)).1
  rw [hMin] at hCover
  exact absurd hCover (by decide)

end Nct
