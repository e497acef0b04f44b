import Nct.AccountingInvariant

/-! What `mnt_jobs_cnt` says once main has started all jobs: how many of them
go on, if every callback keeps to the convention of the receive loop. -/
namespace Nct

open Transition (Run)

theorem Accounted.atBoot (cfg : Cfg) : Accounted cfg Sys.boot := by
  have hCnt : Sys.boot.mnt.jobsCnt = 0 := by
    change (reqCreate Mnt.zero).jobsCnt = 0
    rw [reqCreate, createReqs_rest]
    rfl
  have hWorking : Sys.boot.working cfg = 0 := Finset.sum_eq_zero fun t _ => rfl
  have hLive : Sys.boot.live cfg = 0 := by
    rw [Sys.live, hWorking]
    rfl
  refine ⟨?_, ?_, rfl, Nat.zero_le _, Nat.le_refl _⟩
  · rw [hLive]
    rfl
  · rw [hCnt]
    rfl

/-- What a run keeps, if no receive thread is late to test a callback. -/
structure Kept (cfg : Cfg) (s : Sys) : Prop where
  owned : Owned s
  within : s.Within cfg
  hasCb : HasCb s
  accounted : Accounted cfg s

theorem Kept.atBoot (cfg : Cfg) : Kept cfg Sys.boot where
  owned := Owned.atBoot
  within _ _ := rfl
  hasCb a := by cases a <;> trivial
  accounted := Accounted.atBoot cfg

/-- Each step without a late test keeps it. -/
theorem Kept.step {cfg : Cfg} {s s' : Sys} {act : Act} (h : Kept cfg s)
    (hOk : NoStaleTest cfg s act) (hStep : Nct.step cfg s act = some s') : Kept cfg s' where
  owned := h.owned.step h.within hOk hStep
  within := h.within.step hStep
  hasCb := h.hasCb.step h.owned hStep
  accounted := h.accounted.step h.owned h.hasCb h.within hOk hStep

theorem Kept.robust (cfg : Cfg) : Robust (Kept cfg) where
  table _ h := h.owned.table
  withTbl s tbl h hTable :=
    ⟨Owned.robust.withTbl s tbl h.owned hTable, h.within, h.hasCb,
      ⟨h.accounted.jobs, h.accounted.count, h.accounted.raised, h.accounted.bound, h.accounted.zeros⟩⟩
  crash s c h :=
    ⟨Owned.robust.crash s c h.owned, h.within, h.hasCb,
      ⟨h.accounted.jobs, h.accounted.count, h.accounted.raised, h.accounted.bound, h.accounted.zeros⟩⟩

/-- The counter exceeds the jobs that go on by those whose start function
refused and those whose callback ended them with a zero. -/
theorem Accounted.jobsCnt_eq {cfg : Cfg} {s : Sys} (h : Accounted cfg s)
    (hMain : s.pc .main = .stats) :
    s.mnt.jobsCnt.toNat = s.live cfg + s.refused + s.zeros := by
  have hJobs := h.jobs
  have hCount := h.count
  rw [hMain] at hCount
  simp only [Pc.opening] at hCount
  omega

/-- The counter is right: it is zero once all the jobs that were sent have ended. -/
theorem Accounted.jobsCnt_zero_iff {cfg : Cfg} {s : Sys} (h : Accounted cfg s)
    (hCnt : s.mnt.jobsCnt.toNat = s.live cfg) : s.mnt.jobsCnt = 0 ↔ s.ended = s.sent := by
  have hJobs := h.jobs
  rw [← UInt32.toNat_inj, UInt32.toNat_zero]
  omega

/-- GETATTR's callback gets no reply that is cut short. -/
def RepliesWhole (s : Sys) (act : Act) : Prop :=
  match s.pc act.agent with
  | .callback req .getattr => ¬ CutShort s.mnt req act.input.status
  | _ => True

instance (s : Sys) (act : Act) : Decidable (RepliesWhole s act) := by
  unfold RepliesWhole CutShort
  generalize s.pc act.agent = pc
  induction pc using Pc.casesOn with
  | callback req job => induction job using Job.casesOn <;> infer_instance
  | _ => infer_instance

/-- READ's callback reads `msg_stat` when it has freed its request, and the
error is still there. -/
def LateStatus (s : Sys) (act : Act) : Prop :=
  match s.pc act.agent with
  | .back .callback req .msgStat _ => s.mnt.msgStat (s.mnt.reqMsg req) ≠ 0
  | _ => True

instance (s : Sys) (act : Act) : Decidable (LateStatus s act) := by
  unfold LateStatus
  generalize s.pc act.agent = pc
  induction pc using Pc.casesOn with
  | back fn req ret freed =>
      induction fn using Fn.casesOn <;> induction ret using Ret.casesOn <;> infer_instance
  | _ => infer_instance

def JobsKept (cfg : Cfg) (s : Sys) (act : Act) : Prop :=
  NoStaleTest cfg s act ∧ RepliesWhole s act ∧ LateStatus s act

instance (cfg : Cfg) (s : Sys) (act : Act) : Decidable (JobsKept cfg s act) := by
  unfold JobsKept
  infer_instance

/-- A callback that frees its request is going to return non-zero. -/
def Pc.EndsNonzero : Pc → Prop
  | .call .callback _ plan _ => plan.give = .free → plan.ret ≠ .value 0
  | .back .callback _ ret freed => freed = true → ret ≠ .value 0
  | .returned rc freed => freed = true → rc ≠ 0
  | _ => True

structure NoZeros (s : Sys) : Prop where
  ends : ∀ a, (s.pc a).EndsNonzero
  zeros : s.zeros = 0

/-- A thread that moves has not freed its request with a zero to return. -/
theorem NoZeros.frame {s s' : Sys} {a : Agent} (h : NoZeros s) (hOther : ∀ b, b ≠ a → s'.pc b = s.pc b)
    (hNew : (s'.pc a).EndsNonzero) (hZeros : s'.zeros = s.zeros) : NoZeros s' := by
  constructor
  · exact Sys.forall_pc hOther hNew fun b _ => h.ends b
  · exact hZeros.trans h.zeros

/-- So does each step on a whole reply and a late status. -/
theorem NoZeros.step {cfg : Cfg} {s s' : Sys} {act : Act} (h : NoZeros s) (hWhole : RepliesWhole s act)
    (hLate : LateStatus s act) (hStep : Nct.step cfg s act = some s') : NoZeros s' := by
  obtain ⟨hCase, -⟩ := step_cases hStep
  have hOther := fun b (hb : b ≠ act.agent) => step_pc_other hCase hb
  generalize hAgent : act.agent = a at hCase hOther
  have hOld := h.ends a
  cases hCase with
  | @callback t req job hPc =>
      refine h.frame hOther ?_ rfl
      rw [Sys.goto_pc_self]
      refine fun hFree => cb_free_ret ?_ hFree
      rintro rfl
      simpa [RepliesWhole, hAgent, hPc] using hWhole
  | @returned t req ret freed hPc =>
      refine h.frame hOther ?_ rfl
      rw [Sys.goto_pc_self]
      intro hFreed
      cases ret with
      | value rc =>
          rw [hPc] at hOld
          exact fun hRc => hOld hFreed (congrArg Ret.value hRc)
      | msgStat => simpa [LateStatus, Ret.eval, hAgent, hPc] using hLate
  | @settle t rc freed hPc =>
      rw [hPc] at hOld
      refine h.frame hOther ?_ (if_neg fun hBoth => hOld hBoth.1 hBoth.2)
      rw [Sys.goto_pc_self]
      split <;> trivial
  | @prepare _ fn req plan l l' p prep s'' hPc hPrep hDo =>
      rw [hPc] at hOld
      refine h.frame hOther ?_ (prepare_counts hDo).1.zeros
      rw [Sys.goto_pc_self]
      cases fn with
      | callback => exact hOld
      | _ => trivial
  | @refuse _ fn req plan l prep hPc hPrep hPast =>
      refine h.frame hOther ?_ rfl
      rw [Sys.goto_pc_self]
      cases fn <;> simp [Pc.EndsNonzero]
  | @free _ fn req plan l hPc hPrep hGive =>
      rw [hPc] at hOld
      refine h.frame hOther ?_ rfl
      rw [Sys.goto_pc_self]
      cases fn with
      | callback => exact fun _ => hOld hGive
      | _ => trivial
  | @checked _ fn req ret cc hPc hCheck =>
      refine h.frame hOther ?_ rfl
      rw [Sys.goto_pc_self]
      cases fn <;> simp [Pc.EndsNonzero]
  | cantDecode | nullSlot | xidMismatch | mountFailed | sendCheck => exact h.frame hOther hOld rfl
  | _ => exact h.frame hOther (by simp [Pc.EndsNonzero]) rfl

/-- The conditions are on other steps than take-ups. -/
theorem jobsKept_takes {cfg : Cfg} {s : Sys} {act : Act} (h : act.TakesUp s = true) :
    JobsKept cfg s act := by
  obtain ⟨rep, hPc⟩ := Act.got_of_takesUp h
  refine ⟨noStaleTest_takes h, ?_, ?_⟩
  · simp [RepliesWhole, hPc]
  · simp [LateStatus, hPc]

/-- Both hold in every run whose steps meet the conditions, with replies taken up once.
-/
theorem run_jobsKept {cfg : Cfg} {ok : Sys → Act → Prop} (hKept : ∀ s act, ok s act → JobsKept cfg s act)
    (hTakes : ∀ s act, act.TakesUp s = true → ok s act) {s : Races}
    (run : Run (raceStep cfg) (TakenOnce ok) Races.boot s) : Kept cfg s.sys ∧ NoZeros s.sys := by
  have hRobust : Robust fun s => Kept cfg s ∧ NoZeros s :=
    (Kept.robust cfg).and (fun _ _ h => ⟨h.ends, h.zeros⟩) fun _ _ h => ⟨h.ends, h.zeros⟩
  refine (hRobust.run ⟨Kept.atBoot cfg, ?_, rfl⟩ ?_ hTakes run).1
  · intro a
    cases a <;> trivial
  · rintro s act s' ⟨hOld, hZeros⟩ hOk hStep
    obtain ⟨hStale, hWhole, hLate⟩ := hKept s act hOk
    exact ⟨hOld.step hStale hStep, hZeros.step hWhole hLate hStep⟩

/-- Each callback either sends its request again and returns zero or frees it
and returns non-zero, on just the replies that `Keeps` admits. Then once all
jobs have been started the counter tells how many of them go on, if no two threads
go on with one request for one send. -/
theorem jobs_accounted (cfg : Cfg) :
    (∀ (job : Job) (mnt : Mnt) (req : ReqId) (status late : UInt32),
      (job.cb cfg.xdr mnt req status).Settles job late ↔ job.Keeps mnt req status late) ∧
    ∀ s : Races, Run (raceStep cfg) (TakenOnce (JobsKept cfg)) Races.boot s →
      s.sys.pc .main = .stats → s.sys.refused = 0 →
      s.sys.mnt.jobsCnt.toNat = s.sys.live cfg ∧
        (s.sys.mnt.jobsCnt = 0 ↔ s.sys.ended = s.sys.sent) := by
  refine ⟨cb_settles_iff cfg.xdr, fun s run hMain hRefused => ?_⟩
  obtain ⟨hKept, hZeros⟩ := run_jobsKept (fun _ _ h => h) (fun _ _ h => jobsKept_takes h) run
  have hCnt : s.sys.mnt.jobsCnt.toNat = s.sys.live cfg := by
    have hEq := hKept.accounted.jobsCnt_eq hMain
    rwa [hRefused, hZeros.zeros] at hEq
  exact ⟨hCnt, hKept.accounted.jobsCnt_zero_iff hCnt⟩

/-- One receive thread and the given number of jobs; reads are of 4096 bytes. -/
def oneThread (job : Job) (jobsMax : UInt32) : Cfg :=
  ⟨job, jobsMax, 1, 4096, 1000, fun _ => 100, rfcInts⟩

/-- The only job gets an error reply to its first request and ends. -/
def errorSteps : List Act :=
  mountSteps 1 getattrBody ++ (Agent.recv 0).steps 2 ++ Agent.main.steps 13 ++
    (Agent.recv 0).hears 11 1 [] :: (Agent.recv 0).steps 7

theorem jobs_accounted_errorSteps : ∃ s : Sys, s.ended = 1 ∧ s.live (oneThread .getattr 1) = 0 := by
  obtain ⟨s, hRun, hMain, hRefused, hEnded, hCnt⟩ : ∃ s,
      Run (step (oneThread .getattr 1)) (JobsKept (oneThread .getattr 1)) Sys.boot s ∧
      s.pc .main = .stats ∧ s.refused = 0 ∧ s.ended = 1 ∧ s.mnt.jobsCnt = 0 :=
    Run.of_exec_any errorSteps (by decide +kernel)
  have hRaces := races_of_run (fun _ _ hOk => hOk.1) hRun
  obtain ⟨hLive, -⟩ := (jobs_accounted (oneThread .getattr 1)).2 ⟨s, fun _ => none⟩ hRaces hMain hRefused
  exact ⟨s, hEnded, by rw [← hLive, hCnt]; rfl⟩

/-- The reply to the only job's GETATTR ends after the status. -/
def cutShortSteps : List Act :=
  mountSteps 1 getattrBody ++ (Agent.recv 0).steps 2 ++ Agent.main.steps 13 ++
    (Agent.recv 0).hears 11 RPC_SUCCESS [0, 0, 0, 0] :: (Agent.recv 0).steps 7

/-- The callback frees its request and returns zero, and the job is counted on. -/
theorem jobs_accounted_cutShort :
    ¬ (∀ (job : Job) (mnt : Mnt) (req : ReqId) (status late : UInt32),
        (job.cb rfcInts mnt req status).Settles job late) ∧
      ¬ ∀ (cfg : Cfg) (s : Sys), Run (step cfg) (fun _ _ => True) Sys.boot s →
        s.pc .main = .stats → s.refused = 0 → s.mnt.jobsCnt.toNat = s.live cfg := by
  refine ⟨fun h => ?_, fun h => ?_⟩
  · have hKeeps := (cb_settles_iff _ _ _ _ _ _).mp
      (h .getattr { Mnt.zero with msgBody := fun _ => [0, 0, 0, 0] } ⟨0, by decide⟩ 0 0)
    exact hKeeps ⟨rfl, Or.inr ⟨by decide, by decide, by decide⟩⟩
  · obtain ⟨s, hRun, hMain, hRefused, hCnt⟩ : ∃ s,
        Run (step (oneThread .getattr 1)) (fun _ _ => True) Sys.boot s ∧
        s.pc .main = .stats ∧ s.refused = 0 ∧ s.mnt.jobsCnt.toNat ≠ s.live (oneThread .getattr 1) :=
      Run.of_exec_any cutShortSteps (by decide +kernel)
    exact hCnt (h _ s hRun hMain hRefused)

/-- A start function's read fits within the file. -/
def StartFits (cfg : Cfg) (s : Sys) (act : Act) : Prop :=
  match s.pc act.agent with
  | .call _ _ ⟨.refuse :: _, _, _⟩ l => s.pastEnd cfg l.offset = false
  | _ => True

instance (cfg : Cfg) (s : Sys) (act : Act) : Decidable (StartFits cfg s act) := by
  unfold StartFits
  generalize s.pc act.agent = pc
  induction pc using Pc.casesOn with
  | call fn req plan l =>
      obtain ⟨_ | ⟨p, prep⟩, give, ret⟩ := plan
      · infer_instance
      · induction p using Prep.casesOn <;> infer_instance
  | _ => infer_instance

/-- Only a refusal counts as one. -/
theorem step_refused {cfg : Cfg} {s s' : Sys} {act : Act} (hFits : StartFits cfg s act)
    (hStep : step cfg s act = some s') : s'.refused = s.refused := by
  obtain ⟨hCase, -⟩ := step_cases hStep
  generalize hAgent : act.agent = a at hCase
  cases hCase with
  | @refuse _ fn req plan l prep hPc hPrep hPast =>
      obtain ⟨_, give, ret⟩ := plan
      obtain rfl := hPrep
      simp [StartFits, hAgent, hPc, hPast] at hFits
  | prepare hPc hPrep hDo => exact (prepare_counts hDo).1.refused
  | _ => rfl

theorem startFits_takes {cfg : Cfg} {s : Sys} {act : Act} (h : act.TakesUp s = true) :
    StartFits cfg s act := by
  obtain ⟨rep, hPc⟩ := Act.got_of_takesUp h
  simp [StartFits, hPc]

/-- As long as the reads of the start functions fit within the file (and the
callbacks keep to their convention, and no two threads go on with one request for one
send), the counter tells how many of the jobs that were sent have not ended. -/
theorem jobsCnt_after_start (cfg : Cfg) (s : Races)
    (run : Run (raceStep cfg) (TakenOnce fun s act => JobsKept cfg s act ∧ StartFits cfg s act)
      Races.boot s)
    (hMain : s.sys.pc .main = .stats) :
    s.sys.mnt.jobsCnt.toNat + s.sys.ended = s.sys.sent ∧ s.sys.refused = 0 ∧
      (s.sys.mnt.jobsCnt = 0 ↔ s.sys.ended = s.sys.sent) := by
  have hTakes : ∀ s act, act.TakesUp s = true → JobsKept cfg s act ∧ StartFits cfg s act :=
    fun _ _ h => ⟨jobsKept_takes h, startFits_takes h⟩
  have hRobust : Robust fun s => (Owned s ∧ s.Within cfg) ∧ s.refused = 0 :=
    ownedWithin_robust.and (fun _ _ h => h) fun _ _ h => h
  have hRefused : s.sys.refused = 0 :=
    (hRobust.run ⟨⟨Owned.atBoot, fun _ _ => rfl⟩, rfl⟩ (fun _ _ _ h hOk hStep =>
      ⟨OwnedWithin.step h.1 hOk.1.1 hStep, (step_refused hOk.2 hStep).trans h.2⟩) hTakes run).1.2
  obtain ⟨hKept, hZeros⟩ := run_jobsKept (fun _ _ hOk => hOk.1) hTakes run
  have hCnt : s.sys.mnt.jobsCnt.toNat = s.sys.live cfg := by
    have hEq := hKept.accounted.jobsCnt_eq hMain
    rwa [hRefused, hZeros.zeros] at hEq
  have hJobs := hKept.accounted.jobs
  exact ⟨by omega, hRefused, hKept.accounted.jobsCnt_zero_iff hCnt⟩

/-- The result of a GETATTR of a file of 8192 bytes. -/
def fileBody : List UInt8 := List.replicate 30 0 ++ [0x20, 0] ++ List.replicate 56 0

/-- Main starts two READ jobs, which just fit. -/
def readSteps : List Act :=
  mountSteps 1 fileBody ++ (Agent.recv 0).steps 2 ++ Agent.main.steps 25

/-- Two jobs read a file of two blocks. -/
theorem jobsCnt_after_start_readSteps : ∃ s : Sys, s.sent = 2 ∧ s.mnt.jobsCnt.toNat + s.ended = 2 := by
  obtain ⟨s, hRun, hMain, hSent⟩ : ∃ s, Run (step (oneThread .read 2))
      (fun s act => JobsKept (oneThread .read 2) s act ∧ StartFits (oneThread .read 2) s act)
      Sys.boot s ∧ s.pc .main = .stats ∧ s.sent = 2 :=
    Run.of_exec_any readSteps (by decide +kernel)
  have hRaces := races_of_run (fun _ _ hOk => hOk.1.1) hRun
  exact ⟨s, hSent, hSent ▸ (jobsCnt_after_start (oneThread .read 2) ⟨s, fun _ => none⟩ hRaces hMain).1⟩

/-- Main starts a READ job on an empty file. -/
def refusedSteps : List Act :=
  mountSteps 1 getattrBody ++ (Agent.recv 0).steps 2 ++ Agent.main.steps 11

/-- Nothing was sent but the counter is one, which no receive thread will lower. -/
theorem jobsCnt_after_start_refused :
    ¬ ∀ (cfg : Cfg) (s : Sys), 1 ≤ cfg.jobsMax → 512 ≤ cfg.prLength →
      Run (step cfg) (fun _ _ => True) Sys.boot s → s.pc .main = .stats →
      s.mnt.jobsCnt.toNat + s.ended = s.sent := by
  intro h
  obtain ⟨s, hRun, hMain, hCnt⟩ : ∃ s, Run (step (oneThread .read 1)) (fun _ _ => True) Sys.boot s ∧
      s.pc .main = .stats ∧ s.mnt.jobsCnt.toNat + s.ended ≠ s.sent :=
    Run.of_exec_any refusedSteps (by decide +kernel)
  exact hCnt (h (oneThread .read 1) s (by decide) (by decide) hRun hMain)

end Nct
