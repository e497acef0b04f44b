import Nct.Accounting

/-! The shutdown of the connection's write side, by the receive thread that
counts the last job out. -/
namespace Nct

open Transition (Run)

/-- A receive thread counts the last job out only when main has counted all in. -/
def LastAfterStart (cfg : Cfg) (s : Sys) (act : Act) : Prop :=
  match s.pc act.agent with
  | .returned rc _ =>
      rc ≠ 0 → s.mnt.jobsCnt = 1 → s.jobIdx + (s.pc .main).inBody = cfg.jobsMax.toNat
  | _ => True

instance (cfg : Cfg) (s : Sys) (act : Act) : Decidable (LastAfterStart cfg s act) := by
  unfold LastAfterStart
  generalize s.pc act.agent = pc
  induction pc using Pc.casesOn <;> infer_instance

/-- Main has yet to finish `nct_mount`. -/
def Pc.early : Pc → Bool
  | .mount | .wait _ | .decode _ => true
  | .call .mount _ _ _ | .check .mount _ _ _ | .back .mount _ _ _ => true
  | .call .mounted _ _ _ | .check .mounted _ _ _ | .back .mounted _ _ _ => true
  | _ => false

/-- Main has yet to start a job. -/
theorem Pc.inBody_of_early {pc : Pc} (h : pc.early = true) : pc.inBody = 0 := by
  cases pc with
  | call fn req plan l => cases fn <;> first | rfl | cases h
  | check fn req ret cc => cases fn <;> first | rfl | cases h
  | back fn req ret freed => cases fn <;> first | rfl | cases h
  | alloc => cases h
  | _ => rfl

/-- It depends on the function that a thread is in, not on how far it is. -/
@[simp] theorem Pc.early_call (fn : Fn) (req : ReqId) (plan : Plan) (l : Local) :
    (Pc.call fn req plan l).early = decide (fn = .mount ∨ fn = .mounted) := by
  cases fn <;> rfl

@[simp] theorem Pc.early_check (fn : Fn) (req : ReqId) (ret : Ret) (cc : Option Nat) :
    (Pc.check fn req ret cc).early = decide (fn = .mount ∨ fn = .mounted) := by
  cases fn <;> rfl

@[simp] theorem Pc.early_back (fn : Fn) (req : ReqId) (ret : Ret) (freed : Bool) :
    (Pc.back fn req ret freed).early = decide (fn = .mount ∨ fn = .mounted) := by
  cases fn <;> rfl

/-- The connection is shut down, or about to be, only after all jobs have ended. -/
structure Closed (cfg : Cfg) (s : Sys) : Prop where
  early : (s.pc .main).early = true → s.jobIdx = 0
  last : s.mnt.wrShut = true ∨ (∃ a, s.pc a = .shut) → 0 < s.ended ∧ s.ended = cfg.jobsMax.toNat

/-- No more jobs end than are sent. -/
theorem Accounted.ended_le {cfg : Cfg} {s : Sys} (h : Accounted cfg s) :
    s.ended ≤ s.sent ∧ s.sent ≤ cfg.jobsMax.toNat := by
  have hJobs := h.jobs
  have hRaised := h.raised
  have hBound := h.bound
  omega

/-- The operations of a plan do not shut the connection down. -/
theorem prepare_wrShut {cfg : Cfg} {s s' : Sys} {req : ReqId} {l l' : Local} {now : UInt64} {p : Prep}
    (h : s.prepare cfg req l now p = some (s', l')) : s'.mnt.wrShut = s.mnt.wrShut := by
  rcases prepare_cases h with ⟨_, -, rfl⟩ | ⟨-, rfl⟩ | ⟨_, -, rfl⟩ | ⟨_, rfl⟩
  all_goals rfl

theorem settle_wrShut (s : Sys) (rc : UInt32) (freed : Bool) :
    (s.settle rc freed).mnt.wrShut = s.mnt.wrShut := by
  obtain ⟨_, _, _, hEq⟩ := settle_eq s rc freed
  rw [hEq]

/-- What another thread does leaves main where it is. -/
theorem Closed.frame {cfg : Cfg} {s s' : Sys} {a : Agent} (h : Closed cfg s)
    (hAccounted : Accounted cfg s') (hOther : ∀ b, b ≠ a → s'.pc b = s.pc b)
    (hEarly : (s'.pc a).early = true → (s.pc a).early = true) (hIdx : s'.jobIdx = s.jobIdx)
    (hEnded : s.ended ≤ s'.ended)
    (hWr : s'.mnt.wrShut = true → s.mnt.wrShut = true ∨ s.pc a = .shut)
    (hShut : s'.pc a = .shut → s.pc a = .shut) :
    Closed cfg s' := by
  refine ⟨fun hMain => ?_, fun hClosed => ?_⟩
  · rw [hIdx]
    apply h.early
    by_cases ha : Agent.main = a
    · subst ha
      exact hEarly hMain
    · rwa [hOther _ ha] at hMain
  · have hBefore : s.mnt.wrShut = true ∨ ∃ b, s.pc b = .shut := by
      rcases hClosed with hSet | ⟨b, hb⟩
      · exact (hWr hSet).imp id fun ha => ⟨a, ha⟩
      · by_cases hba : b = a
        · subst hba
          exact Or.inr ⟨b, hShut hb⟩
        · exact Or.inr ⟨b, by rwa [hOther b hba] at hb⟩
    obtain ⟨hPos, hLast⟩ := h.last hBefore
    have hLe := hAccounted.ended_le
    omega

/-- The receive thread that finds the counter at zero has ended the last job. -/
theorem Accounted.ended_of_zero {cfg : Cfg} {s : Sys} (h : Accounted cfg s)
    (hCnt : s.mnt.jobsCnt = 0) (hAll : s.jobIdx + (s.pc .main).inBody = cfg.jobsMax.toNat) :
    s.ended = cfg.jobsMax.toNat := by
  have hJobs := h.jobs
  have hCount := h.count
  have hRaised := h.raised
  rw [hCnt, UInt32.toNat_zero] at hCount
  omega

/-- A receive thread counts the job out that its callback has ended. -/
theorem Closed.settle {cfg : Cfg} {s : Sys} {t : Nat} {rc : UInt32} {freed : Bool}
    (h : Closed cfg s) (hOwned : Owned s) (hPc : s.pc (.recv t) = .returned rc freed)
    (hAccounted : Accounted cfg ((s.settle rc freed).goto (.recv t)
      (if rc ≠ 0 ∧ (s.settle rc freed).mnt.jobsCnt = 0 then .shut else .idle)))
    (hAfter : rc ≠ 0 → s.mnt.jobsCnt = 1 → s.jobIdx + (s.pc .main).inBody = cfg.jobsMax.toNat) :
    Closed cfg ((s.settle rc freed).goto (.recv t)
      (if rc ≠ 0 ∧ (s.settle rc freed).mnt.jobsCnt = 0 then .shut else .idle)) := by
  let s' := (s.settle rc freed).goto (.recv t)
    (if rc ≠ 0 ∧ (s.settle rc freed).mnt.jobsCnt = 0 then .shut else .idle)
  have hOther : ∀ b, b ≠ .recv t → s'.pc b = s.pc b := fun b hb => Sys.goto_pc_of_ne _ _ hb
  have hMain : s'.pc .main = s.pc .main := hOther _ (by simp)
  by_cases hZero : rc ≠ 0 ∧ (s.settle rc freed).mnt.jobsCnt = 0
  · obtain ⟨hRc, hCnt⟩ := hZero
    have hOne : s.mnt.jobsCnt = 1 := by
      simp only [Sys.settle, if_neg hRc] at hCnt
      rw [← UInt32.sub_add_cancel s.mnt.jobsCnt 1, hCnt, UInt32.zero_add]
    have hFits := hOwned.fits (.recv t)
    rw [hPc] at hFits
    have hFreed : freed = true := by
      by_contra hNot
      exact hRc (hFits (by simpa using hNot))
    refine ⟨fun hEarly => ?_, fun _ => ⟨?_, hAccounted.ended_of_zero hCnt ?_⟩⟩
    · exact h.early (hMain ▸ hEarly)
    · change 0 < if freed then s.ended + 1 else s.ended
      rw [if_pos hFreed]
      omega
    · rw [hMain]
      exact hAfter hRc hOne
  · have hPcNew : s'.pc (.recv t) = .idle := by
      rw [Sys.goto_pc_self, if_neg hZero]
    have hEnded : s.ended ≤ s'.ended := by
      change s.ended ≤ if freed then s.ended + 1 else s.ended
      split <;> omega
    refine h.frame hAccounted hOther ?_ rfl hEnded (fun hSet => Or.inl ?_) ?_
    · rw [hPcNew]
      simp [Pc.early]
    · rwa [← settle_wrShut s rc freed]
    · rw [hPcNew]
      simp

/-- Only the last job ends with a shutdown. -/
theorem Closed.step {cfg : Cfg} {s s' : Sys} {act : Act} (h : Closed cfg s) (hKept : Kept cfg s)
    (hAccounted : Accounted cfg s') (hOk : LastAfterStart cfg s act)
    (hStep : Nct.step cfg s act = some s') : Closed cfg s' := by
  obtain ⟨hCase, -⟩ := step_cases hStep
  have hOther := fun b (hb : b ≠ act.agent) => step_pc_other hCase hb
  generalize hAgent : act.agent = a at hCase hOther
  cases hCase with
  | settle hPc =>
      apply h.settle hKept.owned hPc hAccounted
      simpa only [LastAfterStart, hAgent, hPc] using hOk
  | @started req ret freed hPc =>
      refine ⟨by simp [Pc.early], fun hClosed => h.last (hClosed.imp id ?_)⟩
      rintro ⟨b, hb⟩
      by_cases hbMain : b = .main
      · subst hbMain
        rw [Sys.goto_pc_self] at hb
        cases hb
      · exact ⟨b, by rwa [hOther b hbMain] at hb⟩
  | @shut t hPc =>
      exact h.frame hAccounted hOther (by simp [Pc.early]) rfl (Nat.le_refl _) (fun _ => Or.inr hPc)
        (by simp)
  | prepare hPc hPrep hDo =>
      obtain ⟨hSame, -⟩ := prepare_counts hDo
      refine h.frame hAccounted hOther ?_ hSame.jobIdx (Nat.le_of_eq hSame.ended.symm) ?_ (by simp)
      · simp [hPc]
      · exact fun hSet => Or.inl (by rwa [← prepare_wrShut hDo])
  | refuse hPc | free hPc | send hPc | checked hPc =>
      exact h.frame hAccounted hOther (by simp [hPc]) rfl (Nat.le_refl _) Or.inl (by simp)
  | cantDecode | nullSlot | xidMismatch | mountFailed | sendCheck =>
      exact h.frame hAccounted hOther id rfl (Nat.le_refl _) Or.inl id
  | _ => exact h.frame hAccounted hOther (by simp [Pc.early, *]) rfl (Nat.le_refl _) Or.inl (by simp)

/-- Without a callback, start function or mount under way, nothing is sent. -/
theorem step_sendXid {cfg : Cfg} {s s' : Sys} {act : Act} (hStep : step cfg s act = some s')
    (hCall : ∀ fn req plan l, s.pc act.agent ≠ .call fn req plan l) :
    s'.mnt.sendXid = s.mnt.sendXid := by
  obtain ⟨hCase, -⟩ := step_cases hStep
  generalize act.agent = a at hCase hCall
  cases hCase with
  | send hPc hPrep hGive => exact absurd hPc (hCall _ _ _ _)
  | prepare hPc hPrep hDo => exact absurd hPc (hCall _ _ _ _)
  | @settle t rc freed hPc => exact (settle_link s rc freed).sendXid
  | _ => rfl

/-- Once all jobs have ended no thread is inside a function that could send. -/
theorem Kept.no_call {cfg : Cfg} {s : Sys} (h : Kept cfg s)
    (hEarly : (s.pc .main).early = false) (hSent : s.sent = cfg.jobsMax.toNat)
    (hEnded : s.ended = cfg.jobsMax.toNat) (a : Agent) (fn : Fn) (req : ReqId) (plan : Plan)
    (l : Local) : s.pc a ≠ .call fn req plan l := by
  intro hPc
  have hJobs := h.accounted.jobs
  have hRaised := h.accounted.raised
  have hBound := h.accounted.bound
  have hFits : a.Fits (.call fn req plan l) := hPc ▸ h.owned.fits a
  cases a with
  | main =>
      rcases hFits with ⟨rfl, -⟩ | ⟨rfl, -⟩ | ⟨rfl, -⟩
      · simp [hPc, Pc.early] at hEarly
      · simp [hPc, Pc.early] at hEarly
      · -- this job has not been sent yet
        rw [hPc] at hRaised hBound
        simp only [Pc.opening, Pc.inBody] at hRaised hBound
        omega
  | recv t =>
      obtain rfl : fn = .callback := hFits.1
      have ht : t < cfg.tdsMax := by
        by_contra ht
        rw [h.within t (Nat.le_of_not_lt ht)] at hPc
        cases hPc
      have hWork : ((s.pc (.recv t)).works s.mnt).toNat ≤ s.working cfg := s.works_le_working ht
      rw [hPc] at hWork
      simp only [Pc.works, Bool.toNat_true, Sys.live] at hWork hJobs
      omega

theorem Closed.atBoot (cfg : Cfg) : Closed cfg Sys.boot where
  early _ := rfl
  last := by
    rintro (hWr | ⟨a, ha⟩)
    · change (reqCreate Mnt.zero).wrShut = true at hWr
      rw [reqCreate, createReqs_rest] at hWr
      cases hWr
    · cases a <;> cases ha

/-- The condition is on the end of a callback. -/
theorem lastAfterStart_takes {cfg : Cfg} {s : Sys} {act : Act} (h : act.TakesUp s = true) :
    LastAfterStart cfg s act := by
  obtain ⟨rep, hPc⟩ := Act.got_of_takesUp h
  simp [LastAfterStart, hPc]

/-- If no receive thread counts the last job out before main has counted in all
(and no request has its callback run twice, nor do two threads go on with it for one
send), the write side is shut down only after all jobs have been sent and have ended,
and nothing is sent after it. -/
theorem shutdown_after_all (cfg : Cfg) (s : Races)
    (run : Run (raceStep cfg) (TakenOnce fun s act => NoStaleTest cfg s act ∧ LastAfterStart cfg s act)
      Races.boot s)
    (hShut : s.sys.mnt.wrShut = true) :
    s.sys.sent = cfg.jobsMax.toNat ∧ s.sys.ended = cfg.jobsMax.toNat ∧
      ∀ act s', raceStep cfg s act = some s' → s'.sys.mnt.sendXid = s.sys.mnt.sendXid := by
  have hRobust : Robust fun s => Kept cfg s ∧ Closed cfg s :=
    (Kept.robust cfg).and (fun _ _ h => ⟨h.early, h.last⟩) fun _ _ h => ⟨h.early, h.last⟩
  obtain ⟨⟨hKept, hClosed⟩, -⟩ := hRobust.run ⟨Kept.atBoot cfg, Closed.atBoot cfg⟩
    (fun _ _ _ h hOk hStep =>
      have hNext := h.1.step hOk.1 hStep
      ⟨hNext, h.2.step h.1 hNext.accounted hOk.2 hStep⟩)
    (fun _ _ h => ⟨noStaleTest_takes h, lastAfterStart_takes h⟩) run
  obtain ⟨hPos, hEnded⟩ := hClosed.last (Or.inl hShut)
  have hLe := hKept.accounted.ended_le
  have hSent : s.sys.sent = cfg.jobsMax.toNat := by omega
  have hEarly : (s.sys.pc .main).early = false := by
    by_contra hNot
    have hMount : (s.sys.pc .main).early = true := by simpa using hNot
    have hRaised := hKept.accounted.raised
    rw [hClosed.early hMount, Pc.inBody_of_early hMount] at hRaised
    omega
  refine ⟨hSent, hEnded, fun act s' hStep => ?_⟩
  cases act with
  | go act =>
      exact step_sendXid (raceStep_go hStep).2.1 (hKept.no_call hEarly hSent hEnded act.agent)
  | look t =>
      obtain ⟨_, -, -, -, hSys, -⟩ := raceStep_look hStep
      rw [hSys]
  | clear t =>
      obtain ⟨_, _, -, hSys, -⟩ := raceStep_clear hStep
      rw [hSys]
      rfl
  | check t now =>
      obtain ⟨_, _, _, -, -, -, ⟨-, _, hSys⟩ | ⟨_, -, -, hSys⟩⟩ := raceStep_check hStep
      all_goals
        rw [hSys]
        rfl

/-- The only job is sent, gets an error reply and ends, and the connection is
shut down. -/
theorem shutdown_after_all_errorSteps : ∃ s : Sys, s.mnt.wrShut = true ∧ s.ended = 1 := by
  obtain ⟨s, hRun, hShut⟩ : ∃ s, Run (step (oneThread .null 1))
      (fun s act => NoStaleTest (oneThread .null 1) s act ∧ LastAfterStart (oneThread .null 1) s act)
      Sys.boot s ∧ s.mnt.wrShut = true :=
    Run.of_exec_any (errorSteps ++ (Agent.recv 0).steps 1) (by decide +kernel)
  have hRaces := races_of_run (fun _ _ hOk => hOk.1) hRun
  exact ⟨s, hShut, (shutdown_after_all (oneThread .null 1) ⟨s, fun _ => none⟩ hRaces hShut).2.1⟩

/-- The first of two jobs ends with an error before main counts the second in. -/
def earlyEndSteps : List Act :=
  mountSteps 1 getattrBody ++ (Agent.recv 0).steps 2 ++ Agent.main.steps 12 ++
    (Agent.recv 0).hears 11 1 [] :: (Agent.recv 0).steps 8 ++ Agent.main.steps 5

/-- The write side is shut down, and main goes on to send its second job. -/
theorem shutdown_after_all_earlyEnd :
    ¬ ∀ (cfg : Cfg) (s : Sys), Run (step cfg) (fun _ _ => True) Sys.boot s → s.mnt.wrShut = true →
      ∀ act s', step cfg s act = some s' → s'.mnt.sendXid = s.mnt.sendXid := by
  intro h
  obtain ⟨s, hRun, hShut, s', hStep, hXid⟩ : ∃ s,
      Run (step (oneThread .null 2)) (fun _ _ => True) Sys.boot s ∧ s.mnt.wrShut = true ∧
      ∃ s' ∈ step (oneThread .null 2) s ⟨.main, quietInput⟩, s'.mnt.sendXid ≠ s.mnt.sendXid :=
    Run.of_exec_any earlyEndSteps (by decide +kernel)
  exact hXid (h _ s hRun hShut _ s' hStep)

end Nct
