import Nct.Accounting

/-! `test_read_cb` frees the request of a failed read and then returns the
`msg_stat` it finds there. Which status that is, while other threads may have
the request again. -/
namespace Nct

open Function (update)
open Transition (Run)

/-- A state of a run, and the status of the reply that each thread took up last. -/
structure Handling where
  sys : Sys
  own : Agent → UInt32

def Handling.boot : Handling := ⟨Sys.boot, fun _ => 0⟩

/-- A receive thread gives its reply to the request it has taken up. -/
def Handling.noted (h : Handling) (a : Agent) : Agent → UInt32 :=
  match h.sys.pc a with
  | .taken _ rep => update h.own a rep.stat
  | _ => h.own

/-- Only a take-up is noted. -/
theorem Handling.noted_eq (h : Handling) {a : Agent}
    (hTaken : ∀ req rep, h.sys.pc a ≠ .taken req rep) : h.noted a = h.own := by
  unfold Handling.noted
  split
  · next req rep hPc => exact absurd hPc (hTaken req rep)
  · rfl

def handleStep (cfg : Cfg) (h : Handling) (act : Act) : Option Handling :=
  (step cfg h.sys act).map fun sys => ⟨sys, h.noted act.agent⟩

/-- The request whose `msg_stat` a receive thread is going to read. -/
def Pc.reading : Pc → Option ReqId
  | .testCb req => some req
  | .callback req _ => some req
  | .call .callback req plan _ => if plan.ret = .msgStat then some req else none
  | .back .callback req ret _ => if ret = .msgStat then some req else none
  | _ => none

/-- A thread that exchanges message buffers does so neither with a request
whose status another thread is going to read nor with the buffer of one. -/
def Undisturbed (cfg : Cfg) (s : Sys) (act : Act) : Prop :=
  match act.agent, s.pc act.agent with
  | .recv t, .taken req _ =>
      ∀ u < cfg.tdsMax, u ≠ t → ∀ r ∈ (s.pc (.recv u)).reading,
        r ≠ req ∧ s.mnt.reqMsg r ≠ s.buf t
  | _, _ => True

instance (cfg : Cfg) (s : Sys) (act : Act) : Decidable (Undisturbed cfg s act) := by
  unfold Undisturbed
  generalize act.agent = a
  generalize s.pc a = pc
  induction a using Agent.casesOn <;> induction pc using Pc.casesOn <;> infer_instance

/-- `req->req_msg->msg_stat` -/
def Mnt.stat (mnt : Mnt) (req : ReqId) : UInt32 := mnt.msgStat (mnt.reqMsg req)

/-- The status that a thread is going to read is that of its own reply, and a
callback that leaves it for later has freed its request because of an error. -/
def Pc.Handles (mnt : Mnt) (own : UInt32) : Pc → Prop
  | .testCb req | .callback req _ => mnt.stat req = own
  | .call .callback req plan _ =>
      plan.ret = .msgStat → plan.give = .free ∧ mnt.stat req = own ∧ own ≠ 0
  | .check .callback _ ret _ => ret ≠ .msgStat
  | .back .callback req ret freed =>
      ret = .msgStat → freed = true ∧ mnt.stat req = own ∧ own ≠ 0
  | _ => True

def Handling.Handled (h : Handling) : Prop :=
  ∀ t, (h.sys.pc (.recv t)).Handles h.sys.mnt (h.own (.recv t))

/-- What a thread knows of its reply depends on the messages that it has yet to read. -/
theorem Pc.Handles.mono {mnt mnt' : Mnt} {own : UInt32} {pc : Pc} (h : pc.Handles mnt own)
    (hStat : ∀ r ∈ pc.reading, mnt'.stat r = mnt.stat r) : pc.Handles mnt' own := by
  cases pc with
  | testCb req => exact (hStat req rfl).trans h
  | callback req job => exact (hStat req rfl).trans h
  | call fn req plan l =>
      cases fn with
      | callback =>
          intro hRet
          obtain ⟨hGive, hOwn, hNe⟩ := h hRet
          exact ⟨hGive, (hStat req (if_pos hRet)).trans hOwn, hNe⟩
      | _ => trivial
  | check fn req ret cc => cases fn <;> exact h
  | back fn req ret freed =>
      cases fn with
      | callback =>
          intro hRet
          obtain ⟨hFreed, hOwn, hNe⟩ := h hRet
          exact ⟨hFreed, (hStat req (if_pos hRet)).trans hOwn, hNe⟩
      | _ => trivial
  | _ => trivial

/-- A callback leaves the status for later only once it has found an error. -/
theorem cb_msgStat {xdr : XdrInts} {job : Job} {mnt : Mnt} {req : ReqId} {status : UInt32}
    (h : (job.cb xdr mnt req status).ret = .msgStat) :
    (job.cb xdr mnt req status).give = .free ∧ mnt.stat req ≠ 0 := by
  cases job with
  | null =>
      simp only [Job.cb, testNullCb] at h
      split_ifs at h
  | getattr =>
      simp only [Job.cb, testGetattrCb] at h
      split_ifs at h
  | read =>
      by_cases hStat : mnt.msgStat (mnt.reqMsg req) ≠ RPC_SUCCESS
      · simp only [Job.cb, testReadCb, if_pos hStat]
        exact ⟨trivial, hStat⟩
      · simp only [Job.cb, testReadCb, if_neg hStat] at h
        split_ifs at h

/-- No operation of a plan writes a status. -/
theorem prepare_stat {cfg : Cfg} {s s' : Sys} {req : ReqId} {l l' : Local} {now : UInt64} {p : Prep}
    (h : s.prepare cfg req l now p = some (s', l')) (r : ReqId) : s'.mnt.stat r = s.mnt.stat r := by
  rcases prepare_cases h with ⟨_, -, rfl⟩ | ⟨-, rfl⟩ | ⟨_, -, rfl⟩ | ⟨_, rfl⟩
  all_goals rfl

theorem settle_stat (s : Sys) (rc : UInt32) (freed : Bool) (r : ReqId) :
    (s.settle rc freed).mnt.stat r = s.mnt.stat r := by
  obtain ⟨_, _, _, hEq⟩ := settle_eq s rc freed
  rw [hEq]
  rfl

/-- A step that writes no status keeps what the other threads know. -/
theorem Handling.Handled.frame {h : Handling} {s' : Sys} {a : Agent} (hHandled : h.Handled)
    (hNoted : h.noted a = h.own) (hOther : ∀ b, b ≠ a → s'.pc b = h.sys.pc b)
    (hStat : ∀ r, s'.mnt.stat r = h.sys.mnt.stat r)
    (hNew : ∀ t, a = .recv t → (s'.pc a).Handles s'.mnt (h.own a)) :
    Handling.Handled ⟨s', h.noted a⟩ := by
  intro t
  rw [hNoted]
  by_cases ha : a = .recv t
  · subst ha
    exact hNew t rfl
  · change (s'.pc (.recv t)).Handles s'.mnt (h.own (.recv t))
    rw [hOther _ (Ne.symm ha)]
    exact (hHandled t).mono fun r _ => hStat r

/-- A thread that moves on without an exchange, and touches no status. -/
theorem Handling.Handled.goto {h : Handling} {s' : Sys} {a : Agent} {old new : Pc}
    (hHandled : h.Handled) (hPc : h.sys.pc a = old) (hTaken : ∀ req rep, old ≠ .taken req rep)
    (hOther : ∀ b, b ≠ a → (s'.goto a new).pc b = h.sys.pc b)
    (hStat : ∀ r, s'.mnt.stat r = h.sys.mnt.stat r)
    (hNew : ∀ own, old.Handles h.sys.mnt own → new.Handles h.sys.mnt own) :
    Handling.Handled ⟨s'.goto a new, h.noted a⟩ := by
  apply hHandled.frame (h.noted_eq fun req rep hTake => hTaken req rep (hPc.symm.trans hTake)) hOther hStat
  rintro t rfl
  have hOld := hHandled t
  rw [hPc] at hOld
  rw [Sys.goto_pc_self]
  exact (hNew _ hOld).mono fun r _ => hStat r

/-- The thread that exchanges has its own status now. Any other that is going
to read a status finds what it did before. -/
theorem Handling.Handled.exchange {cfg : Cfg} {h : Handling} {t : Nat} {req : ReqId} {rep : Reply}
    (hHandled : h.Handled) (hWithin : h.sys.Within cfg) (hPc : h.sys.pc (.recv t) = .taken req rep)
    (hOk : ∀ u < cfg.tdsMax, u ≠ t → ∀ r ∈ (h.sys.pc (.recv u)).reading,
      r ≠ req ∧ h.sys.mnt.reqMsg r ≠ h.sys.buf t) :
    Handling.Handled ⟨(h.sys.exchange t req rep).goto (.recv t) (.testCb req), h.noted (.recv t)⟩ := by
  have hNoted : h.noted (.recv t) = update h.own (.recv t) rep.stat := by
    simp only [Handling.noted, hPc]
  intro u
  rw [hNoted]
  by_cases hu : u = t
  · subst hu
    simp [Pc.Handles, Mnt.stat, Sys.exchange, Nct.exchange]
  · have hne : Agent.recv u ≠ .recv t := fun h => hu (Agent.recv.inj h)
    change Pc.Handles _ (update h.own (.recv t) rep.stat (.recv u)) ((Sys.goto _ _ _).pc (.recv u))
    rw [Sys.goto_pc_of_ne _ _ hne, Function.update_of_ne hne]
    apply (hHandled u).mono
    intro r hr
    obtain ⟨hReq, hBuf⟩ : r ≠ req ∧ h.sys.mnt.reqMsg r ≠ h.sys.buf t := by
      by_cases hLt : u < cfg.tdsMax
      · exact hOk u hLt hu r hr
      · rw [hWithin u (Nat.le_of_not_lt hLt)] at hr
        cases hr
    simp [Mnt.stat, Sys.exchange, Nct.exchange, Function.update_of_ne hReq, Function.update_of_ne hBuf]

/-- A step that does not disturb a late read keeps it. -/
theorem Handling.Handled.step {cfg : Cfg} {h h' : Handling} {act : Act} (hHandled : h.Handled)
    (hWithin : h.sys.Within cfg) (hOk : Undisturbed cfg h.sys act)
    (hStep : handleStep cfg h act = some h') : h'.Handled := by
  obtain ⟨s', hSys, rfl⟩ := Option.map_eq_some_iff.mp hStep
  obtain ⟨hCase, -⟩ := step_cases hSys
  have hOther := fun b (hb : b ≠ act.agent) => step_pc_other hCase hb
  generalize hAgent : act.agent = a at hCase hOther
  cases hCase with
  | @exchange t rep req hPc =>
      apply hHandled.exchange hWithin hPc
      simpa [Undisturbed, hAgent, hPc] using hOk
  | cb hPc hCb => exact hHandled.goto hPc (by simp) hOther (fun _ => rfl) fun own hOwn => hOwn
  | callback hPc =>
      apply hHandled.goto hPc (by simp) hOther fun _ => rfl
      intro own hOwn hRet
      obtain ⟨hGive, hNe⟩ := cb_msgStat hRet
      exact ⟨hGive, hOwn, hOwn ▸ hNe⟩
  | @prepare _ fn req plan l l' p prep s'' hPc hPrep hDo =>
      apply hHandled.goto hPc (by simp) hOther (prepare_stat hDo)
      intro own hOwn
      cases fn with
      | callback => exact hOwn
      | _ => trivial
  | @refuse _ fn req plan l prep hPc hPrep hPast =>
      apply hHandled.goto hPc (by simp) hOther fun _ => rfl
      intro own hOwn
      cases fn <;> simp [Pc.Handles]
  | @free _ fn req plan l hPc hPrep hGive =>
      apply hHandled.goto hPc (by simp) hOther fun _ => rfl
      intro own hOwn
      cases fn with
      | callback => exact fun hRet => ⟨rfl, (hOwn hRet).2⟩
      | _ => trivial
  | @send _ fn req plan l hPc hPrep hGive =>
      apply hHandled.goto hPc (by simp) hOther fun _ => rfl
      intro own hOwn
      cases fn with
      | callback => exact fun hRet => Give.noConfusion (hGive.symm.trans (hOwn hRet).1)
      | _ => trivial
  | @checked _ fn req ret cc hPc hCheck =>
      apply hHandled.goto hPc (by simp) hOther fun _ => rfl
      intro own hOwn
      cases fn with
      | callback => exact fun hRet => absurd hRet hOwn
      | _ => trivial
  | @settle t rc freed hPc =>
      apply hHandled.goto hPc (by simp) hOther (settle_stat h.sys rc freed)
      intro own hOwn
      split <;> trivial
  | cantDecode hPc | nullSlot hPc | xidMismatch hPc | mountFailed hPc | sendCheck hPc =>
      exact hHandled.frame (h.noted_eq (by simp [hPc])) hOther (fun _ => rfl) fun t ha => ha ▸ hHandled t
  | _ =>
      exact hHandled.goto rfl (by simp [*]) hOther (fun _ => rfl) fun own hOwn => by simp [Pc.Handles]

/-- What a thread is about to do for a job it does for `job`. -/
def Pc.DoesOnly (job : Job) : Pc → Prop
  | .callback _ other => other = job
  | .call _ _ plan _ => ∀ other, .arm other ∈ plan.prep → other = job
  | _ => True

/-- All jobs are of the one test that is being run. -/
structure Sys.OneTest (cfg : Cfg) (s : Sys) : Prop where
  cbs : ∀ r job, s.mnt.reqCb r = some job → job = cfg.job
  does : ∀ a, (s.pc a).DoesOnly cfg.job

theorem Sys.OneTest.atBoot (cfg : Cfg) : Sys.boot.OneTest cfg where
  cbs r job h := by
    change (reqCreate Mnt.zero).reqCb r = some job at h
    rw [reqCreate, createReqs_rest] at h
    cases h
  does a := by cases a <;> trivial

/-- The program runs one test. -/
theorem Sys.OneTest.frame {cfg : Cfg} {s s' : Sys} {a : Agent} (h : s.OneTest cfg)
    (hOther : ∀ b, b ≠ a → s'.pc b = s.pc b) (hNew : (s'.pc a).DoesOnly cfg.job)
    (hCbs : ∀ r job, s'.mnt.reqCb r = some job → s.mnt.reqCb r = some job ∨ job = cfg.job) :
    s'.OneTest cfg := by
  constructor
  · exact fun r job hCb => (hCbs r job hCb).elim (h.cbs r job) id
  · exact Sys.forall_pc hOther hNew fun b _ => h.does b

theorem popReq_cb {mnt : Mnt} {req r : ReqId} {job : Job} (h : (popReq mnt req).reqCb r = some job) :
    mnt.reqCb r = some job := by
  change update mnt.reqCb req none r = some job at h
  by_cases hr : r = req
  · rw [hr, Function.update_self] at h
    cases h
  · rwa [Function.update_of_ne hr] at h

/-- The callback that an operation of a plan sets is the plan's own. -/
theorem prepare_armed {cfg : Cfg} {s s' : Sys} {req r : ReqId} {l l' : Local} {now : UInt64}
    {p : Prep} {job : Job} (h : s.prepare cfg req l now p = some (s', l'))
    (hCb : s'.mnt.reqCb r = some job) : s.mnt.reqCb r = some job ∨ p = .arm job := by
  rcases prepare_cases h with ⟨other, rfl, rfl⟩ | ⟨-, rfl⟩ | ⟨_, -, rfl⟩ | ⟨_, rfl⟩
  · change update s.mnt.reqCb req (some other) r = some job at hCb
    by_cases hr : r = req
    · rw [hr, Function.update_self] at hCb
      exact Or.inr (congrArg Prep.arm (Option.some.inj hCb))
    · rw [Function.update_of_ne hr] at hCb
      exact Or.inl hCb
  all_goals exact Or.inl hCb

/-- A start function sets the callback of its own test. -/
theorem Job.start_arms {job other : Job} (h : .arm other ∈ job.start.prep) : other = job := by
  cases job <;> simpa [Job.start, testNullStart, testGetattrStart, testReadStart] using h

/-- No step brings in another. -/
theorem Sys.OneTest.step {cfg : Cfg} {s s' : Sys} {act : Act} (h : s.OneTest cfg)
    (hStep : Nct.step cfg s act = some s') : s'.OneTest cfg := by
  obtain ⟨hCase, -⟩ := step_cases hStep
  have hOther := fun b (hb : b ≠ act.agent) => step_pc_other hCase hb
  generalize act.agent = a at hCase hOther
  cases hCase with
  | boot hPc hHead | mount hPc hHead =>
      exact h.frame hOther (by simp [Pc.DoesOnly, mountPlan]) fun r job hCb => Or.inl (popReq_cb hCb)
  | alloc hPc hHead =>
      apply h.frame hOther _ fun r job hCb => Or.inl (popReq_cb hCb)
      rw [Sys.goto_pc_self]
      exact fun other => Job.start_arms
  | @cb t req job hPc hCb =>
      apply h.frame hOther _ fun r other hOld => Or.inl hOld
      rw [Sys.goto_pc_self]
      exact h.cbs req job hCb
  | @callback t req job hPc =>
      apply h.frame hOther _ fun r other hOld => Or.inl hOld
      rw [Sys.goto_pc_self]
      exact fun other hArm => absurd rfl ((job.cb_noStart _ _ _ _ _ hArm).2 other)
  | @prepare _ fn req plan l l' p prep s'' hPc hPrep hDo =>
      have hOld := h.does a
      rw [hPc] at hOld
      apply h.frame hOther
      · rw [Sys.goto_pc_self]
        exact fun other hArm => hOld other (hPrep ▸ List.mem_cons_of_mem p hArm)
      · intro r job hCb
        apply (prepare_armed hDo hCb).imp id
        rintro rfl
        exact hOld job (hPrep ▸ List.mem_cons_self)
  | @settle t rc freed hPc =>
      apply h.frame hOther
      · rw [Sys.goto_pc_self]
        split <;> trivial
      · intro r job hCb
        rw [Sys.goto_mnt, (settle_same s rc freed).cb] at hCb
        exact Or.inl hCb
  | cantDecode | nullSlot | xidMismatch | mountFailed | sendCheck =>
      exact h.frame hOther (h.does _) fun r job hCb => Or.inl hCb
  | _ => exact h.frame hOther (by simp [Pc.DoesOnly, mountedPlan]) fun r job hCb => Or.inl hCb

/-- A thread that has freed the request of a failed read is about to return the
status of its own reply, which is not zero. -/
def Handling.TellsOwn (cfg : Cfg) (h : Handling) : Prop :=
  ∀ t req freed input s', h.sys.pc (.recv t) = .back .callback req .msgStat freed →
    step cfg h.sys ⟨.recv t, input⟩ = some s' →
    s'.pc (.recv t) = .returned (h.own (.recv t)) true ∧ h.own (.recv t) ≠ 0

/-- No job has ended without being counted out, and one that has just ended is
counted out next. -/
def Sys.CountsOut (cfg : Cfg) (s : Sys) : Prop :=
  s.zeros = 0 ∧ ∀ t rc input s', s.pc (.recv t) = .returned rc true →
    step cfg s ⟨.recv t, input⟩ = some s' → s'.mnt.jobsCnt = s.mnt.jobsCnt - 1

/-- So a failed read tells the status of its own reply. -/
theorem Handling.Handled.tellsOwn {cfg : Cfg} {h : Handling} (hHandled : h.Handled) :
    h.TellsOwn cfg := by
  intro t req freed input s' hPc hStep
  have hHandles := hHandled t
  rw [hPc] at hHandles
  obtain ⟨rfl, hOwn, hNe⟩ := hHandles rfl
  obtain ⟨hCase, -⟩ := step_cases hStep
  obtain rfl : s' = h.sys.goto (.recv t) (.returned (h.sys.mnt.stat req) true) := by
    cases hCase with
    | returned hBack =>
        obtain ⟨-, rfl, rfl, rfl⟩ := Pc.back.inj (hPc.symm.trans hBack)
        rfl
    | _ => simp_all
  rw [Sys.goto_pc_self, hOwn]
  exact ⟨rfl, hNe⟩

/-- Such a thread finds an error when it reads the status late. -/
theorem Handling.Handled.lateStatus {cfg : Cfg} {h : Handling} {act : Act} {s' : Sys}
    (hHandled : h.Handled) (hStep : Nct.step cfg h.sys act = some s') : LateStatus h.sys act := by
  unfold LateStatus
  split
  · next req freed hPc =>
      cases hAgent : act.agent with
      | main =>
          obtain ⟨hCase, -⟩ := step_cases hStep
          rw [hAgent] at hPc hCase
          cases hCase <;> simp_all
      | recv t =>
          have hHandles := hHandled t
          rw [hAgent] at hPc
          rw [hPc] at hHandles
          obtain ⟨-, hOwn, hNe⟩ := hHandles rfl
          exact fun hZero => hNe (hOwn.symm.trans hZero)
  · trivial

/-- A READ test gets no GETATTR replies after that of the mount. -/
theorem Sys.OneTest.repliesWhole {cfg : Cfg} {s : Sys} (h : s.OneTest cfg) (hJob : cfg.job = .read)
    (act : Act) : RepliesWhole s act := by
  unfold RepliesWhole
  split
  · next req hPc =>
      have hDoes := h.does act.agent
      rw [hPc] at hDoes
      exact Job.noConfusion (hDoes.trans hJob)
  · trivial

theorem NoZeros.countsOut {cfg : Cfg} {s : Sys} (h : NoZeros s) : s.CountsOut cfg := by
  refine ⟨h.zeros, fun t rc input s' hPc hStep => ?_⟩
  have hNe : rc ≠ 0 := by
    have hEnds := h.ends (.recv t)
    rw [hPc] at hEnds
    exact hEnds rfl
  obtain ⟨hCase, -⟩ := step_cases hStep
  cases hCase with
  | settle hBack =>
      obtain ⟨rfl, rfl⟩ := Pc.returned.inj (hPc.symm.trans hBack)
      rw [Sys.goto_mnt]
      simp only [Sys.settle, hNe, if_false]
  | _ => simp_all

/-- In a run where no thread exchanges buffers under one that is going to read
a status, every thread reads that of its own reply. -/
theorem run_handled {cfg : Cfg} {h : Handling}
    (run : Run (handleStep cfg) (fun h => Undisturbed cfg h.sys) Handling.boot h) :
    h.Handled ∧ h.sys.Within cfg := by
  apply run.invariant (P := fun h => h.Handled ∧ h.sys.Within cfg) ⟨fun _ => trivial, fun _ _ => rfl⟩
  rintro h act h' ⟨hHandled, hWithin⟩ hOk hStep
  refine ⟨hHandled.step hWithin hOk hStep, ?_⟩
  obtain ⟨s', hSys, rfl⟩ := Option.map_eq_some_iff.mp hStep
  exact hWithin.step hSys

/-- No job of a READ test ends with a zero then. -/
theorem run_noZeros {cfg : Cfg} {h : Handling} (hJob : cfg.job = .read)
    (run : Run (handleStep cfg) (fun h => Undisturbed cfg h.sys) Handling.boot h) :
    NoZeros h.sys := by
  have hBoot : NoZeros Sys.boot := ⟨fun a => by cases a <;> trivial, rfl⟩
  suffices hBoth : h.sys.OneTest cfg ∧ NoZeros h.sys from hBoth.2
  induction run with
  | nil => exact ⟨Sys.OneTest.atBoot cfg, hBoot⟩
  | snoc prior hOk last ih =>
      obtain ⟨hTest, hZeros⟩ := ih
      obtain ⟨s', hSys, rfl⟩ := Option.map_eq_some_iff.mp last
      obtain ⟨hHandled, -⟩ := run_handled prior
      exact ⟨hTest.step hSys, hZeros.step (hTest.repliesWhole hJob _) (hHandled.lateStatus hSys) hSys⟩

/-- As long as no buffer exchange of another thread comes between, a failed
read returns the status of its own reply, and its job is counted out. -/
theorem failedRead_tellsOwn (cfg : Cfg) (h : Handling)
    (run : Run (handleStep cfg) (fun h => Undisturbed cfg h.sys) Handling.boot h) :
    h.TellsOwn cfg ∧ (cfg.job = .read → h.sys.CountsOut cfg) := by
  obtain ⟨hHandled, -⟩ := run_handled run
  exact ⟨hHandled.tellsOwn, fun hJob => (run_noZeros hJob run).countsOut⟩

def twoReads : Cfg := ⟨.read, 2, 2, 4096, 1000, fun _ => 100, rfcInts⟩

/-- The request that main starts its jobs with here. -/
def lastReq : ReqId := ⟨1023, by decide⟩

/-- The first job's read fails. Its callback has freed the request, and main
has sent it again for the second job. -/
def reusedSteps : List Act :=
  mountSteps 2 fileBody ++ (Agent.recv 0).steps 2 ++ Agent.main.steps 14 ++
    (Agent.recv 0).hears 11 1 [] :: (Agent.recv 0).steps 5 ++ Agent.main.steps 10

theorem failedRead_tellsOwn_reusedSteps : ∃ (h : Handling) (s' : Sys),
    h.sys.mnt.reqTbl 22 = some lastReq ∧
      h.sys.pc (.recv 0) = .back .callback lastReq .msgStat true ∧
      step twoReads h.sys ⟨.recv 0, quietInput⟩ = some s' ∧ s'.pc (.recv 0) = .returned 1 true ∧
      h.sys.zeros = 0 := by
  obtain ⟨h, hRun, hTbl, hPc, hOwn, hStep⟩ : ∃ h,
      Run (handleStep twoReads) (fun h => Undisturbed twoReads h.sys) Handling.boot h ∧
      h.sys.mnt.reqTbl 22 = some lastReq ∧
      h.sys.pc (.recv 0) = .back .callback lastReq .msgStat true ∧ h.own (.recv 0) = 1 ∧
      (step twoReads h.sys ⟨.recv 0, quietInput⟩).isSome :=
    Run.of_exec_any reusedSteps (by decide +kernel)
  obtain ⟨s', hSome⟩ := Option.isSome_iff_exists.mp hStep
  obtain ⟨hTells, hCounts⟩ := failedRead_tellsOwn twoReads h hRun
  obtain ⟨hReturned, -⟩ := hTells 0 lastReq true quietInput s' hPc hSome
  exact ⟨h, s', hTbl, hPc, hSome, hOwn ▸ hReturned, (hCounts rfl).1⟩

/-- Then the second thread gets the reply to that and exchanges its buffer. -/
def disturbedSteps : List Act :=
  reusedSteps ++ (Agent.recv 1).hears 22 RPC_SUCCESS [] :: (Agent.recv 1).steps 2

/-- The first thread returns the zero of the second job's reply, and the first
job is not counted out. -/
theorem failedRead_tellsOwn_disturbed :
    (¬ ∀ (cfg : Cfg) (h : Handling), Run (handleStep cfg) (fun _ _ => True) Handling.boot h →
        h.TellsOwn cfg) ∧
      ¬ ∀ (cfg : Cfg) (h : Handling), Run (handleStep cfg) (fun _ _ => True) Handling.boot h →
        cfg.job = .read → h.sys.CountsOut cfg := by
  refine ⟨fun hAll => ?_, fun hAll => ?_⟩
  · obtain ⟨h, hRun, hPc, hStep⟩ : ∃ h,
        Run (handleStep twoReads) (fun _ _ => True) Handling.boot h ∧
        h.sys.pc (.recv 0) = .back .callback lastReq .msgStat true ∧
        (step twoReads h.sys ⟨.recv 0, quietInput⟩).any fun s' => s'.pc (.recv 0) = .returned 0 true :=
      Run.of_exec_any disturbedSteps (by decide +kernel)
    obtain ⟨s', hSome, hZero⟩ := (Option.any_eq_true _ _).mp hStep
    obtain ⟨hReturned, hNe⟩ := hAll twoReads h hRun 0 lastReq true quietInput s' hPc hSome
    have hEq : Pc.returned (h.own (.recv 0)) true = .returned 0 true :=
      hReturned.symm.trans (of_decide_eq_true hZero)
    exact hNe (Pc.returned.inj hEq).1
  · obtain ⟨h, hRun, hZeros⟩ : ∃ h, Run (handleStep twoReads) (fun _ _ => True) Handling.boot h ∧
        h.sys.zeros = 1 :=
      Run.of_exec_any (disturbedSteps ++ (Agent.recv 0).steps 2) (by decide +kernel)
    have hNone := (hAll twoReads h hRun rfl).1
    rw [hZeros] at hNone
    cases hNone

end Nct
