import Nct.Drain

/-! The end of the program. Main leaves `nct_stats_loop` when no job is counted any
more, and `nct_umount` shuts the connection down, joins the receive threads and
frees the mount. -/
namespace Nct

open Function (update)
open Transition (Run Steps exec)

/-- `NELEM(mnt->mnt_recv_tdv)`, to which `nct_mount` limits `tds_max` -/
def MNT_RECV_TDV : Nat := 128

inductive Exit where
  /-- `nct_stats_loop`, or what comes before it -/
  | stats
  /-- `nct_umount` is called -/
  | umount
  /-- `pthread_join` of `mnt_recv_tdv[i]` -/
  | join (i : Nat)
  /-- what the mount refers to is destroyed, and the mount is freed -/
  | destroy
  | freed
  deriving DecidableEq, Repr

structure Umount where
  sys : Sys
  exit : Exit

def Umount.boot : Umount := ⟨Sys.boot, .stats⟩

/-- The connection has been shut down both ways. -/
def Exit.down : Exit → Bool
  | .stats | .umount => false
  | .join _ | .destroy | .freed => true

inductive EndAct where
  /-- a step of the program up to there -/
  | go (act : Act)
  /-- main's next step after its start loop -/
  | main
  deriving DecidableEq, Repr

/-- One step. No send is complete on a connection that has been shut down. -/
def endStep (cfg : Cfg) (e : Umount) : EndAct → Option Umount
  | .go act =>
      if (e.exit = .stats ∨ act.agent ≠ .main) ∧ ¬ (e.exit.down = true ∧ act.input.complete = true) then
        (step cfg e.sys act).map fun sys => { e with sys }
      else none
  | .main =>
      if e.sys.halted.isSome then none
      else
        match e.exit with
        | .stats =>
            if e.sys.pc .main = .stats ∧ e.sys.mnt.jobsCnt < 1 then some { e with exit := .umount }
            else none
        | .umount => some { e with exit := .join 0 }
        | .join i =>
            if i < MNT_RECV_TDV then
              -- the others were never created
              if i < cfg.tdsMax ∧ e.sys.pc (.recv i) ≠ .exited then none
              else some { e with exit := .join (i + 1) }
            else some { e with exit := .destroy }
        | .destroy => some { e with exit := .freed }
        | .freed => none

/-- The program's own steps are in time. -/
def EndInTime (cfg : Cfg) (e : Umount) : EndAct → Prop
  | .go act => InTime cfg e.sys act
  | .main => True

instance (cfg : Cfg) (e : Umount) (act : EndAct) : Decidable (EndInTime cfg e act) := by
  unfold EndInTime
  induction act using EndAct.casesOn <;> infer_instance

inductive EndStep (cfg : Cfg) (e : Umount) : EndAct → Umount → Prop where
  | go {act : Act} {sys : Sys} (hMain : e.exit = .stats ∨ act.agent ≠ .main)
      (hStep : step cfg e.sys act = some sys) : EndStep cfg e (.go act) { e with sys }
  | leave (hExit : e.exit = .stats) (hRun : e.sys.halted = none) (hMain : e.sys.pc .main = .stats)
      (hCnt : e.sys.mnt.jobsCnt < 1) : EndStep cfg e .main { e with exit := .umount }
  | shutdown (hExit : e.exit = .umount) : EndStep cfg e .main { e with exit := .join 0 }
  | join {i : Nat} (hExit : e.exit = .join i) (hi : i < MNT_RECV_TDV)
      (hJoined : i < cfg.tdsMax → e.sys.pc (.recv i) = .exited) :
      EndStep cfg e .main { e with exit := .join (i + 1) }
  | joined {i : Nat} (hExit : e.exit = .join i) (hi : MNT_RECV_TDV ≤ i) :
      EndStep cfg e .main { e with exit := .destroy }
  | free (hExit : e.exit = .destroy) : EndStep cfg e .main { e with exit := .freed }

theorem endStep_cases {cfg : Cfg} {e e' : Umount} {act : EndAct} (h : endStep cfg e act = some e') :
    EndStep cfg e act e' := by
  cases act with
  | go a =>
      simp only [endStep] at h
      split at h
      · next hCan =>
          obtain ⟨sys, hStep, rfl⟩ := Option.map_eq_some_iff.mp h
          exact .go hCan.1 hStep
      · cases h
  | main =>
      simp only [endStep] at h
      split at h
      · cases h
      · next hHalted =>
        have hRun : e.sys.halted = none := by simpa using hHalted
        cases hExit : e.exit with
        | stats =>
            simp only [hExit] at h
            split at h
            · next hBoth => exact Option.some.inj h ▸ .leave hExit hRun hBoth.1 hBoth.2
            · cases h
        | umount =>
            simp only [hExit] at h
            exact Option.some.inj h ▸ .shutdown hExit
        | join i =>
            simp only [hExit] at h
            split at h
            · next hi =>
                split at h
                · cases h
                · next hJoined =>
                    refine Option.some.inj h ▸ .join hExit hi fun ht => ?_
                    by_contra hNot
                    exact hJoined ⟨ht, hNot⟩
            · next hi => exact Option.some.inj h ▸ .joined hExit (Nat.le_of_not_lt hi)
        | destroy =>
            simp only [hExit] at h
            exact Option.some.inj h ▸ .free hExit
        | freed =>
            simp only [hExit] at h
            cases h

/-- Main is past its start loop only when it has counted in all jobs. -/
def Sys.StartsAll (cfg : Cfg) (s : Sys) : Prop := s.pc .main = .stats → cfg.jobsMax.toNat ≤ s.jobIdx

/-- Main goes on to its statistics when no job is left to start. -/
theorem Sys.StartsAll.step {cfg : Cfg} {s s' : Sys} {act : Act} (h : s.StartsAll cfg)
    (hStep : Nct.step cfg s act = some s') : s'.StartsAll cfg := by
  obtain ⟨hCase, -⟩ := step_cases hStep
  have hOther := fun b (hb : b ≠ act.agent) => step_pc_other hCase hb
  generalize hAgent : act.agent = a at hCase hOther
  intro hMain
  by_cases ha : a = .main
  · subst ha
    cases hCase with
    | stats hPc hDone => exact Nat.le_of_not_lt hDone
    | mountFailed hPc => exact h hMain
    | sendCheck hPc hCheck => exact h hMain
    | _ =>
        rw [Sys.goto_pc_self] at hMain
        cases hMain
  · have hIdx : s'.jobIdx = s.jobIdx := by
      cases hCase with
      | prepare hPc hPrep hDo =>
          rcases prepare_cases hDo with ⟨_, -, rfl⟩ | ⟨-, rfl⟩ | ⟨_, -, rfl⟩ | ⟨_, rfl⟩ <;> rfl
      | mount | mountSent | waited | decoded | mounted | raise | stats | alloc | started =>
          exact absurd rfl ha
      | _ => rfl
    rw [hOther _ (Ne.symm ha)] at hMain
    rw [hIdx]
    exact h hMain

/-- A thread that reads the end of the stream leaves. -/
theorem step_eof {cfg : Cfg} {s : Sys} {t : Nat} {input : Input} (hRun : s.halted = none)
    (ht : t < cfg.tdsMax) (hIdle : s.pc (.recv t) = .idle) (hNone : input.reply = none) :
    step cfg s ⟨.recv t, input⟩ = some (s.goto (.recv t) .exited) := by
  simp [step, hRun, ht, recvStep, hIdle, hNone]

/-- No job is counted any more, and main is past its start loop. -/
structure Over (cfg : Cfg) (s : Sys) : Prop where
  timely : Timely cfg s
  starts : s.StartsAll cfg
  main : s.pc .main = .stats
  count : s.mnt.jobsCnt = 0

section
variable {cfg : Cfg} {s s' : Sys}

/-- The counter is zero just if all jobs have been sent and have ended, none of
them with a zero. -/
theorem Timely.jobsCnt_zero_iff (h : Timely cfg s) (hStarts : s.StartsAll cfg)
    (hMain : s.pc .main = .stats) :
    s.mnt.jobsCnt = 0 ↔ s.ended = cfg.jobsMax.toNat ∧ s.zeros = 0 := by
  have hAccounted := h.living.kept.accounted
  have hCnt := hAccounted.jobsCnt_eq hMain
  have hJobs := hAccounted.jobs
  have hRaised := hAccounted.raised
  have hBound := hAccounted.bound
  have hAll := hStarts hMain
  rw [hMain] at hRaised hBound
  simp only [Pc.opening, Pc.inBody] at hRaised hBound
  rw [← UInt32.toNat_inj, UInt32.toNat_zero]
  omega

variable (h : Over cfg s)

include h

/-- All jobs have been started and have ended. -/
theorem Over.all_ended : s.sent = cfg.jobsMax.toNat ∧ s.ended = cfg.jobsMax.toNat := by
  have hEnded := ((h.timely.jobsCnt_zero_iff h.starts h.main).mp h.count).1
  have hAccounted := h.timely.living.kept.accounted
  have hJobs := hAccounted.jobs
  have hRaised := hAccounted.raised
  have hBound := hAccounted.bound
  rw [h.main] at hRaised hBound
  simp only [Pc.opening, Pc.inBody] at hRaised hBound
  omega

theorem Over.live : s.live cfg = 0 := by
  have hCnt := h.timely.living.kept.accounted.jobsCnt_eq h.main
  rw [h.count, UInt32.toNat_zero] at hCnt
  omega

/-- No request is in flight. -/
theorem Over.inFlight : s.inFlight = ∅ := by
  refine Finset.eq_empty_of_forall_notMem fun r hr => ?_
  have hCb : s.mnt.reqCb r = none := by
    have hFlights : s.flights = 0 := Nat.eq_zero_of_add_eq_zero_right h.live
    have hZero := Finset.sum_eq_zero_iff.mp hFlights r hr
    by_contra hSome
    rw [Option.isSome_iff_ne_none.mpr hSome] at hZero
    cases hZero
  have hMount := h.timely.living.awaited r (Or.inl hr) hCb
  rw [h.main] at hMount
  cases hMount

theorem Over.net : s.net = [] := by
  refine List.eq_nil_iff_forall_not_mem.mpr fun xid hMem => ?_
  obtain ⟨r, hr, -⟩ := h.timely.matched.awaited .net xid hMem
  rw [h.inFlight] at hr
  exact Finset.notMem_empty r hr

/-- No receive thread is at work on a job. -/
theorem Over.idle (t : Nat) : (s.pc (.recv t)).works s.mnt = false := by
  by_cases ht : t < cfg.tdsMax
  · have hWorking : s.working cfg = 0 := Nat.eq_zero_of_add_eq_zero_left h.live
    have hZero := Finset.sum_eq_zero_iff.mp hWorking t (Finset.mem_range.mpr ht)
    simpa using hZero
  · rw [h.timely.living.kept.within t (Nat.le_of_not_lt ht)]
    rfl

/-- No reply can come any more. -/
theorem Over.no_reply {act : Act} (hAnswers : Answers s act) (hIdle : s.pc act.agent = .idle) :
    act.input.reply = none := by
  cases hReply : act.input.reply with
  | none => rfl
  | some rep => simp [Answers, hIdle, hReply, h.net] at hAnswers

/-- No receive thread has a reply in its hands. -/
theorem Over.no_got (t : Nat) (rep : Reply) : s.pc (.recv t) ≠ .got rep := by
  intro hPc
  obtain ⟨r, hr, -⟩ := h.timely.matched.found hPc
  rw [h.inFlight] at hr
  exact Finset.notMem_empty r hr

/-- Nor a request that it has taken up. -/
theorem Over.no_taken (t : Nat) (req : ReqId) (rep : Reply) : s.pc (.recv t) ≠ .taken req rep := by
  intro hPc
  have hNone : s.mnt.reqCb req = none := by
    have hWorks := h.idle t
    rw [hPc] at hWorks
    simpa [Pc.works] using hWorks
  have hMount := h.timely.living.awaited req (Or.inr ⟨t, by rw [hPc]; rfl⟩) hNone
  rw [h.main] at hMount
  cases hMount

/-- No thread is inside a function that could send. -/
theorem Over.no_call (a : Agent) (fn : Fn) (req : ReqId) (plan : Plan) (l : Local) :
    s.pc a ≠ .call fn req plan l := by
  intro hPc
  cases a with
  | main =>
      rw [h.main] at hPc
      cases hPc
  | recv t =>
      have hFits := h.timely.living.kept.owned.fits (.recv t)
      rw [hPc] at hFits
      obtain rfl : fn = .callback := hFits.1
      have hWorks := h.idle t
      rw [hPc] at hWorks
      cases hWorks

/-- A step then counts nothing and sends nothing, and no thread but one that has
yet to compare a length can end the program. -/
theorem Over.step_same {act : Act} (hAnswers : Answers s act) (hStep : step cfg s act = some s') :
    act.agent ≠ .main ∧ s'.mnt.jobsCnt = s.mnt.jobsCnt ∧ s'.mnt.sendXid = s.mnt.sendXid ∧
      (s'.halted = none ∨ s'.halted = some .sendCheck) := by
  have hRun := step_running hStep
  have hMain := h.main
  obtain ⟨hCase, hTd⟩ := step_cases hStep
  by_cases hIdle : s.pc act.agent = .idle
  · -- the stream ends here
    have hNone := h.no_reply hAnswers hIdle
    obtain ⟨a, input⟩ := act
    cases a with
    | main =>
        rw [hMain] at hIdle
        cases hIdle
    | recv t =>
        have ht := hTd t rfl
        rw [step_eof hRun ht hIdle hNone] at hStep
        cases hStep
        exact ⟨by simp, rfl, rfl, Or.inl hRun⟩
  · generalize hAgent : act.agent = a at hCase hIdle
    cases hCase with
    | eof hPc | cantDecode hPc | reply hPc => exact absurd hPc hIdle
    | nullSlot hPc | xidMismatch hPc | take hPc => exact absurd hPc (h.no_got _ _)
    | exchange hPc => exact absurd hPc (h.no_taken _ _ _)
    | @cb t req job hPc hCb =>
        have hWorks := h.idle t
        rw [hPc] at hWorks
        simp [Pc.works, hCb] at hWorks
    | @callback t req job hPc =>
        have hWorks := h.idle t
        rw [hPc] at hWorks
        cases hWorks
    | @settle t rc freed hPc =>
        have hWorks := h.idle t
        have hFits := h.timely.living.kept.owned.fits (.recv t)
        rw [hPc] at hWorks hFits
        obtain rfl : rc = 0 := hFits hWorks
        exact ⟨by simp, rfl, rfl, Or.inl hRun⟩
    | prepare hPc | refuse hPc | free hPc | send hPc => exact absurd hPc (h.no_call _ _ _ _ _)
    | sendCheck hPc =>
        refine ⟨?_, rfl, rfl, Or.inr rfl⟩
        rintro rfl
        rw [hMain] at hPc
        cases hPc
    | checked hPc =>
        refine ⟨?_, rfl, rfl, Or.inl hRun⟩
        rintro rfl
        rw [hMain] at hPc
        cases hPc
    | boot | noCb | returned | shut | woke => exact ⟨by simp, rfl, rfl, Or.inl hRun⟩
    | _ hPc =>
        rw [hMain] at hPc
        cases hPc

/-- It stays so. -/
theorem Over.step {act : Act} (hOk : InTime cfg s act) (hStep : Nct.step cfg s act = some s') :
    Over cfg s' := by
  obtain ⟨hMain, hCnt, -⟩ := h.step_same hOk.2.1 hStep
  exact {
    timely := h.timely.step hOk hStep
    starts := h.starts.step hStep
    main := (step_pc_other (step_cases hStep).1 (Ne.symm hMain)).trans h.main
    count := hCnt.trans h.count }

/-- A thread that gets no reply is in time. -/
theorem Over.inTime (t : Nat) (input : Input) (hNone : input.reply = none) :
    InTime cfg s ⟨.recv t, input⟩ := by
  have hCall := h.no_call (.recv t)
  unfold InTime NoStaleTest Answers NotLapped
  refine ⟨?_, ?_, ?_⟩
  · split
    · next hPc => exact absurd hPc (hCall _ _ _ _)
    · trivial
  · simp [hNone]
  · split
    · next hPc => exact absurd hPc (hCall _ _ _ _)
    · trivial

/-- A receive thread that has not left goes on. -/
theorem Over.recv_goes_on (hSize : cfg.tdsMax + max 1 cfg.jobsMax.toNat ≤ NCT_REQ_MAX)
    (hRun : s.halted = none) {t : Nat} (ht : t < cfg.tdsMax) (hLeft : s.pc (.recv t) ≠ .exited)
    (input : Input) (hNone : input.reply = none) :
    ∃ s', Nct.step cfg s ⟨.recv t, input⟩ = some s' := by
  by_cases hIdle : s.pc (.recv t) = .idle
  · exact ⟨_, step_eof hRun ht hIdle hNone⟩
  · have hReady := fun hBoot => h.timely.living.pool_ready h.timely.first hSize (Or.inr ⟨t, ht, hBoot⟩)
    have hSome : (recvStep cfg s t input).isSome :=
      recvStep_isSome (h.timely.living.kept.owned.fits (.recv t)) hIdle hLeft hReady input
    obtain ⟨s', hStep⟩ := Option.isSome_iff_exists.mp hSome
    exact ⟨s', by simpa [Nct.step, hRun, ht] using hStep⟩

/-- What is left is the way of each thread to its end. -/
theorem Over.work_le (hShort : s.Short) : s.work cfg ≤ 15 * cfg.tdsMax + 1 := by
  have hMain : s.load cfg .main = 0 := by
    have hAll := h.starts h.main
    simp only [Sys.load, Sys.toStart, h.main, Pc.steps]
    omega
  have hRecv : ∀ a ∈ (Finset.range cfg.tdsMax).image Agent.recv, s.load cfg a ≤ 15 := by
    intro a ha
    obtain ⟨t, -, rfl⟩ := Finset.mem_image.mp ha
    exact hShort.steps_le (.recv t)
  have hSum := Finset.sum_le_sum hRecv
  have hCard : ((Finset.range cfg.tdsMax).image Agent.recv).card ≤ cfg.tdsMax :=
    Finset.card_image_le.trans (Finset.card_range _).le
  have hAgents : ∑ a ∈ cfg.agents, s.load cfg a =
      s.load cfg .main + ∑ a ∈ (Finset.range cfg.tdsMax).image Agent.recv, s.load cfg a :=
    Finset.sum_insert (by simp)
  rw [Finset.sum_const_nat fun _ _ => rfl] at hSum
  rw [Sys.work, hAgents, hMain]
  split <;> omega

end

/-- Main is past the join of the thread. -/
def Exit.Past (t : Nat) : Exit → Prop
  | .stats | .umount => False
  | .join i => t < i
  | .destroy | .freed => True

def Exit.rest : Exit → Nat
  | .stats => MNT_RECV_TDV + 4
  | .umount => MNT_RECV_TDV + 3
  | .join i => MNT_RECV_TDV - i + 2
  | .destroy => 1
  | .freed => 0

/-- What a run to the end keeps. -/
structure Ends (cfg : Cfg) (e : Umount) : Prop where
  timely : Timely cfg e.sys
  starts : e.sys.StartsAll cfg
  short : e.sys.Short
  past : e.exit ≠ .stats → Over cfg e.sys
  running : e.exit ≠ .stats → e.sys.halted = none ∨ e.sys.halted = some .sendCheck
  joined : ∀ t < cfg.tdsMax, e.exit.Past t → e.sys.pc (.recv t) = .exited

theorem Ends.atBoot (cfg : Cfg) : Ends cfg Umount.boot where
  timely := Timely.atBoot cfg
  starts hMain := by cases hMain
  short := Sys.Short.atBoot
  past hExit := absurd rfl hExit
  running hExit := absurd rfl hExit
  joined _ _ hPast := hPast.elim

/-- A thread that has left takes no step. -/
theorem step_not_exited {cfg : Cfg} {s s' : Sys} {act : Act} {t : Nat} (hStep : step cfg s act = some s')
    (hPc : s.pc (.recv t) = .exited) : act.agent ≠ .recv t := by
  intro hAgent
  have hRun := step_running hStep
  have ht := (step_cases hStep).2 t hAgent
  simp [step, hRun, hAgent, ht, recvStep, hPc, callStep] at hStep

section
variable {cfg : Cfg} {e e' : Umount} {act : EndAct}

/-- Main goes on in `nct_umount`, with the threads left as they are. -/
theorem Ends.exit (h : Ends cfg e) {exit : Exit} (hFrom : e.exit ≠ .stats)
    (hPast : ∀ t < cfg.tdsMax, exit.Past t → e.exit.Past t ∨ e.sys.pc (.recv t) = .exited) :
    Ends cfg { e with exit } where
  timely := h.timely
  starts := h.starts
  short := h.short
  past _ := h.past hFrom
  running _ := h.running hFrom
  joined t ht hExit := (hPast t ht hExit).elim (h.joined t ht) id

/-- Main goes on to its end only when the jobs are over. -/
theorem Ends.step (h : Ends cfg e) (hTds : cfg.tdsMax ≤ MNT_RECV_TDV) (hOk : EndInTime cfg e act)
    (hStep : endStep cfg e act = some e') : Ends cfg e' := by
  cases endStep_cases hStep with
  | @go a sys hMain hGo =>
      exact {
        timely := h.timely.step hOk hGo
        starts := h.starts.step hGo
        short := h.short.step hGo
        past := fun hExit => (h.past hExit).step hOk hGo
        running := fun hExit => ((h.past hExit).step_same hOk.2.1 hGo).2.2.2
        joined := fun t ht hPast => by
          have hPc := h.joined t ht hPast
          have hOther := step_not_exited hGo hPc
          exact (step_pc_other (step_cases hGo).1 (Ne.symm hOther)).trans hPc }
  | leave hExit hRun hMain hCnt =>
      have hZero : e.sys.mnt.jobsCnt = 0 := UInt32.lt_one_iff.mp hCnt
      exact {
        timely := h.timely
        starts := h.starts
        short := h.short
        past := fun _ => ⟨h.timely, h.starts, hMain, hZero⟩
        running := fun _ => Or.inl hRun
        joined := fun _ _ hPast => hPast.elim }
  | shutdown hExit => exact h.exit (by simp [hExit]) fun t _ hPast => absurd hPast (Nat.not_lt_zero t)
  | @join i hExit hi hJoined =>
      refine h.exit (by simp [hExit]) fun t ht hPast => ?_
      rcases Nat.lt_succ_iff_lt_or_eq.mp hPast with hLess | rfl
      · exact Or.inl (hExit ▸ hLess)
      · exact Or.inr (hJoined ht)
  | @joined i hExit hi =>
      refine h.exit (by simp [hExit]) fun t ht _ => Or.inl ?_
      rw [hExit]
      exact (ht.trans_le hTds).trans_le hi
  | free hExit => exact h.exit (by simp [hExit]) fun t ht _ => Or.inl (hExit ▸ trivial)

/-- So in every run that is in time. -/
theorem run_to_end (hTds : cfg.tdsMax ≤ MNT_RECV_TDV)
    (run : Run (endStep cfg) (EndInTime cfg) Umount.boot e) : Ends cfg e :=
  run.invariant (Ends.atBoot cfg) fun _ _ _ h hOk hStep => h.step hTds hOk hStep

/-- A bound on the steps that are left. -/
def Umount.work (cfg : Cfg) (e : Umount) : Nat := e.sys.work cfg + e.exit.rest

/-- Once main has left `nct_stats_loop`, each step leaves less to do and sends nothing. -/
theorem Ends.lowers (h : Ends cfg e) (hExit : e.exit ≠ .stats) (hOk : EndInTime cfg e act)
    (hStep : endStep cfg e act = some e') :
    e'.exit ≠ .stats ∧ e'.sys.mnt.sendXid = e.sys.mnt.sendXid ∧ e'.work cfg < e.work cfg := by
  cases endStep_cases hStep with
  | @go a sys hMain hGo =>
      obtain ⟨-, -, hXid, -⟩ := (h.past hExit).step_same hOk.2.1 hGo
      refine ⟨hExit, hXid, Nat.add_lt_add_right ?_ _⟩
      have hWork := Sys.work_step hGo
      rwa [if_neg, Nat.add_zero] at hWork
      rintro ⟨⟨hIdle, hSome⟩, -⟩
      rw [(h.past hExit).no_reply hOk.2.1 hIdle] at hSome
      cases hSome
  | leave hStats => exact absurd hStats hExit
  | shutdown hFrom | join hFrom hi | joined hFrom | free hFrom =>
      refine ⟨by simp, rfl, Nat.add_lt_add_left ?_ _⟩
      simp only [hFrom, Exit.rest]
      omega

/-- As long as the mount is not freed, main or a receive thread goes on. -/
theorem Ends.goes_on (h : Ends cfg e)
    (hSize : cfg.tdsMax + max 1 cfg.jobsMax.toNat ≤ NCT_REQ_MAX) (hExit : e.exit ≠ .stats)
    (hRun : e.sys.halted = none) (hFreed : e.exit ≠ .freed) :
    ∃ act e', EndInTime cfg e act ∧ endStep cfg e act = some e' := by
  cases hAt : e.exit with
  | stats => exact absurd hAt hExit
  | freed => exact absurd hAt hFreed
  | umount => exact ⟨.main, { e with exit := .join 0 }, trivial, by simp [endStep, hRun, hAt]⟩
  | destroy => exact ⟨.main, { e with exit := .freed }, trivial, by simp [endStep, hRun, hAt]⟩
  | join i =>
      by_cases hi : i < MNT_RECV_TDV
      · by_cases hLeft : i < cfg.tdsMax ∧ e.sys.pc (.recv i) ≠ .exited
        · -- the thread to be joined goes on
          obtain ⟨ht, hPc⟩ := hLeft
          obtain ⟨sys, hStep⟩ := (h.past hExit).recv_goes_on hSize hRun ht hPc ⟨0, none, false, 0⟩ rfl
          refine ⟨.go ⟨.recv i, ⟨0, none, false, 0⟩⟩, { e with sys }, ?_, ?_⟩
          · exact (h.past hExit).inTime _ _ rfl
          · simp [endStep, hStep, hAt]
        · refine ⟨.main, { e with exit := .join (i + 1) }, trivial, ?_⟩
          simp [endStep, hRun, hAt, hi, hLeft]
      · exact ⟨.main, { e with exit := .destroy }, trivial, by simp [endStep, hRun, hAt, hi]⟩

/-- Once the mount is freed no thread is left that could use it. -/
theorem Ends.freed (h : Ends cfg e) (hFreed : e.exit = .freed) (act : EndAct) :
    endStep cfg e act = none := by
  by_contra hSome
  obtain ⟨e', hStep⟩ := Option.ne_none_iff_exists'.mp hSome
  cases endStep_cases hStep with
  | @go a sys hMain hGo =>
      have hAgent : a.agent ≠ .main := hMain.resolve_left (by simp [hFreed])
      have hTd := (step_cases hGo).2
      cases hWho : a.agent with
      | main => exact hAgent hWho
      | recv t =>
          have hPc := h.joined t (hTd t hWho) (by rw [hFreed]; trivial)
          exact step_not_exited hGo hPc hWho
  | leave hFrom | shutdown hFrom | join hFrom | joined hFrom | free hFrom =>
      rw [hFreed] at hFrom
      cases hFrom

end

/-- Main leaves `nct_stats_loop` just when all jobs have been sent and have ended, none of
them with a zero. From then on nothing is in flight or sent, and whatever the threads do,
`nct_umount` comes to its end in so many steps, unless a sender's late comparison ends the
program; and when the mount is freed, no thread is left that could use it. -/
theorem clean_exit (cfg : Cfg) (hTds : cfg.tdsMax ≤ MNT_RECV_TDV)
    (hSize : cfg.tdsMax + max 1 cfg.jobsMax.toNat ≤ NCT_REQ_MAX) (e : Umount)
    (run : Run (endStep cfg) (EndInTime cfg) Umount.boot e) :
    (e.exit = .stats → e.sys.pc .main = .stats → e.sys.halted = none →
      ((endStep cfg e .main).isSome ↔ e.sys.ended = cfg.jobsMax.toNat ∧ e.sys.zeros = 0)) ∧
    (e.exit ≠ .stats →
      e.sys.inFlight = ∅ ∧ e.sys.sent = cfg.jobsMax.toNat ∧ e.sys.ended = cfg.jobsMax.toNat ∧
      (e.sys.halted = none ∨ e.sys.halted = some .sendCheck) ∧
      ∀ n e', Steps (endStep cfg) (EndInTime cfg) e n e' →
        n ≤ 15 * cfg.tdsMax + MNT_RECV_TDV + 4 ∧ e'.sys.mnt.sendXid = e.sys.mnt.sendXid ∧
        (e'.sys.halted = none →
          (∀ act e'', EndInTime cfg e' act → endStep cfg e' act ≠ some e'') → e'.exit = .freed)) ∧
    (e.exit = .freed → ∀ act, endStep cfg e act = none) := by
  have h := run_to_end hTds run
  refine ⟨fun hExit hMain hRun => ?_, fun hExit => ?_, h.freed⟩
  · rw [← h.timely.jobsCnt_zero_iff h.starts hMain]
    have hLeaves : (endStep cfg e .main).isSome ↔ e.sys.mnt.jobsCnt < 1 := by
      simp only [endStep, hRun, hExit, hMain]
      split <;> simp_all
    exact hLeaves.trans UInt32.lt_one_iff
  · have hOver := h.past hExit
    obtain ⟨hSent, hEnded⟩ := hOver.all_ended
    refine ⟨hOver.inFlight, hSent, hEnded, h.running hExit, fun n e' steps => ?_⟩
    obtain ⟨⟨hEnds, hLeft, hXid⟩, hBound⟩ := steps.bounded
      (P := fun e' => Ends cfg e' ∧ e'.exit ≠ .stats ∧ e'.sys.mnt.sendXid = e.sys.mnt.sendXid)
      (m := Umount.work cfg) ⟨h, hExit, rfl⟩ fun s act s' ⟨hEnds, hLeft, hXid⟩ hOk hStep => by
        obtain ⟨hNext, hSame, hLess⟩ := hEnds.lowers hLeft hOk hStep
        exact ⟨⟨hEnds.step hTds hOk hStep, hNext, hSame.trans hXid⟩, hLess⟩
    refine ⟨?_, hXid, fun hRun hStuck => ?_⟩
    · have hWork := hOver.work_le h.short
      have hRest : e.exit.rest ≤ MNT_RECV_TDV + 3 := by
        cases hAt : e.exit with
        | stats => exact absurd hAt hExit
        | _ => simp only [Exit.rest]; omega
      simp only [Umount.work] at hBound
      omega
    · by_contra hFreed
      obtain ⟨act, e'', hOk, hStep⟩ := hEnds.goes_on hSize hLeft hRun hFreed
      exact hStuck act e'' hOk hStep

/-- The only job ends, and main joins the thread. -/
def exitSteps : List EndAct :=
  (sentSteps ++ lateSteps).map .go ++
    [.main, .main, .go ⟨.recv 0, { quietInput with complete := false }⟩] ++
      List.replicate (MNT_RECV_TDV + 2) .main

/-- One NULL job on one thread. -/
theorem clean_exit_exitSteps : ∃ e : Umount, e.exit = .freed ∧ e.sys.sent = 1 ∧ e.sys.ended = 1 ∧
    ∀ act, endStep (oneThread .null 1) e act = none := by
  obtain ⟨e, hRun, hExit⟩ : ∃ e,
      Run (endStep (oneThread .null 1)) (EndInTime (oneThread .null 1)) Umount.boot e ∧
      e.exit = .freed :=
    Run.of_exec_any exitSteps (by decide +kernel)
  obtain ⟨-, hAfter, hFreed⟩ := clean_exit (oneThread .null 1) (by decide) (by decide) e hRun
  obtain ⟨-, hSent, hEnded, -⟩ := hAfter (by simp [hExit])
  exact ⟨e, hExit, hSent, hEnded, hFreed hExit⟩

/-- All receive threads have read the end of the stream. -/
def Sys.Deaf (cfg : Cfg) (s : Sys) : Prop := ∀ t < cfg.tdsMax, s.pc (.recv t) = .exited

/-- No job ends once nobody receives. -/
theorem Sys.Deaf.step {cfg : Cfg} {s s' : Sys} {act : Act} (h : s.Deaf cfg)
    (hStep : Nct.step cfg s act = some s') : s'.Deaf cfg ∧ s'.ended = s.ended := by
  have hAgent : act.agent = .main := by
    cases hWho : act.agent with
    | main => rfl
    | recv t => exact absurd hWho (step_not_exited hStep (h t ((step_cases hStep).2 t hWho)))
  obtain ⟨hCase, -⟩ := step_cases hStep
  constructor
  · intro t ht
    rw [step_pc_other hCase (by simp [hAgent])]
    exact h t ht
  · rw [hAgent] at hCase
    cases hCase with
    | prepare hPc hPrep hDo => exact (prepare_counts hDo).1.ended
    | _ => rfl

/-- Nobody receives, though jobs are left. -/
structure Umount.Stranded (cfg : Cfg) (e : Umount) : Prop where
  deaf : e.sys.Deaf cfg
  few : e.sys.ended < cfg.jobsMax.toNat
  loops : e.exit = .stats

section
variable {cfg : Cfg} {e e' : Umount} {act : EndAct}

theorem Ends.stranded (h : Ends cfg e) (hDeaf : e.sys.Deaf cfg)
    (hFew : e.sys.ended < cfg.jobsMax.toNat) : e.Stranded cfg where
  deaf := hDeaf
  few := hFew
  loops := by
    by_contra hExit
    have hEnded := (h.past hExit).all_ended.2
    omega

/-- Nobody is there to end a job. -/
theorem Ends.stranded_step (h : Ends cfg e) (hStranded : e.Stranded cfg)
    (hStep : endStep cfg e act = some e') :
    e'.Stranded cfg ∧ e'.sys.ended = e.sys.ended := by
  have hLoops := hStranded.loops
  cases endStep_cases hStep with
  | @go a sys hMain hGo =>
      obtain ⟨hDeaf, hSame⟩ := hStranded.deaf.step hGo
      exact ⟨⟨hDeaf, hSame.trans_lt hStranded.few, hLoops⟩, hSame⟩
  | leave hExit hRun hMain hCnt =>
      -- the loop is left only when all jobs have ended
      have hZero : e.sys.mnt.jobsCnt = 0 := UInt32.lt_one_iff.mp hCnt
      have hEnded := ((h.timely.jobsCnt_zero_iff h.starts hMain).mp hZero).1
      have hFew := hStranded.few
      omega
  | shutdown hFrom | join hFrom | joined hFrom | free hFrom =>
      rw [hLoops] at hFrom
      cases hFrom

end

/-- If the stream ends before all jobs have, the program never does: main stays in
`nct_stats_loop` whatever happens, and no further job ends. -/
theorem eof_strands (cfg : Cfg) (hTds : cfg.tdsMax ≤ MNT_RECV_TDV) (e : Umount)
    (run : Run (endStep cfg) (EndInTime cfg) Umount.boot e) (hDeaf : e.sys.Deaf cfg)
    (hFew : e.sys.ended < cfg.jobsMax.toNat) (e' : Umount)
    (rest : Run (endStep cfg) (EndInTime cfg) e e') :
    e'.exit = .stats ∧ e'.sys.ended = e.sys.ended := by
  have h := run_to_end hTds run
  have hLater : Ends cfg e' ∧ e'.Stranded cfg ∧ e'.sys.ended = e.sys.ended := by
    apply rest.invariant ⟨h, h.stranded hDeaf hFew, rfl⟩
    intro s act s' hNow hOk hStep
    obtain ⟨hEnds, hStranded, hSame⟩ := hNow
    obtain ⟨hNext, hEnded⟩ := hEnds.stranded_step hStranded hStep
    exact ⟨hEnds.step hTds hOk hStep, hNext, hEnded.trans hSame⟩
  exact ⟨hLater.2.1.loops, hLater.2.2⟩

/-- The server closes the connection instead of answering the only call. -/
def closedSteps : List EndAct := (sentSteps ++ (Agent.recv 0).steps 1).map .go

/-- The server closes the connection before it answers the only job. -/
theorem eof_strands_closedSteps : ∃ e : Umount, e.sys.sent = 1 ∧ e.sys.pc .main = .stats ∧
    ∀ e', Run (endStep (oneThread .null 1)) (EndInTime (oneThread .null 1)) e e' → e'.exit = .stats := by
  obtain ⟨e, hRun, hSent, hMain, hDeaf, hEnded⟩ : ∃ e,
      Run (endStep (oneThread .null 1)) (EndInTime (oneThread .null 1)) Umount.boot e ∧
      e.sys.sent = 1 ∧ e.sys.pc .main = .stats ∧ e.sys.pc (.recv 0) = .exited ∧ e.sys.ended = 0 :=
    Run.of_exec_any closedSteps (by decide +kernel)
  have hAll : e.sys.Deaf (oneThread .null 1) := fun t ht => by
    obtain rfl : t = 0 := Nat.lt_one_iff.mp ht
    exact hDeaf
  exact ⟨e, hSent, hMain, fun e' rest =>
    (eof_strands (oneThread .null 1) (by decide) e hRun hAll (by rw [hEnded]; decide) e' rest).1⟩

end Nct
