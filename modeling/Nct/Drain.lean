import Nct.Progress
import Nct.Support.Descent

/-! The program comes to rest. Between two receives every thread has only so many
steps, and once the deadlines of the jobs have passed each reply ends a job, so
that the whole run comes to its end. -/
namespace Nct

open Function (update)
open Transition (Run Steps exec)

/-- The steps a function has left when it is about to return. -/
def Fn.rest : Fn → Nat
  | .callback => 4
  | .start => 2
  | .mounted => 2
  | .mount => 7

/-- A bound on the steps that a thread can take before it receives or, for main,
before it is back at the top of its start loop. -/
def Pc.steps : Pc → Nat
  | .exited | .stats => 0
  | .idle | .raise => 1
  | .boot | .wake | .shut => 2
  | .returned _ _ => 3
  | .back fn _ _ _ => fn.rest
  | .check fn _ _ _ => fn.rest + 1
  | .call fn _ plan _ => fn.rest + 2 + plan.prep.length
  | .decode _ => 5
  | .wait _ => 6
  | .alloc => 10
  | .callback _ _ => 12
  | .mount => 12
  | .testCb _ => 13
  | .taken _ _ => 14
  | .got _ => 15

/-- The jobs that main has yet to count in. -/
def Sys.toStart (cfg : Cfg) (s : Sys) : Nat :=
  cfg.jobsMax.toNat - (s.jobIdx + (s.pc .main).inBody)

/-- A bound on the steps that a thread has before it. -/
def Sys.load (cfg : Cfg) (s : Sys) : Agent → Nat
  | .main => (s.pc .main).steps + 10 * s.toStart cfg
  | .recv t => (s.pc (.recv t)).steps

/-- A bound on the steps that the program has before it without a reply. -/
def Sys.work (cfg : Cfg) (s : Sys) : Nat :=
  ∑ a ∈ cfg.agents, s.load cfg a + if s.halted.isSome then 0 else 1

def Receives (s : Sys) (act : Act) : Prop := s.pc act.agent = .idle ∧ act.input.reply.isSome

instance (s : Sys) (act : Act) : Decidable (Receives s act) :=
  inferInstanceAs (Decidable (_ ∧ _))

theorem Job.cb_prep_length (xdr : XdrInts) (job : Job) (mnt : Mnt) (req : ReqId) (status : UInt32) :
    (job.cb xdr mnt req status).prep.length ≤ 5 := by
  cases job <;> simp only [Job.cb, testNullCb, testGetattrCb, testReadCb] <;>
    split_ifs <;> simp

/-- A start function has no more than five operations to do before it gives its request
away. -/
theorem Job.start_prep_length (job : Job) : job.start.prep.length ≤ 5 := by
  cases job <;> decide

theorem mem_agents {cfg : Cfg} {a : Agent} (h : ∀ t, a = .recv t → t < cfg.tdsMax) :
    a ∈ cfg.agents := by
  cases a with
  | main => exact Finset.mem_insert_self _ _
  | recv t => exact Cfg.recv_mem_agents.mpr (h t rfl)

section
variable {cfg : Cfg} {s s' : Sys} {a : Agent} (ha : a ∈ cfg.agents)
  (hOther : ∀ b, b ≠ a → s'.pc b = s.pc b)

include ha hOther

/-- One thread moves, and only main changes what is left to start. -/
theorem Sys.work_lt {k : Nat} (hIdx : a ≠ .main → s'.jobIdx = s.jobIdx)
    (hHalted : s'.halted = s.halted) (hLoad : s'.load cfg a < s.load cfg a + k) :
    s'.work cfg < s.work cfg + k := by
  have hSum := Transition.sum_changed (f := s.load cfg) (g := s'.load cfg) ha fun b _ hb => by
    cases b with
    | main => simp only [Sys.load, Sys.toStart, hOther _ hb, hIdx (Ne.symm hb)]
    | recv t => simp only [Sys.load, hOther _ hb]
  rw [Sys.work, Sys.work, hHalted]
  omega

/-- A thread moves on within what it does. -/
theorem Sys.work_within {k : Nat} (hIdx : s'.jobIdx = s.jobIdx) (hHalted : s'.halted = s.halted)
    (hBody : (s'.pc a).inBody = (s.pc a).inBody) (hSteps : (s'.pc a).steps < (s.pc a).steps + k) :
    s'.work cfg < s.work cfg + k := by
  refine Sys.work_lt ha hOther (fun _ => hIdx) hHalted ?_
  cases a with
  | main =>
      simp only [Sys.load, Sys.toStart, hIdx, hBody]
      omega
  | recv t => exact hSteps

end

/-- When the program ends, less is left to do. -/
theorem Sys.work_crash {cfg : Cfg} {s s' : Sys} (hRun : s.halted = none) (hPc : s'.pc = s.pc)
    (hIdx : s'.jobIdx = s.jobIdx) (hHalted : s'.halted.isSome = true) :
    s'.work cfg < s.work cfg := by
  have hLoad : s'.load cfg = s.load cfg := by
    funext a
    cases a <;> simp only [Sys.load, Sys.toStart, hPc, hIdx]
  rw [Sys.work, Sys.work, hLoad, hRun, if_pos hHalted]
  exact Nat.lt_succ_self _

/-- Every step leaves less to do, unless it receives a reply and goes on with it. -/
theorem Sys.work_step {cfg : Cfg} {s s' : Sys} {act : Act} (hStep : step cfg s act = some s') :
    s'.work cfg < s.work cfg + if Receives s act ∧ s'.halted = none then 15 else 0 := by
  obtain ⟨hCase, hTd⟩ := step_cases hStep
  have hRun := step_running hStep
  have hOther := fun b (hb : b ≠ act.agent) => step_pc_other hCase hb
  have ha := mem_agents hTd
  generalize hk : (if Receives s act ∧ s'.halted = none then 15 else 0) = k
  generalize hAgent : act.agent = a at hCase hOther ha
  cases hCase with
  | @reply t rep hPc hRep =>
      have hReceives : Receives s act := ⟨hAgent ▸ hPc, by rw [hRep]; rfl⟩
      rw [if_pos ⟨hReceives, hRun⟩] at hk
      subst hk
      exact Sys.work_within ha hOther rfl rfl (by simp [hPc, Pc.inBody]) (by simp [hPc, Pc.steps])
  | cantDecode | nullSlot | xidMismatch | mountFailed | sendCheck =>
      exact Nat.lt_add_right _ (Sys.work_crash hRun rfl rfl rfl)
  | raise hPc hMore =>
      refine Nat.lt_add_right _ (Sys.work_lt ha hOther (fun _ => rfl) rfl (k := 0) ?_)
      simp only [Sys.load, Sys.toStart, Sys.goto_pc_self, hPc, Pc.steps, Pc.inBody]
      change 10 + 10 * (cfg.jobsMax.toNat - (s.jobIdx + 1)) < _
      omega
  | @started req ret freed hPc =>
      refine Nat.lt_add_right _ (Sys.work_lt ha hOther (fun h => absurd rfl h) rfl (k := 0) ?_)
      simp only [Sys.load, Sys.toStart, Sys.goto_pc_self, hPc, Pc.steps, Pc.inBody, Fn.rest]
      change 1 + 10 * (cfg.jobsMax.toNat - (s.jobIdx + 1 + 0)) < _
      omega
  | @callback t req job hPc =>
      refine Sys.work_within ha hOther rfl rfl (by simp [hPc, Pc.inBody]) ?_
      have hLength := job.cb_prep_length cfg.xdr s.mnt req act.input.status
      rw [Sys.goto_pc_self, hPc]
      simp only [Pc.steps, Fn.rest]
      omega
  | alloc hPc hHead =>
      refine Sys.work_within ha hOther rfl rfl (by simp [hPc, Pc.inBody]) ?_
      have hLength := cfg.job.start_prep_length
      rw [Sys.goto_pc_self, hPc]
      simp only [Pc.steps, Fn.rest]
      omega
  | @settle t rc freed hPc =>
      refine Sys.work_within ha hOther ?_ ((settle_link s rc freed).halted) ?_ ?_
      · obtain ⟨_, _, _, hEq⟩ := settle_eq s rc freed
        rw [hEq]
        rfl
      · rw [Sys.goto_pc_self, hPc]
        split <;> rfl
      · rw [Sys.goto_pc_self, hPc]
        split <;> exact Nat.lt_add_right _ (by simp [Pc.steps])
  | @prepare _ fn req plan l l' p prep s'' hPc hPrep hDo =>
      refine Sys.work_within ha hOther (prepare_counts hDo).1.jobIdx (prepare_link hDo).halted ?_ ?_
      · rw [Sys.goto_pc_self, hPc]
        cases fn <;> rfl
      · rw [Sys.goto_pc_self, hPc]
        exact Nat.lt_add_right _ (by simp [Pc.steps, hPrep])
  | @refuse _ fn req plan l prep hPc hPrep hPast =>
      refine Sys.work_within ha hOther rfl rfl ?_ ?_
      · rw [Sys.goto_pc_self, hPc]
        cases fn <;> rfl
      · rw [Sys.goto_pc_self, hPc]
        exact Nat.lt_add_right _ (by simp only [Pc.steps]; omega)
  | @free _ fn req plan l hPc hPrep hGive =>
      refine Sys.work_within ha hOther rfl rfl ?_ ?_
      · rw [Sys.goto_pc_self, hPc]
        cases fn <;> rfl
      · rw [Sys.goto_pc_self, hPc]
        exact Nat.lt_add_right _ (by simp only [Pc.steps]; omega)
  | @send _ fn req plan l hPc hPrep hGive =>
      refine Sys.work_within ha hOther rfl rfl ?_ ?_
      · rw [Sys.goto_pc_self, hPc]
        cases fn <;> rfl
      · rw [Sys.goto_pc_self, hPc]
        exact Nat.lt_add_right _ (by simp only [Pc.steps]; omega)
  | @checked _ fn req ret cc hPc hCheck =>
      refine Sys.work_within ha hOther rfl rfl ?_ ?_
      · rw [Sys.goto_pc_self, hPc]
        cases fn <;> rfl
      · rw [Sys.goto_pc_self, hPc]
        exact Nat.lt_add_right _ (by simp [Pc.steps])
  | _ =>
      exact Sys.work_within ha hOther rfl rfl (by simp [Pc.inBody, *])
        (Nat.lt_add_right _ (by simp [Pc.steps, Fn.rest, mountPlan, mountedPlan, *]))

/-- No plan is longer than that of READ. -/
def Sys.Short (s : Sys) : Prop :=
  ∀ a fn req plan l, s.pc a = .call fn req plan l → plan.prep.length ≤ 5

/-- A thread that moves has a short plan, and the others have theirs still. -/
theorem Sys.Short.frame {s s' : Sys} {a : Agent} (h : s.Short)
    (hOther : ∀ b, b ≠ a → s'.pc b = s.pc b)
    (hNew : ∀ fn req plan l, s'.pc a = .call fn req plan l → plan.prep.length ≤ 5) : s'.Short := by
  intro b fn req plan l hPc
  by_cases hb : b = a
  · subst hb
    exact hNew fn req plan l hPc
  · rw [hOther b hb] at hPc
    exact h b fn req plan l hPc

/-- Every plan that a step begins is short. -/
theorem Sys.Short.step {cfg : Cfg} {s s' : Sys} {act : Act} (h : s.Short)
    (hStep : Nct.step cfg s act = some s') : s'.Short := by
  obtain ⟨hCase, -⟩ := step_cases hStep
  have hOther := fun b (hb : b ≠ act.agent) => step_pc_other hCase hb
  generalize act.agent = a at hCase hOther
  cases hCase with
  | mount | decoded =>
      refine h.frame hOther fun fn req plan l hPc => ?_
      rw [Sys.goto_pc_self] at hPc
      cases hPc
      decide
  | alloc =>
      refine h.frame hOther fun fn req plan l hPc => ?_
      rw [Sys.goto_pc_self] at hPc
      cases hPc
      exact cfg.job.start_prep_length
  | @callback t req job hPc =>
      refine h.frame hOther fun fn req plan l hPc => ?_
      rw [Sys.goto_pc_self] at hPc
      cases hPc
      exact job.cb_prep_length _ _ _ _
  | @prepare _ fn req plan l l' p prep s'' hPc hPrep hDo =>
      have hOld := h _ _ _ _ _ hPc
      refine h.frame hOther fun fn req plan l hPc => ?_
      rw [Sys.goto_pc_self] at hPc
      cases hPc
      rw [hPrep, List.length_cons] at hOld
      exact Nat.le_of_succ_le hOld
  | settle hPc =>
      refine h.frame hOther fun fn req plan l hPc => ?_
      rw [Sys.goto_pc_self] at hPc
      split at hPc <;> cases hPc
  | cantDecode | nullSlot | xidMismatch | mountFailed | sendCheck =>
      exact fun b fn req plan l hPc => h b fn req plan l hPc
  | _ =>
      refine h.frame hOther fun fn req plan l hPc => ?_
      rw [Sys.goto_pc_self] at hPc
      cases hPc

theorem Sys.Short.atBoot : Sys.boot.Short := by
  intro a fn req plan l hPc
  cases a <;> cases hPc

/-- No thread is more than 15 steps from its next receive. -/
theorem Sys.Short.steps_le {s : Sys} (h : s.Short) (a : Agent) : (s.pc a).steps ≤ 15 := by
  cases hPc : s.pc a with
  | call fn req plan l =>
      have hLength := h a fn req plan l hPc
      cases fn <;> simp only [Pc.steps, Fn.rest] <;> omega
  | check fn req ret cc => cases fn <;> simp [Pc.steps, Fn.rest]
  | back fn req ret freed => cases fn <;> simp [Pc.steps, Fn.rest]
  | _ => simp [Pc.steps]

theorem Cfg.agents_card (cfg : Cfg) : cfg.agents.card ≤ cfg.tdsMax + 1 := by
  refine (Finset.card_insert_le _ _).trans (Nat.succ_le_succ (Finset.card_image_le.trans ?_))
  rw [Finset.card_range]

/-- In all, the threads and the jobs to come have no more than so much to do. -/
theorem Sys.Short.work_le {cfg : Cfg} {s : Sys} (h : s.Short) :
    s.work cfg ≤ 15 * (cfg.tdsMax + 1) + 10 * cfg.jobsMax.toNat + 1 := by
  have hLoad : ∀ a ∈ cfg.agents,
      s.load cfg a ≤ 15 + if a = .main then 10 * cfg.jobsMax.toNat else 0 := by
    intro a _
    have hSteps := h.steps_le a
    cases a with
    | main =>
        simp only [Sys.load, Sys.toStart, if_true]
        omega
    | recv t => exact Nat.le_add_right_of_le hSteps
  have hSum := Finset.sum_le_sum hLoad
  rw [Finset.sum_add_distrib, Finset.sum_const_nat fun _ _ => rfl, Finset.sum_ite_eq' cfg.agents,
    if_pos (mem_agents (by simp))] at hSum
  have hCard := cfg.agents_card
  rw [Sys.work]
  split <;> omega

/-- The accesses to the table that a thread has before it goes on with its reply. -/
def Races.toTake (s : Races) (t : Nat) : Nat :=
  match s.hand t, s.sys.pc (.recv t) with
  | none, .got _ => 2
  | some (.looked _ _), _ => 1
  | _, _ => 0

/-- A bound on the steps that the program has before it without a reply, when a reply
is taken up access by access. -/
def Races.work (cfg : Cfg) (s : Races) : Nat :=
  s.sys.work cfg + if s.sys.halted.isSome then 0 else ∑ t ∈ Finset.range cfg.tdsMax, s.toTake t

def Races.Receives (s : Races) : RaceAct → Prop
  | .go act => Nct.Receives s.sys act
  | _ => False

instance (s : Races) (act : RaceAct) : Decidable (s.Receives act) := by
  unfold Races.Receives
  induction act using RaceAct.casesOn <;> infer_instance

/-- A thread has a reply in its hands only after it has received it. -/
theorem step_got {cfg : Cfg} {s s' : Sys} {act : Act} {rep : Reply}
    (hStep : Nct.step cfg s act = some s') (hGot : s'.pc act.agent = .got rep)
    (hNot : act.TakesUp s = false) : Receives s act := by
  obtain ⟨hCase, -⟩ := step_cases hStep
  unfold Act.TakesUp at hNot
  generalize hAgent : act.agent = a at hCase hGot hNot
  cases hCase with
  | reply hPc hRep => exact ⟨hAgent ▸ hPc, by rw [hRep]; rfl⟩
  | settle hPc =>
      rw [Sys.goto_pc_self] at hGot
      split at hGot <;> cases hGot
  | cantDecode hPc | mountFailed hPc | sendCheck hPc => cases hPc.symm.trans hGot
  | nullSlot hPc | xidMismatch hPc | take hPc => simp [hPc] at hNot
  | _ =>
      rw [Sys.goto_pc_self] at hGot
      cases hGot

section
variable {cfg : Cfg} {s s' : Races}

theorem Races.toTake_le (s : Races) (t : Nat) : s.toTake t ≤ 2 := by
  unfold Races.toTake
  split <;> simp

/-- One thread makes an access, or goes on with what it does. -/
theorem Races.work_lt {t : Nat} (ht : t < cfg.tdsMax) (hHalted : s'.sys.halted = s.sys.halted)
    (hHand : ∀ u, u ≠ t → s'.hand u = s.hand u)
    (hPc : ∀ u, u ≠ t → s'.sys.pc (.recv u) = s.sys.pc (.recv u)) (hRun : s.sys.halted = none)
    (hLess : s'.sys.work cfg + s'.toTake t < s.sys.work cfg + s.toTake t) :
    s'.work cfg < s.work cfg := by
  have hSum := Transition.sum_changed (f := s.toTake) (g := s'.toTake) (Finset.mem_range.mpr ht)
    fun u _ hu => by simp only [Races.toTake, hHand u hu, hPc u hu]
  rw [Races.work, Races.work, hHalted, hRun]
  simp only [Option.isSome_none, Bool.false_eq_true, if_false]
  omega

/-- So it is with the take-ups that are under way. -/
theorem Races.work_crash (hLess : s'.sys.work cfg < s.sys.work cfg)
    (hHalted : s'.sys.halted.isSome = true) : s'.work cfg < s.work cfg := by
  rw [Races.work, if_pos hHalted]
  exact Nat.lt_of_lt_of_le hLess (Nat.le_add_right _ _)

/-- Every step that does not receive leaves less to do. -/
theorem Races.work_step {act : RaceAct} (hHands : s.Hands cfg) (hNot : ¬ s.Receives act)
    (hStep : raceStep cfg s act = some s') : s'.work cfg < s.work cfg := by
  have hRun := raceStep_running hStep
  cases act with
  | go act =>
      obtain ⟨hTakes, hGo, hHand⟩ := raceStep_go hStep
      have hLess := Sys.work_step hGo
      rw [if_neg fun hBoth => hNot hBoth.1] at hLess
      have hOther := fun b (hb : b ≠ act.agent) => step_pc_other (step_cases hGo).1 hb
      cases hHalted : s'.sys.halted.isSome with
      | true => exact Races.work_crash hLess hHalted
      | false =>
          have hSame : ∀ t, s'.toTake t = s.toTake t := by
            intro t
            by_cases ha : Agent.recv t = act.agent
            · -- it has no reply, before the step or after it
              have hNone : s.hand t = none := by
                by_contra hSome
                obtain ⟨g, hg⟩ := Option.ne_none_iff_exists'.mp hSome
                simp [Act.TakesUp, ← ha, (hHands t g hg).2] at hTakes
              have hBefore : ∀ rep, s.sys.pc (.recv t) ≠ .got rep := by
                intro rep hPc
                simp [Act.TakesUp, ← ha, hPc] at hTakes
              have hAfter : ∀ rep, s'.sys.pc (.recv t) ≠ .got rep := by
                intro rep hPc
                exact hNot (step_got hGo (ha ▸ hPc) hTakes)
              unfold Races.toTake
              rw [hHand, hNone]
              split <;> split <;> simp_all
            · rw [Races.toTake, Races.toTake, hHand, hOther _ ha]
          rw [Races.work, Races.work, hRun, if_neg (by simp [hHalted]), if_neg (by simp),
            Finset.sum_congr rfl fun t _ => hSame t]
          exact Nat.add_lt_add_right hLess _
  | look t =>
      obtain ⟨rep, ht, hPc, hNone, hSys, hHand⟩ := raceStep_look hStep
      refine Races.work_lt ht (by rw [hSys]) (fun u hu => by rw [hHand, Function.update_of_ne hu])
        (fun u _ => by rw [hSys]) hRun ?_
      rw [hSys]
      simp [Races.toTake, hHand, hNone, hPc]
  | clear t =>
      obtain ⟨rep, req, hLooked, hSys, hHand⟩ := raceStep_clear hStep
      refine Races.work_lt (hHands t _ hLooked).1 (by rw [hSys]; rfl)
        (fun u hu => by rw [hHand, Function.update_of_ne hu]) (fun u _ => by rw [hSys]; rfl) hRun ?_
      have hWork : s'.sys.work cfg = s.sys.work cfg := by
        rw [hSys]
        rfl
      simp [hWork, Races.toTake, hHand, hLooked]
  | check t now =>
      obtain ⟨rep, req, other, -, hCleared, hHand, ⟨-, c, hSys⟩ | ⟨r, rfl, hXid, hSys⟩⟩ :=
        raceStep_check hStep
      · refine Races.work_crash (Sys.work_crash hRun ?_ ?_ ?_) ?_
        all_goals
          rw [hSys]
          rfl
      · obtain ⟨ht, hPc⟩ := hHands t _ hCleared
        obtain ⟨taken, hTake, hFound⟩ := found_of_take rep now hRun ht hPc hXid
        have hLess := Sys.work_step hTake
        have hOwn : ¬ Nct.Receives (s.sys.entered rep.xid r) (takeAt t now) := by
          rintro ⟨-, hReply⟩
          cases hReply
        rw [if_neg fun hBoth => hOwn hBoth.1] at hLess
        have hLess' : s'.sys.work cfg < s.sys.work cfg := by
          rw [hSys, hFound]
          exact hLess
        refine Races.work_lt ht (by rw [hSys]; rfl)
          (fun u hu => by rw [hHand, Function.update_of_ne hu])
          (fun u hu => by rw [hSys, Sys.found, Sys.goto_pc_of_ne _ _ (by simpa using hu)]) hRun ?_
        have hDone : s'.toTake t = 0 := by
          simp [Races.toTake, hHand, hSys, Sys.found]
        omega

theorem Sys.Short.race {act : RaceAct} (h : s.sys.Short) (hHands : s.Hands cfg)
    (hStep : raceStep cfg s act = some s') : s'.sys.Short := by
  cases act with
  | go act => exact h.step (raceStep_go hStep).2.1
  | look t => exact Robust.look h hStep
  | clear t =>
      obtain ⟨rep, req, -, hSys, -⟩ := raceStep_clear hStep
      rw [hSys]
      exact h
  | check t now =>
      obtain ⟨rep, req, other, hRun, hCleared, -, ⟨-, c, hSys⟩ | ⟨r, rfl, hXid, hSys⟩⟩ :=
        raceStep_check hStep
      · rw [hSys]
        exact h
      · obtain ⟨ht, hPc⟩ := hHands t _ hCleared
        obtain ⟨taken, hTake, hFound⟩ := found_of_take rep now hRun ht hPc hXid
        have hEntered : (s.sys.entered rep.xid r).Short := h
        have hTaken := hEntered.step hTake
        rw [hSys, hFound]
        exact hTaken

/-- Each receive thread has two accesses more in a take-up. -/
theorem Races.work_le (h : s.sys.Short) :
    s.work cfg ≤ 17 * (cfg.tdsMax + 1) + 10 * cfg.jobsMax.toNat + 1 := by
  have hWork : s.sys.work cfg ≤ _ := h.work_le
  have hSum := Finset.sum_le_sum fun t (_ : t ∈ Finset.range cfg.tdsMax) => s.toTake_le t
  rw [Finset.sum_const_nat fun _ _ => rfl, Finset.card_range] at hSum
  rw [Races.work]
  split <;> omega

end

/-- However the accesses of the threads are interleaved, between two replies the
program takes only so many steps: 17 for each thread and 10 for each job to start. -/
theorem settles_down (cfg : Cfg) (s : Races)
    (run : Run (raceStep cfg) (fun _ _ => True) Races.boot s) (n : Nat) (s' : Races)
    (own : Steps (raceStep cfg) (fun s act => ¬ s.Receives act) s n s') :
    n ≤ 17 * (cfg.tdsMax + 1) + 10 * cfg.jobsMax.toNat + 1 := by
  have hNone : Races.boot.Hands cfg := fun _ _ h => by cases h
  obtain ⟨hShort, hHands⟩ : s.sys.Short ∧ s.Hands cfg :=
    run.invariant (P := fun s => s.sys.Short ∧ s.Hands cfg) ⟨Sys.Short.atBoot, hNone⟩
      fun _ _ _ h _ hStep => ⟨h.1.race h.2 hStep, h.2.step hStep⟩
  obtain ⟨-, hBound⟩ := own.bounded (P := Races.Hands cfg) (m := Races.work cfg) hHands
    fun _ _ _ h hOwn hStep => ⟨h.step hStep, Races.work_step h hOwn hStep⟩
  have hWork : s.work cfg ≤ _ := Races.work_le hShort
  omega

/-- From the reply to its GETATTR on, main and the thread end the mount and the thread
is back at its receive. -/
theorem settles_down_mount : ∃ (n : Nat) (s : Races), n = 9 ∧
    s.sys.pc (.recv 0) = .idle ∧ n ≤ 17 * 2 + 10 + 1 := by
  let cfg := oneThread .null 1
  let go : Act → RaceAct := .go
  obtain ⟨s, hRun, hOwn⟩ : ∃ s, Run (raceStep cfg) (fun _ _ => True) Races.boot s ∧
      (exec (raceStep cfg) (fun s act => ¬ s.Receives act) s
        ([.look 0, .clear 0, .check 0 5] ++ ((Agent.recv 0).steps 3 ++ Agent.main.steps 3).map go)).any
        (fun s' => s'.sys.pc (.recv 0) = .idle) = true :=
    Run.of_exec_any ((Agent.main.steps 6 ++ (Agent.recv 0).steps 1 ++
      [(Agent.recv 0).hears 0 RPC_SUCCESS getattrBody]).map go) (by decide +kernel)
  obtain ⟨s', hSteps, hIdle⟩ : ∃ s', Steps (raceStep cfg) (fun s act => ¬ s.Receives act) s 9 s' ∧
      s'.sys.pc (.recv 0) = .idle := Steps.of_exec_any _ hOwn
  exact ⟨9, s', rfl, hIdle, settles_down cfg s hRun 9 s' hSteps⟩

/-- The request's reply came before the end of its job. -/
def Mnt.early (mnt : Mnt) (req : ReqId) : Nat :=
  if mnt.reqTscStop req < mnt.reqTscFinish req then 1 else 0

/-- Only the two times matter. -/
theorem Mnt.early_congr {mnt mnt' : Mnt} {r : ReqId} (hStop : mnt'.reqTscStop r = mnt.reqTscStop r)
    (hFinish : mnt'.reqTscFinish r = mnt.reqTscFinish r) : mnt'.early r = mnt.early r := by
  rw [Mnt.early, Mnt.early, hStop, hFinish]

/-- The sends that a thread may yet make before it receives or, for main, before
it is back at the top of its start loop. -/
def Pc.owes (mnt : Mnt) : Pc → Nat
  | .mount | .alloc => 1
  | .taken req _ => mnt.early req
  | .testCb req => if (mnt.reqCb req).isSome then mnt.early req else 0
  | .callback req _ => mnt.early req
  | .call _ _ plan _ => if plan.give = .send then 1 else 0
  | _ => 0

def Sys.debt (cfg : Cfg) (s : Sys) : Agent → Nat
  | .main => (s.pc .main).owes s.mnt + s.toStart cfg
  | .recv t => (s.pc (.recv t)).owes s.mnt

/-- A bound on the replies that the program can still receive. -/
def Sys.replies (cfg : Cfg) (s : Sys) : Nat := s.net.length + ∑ a ∈ cfg.agents, s.debt cfg a

/-- A reply is taken up when its job's time is over. -/
def Due (s : Sys) (act : Act) : Prop :=
  match s.pc act.agent with
  | .got rep => ∀ req ∈ s.mnt.reqTbl (slot rep.xid), s.mnt.reqTscFinish req ≤ act.input.now
  | _ => True

instance (s : Sys) (act : Act) : Decidable (Due s act) := by
  unfold Due
  generalize s.pc act.agent = pc
  induction pc using Pc.casesOn <;> infer_instance

/-- A callback sends its request again only if the reply came early. -/
theorem Job.cb_send_early {xdr : XdrInts} {job : Job} {mnt : Mnt} {req : ReqId} {status : UInt32}
    (h : (job.cb xdr mnt req status).give = .send) : mnt.early req = 1 := by
  have hStop : ¬ mnt.reqTscStop req ≥ mnt.reqTscFinish req := by
    intro hLate
    cases job <;> simp only [Job.cb, testNullCb, testGetattrCb, testReadCb, hLate, if_true] at h <;>
      split_ifs at h
  exact if_pos (UInt64.not_le.mp hStop)

/-- What a thread may yet send depends on the request it has in its hands. -/
theorem Pc.owes_congr {mnt mnt' : Mnt} {pc : Pc}
    (hTimes : ∀ r, pc.holds mnt r → mnt'.early r = mnt.early r)
    (hCb : ∀ r, pc.testing = some r → (mnt'.reqCb r).isSome = (mnt.reqCb r).isSome) :
    pc.owes mnt' = pc.owes mnt := by
  cases pc with
  | taken req rep => exact hTimes req rfl
  | callback req job => exact hTimes req rfl
  | testCb req =>
      simp only [Pc.owes, hCb req rfl]
      split
      · next hSome => exact hTimes req ⟨rfl, Option.isSome_iff_ne_none.mp hSome⟩
      · rfl
  | _ => rfl

section
variable {cfg : Cfg} {s s' : Sys} {a : Agent} (ha : a ∈ cfg.agents)
  (hOther : ∀ b, b ≠ a → s'.pc b = s.pc b)
  (hTimes : ∀ b r, b ≠ a → (s.pc b).holds s.mnt r → s'.mnt.early r = s.mnt.early r)
  (hCb : ∀ b r, b ≠ a → (s.pc b).testing = some r →
    (s'.mnt.reqCb r).isSome = (s.mnt.reqCb r).isSome)

include ha hOther hTimes hCb

/-- When the server and one thread come to owe less, so do all of them together. -/
theorem Sys.replies_le {k : Nat} (hIdx : a ≠ .main → s'.jobIdx = s.jobIdx)
    (hDebt : s'.net.length + s'.debt cfg a + k ≤ s.net.length + s.debt cfg a) :
    s'.replies cfg + k ≤ s.replies cfg := by
  have hSum := Transition.sum_changed (f := s.debt cfg) (g := s'.debt cfg) ha fun b _ hb => by
    have hOwes := Pc.owes_congr (hTimes b · hb) (hCb b · hb)
    cases b with
    | main => simp only [Sys.debt, Sys.toStart, hOther _ hb, hIdx (Ne.symm hb), hOwes]
    | recv t => simp only [Sys.debt, hOther _ hb, hOwes]
  rw [Sys.replies, Sys.replies]
  omega

theorem Sys.replies_within {k : Nat} (hIdx : s'.jobIdx = s.jobIdx)
    (hBody : (s'.pc a).inBody = (s.pc a).inBody)
    (hOwes : s'.net.length + (s'.pc a).owes s'.mnt + k ≤ s.net.length + (s.pc a).owes s.mnt) :
    s'.replies cfg + k ≤ s.replies cfg := by
  refine Sys.replies_le ha hOther hTimes hCb (fun _ => hIdx) ?_
  cases a with
  | main =>
      simp only [Sys.debt, Sys.toStart, hIdx, hBody]
      omega
  | recv t => exact hOwes

end

/-- Popping a request changes no callback that a thread is about to test. -/
theorem Owned.cb_tested {s : Sys} {req r : ReqId} {b : Agent} (h : Owned s)
    (hHead : s.mnt.reqHead = some req) (hTest : (s.pc b).testing = some r) :
    ((popReq s.mnt req).reqCb r).isSome = (s.mnt.reqCb r).isSome := by
  cases b with
  | main =>
      have hFits := h.fits .main
      rw [Pc.testing_eq.mp hTest] at hFits
      cases hFits
  | recv t => exact h.cb_watched hHead (Or.inr ⟨t, Or.inr hTest⟩)

/-- A receive takes one away from the replies that can still come. -/
theorem Sys.replies_receive {cfg : Cfg} {s s' : Sys} {act : Act} (hFits : ∀ a : Agent, a.Fits (s.pc a))
    (hReceives : Receives s act) (hAnswers : Answers s act) (hStep : step cfg s act = some s') :
    s'.replies cfg + (if Receives s act ∧ s'.halted = none then 1 else 0) ≤ s.replies cfg := by
  obtain ⟨a, input⟩ := act
  obtain ⟨hIdle, hSome⟩ := hReceives
  obtain ⟨rep, hRep⟩ := Option.isSome_iff_exists.mp hSome
  simp only at hIdle hRep
  have hRun := step_running hStep
  cases a with
  | main =>
      have hMain := hFits .main
      rw [hIdle] at hMain
      cases hMain
  | recv t =>
      obtain ⟨hCase, hTd⟩ := step_cases hStep
      have hOther := fun b (hb : b ≠ Agent.recv t) => step_pc_other hCase hb
      simp only [step, hRun, hTd t rfl, recvStep, hIdle, hRep, Option.isSome_none,
        Bool.false_eq_true, if_false, if_true] at hStep
      split at hStep
      · cases hStep
      · split at hStep
        · -- this reply ends the program
          cases hStep
          rw [if_neg fun hBoth => by cases hBoth.2]
          exact Nat.le_refl _
        · cases hStep
          have hMem : rep.xid ∈ s.net := by simpa [Answers, hIdle, hRep] using hAnswers
          have hPos := List.length_pos_of_mem hMem
          rw [if_pos ⟨⟨hIdle, hSome⟩, rfl⟩]
          refine Sys.replies_within (mem_agents hTd) hOther (fun _ _ _ _ => rfl)
            (fun _ _ _ _ => rfl) rfl ?_ ?_
          · rw [Sys.goto_pc_self, hIdle]
            rfl
          · rw [Sys.goto_pc_self, hIdle]
            change (s.net.erase rep.xid).length + 0 + 1 ≤ _
            rw [List.length_erase_of_mem hMem]
            simp only [Pc.owes]
            omega

/-- A reply that comes when the job's time is over is not answered by a call. -/
theorem Sys.replies_take {cfg : Cfg} {s : Sys} {t : Nat} {rep : Reply} {req : ReqId} {now : UInt64}
    (hOwned : Owned s) (ha : Agent.recv t ∈ cfg.agents)
    (hOther : ∀ b, b ≠ Agent.recv t → ((s.take req rep now).goto (.recv t) (.taken req rep)).pc b = s.pc b)
    (hPc : s.pc (.recv t) = .got rep) (hSlot : s.mnt.reqTbl (slot rep.xid) = some req)
    (hLate : s.mnt.reqTscFinish req ≤ now) :
    ((s.take req rep now).goto (.recv t) (.taken req rep)).replies cfg + 0 ≤ s.replies cfg := by
  obtain ⟨hFlight, -⟩ := hOwned.table _ _ hSlot
  refine Sys.replies_within ha hOther (fun b r _ hHeld => ?_) (fun _ _ _ _ => rfl) rfl ?_ ?_
  · have hne : r ≠ req := by
      rintro rfl
      exact Place.noConfusion (hOwned.held_ne (p := .flight) hHeld hFlight)
    exact Mnt.early_congr (Function.update_of_ne hne _ _) rfl
  · simp [hPc, Pc.inBody]
  · have hOver : (s.take req rep now).mnt.early req = 0 := by
      refine if_neg (UInt64.not_lt.mpr ?_)
      change s.mnt.reqTscFinish req ≤ update s.mnt.reqTscStop req now req
      rwa [Function.update_self]
    rw [Sys.goto_pc_self, Sys.goto_mnt, hPc]
    simp only [Pc.owes, hOver]
    exact Nat.le_refl _

/-- The operations of a plan are done on a request that no other thread has; nobody is
about to test a callback that they set. -/
theorem Sys.replies_prepare {cfg : Cfg} {s s' : Sys} {a : Agent} {fn : Fn} {req : ReqId}
    {plan : Plan} {l l' : Local} {now : UInt64} {p : Prep} {prep : List Prep} (hOwned : Owned s)
    (ha : a ∈ cfg.agents)
    (hOther : ∀ b, b ≠ a → (s'.goto a (.call fn req { plan with prep } l')).pc b = s.pc b)
    (hPc : s.pc a = .call fn req plan l) (hDo : s.prepare cfg req l now p = some (s', l'))
    (hFresh : ∀ job, p = .arm job → ∀ b, (s.pc b).testing ≠ some req) :
    (s'.goto a (.call fn req { plan with prep } l')).replies cfg + 0 ≤ s.replies cfg := by
  have hBody : ((s'.goto a (.call fn req { plan with prep } l')).pc a).inBody = (s.pc a).inBody := by
    rw [Sys.goto_pc_self, hPc]
    cases fn <;> rfl
  rcases prepare_cases hDo with ⟨job, rfl, rfl⟩ | ⟨-, rfl⟩ | ⟨_, -, rfl⟩ | ⟨_, rfl⟩
  · have hHeld : (s.pc a).holds s.mnt req := by simp [hPc, Pc.holds]
    refine Sys.replies_within ha hOther (fun b r hb hr => ?_) (fun b r _ hTest => ?_) rfl hBody ?_
    · have hne : r ≠ req := by
        rintro rfl
        injection hOwned.held_ne (p := .held b) hHeld hr with hSameAgent
        exact hb hSameAgent
      exact Mnt.early_congr rfl (Function.update_of_ne hne _ _)
    · have hne : r ≠ req := by
        rintro rfl
        exact hFresh job rfl b hTest
      exact congrArg Option.isSome (Function.update_of_ne hne _ _)
    · rw [Sys.goto_pc_self, hPc]
      exact Nat.le_refl _
  all_goals
    refine Sys.replies_within ha hOther (fun _ _ _ _ => rfl) (fun _ _ _ _ => rfl) rfl hBody ?_
    rw [Sys.goto_pc_self, hPc]
    exact Nat.le_refl _

/-- No step adds to the replies that can still come, and a receive takes one away. -/
theorem Sys.replies_step {cfg : Cfg} {s s' : Sys} {act : Act} (hOwned : Owned s)
    (hWithin : s.Within cfg) (hStale : NoStaleTest cfg s act) (hAnswers : Answers s act)
    (hDue : Due s act) (hStep : step cfg s act = some s') :
    s'.replies cfg + (if Receives s act ∧ s'.halted = none then 1 else 0) ≤ s.replies cfg := by
  by_cases hReceives : Receives s act
  · exact Sys.replies_receive hOwned.fits hReceives hAnswers hStep
  rw [if_neg fun hBoth => hReceives hBoth.1]
  obtain ⟨hCase, hTd⟩ := step_cases hStep
  have hOther := fun b (hb : b ≠ act.agent) => step_pc_other hCase hb
  have ha := mem_agents hTd
  generalize hAgent : act.agent = a at hCase hOther ha
  have hSame : ∀ b r, b ≠ a → (s.pc b).holds s.mnt r → s.mnt.early r = s.mnt.early r :=
    fun _ _ _ _ => rfl
  have hSameCb : ∀ b r, b ≠ a → (s.pc b).testing = some r →
      (s.mnt.reqCb r).isSome = (s.mnt.reqCb r).isSome := fun _ _ _ _ => rfl
  cases hCase with
  | @reply t rep hPc hRep => exact absurd ⟨hAgent ▸ hPc, by rw [hRep]; rfl⟩ hReceives
  | cantDecode | nullSlot | xidMismatch | mountFailed | sendCheck => exact Nat.le_refl _
  | boot hPc hHead =>
      refine Sys.replies_within ha hOther hSame (fun b r _ hTest => hOwned.cb_tested hHead hTest) rfl
        ?_ ?_
      · simp [hPc, Pc.inBody]
      · simp [hPc, Pc.owes]
        rfl
  | mount hPc hHead =>
      refine Sys.replies_within ha hOther hSame (fun b r _ hTest => hOwned.cb_tested hHead hTest) rfl
        ?_ ?_
      · simp [hPc, Pc.inBody]
      · simp [hPc, Pc.owes, mountPlan]
        rfl
  | alloc hPc hHead =>
      refine Sys.replies_within ha hOther hSame (fun b r _ hTest => hOwned.cb_tested hHead hTest) rfl
        ?_ ?_
      · simp [hPc, Pc.inBody]
      · simp [hPc, Pc.owes, cfg.job.start_give]
        rfl
  | @take t rep req hPc hSlot hXid =>
      have hLate : s.mnt.reqTscFinish req ≤ act.input.now := by
        simp only [Due, hAgent, hPc] at hDue
        exact hDue req hSlot
      exact Sys.replies_take hOwned ha hOther hPc hSlot hLate
  | @exchange t rep req hPc =>
      refine Sys.replies_within ha hOther hSame hSameCb rfl ?_ ?_
      · simp [hPc, Pc.inBody]
      · rw [Sys.goto_pc_self, hPc]
        simp only [Pc.owes]
        split
        · exact Nat.le_refl _
        · exact Nat.add_le_add_left (Nat.zero_le _) _
  | @cb t req job hPc hCb =>
      refine Sys.replies_within ha hOther hSame hSameCb rfl ?_ ?_
      · simp [hPc, Pc.inBody]
      · simp [hPc, Pc.owes, hCb]
        rfl
  | @callback t req job hPc =>
      refine Sys.replies_within ha hOther hSame hSameCb rfl ?_ ?_
      · simp [hPc, Pc.inBody]
      · rw [Sys.goto_pc_self, hPc]
        simp only [Pc.owes]
        split
        · next hSend =>
            rw [Job.cb_send_early hSend]
            rfl
        · exact Nat.add_le_add_left (Nat.zero_le _) _
  | @settle t rc freed hPc =>
      obtain ⟨_, _, _, hEq⟩ := settle_eq s rc freed
      rw [hEq] at hOther ⊢
      refine Sys.replies_within ha hOther hSame hSameCb rfl ?_ ?_
      · rw [Sys.goto_pc_self, hPc]
        split <;> rfl
      · rw [Sys.goto_pc_self, hPc]
        split <;> exact Nat.le_refl _
  | raise hPc hMore =>
      refine Sys.replies_le ha hOther hSame hSameCb (fun _ => rfl) ?_
      simp only [Sys.debt, Sys.toStart, Sys.goto_pc_self, hPc, Pc.owes, Pc.inBody]
      change s.net.length + (1 + (cfg.jobsMax.toNat - (s.jobIdx + 1))) + 0 ≤ _
      omega
  | @started req ret freed hPc =>
      refine Sys.replies_le ha hOther hSame hSameCb (fun h => absurd rfl h) ?_
      simp only [Sys.debt, Sys.toStart, Sys.goto_pc_self, hPc, Pc.owes, Pc.inBody]
      change s.net.length + (0 + (cfg.jobsMax.toNat - (s.jobIdx + 1 + 0))) + 0 ≤ _
      omega
  | @prepare _ fn req plan l l' p prep s'' hPc hPrep hDo =>
      refine Sys.replies_prepare hOwned ha hOther hPc hDo fun job hp => ?_
      subst hp
      exact hStale.not_testing hOwned.fits hWithin hAgent hPc hPrep
  | @refuse _ fn req plan l prep hPc hPrep hPast =>
      refine Sys.replies_within ha hOther hSame hSameCb rfl ?_ ?_
      · rw [Sys.goto_pc_self, hPc]
        cases fn <;> rfl
      · rw [Sys.goto_pc_self, hPc]
        exact Nat.add_le_add_left (Nat.zero_le _) _
  | @free _ fn req plan l hPc hPrep hGive =>
      refine Sys.replies_within ha hOther hSame hSameCb rfl ?_ ?_
      · rw [Sys.goto_pc_self, hPc]
        cases fn <;> rfl
      · rw [Sys.goto_pc_self, hPc]
        exact Nat.add_le_add_left (Nat.zero_le _) _
  | @send _ fn req plan l hPc hPrep hGive =>
      refine Sys.replies_within ha hOther hSame hSameCb rfl ?_ ?_
      · rw [Sys.goto_pc_self, hPc]
        cases fn <;> rfl
      · rw [Sys.goto_pc_self, hPc]
        simp only [Pc.owes, hGive, if_true]
        change (if act.input.complete then s.mnt.sendXid :: s.net else s.net).length + 0 + 0 ≤ _
        split <;> simp
  | @checked _ fn req ret cc hPc hCheck =>
      refine Sys.replies_within ha hOther hSame hSameCb rfl ?_ ?_
      · rw [Sys.goto_pc_self, hPc]
        cases fn <;> rfl
      · rw [Sys.goto_pc_self, hPc]
        exact Nat.add_le_add_left (Nat.zero_le _) _
  | _ =>
      refine Sys.replies_within ha hOther hSame hSameCb rfl (by simp [Pc.inBody, *]) ?_
      rw [Sys.goto_pc_self]
      exact Nat.add_le_add_left (Nat.zero_le _) _

theorem Mnt.early_le (mnt : Mnt) (req : ReqId) : mnt.early req ≤ 1 := by
  unfold Mnt.early
  split <;> decide

theorem Pc.owes_le (mnt : Mnt) (pc : Pc) : pc.owes mnt ≤ 1 := by
  cases pc with
  | taken req rep => exact mnt.early_le req
  | callback req job => exact mnt.early_le req
  | testCb req =>
      simp only [Pc.owes]
      split
      · exact mnt.early_le req
      · exact Nat.zero_le _
  | call fn req plan l =>
      simp only [Pc.owes]
      split <;> decide
  | _ => simp [Pc.owes]

/-- No more replies can come than there are unanswered calls, threads and jobs. -/
theorem Sys.replies_bound (cfg : Cfg) (s : Sys) :
    s.replies cfg ≤ s.net.length + (cfg.tdsMax + 1) + cfg.jobsMax.toNat := by
  have hDebt : ∀ a ∈ cfg.agents, s.debt cfg a ≤ 1 + if a = .main then cfg.jobsMax.toNat else 0 := by
    intro a _
    have hOwes := (s.pc a).owes_le s.mnt
    cases a with
    | main =>
        simp only [Sys.debt, Sys.toStart, if_true]
        omega
    | recv t => exact Nat.le_add_right_of_le hOwes
  have hSum := Finset.sum_le_sum hDebt
  rw [Finset.sum_add_distrib, Finset.sum_const_nat fun _ _ => rfl, Finset.sum_ite_eq' cfg.agents,
    if_pos (mem_agents (by simp))] at hSum
  have hCard := cfg.agents_card
  rw [Sys.replies]
  omega

/-- The run is in time, and no reply is taken up before its job's time is over. -/
def InTimeDue (cfg : Cfg) (s : Sys) (act : Act) : Prop := InTime cfg s act ∧ Due s act

instance (cfg : Cfg) (s : Sys) (act : Act) : Decidable (InTimeDue cfg s act) := by
  unfold InTimeDue
  infer_instance

/-- Each step leaves less to do, or a reply less to come. -/
theorem Kept.lowers {cfg : Cfg} {s s' : Sys} {act : Act} (h : Kept cfg s) (hOk : InTimeDue cfg s act)
    (hStep : Nct.step cfg s act = some s') :
    Kept cfg s' ∧ s'.work cfg + 15 * s'.replies cfg < s.work cfg + 15 * s.replies cfg := by
  obtain ⟨⟨hStale, hAnswers, -⟩, hDue⟩ := hOk
  have hWork := Sys.work_step hStep
  have hReplies := Sys.replies_step h.owned h.within hStale hAnswers hDue hStep
  refine ⟨h.step hStale hStep, ?_⟩
  split at hWork
  · next hBoth =>
      rw [if_pos hBoth] at hReplies
      omega
  · next hNot =>
      rw [if_neg hNot] at hReplies
      omega

/-- Once the server has answered all calls, nothing can happen any more but that a
thread reads the end of the stream. -/
def Sys.Finished (cfg : Cfg) (s : Sys) : Prop :=
  ∀ act s', Answers s act → step cfg s act = some s' →
    s.pc act.agent = .idle ∧ act.input.reply = none

/-- Where only the end of the stream can be read, only receives are possible. -/
theorem Sys.Finished.atRest {cfg : Cfg} {s : Sys} (h : s.Finished cfg)
    (hFits : ∀ a : Agent, a.Fits (s.pc a)) : s.AtRest cfg := by
  intro act s' hStep
  have hIdle : s.pc act.agent = .idle := by
    by_cases hAnswers : Answers s act
    · exact (h act s' hAnswers hStep).1
    · by_contra hNot
      refine hAnswers ?_
      unfold Answers
      split
      · next hPc _ => exact absurd hPc hNot
      · trivial
  have hFits := hFits act.agent
  rw [hIdle] at hFits
  cases hAgent : act.agent with
  | main =>
      rw [hAgent] at hFits
      cases hFits
  | recv t => exact ⟨t, rfl, hAgent ▸ hIdle⟩

/-- A thread that can receive leaves no call unanswered. -/
theorem Sys.Finished.net {cfg : Cfg} {s : Sys} (h : s.Finished cfg) (hRun : s.halted = none) {t : Nat}
    (ht : t < cfg.tdsMax) (hIdle : s.pc (.recv t) = .idle) : s.net = [] := by
  by_contra hSome
  obtain ⟨xid, hMem⟩ := List.exists_mem_of_ne_nil _ hSome
  let act : Act := ⟨.recv t, 0, some ⟨xid, RPC_SUCCESS, rpcmin, []⟩, true, 0⟩
  have hAnswers : Answers s act := by simpa [Answers, act, hIdle] using hMem
  have hStep : step cfg s act =
      some ({ s with net := s.net.erase xid }.goto (.recv t) (.got ⟨xid, RPC_SUCCESS, rpcmin, []⟩)) := by
    simp [step, hRun, act, ht, recvStep, hIdle, rpcmin, RPC_SUCCESS, RPC_CANTDECODERES]
  obtain ⟨-, hNone⟩ := h act _ hAnswers hStep
  cases hNone

/-- Once the deadlines have passed, the run comes to its end: it has only so many steps
left, and when nothing more can happen all jobs that were sent have ended. -/
theorem jobs_end (cfg : Cfg) (hSize : cfg.tdsMax + max 1 cfg.jobsMax.toNat ≤ NCT_REQ_MAX) (s : Sys)
    (run : Run (step cfg) (InTime cfg) Sys.boot s) (n : Nat) (s' : Sys)
    (rest : Steps (step cfg) (InTimeDue cfg) s n s') :
    n ≤ 30 * (cfg.tdsMax + 1) + 25 * cfg.jobsMax.toNat + 15 * s.net.length + 1 ∧
    (s'.halted = none → s'.Finished cfg → (∃ t < cfg.tdsMax, s'.pc (.recv t) = .idle) →
      s'.pc .main = .stats ∧ s'.inFlight = ∅ ∧ s'.ended = s'.sent) := by
  constructor
  · have hShort : s.Short := run.invariant Sys.Short.atBoot fun _ _ _ h _ hStep => h.step hStep
    have hKept := (run_timely run).living.kept
    obtain ⟨-, hBound⟩ := rest.bounded (m := fun s => s.work cfg + 15 * s.replies cfg) hKept
      fun _ _ _ hKept hOk hStep => hKept.lowers hOk hStep
    have hWork : s.work cfg ≤ _ := hShort.work_le
    have hReplies := s.replies_bound cfg
    omega
  · rintro hRun hFinished ⟨t, ht, hIdle⟩
    have hRun' := run.trans (rest.run.mono fun _ _ hOk => hOk.1)
    have hFits := (run_timely hRun').living.kept.owned.fits
    have hNet := hFinished.net hRun ht hIdle
    obtain ⟨hMain, -, hServer, hJobs⟩ :=
      rests_on_server cfg hSize s' hRun' hRun (hFinished.atRest hFits)
    have hFlight : s'.inFlight = ∅ := by
      refine Finset.eq_empty_of_forall_notMem fun r hr => ?_
      have hMem := hServer r hr
      rw [hNet] at hMem
      cases hMem
    have hStats : s'.pc .main = .stats := by
      refine hMain.resolve_right ?_
      rintro ⟨req, hMem, -⟩
      rw [hFlight] at hMem
      cases hMem
    refine ⟨hStats, hFlight, ?_⟩
    have hSent := hJobs hStats
    rw [hFlight, Finset.card_empty] at hSent
    exact hSent.symm

/-- With no call unanswered and main in its loop, the receive threads can do nothing
else. -/
theorem Sys.Finished.of_stats {cfg : Cfg} {s : Sys} (hNet : s.net = []) (hMain : s.pc .main = .stats)
    (hRecv : ∀ t < cfg.tdsMax, s.pc (.recv t) = .idle ∨ s.pc (.recv t) = .exited) :
    s.Finished cfg := by
  intro act s' hAnswers hStep
  obtain ⟨t, hAgent, hIdle⟩ := Sys.AtRest.of_stats hMain hRecv act s' hStep
  rw [← hAgent] at hIdle
  refine ⟨hIdle, ?_⟩
  cases hReply : act.input.reply with
  | none => rfl
  | some rep => simp [Answers, hIdle, hReply, hNet] at hAnswers

/-- The thread receives the reply to the only job after its time and ends it. -/
def lateSteps : List Act :=
  (Agent.recv 0).hears 11 RPC_SUCCESS [] ::
    List.replicate 8 ⟨.recv 0, { quietInput with now := 2000 }⟩

/-- The only job gets its reply when its time is over. -/
theorem jobs_end_lateSteps : ∃ s : Sys, s.pc (.recv 0) = .idle ∧ s.sent = 1 ∧
    s.pc .main = .stats ∧ s.inFlight = ∅ ∧ s.ended = s.sent := by
  obtain ⟨s, hRun, hLate⟩ : ∃ s, Run (step (oneThread .null 1)) (InTime (oneThread .null 1)) Sys.boot s ∧
      (exec (step (oneThread .null 1)) (InTimeDue (oneThread .null 1)) s lateSteps).any (fun s' =>
        decide (s'.halted = none ∧ s'.net = [] ∧ s'.pc .main = .stats ∧ s'.pc (.recv 0) = .idle ∧
          s'.sent = 1)) = true :=
    Run.of_exec_any sentSteps (by decide +kernel)
  obtain ⟨s', hRest, hHalted, hNet, hMain, hIdle, hSent⟩ := Steps.of_exec_any lateSteps hLate
  have hFinished : s'.Finished (oneThread .null 1) := by
    refine Sys.Finished.of_stats hNet hMain fun t ht => Or.inl ?_
    obtain rfl : t = 0 := Nat.lt_one_iff.mp ht
    exact hIdle
  obtain ⟨-, hEnd⟩ := jobs_end (oneThread .null 1) (by decide) s hRun _ s' hRest
  exact ⟨s', hIdle, hSent, hEnd hHalted hFinished ⟨0, Nat.zero_lt_one, hIdle⟩⟩

end Nct
