import Nct.Ownership
import Mathlib.Algebra.BigOperators.Group.Finset.Basic

/-! Where the jobs are that `mnt_jobs_cnt` counts. A job that main has counted
in is about to be started, in flight, or with a receive thread; else it has
ended or was refused. -/
namespace Nct

open Function (update)
open Transition (Run)

/-- A receive thread is at work on a job, until it has counted out one that has
ended. -/
def Pc.works (mnt : Mnt) : Pc → Bool
  | .taken req _ => (mnt.reqCb req).isSome
  | .testCb req => (mnt.reqCb req).isSome
  | .callback _ _ => true
  | .call .callback _ _ _ => true
  | .back .callback _ _ freed => freed
  | .returned _ freed => freed
  | _ => false

/-- Main has counted a job in and has yet to send its first request. -/
def Pc.opening : Pc → Nat
  | .alloc => 1
  | .call .start _ _ _ => 1
  | _ => 0

/-- Main is inside an iteration of its start loop. -/
def Pc.inBody : Pc → Nat
  | .alloc => 1
  | .call .start _ _ _ => 1
  | .check .start _ _ _ => 1
  | .back .start _ _ _ => 1
  | _ => 0

/-- How many jobs have their request in flight. -/
def Sys.flights (s : Sys) : Nat := ∑ req ∈ s.inFlight, (s.mnt.reqCb req).isSome.toNat

/-- How many receive threads are at work on a job. -/
def Sys.working (cfg : Cfg) (s : Sys) : Nat :=
  ∑ t ∈ Finset.range cfg.tdsMax, ((s.pc (.recv t)).works s.mnt).toNat

def Sys.live (cfg : Cfg) (s : Sys) : Nat := s.flights + s.working cfg

/-- A request has a callback when its callback runs, and once its start
function has set one. -/
def Pc.HasCb (mnt : Mnt) : Pc → Prop
  | .callback req _ => mnt.reqCb req ≠ none
  | .call .callback req _ _ => mnt.reqCb req ≠ none
  | .call .start req plan _ => mnt.reqCb req ≠ none ∨ ∃ job, .arm job ∈ plan.prep
  | _ => True

def HasCb (s : Sys) : Prop := ∀ a, (s.pc a).HasCb s.mnt

structure Accounted (cfg : Cfg) (s : Sys) : Prop where
  jobs : s.sent = s.ended + s.live cfg
  count : s.mnt.jobsCnt.toNat + s.ended =
    s.sent + s.refused + s.zeros + (s.pc .main).opening
  raised : s.sent + s.refused + (s.pc .main).opening = s.jobIdx + (s.pc .main).inBody
  bound : s.jobIdx + (s.pc .main).inBody ≤ cfg.jobsMax.toNat
  zeros : s.zeros ≤ s.ended

theorem sum_range_of_eq {f g : Nat → Nat} {n t : Nat} (ht : t < n) (h : ∀ u, u ≠ t → g u = f u) :
    ∑ u ∈ Finset.range n, g u + f t = ∑ u ∈ Finset.range n, f u + g t := by
  have hMem : t ∈ Finset.range n := Finset.mem_range.mpr ht
  have hg : g t + ∑ u ∈ (Finset.range n).erase t, g u = ∑ u ∈ Finset.range n, g u :=
    Finset.add_sum_erase _ g hMem
  have hf : f t + ∑ u ∈ (Finset.range n).erase t, f u = ∑ u ∈ Finset.range n, f u :=
    Finset.add_sum_erase _ f hMem
  have hRest : ∑ u ∈ (Finset.range n).erase t, g u = ∑ u ∈ (Finset.range n).erase t, f u :=
    Finset.sum_congr rfl fun u hu => h u (Finset.ne_of_mem_erase hu)
  omega

/-- One receive thread takes up or finishes work. -/
theorem Sys.working_recv {cfg : Cfg} {s s' : Sys} {t : Nat} (ht : t < cfg.tdsMax)
    (hOther : ∀ u, u ≠ t → (s'.pc (.recv u)).works s'.mnt = (s.pc (.recv u)).works s.mnt) :
    s'.working cfg + ((s.pc (.recv t)).works s.mnt).toNat =
      s.working cfg + ((s'.pc (.recv t)).works s'.mnt).toNat :=
  sum_range_of_eq ht fun u hu => congrArg Bool.toNat (hOther u hu)

/-- The threads work for the jobs that they worked for. -/
theorem Sys.working_same {cfg : Cfg} {s s' : Sys}
    (h : ∀ t, (s'.pc (.recv t)).works s'.mnt = (s.pc (.recv t)).works s.mnt) :
    s'.working cfg = s.working cfg :=
  Finset.sum_congr rfl fun t _ => by rw [h t]

/-- One thread at work is one of them. -/
theorem Sys.works_le_working {cfg : Cfg} {s : Sys} {t : Nat} (ht : t < cfg.tdsMax) :
    ((s.pc (.recv t)).works s.mnt).toNat ≤ s.working cfg :=
  Nat.le.intro (Finset.add_sum_erase _ (fun u => ((s.pc (.recv u)).works s.mnt).toNat)
    (Finset.mem_range.mpr ht))

/-- Whether a thread is at work depends on the callback of the request it has
taken up, if any. -/
theorem Pc.works_congr {mnt mnt' : Mnt} {pc : Pc}
    (h : ∀ req, pc.taking = some req ∨ pc.testing = some req →
      (mnt'.reqCb req).isSome = (mnt.reqCb req).isSome) : pc.works mnt' = pc.works mnt := by
  cases pc with
  | taken req rep => exact h req (Or.inl rfl)
  | testCb req => exact h req (Or.inr rfl)
  | call fn req plan l => cases fn <;> rfl
  | back fn req ret freed => cases fn <;> rfl
  | _ => rfl

/-- A request in the hands of another thread keeps its callback. -/
theorem HasCb.frame {s s' : Sys} {a : Agent} (h : HasCb s) (hOther : ∀ b, b ≠ a → s'.pc b = s.pc b)
    (hNew : (s'.pc a).HasCb s'.mnt)
    (hCb : ∀ b r, b ≠ a → (s.pc b).holds s.mnt r → s.mnt.reqCb r ≠ none → s'.mnt.reqCb r ≠ none) :
    HasCb s' := by
  refine Sys.forall_pc hOther hNew fun b hb => ?_
  have hOld := h b
  have hKept := fun r => hCb b r hb
  cases hPc : s.pc b with
  | callback req job =>
      rw [hPc] at hOld hKept
      exact hKept req rfl hOld
  | call fn req plan l =>
      rw [hPc] at hOld hKept
      cases fn with
      | callback => exact hKept req rfl hOld
      | start => exact hOld.imp (hKept req rfl) id
      | _ => trivial
  | _ => trivial

/-- The operations of a plan set callbacks and clear none. -/
theorem prepare_cb {cfg : Cfg} {s s' : Sys} {req : ReqId} {l l' : Local} {now : UInt64} {p : Prep}
    (h : s.prepare cfg req l now p = some (s', l')) :
    (∀ r, s.mnt.reqCb r ≠ none → s'.mnt.reqCb r ≠ none) ∧
      ∀ job, p = .arm job → s'.mnt.reqCb req ≠ none := by
  by_cases hArm : ∃ job, p = .arm job
  · obtain ⟨job, rfl⟩ := hArm
    cases h
    refine ⟨fun r hr => ?_, fun _ _ => by simp⟩
    by_cases hReq : r = req
    · simp [hReq]
    · simpa [Function.update_of_ne hReq] using hr
  · have hSame := (prepare_same h fun job hp => hArm ⟨job, hp⟩).cb
    exact ⟨fun r hr => by rwa [hSame], fun job hp => absurd ⟨job, hp⟩ hArm⟩

/-- A request that a thread holds keeps its callback when another one is popped. -/
theorem Owned.cb_popReq {s : Sys} {req r : ReqId} {b : Agent} (h : Owned s)
    (hHead : s.mnt.reqHead = some req) (hHeld : (s.pc b).holds s.mnt r) :
    (popReq s.mnt req).reqCb r = s.mnt.reqCb r := by
  obtain ⟨-, -, hPool, -⟩ := h.pop_chain hHead
  have hr : r ≠ req := by
    rintro rfl
    exact Place.noConfusion (h.held_ne (p := .pool) hHeld hPool)
  exact Function.update_of_ne hr _ _

/-- Whoever is to run a callback finds one. -/
theorem HasCb.step {cfg : Cfg} {s s' : Sys} {act : Act} (h : HasCb s) (hOwned : Owned s)
    (hStep : Nct.step cfg s act = some s') : HasCb s' := by
  obtain ⟨hCase, -⟩ := step_cases hStep
  have hOther := fun b (hb : b ≠ act.agent) => step_pc_other hCase hb
  generalize hAgent : act.agent = a at hCase hOther
  cases hCase with
  | boot hPc hHead | mount hPc hHead =>
      refine h.frame hOther (by simp [Pc.HasCb]) fun b r _ hHeld hCb => ?_
      have hKept := hOwned.cb_popReq hHead hHeld
      exact fun hNone => hCb (hKept.symm.trans hNone)
  | alloc hPc hHead =>
      refine h.frame hOther ?_ fun b r _ hHeld hCb => ?_
      · rw [Sys.goto_pc_self]
        refine Or.inr ⟨cfg.job, ?_⟩
        cases cfg.job <;> simp [Job.start, testNullStart, testGetattrStart, testReadStart]
      · have hKept := hOwned.cb_popReq hHead hHeld
        exact fun hNone => hCb (hKept.symm.trans hNone)
  | cb hPc hCb => exact h.frame hOther (by simp [Pc.HasCb, hCb]) fun _ _ _ _ hKept => hKept
  | @callback t req job hPc =>
      have hOld : (s.pc (.recv t)).HasCb s.mnt := h (.recv t)
      rw [hPc] at hOld
      exact h.frame hOther (by rw [Sys.goto_pc_self]; exact hOld) fun _ _ _ _ hKept => hKept
  | @prepare _ fn req plan l l' p prep s'' hPc hPrep hDo =>
      obtain ⟨hKept, hArm⟩ := prepare_cb hDo
      have hOld := h a
      rw [hPc] at hOld
      refine h.frame hOther ?_ fun _ r _ _ hCb => hKept r hCb
      rw [Sys.goto_pc_self]
      cases fn with
      | callback => exact hKept req hOld
      | start =>
          rcases hOld with hCb | ⟨job, hMem⟩
          · exact Or.inl (hKept req hCb)
          · rw [hPrep] at hMem
            rcases List.mem_cons.mp hMem with hp | hMem
            · exact Or.inl (hArm job hp.symm)
            · exact Or.inr ⟨job, hMem⟩
      | _ => trivial
  | settle hPc =>
      refine h.frame hOther ?_ fun _ r _ _ hCb => ?_
      · rw [Sys.goto_pc_self]
        split <;> trivial
      · rwa [Sys.goto_mnt, (settle_same _ _ _).cb]
  | cantDecode | nullSlot | xidMismatch | mountFailed | sendCheck =>
      exact h.frame hOther (h _) fun _ _ _ _ hKept => hKept
  | _ => exact h.frame hOther (by simp [Pc.HasCb]) fun _ _ _ _ hKept => hKept

/-- The request counts with its callback: in flight, or with a receive thread
that has not tested it yet. -/
def Sys.Watched (s : Sys) (req : ReqId) : Prop :=
  req ∈ s.inFlight ∨
    ∃ t, (s.pc (.recv t)).taking = some req ∨ (s.pc (.recv t)).testing = some req

/-- The jobs in flight are those of before. -/
theorem Sys.flights_same {s s' : Sys} (hFlight : s'.inFlight = s.inFlight)
    (hCb : ∀ r, s.Watched r → (s'.mnt.reqCb r).isSome = (s.mnt.reqCb r).isSome) :
    s'.flights = s.flights := by
  rw [Sys.flights, hFlight]
  exact Finset.sum_congr rfl fun r hr => by rw [hCb r (Or.inl hr)]

/-- The other threads' work does not change. -/
theorem Sys.works_other {s s' : Sys} {a : Agent} (hOther : ∀ b, b ≠ a → s'.pc b = s.pc b)
    (hCb : ∀ r, s.Watched r → (s'.mnt.reqCb r).isSome = (s.mnt.reqCb r).isSome) (t : Nat)
    (ht : Agent.recv t ≠ a) :
    (s'.pc (.recv t)).works s'.mnt = (s.pc (.recv t)).works s.mnt := by
  rw [hOther _ ht]
  exact Pc.works_congr fun r hr => hCb r (Or.inr ⟨t, hr⟩)

/-- A step does not touch the counters and the history that the accounts rest on. -/
structure Sys.SameCounts (s s' : Sys) : Prop where
  jobsCnt : s'.mnt.jobsCnt = s.mnt.jobsCnt
  jobIdx : s'.jobIdx = s.jobIdx
  sent : s'.sent = s.sent
  ended : s'.ended = s.ended
  refused : s'.refused = s.refused
  zeros : s'.zeros = s.zeros

theorem Sys.SameCounts.goto {s s' : Sys} (h : s.SameCounts s') (a : Agent) (pc : Pc) :
    s.SameCounts (s'.goto a pc) :=
  ⟨h.jobsCnt, h.jobIdx, h.sent, h.ended, h.refused, h.zeros⟩

/-- What a thread does for the jobs is the same in two places. -/
def Pc.SameRole (mnt mnt' : Mnt) (old new : Pc) : Prop :=
  new.works mnt' = old.works mnt ∧ new.opening = old.opening ∧ new.inBody = old.inBody

/-- The counts stay as they are when a thread goes on in its role. -/
theorem Accounted.frame {cfg : Cfg} {s s' : Sys} {a : Agent} (h : Accounted cfg s)
    (hOther : ∀ b, b ≠ a → s'.pc b = s.pc b) (hSame : s.SameCounts s')
    (hRole : Pc.SameRole s.mnt s'.mnt (s.pc a) (s'.pc a)) (hFlight : s'.inFlight = s.inFlight)
    (hCb : ∀ r, s.Watched r → (s'.mnt.reqCb r).isSome = (s.mnt.reqCb r).isSome) :
    Accounted cfg s' := by
  obtain ⟨hWorks, hOpening, hInBody⟩ := hRole
  have hWorking : s'.working cfg = s.working cfg := by
    apply Sys.working_same
    intro t
    by_cases ht : Agent.recv t = a
    · rw [ht, hWorks]
    · exact Sys.works_other hOther hCb t ht
  have hLive : s'.live cfg = s.live cfg := by
    rw [Sys.live, Sys.live, hWorking, Sys.flights_same hFlight hCb]
  obtain ⟨hMainOpening, hMainInBody⟩ : (s'.pc .main).opening = (s.pc .main).opening ∧
      (s'.pc .main).inBody = (s.pc .main).inBody := by
    by_cases ha : Agent.main = a
    · rw [ha]
      exact ⟨hOpening, hInBody⟩
    · rw [hOther _ ha]
      exact ⟨rfl, rfl⟩
  constructor
  · rw [hSame.sent, hSame.ended, hLive]
    exact h.jobs
  · rw [hSame.jobsCnt, hSame.ended, hSame.sent, hSame.refused, hSame.zeros, hMainOpening]
    exact h.count
  · rw [hSame.sent, hSame.refused, hSame.jobIdx, hMainOpening, hMainInBody]
    exact h.raised
  · rw [hSame.jobIdx, hMainInBody]
    exact h.bound
  · rw [hSame.zeros, hSame.ended]
    exact h.zeros

/-- Popping a request changes no callback that counts. -/
theorem Owned.cb_watched {s : Sys} {req r : ReqId} (h : Owned s) (hHead : s.mnt.reqHead = some req)
    (hr : s.Watched r) : ((popReq s.mnt req).reqCb r).isSome = (s.mnt.reqCb r).isSome := by
  obtain ⟨-, -, hPool, -⟩ := h.pop_chain hHead
  rcases hr with hMem | ⟨t, ht | ht⟩
  · have hne : r ≠ req := by
      rintro rfl
      exact Place.noConfusion (h.exclusive .pool .flight r hPool hMem)
    exact congrArg Option.isSome (Function.update_of_ne hne _ _)
  · exact congrArg Option.isSome (h.cb_popReq hHead (Pc.holds_of_taking ht))
  · by_cases hCb : s.mnt.reqCb r = none
    · by_cases hne : r = req
      · subst hne
        rw [hCb, show (popReq s.mnt r).reqCb r = none from Function.update_self _ _ _]
      · exact congrArg Option.isSome (Function.update_of_ne hne _ _)
    · rw [Pc.testing_eq] at ht
      have hHeld : (s.pc (.recv t)).holds s.mnt r := by simp [ht, Pc.holds, hCb]
      exact congrArg Option.isSome (h.cb_popReq hHead hHeld)

/-- A start function sets no callback that counts already. -/
theorem Owned.cb_armed {s : Sys} {req r : ReqId} {plan : Plan} {l : Local} {job : Job}
    (h : Owned s) (hPc : s.pc .main = .call .start req plan l)
    (hFresh : ∀ b, (s.pc b).testing ≠ some req) (hr : s.Watched r) :
    update s.mnt.reqCb req (some job) r = s.mnt.reqCb r := by
  have hHeld : (s.pc .main).holds s.mnt req := by simp [hPc, Pc.holds]
  refine Function.update_of_ne ?_ _ _
  rintro rfl
  rcases hr with hMem | ⟨t, ht | ht⟩
  · exact Place.noConfusion (h.held_ne (p := .flight) hHeld hMem)
  · cases h.held_ne (p := .held (.recv t)) hHeld (Pc.holds_of_taking ht)
  · exact hFresh _ ht

/-- The parts of a step that a receive thread's work on a job takes. -/
theorem Sys.working_step {cfg : Cfg} {s s' : Sys} {t : Nat} (ht : t < cfg.tdsMax)
    (hOther : ∀ b, b ≠ .recv t → s'.pc b = s.pc b) (hCb : s'.mnt.reqCb = s.mnt.reqCb) :
    s'.working cfg + ((s.pc (.recv t)).works s.mnt).toNat =
      s.working cfg + ((s'.pc (.recv t)).works s'.mnt).toNat :=
  Sys.working_recv ht fun u hu =>
    Sys.works_other hOther (fun r _ => by rw [hCb]) u (by simpa using hu)

/-- What main does leaves the receive threads at their work. -/
theorem Sys.working_main {cfg : Cfg} {s s' : Sys} (hOther : ∀ b, b ≠ .main → s'.pc b = s.pc b)
    (hCb : s'.mnt.reqCb = s.mnt.reqCb) : s'.working cfg = s.working cfg :=
  Sys.working_same fun t => Sys.works_other hOther (fun r _ => by rw [hCb]) t (by simp)

section
variable {cfg : Cfg} {s s' : Sys} (h : Accounted cfg s) (hOwned : Owned s)

include h

/-- A job in flight becomes a job at work. -/
theorem Accounted.take {t : Nat} {rep : Reply} {req : ReqId} {now : UInt64} (ht : t < cfg.tdsMax)
    (hPc : s.pc (.recv t) = .got rep) (hMem : req ∈ s.inFlight) :
    Accounted cfg ((s.take req rep now).goto (.recv t) (.taken req rep)) := by
  let s' := (s.take req rep now).goto (.recv t) (.taken req rep)
  have hOther : ∀ b, b ≠ .recv t → s'.pc b = s.pc b := fun b hb => Sys.goto_pc_of_ne _ _ hb
  have hHere : s'.pc (.recv t) = .taken req rep := Sys.goto_pc_self _ _ _
  have hMain : s'.pc .main = s.pc .main := hOther _ (by simp)
  have hWorking : s'.working cfg = s.working cfg + (s.mnt.reqCb req).isSome.toNat := by
    have hStep := Sys.working_step ht hOther rfl
    rwa [hPc, hHere] at hStep
  have hFlights : s'.flights + (s.mnt.reqCb req).isSome.toNat = s.flights :=
    Finset.sum_erase_add s.inFlight (fun r => (s.mnt.reqCb r).isSome.toNat) hMem
  have hLive : s'.live cfg = s.live cfg := by
    simp only [Sys.live]
    omega
  exact ⟨hLive ▸ h.jobs, hMain ▸ h.count, hMain ▸ h.raised, hMain ▸ h.bound, h.zeros⟩

/-- A job whose callback freed its request has ended, and is counted out
unless the callback returned zero. -/
theorem Accounted.settle {t : Nat} {rc : UInt32} {freed : Bool} {pc : Pc} (ht : t < cfg.tdsMax)
    (hPc : s.pc (.recv t) = .returned rc freed) (hFreed : freed = false → rc = 0)
    (hPcNew : pc = .shut ∨ pc = .idle) :
    Accounted cfg ((s.settle rc freed).goto (.recv t) pc) := by
  let s' := (s.settle rc freed).goto (.recv t) pc
  have hOther : ∀ b, b ≠ .recv t → s'.pc b = s.pc b := fun b hb =>
    (Sys.goto_pc_of_ne _ _ hb).trans (congrFun (settle_same s rc freed).pc b)
  have hHere : s'.pc (.recv t) = pc := Sys.goto_pc_self _ _ _
  have hMain : s'.pc .main = s.pc .main := hOther _ (by simp)
  have hWorking : s'.working cfg + freed.toNat = s.working cfg := by
    have hStep := Sys.working_step ht hOther (settle_same s rc freed).cb
    rw [hPc, hHere] at hStep
    rcases hPcNew with rfl | rfl <;> exact hStep
  have hFlights : s'.flights = s.flights :=
    Sys.flights_same (settle_same s rc freed).inFlight fun r _ => by
      rw [show s'.mnt.reqCb = s.mnt.reqCb from (settle_same s rc freed).cb]
  have hEnded : s'.ended = s.ended + freed.toNat := by cases freed <;> rfl
  obtain ⟨hJobs, hCount, hRaised, hBound, hZeros⟩ := h
  have hJobsNew : s.sent = s'.ended + s'.live cfg := by
    simp only [Sys.live] at hJobs ⊢
    omega
  by_cases hRc : rc = 0
  · have hCnt : s'.mnt.jobsCnt = s.mnt.jobsCnt := by simp [s', Sys.settle, hRc]
    have hZerosNew : s'.zeros = s.zeros + freed.toNat := by
      cases freed <;> simp [s', Sys.goto, Sys.settle, hRc]
    refine ⟨hJobsNew, ?_, hMain ▸ hRaised, hMain ▸ hBound, ?_⟩
    · rw [hCnt, hEnded, hZerosNew, hMain]
      change s.mnt.jobsCnt.toNat + (s.ended + freed.toNat) = s.sent + s.refused + _ + _
      omega
    · rw [hZerosNew, hEnded]
      omega
  · obtain rfl : freed = true := by
      by_contra hNot
      exact hRc (hFreed (by simpa using hNot))
    have hZerosNew : s'.zeros = s.zeros := by simp [s', Sys.goto, Sys.settle, hRc]
    -- this job is still counted
    have hPos : 1 ≤ s.mnt.jobsCnt.toNat := by
      simp only [Sys.live] at hJobs
      simp only [Bool.toNat_true] at hWorking
      omega
    have hCnt : s'.mnt.jobsCnt.toNat = s.mnt.jobsCnt.toNat - 1 := by
      have hSub : s'.mnt.jobsCnt = s.mnt.jobsCnt - 1 := by simp [s', Sys.settle, hRc]
      rw [hSub, UInt32.toNat_sub_of_le _ _ (UInt32.le_iff_toNat_le.mpr (by simpa using hPos))]
      rfl
    refine ⟨hJobsNew, ?_, hMain ▸ hRaised, hMain ▸ hBound, ?_⟩
    · rw [hCnt, hEnded, hZerosNew, hMain]
      change s.mnt.jobsCnt.toNat - 1 + (s.ended + 1) = s.sent + s.refused + _ + _
      omega
    · rw [hZerosNew, hEnded]
      omega

/-- Main's counter has room for another job. -/
theorem Accounted.raise (hPc : s.pc .main = .raise) (hMore : s.jobIdx < cfg.jobsMax.toNat) :
    Accounted cfg ({ s with mnt := { s.mnt with jobsCnt := s.mnt.jobsCnt + 1 } }.goto .main
      .alloc) := by
  let s' := { s with mnt := { s.mnt with jobsCnt := s.mnt.jobsCnt + 1 } }.goto .main .alloc
  have hHere : s'.pc .main = .alloc := Sys.goto_pc_self _ _ _
  have hLive : s'.live cfg = s.live cfg :=
    congrArg (s.flights + ·) (Sys.working_main (fun b hb => Sys.goto_pc_of_ne _ _ hb) rfl)
  obtain ⟨hJobs, hCount, hRaised, hBound, hZeros⟩ := h
  rw [hPc] at hCount hRaised
  simp only [Pc.opening, Pc.inBody, Nat.add_zero] at hCount hRaised
  have hMax : cfg.jobsMax.toNat < 2 ^ 32 := cfg.jobsMax.toNat_lt
  have hCnt : s'.mnt.jobsCnt.toNat = s.mnt.jobsCnt.toNat + 1 := by
    change (s.mnt.jobsCnt + 1).toNat = s.mnt.jobsCnt.toNat + 1
    rw [UInt32.toNat_add, UInt32.toNat_one]
    omega
  refine ⟨hLive ▸ hJobs, ?_, ?_, ?_, hZeros⟩
  · rw [hCnt, hHere]
    change s.mnt.jobsCnt.toNat + 1 + s.ended = s.sent + s.refused + s.zeros + 1
    omega
  · rw [hHere]
    change s.sent + s.refused + 1 = s.jobIdx + 1
    omega
  · rw [hHere]
    exact hMore

/-- Main goes on to the next job. -/
theorem Accounted.started {req : ReqId} {ret : Ret} {freed : Bool}
    (hPc : s.pc .main = .back .start req ret freed) :
    Accounted cfg ({ s with jobIdx := s.jobIdx + 1 }.goto .main .raise) := by
  let s' := { s with jobIdx := s.jobIdx + 1 }.goto .main .raise
  have hHere : s'.pc .main = .raise := Sys.goto_pc_self _ _ _
  have hLive : s'.live cfg = s.live cfg :=
    congrArg (s.flights + ·) (Sys.working_main (fun b hb => Sys.goto_pc_of_ne _ _ hb) rfl)
  obtain ⟨hJobs, hCount, hRaised, hBound, hZeros⟩ := h
  rw [hPc] at hCount hRaised hBound
  exact ⟨hLive ▸ hJobs, hHere ▸ hCount, hHere ▸ hRaised, hHere ▸ hBound, hZeros⟩

/-- A start function returns EINVAL. -/
theorem Accounted.refuse {a : Agent} {fn : Fn} {req : ReqId} {plan : Plan} {l : Local}
    {prep : List Prep} (hOwned : Owned s) (hPc : s.pc a = .call fn req plan l)
    (hPrep : plan.prep = .refuse :: prep) :
    Accounted cfg
      ({ s with refused := s.refused + 1 }.goto a (.back fn req (.value EINVAL) false)) := by
  have hFits : a.Fits (.call fn req plan l) := hPc ▸ hOwned.fits a
  obtain ⟨rfl, rfl, -⟩ := hFits.start_of_op hPrep (Or.inl rfl)
  let s' := { s with refused := s.refused + 1 }.goto .main (.back .start req (.value EINVAL) false)
  have hHere : s'.pc .main = .back .start req (.value EINVAL) false := Sys.goto_pc_self _ _ _
  have hLive : s'.live cfg = s.live cfg :=
    congrArg (s.flights + ·) (Sys.working_main (fun b hb => Sys.goto_pc_of_ne _ _ hb) rfl)
  obtain ⟨hJobs, hCount, hRaised, hBound, hZeros⟩ := h
  rw [hPc] at hCount hRaised hBound
  simp only [Pc.opening, Pc.inBody] at hCount hRaised
  refine ⟨hLive ▸ hJobs, ?_, ?_, hHere ▸ hBound, hZeros⟩
  · rw [hHere]
    change s.mnt.jobsCnt.toNat + s.ended = s.sent + (s.refused + 1) + s.zeros + 0
    omega
  · rw [hHere]
    change s.sent + (s.refused + 1) + 0 = s.jobIdx + 1
    omega

/-- A thread sends the request it holds. A job that main starts is now in
flight, and one that goes on is again. -/
theorem Accounted.send {a : Agent} {fn : Fn} {req : ReqId} {plan : Plan} {l : Local}
    {complete : Bool} {cc : Option Nat} (hOwned : Owned s) (hHasCb : HasCb s)
    (hTd : ∀ t, a = .recv t → t < cfg.tdsMax) (hPc : s.pc a = .call fn req plan l)
    (hPrep : plan.prep = []) (hGive : plan.give = .send) :
    Accounted cfg ((s.send fn req complete).goto a (.check fn req plan.ret cc)) := by
  let s' := (s.send fn req complete).goto a (.check fn req plan.ret cc)
  have hOther : ∀ b, b ≠ a → s'.pc b = s.pc b := fun b hb => Sys.goto_pc_of_ne _ _ hb
  have hHere : s'.pc a = .check fn req plan.ret cc := Sys.goto_pc_self _ _ _
  have hHeld : (s.pc a).holds s.mnt req := by simp [hPc, Pc.holds]
  have hFits : a.Fits (.call fn req plan l) := hPc ▸ hOwned.fits a
  have hCall : Pc.HasCb s.mnt (.call fn req plan l) := hPc ▸ hHasCb a
  have hNotFlight : req ∉ s.inFlight := fun hMem =>
    Place.noConfusion (hOwned.held_ne (p := .flight) hHeld hMem)
  have hFlights : s'.flights = (s.mnt.reqCb req).isSome.toNat + s.flights :=
    Finset.sum_insert hNotFlight
  obtain ⟨hJobs, hCount, hRaised, hBound, hZeros⟩ := h
  simp only [Sys.live] at hJobs
  cases a with
  | recv t =>
      obtain rfl : fn = .callback := hFits.1
      have hMain : s'.pc .main = s.pc .main := hOther _ (by simp)
      have hCb : (s.mnt.reqCb req).isSome = true := Option.isSome_iff_ne_none.mpr hCall
      have hWorking : s'.working cfg + 1 = s.working cfg := by
        have hStep := Sys.working_step (hTd t rfl) hOther rfl
        rwa [hPc, hHere] at hStep
      refine ⟨?_, hMain ▸ hCount, hMain ▸ hRaised, hMain ▸ hBound, hZeros⟩
      change s.sent = s.ended + s'.live cfg
      simp only [hCb, Bool.toNat_true] at hFlights
      simp only [Sys.live]
      omega
  | main =>
      have hWorking : s'.working cfg = s.working cfg := Sys.working_main hOther rfl
      rcases hFits with ⟨rfl, -⟩ | ⟨-, rfl⟩ | ⟨rfl, -⟩
      · have hCb : s.mnt.reqCb req = none := hOwned.mountCb req (by simp [hPc, Pc.mounting])
        rw [hPc] at hCount hRaised hBound
        refine ⟨?_, hHere ▸ hCount, hHere ▸ hRaised, hHere ▸ hBound, hZeros⟩
        change s.sent = s.ended + s'.live cfg
        simp only [hCb, Option.isSome_none, Bool.toNat_false] at hFlights
        simp only [Sys.live]
        omega
      · cases hGive
      · have hCb : (s.mnt.reqCb req).isSome = true := by
          refine Option.isSome_iff_ne_none.mpr (hCall.resolve_right ?_)
          simp [hPrep]
        rw [hPc] at hCount hRaised hBound
        refine ⟨?_, ?_, ?_, hHere ▸ hBound, hZeros⟩
        · change s.sent + 1 = s.ended + s'.live cfg
          simp only [hCb, Bool.toNat_true] at hFlights
          simp only [Sys.live]
          omega
        · rw [hHere]
          change s.mnt.jobsCnt.toNat + s.ended = s.sent + 1 + s.refused + s.zeros + 0
          simp only [Pc.opening] at hCount
          omega
        · rw [hHere]
          change s.sent + 1 + s.refused + 0 = s.jobIdx + 1
          simp only [Pc.opening, Pc.inBody] at hRaised
          omega

end

/-- An operation of a plan changes no counter and no request in flight. -/
theorem prepare_counts {cfg : Cfg} {s s' : Sys} {req : ReqId} {l l' : Local} {now : UInt64} {p : Prep}
    (h : s.prepare cfg req l now p = some (s', l')) :
    s.SameCounts s' ∧ s'.inFlight = s.inFlight := by
  rcases prepare_cases h with ⟨_, -, rfl⟩ | ⟨-, rfl⟩ | ⟨_, -, rfl⟩ | ⟨_, rfl⟩
  all_goals exact ⟨by constructor <;> rfl, rfl⟩

/-- Every step keeps the accounts straight. -/
theorem Accounted.step {cfg : Cfg} {s s' : Sys} {act : Act} (h : Accounted cfg s) (hOwned : Owned s)
    (hHasCb : HasCb s) (hWithin : s.Within cfg) (hOk : NoStaleTest cfg s act)
    (hStep : Nct.step cfg s act = some s') : Accounted cfg s' := by
  obtain ⟨hCase, hTd⟩ := step_cases hStep
  have hOther := fun b (hb : b ≠ act.agent) => step_pc_other hCase hb
  generalize hAgent : act.agent = a at hCase hOther hTd
  cases hCase with
  | boot hPc hHead =>
      refine h.frame hOther (by constructor <;> rfl) ?_ rfl fun r hr => hOwned.cb_watched hHead hr
      rw [hPc, Sys.goto_pc_self]
      exact ⟨rfl, rfl, rfl⟩
  | mount hPc hHead | alloc hPc hHead =>
      refine h.frame hOther (by constructor <;> rfl) ?_ rfl fun r hr => hOwned.cb_watched hHead hr
      rw [hPc, Sys.goto_pc_self]
      exact ⟨rfl, rfl, rfl⟩
  | take hPc hSlot hXid => exact h.take (hTd _ rfl) hPc (hOwned.table _ _ hSlot).1
  | @settle t rc freed hPc =>
      have hFits := hOwned.fits (.recv t)
      rw [hPc] at hFits
      apply h.settle (hTd _ rfl) hPc hFits
      split
      · exact Or.inl rfl
      · exact Or.inr rfl
  | raise hPc hMore => exact h.raise hPc hMore
  | started hPc => exact h.started hPc
  | @prepare _ fn req plan l l' p prep s'' hPc hPrep hDo =>
      obtain ⟨hSame, hFlight⟩ := prepare_counts hDo
      have hFits : a.Fits (.call fn req plan l) := hPc ▸ hOwned.fits a
      refine h.frame hOther (hSame.goto _ _) ?_ hFlight
        fun r hr => ?_
      · rw [hPc, Sys.goto_pc_self]
        cases fn <;> exact ⟨rfl, rfl, rfl⟩
      · by_cases hArm : ∃ job, p = .arm job
        · obtain ⟨job, rfl⟩ := hArm
          obtain ⟨rfl, rfl, -⟩ := hFits.start_of_op hPrep (Or.inr ⟨job, rfl⟩)
          cases hDo
          have hFresh := hOk.not_testing hOwned.fits hWithin hAgent hPc hPrep
          exact congrArg Option.isSome (hOwned.cb_armed hPc hFresh hr)
        · have hCb := (prepare_same hDo fun job hp => hArm ⟨job, hp⟩).cb
          rw [Sys.goto_mnt, hCb]
  | refuse hPc hPrep hPast => exact h.refuse hOwned hPc hPrep
  | send hPc hPrep hGive => exact h.send hOwned hHasCb hTd hPc hPrep hGive
  | cantDecode | nullSlot | xidMismatch | mountFailed | sendCheck =>
      exact h.frame hOther (by constructor <;> rfl) ⟨rfl, rfl, rfl⟩ rfl fun _ _ => rfl
  | exchange hPc =>
      refine h.frame hOther (by constructor <;> rfl) ?_ rfl fun _ _ => rfl
      rw [hPc, Sys.goto_pc_self]
      exact ⟨rfl, rfl, rfl⟩
  | @free _ fn req plan l hPc hPrep hGive =>
      have hFits : a.Fits (.call fn req plan l) := hPc ▸ hOwned.fits a
      refine h.frame hOther (by constructor <;> rfl) ?_ rfl fun _ _ => rfl
      rw [hPc, Sys.goto_pc_self]
      rcases hFits.of_free hGive with rfl | rfl <;> exact ⟨rfl, rfl, rfl⟩
  | @checked _ fn req ret cc hPc hCheck =>
      refine h.frame hOther (by constructor <;> rfl) ?_ rfl fun _ _ => rfl
      rw [hPc, Sys.goto_pc_self]
      cases fn <;> exact ⟨rfl, rfl, rfl⟩
  | _ =>
      refine h.frame hOther (by constructor <;> rfl) ?_ rfl fun _ _ => rfl
      rw [Sys.goto_pc_self]
      simp [Pc.SameRole, Pc.works, Pc.opening, Pc.inBody, *]

end Nct
