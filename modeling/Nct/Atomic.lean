import Nct.Progress

/-! The running program with its accesses to the table one by one, when every call
is answered once and in time. Then no two threads are with the same slot, and each
reply is taken up as if in one step. -/
namespace Nct

open Function (update)
open Transition (Run)

/-- What a step that does not take up a reply does to a table. -/
def Act.tbl (s : Sys) (act : Act) (tbl : Nat → Option ReqId) : Nat → Option ReqId :=
  match s.pc act.agent with
  | .call _ req ⟨[], .send, _⟩ _ => update tbl (slot s.mnt.sendXid) (some req)
  | _ => tbl

@[simp] theorem Sys.withTbl_pc (s : Sys) (tbl : Nat → Option ReqId) : (s.withTbl tbl).pc = s.pc := rfl

/-- The operations of a plan do not look at the table. -/
theorem prepare_withTbl (cfg : Cfg) (s : Sys) (tbl : Nat → Option ReqId) (req : ReqId) (l : Local)
    (now : UInt64) (p : Prep) :
    (s.withTbl tbl).prepare cfg req l now p =
      (s.prepare cfg req l now p).map fun (s', l') => (s'.withTbl tbl, l') := by
  have hPast : (s.withTbl tbl).pastEnd cfg l.offset = s.pastEnd cfg l.offset := rfl
  cases p with
  | refuse | fetchSub =>
      simp only [Sys.prepare, hPast]
      split <;> rfl
  | _ => rfl

/-- Within a plan only a send writes to it. -/
theorem callStep_withTbl (cfg : Cfg) (s : Sys) (tbl : Nat → Option ReqId) (act : Act) :
    callStep cfg (s.withTbl tbl) act.agent act.input (s.pc act.agent) =
      (callStep cfg s act.agent act.input (s.pc act.agent)).map fun s' => s'.withTbl (act.tbl s tbl) := by
  unfold Act.tbl
  cases hPc : s.pc act.agent with
  | call fn req plan l =>
      obtain ⟨_ | ⟨p, prep⟩, give, ret⟩ := plan
      · cases give <;> rfl
      · simp only [callStep, prepare_withTbl]
        cases s.prepare cfg req l act.input.now p <;> rfl
  | check fn req ret cc =>
      simp only [callStep]
      change (if cc ≠ some (s.mnt.msgLen (s.mnt.reqMsg req)) then _ else _) = _
      split <;> rfl
  | _ => rfl

/-- Main itself does not look at it either. -/
theorem mainStep_withTbl (cfg : Cfg) (s : Sys) (tbl : Nat → Option ReqId) (input : Input) :
    mainStep cfg (s.withTbl tbl) input =
      (mainStep cfg s input).map fun s' => s'.withTbl ((⟨.main, input⟩ : Act).tbl s tbl) := by
  have hCall := callStep_withTbl cfg s tbl ⟨.main, input⟩
  have hMnt : (s.withTbl tbl).mnt = { s.mnt with reqTbl := tbl } := rfl
  cases hPc : s.pc .main with
  | mount | alloc =>
      simp only [mainStep, Sys.withTbl_pc, Act.tbl, hPc, reqAlloc, hMnt]
      cases s.mnt.reqHead <;> rfl
  | call | check =>
      simp only [hPc] at hCall
      simpa only [mainStep, Sys.withTbl_pc, hPc] using hCall
  | back fn req ret freed =>
      cases fn <;> simp only [mainStep, Sys.withTbl_pc, Act.tbl, hPc] <;> rfl
  | wait req =>
      simp only [mainStep, Sys.withTbl_pc, Act.tbl, hPc, hMnt]
      split <;> rfl
  | decode req =>
      simp only [mainStep, Sys.withTbl_pc, Act.tbl, hPc, hMnt]
      split
      · rfl
      · split <;> rfl
  | raise =>
      simp only [mainStep, Sys.withTbl_pc, Act.tbl, hPc]
      change (if s.jobIdx < _ then _ else _) = _
      split <;> rfl
  | _ =>
      simp only [mainStep, Sys.withTbl_pc, Act.tbl, hPc]
      rfl

/-- Nor does a receive thread that does not take up a reply. -/
theorem recvStep_withTbl (cfg : Cfg) (s : Sys) (t : Nat) (tbl : Nat → Option ReqId) (input : Input)
    (hNot : (⟨.recv t, input⟩ : Act).TakesUp s = false) :
    recvStep cfg (s.withTbl tbl) t input =
      (recvStep cfg s t input).map fun s' => s'.withTbl ((⟨.recv t, input⟩ : Act).tbl s tbl) := by
  have hCall := callStep_withTbl cfg s tbl ⟨.recv t, input⟩
  have hMnt : (s.withTbl tbl).mnt = { s.mnt with reqTbl := tbl } := rfl
  cases hPc : s.pc (.recv t) with
  | got rep => simp [Act.TakesUp, hPc] at hNot
  | boot =>
      simp only [recvStep, Sys.withTbl_pc, Act.tbl, hPc, reqAlloc, hMnt]
      cases s.mnt.reqHead <;> rfl
  | call | check =>
      simp only [hPc] at hCall
      simpa only [recvStep, Sys.withTbl_pc, hPc] using hCall
  | back fn req ret freed =>
      cases fn <;> simp only [recvStep, Sys.withTbl_pc, Act.tbl, hPc] <;> rfl
  | idle =>
      simp only [recvStep, Sys.withTbl_pc, Act.tbl, hPc]
      split
      · rfl
      · split
        · rfl
        · split <;> rfl
  | testCb req =>
      simp only [recvStep, Sys.withTbl_pc, Act.tbl, hPc, hMnt]
      split <;> rfl
  | returned rc freed =>
      have hSettle : (s.withTbl tbl).settle rc freed = (s.settle rc freed).withTbl tbl := by
        unfold Sys.settle
        split <;> rfl
      simp only [recvStep, Sys.withTbl_pc, Act.tbl, hPc, hSettle]
      rfl
  | callback req job =>
      have hCb : job.cb cfg.xdr (s.withTbl tbl).mnt req input.status =
          job.cb cfg.xdr s.mnt req input.status := by
        cases job <;> rfl
      simp only [recvStep, Sys.withTbl_pc, Act.tbl, hPc, hCb]
      rfl
  | _ =>
      simp only [recvStep, Sys.withTbl_pc, Act.tbl, hPc]
      rfl

/-- No step but the taking up of a reply depends on what the table has. -/
theorem step_withTbl {cfg : Cfg} {s : Sys} {act : Act} (hNot : act.TakesUp s = false)
    (tbl : Nat → Option ReqId) :
    step cfg (s.withTbl tbl) act = (step cfg s act).map fun s' => s'.withTbl (act.tbl s tbl) := by
  obtain ⟨a, input⟩ := act
  unfold step
  change (if s.halted.isSome then _ else _) = _
  split
  · rfl
  · cases a with
    | main => exact mainStep_withTbl cfg s tbl input
    | recv t =>
        simp only
        split
        · exact recvStep_withTbl cfg s t tbl input hNot
        · rfl

/-- Only a send enters its request. -/
theorem Act.tbl_cases (s : Sys) (act : Act) :
    (∀ tbl, act.tbl s tbl = tbl) ∨
      ∃ fn req ret l, s.pc act.agent = .call fn req ⟨[], .send, ret⟩ l ∧
        ∀ tbl, act.tbl s tbl = update tbl (slot s.mnt.sendXid) (some req) := by
  unfold Act.tbl
  cases hPc : s.pc act.agent with
  | call fn req plan l =>
      obtain ⟨_ | ⟨p, prep⟩, _ | _, ret⟩ := plan
      case nil.send => exact Or.inr ⟨fn, req, ret, l, rfl, fun _ => rfl⟩
      all_goals exact Or.inl fun _ => rfl
  | _ => exact Or.inl fun _ => rfl

/-- No send of another thread takes the slot of a reply that is in a thread's hands. -/
theorem Matched.tbl_slot {s : Sys} {act : Act} {t : Nat} {rep : Reply} (h : Matched s)
    (hLapped : NotLapped s act) (hPc : s.pc (.recv t) = .got rep) (tbl : Nat → Option ReqId) :
    act.tbl s tbl (slot rep.xid) = tbl (slot rep.xid) := by
  obtain ⟨r, hMem, hXid, -⟩ := h.found hPc
  rcases act.tbl_cases s with hTbl | ⟨fn, req, ret, l, hCall, hTbl⟩
  · rw [hTbl]
  · have hNot : ∀ r ∈ s.inFlight, s.mnt.sendXid ≠ s.mnt.reqXid r + 11264 := by
      simpa only [NotLapped, hCall] using hLapped
    rw [hTbl, ← hXid]
    exact Function.update_of_ne (h.slot_ne hNot hMem) _ _

/-- A send writes the same to any table. -/
theorem Act.tbl_congr {s : Sys} (act : Act) {tbl tbl' : Nat → Option ReqId} {i : Nat}
    (h : tbl i = tbl' i) : act.tbl s tbl i = act.tbl s tbl' i := by
  rcases act.tbl_cases s with hTbl | ⟨fn, req, ret, l, -, hTbl⟩
  · rw [hTbl, hTbl, h]
  · simp only [hTbl, Function.update_apply, h]

/-- Threads with replies of the same slot are the same. -/
theorem Matched.same_thread {s : Sys} {t u : Nat} {rep rep' : Reply} (h : Matched s)
    (ht : s.pc (.recv t) = .got rep) (hu : s.pc (.recv u) = .got rep')
    (hSlot : slot rep.xid = slot rep'.xid) : t = u := by
  obtain ⟨r, hMem, hXid, -⟩ := h.found ht
  obtain ⟨r', hMem', hXid', -⟩ := h.found hu
  obtain rfl : r = r' := h.eq_of_slot hMem hMem' (by rw [hXid, hXid', hSlot])
  have hSame := h.answers (.got t) (.got u) rep.xid (by simp [Sys.answering, ht, Pc.answer])
    (by simp [Sys.answering, hu, Pc.answer, ← hXid', hXid])
  injection hSame

/-- The request that the thread has read from the table. -/
def Hand.req : Hand → Option ReqId
  | .looked _ req | .cleared _ req _ => req

/-- A thread has cleared the slot and has yet to go on. -/
def Races.Cleared (s : Races) (i : Nat) : Prop :=
  ∃ t rep req other, s.hand t = some (.cleared rep req other) ∧ slot rep.xid = i

/-- The state is one of the program in which replies are taken up at once, but for
the slots that threads have cleared. -/
structure Races.Shows (s : Races) (sys : Sys) : Prop where
  same : s.sys = sys.withTbl s.sys.mnt.reqTbl
  read : ∀ t h, s.hand t = some h → h.req = sys.mnt.reqTbl (slot h.rep.xid)
  cleared : ∀ i, s.Cleared i → s.sys.mnt.reqTbl i = none
  kept : ∀ i, ¬ s.Cleared i → s.sys.mnt.reqTbl i = sys.mnt.reqTbl i

/-- Every step but a take-up is in time. -/
def RacesInTime (cfg : Cfg) (s : Races) : RaceAct → Prop
  | .go act => InTime cfg s.sys act
  | _ => True

instance (cfg : Cfg) (s : Races) (act : RaceAct) : Decidable (RacesInTime cfg s act) := by
  unfold RacesInTime
  induction act using RaceAct.casesOn <;> infer_instance

section
variable {cfg : Cfg} {s s' : Races} {sys : Sys} (h : s.Shows sys)

include h

theorem Races.Shows.pc : s.sys.pc = sys.pc := by
  rw [h.same]
  rfl

/-- A thread with a reply has found its request in flight. -/
theorem Races.Shows.takesOnce (hTable : sys.TableRight) (t : Nat) : s.TakesOnce t := by
  unfold Races.TakesOnce
  split
  · next rep req other hHand =>
      intro _
      have hRead : some req = sys.mnt.reqTbl (slot rep.xid) := h.read t _ hHand
      have hNone := h.cleared (slot rep.xid) ⟨t, rep, _, _, hHand, rfl⟩
      refine ⟨?_, by simp [hNone]⟩
      rw [h.same]
      exact (hTable _ req hRead.symm).1
  · trivial

/-- A step that takes up no reply is a step of both. -/
theorem Races.Shows.go {act : Act} (hHands : s.Hands cfg) (hMatched : Matched sys)
    (hOk : InTime cfg s.sys act) (hStep : raceStep cfg s (.go act) = some s') :
    ∃ sys', InTime cfg sys act ∧ step cfg sys act = some sys' ∧ s'.Shows sys' := by
  obtain ⟨hNot, hGo, hHand⟩ := raceStep_go hStep
  have hOkSys : InTime cfg sys act := by
    rw [h.same] at hOk
    exact hOk
  have hNotSys : act.TakesUp sys = false := by
    rw [h.same] at hNot
    exact hNot
  rw [h.same, step_withTbl hNotSys] at hGo
  obtain ⟨sys', hSys, hShown⟩ := Option.map_eq_some_iff.mp hGo
  have hTbl : sys'.mnt.reqTbl = act.tbl sys sys.mnt.reqTbl := by
    have hSelf : step cfg sys act = (step cfg sys act).map _ :=
      step_withTbl hNotSys sys.mnt.reqTbl
    rw [hSys] at hSelf
    exact congrArg (fun sys => sys.mnt.reqTbl) (Option.some.inj hSelf)
  have hTbl' : s'.sys.mnt.reqTbl = act.tbl sys s.sys.mnt.reqTbl := by
    rw [← hShown]
    rfl
  have hCleared : ∀ i, s'.Cleared i ↔ s.Cleared i := fun i => by
    rw [Races.Cleared, hHand]
    exact Iff.rfl
  have hGot : ∀ t g, s.hand t = some g → sys.pc (.recv t) = .got g.rep := fun t g hg =>
    h.pc ▸ (hHands t g hg).2
  refine ⟨sys', hOkSys, hSys, ?_, fun t g hg => ?_, fun i hi => ?_, fun i hi => ?_⟩
  · rw [← hShown]
    rfl
  · rw [hHand] at hg
    rw [hTbl, hMatched.tbl_slot hOkSys.2.2 (hGot t g hg)]
    exact h.read t g hg
  · obtain ⟨t, rep, req, other, hg, rfl⟩ := (hCleared i).mp hi
    have hPc : sys.pc (.recv t) = .got rep := hGot t _ hg
    rw [hTbl', hMatched.tbl_slot hOkSys.2.2 hPc]
    exact h.cleared _ ⟨t, rep, req, other, hg, rfl⟩
  · rw [hTbl', hTbl]
    exact act.tbl_congr (h.kept i fun hOld => hi ((hCleared i).mpr hOld))

/-- The thread reads what the slot has in the other state too, since nobody else has
cleared it. -/
theorem Races.Shows.look {t : Nat} (hHands : s.Hands cfg) (hMatched : Matched sys)
    (hStep : raceStep cfg s (.look t) = some s') : s'.Shows sys := by
  obtain ⟨rep, ht, hPc, hNone, hSys, hHand⟩ := raceStep_look hStep
  have hCleared : ∀ i, s'.Cleared i ↔ s.Cleared i := by
    intro i
    refine exists_congr fun u => exists_congr fun rep' => exists_congr fun req =>
      exists_congr fun other => and_congr_left fun _ => ?_
    by_cases hu : u = t
    · subst hu
      simp [hHand, hNone]
    · simp [hHand, hu]
  have hFree : ¬ s.Cleared (slot rep.xid) := by
    rintro ⟨u, rep', req, other, hu, hSlot⟩
    obtain rfl := hMatched.same_thread (h.pc ▸ (hHands u _ hu).2) (h.pc ▸ hPc) hSlot
    cases hNone.symm.trans hu
  refine ⟨hSys ▸ h.same, fun u g hg => ?_, fun i hi => ?_, fun i hi => ?_⟩
  · rw [hHand] at hg
    rcases hand_update hg with ⟨rfl, hNew⟩ | ⟨-, hOld⟩
    · obtain rfl := Option.some.inj hNew
      exact h.kept _ hFree
    · exact h.read u g hOld
  · rw [hSys]
    exact h.cleared i ((hCleared i).mp hi)
  · rw [hSys]
    exact h.kept i fun hOld => hi ((hCleared i).mpr hOld)

/-- The slot is cleared here only. -/
theorem Races.Shows.clear {t : Nat} (hStep : raceStep cfg s (.clear t) = some s') :
    s'.Shows sys := by
  obtain ⟨rep, req, hLooked, hSys, hHand⟩ := raceStep_clear hStep
  have hTbl : s'.sys.mnt.reqTbl = update s.sys.mnt.reqTbl (slot rep.xid) none := by
    rw [hSys]
    rfl
  have hOther : ∀ u, u ≠ t → s'.hand u = s.hand u := fun u hu => by
    rw [hHand, Function.update_of_ne hu]
  refine ⟨?_, fun u g hg => ?_, fun i hi => ?_, fun i hi => ?_⟩
  · rw [hTbl, hSys, h.same]
    rfl
  · rw [hHand] at hg
    rcases hand_update hg with ⟨rfl, hNew⟩ | ⟨-, hOld⟩
    · obtain rfl := Option.some.inj hNew
      exact h.read u (.looked rep req) hLooked
    · exact h.read u g hOld
  · rw [hTbl]
    by_cases hSlot : i = slot rep.xid
    · rw [hSlot, Function.update_self]
    · rw [Function.update_of_ne hSlot]
      obtain ⟨u, rep', req', other, hu, rfl⟩ := hi
      have hNe : u ≠ t := by
        rintro rfl
        rw [hHand, Function.update_self] at hu
        obtain ⟨rfl, -⟩ : rep = rep' ∧ _ := by simpa using hu
        exact hSlot rfl
      exact h.cleared _ ⟨u, rep', req', other, hOther u hNe ▸ hu, rfl⟩
  · have hSlot : i ≠ slot rep.xid := by
      rintro rfl
      exact hi ⟨t, rep, req, _, by rw [hHand, Function.update_self], rfl⟩
    rw [hTbl, Function.update_of_ne hSlot]
    refine h.kept i ?_
    rintro ⟨u, rep', req', other, hu, rfl⟩
    have hNe : u ≠ t := by
      rintro rfl
      cases hLooked.symm.trans hu
    exact hi ⟨u, rep', req', other, (hOther u hNe).trans hu, rfl⟩

/-- When the thread goes on, the other state takes the three accesses in one step. -/
theorem Races.Shows.check {t : Nat} {now : UInt64} (hHands : s.Hands cfg) (hMatched : Matched sys)
    (hStep : raceStep cfg s (.check t now) = some s') :
    ∃ sys', InTime cfg sys (takeAt t now) ∧ step cfg sys (takeAt t now) = some sys' ∧
      s'.Shows sys' := by
  obtain ⟨rep, req, other, hRun, hCleared, hHand, hSys⟩ := raceStep_check hStep
  obtain ⟨ht, hPc⟩ := hHands t _ hCleared
  replace hPc : sys.pc (.recv t) = .got rep := h.pc ▸ hPc
  obtain ⟨r, -, hXid, hTbl⟩ := hMatched.found hPc
  obtain rfl : req = some r := (h.read t _ hCleared).trans hTbl
  have hMnt : s.sys.mnt.reqXid = sys.mnt.reqXid := by
    rw [h.same]
    rfl
  rcases hSys with ⟨hNot, -⟩ | ⟨r', hr, -, hSys⟩
  · exact absurd (by rw [hMnt, hXid]) (hNot r rfl)
  · obtain rfl := Option.some.inj hr
    have hRunSys : sys.halted = none := by
      rw [h.same] at hRun
      exact hRun
    have hTake := step_takes hRunSys ht hPc hXid hTbl (takeAt t now).input
    have hStale : NoStaleTest cfg sys (takeAt t now) :=
      noStaleTest_takes (by simp [takeAt, Act.TakesUp, hPc])
    have hOk : InTime cfg sys (takeAt t now) :=
      ⟨hStale, by simp [Answers, takeAt, hPc], by simp [NotLapped, takeAt, hPc]⟩
    have hShown : s'.sys.mnt.reqTbl = s.sys.mnt.reqTbl := by
      rw [hSys]
      rfl
    have hOther : ∀ u, u ≠ t → s'.hand u = s.hand u := fun u hu => by
      rw [hHand, Function.update_of_ne hu]
    have hGone : ∀ {u g}, s'.hand u = some g → u ≠ t ∧ s.hand u = some g := by
      intro u g hg
      rw [hHand] at hg
      rcases hand_update hg with ⟨-, hNew⟩ | hOld
      · cases hNew
      · exact hOld
    have hEmpty : (clearSlot sys.mnt rep.xid).reqTbl (slot rep.xid) = none := Function.update_self _ _ _
    have hTaken (i : Nat) (hSlot : i ≠ slot rep.xid) :
        (clearSlot sys.mnt rep.xid).reqTbl i = sys.mnt.reqTbl i := Function.update_of_ne hSlot _ _
    refine ⟨_, hOk, hTake, ?_, fun u g hg => ?_, fun i hi => ?_, fun i hi => ?_⟩
    · rw [hShown, hSys, h.same]
      rfl
    · obtain ⟨hu, hOld⟩ := hGone hg
      have hSlot : slot g.rep.xid ≠ slot rep.xid := fun hSame =>
        hu (hMatched.same_thread (h.pc ▸ (hHands u g hOld).2) hPc hSame)
      exact (h.read u g hOld).trans (hTaken _ hSlot).symm
    · obtain ⟨u, rep', req', other', hu, rfl⟩ := hi
      rw [hShown]
      exact h.cleared _ ⟨u, rep', req', other', (hGone hu).2, rfl⟩
    · rw [hShown]
      by_cases hSlot : i = slot rep.xid
      · rw [hSlot, h.cleared _ ⟨t, rep, _, _, hCleared, rfl⟩]
        exact hEmpty.symm
      · refine (h.kept i ?_).trans (hTaken i hSlot).symm
        rintro ⟨u, rep', req', other', hu, rfl⟩
        have hNe : u ≠ t := by
          rintro rfl
          obtain ⟨rfl, -⟩ : rep = rep' ∧ _ := by simpa using hCleared.symm.trans hu
          exact hSlot rfl
        exact hi ⟨u, rep', req', other', (hOther u hNe).trans hu, rfl⟩

end

theorem Races.Shows.rest (sys : Sys) : (Races.mk sys fun _ => none).Shows sys where
  same := rfl
  read _ _ h := by cases h
  cleared _ := fun ⟨_, _, _, _, h, _⟩ => by cases h
  kept _ _ := rfl

/-- When every call is answered once and in time, the accesses of a take-up are as good
as one step: whatever comes in between, the state is one that the program reaches when
replies are taken up at once, but for the slots that threads have cleared. No two
threads ever go on with one request for one send. -/
theorem races_atomic (cfg : Cfg) (s : Races)
    (run : Run (raceStep cfg) (RacesInTime cfg) Races.boot s) :
    (∃ sys, Run (step cfg) (InTime cfg) Sys.boot sys ∧ s.Shows sys) ∧
      Run (raceStep cfg) (TakenOnce (InTime cfg)) Races.boot s := by
  suffices h : s.Hands cfg ∧ (∃ sys, Run (step cfg) (InTime cfg) Sys.boot sys ∧ s.Shows sys) ∧
      Run (raceStep cfg) (TakenOnce (InTime cfg)) Races.boot s from h.2
  induction run with
  | nil =>
      have hNone : Races.boot.Hands cfg := fun _ _ h => by cases h
      exact ⟨hNone, ⟨Sys.boot, .nil, .rest Sys.boot⟩, .nil⟩
  | @snoc s s' act prior hOk last ih =>
      obtain ⟨hHands, ⟨sys, hRun, hShows⟩, hOnce⟩ := ih
      have hTimely := run_timely hRun
      have hMatched := hTimely.matched
      refine ⟨hHands.step last, ?_, hOnce.snoc ?_ last⟩
      · cases act with
        | go act =>
            obtain ⟨sys', hIn, hStep, hShows'⟩ := hShows.go hHands hMatched hOk last
            exact ⟨sys', hRun.snoc hIn hStep, hShows'⟩
        | look t => exact ⟨sys, hRun, hShows.look hHands hMatched last⟩
        | clear t => exact ⟨sys, hRun, hShows.clear last⟩
        | check t now =>
            obtain ⟨sys', hIn, hStep, hShows'⟩ := hShows.check hHands hMatched last
            exact ⟨sys', hRun.snoc hIn hStep, hShows'⟩
      · cases act with
        | go act => exact hOk
        | look t => trivial
        | clear t => trivial
        | check t now => exact hShows.takesOnce hTimely.living.kept.owned.table t

/-- The reply to the GETATTR is taken up while main goes on and another thread starts. -/
def betweenSteps : List RaceAct :=
  let go : Act → RaceAct := .go
  (Agent.main.steps 4 ++ (Agent.recv 0).steps 1).map go ++
    [go ((Agent.recv 0).hears 0 RPC_SUCCESS getattrBody), .look 0, go ⟨.recv 1, quietInput⟩,
      .clear 0, go ⟨.main, quietInput⟩, .check 0 5]

theorem races_atomic_mount : ∃ (s : Races) (sys : Sys), (s.sys.pc (.recv 0)).taking.isSome ∧
    Run (step twoThreads) (InTime twoThreads) Sys.boot sys ∧ s.Shows sys := by
  obtain ⟨s, hRun, hTaking⟩ : ∃ s, Run (raceStep twoThreads) (RacesInTime twoThreads) Races.boot s ∧
      (s.sys.pc (.recv 0)).taking.isSome :=
    Run.of_exec_any betweenSteps (by decide +kernel)
  obtain ⟨⟨sys, hSys, hShows⟩, -⟩ := races_atomic twoThreads s hRun
  exact ⟨s, sys, hTaking, hSys, hShows⟩

end Nct
