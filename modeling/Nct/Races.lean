import Nct.OwnershipInvariant

/-! The running program with its accesses to the table one by one: a receive thread
reads the slot of a reply's xid, clears it, and only then looks at the request. Other
threads may come in between, so that two may find one request. -/
namespace Nct

open Function (update)
open Transition (Run)

/-- How far a receive thread is with a reply. `other` is history: what it has
cleared was the slot of a request with another xid. -/
inductive Hand where
  /-- `req = mnt->mnt_req_tbl[idx]` -/
  | looked (rep : Reply) (req : Option ReqId)
  /-- `mnt->mnt_req_tbl[idx] = NULL` -/
  | cleared (rep : Reply) (req : Option ReqId) (other : Bool)
  deriving DecidableEq

def Hand.rep : Hand → Reply
  | .looked rep _ | .cleared rep _ _ => rep

/-- The request of a slot has another xid. -/
def Mnt.otherAt (mnt : Mnt) (xid : UInt32) : Bool :=
  (mnt.reqTbl (slot xid)).any fun req => mnt.reqXid req != xid

/-- The receive loop goes on with a request that it has found. -/
def Sys.found (s : Sys) (t : Nat) (req : ReqId) (rep : Reply) (now : UInt64) : Sys :=
  { s with
    mnt := stampStop s.mnt req now
    inFlight := s.inFlight.erase req }.goto (.recv t) (.taken req rep)

structure Races where
  sys : Sys
  hand : Nat → Option Hand

def Races.boot : Races := ⟨Sys.boot, fun _ => none⟩

inductive RaceAct where
  /-- a step of the program that does not take up a reply -/
  | go (act : Act)
  | look (t : Nat)
  | clear (t : Nat)
  /-- `if (req->req_xid != rm_xid) abort()`, and the time stamp after it -/
  | check (t : Nat) (now : UInt64)
  deriving DecidableEq

/-- The step in which a thread takes up its reply all at once. -/
def Act.TakesUp (s : Sys) (act : Act) : Bool :=
  match s.pc act.agent with
  | .got _ => true
  | _ => false

theorem Act.got_of_takesUp {s : Sys} {act : Act} (h : act.TakesUp s = true) :
    ∃ rep, s.pc act.agent = .got rep := by
  unfold Act.TakesUp at h
  split at h
  · next rep hPc => exact ⟨rep, hPc⟩
  · cases h

/-- One step. Where the program ends, nothing more is done. -/
def raceStep (cfg : Cfg) (s : Races) : RaceAct → Option Races
  | .go act =>
      if act.TakesUp s.sys then none
      else (step cfg s.sys act).map fun sys => { s with sys }
  | .look t =>
      if t < cfg.tdsMax ∧ s.sys.halted = none then
        match s.sys.pc (.recv t), s.hand t with
        | .got rep, none =>
            some { s with hand := update s.hand t (some (.looked rep (s.sys.mnt.reqTbl (slot rep.xid)))) }
        | _, _ => none
      else none
  | .clear t =>
      if s.sys.halted = none then
        match s.hand t with
        | some (.looked rep req) =>
            some {
              sys := { s.sys with mnt := clearSlot s.sys.mnt rep.xid }
              hand := update s.hand t (some (.cleared rep req (s.sys.mnt.otherAt rep.xid))) }
        | _ => none
      else none
  | .check t now =>
      if s.sys.halted = none then
        match s.hand t with
        | some (.cleared rep req _) =>
            let sys :=
              match req with
              | none => s.sys.crash .nullSlot
              | some req =>
                  if s.sys.mnt.reqXid req ≠ rep.xid then s.sys.crash .xidMismatch
                  else s.sys.found t req rep now
            some { sys, hand := update s.hand t none }
        | _ => none
      else none

/-- The request that the thread is about to go on with is in flight, and the table has
it no more: no other thread has gone on with it since the thread looked. -/
def Races.TakesOnce (s : Races) (t : Nat) : Prop :=
  match s.hand t with
  | some (.cleared rep (some req) _) =>
      s.sys.mnt.reqXid req = rep.xid →
        req ∈ s.sys.inFlight ∧ s.sys.mnt.reqTbl (slot rep.xid) ≠ some req
  | _ => True

instance (s : Races) (t : Nat) : Decidable (s.TakesOnce t) := by
  unfold Races.TakesOnce
  generalize s.hand t = hand
  induction hand using Option.casesOn with
  | none => infer_instance
  | some hand =>
      induction hand using Hand.casesOn with
      | looked rep req => infer_instance
      | cleared rep req other => induction req using Option.casesOn <;> infer_instance

/-- The program's steps meet a condition, and no two threads go on with one request
for one send. -/
def TakenOnce (ok : Sys → Act → Prop) (s : Races) : RaceAct → Prop
  | .go act => ok s.sys act
  | .check t _ => s.TakesOnce t
  | _ => True

def Sys.withTbl (s : Sys) (tbl : Nat → Option ReqId) : Sys :=
  { s with mnt := { s.mnt with reqTbl := tbl } }

/-- The state with the request back in the table. -/
def Sys.entered (s : Sys) (xid : UInt32) (req : ReqId) : Sys :=
  s.withTbl (update s.mnt.reqTbl (slot xid) (some req))

/-- The table has only requests in flight, each at its slot. -/
def Sys.TableRight (s : Sys) : Prop :=
  ∀ i r, s.mnt.reqTbl i = some r → r ∈ s.inFlight ∧ slot (s.mnt.reqXid r) = i

/-- A property that says no more of the table than that, and nothing of how the
program ended. -/
structure Robust (P : Sys → Prop) : Prop where
  table : ∀ s, P s → s.TableRight
  withTbl : ∀ s tbl, P s → (s.withTbl tbl).TableRight → P (s.withTbl tbl)
  crash : ∀ s c, P s → P (s.crash c)

section
variable {cfg : Cfg}

/-- In a table that has the request at its slot, it is taken up in one step. -/
theorem step_takes {s : Sys} {t : Nat} {rep : Reply} {req : ReqId} (hRun : s.halted = none)
    (ht : t < cfg.tdsMax) (hPc : s.pc (.recv t) = .got rep) (hXid : s.mnt.reqXid req = rep.xid)
    (hTbl : s.mnt.reqTbl (slot rep.xid) = some req) (input : Input) :
    step cfg s ⟨.recv t, input⟩ =
      some ((s.take req rep input.now).goto (.recv t) (.taken req rep)) := by
  simp [step, hRun, ht, recvStep, hPc, hTbl, hXid]

theorem raceStep_go {s s' : Races} {act : Act} (h : raceStep cfg s (.go act) = some s') :
    act.TakesUp s.sys = false ∧ step cfg s.sys act = some s'.sys ∧ s'.hand = s.hand := by
  simp only [raceStep] at h
  split at h
  · cases h
  · next hNot =>
      obtain ⟨sys, hStep, rfl⟩ := Option.map_eq_some_iff.mp h
      exact ⟨by simpa using hNot, hStep, rfl⟩

/-- What a thread reads is kept for it. -/
theorem raceStep_look {s s' : Races} {t : Nat} (h : raceStep cfg s (.look t) = some s') :
    ∃ rep, t < cfg.tdsMax ∧ s.sys.pc (.recv t) = .got rep ∧ s.hand t = none ∧ s'.sys = s.sys ∧
      s'.hand = update s.hand t (some (.looked rep (s.sys.mnt.reqTbl (slot rep.xid)))) := by
  simp only [raceStep] at h
  split at h
  · next hRun =>
      split at h
      · next rep hPc hHand =>
          cases h
          exact ⟨rep, hRun.1, hPc, hHand, rfl, rfl⟩
      · cases h
  · cases h

/-- Clearing the slot changes the table and nothing else. -/
theorem raceStep_clear {s s' : Races} {t : Nat} (h : raceStep cfg s (.clear t) = some s') :
    ∃ rep req, s.hand t = some (.looked rep req) ∧
      s'.sys = s.sys.withTbl (update s.sys.mnt.reqTbl (slot rep.xid) none) ∧
      s'.hand = update s.hand t (some (.cleared rep req (s.sys.mnt.otherAt rep.xid))) := by
  simp only [raceStep] at h
  split at h
  · split at h
    · next rep req hHand =>
        cases h
        exact ⟨rep, req, hHand, rfl, rfl⟩
    · cases h
  · cases h

/-- The thread goes on with its request, or the program ends. -/
theorem raceStep_check {s s' : Races} {t : Nat} {now : UInt64}
    (h : raceStep cfg s (.check t now) = some s') :
    ∃ rep req other, s.sys.halted = none ∧ s.hand t = some (.cleared rep req other) ∧
      s'.hand = update s.hand t none ∧
      (((∀ r, req = some r → s.sys.mnt.reqXid r ≠ rep.xid) ∧ ∃ c, s'.sys = s.sys.crash c) ∨
        ∃ r, req = some r ∧ s.sys.mnt.reqXid r = rep.xid ∧ s'.sys = s.sys.found t r rep now) := by
  simp only [raceStep] at h
  split at h
  · next hRun =>
      split at h
      · next rep req other hHand =>
          cases h
          refine ⟨rep, req, other, hRun, hHand, rfl, ?_⟩
          cases req with
          | none => exact Or.inl ⟨by simp, _, rfl⟩
          | some r =>
              by_cases hXid : s.sys.mnt.reqXid r = rep.xid
              · simp only [hXid, ne_eq, not_true_eq_false, if_false]
                exact Or.inr ⟨r, rfl, hXid, rfl⟩
              · simp only [hXid, ne_eq, not_false_eq_true, if_true]
                exact Or.inl ⟨by simpa using hXid, _, rfl⟩
      · cases h
  · cases h

/-- Nothing is done once the program has ended. -/
theorem raceStep_running {s s' : Races} {act : RaceAct} (h : raceStep cfg s act = some s') :
    s.sys.halted = none := by
  cases act with
  | go act => exact step_running (raceStep_go h).2.1
  | look t =>
      simp only [raceStep] at h
      split at h
      · next hRun => exact hRun.2
      · cases h
  | clear t =>
      simp only [raceStep] at h
      split at h
      · next hRun => exact hRun
      · cases h
  | check t now =>
      obtain ⟨_, _, _, hRun, -⟩ := raceStep_check h
      exact hRun

/-- A thread with a reply in its hands is where it has decoded it. -/
def Races.Hands (cfg : Cfg) (s : Races) : Prop :=
  ∀ t h, s.hand t = some h → t < cfg.tdsMax ∧ s.sys.pc (.recv t) = .got h.rep

/-- When one thread changes what it has in its hands, the others keep theirs. -/
theorem hand_update {hand : Nat → Option Hand} {t u : Nat} {new : Option Hand} {g : Hand}
    (h : update hand t new u = some g) : u = t ∧ new = some g ∨ u ≠ t ∧ hand u = some g := by
  by_cases hu : u = t
  · exact Or.inl ⟨hu, by simpa [hu] using h⟩
  · exact Or.inr ⟨hu, by simpa [hu] using h⟩

/-- A thread keeps its reply until its check. -/
theorem Races.Hands.step {s s' : Races} {act : RaceAct} (h : s.Hands cfg)
    (hStep : raceStep cfg s act = some s') : s'.Hands cfg := by
  cases act with
  | go act =>
      obtain ⟨hNot, hGo, hSame⟩ := raceStep_go hStep
      intro t g hg
      obtain ⟨ht, hPc⟩ := h t g (hSame ▸ hg)
      refine ⟨ht, ?_⟩
      have hAgent : Agent.recv t ≠ act.agent := by
        intro hEq
        simp [Act.TakesUp, ← hEq, hPc] at hNot
      rw [step_pc_other (step_cases hGo).1 hAgent]
      exact hPc
  | look t =>
      obtain ⟨rep, ht, hPc, -, hSys, hHand⟩ := raceStep_look hStep
      intro u g hg
      rw [hHand] at hg
      rw [hSys]
      rcases hand_update hg with ⟨rfl, hNew⟩ | ⟨-, hOld⟩
      · cases hNew
        exact ⟨ht, hPc⟩
      · exact h u g hOld
  | clear t =>
      obtain ⟨rep, req, hOld, hSys, hHand⟩ := raceStep_clear hStep
      intro u g hg
      rw [hHand] at hg
      rw [hSys]
      rcases hand_update hg with ⟨rfl, hNew⟩ | ⟨-, hOther⟩
      · cases hNew
        exact h u (.looked rep req) hOld
      · exact h u g hOther
  | check t now =>
      obtain ⟨rep, req, other, -, -, hHand, hSys⟩ := raceStep_check hStep
      intro u g hg
      rw [hHand] at hg
      rcases hand_update hg with ⟨-, hNew⟩ | ⟨hu, hOther⟩
      · cases hNew
      · obtain ⟨hLt, hPc⟩ := h u g hOther
        refine ⟨hLt, ?_⟩
        rcases hSys with ⟨-, c, hSys⟩ | ⟨r, -, -, hSys⟩
        · rw [hSys]
          exact hPc
        · rw [hSys, Sys.found, Sys.goto_pc_of_ne _ _ (by simpa using hu)]
          exact hPc

/-- The action in which a thread takes up its reply at a time. -/
def takeAt (t : Nat) (now : UInt64) : Act := ⟨.recv t, ⟨now, none, false, 0⟩⟩

/-- To go on with a request is to take it up from a table that still has it. -/
theorem found_of_take {s : Sys} {t : Nat} {req : ReqId} (rep : Reply) (now : UInt64)
    (hRun : s.halted = none) (ht : t < cfg.tdsMax) (hPc : s.pc (.recv t) = .got rep)
    (hXid : s.mnt.reqXid req = rep.xid) :
    ∃ taken, step cfg (s.entered rep.xid req) (takeAt t now) = some taken ∧
      s.found t req rep now = taken.withTbl s.mnt.reqTbl := by
  have hTbl : (s.entered rep.xid req).mnt.reqTbl (slot rep.xid) = some req :=
    Function.update_self _ _ _
  exact ⟨_, step_takes (s := s.entered rep.xid req) hRun ht hPc hXid hTbl _, rfl⟩

/-- A request in flight may be put back into the table. -/
theorem Robust.entered {P : Sys → Prop} (hP : Robust P) {s : Sys} {xid : UInt32} {req : ReqId}
    (h : P s) (hXid : s.mnt.reqXid req = xid) (hMem : req ∈ s.inFlight) : P (s.entered xid req) := by
  refine hP.withTbl s _ h fun i r hr => ?_
  by_cases hi : i = slot xid
  · subst hi
    obtain rfl : req = r := by simpa [Sys.withTbl] using hr
    exact ⟨hMem, congrArg slot hXid⟩
  · exact hP.table s h i r (by simpa [Sys.withTbl, hi] using hr)

/-- What is kept by taking the request up at once is kept by going on with it, if it
is in flight and the table has it no more. -/
theorem Robust.found {P : Sys → Prop} (hP : Robust P) {s : Sys} {t : Nat} {rep : Reply} {req : ReqId}
    {now : UInt64} (h : P s) (hRun : s.halted = none) (ht : t < cfg.tdsMax)
    (hPc : s.pc (.recv t) = .got rep) (hXid : s.mnt.reqXid req = rep.xid) (hMem : req ∈ s.inFlight)
    (hGone : s.mnt.reqTbl (slot rep.xid) ≠ some req)
    (hStep : ∀ s', P (s.entered rep.xid req) →
      step cfg (s.entered rep.xid req) (takeAt t now) = some s' → P s') :
    P (s.found t req rep now) := by
  obtain ⟨taken, hTake, hFound⟩ := found_of_take rep now hRun ht hPc hXid
  have hTaken := hStep taken (hP.entered h hXid hMem) hTake
  rw [hFound]
  refine hP.withTbl taken _ hTaken fun i r hr => ?_
  obtain ⟨hFlight, hSlot⟩ := hP.table s h i r hr
  rw [← hFound]
  refine ⟨Finset.mem_erase.mpr ⟨?_, hFlight⟩, hSlot⟩
  rintro rfl
  rw [hXid] at hSlot
  exact hGone (hSlot ▸ hr)

theorem Robust.look {P : Sys → Prop} {s s' : Races} {t : Nat} (h : P s.sys)
    (hRace : raceStep cfg s (.look t) = some s') : P s'.sys := by
  obtain ⟨rep, -, -, -, hSys, -⟩ := raceStep_look hRace
  rwa [hSys]

/-- It is kept when a slot is cleared. -/
theorem Robust.clear {P : Sys → Prop} (hP : Robust P) {s s' : Races} {t : Nat} (h : P s.sys)
    (hRace : raceStep cfg s (.clear t) = some s') : P s'.sys := by
  obtain ⟨rep, req, -, hSys, -⟩ := raceStep_clear hRace
  rw [hSys]
  refine hP.withTbl _ _ h fun i r hr => ?_
  by_cases hi : i = slot rep.xid
  · simp [Sys.withTbl, hi] at hr
  · exact hP.table _ h i r (by simpa [Sys.withTbl, hi] using hr)

/-- What is kept when a thread takes up its reply at once is kept when it goes on
with the request that it has found. -/
theorem Robust.check {P : Sys → Prop} (hP : Robust P) {s s' : Races} {t : Nat} {now : UInt64}
    (h : P s.sys) (hHands : s.Hands cfg) (hOnce : s.TakesOnce t)
    (hRace : raceStep cfg s (.check t now) = some s')
    (hTake : ∀ sys sys', P sys → (takeAt t now).TakesUp sys = true →
      Nct.step cfg sys (takeAt t now) = some sys' → P sys') : P s'.sys := by
  obtain ⟨rep, req, other, hRun, hHand, -, hSys⟩ := raceStep_check hRace
  rcases hSys with ⟨-, c, hSys⟩ | ⟨r, rfl, hXid, hSys⟩
  · rw [hSys]
    exact hP.crash _ c h
  · obtain ⟨ht, hPc⟩ := hHands t _ hHand
    simp only [Races.TakesOnce, hHand] at hOnce
    obtain ⟨hMem, hGone⟩ := hOnce hXid
    rw [hSys]
    refine hP.found h hRun ht hPc hXid hMem hGone fun s' hEntered hStep => ?_
    exact hTake _ _ hEntered (by simp [takeAt, Act.TakesUp, Sys.entered, Sys.withTbl, hPc]) hStep

/-- What the steps of the program keep is kept by the single accesses, when replies are
taken up once. -/
theorem Robust.step {P : Sys → Prop} (hP : Robust P) {ok : Sys → Act → Prop}
    (hStep : ∀ s act s', P s → ok s act → step cfg s act = some s' → P s')
    (hTakes : ∀ s act, act.TakesUp s = true → ok s act) {s s' : Races} {act : RaceAct} (h : P s.sys)
    (hHands : s.Hands cfg) (hOk : TakenOnce ok s act) (hRace : raceStep cfg s act = some s') :
    P s'.sys := by
  cases act with
  | go act => exact hStep _ _ _ h hOk (raceStep_go hRace).2.1
  | look t => exact Robust.look h hRace
  | clear t => exact hP.clear h hRace
  | check t now =>
      exact hP.check h hHands hOk hRace fun _ _ hPrior hTakesUp hTake =>
        hStep _ _ _ hPrior (hTakes _ _ hTakesUp) hTake

/-- What every step of the program keeps also holds in every state reached when the
accesses of the take-up come one by one. -/
theorem Robust.run {P : Sys → Prop} (hP : Robust P) {ok : Sys → Act → Prop} (hBoot : P Sys.boot)
    (hStep : ∀ s act s', P s → ok s act → Nct.step cfg s act = some s' → P s')
    (hTakes : ∀ s act, act.TakesUp s = true → ok s act) {s : Races}
    (run : Run (raceStep cfg) (TakenOnce ok) Races.boot s) : P s.sys ∧ s.Hands cfg :=
  run.invariant (P := fun s => P s.sys ∧ s.Hands cfg) ⟨hBoot, fun _ _ h => by cases h⟩
    fun _ _ _ h hOk hRace => ⟨hP.step hStep hTakes h.1 h.2 hOk hRace, h.2.step hRace⟩

theorem Owned.robust : Robust Owned where
  table s h := h.table
  withTbl s tbl h hTable :=
    { h with
      exclusive := h.exclusive.mono fun p r hp => by cases p <;> exact hp
      buffers := h.buffers.mono fun p m hm => by cases p <;> exact hm
      table := hTable }
  crash s c h := h.same (by constructor <;> rfl)

theorem Robust.and {P : Sys → Prop} (hP : Robust P) {Q : Sys → Prop}
    (hTbl : ∀ s tbl, Q s → Q (s.withTbl tbl)) (hCrash : ∀ s c, Q s → Q (s.crash c)) :
    Robust fun s => P s ∧ Q s where
  table s h := hP.table s h.1
  withTbl s tbl h hTable := ⟨hP.withTbl s tbl h.1 hTable, hTbl s tbl h.2⟩
  crash s c h := ⟨hP.crash s c h.1, hCrash s c h.2⟩

/-- To take up a reply is to start nothing. -/
theorem noStaleTest_takes {s : Sys} {act : Act} (h : act.TakesUp s = true) : NoStaleTest cfg s act := by
  unfold NoStaleTest
  split
  · next hPc => simp [Act.TakesUp, hPc] at h
  · trivial

/-- What a run keeps about who has what. -/
theorem ownedWithin_robust : Robust fun s => Owned s ∧ s.Within cfg :=
  Owned.robust.and (fun _ _ h => h) fun _ _ h => h

theorem OwnedWithin.step {s s' : Sys} {act : Act} (h : Owned s ∧ s.Within cfg)
    (hOk : NoStaleTest cfg s act) (hStep : Nct.step cfg s act = some s') :
    Owned s' ∧ s'.Within cfg :=
  ⟨h.1.step h.2 hOk hStep, h.2.step hStep⟩

/-- In a run without late tests ownership is kept. -/
theorem run_owned {s : Sys} (run : Run (step cfg) (NoStaleTest cfg) Sys.boot s) :
    Owned s ∧ s.Within cfg :=
  run.invariant (P := fun s => Owned s ∧ s.Within cfg) ⟨Owned.atBoot, fun _ _ => rfl⟩
    fun _ _ _ h hOk hStep => OwnedWithin.step h hOk hStep

/-- With nothing in between, the three accesses are the one step of the program. -/
theorem raceStep_atomic {s : Sys} {t : Nat} {rep : Reply} (hPc : s.pc (.recv t) = .got rep)
    (ht : t < cfg.tdsMax) (hRun : s.halted = none) (input : Input) :
    ((raceStep cfg ⟨s, fun _ => none⟩ (.look t)).bind fun s => (raceStep cfg s (.clear t)).bind
      fun s => raceStep cfg s (.check t input.now)) =
      (recvStep cfg s t input).map fun sys => ⟨sys, fun _ => none⟩ := by
  cases hTbl : s.mnt.reqTbl (slot rep.xid) with
  | none =>
      have hClear : clearSlot s.mnt rep.xid = s.mnt := by
        rw [clearSlot, ← hTbl, Function.update_eq_self]
      simp [raceStep, ht, hRun, hPc, recvStep, hTbl, hClear]
      rfl
  | some req =>
      by_cases hXid : s.mnt.reqXid req = rep.xid
      · simp [raceStep, ht, hRun, hPc, recvStep, hTbl, hXid, clearSlot, Sys.found, Sys.take]
      · simp [raceStep, ht, hRun, hPc, recvStep, hTbl, hXid, clearSlot]

/-- A run of the program is one in which nothing comes in between. -/
theorem races_of_run {ok : Sys → Act → Prop} (hStale : ∀ s act, ok s act → NoStaleTest cfg s act)
    {s : Sys} (run : Run (step cfg) ok Sys.boot s) :
    Run (raceStep cfg) (TakenOnce ok) Races.boot ⟨s, fun _ => none⟩ := by
  induction run with
  | nil => exact .nil
  | @snoc s s' act prior hOk last ih =>
      by_cases hTakes : act.TakesUp s = true
      · have hOwned := (run_owned (prior.mono hStale)).1
        obtain ⟨a, input⟩ := act
        obtain ⟨rep, hPc⟩ := Act.got_of_takesUp hTakes
        obtain ⟨t, rfl⟩ : ∃ t, a = .recv t := by
          cases a with
          | main => exact (hPc ▸ hOwned.fits .main : Agent.main.Fits (.got rep)).elim
          | recv t => exact ⟨t, rfl⟩
        have hRun := step_running last
        have ht := (step_cases last).2 t rfl
        have hRecv : recvStep cfg s t input = some s' := by simpa [step, hRun, ht] using last
        have hSteps := raceStep_atomic hPc ht hRun input
        rw [hRecv] at hSteps
        obtain ⟨s₁, hLook, hSteps⟩ := Option.bind_eq_some_iff.mp hSteps
        obtain ⟨s₂, hClear, hCheck⟩ := Option.bind_eq_some_iff.mp hSteps
        have hOk₁ : TakenOnce ok ⟨s, fun _ => none⟩ (.look t) := trivial
        have hOk₂ : TakenOnce ok s₁ (.clear t) := trivial
        refine ((ih.snoc hOk₁ hLook).snoc hOk₂ hClear).snoc ?_ hCheck
        obtain ⟨rep', -, hPc', -, hSys₁, hHand₁⟩ := raceStep_look hLook
        obtain rfl : rep = rep' := by simpa [hPc] using hPc'
        obtain ⟨rep', req, hLooked, hSys₂, hHand₂⟩ := raceStep_clear hClear
        obtain ⟨rfl, rfl⟩ : rep = rep' ∧ s.mnt.reqTbl (slot rep.xid) = req := by
          simpa [hHand₁] using hLooked
        simp only [TakenOnce, Races.TakesOnce, hHand₂, hSys₂, hSys₁, Function.update_self]
        cases hTbl : s.mnt.reqTbl (slot rep.xid) with
        | none => trivial
        | some r => exact fun _ => ⟨(hOwned.table _ r hTbl).1, by simp [Sys.withTbl]⟩
      · have hGo : raceStep cfg ⟨s, fun _ => none⟩ (.go act) = some ⟨s', fun _ => none⟩ := by
          simp [raceStep, hTakes, last]
        have hOk' : TakenOnce ok ⟨s, fun _ => none⟩ (.go act) := hOk
        exact ih.snoc hOk' hGo

end

end Nct
