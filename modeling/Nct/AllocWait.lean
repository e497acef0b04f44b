import Nct.Req
import Nct.Support.Monitor
import Nct.Support.Places
import Nct.Support.Run

/-! The pool under its mutex. Any number of threads call `nct_req_alloc`, which
sleeps while the pool is empty, and `nct_req_free`, which wakes one of them. One
step is one access to what they share, or one operation on `mnt_req_mtx` or
`mnt_req_cv`. Together they are the two atomic operations on the pool. -/
namespace Nct

open Function (update)
open Linked (Chain)
open Monitor (Guarded Tally)
open Places (After)
open Transition (Run exec)

inductive PoolPc where
  | out
  /-- `pthread_mutex_lock` in `nct_req_alloc` -/
  | lock
  /-- `while (!mnt->mnt_req_head)` -/
  | test
  /-- `++mnt->mnt_req_waiters` -/
  | raise
  /-- calling `pthread_cond_wait` -/
  | sleep
  /-- inside `pthread_cond_wait`, without the mutex -/
  | asleep
  /-- `--mnt->mnt_req_waiters` -/
  | lower
  /-- the head of the list is taken off -/
  | pop
  /-- `pthread_mutex_unlock` in `nct_req_alloc` -/
  | unlock (req : ReqId)
  /-- `req_cb` and `req_done` of the request are cleared -/
  | clear (req : ReqId)
  /-- `pthread_mutex_lock` in `nct_req_free` -/
  | lockFree (req : ReqId)
  /-- the request becomes the head of the list -/
  | push (req : ReqId)
  /-- `if (mnt->mnt_req_waiters > 0)` -/
  | testWaiters
  | signal
  /-- `pthread_mutex_unlock` in `nct_req_free` -/
  | unlockFree
  deriving DecidableEq, Repr

/-- `mnt_req_mtx` is held there. -/
def PoolPc.Holds : PoolPc → Prop
  | .test | .raise | .sleep | .lower | .pop | .unlock _ => True
  | .push _ | .testWaiters | .signal | .unlockFree => True
  | .out | .lock | .asleep | .clear _ | .lockFree _ => False

/-- The thread is counted in `mnt_req_waiters` there. -/
def PoolPc.Counted : PoolPc → Prop
  | .sleep | .asleep | .lower => True
  | _ => False

/-- The request that a thread takes out of the pool or brings back. -/
def PoolPc.carries : PoolPc → Option ReqId
  | .unlock req => some req
  | .clear req => some req
  | .lockFree req => some req
  | .push req => some req
  | _ => none

/-- What happens to the pool, as its callers see it. -/
inductive PoolEvent where
  | alloc (t : Nat) (req : ReqId)
  | free (t : Nat) (req : ReqId)
  /-- a thread that has the request sets its callback and `req_done` -/
  | use (t : Nat) (req : ReqId) (cb : Option Job) (done : Bool)
  deriving DecidableEq, Repr

/-- The threads with what they share. `outs` are the requests that callers have,
and `log` is what has happened, the latest first; no step looks at them. -/
structure PoolSys where
  mtx : Monitor.State Nat
  waiters : Int
  mnt : Mnt
  pc : Nat → PoolPc
  outs : Finset ReqId
  log : List PoolEvent

def PoolSys.start : PoolSys where
  mtx := .idle
  waiters := 0
  mnt := reqCreate Mnt.zero
  pc := fun _ => .out
  outs := ∅
  log := []

/-- What a thread does next: call one of these functions, or go on in one. -/
inductive PoolCall where
  | alloc
  | free (req : ReqId)
  | use (req : ReqId) (cb : Option Job) (done : Bool)
  /-- a spurious wakeup -/
  | rouse
  | go
  /-- `pthread_cond_signal` wakes the thread -/
  | wake (u : Nat)
  deriving DecidableEq, Repr

structure PoolAct where
  thread : Nat
  call : PoolCall
  deriving DecidableEq, Repr

def PoolSys.goto (s : PoolSys) (t : Nat) (pc : PoolPc) : PoolSys := { s with pc := update s.pc t pc }

def setReq (mnt : Mnt) (req : ReqId) (cb : Option Job) (done : Bool) : Mnt :=
  { mnt with
    reqCb := update mnt.reqCb req cb
    reqDone := update mnt.reqDone req done }

/-- The next step of a thread inside a function. At `.signal` it wakes no one. -/
def PoolSys.go (s : PoolSys) (t : Nat) : Option PoolSys :=
  match s.pc t with
  | .out => none
  | .lock => (s.mtx.lock t).map fun mtx => { s with mtx }.goto t .test
  | .test => some (s.goto t (if s.mnt.reqHead = none then .raise else .pop))
  | .raise => some ({ s with waiters := s.waiters + 1 }.goto t .sleep)
  | .sleep => some ({ s with mtx := s.mtx.sleep t }.goto t .asleep)
  | .asleep => (s.mtx.relock t).map fun mtx => { s with mtx }.goto t .lower
  | .lower => some ({ s with waiters := s.waiters - 1 }.goto t .test)
  | .pop =>
      s.mnt.reqHead.map fun req =>
        { s with
          mnt := { s.mnt with reqHead := s.mnt.reqNext req }
          log := .alloc t req :: s.log }.goto t (.unlock req)
  | .unlock req => some ({ s with mtx := s.mtx.unlock }.goto t (.clear req))
  | .clear req =>
      some ({ s with mnt := setReq s.mnt req none false, outs := insert req s.outs }.goto t .out)
  | .lockFree req => (s.mtx.lock t).map fun mtx => { s with mtx }.goto t (.push req)
  | .push req =>
      some ({ s with mnt := reqFree s.mnt req, log := .free t req :: s.log }.goto t .testWaiters)
  | .testWaiters => some (s.goto t (if s.waiters > 0 then .signal else .unlockFree))
  | .signal => some (s.goto t .unlockFree)
  | .unlockFree => some ({ s with mtx := s.mtx.unlock }.goto t .out)

/-- One step. A function is called by a thread that is in none, and a request is
freed or used by one that has it. -/
def poolStep (s : PoolSys) (act : PoolAct) : Option PoolSys :=
  match act.call with
  | .go => s.go act.thread
  | .rouse => some { s with mtx := s.mtx.rouse act.thread }
  | .wake u =>
      if s.pc act.thread = .signal ∧ s.mtx.asleep u = true then
        some ({ s with mtx := s.mtx.rouse u }.goto act.thread .unlockFree)
      else none
  | .alloc => if s.pc act.thread = .out then some (s.goto act.thread .lock) else none
  | .free req =>
      if s.pc act.thread = .out ∧ req ∈ s.outs then
        some ({ s with outs := s.outs.erase req }.goto act.thread (.lockFree req))
      else none
  | .use req cb done =>
      if s.pc act.thread = .out ∧ req ∈ s.outs then
        some { s with
          mnt := setReq s.mnt req cb done
          log := .use act.thread req cb done :: s.log }
      else none

/-- `pthread_cond_signal` wakes a thread if one is asleep. -/
def Signals (s : PoolSys) (act : PoolAct) : Prop :=
  act.call = .go → s.pc act.thread = .signal → ∀ u, s.mtx.asleep u = false

/-- The steps one by one: what thread `t` can do. -/
inductive PoolMove (s : PoolSys) (t : Nat) : PoolSys → Prop where
  | alloc (hPc : s.pc t = .out) : PoolMove s t (s.goto t .lock)
  | lock (hPc : s.pc t = .lock) (hOwner : s.mtx.owner = none) :
      PoolMove s t ({ s with mtx := { s.mtx with owner := some t } }.goto t .test)
  | empty (hPc : s.pc t = .test) (hHead : s.mnt.reqHead = none) : PoolMove s t (s.goto t .raise)
  | found (hPc : s.pc t = .test) : PoolMove s t (s.goto t .pop)
  | raise (hPc : s.pc t = .raise) :
      PoolMove s t ({ s with waiters := s.waiters + 1 }.goto t .sleep)
  | sleep (hPc : s.pc t = .sleep) :
      PoolMove s t ({ s with mtx := s.mtx.sleep t }.goto t .asleep)
  | relock (hPc : s.pc t = .asleep) (hWoken : s.mtx.asleep t = false)
      (hOwner : s.mtx.owner = none) :
      PoolMove s t ({ s with mtx := { s.mtx with owner := some t } }.goto t .lower)
  | lower (hPc : s.pc t = .lower) :
      PoolMove s t ({ s with waiters := s.waiters - 1 }.goto t .test)
  | pop {req : ReqId} (hPc : s.pc t = .pop) (hHead : s.mnt.reqHead = some req) :
      PoolMove s t ({ s with
        mnt := { s.mnt with reqHead := s.mnt.reqNext req }
        log := .alloc t req :: s.log }.goto t (.unlock req))
  | unlock {req : ReqId} (hPc : s.pc t = .unlock req) :
      PoolMove s t ({ s with mtx := s.mtx.unlock }.goto t (.clear req))
  | clear {req : ReqId} (hPc : s.pc t = .clear req) :
      PoolMove s t
        ({ s with mnt := setReq s.mnt req none false, outs := insert req s.outs }.goto t .out)
  | free {req : ReqId} (hPc : s.pc t = .out) (hMem : req ∈ s.outs) :
      PoolMove s t ({ s with outs := s.outs.erase req }.goto t (.lockFree req))
  | lockFree {req : ReqId} (hPc : s.pc t = .lockFree req) (hOwner : s.mtx.owner = none) :
      PoolMove s t ({ s with mtx := { s.mtx with owner := some t } }.goto t (.push req))
  | push {req : ReqId} (hPc : s.pc t = .push req) :
      PoolMove s t
        ({ s with mnt := reqFree s.mnt req, log := .free t req :: s.log }.goto t .testWaiters)
  | waiters (hPc : s.pc t = .testWaiters) : PoolMove s t (s.goto t .signal)
  | noWaiters (hPc : s.pc t = .testWaiters) (hNone : ¬ s.waiters > 0) :
      PoolMove s t (s.goto t .unlockFree)
  | wake {u : Nat} (hPc : s.pc t = .signal) (hAsleep : s.mtx.asleep u = true) :
      PoolMove s t ({ s with mtx := s.mtx.rouse u }.goto t .unlockFree)
  | noSleeper (hPc : s.pc t = .signal) (hNone : ∀ u, s.mtx.asleep u = false) :
      PoolMove s t (s.goto t .unlockFree)
  | unlockFree (hPc : s.pc t = .unlockFree) :
      PoolMove s t ({ s with mtx := s.mtx.unlock }.goto t .out)
  | rouse : PoolMove s t { s with mtx := s.mtx.rouse t }
  | use {req : ReqId} {cb : Option Job} {done : Bool} (hPc : s.pc t = .out) (hMem : req ∈ s.outs) :
      PoolMove s t { s with
        mnt := setReq s.mnt req cb done
        log := .use t req cb done :: s.log }

/-- A step of a thread is one of the moves. -/
theorem go_cases {s s' : PoolSys} {t : Nat} (hSignal : s.pc t = .signal → ∀ u, s.mtx.asleep u = false)
    (h : s.go t = some s') : PoolMove s t s' := by
  cases hPc : s.pc t with
  | out => simp [PoolSys.go, hPc] at h
  | lock =>
      simp only [PoolSys.go, hPc, Option.map_eq_some_iff, Monitor.State.lock_eq_some] at h
      obtain ⟨mtx, ⟨hOwner, rfl⟩, rfl⟩ := h
      exact .lock hPc hOwner
  | test =>
      simp only [PoolSys.go, hPc, Option.some.injEq] at h
      split at h
      · next hHead => exact h ▸ .empty hPc hHead
      · exact h ▸ .found hPc
  | asleep =>
      simp only [PoolSys.go, hPc, Option.map_eq_some_iff, Monitor.State.relock_eq_some] at h
      obtain ⟨mtx, ⟨hWoken, hOwner, rfl⟩, rfl⟩ := h
      exact .relock hPc hWoken hOwner
  | pop =>
      simp only [PoolSys.go, hPc, Option.map_eq_some_iff] at h
      obtain ⟨req, hHead, rfl⟩ := h
      exact .pop hPc hHead
  | lockFree req =>
      simp only [PoolSys.go, hPc, Option.map_eq_some_iff, Monitor.State.lock_eq_some] at h
      obtain ⟨mtx, ⟨hOwner, rfl⟩, rfl⟩ := h
      exact .lockFree hPc hOwner
  | testWaiters =>
      simp only [PoolSys.go, hPc, Option.some.injEq] at h
      split at h
      · exact h ▸ .waiters hPc
      · next hNone => exact h ▸ .noWaiters hPc hNone
  | signal =>
      simp only [PoolSys.go, hPc, Option.some.injEq] at h
      exact h ▸ .noSleeper hPc (hSignal hPc)
  | _ =>
      simp only [PoolSys.go, hPc, Option.some.injEq] at h
      subst h
      constructor
      exact hPc

/-- So is a step of the system. -/
theorem poolStep_cases {s s' : PoolSys} {act : PoolAct} (hOk : Signals s act)
    (h : poolStep s act = some s') : PoolMove s act.thread s' := by
  unfold poolStep at h
  split at h
  · next hCall => exact go_cases (hOk hCall) h
  · exact Option.some.inj h ▸ .rouse
  · split at h
    · next hBoth => exact Option.some.inj h ▸ .wake hBoth.1 hBoth.2
    · cases h
  · split at h
    · next hPc => exact Option.some.inj h ▸ .alloc hPc
    · cases h
  · split at h
    · next hBoth => exact Option.some.inj h ▸ .free hBoth.1 hBoth.2
    · cases h
  · split at h
    · next hBoth => exact Option.some.inj h ▸ .use hBoth.1 hBoth.2
    · cases h

@[simp] theorem PoolSys.goto_pc_self (s : PoolSys) (t : Nat) (pc : PoolPc) : (s.goto t pc).pc t = pc :=
  Function.update_self _ _ _

theorem PoolSys.goto_pc_of_ne (s : PoolSys) {t u : Nat} (pc : PoolPc) (h : u ≠ t) :
    (s.goto t pc).pc u = s.pc u :=
  Function.update_of_ne h _ _

/-- A move changes the place of one thread at most. -/
theorem PoolMove.other {s s' : PoolSys} {t u : Nat} (h : PoolMove s t s') (hu : u ≠ t) :
    s'.pc u = s.pc u := by
  cases h with
  | rouse | use => rfl
  | _ => exact Function.update_of_ne hu _ _

/-- The mutex, the count of waiters, and which threads have not been woken. -/
structure PoolSys.Locked (s : PoolSys) : Prop where
  guarded : Guarded PoolPc.Holds s.pc s.mtx
  tally : Tally PoolPc.Counted s.pc s.waiters
  asleep : ∀ u, s.mtx.asleep u = true → s.pc u = .asleep

theorem PoolSys.Locked.atStart : PoolSys.start.Locked where
  guarded t := by simp [PoolSys.start, PoolPc.Holds, Monitor.State.idle]
  tally := ⟨∅, fun t => by simp [PoolSys.start, PoolPc.Counted], rfl⟩
  asleep u hu := by cases hu

/-- A thread moves, without falling asleep. -/
theorem PoolSys.Locked.asleep_move {s s' : PoolSys} {t : Nat} (h : s.Locked)
    (hOther : ∀ u, u ≠ t → s'.pc u = s.pc u)
    (hAsleep : ∀ u, s'.mtx.asleep u = true → s.mtx.asleep u = true)
    (hPc : s.pc t ≠ .asleep ∨ s.mtx.asleep t = false) (u : Nat) (hu : s'.mtx.asleep u = true) :
    s'.pc u = .asleep := by
  have hOld := hAsleep u hu
  by_cases hut : u = t
  · subst hut
    rcases hPc with hPc | hWoken
    · exact absurd (h.asleep u hOld) hPc
    · exact absurd (hWoken.symm.trans hOld) (by simp)
  · rw [hOther u hut]
    exact h.asleep u hOld

/-- The mutex has one owner, and the waiters are those that have been counted. -/
theorem PoolSys.Locked.step {s s' : PoolSys} {t : Nat} (h : s.Locked) (hMove : PoolMove s t s') :
    s'.Locked := by
  have hOther := fun u (hu : u ≠ t) => hMove.other hu
  cases hMove with
  | alloc hPc | free hPc =>
      exact {
        guarded := h.guarded.stay (by simp [hPc, PoolPc.Holds]) rfl
        tally := h.tally.stay (by simp [hPc, PoolPc.Counted])
        asleep := h.asleep_move hOther (fun _ => id) (Or.inl (by simp [hPc])) }
  | lock hPc hOwner | lockFree hPc hOwner =>
      exact {
        guarded := h.guarded.take hOwner (by simp [PoolPc.Holds]) rfl
        tally := h.tally.stay (by simp [hPc, PoolPc.Counted])
        asleep := h.asleep_move hOther (fun _ => id) (Or.inl (by simp [hPc])) }
  | relock hPc hWoken hOwner =>
      exact {
        guarded := h.guarded.take hOwner (by simp [PoolPc.Holds]) rfl
        tally := h.tally.stay (by simp [hPc, PoolPc.Counted])
        asleep := h.asleep_move hOther (fun _ => id) (Or.inr hWoken) }
  | raise hPc =>
      exact {
        guarded := h.guarded.stay (by simp [hPc, PoolPc.Holds]) rfl
        tally := h.tally.enter (by simp [hPc, PoolPc.Counted]) trivial
        asleep := h.asleep_move hOther (fun _ => id) (Or.inl (by simp [hPc])) }
  | lower hPc =>
      exact {
        guarded := h.guarded.stay (by simp [hPc, PoolPc.Holds]) rfl
        tally := h.tally.leave (by simp [hPc, PoolPc.Counted]) (by simp [PoolPc.Counted])
        asleep := h.asleep_move hOther (fun _ => id) (Or.inl (by simp [hPc])) }
  | sleep hPc =>
      refine {
        guarded := h.guarded.release (by simp [hPc, PoolPc.Holds]) (by simp [PoolPc.Holds]) rfl
        tally := h.tally.stay (by simp [hPc, PoolPc.Counted])
        asleep := fun u hu => ?_ }
      by_cases hut : u = t
      · subst hut
        exact PoolSys.goto_pc_self _ _ _
      · rw [hOther u hut]
        exact h.asleep u ((Function.update_of_ne hut _ _).symm.trans hu)
  | unlock hPc | unlockFree hPc =>
      exact {
        guarded := h.guarded.release (by simp [hPc, PoolPc.Holds]) (by simp [PoolPc.Holds]) rfl
        tally := h.tally.stay (by simp [hPc, PoolPc.Counted])
        asleep := h.asleep_move hOther (fun _ => id) (Or.inl (by simp [hPc])) }
  | @wake u hPc hAsleep =>
      exact {
        guarded := h.guarded.stay (by simp [hPc, PoolPc.Holds]) rfl
        tally := h.tally.stay (by simp [hPc, PoolPc.Counted])
        asleep := h.asleep_move hOther (fun _ => Monitor.State.asleep_of_rouse)
          (Or.inl (by simp [hPc])) }
  | rouse =>
      exact {
        guarded := h.guarded
        tally := h.tally
        asleep := fun v hv => h.asleep v (Monitor.State.asleep_of_rouse hv) }
  | use => exact ⟨h.guarded, h.tally, h.asleep⟩
  | empty hPc | found hPc | pop hPc | clear hPc | push hPc | waiters hPc | noWaiters hPc
  | noSleeper hPc =>
      exact {
        guarded := h.guarded.stay (by simp [hPc, PoolPc.Holds]) rfl
        tally := h.tally.stay (by simp [hPc, PoolPc.Counted])
        asleep := h.asleep_move hOther (fun _ => id) (Or.inl (by simp [hPc])) }

/-- The places of a request while callers and pool share them out. -/
inductive PoolPlace where
  | pool
  | caller
  | thread (t : Nat)
  deriving DecidableEq

def PoolSys.lies (s : PoolSys) : PoolPlace → ReqId → Prop
  | .pool, r => ∃ free, Chain s.mnt.reqNext s.mnt.reqHead free ∧ r ∈ free
  | .caller, r => r ∈ s.outs
  | .thread t, r => (s.pc t).carries = some r

/-- The free list is one, and each request is in just one place. -/
structure PoolSys.Shared (s : PoolSys) : Prop where
  chain : ∃ free, Chain s.mnt.reqNext s.mnt.reqHead free
  settled : Places.Settled s.lies

/-- What lies in the pool is the free list. -/
theorem PoolSys.lies_pool {s : PoolSys} {free : List ReqId} {r : ReqId}
    (h : Chain s.mnt.reqNext s.mnt.reqHead free) : s.lies .pool r ↔ r ∈ free := by
  constructor
  · rintro ⟨others, hOthers, hr⟩
    rwa [h.unique hOthers]
  · exact fun hr => ⟨free, h, hr⟩

/-- No request changes hands. -/
theorem PoolSys.Shared.same {s s' : PoolSys} {t : Nat} (h : s.Shared)
    (hOther : ∀ u, u ≠ t → s'.pc u = s.pc u) (hCarries : (s'.pc t).carries = (s.pc t).carries)
    (hHead : s'.mnt.reqHead = s.mnt.reqHead) (hNext : s'.mnt.reqNext = s.mnt.reqNext)
    (hOuts : s'.outs = s.outs) : s'.Shared := by
  have hLies : s'.lies = s.lies := by
    funext p r
    cases p with
    | pool => simp only [PoolSys.lies, hHead, hNext]
    | caller => simp only [PoolSys.lies, hOuts]
    | thread u =>
        by_cases hu : u = t
        · subst hu
          simp only [PoolSys.lies, hCarries]
        · simp only [PoolSys.lies, hOther u hu]
  exact ⟨by rw [hHead, hNext]; exact h.chain, by rw [hLies]; exact h.settled⟩

section
variable {s s' : PoolSys} {t : Nat} {req : ReqId} (h : s.Shared)

include h

theorem PoolSys.Shared.caller_after {y : ReqId} {p q : PoolPlace} (hIn : s.lies p req)
    (hOuts : s'.outs = s.outs) (hp : p ≠ .caller) (hq : .caller ≠ q) :
    s'.lies .caller y ↔ After s.lies req q .caller y := by
  change y ∈ s'.outs ↔ _
  rw [hOuts]
  exact Places.after_of_not_at (p := .caller) (h.settled.not_at hIn hp.symm) hq

theorem PoolSys.Shared.pool_after {y : ReqId} {p q : PoolPlace} (hIn : s.lies p req)
    (hHead : s'.mnt.reqHead = s.mnt.reqHead) (hNext : s'.mnt.reqNext = s.mnt.reqNext)
    (hp : p ≠ .pool) (hq : .pool ≠ q) : s'.lies .pool y ↔ After s.lies req q .pool y := by
  change (∃ free, Chain s'.mnt.reqNext s'.mnt.reqHead free ∧ y ∈ free) ↔ _
  rw [hHead, hNext]
  exact Places.after_of_not_at (p := .pool) (h.settled.not_at hIn hp.symm) hq

variable (hOther : ∀ u, u ≠ t → s'.pc u = s.pc u)

include hOther

/-- A thread that is not the mover still carries what it did. -/
theorem PoolSys.Shared.thread_after {u : Nat} {y : ReqId} {p q : PoolPlace} (hIn : s.lies p req)
    (hu : u ≠ t) (hp : p ≠ .thread u) (hq : .thread u ≠ q) :
    s'.lies (.thread u) y ↔ After s.lies req q (.thread u) y := by
  change (s'.pc u).carries = some y ↔ _
  rw [hOther u hu]
  exact Places.after_of_not_at (p := .thread u) (h.settled.not_at hIn hp.symm) hq

/-- The thread takes the head of the list. -/
theorem PoolSys.Shared.pop (hPc : s.pc t = .pop) (hReq : s.mnt.reqHead = some req)
    (hNew : s'.pc t = .unlock req) (hHead : s'.mnt.reqHead = s.mnt.reqNext req)
    (hNext : s'.mnt.reqNext = s.mnt.reqNext) (hOuts : s'.outs = s.outs) : s'.Shared := by
  obtain ⟨free, hChain⟩ := h.chain
  obtain ⟨rest, rfl, hTail⟩ := (hReq ▸ hChain).pop
  have hRest : Chain s'.mnt.reqNext s'.mnt.reqHead rest := by
    rwa [hNext, hHead]
  have hIn : s.lies .pool req := ⟨_, hChain, List.mem_cons_self⟩
  have hNodup := List.nodup_cons.mp hChain.nodup
  refine ⟨⟨rest, hRest⟩, h.settled.move (q := .thread t) (x := req) fun p y => ?_⟩
  cases p with
  | pool =>
      rw [PoolSys.lies_pool hRest, After, PoolSys.lies_pool hChain, List.mem_cons]
      constructor
      · intro hy
        refine Or.inl ⟨?_, Or.inr hy⟩
        rintro rfl
        exact hNodup.1 hy
      · rintro (⟨hne, hy⟩ | ⟨-, hEq⟩)
        · exact hy.resolve_left hne
        · cases hEq
  | caller => exact h.caller_after hIn hOuts (by simp) (by simp)
  | thread u =>
      by_cases hu : u = t
      · subst hu
        change (s'.pc u).carries = some y ↔ (_ ∧ (s.pc u).carries = _) ∨ _
        rw [hNew, hPc]
        simp [PoolPc.carries, eq_comm]
      · exact h.thread_after hOther hIn hu (by simp) (by simpa using hu)

/-- The thread returns the request to its caller. -/
theorem PoolSys.Shared.clear (hPc : s.pc t = .clear req) (hNew : s'.pc t = .out)
    (hHead : s'.mnt.reqHead = s.mnt.reqHead) (hNext : s'.mnt.reqNext = s.mnt.reqNext)
    (hOuts : s'.outs = insert req s.outs) : s'.Shared := by
  have hIn : s.lies (.thread t) req := by simp [PoolSys.lies, hPc, PoolPc.carries]
  refine ⟨by rw [hHead, hNext]; exact h.chain,
    h.settled.move (q := .caller) (x := req) fun p y => ?_⟩
  cases p with
  | pool => exact h.pool_after hIn hHead hNext (by simp) (by simp)
  | caller =>
      change y ∈ s'.outs ↔ (_ ∧ y ∈ s.outs) ∨ _
      rw [hOuts, Finset.mem_insert]
      tauto
  | thread u =>
      by_cases hu : u = t
      · subst hu
        change (s'.pc u).carries = some y ↔ (_ ∧ (s.pc u).carries = _) ∨ _
        rw [hNew, hPc]
        simp [PoolPc.carries, eq_comm]
      · exact h.thread_after hOther hIn hu (by simpa using Ne.symm hu) (by simp)

/-- A caller hands a request to `nct_req_free`. -/
theorem PoolSys.Shared.free (hPc : s.pc t = .out) (hMem : req ∈ s.outs)
    (hNew : s'.pc t = .lockFree req) (hHead : s'.mnt.reqHead = s.mnt.reqHead)
    (hNext : s'.mnt.reqNext = s.mnt.reqNext) (hOuts : s'.outs = s.outs.erase req) : s'.Shared := by
  have hIn : s.lies .caller req := hMem
  refine ⟨by rw [hHead, hNext]; exact h.chain,
    h.settled.move (q := .thread t) (x := req) fun p y => ?_⟩
  cases p with
  | pool => exact h.pool_after hIn hHead hNext (by simp) (by simp)
  | caller =>
      change y ∈ s'.outs ↔ (_ ∧ y ∈ s.outs) ∨ _
      rw [hOuts, Finset.mem_erase]
      simp
  | thread u =>
      by_cases hu : u = t
      · subst hu
        change (s'.pc u).carries = some y ↔ (_ ∧ (s.pc u).carries = _) ∨ _
        rw [hNew, hPc]
        simp [PoolPc.carries, eq_comm]
      · exact h.thread_after hOther hIn hu (by simp) (by simpa using hu)

/-- The request becomes the head of the list. -/
theorem PoolSys.Shared.push (hPc : s.pc t = .push req) (hNew : s'.pc t = .testWaiters)
    (hHead : s'.mnt.reqHead = some req)
    (hNext : s'.mnt.reqNext = update s.mnt.reqNext req s.mnt.reqHead) (hOuts : s'.outs = s.outs) :
    s'.Shared := by
  obtain ⟨free, hChain⟩ := h.chain
  have hIn : s.lies (.thread t) req := by simp [PoolSys.lies, hPc, PoolPc.carries]
  have hOut : req ∉ free := fun hMem =>
    h.settled.not_at hIn (q := .pool) (by simp) ⟨free, hChain, hMem⟩
  have hCons : Chain s'.mnt.reqNext s'.mnt.reqHead (req :: free) := by
    rw [hHead, hNext]
    exact hChain.push hOut
  refine ⟨⟨_, hCons⟩, h.settled.move (q := .pool) (x := req) fun p y => ?_⟩
  cases p with
  | pool =>
      rw [PoolSys.lies_pool hCons, After, PoolSys.lies_pool hChain, List.mem_cons]
      constructor
      · rintro (hy | hy)
        · exact Or.inr ⟨hy, rfl⟩
        · refine Or.inl ⟨?_, hy⟩
          rintro rfl
          exact hOut hy
      · exact fun hy => hy.elim (fun hOld => Or.inr hOld.2) fun hReq => Or.inl hReq.1
  | caller => exact h.caller_after hIn hOuts (by simp) (by simp)
  | thread u =>
      by_cases hu : u = t
      · subst hu
        change (s'.pc u).carries = some y ↔ (_ ∧ (s.pc u).carries = _) ∨ _
        rw [hNew, hPc]
        simp [PoolPc.carries, eq_comm]
      · exact h.thread_after hOther hIn hu (by simpa using Ne.symm hu) (by simp)

end

theorem PoolSys.Shared.atStart : PoolSys.start.Shared := by
  obtain ⟨free, hChain, hAll⟩ := reqCreate_all
  refine ⟨⟨free, hChain⟩, fun r => ⟨.pool, ⟨free, hChain, hAll r⟩, fun p hp => ?_⟩⟩
  cases p with
  | pool => rfl
  | caller => exact absurd hp (Finset.notMem_empty r)
  | thread t => cases hp

/-- Each move keeps the list a list, and each request in one place. -/
theorem PoolSys.Shared.step {s s' : PoolSys} {t : Nat} (h : s.Shared) (hMove : PoolMove s t s') :
    s'.Shared := by
  have hOther := fun u (hu : u ≠ t) => hMove.other hu
  cases hMove with
  | pop hPc hHead => exact h.pop hOther hPc hHead (PoolSys.goto_pc_self _ _ _) rfl rfl rfl
  | clear hPc => exact h.clear hOther hPc (PoolSys.goto_pc_self _ _ _) rfl rfl rfl
  | free hPc hMem => exact h.free hOther hPc hMem (PoolSys.goto_pc_self _ _ _) rfl rfl rfl
  | push hPc => exact h.push hOther hPc (PoolSys.goto_pc_self _ _ _) rfl rfl rfl
  | rouse | use => exact h.same (t := t) hOther rfl rfl rfl rfl
  | _ => exact h.same hOther (by simp [PoolPc.carries, *]) rfl rfl rfl

/-- The thread has found the pool empty, and has not been woken since. -/
def PoolSys.Watches (s : PoolSys) (t : Nat) : Prop :=
  s.pc t = .raise ∨ s.pc t = .sleep ∨ (s.pc t = .asleep ∧ s.mtx.asleep t = true)

/-- The thread is going to look at the pool, or to wake one that sleeps. -/
def PoolSys.Coming (s : PoolSys) (t : Nat) : Prop :=
  s.pc t = .test ∨ s.pc t = .pop ∨ s.pc t = .lower ∨ (s.pc t = .asleep ∧ s.mtx.asleep t = false) ∨
    s.pc t = .testWaiters ∨ s.pc t = .signal

def PoolSys.ComingAtLeast (s : PoolSys) (n : Nat) : Prop :=
  ∃ threads : Finset Nat, n ≤ threads.card ∧ ∀ u ∈ threads, s.Coming u

/-- While a thread watches, no request in the pool is left to it alone. -/
def PoolSys.Enough (s : PoolSys) : Prop :=
  ∀ t, s.Watches t → ∀ free, Chain s.mnt.reqNext s.mnt.reqHead free → s.ComingAtLeast free.length

section
variable {s s' : PoolSys} {t : Nat}

/-- Others that come do not stay away. -/
theorem PoolSys.ComingAtLeast.mono {n m : Nat} (h : s.ComingAtLeast n) (hLe : m ≤ n)
    (hComing : ∀ u, s.Coming u → s'.Coming u) : s'.ComingAtLeast m := by
  obtain ⟨threads, hCard, hAll⟩ := h
  exact ⟨threads, by omega, fun u hu => hComing u (hAll u hu)⟩

/-- One thread less is coming. -/
theorem PoolSys.ComingAtLeast.leave {n : Nat} (h : s.ComingAtLeast (n + 1))
    (hComing : ∀ u, u ≠ t → s.Coming u → s'.Coming u) : s'.ComingAtLeast n := by
  obtain ⟨threads, hCard, hAll⟩ := h
  have hErase := threads.pred_card_le_card_erase (a := t)
  refine ⟨threads.erase t, by omega, fun u hu => ?_⟩
  exact hComing u (Finset.ne_of_mem_erase hu) (hAll u (Finset.mem_of_mem_erase hu))

/-- One more is. -/
theorem PoolSys.ComingAtLeast.enter {n : Nat} {v : Nat} (h : s.ComingAtLeast n) (hv : ¬ s.Coming v)
    (hNew : s'.Coming v) (hComing : ∀ u, s.Coming u → s'.Coming u) : s'.ComingAtLeast (n + 1) := by
  obtain ⟨threads, hCard, hAll⟩ := h
  have hOut : v ∉ threads := fun hMem => hv (hAll v hMem)
  refine ⟨insert v threads, ?_, fun u hu => ?_⟩
  · rw [Finset.card_insert_of_notMem hOut]
    omega
  · rcases Finset.mem_insert.mp hu with rfl | hMem
    · exact hNew
    · exact hComing u (hAll u hMem)

theorem PoolSys.coming_other {u : Nat} (hPc : s'.pc u = s.pc u)
    (hAsleep : s.mtx.asleep u = false → s'.mtx.asleep u = false) (h : s.Coming u) : s'.Coming u := by
  unfold PoolSys.Coming at *
  rw [hPc]
  rcases h with h | h | h | h | h | h
  · exact Or.inl h
  · exact Or.inr (Or.inl h)
  · exact Or.inr (Or.inr (Or.inl h))
  · exact Or.inr (Or.inr (Or.inr (Or.inl ⟨h.1, hAsleep h.2⟩)))
  · exact Or.inr (Or.inr (Or.inr (Or.inr (Or.inl h))))
  · exact Or.inr (Or.inr (Or.inr (Or.inr (Or.inr h))))

/-- Neither the pool nor those that come or watch change for the worse. -/
theorem PoolSys.Enough.frame (h : s.Enough) (hHead : s'.mnt.reqHead = s.mnt.reqHead)
    (hNext : s'.mnt.reqNext = s.mnt.reqNext) (hOther : ∀ u, u ≠ t → s'.pc u = s.pc u)
    (hAsleep : ∀ u, u ≠ t → s'.mtx.asleep u = s.mtx.asleep u)
    (hComing : s.Coming t → s'.Coming t) (hWatches : s'.Watches t → s.Watches t) : s'.Enough := by
  intro u hu free hChain
  rw [hHead, hNext] at hChain
  have hOld : s.Watches u := by
    by_cases hut : u = t
    · subst hut
      exact hWatches hu
    · simpa only [PoolSys.Watches, hOther u hut, hAsleep u hut] using hu
  refine (h u hOld free hChain).mono (Nat.le_refl _) fun v hv => ?_
  by_cases hvt : v = t
  · subst hvt
    exact hComing hv
  · exact PoolSys.coming_other (hOther v hvt) (fun hFlag => (hAsleep v hvt).trans hFlag) hv

/-- While a thread has the mutex, all that watch are asleep. -/
theorem PoolSys.Locked.watcher_asleep (h : s.Locked) (hHolds : (s.pc t).Holds)
    (hQuiet : s.pc t ≠ .raise ∧ s.pc t ≠ .sleep) {u : Nat} (hu : s.Watches u) :
    s.pc u = .asleep ∧ s.mtx.asleep u = true := by
  rcases hu with hPc | hPc | hPc
  · obtain rfl := h.guarded.exclusive hHolds (u := u) (by simp [hPc, PoolPc.Holds])
    exact absurd hPc hQuiet.1
  · obtain rfl := h.guarded.exclusive hHolds (u := u) (by simp [hPc, PoolPc.Holds])
    exact absurd hPc hQuiet.2
  · exact hPc

/-- A thread that moves off leaves the others that watch as they were. -/
theorem PoolSys.watches_other (hOther : ∀ u, u ≠ t → s'.pc u = s.pc u) (hGone : ¬ s'.Watches t)
    (hAsleep : ∀ u, s'.mtx.asleep u = true → s.mtx.asleep u = true) {u : Nat} (hu : s'.Watches u) :
    s.Watches u := by
  have hut : u ≠ t := by
    rintro rfl
    exact hGone hu
  simp only [PoolSys.Watches, hOther u hut] at hu
  exact hu.imp_right fun hu => hu.imp_right fun hu => ⟨hu.1, hAsleep u hu.2⟩

end

/-- A move that takes a thread off its way takes a request off the list, or wakes a
sleeper. -/
theorem PoolSys.Enough.step {s s' : PoolSys} {t : Nat} (h : s.Enough) (hLocked : s.Locked)
    (hShared : s.Shared) (hMove : PoolMove s t s') : s'.Enough := by
  have hOther := fun u (hu : u ≠ t) => hMove.other hu
  cases hMove with
  | empty hPc hHead =>
      intro u _ free hChain
      change Chain s.mnt.reqNext s.mnt.reqHead free at hChain
      rw [hHead] at hChain
      have hNil : Chain s.mnt.reqNext none [] := rfl
      obtain rfl := hChain.unique hNil
      exact ⟨∅, Nat.le_refl _, by simp⟩
  | @pop req hPc hHead =>
      obtain ⟨free, hChain⟩ := hShared.chain
      obtain ⟨rest, rfl, hTail⟩ := (hHead ▸ hChain).pop
      intro u hu free hNew
      obtain rfl := hNew.unique hTail
      have hOld := PoolSys.watches_other hOther (by simp [PoolSys.Watches]) (fun _ => id) hu
      exact (h u hOld _ hChain).leave fun v hv hComing => PoolSys.coming_other (hOther v hv) id hComing
  | @push req hPc =>
      obtain ⟨free, hChain⟩ := hShared.chain
      have hIn : s.lies (.thread t) req := by simp [PoolSys.lies, hPc, PoolPc.carries]
      have hOut : req ∉ free := fun hMem =>
        hShared.settled.not_at hIn (q := .pool) (by simp) ⟨free, hChain, hMem⟩
      have hCons := hChain.push hOut
      intro u hu others hNew
      obtain rfl := hNew.unique hCons
      have hOld := PoolSys.watches_other hOther (by simp [PoolSys.Watches]) (fun _ => id) hu
      refine (h u hOld _ hChain).enter (v := t) (by simp [PoolSys.Coming, hPc])
        (by simp [PoolSys.Coming]) fun v hv => ?_
      have hvt : v ≠ t := by
        rintro rfl
        simp [PoolSys.Coming, hPc] at hv
      exact PoolSys.coming_other (hOther v hvt) id hv
  | noWaiters hPc hNone =>
      intro u hu
      have hOld := PoolSys.watches_other hOther (by simp [PoolSys.Watches]) (fun _ => id) hu
      obtain ⟨hAsleep, -⟩ := hLocked.watcher_asleep (t := t) (by simp [hPc, PoolPc.Holds])
        (by simp [hPc]) hOld
      have hCounted : (s.pc u).Counted := by simp [hAsleep, PoolPc.Counted]
      exact absurd (hLocked.tally.pos hCounted) hNone
  | noSleeper hPc hNone =>
      intro u hu
      have hOld := PoolSys.watches_other hOther (by simp [PoolSys.Watches]) (fun _ => id) hu
      obtain ⟨-, hFlag⟩ := hLocked.watcher_asleep (t := t) (by simp [hPc, PoolPc.Holds])
        (by simp [hPc]) hOld
      exact absurd ((hNone u).symm.trans hFlag) (by simp)
  | @wake v hPc hAsleep =>
      intro u hu free hChain
      have hOld := PoolSys.watches_other hOther (by simp [PoolSys.Watches])
        (fun _ => Monitor.State.asleep_of_rouse) hu
      have hvPc := hLocked.asleep v hAsleep
      have hvt : v ≠ t := by
        rintro rfl
        exact absurd (hPc.symm.trans hvPc) (by simp)
      cases hLength : free.length with
      | zero => exact ⟨∅, Nat.le_refl _, by simp⟩
      | succ n =>
          -- the signalling thread is coming no more, and the one it wakes is
          have hLess : (s.goto t .unlockFree).ComingAtLeast n :=
            (hLength ▸ h u hOld free hChain).leave fun w hw hComing =>
              PoolSys.coming_other (PoolSys.goto_pc_of_ne _ _ hw) id hComing
          refine hLess.enter (v := v) ?_ ?_ fun w hw => ?_
          · simp [PoolSys.Coming, PoolSys.goto_pc_of_ne _ _ hvt, hvPc]
            simpa [PoolSys.goto] using hAsleep
          · refine Or.inr (Or.inr (Or.inr (Or.inl ⟨?_, Function.update_self _ _ _⟩)))
            rwa [hOther v hvt]
          · exact PoolSys.coming_other (s := s.goto t .unlockFree) rfl Monitor.State.rouse_awake hw
  | rouse =>
      refine h.frame (t := t) rfl rfl hOther (fun u hu => Function.update_of_ne hu _ _)
        (PoolSys.coming_other rfl fun _ => Function.update_self _ _ _) fun hWatches => ?_
      simpa [PoolSys.Watches, Monitor.State.rouse] using
        hWatches.imp_right fun hw => hw.imp_right fun hw => absurd hw.2 (by simp [Monitor.State.rouse])
  | sleep hPc =>
      exact h.frame rfl rfl hOther (fun u hu => Function.update_of_ne hu _ _)
        (by simp [PoolSys.Coming, hPc]) (by simp [PoolSys.Watches, hPc])
  | use =>
      exact h.frame (t := t) rfl rfl hOther (fun _ _ => rfl) id id
  | _ =>
      exact h.frame rfl rfl hOther (fun _ _ => rfl) (by simp [PoolSys.Coming, *])
        (by simp [PoolSys.Watches, *])

structure PoolSys.Inv (s : PoolSys) : Prop where
  locked : s.Locked
  shared : s.Shared
  enough : s.Enough

theorem PoolSys.Inv.atStart : PoolSys.start.Inv where
  locked := PoolSys.Locked.atStart
  shared := PoolSys.Shared.atStart
  enough t ht := by simp [PoolSys.Watches, PoolSys.start] at ht

theorem PoolSys.Inv.step {s s' : PoolSys} {t : Nat} (h : s.Inv) (hMove : PoolMove s t s') : s'.Inv where
  locked := h.locked.step hMove
  shared := h.shared.step hMove
  enough := h.enough.step h.locked h.shared hMove

/-- All of it holds in every run. -/
theorem run_poolInv {s : PoolSys} (run : Run poolStep Signals PoolSys.start s) : s.Inv :=
  run.invariant PoolSys.Inv.atStart fun _ _ _ h hOk hStep => h.step (poolStep_cases hOk hStep)

/-- One signal for each request that is freed is enough: while a thread sleeps in
`nct_req_alloc` without having been woken, there are at least as many others on their
way to the pool, or about to wake one, as there are requests in it. -/
theorem signals_suffice (s : PoolSys) (run : Run poolStep Signals PoolSys.start s) (t : Nat)
    (hPc : s.pc t = .asleep) (hAsleep : s.mtx.asleep t = true) :
    ∃ free, Chain s.mnt.reqNext s.mnt.reqHead free ∧ ∃ threads : Finset Nat,
      free.length ≤ threads.card ∧ ∀ u ∈ threads, s.Coming u := by
  have h := run_poolInv run
  obtain ⟨free, hChain⟩ := h.shared.chain
  exact ⟨free, hChain, h.enough t (Or.inr (Or.inr ⟨hPc, hAsleep⟩)) free hChain⟩

/-- An event, on the pool with atomic operations. -/
def Mnt.event (mnt : Mnt) : PoolEvent → Option Mnt
  | .alloc _ req =>
      match reqAlloc mnt with
      | some (req', mnt') => if req' = req then some mnt' else none
      | none => none
  | .free _ req => some (reqFree mnt req)
  | .use _ req cb done => some (setReq mnt req cb done)

def replay : List PoolEvent → Option Mnt
  | [] => some (reqCreate Mnt.zero)
  | e :: log => (replay log).bind fun mnt => mnt.event e

/-- The thread has taken the request off the list and has yet to clear it. -/
def PoolPc.Clears (req : ReqId) (pc : PoolPc) : Prop := pc = .unlock req ∨ pc = .clear req

/-- The pool as it would be with atomic operations: the same, but that requests on
their way out have been cleared. -/
structure PoolSys.Refines (s : PoolSys) (mnt : Mnt) : Prop where
  rest : s.mnt = { mnt with reqCb := s.mnt.reqCb, reqDone := s.mnt.reqDone }
  same : ∀ r, (∀ t, ¬ (s.pc t).Clears r) →
    s.mnt.reqCb r = mnt.reqCb r ∧ s.mnt.reqDone r = mnt.reqDone r
  clear : ∀ t r, (s.pc t).Clears r → mnt.reqCb r = none ∧ mnt.reqDone r = false

theorem PoolPc.Clears.carries {pc : PoolPc} {req : ReqId} (h : pc.Clears req) :
    pc.carries = some req := by
  rcases h with rfl | rfl <;> rfl

/-- The pool does not change, nor what is on its way out. -/
theorem PoolSys.Refines.frame {s s' : PoolSys} {t : Nat} {mnt : Mnt} (h : s.Refines mnt)
    (hMnt : s'.mnt = s.mnt) (hOther : ∀ u, u ≠ t → s'.pc u = s.pc u)
    (hClears : ∀ r, (s'.pc t).Clears r ↔ (s.pc t).Clears r) : s'.Refines mnt := by
  have hAll : ∀ u r, (s'.pc u).Clears r ↔ (s.pc u).Clears r := by
    intro u r
    by_cases hu : u = t
    · subst hu
      exact hClears r
    · rw [hOther u hu]
  constructor
  · rw [hMnt]
    exact h.rest
  · intro r hr
    rw [hMnt]
    exact h.same r fun u hu => hr u ((hAll u r).mpr hu)
  · exact fun u r hu => h.clear u r ((hAll u r).mp hu)

/-- A request comes off the list here, and off that of the specification. -/
theorem PoolSys.Refines.pop {s s' : PoolSys} {t : Nat} {req : ReqId} {mnt : Mnt} (h : s.Refines mnt)
    (hShared : s.Shared) (hOther : ∀ u, u ≠ t → s'.pc u = s.pc u) (hPc : s.pc t = .pop)
    (hNew : s'.pc t = .unlock req) (hHead : s.mnt.reqHead = some req)
    (hMnt : s'.mnt = { s.mnt with reqHead := s.mnt.reqNext req }) :
    reqAlloc mnt = some (req, popReq mnt req) ∧ s'.Refines (popReq mnt req) := by
  have hHere : mnt.reqHead = some req := by
    rw [h.rest] at hHead
    exact hHead
  have hNot : ∀ u, ¬ (s.pc u).Clears req := by
    intro u hu
    obtain ⟨free, hChain⟩ := hShared.chain
    obtain ⟨rest, rfl, -⟩ := (hHead ▸ hChain).pop
    have hIn : s.lies .pool req := ⟨_, hChain, List.mem_cons_self⟩
    exact hShared.settled.not_at hIn (q := .thread u) (by simp) hu.carries
  refine ⟨by rw [reqAlloc, hHere]; rfl, ?_, fun r hr => ?_, fun u r hu => ?_⟩
  · rw [hMnt, h.rest]
    rfl
  · have hne : r ≠ req := by
      rintro rfl
      exact hr t (by simp [hNew, PoolPc.Clears])
    have hSame := h.same r fun u hu => hr u (by
      have hut : u ≠ t := by
        rintro rfl
        simp [hPc, PoolPc.Clears] at hu
      rwa [hOther u hut])
    rw [hMnt]
    exact ⟨hSame.1.trans (Function.update_of_ne hne _ _).symm,
      hSame.2.trans (Function.update_of_ne hne _ _).symm⟩
  · by_cases hReq : r = req
    · subst hReq
      exact ⟨Function.update_self _ _ _, Function.update_self _ _ _⟩
    · have hut : u ≠ t := by
        rintro rfl
        rw [hNew] at hu
        rcases hu with hu | hu
        · injection hu with hSame
          exact hReq hSame.symm
        · cases hu
      rw [hOther u hut] at hu
      have hOld := h.clear u r hu
      exact ⟨(Function.update_of_ne hReq _ _).trans hOld.1,
        (Function.update_of_ne hReq _ _).trans hOld.2⟩

/-- What the specification cleared at once is cleared now. -/
theorem PoolSys.Refines.cleared {s s' : PoolSys} {t : Nat} {req : ReqId} {mnt : Mnt}
    (h : s.Refines mnt) (hOther : ∀ u, u ≠ t → s'.pc u = s.pc u) (hPc : s.pc t = .clear req)
    (hNew : s'.pc t = .out) (hMnt : s'.mnt = setReq s.mnt req none false) : s'.Refines mnt := by
  refine ⟨?_, fun r hr => ?_, fun u r hu => ?_⟩
  · rw [hMnt, h.rest]
    rfl
  · rw [hMnt]
    by_cases hReq : r = req
    · subst hReq
      have hOld := h.clear t r (by simp [hPc, PoolPc.Clears])
      exact ⟨(Function.update_self _ _ _).trans hOld.1.symm,
        (Function.update_self _ _ _).trans hOld.2.symm⟩
    · have hSame := h.same r fun u hu => by
        by_cases hut : u = t
        · rw [hut, hPc] at hu
          rcases hu with hu | hu
          · cases hu
          · injection hu with hEq
            exact hReq hEq.symm
        · exact hr u (by rwa [hOther u hut])
      exact ⟨(Function.update_of_ne hReq _ _).trans hSame.1,
        (Function.update_of_ne hReq _ _).trans hSame.2⟩
  · have hut : u ≠ t := by
      rintro rfl
      simp [hNew, PoolPc.Clears] at hu
    exact h.clear u r (by rwa [hOther u hut] at hu)

/-- A request goes onto both lists. -/
theorem PoolSys.Refines.push {s s' : PoolSys} {t : Nat} {req : ReqId} {mnt : Mnt} (h : s.Refines mnt)
    (hOther : ∀ u, u ≠ t → s'.pc u = s.pc u) (hPc : s.pc t = .push req)
    (hNew : s'.pc t = .testWaiters) (hMnt : s'.mnt = reqFree s.mnt req) :
    s'.Refines (reqFree mnt req) := by
  have hAll : ∀ u r, (s'.pc u).Clears r ↔ (s.pc u).Clears r := by
    intro u r
    by_cases hu : u = t
    · subst hu
      simp [hNew, hPc, PoolPc.Clears]
    · rw [hOther u hu]
  refine ⟨?_, fun r hr => ?_, fun u r hu => h.clear u r ((hAll u r).mp hu)⟩
  · rw [hMnt, h.rest]
    rfl
  · rw [hMnt]
    exact h.same r fun u hu => hr u ((hAll u r).mpr hu)

/-- A caller uses a request that it has, which no thread is taking out. -/
theorem PoolSys.Refines.use {s s' : PoolSys} {req : ReqId} {cb : Option Job} {done : Bool} {mnt : Mnt}
    (h : s.Refines mnt) (hShared : s.Shared) (hMem : req ∈ s.outs) (hPc : s'.pc = s.pc)
    (hMnt : s'.mnt = setReq s.mnt req cb done) : s'.Refines (setReq mnt req cb done) := by
  refine ⟨?_, fun r hr => ?_, fun u r hu => ?_⟩
  · rw [hMnt, h.rest]
    rfl
  · rw [hPc] at hr
    rw [hMnt]
    by_cases hReq : r = req
    · subst hReq
      simp [setReq]
    · have hSame := h.same r hr
      simp only [setReq, Function.update_of_ne hReq]
      exact hSame
  · rw [hPc] at hu
    have hne : r ≠ req := by
      rintro rfl
      have hIn : s.lies .caller r := hMem
      exact hShared.settled.not_at hIn (q := .thread u) (by simp) hu.carries
    have hOld := h.clear u r hu
    exact ⟨(Function.update_of_ne hne _ _).trans hOld.1, (Function.update_of_ne hne _ _).trans hOld.2⟩

/-- A step is one event on the pool with atomic operations, or none. -/
theorem PoolSys.Refines.step {s s' : PoolSys} {t : Nat} {mnt : Mnt} (h : s.Refines mnt)
    (hShared : s.Shared) (hMove : PoolMove s t s') (hLog : replay s.log = some mnt) :
    ∃ mnt', replay s'.log = some mnt' ∧ s'.Refines mnt' := by
  have hOther := fun u (hu : u ≠ t) => hMove.other hu
  cases hMove with
  | pop hPc hHead =>
      obtain ⟨hAlloc, hNext⟩ := h.pop hShared hOther hPc (PoolSys.goto_pc_self _ _ _) hHead rfl
      refine ⟨_, ?_, hNext⟩
      change (replay s.log).bind _ = _
      rw [hLog]
      simp [Mnt.event, hAlloc]
  | clear hPc => exact ⟨mnt, hLog, h.cleared hOther hPc (PoolSys.goto_pc_self _ _ _) rfl⟩
  | push hPc =>
      refine ⟨_, ?_, h.push hOther hPc (PoolSys.goto_pc_self _ _ _) rfl⟩
      change (replay s.log).bind _ = _
      rw [hLog]
      rfl
  | use hPc hMem =>
      refine ⟨_, ?_, h.use hShared hMem rfl rfl⟩
      change (replay s.log).bind _ = _
      rw [hLog]
      rfl
  | rouse => exact ⟨mnt, hLog, h.frame (t := t) rfl hOther fun _ => Iff.rfl⟩
  | _ => exact ⟨mnt, hLog, h.frame rfl hOther (by simp [PoolPc.Clears, *])⟩

theorem PoolSys.Refines.atStart : PoolSys.start.Refines (reqCreate Mnt.zero) := by
  change PoolSys.Refines { PoolSys.start with mnt := reqCreate Mnt.zero } (reqCreate Mnt.zero)
  generalize reqCreate Mnt.zero = mnt
  refine ⟨rfl, fun _ _ => ⟨rfl, rfl⟩, ?_⟩
  rintro t r (hPc | hPc) <;> cases hPc

/-- With their locks and waits, `nct_req_alloc` and `nct_req_free` do what the two
atomic operations on the pool would do in the order in which they reached it; and each
request is in the pool, with its caller or with one thread inside them. -/
theorem pool_linearizable (s : PoolSys) (run : Run poolStep Signals PoolSys.start s) :
    (∃ mnt, replay s.log = some mnt ∧ s.Refines mnt) ∧ ∀ r, ∃! p, s.lies p r := by
  refine ⟨?_, (run_poolInv run).shared.settled⟩
  suffices h : s.Inv ∧ ∃ mnt, replay s.log = some mnt ∧ s.Refines mnt from h.2
  refine run.invariant (P := fun s => s.Inv ∧ ∃ mnt, replay s.log = some mnt ∧ s.Refines mnt) ?_ ?_
  · exact ⟨PoolSys.Inv.atStart, reqCreate Mnt.zero, rfl, PoolSys.Refines.atStart⟩
  · rintro s act s' ⟨hInv, mnt, hLog, hRefines⟩ hOk hStep
    have hMove := poolStep_cases hOk hStep
    exact ⟨hInv.step hMove, hRefines.step hInv.shared hMove hLog⟩

/-- No signal is lost: a thread goes on from `pthread_cond_signal` only by waking one. -/
def NoSignal (s : PoolSys) (act : PoolAct) : Prop := act.call = .go → s.pc act.thread ≠ .signal

instance (s : PoolSys) (act : PoolAct) : Decidable (NoSignal s act) :=
  inferInstanceAs (Decidable (_ → _))

/-- Then `pthread_cond_signal` does what it should. -/
theorem NoSignal.signals {s : PoolSys} {act : PoolAct} (h : NoSignal s act) : Signals s act :=
  fun hGo hSignal => absurd hSignal (h hGo)

/-- While the pool has a request, `nct_req_alloc` returns without a wait. -/
theorem PoolSys.alloc_runs {s : PoolSys} {t : Nat} {req : ReqId} (hPc : s.pc t = .out)
    (hOwner : s.mtx.owner = none) (hHead : s.mnt.reqHead = some req) :
    ∃ s', exec poolStep NoSignal s (⟨t, .alloc⟩ :: List.replicate 5 ⟨t, .go⟩) = some s' ∧
      s'.pc = s.pc ∧ s'.mtx = s.mtx ∧ s'.waiters = s.waiters ∧
      s'.mnt.reqHead = s.mnt.reqNext req ∧ s'.mnt.reqNext = s.mnt.reqNext ∧
      s'.outs = insert req s.outs := by
  have hSame : update s.pc t .out = s.pc := by rw [← hPc, Function.update_eq_self]
  simp [exec, List.replicate, poolStep, PoolSys.go, NoSignal, PoolSys.goto, hPc, hOwner, hHead,
    Monitor.State.lock, Monitor.State.unlock, setReq, hSame]
  rw [← hOwner]

/-- One thread can empty the pool. -/
theorem PoolSys.emptied {t : Nat} (free : List ReqId) : ∀ s : PoolSys,
    Chain s.mnt.reqNext s.mnt.reqHead free → s.pc t = .out → s.mtx.owner = none →
    ∃ s', Run poolStep NoSignal s s' ∧ s'.mnt.reqHead = none ∧ s'.pc = s.pc ∧ s'.mtx = s.mtx ∧
      s'.waiters = s.waiters ∧ ∀ r, r ∈ s'.outs ↔ r ∈ free ∨ r ∈ s.outs := by
  induction free with
  | nil => exact fun s hChain _ _ => ⟨s, .nil, hChain, rfl, rfl, rfl, by simp⟩
  | cons req free ih =>
      intro s hChain hPc hOwner
      obtain ⟨hHead, hRest⟩ := hChain
      obtain ⟨mid, hExec, hMidPc, hMidMtx, hMidWaiters, hMidHead, hMidNext, hMidOuts⟩ :=
        PoolSys.alloc_runs hPc hOwner hHead
      obtain ⟨s', run, hEmpty, hPc', hMtx', hWaiters', hOuts'⟩ := ih mid
        (by rwa [hMidHead, hMidNext]) (by rw [hMidPc, hPc]) (by rw [hMidMtx, hOwner])
      refine ⟨s', (Run.of_exec hExec).trans run, hEmpty, hPc'.trans hMidPc, hMtx'.trans hMidMtx,
        hWaiters'.trans hMidWaiters, fun r => ?_⟩
      rw [hOuts', hMidOuts, Finset.mem_insert, List.mem_cons]
      tauto

/-- Thread 1 sleeps since the pool is empty; then thread 0 frees a request. -/
def sleepSteps (req : ReqId) : List PoolAct :=
  ⟨1, .alloc⟩ :: List.replicate 4 ⟨1, .go⟩ ++ ⟨0, .free req⟩ :: List.replicate 2 ⟨0, .go⟩

/-- While thread 1 sleeps, thread 0 is about to wake it. -/
theorem signals_suffice_sleepSteps : ∃ (s : PoolSys) (req : ReqId), s.pc 1 = .asleep ∧
    s.mnt.reqHead = some req ∧ ∃ threads : Finset Nat, 1 ≤ threads.card ∧ ∀ u ∈ threads, s.Coming u := by
  obtain ⟨free, hChain, hAll⟩ := reqCreate_all
  let req : ReqId := ⟨7, by decide⟩
  obtain ⟨mid, hEmptied, hHead, hPc, hMtx, hWaiters, hOuts⟩ :=
    PoolSys.emptied (t := 0) free PoolSys.start hChain rfl rfl
  have hMem : req ∈ mid.outs := (hOuts req).mpr (Or.inl (hAll req))
  obtain ⟨s, hExec, hAsleep, hFlag, hReq⟩ : ∃ s, exec poolStep NoSignal mid (sleepSteps req) = some s ∧
      s.pc 1 = .asleep ∧ s.mtx.asleep 1 = true ∧ s.mnt.reqHead = some req := by
    have hOut : ∀ u, mid.pc u = .out := fun u => congrFun hPc u
    simp [sleepSteps, exec, List.replicate, poolStep, PoolSys.go, NoSignal, PoolSys.goto, hOut, hHead,
      hMtx, hMem, PoolSys.start, Monitor.State.idle, Monitor.State.lock, Monitor.State.sleep, reqFree]
  have hRun : Run poolStep Signals PoolSys.start s :=
    (hEmptied.trans (Run.of_exec hExec)).mono fun _ _ => NoSignal.signals
  obtain ⟨free', hChain', threads, hCard, hComing⟩ := signals_suffice s hRun 1 hAsleep hFlag
  refine ⟨s, req, hAsleep, hReq, threads, ?_, hComing⟩
  obtain ⟨rest, rfl, -⟩ := (hReq ▸ hChain').pop
  exact Nat.le_trans (by simp) hCard

/-- Thread 0 wakes thread 1, which takes the request. -/
def wakeSteps : List PoolAct :=
  ⟨0, .go⟩ :: ⟨0, .wake 1⟩ :: ⟨0, .go⟩ :: List.replicate 6 ⟨1, .go⟩

/-- Thread 1 gets the request for which it has slept, once thread 0 has freed it. -/
theorem pool_linearizable_wakeSteps : ∃ (s : PoolSys) (req : ReqId) (log : List PoolEvent) (mnt : Mnt),
    s.log = .alloc 1 req :: .free 0 req :: log ∧ req ∈ s.outs ∧ replay s.log = some mnt ∧
      s.Refines mnt := by
  obtain ⟨free, hChain, hAll⟩ := reqCreate_all
  let req : ReqId := ⟨7, by decide⟩
  obtain ⟨mid, hEmptied, hHead, hPc, hMtx, hWaiters, hOuts⟩ :=
    PoolSys.emptied (t := 0) free PoolSys.start hChain rfl rfl
  have hMem : req ∈ mid.outs := (hOuts req).mpr (Or.inl (hAll req))
  obtain ⟨s, hExec, hLog, hTaken⟩ :
      ∃ s, exec poolStep NoSignal mid (sleepSteps req ++ wakeSteps) = some s ∧
        s.log = .alloc 1 req :: .free 0 req :: mid.log ∧ req ∈ s.outs := by
    have hOut : ∀ u, mid.pc u = .out := fun u => congrFun hPc u
    simp [sleepSteps, wakeSteps, exec, List.replicate, poolStep, PoolSys.go, NoSignal, PoolSys.goto,
      hOut, hHead, hMtx, hMem, hWaiters, PoolSys.start, Monitor.State.idle, Monitor.State.lock,
      Monitor.State.unlock, Monitor.State.relock, Monitor.State.rouse, Monitor.State.sleep, reqFree]
  have hRun : Run poolStep Signals PoolSys.start s :=
    (hEmptied.trans (Run.of_exec hExec)).mono fun _ _ => NoSignal.signals
  obtain ⟨⟨mnt, hReplay, hRefines⟩, -⟩ := pool_linearizable s hRun
  exact ⟨s, req, mid.log, mnt, hLog, hTaken, hReplay, hRefines⟩

end Nct
