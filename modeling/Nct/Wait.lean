import Nct.Req
import Nct.Support.Monitor
import Nct.Support.Run

/-! Waiting for a reply. Any number of threads wait in `nct_req_wait`, complete
requests that have no callback in the receive loop, and send requests. One step
is one access to `req_done` or `mnt_wait_waiters`, or one operation on
`mnt_wait_mtx` or `mnt_wait_cv`. -/
namespace Nct

open Function (update)
open Monitor (Guarded Tally)

inductive WaitPc where
  | out
  /-- `pthread_mutex_lock` in `nct_req_wait` -/
  | lock (req : ReqId)
  /-- `while (!req->req_done)` -/
  | test (req : ReqId)
  /-- `++mnt->mnt_wait_waiters` -/
  | raise (req : ReqId)
  /-- calling `pthread_cond_wait` -/
  | sleep (req : ReqId)
  /-- inside `pthread_cond_wait`, without the mutex -/
  | asleep (req : ReqId)
  /-- `--mnt->mnt_wait_waiters` -/
  | lower (req : ReqId)
  /-- `pthread_mutex_unlock` in `nct_req_wait` -/
  | unlock
  /-- `req->req_done = true` -/
  | setDone (req : ReqId)
  /-- `pthread_mutex_lock` in the receive loop -/
  | lockDone (req : ReqId)
  /-- `if (mnt->mnt_wait_waiters > 0)` -/
  | testWaiters (req : ReqId)
  | broadcast (req : ReqId)
  /-- `pthread_mutex_unlock` in the receive loop -/
  | unlockDone (req : ReqId)
  deriving DecidableEq, Repr

/-- `mnt_wait_mtx` is held there. -/
def WaitPc.Holds : WaitPc → Prop
  | .test _ | .raise _ | .sleep _ | .lower _ | .unlock => True
  | .testWaiters _ | .broadcast _ | .unlockDone _ => True
  | .out | .lock _ | .asleep _ | .setDone _ | .lockDone _ => False

/-- The thread is counted in `mnt_wait_waiters` there. -/
def WaitPc.Counted : WaitPc → Prop
  | .sleep _ | .asleep _ | .lower _ => True
  | .out | .lock _ | .test _ | .raise _ | .unlock => False
  | .setDone _ | .lockDone _ | .testWaiters _ | .broadcast _ | .unlockDone _ => False

/-- The request has been completed there, and the broadcast is still to come. -/
def WaitPc.Owes (req : ReqId) : WaitPc → Prop
  | .lockDone r | .testWaiters r | .broadcast r => r = req
  | .out | .lock _ | .test _ | .raise _ | .sleep _ | .asleep _ | .lower _ | .unlock => False
  | .setDone _ | .unlockDone _ => False

/-- From setting `req_done` to leaving the critical section after it. -/
def WaitPc.Completing (req : ReqId) (pc : WaitPc) : Prop := pc.Owes req ∨ pc = .unlockDone req

instance (req : ReqId) (pc : WaitPc) : Decidable (pc.Owes req) := by
  cases pc <;> simp only [WaitPc.Owes] <;> infer_instance

instance (req : ReqId) (pc : WaitPc) : Decidable (pc.Completing req) :=
  inferInstanceAs (Decidable (_ ∨ _))

/-- The threads with what they share. `completer` is the thread that set
`req_done` last, which no step looks at. -/
structure WaitSys where
  mtx : Monitor.State Nat
  waiters : Int
  done : ReqId → Bool
  pc : Nat → WaitPc
  completer : ReqId → Option Nat

def WaitSys.start : WaitSys where
  mtx := .idle
  waiters := 0
  done := fun _ => false
  pc := fun _ => .out
  completer := fun _ => none

/-- What a thread does next: call one of these functions, or go on in one. -/
inductive WaitCall where
  | wait (req : ReqId)
  | complete (req : ReqId)
  /-- `nct_req_send` or `nct_req_alloc`, which clear `req_done` -/
  | send (req : ReqId)
  /-- the broadcast in `nct_umount` -/
  | umount
  /-- a spurious wakeup -/
  | rouse
  | go
  deriving DecidableEq, Repr

structure WaitAct where
  thread : Nat
  call : WaitCall
  deriving DecidableEq, Repr

def WaitSys.goto (s : WaitSys) (t : Nat) (pc : WaitPc) : WaitSys := { s with pc := update s.pc t pc }

/-- The next step of a thread inside a function. -/
def WaitSys.go (s : WaitSys) (t : Nat) : Option WaitSys :=
  match s.pc t with
  | .out => none
  | .lock req => (s.mtx.lock t).map fun mtx => { s with mtx }.goto t (.test req)
  | .test req => some (if s.done req then s.goto t .unlock else s.goto t (.raise req))
  | .raise req => some ({ s with waiters := s.waiters + 1 }.goto t (.sleep req))
  | .sleep req => some ({ s with mtx := s.mtx.sleep t }.goto t (.asleep req))
  | .asleep req => (s.mtx.relock t).map fun mtx => { s with mtx }.goto t (.lower req)
  | .lower req => some ({ s with waiters := s.waiters - 1 }.goto t (.test req))
  | .unlock => some ({ s with mtx := s.mtx.unlock }.goto t .out)
  | .setDone req =>
      some ({ s with
        done := update s.done req true
        completer := update s.completer req (some t) }.goto t (.lockDone req))
  | .lockDone req => (s.mtx.lock t).map fun mtx => { s with mtx }.goto t (.testWaiters req)
  | .testWaiters req =>
      some (s.goto t (if s.waiters > 0 then .broadcast req else .unlockDone req))
  | .broadcast req => some ({ s with mtx := s.mtx.broadcast }.goto t (.unlockDone req))
  | .unlockDone _ => some ({ s with mtx := s.mtx.unlock }.goto t .out)

def waitStep (s : WaitSys) (act : WaitAct) : Option WaitSys :=
  match act.call with
  | .go => s.go act.thread
  | .rouse => some { s with mtx := s.mtx.rouse act.thread }
  | .wait req => if s.pc act.thread = .out then some (s.goto act.thread (.lock req)) else none
  | .complete req => if s.pc act.thread = .out then some (s.goto act.thread (.setDone req)) else none
  | .send req =>
      if s.pc act.thread = .out then some { s with done := update s.done req false } else none
  | .umount => if s.pc act.thread = .out then some { s with mtx := s.mtx.broadcast } else none

/-- The thread has found the request not done, and has not been woken since. -/
def WaitSys.Watches (s : WaitSys) (t : Nat) (req : ReqId) : Prop :=
  s.pc t = .raise req ∨ s.pc t = .sleep req ∨ (s.pc t = .asleep req ∧ s.mtx.asleep t = true)

/-- The thread sleeps on a request that is done, nothing has woken it, and the
thread that completed the request has left its critical section. -/
def WaitSys.LostWakeup (s : WaitSys) (t : Nat) (req : ReqId) : Prop :=
  s.pc t = .asleep req ∧ s.mtx.asleep t = true ∧ s.done req = true ∧
    ∀ u, s.completer req = some u → ¬ (s.pc u).Completing req

/-- A thread's step does not make another one watch. -/
theorem watches_other {s : WaitSys} {t u : Nat} {pc : WaitPc} {req : ReqId} (hu : u ≠ t)
    (h : (s.goto t pc).Watches u req) : s.Watches u req := by
  simpa [WaitSys.Watches, WaitSys.goto, Function.update_of_ne hu] using h

structure WaitSys.Inv (s : WaitSys) : Prop where
  guarded : Guarded WaitPc.Holds s.pc s.mtx
  tally : Tally WaitPc.Counted s.pc s.waiters
  owed : ∀ t req, s.Watches t req → s.done req = true →
    ∃ u, s.completer req = some u ∧ (s.pc u).Owes req

theorem start_waitInv : WaitSys.start.Inv where
  guarded := fun t => by simp [WaitSys.start, WaitPc.Holds, Monitor.State.idle]
  tally := ⟨∅, fun t => by simp [WaitSys.start, WaitPc.Counted], rfl⟩
  owed := fun t req hWatches => by simp [WaitSys.Watches, WaitSys.start] at hWatches

/-- A thread moves and leaves `req_done` alone. What it owes it owes still, it
watches nothing new that is done, and no other thread falls asleep. -/
theorem WaitSys.Inv.owed_move {s s' : WaitSys} (h : s.Inv) {t : Nat} {pc : WaitPc}
    (hPc : s'.pc = update s.pc t pc) (hDone : s'.done = s.done)
    (hCompleter : s'.completer = s.completer)
    (hAsleep : ∀ u, u ≠ t → s'.mtx.asleep u = true → s.mtx.asleep u = true)
    (hOwes : ∀ req, (s.pc t).Owes req → pc.Owes req)
    (hWatches : ∀ req, s'.Watches t req → s.done req = true → s.Watches t req) :
    ∀ u req, s'.Watches u req → s'.done req = true →
      ∃ v, s'.completer req = some v ∧ (s'.pc v).Owes req := by
  intro u req hWatch hSet
  rw [hDone] at hSet
  have hBefore : s.Watches u req := by
    by_cases hu : u = t
    · subst hu
      exact hWatches req hWatch hSet
    · simp only [WaitSys.Watches, hPc, Function.update_of_ne hu] at hWatch
      exact hWatch.imp_right fun h => h.imp_right fun h => ⟨h.1, hAsleep u hu h.2⟩
  obtain ⟨v, hLast, hOwed⟩ := h.owed u req hBefore hSet
  refine ⟨v, hCompleter ▸ hLast, ?_⟩
  rw [hPc]
  by_cases hv : v = t
  · subst hv
    rw [Function.update_self]
    exact hOwes req hOwed
  · rwa [Function.update_of_ne hv]

/-- The same for a thread that watches nothing any more. -/
theorem WaitSys.Inv.owed_quiet {s s' : WaitSys} (h : s.Inv) {t : Nat} {pc : WaitPc}
    (hPc : s'.pc = update s.pc t pc) (hDone : s'.done = s.done)
    (hCompleter : s'.completer = s.completer) (hAsleep : s'.mtx.asleep = s.mtx.asleep)
    (hOwes : ∀ req, (s.pc t).Owes req → pc.Owes req)
    (hQuiet : ∀ req, pc ≠ .raise req ∧ pc ≠ .sleep req ∧ pc ≠ .asleep req) :
    ∀ u req, s'.Watches u req → s'.done req = true →
      ∃ v, s'.completer req = some v ∧ (s'.pc v).Owes req := by
  apply h.owed_move hPc hDone hCompleter
  · intro u _ hSleeps
    rwa [hAsleep] at hSleeps
  · exact hOwes
  · intro req hWatches
    simp [WaitSys.Watches, hPc, hQuiet req] at hWatches

/-- While a thread is about to broadcast, all that watch are asleep. -/
theorem WaitSys.Inv.watcher_asleep {s : WaitSys} (h : s.Inv) {t u : Nat} {req r : ReqId}
    (hHolds : (s.pc t).Holds) (hOwes : (s.pc t).Owes req) (hWatches : s.Watches u r) :
    s.pc u = .asleep r ∧ s.mtx.asleep u = true := by
  rcases hWatches with hPc | hPc | hPc
  · obtain rfl := h.guarded.exclusive hHolds (u := u) (by simp [hPc, WaitPc.Holds])
    simp [hPc, WaitPc.Owes] at hOwes
  · obtain rfl := h.guarded.exclusive hHolds (u := u) (by simp [hPc, WaitPc.Holds])
    simp [hPc, WaitPc.Owes] at hOwes
  · exact hPc

/-- Where the broadcast is left out no thread watches: it would be counted. -/
theorem WaitSys.Inv.unwatched {s : WaitSys} (h : s.Inv) {t u : Nat} {req r : ReqId}
    (hPc : s.pc t = .testWaiters req) (hNone : ¬ s.waiters > 0) : ¬ s.Watches u r := by
  intro hWatches
  have hHolds : (s.pc t).Holds := by simp [hPc, WaitPc.Holds]
  have hOwes : (s.pc t).Owes req := by simp [hPc, WaitPc.Owes]
  obtain ⟨hAsleep, -⟩ := h.watcher_asleep hHolds hOwes hWatches
  have hCounted : (s.pc u).Counted := by simp [hAsleep, WaitPc.Counted]
  exact hNone (h.tally.pos hCounted)

/-- After the broadcast no thread watches. -/
theorem WaitSys.Inv.broadcast_wakes {s : WaitSys} (h : s.Inv) {t u : Nat} {req r : ReqId}
    (hPc : s.pc t = .broadcast req) :
    ¬ ({ s with mtx := s.mtx.broadcast }.goto t (.unlockDone req)).Watches u r := by
  intro hWatches
  have hHolds : (s.pc t).Holds := by simp [hPc, WaitPc.Holds]
  have hOwes : (s.pc t).Owes req := by simp [hPc, WaitPc.Owes]
  by_cases hu : u = t
  · subst hu
    simp [WaitSys.Watches, WaitSys.goto] at hWatches
  · simp only [WaitSys.Watches, WaitSys.goto, Function.update_of_ne hu, Monitor.State.broadcast,
      Bool.false_eq_true, and_false, or_false] at hWatches
    have hBefore : s.Watches u r := hWatches.imp_right Or.inl
    obtain ⟨hAsleep, -⟩ := h.watcher_asleep hHolds hOwes hBefore
    simp [hAsleep] at hWatches

/-- A thread that has set `req_done` owes the broadcast. -/
theorem WaitSys.Inv.owed_setDone {s : WaitSys} (h : s.Inv) {t : Nat} {req : ReqId}
    (hPc : s.pc t = .setDone req) (u : Nat) (r : ReqId)
    (hWatch : (s.goto t (.lockDone req)).Watches u r) (hSet : update s.done req true r = true) :
    ∃ v, update s.completer req (some t) r = some v ∧
      ((s.goto t (.lockDone req)).pc v).Owes r := by
  by_cases hReq : r = req
  · subst hReq
    exact ⟨t, Function.update_self _ _ _, by simp [WaitSys.goto, WaitPc.Owes]⟩
  · rw [Function.update_of_ne hReq] at hSet ⊢
    have hMove : ∀ u r, (s.goto t (.lockDone req)).Watches u r → s.done r = true →
        ∃ v, s.completer r = some v ∧ ((s.goto t (.lockDone req)).pc v).Owes r :=
      h.owed_quiet rfl rfl rfl rfl (by simp [hPc, WaitPc.Owes]) (by simp)
    exact hMove u r hWatch hSet

/-- A thread takes its next step. -/
theorem go_waitInv {s s' : WaitSys} {t : Nat} (h : s.Inv) (hStep : s.go t = some s') : s'.Inv := by
  cases hPc : s.pc t with
  | out => simp [WaitSys.go, hPc] at hStep
  | lock req =>
      simp only [WaitSys.go, hPc, Option.map_eq_some_iff, Monitor.State.lock_eq_some] at hStep
      obtain ⟨mtx, ⟨hOwner, rfl⟩, rfl⟩ := hStep
      exact {
        guarded := h.guarded.take hOwner (by simp [WaitPc.Holds]) rfl
        tally := h.tally.stay (by simp [hPc, WaitPc.Counted])
        owed := h.owed_quiet rfl rfl rfl rfl (by simp [hPc, WaitPc.Owes]) (by simp) }
  | test req =>
      simp only [WaitSys.go, hPc, Option.some.injEq] at hStep
      split at hStep
      · subst hStep
        exact {
          guarded := h.guarded.stay (by simp [hPc, WaitPc.Holds]) rfl
          tally := h.tally.stay (by simp [hPc, WaitPc.Counted])
          owed := h.owed_quiet rfl rfl rfl rfl (by simp [hPc, WaitPc.Owes]) (by simp) }
      · next hNot =>
          subst hStep
          exact {
            guarded := h.guarded.stay (by simp [hPc, WaitPc.Holds]) rfl
            tally := h.tally.stay (by simp [hPc, WaitPc.Counted])
            owed := h.owed_move rfl rfl rfl (fun _ _ => id) (by simp [hPc, WaitPc.Owes])
              (fun r hWatches hDone => by
                obtain rfl : req = r := by simpa [WaitSys.Watches, WaitSys.goto] using hWatches
                exact absurd hDone hNot) }
  | raise req =>
      simp only [WaitSys.go, hPc, Option.some.injEq] at hStep
      subst hStep
      exact {
        guarded := h.guarded.stay (by simp [hPc, WaitPc.Holds]) rfl
        tally := h.tally.enter (by simp [hPc, WaitPc.Counted]) trivial
        owed := h.owed_move rfl rfl rfl (fun _ _ => id) (by simp [hPc, WaitPc.Owes])
          (fun r hWatches _ => by
            obtain rfl : req = r := by simpa [WaitSys.Watches, WaitSys.goto] using hWatches
            exact Or.inl hPc) }
  | sleep req =>
      simp only [WaitSys.go, hPc, Option.some.injEq] at hStep
      subst hStep
      exact {
        guarded := h.guarded.release (by simp [hPc, WaitPc.Holds]) (by simp [WaitPc.Holds]) rfl
        tally := h.tally.stay (by simp [hPc, WaitPc.Counted])
        owed := h.owed_move rfl rfl rfl
          (fun u hu hAsleep => by
            simpa [WaitSys.goto, Monitor.State.sleep, Function.update_of_ne hu] using hAsleep)
          (by simp [hPc, WaitPc.Owes])
          (fun r hWatches _ => by
            obtain ⟨rfl, -⟩ : req = r ∧ _ := by simpa [WaitSys.Watches, WaitSys.goto] using hWatches
            exact Or.inr (Or.inl hPc)) }
  | asleep req =>
      simp only [WaitSys.go, hPc, Option.map_eq_some_iff, Monitor.State.relock_eq_some] at hStep
      obtain ⟨mtx, ⟨-, hOwner, rfl⟩, rfl⟩ := hStep
      exact {
        guarded := h.guarded.take hOwner (by simp [WaitPc.Holds]) rfl
        tally := h.tally.stay (by simp [hPc, WaitPc.Counted])
        owed := h.owed_quiet rfl rfl rfl rfl (by simp [hPc, WaitPc.Owes]) (by simp) }
  | lower req =>
      simp only [WaitSys.go, hPc, Option.some.injEq] at hStep
      subst hStep
      exact {
        guarded := h.guarded.stay (by simp [hPc, WaitPc.Holds]) rfl
        tally := h.tally.leave (by simp [hPc, WaitPc.Counted]) (by simp [WaitPc.Counted])
        owed := h.owed_quiet rfl rfl rfl rfl (by simp [hPc, WaitPc.Owes]) (by simp) }
  | unlock =>
      simp only [WaitSys.go, hPc, Option.some.injEq] at hStep
      subst hStep
      exact {
        guarded := h.guarded.release (by simp [hPc, WaitPc.Holds]) (by simp [WaitPc.Holds]) rfl
        tally := h.tally.stay (by simp [hPc, WaitPc.Counted])
        owed := h.owed_quiet rfl rfl rfl rfl (by simp [hPc, WaitPc.Owes]) (by simp) }
  | setDone req =>
      simp only [WaitSys.go, hPc, Option.some.injEq] at hStep
      subst hStep
      exact {
        guarded := h.guarded.stay (by simp [hPc, WaitPc.Holds]) rfl
        tally := h.tally.stay (by simp [hPc, WaitPc.Counted])
        owed := h.owed_setDone hPc }
  | lockDone req =>
      simp only [WaitSys.go, hPc, Option.map_eq_some_iff, Monitor.State.lock_eq_some] at hStep
      obtain ⟨mtx, ⟨hOwner, rfl⟩, rfl⟩ := hStep
      exact {
        guarded := h.guarded.take hOwner (by simp [WaitPc.Holds]) rfl
        tally := h.tally.stay (by simp [hPc, WaitPc.Counted])
        owed := h.owed_quiet rfl rfl rfl rfl (by simp [hPc, WaitPc.Owes]) (by simp) }
  | testWaiters req =>
      simp only [WaitSys.go, hPc, Option.some.injEq] at hStep
      split at hStep
      · subst hStep
        exact {
          guarded := h.guarded.stay (by simp [hPc, WaitPc.Holds]) rfl
          tally := h.tally.stay (by simp [hPc, WaitPc.Counted])
          owed := h.owed_quiet rfl rfl rfl rfl (by simp [hPc, WaitPc.Owes]) (by simp) }
      · next hNone =>
          subst hStep
          exact {
            guarded := h.guarded.stay (by simp [hPc, WaitPc.Holds]) rfl
            tally := h.tally.stay (by simp [hPc, WaitPc.Counted])
            owed := fun u r hWatches => by
              by_cases hu : u = t
              · subst hu
                simp [WaitSys.Watches, WaitSys.goto] at hWatches
              · exact absurd (watches_other hu hWatches) (h.unwatched hPc hNone) }
  | broadcast req =>
      simp only [WaitSys.go, hPc, Option.some.injEq] at hStep
      subst hStep
      exact {
        guarded := h.guarded.stay (by simp [hPc, WaitPc.Holds]) rfl
        tally := h.tally.stay (by simp [hPc, WaitPc.Counted])
        owed := fun u r hWatches => absurd hWatches (h.broadcast_wakes hPc) }
  | unlockDone req =>
      simp only [WaitSys.go, hPc, Option.some.injEq] at hStep
      subst hStep
      exact {
        guarded := h.guarded.release (by simp [hPc, WaitPc.Holds]) (by simp [WaitPc.Holds]) rfl
        tally := h.tally.stay (by simp [hPc, WaitPc.Counted])
        owed := h.owed_quiet rfl rfl rfl rfl (by simp [hPc, WaitPc.Owes]) (by simp) }

/-- Waking threads loses nothing. -/
theorem WaitSys.Inv.woken {s : WaitSys} (h : s.Inv) {mtx : Monitor.State Nat}
    (hOwner : mtx.owner = s.mtx.owner) (hAsleep : ∀ u, mtx.asleep u = true → s.mtx.asleep u = true) :
    { s with mtx }.Inv where
  guarded := fun t => by rw [h.guarded t, hOwner]
  tally := h.tally
  owed := fun t req hWatches =>
    h.owed t req (hWatches.imp_right fun hw => hw.imp_right fun hw => ⟨hw.1, hAsleep t hw.2⟩)

/-- A thread in no function calls one. -/
theorem WaitSys.Inv.called {s : WaitSys} (h : s.Inv) {t : Nat} (hOut : s.pc t = .out) {pc : WaitPc}
    (hHolds : ¬ pc.Holds) (hCounted : ¬ pc.Counted)
    (hQuiet : ∀ req, pc ≠ .raise req ∧ pc ≠ .sleep req ∧ pc ≠ .asleep req) :
    (s.goto t pc).Inv where
  guarded := h.guarded.stay (iff_of_false hHolds (by simp [hOut, WaitPc.Holds])) rfl
  tally := h.tally.stay (iff_of_false hCounted (by simp [hOut, WaitPc.Counted]))
  owed := h.owed_quiet rfl rfl rfl rfl (by simp [hOut, WaitPc.Owes]) hQuiet

/-- Clearing `req_done` leaves the rest as it is. -/
theorem WaitSys.Inv.cleared {s : WaitSys} (h : s.Inv) (req : ReqId) :
    { s with done := update s.done req false }.Inv where
  guarded := h.guarded
  tally := h.tally
  owed := fun t r hWatches hDone => by
    by_cases hr : r = req
    · subst hr
      simp at hDone
    · exact h.owed t r hWatches (by simpa [Function.update_of_ne hr] using hDone)

theorem step_waitInv {s s' : WaitSys} {act : WaitAct} (h : s.Inv) (hStep : waitStep s act = some s') :
    s'.Inv := by
  unfold waitStep at hStep
  split at hStep
  · exact go_waitInv h hStep
  · cases hStep
    exact h.woken rfl fun u hu => by
      by_cases hSame : u = act.thread
      · subst hSame
        simp [Monitor.State.rouse] at hu
      · simpa [Monitor.State.rouse, Function.update_of_ne hSame] using hu
  all_goals
    split at hStep
    · next hOut =>
        cases hStep
        first
          | exact h.cleared _
          | exact h.woken rfl fun u hu => by cases hu
          | exact h.called hOut (by simp [WaitPc.Holds]) (by simp [WaitPc.Counted]) (by simp)
    · cases hStep

/-- No wakeup is lost, however the threads' steps are interleaved. -/
theorem no_lost_wakeup {s : WaitSys}
    (run : Transition.Run waitStep (fun _ _ => True) WaitSys.start s) (t : Nat) (req : ReqId) :
    ¬ s.LostWakeup t req := by
  have h : s.Inv := run.invariant start_waitInv fun _ _ _ hInv _ hStep => step_waitInv hInv hStep
  rintro ⟨hPc, hAsleep, hDone, hLeft⟩
  obtain ⟨u, hCompleter, hOwes⟩ := h.owed t req (Or.inr (Or.inr ⟨hPc, hAsleep⟩)) hDone
  exact hLeft u hCompleter (Or.inl hOwes)

/-- A thread sleeps on a request that another has just set done. -/
theorem no_lost_wakeup_setDone :
    let req : ReqId := ⟨5, by decide⟩
    ∃ s : WaitSys, s.pc 0 = .asleep req ∧ s.mtx.asleep 0 = true ∧ s.done req = true ∧
      ¬ s.LostWakeup 0 req := by
  intro req
  obtain ⟨s, hRun, hPc, hAsleep, hDone⟩ : ∃ s,
      Transition.Run waitStep (fun _ _ => True) WaitSys.start s ∧
      s.pc 0 = .asleep req ∧ s.mtx.asleep 0 = true ∧ s.done req = true :=
    Transition.Run.of_exec_any [⟨0, .wait req⟩, ⟨0, .go⟩, ⟨0, .go⟩, ⟨0, .go⟩, ⟨0, .go⟩,
      ⟨1, .complete req⟩, ⟨1, .go⟩] (by decide)
  exact ⟨s, hPc, hAsleep, hDone, no_lost_wakeup hRun 0 req⟩

end Nct
