import Nct.System
import Nct.Support.Places

/-! Who has a request and who has a message buffer. A request is in the pool,
allocated for a receive thread's spare buffer, in the hands of one thread, or in
flight, and in no two of these places; buffers move between the requests and the
receive threads but are never shared. -/
namespace Nct

open Function (update)
open Linked (Chain)
open Places (Exclusive)

inductive Place where
  | pool
  | spare (t : Nat)
  | held (a : Agent)
  | flight
  deriving DecidableEq

/-- The request a thread has in its hands. While main waits for its GETATTR it
has the request again once `req_done` is set; a receive thread that has set it
keeps the request only if it has a callback. -/
def Pc.holds (mnt : Mnt) (r : ReqId) : Pc → Prop
  | .taken req _ => req = r
  | .callback req _ => req = r
  | .call _ req _ _ => req = r
  | .decode req => req = r
  | .testCb req => req = r ∧ mnt.reqCb r ≠ none
  | .wait req => req = r ∧ mnt.reqDone r = true
  | .check .mount req _ _ => req = r ∧ mnt.reqDone r = true
  | .back .mount req _ _ => req = r ∧ mnt.reqDone r = true
  | _ => False

/-- The request that `nct_mount` sends, from its allocation to the reply. -/
def Pc.mounting : Pc → Option ReqId
  | .call .mount req _ _ => some req
  | .check .mount req _ _ => some req
  | .back .mount req _ _ => some req
  | .wait req => some req
  | _ => none

/-- The request whose callback a receive thread is about to look up. -/
def Pc.testing : Pc → Option ReqId
  | .testCb req => some req
  | _ => none

/-- The request that a receive thread has taken up and not yet exchanged. -/
def Pc.taking : Pc → Option ReqId
  | .taken req _ => some req
  | _ => none

/-- The plan has none of the operations that only start functions do. -/
def Plan.NoStart (plan : Plan) : Prop := ∀ p ∈ plan.prep, p ≠ .refuse ∧ ∀ job, p ≠ .arm job

/-- Where each kind of thread can be, and what it can be about to do there. -/
def Agent.Fits : Agent → Pc → Prop
  | .recv _, .call fn _ plan _ =>
      fn = .callback ∧ plan.NoStart ∧ (plan.give = .send → plan.ret = .value 0)
  | .recv _, .check fn _ ret _ => fn = .callback ∧ ret = .value 0
  | .recv _, .back fn _ ret freed => fn = .callback ∧ (freed = false → ret = .value 0)
  | .recv _, .returned rc freed => freed = false → rc = 0
  | .recv _, .boot | .recv _, .idle | .recv _, .got _ | .recv _, .taken _ _ => True
  | .recv _, .testCb _ | .recv _, .callback _ _ => True
  | .recv _, .shut | .recv _, .wake | .recv _, .exited => True
  | .main, .call fn _ plan _ =>
      (fn = .mount ∧ plan.NoStart ∧ plan.give = .send) ∨ (fn = .mounted ∧ plan = mountedPlan) ∨
        (fn = .start ∧ plan.give = .send)
  | .main, .check fn _ _ _ => fn = .mount ∨ fn = .start
  | .main, .back fn _ _ _ => fn = .mount ∨ fn = .mounted ∨ fn = .start
  | .main, .mount | .main, .wait _ | .main, .decode _ => True
  | .main, .raise | .main, .alloc | .main, .stats => True
  | _, _ => False

/-- The place of a request, as the state shows it. -/
def Sys.lies (s : Sys) : Place → ReqId → Prop
  | .pool, r => ∃ free, Chain s.mnt.reqNext s.mnt.reqHead free ∧ r ∈ free
  | .spare t, r => s.req0 t = some r
  | .held a, r => (s.pc a).holds s.mnt r
  | .flight, r => r ∈ s.inFlight

/-- What has a message buffer: a receive thread, or a request. -/
inductive Holder where
  | req (r : ReqId)
  | thread (t : Nat)
  deriving DecidableEq

/-- The buffer of a holder. The request a thread has allocated for its spare
buffer only keeps a stale pointer. -/
def Sys.keeps (s : Sys) : Holder → MsgId → Prop
  | .req r, msg => (∀ t, s.req0 t ≠ some r) ∧ s.mnt.reqMsg r = msg
  | .thread t, msg => s.req0 t ≠ none ∧ s.buf t = msg

structure Owned (s : Sys) : Prop where
  exclusive : Exclusive s.lies
  chain : ∃ free, Chain s.mnt.reqNext s.mnt.reqHead free
  table : ∀ i r, s.mnt.reqTbl i = some r → r ∈ s.inFlight ∧ slot (s.mnt.reqXid r) = i
  fits : ∀ a : Agent, a.Fits (s.pc a)
  mountCb : ∀ r, (s.pc .main).mounting = some r → s.mnt.reqCb r = none
  booted : ∀ t, s.pc (.recv t) = .boot ↔ s.req0 t = none
  buffers : Exclusive s.keeps

/-- What lies in the pool is the free list. -/
theorem Sys.lies_pool {s : Sys} {free : List ReqId} {r : ReqId}
    (h : Chain s.mnt.reqNext s.mnt.reqHead free) : s.lies .pool r ↔ r ∈ free := by
  constructor
  · rintro ⟨others, hOthers, hr⟩
    rwa [h.unique hOthers]
  · exact fun hr => ⟨free, h, hr⟩

/-- A thread moves on, with no request that it did not have before. -/
structure Pc.Follows (a : Agent) (mnt : Mnt) (old new : Pc) : Prop where
  fits : a.Fits new
  holds : ∀ r, new.holds mnt r → old.holds mnt r
  mounting : ∀ r, new.mounting = some r → old.mounting = some r
  boot : new = .boot ↔ old = .boot

@[simp] theorem Sys.goto_pc_self (s : Sys) (a : Agent) (pc : Pc) : (s.goto a pc).pc a = pc :=
  Function.update_self _ _ _

theorem Sys.goto_pc_of_ne (s : Sys) {a b : Agent} (pc : Pc) (h : b ≠ a) :
    (s.goto a pc).pc b = s.pc b :=
  Function.update_of_ne h _ _

@[simp] theorem Sys.goto_mnt (s : Sys) (a : Agent) (pc : Pc) : (s.goto a pc).mnt = s.mnt := rfl

/-- What holds of the new place of one thread and of the old places of the
others holds of all. -/
theorem Sys.forall_pc {s s' : Sys} {a : Agent} {P : Agent → Pc → Prop}
    (hOther : ∀ b, b ≠ a → s'.pc b = s.pc b) (hNew : P a (s'.pc a))
    (hOld : ∀ b, b ≠ a → P b (s.pc b)) : ∀ b, P b (s'.pc b) := by
  intro b
  by_cases hb : b = a
  · subst hb
    exact hNew
  · rw [hOther b hb]
    exact hOld b hb

theorem Sys.goto_forall {s : Sys} {a : Agent} {pc : Pc} {P : Agent → Pc → Prop} (hNew : P a pc)
    (hOld : ∀ b, b ≠ a → P b (s.pc b)) : ∀ b, P b ((s.goto a pc).pc b) := by
  refine forall_pc (fun b hb => goto_pc_of_ne s pc hb) ?_ hOld
  rw [goto_pc_self]
  exact hNew

/-- A thread goes on with the requests that it has. -/
theorem Owned.goto {s : Sys} {a : Agent} {pc : Pc} (h : Owned s)
    (hStep : (s.pc a).Follows a s.mnt pc) : Owned (s.goto a pc) where
  exclusive := h.exclusive.mono fun p r hr => by
    cases p with
    | held b =>
        by_cases hb : b = a
        · subst hb
          exact hStep.holds r (by simpa [Sys.lies] using hr)
        · simpa [Sys.lies, Sys.goto_pc_of_ne s pc hb] using hr
    | _ => exact hr
  chain := h.chain
  table := h.table
  fits := Sys.goto_forall hStep.fits fun b _ => h.fits b
  mountCb r hr := by
    by_cases ha : Agent.main = a
    · subst ha
      exact h.mountCb r (hStep.mounting r (by simpa using hr))
    · exact h.mountCb r (by rwa [Sys.goto_pc_of_ne s pc ha] at hr)
  booted t := by
    by_cases ht : Agent.recv t = a
    · subst ht
      rw [Sys.goto_pc_self, hStep.boot]
      exact h.booted t
    · rw [Sys.goto_pc_of_ne s pc ht]
      exact h.booted t
  buffers := h.buffers

/-- The two states agree on everything that tells who has what. -/
structure Sys.SameOwners (s s' : Sys) : Prop where
  pc : s'.pc = s.pc
  req0 : s'.req0 = s.req0
  buf : s'.buf = s.buf
  inFlight : s'.inFlight = s.inFlight
  head : s'.mnt.reqHead = s.mnt.reqHead
  next : s'.mnt.reqNext = s.mnt.reqNext
  tbl : s'.mnt.reqTbl = s.mnt.reqTbl
  xid : s'.mnt.reqXid = s.mnt.reqXid
  cb : s'.mnt.reqCb = s.mnt.reqCb
  done : s'.mnt.reqDone = s.mnt.reqDone
  msg : s'.mnt.reqMsg = s.mnt.reqMsg

/-- A request is in the hands of a thread by its `req_cb` and `req_done`, if these
decide it. -/
theorem Pc.holds.mono {mnt mnt' : Mnt} {r : ReqId} {pc : Pc} (h : pc.holds mnt' r)
    (hCb : mnt'.reqCb r ≠ none → mnt.reqCb r ≠ none)
    (hDone : mnt'.reqDone r = true → mnt.reqDone r = true) : pc.holds mnt r := by
  cases pc with
  | testCb req => exact ⟨h.1, hCb h.2⟩
  | wait req => exact ⟨h.1, hDone h.2⟩
  | check fn req ret cc =>
      cases fn with
      | mount => exact ⟨h.1, hDone h.2⟩
      | _ => exact h
  | back fn req ret freed =>
      cases fn with
      | mount => exact ⟨h.1, hDone h.2⟩
      | _ => exact h
  | _ => exact h

/-- Nothing that concerns ownership has changed. -/
theorem Owned.same {s s' : Sys} (h : Owned s) (hSame : s.SameOwners s') : Owned s' := by
  have hHolds : ∀ a r, (s'.pc a).holds s'.mnt r → (s.pc a).holds s.mnt r := by
    intro a r hr
    rw [hSame.pc] at hr
    exact Pc.holds.mono hr (by rw [hSame.cb]; exact id) (by rw [hSame.done]; exact id)
  refine ⟨h.exclusive.mono fun p r hr => ?_, ?_, ?_, ?_, ?_, ?_, h.buffers.mono fun p m hm => ?_⟩
  · cases p with
    | pool => simpa only [Sys.lies, hSame.next, hSame.head] using hr
    | spare t => simpa only [Sys.lies, hSame.req0] using hr
    | held a => exact hHolds a r hr
    | flight => simpa only [Sys.lies, hSame.inFlight] using hr
  · simpa only [hSame.next, hSame.head] using h.chain
  · simpa only [hSame.tbl, hSame.inFlight, hSame.xid] using h.table
  · simpa only [hSame.pc] using h.fits
  · simpa only [hSame.pc, hSame.cb] using h.mountCb
  · simpa only [hSame.pc, hSame.req0] using h.booted
  · cases p with
    | req r => simpa only [Sys.keeps, hSame.req0, hSame.msg] using hm
    | thread t => simpa only [Sys.keeps, hSame.req0, hSame.buf] using hm

/-- A thread moves on after a step that leaves everything where it was. -/
theorem Owned.quiet {s s' : Sys} {a : Agent} {pc : Pc} (h : Owned s) (hSame : s.SameOwners s')
    (hStep : (s.pc a).Follows a s'.mnt pc) : Owned (s'.goto a pc) :=
  (h.same hSame).goto (hSame.pc ▸ hStep)

/-- Setting `req_done` gives a request to none but the thread that waits. -/
theorem Pc.holds.of_cb {mnt mnt' : Mnt} {r : ReqId} {pc : Pc} (h : pc.holds mnt' r)
    (hCb : mnt'.reqCb = mnt.reqCb) : pc.holds mnt r ∨ pc.mounting = some r := by
  cases pc with
  | testCb req => exact Or.inl ⟨h.1, hCb ▸ h.2⟩
  | wait req => exact Or.inr (congrArg some h.1)
  | check fn req ret cc =>
      cases fn with
      | mount => exact Or.inr (congrArg some h.1)
      | _ => cases h
  | back fn req ret freed =>
      cases fn with
      | mount => exact Or.inr (congrArg some h.1)
      | _ => cases h
  | _ => exact Or.inl h

/-- Setting `req_cb` gives a request to none but a thread about to test it. -/
theorem Pc.holds.of_done {mnt mnt' : Mnt} {r : ReqId} {pc : Pc} (h : pc.holds mnt' r)
    (hDone : mnt'.reqDone = mnt.reqDone) : pc.holds mnt r ∨ pc.testing = some r := by
  cases pc with
  | testCb req => exact Or.inr (congrArg some h.1)
  | wait req => exact Or.inl ⟨h.1, hDone ▸ h.2⟩
  | check fn req ret cc =>
      cases fn with
      | mount => exact Or.inl ⟨h.1, hDone ▸ h.2⟩
      | _ => cases h
  | back fn req ret freed =>
      cases fn with
      | mount => exact Or.inl ⟨h.1, hDone ▸ h.2⟩
      | _ => cases h
  | _ => exact Or.inl h

/-- Only main, inside a start function, does what start functions do. -/
theorem Agent.Fits.start_of_op {a : Agent} {fn : Fn} {req : ReqId} {plan : Plan} {l : Local}
    {p : Prep} {prep : List Prep} (h : a.Fits (.call fn req plan l)) (hPrep : plan.prep = p :: prep)
    (hOp : p = .refuse ∨ ∃ job, p = .arm job) : a = .main ∧ fn = .start ∧ plan.give = .send := by
  have hStart : ¬ plan.NoStart := by
    intro hNo
    obtain ⟨hRefuse, hArm⟩ := hNo p (by simp [hPrep])
    rcases hOp with hp | ⟨job, hp⟩
    · exact hRefuse hp
    · exact hArm job hp
  cases a with
  | main =>
      rcases h with ⟨-, hNo, -⟩ | ⟨-, rfl⟩ | ⟨hFn, hGive⟩
      · exact absurd hNo hStart
      · cases hPrep
      · exact ⟨rfl, hFn, hGive⟩
  | recv t => exact absurd h.2.1 hStart

/-- Requests are freed by callbacks and, once, by `nct_mount`. -/
theorem Agent.Fits.of_free {a : Agent} {fn : Fn} {req : ReqId} {plan : Plan} {l : Local}
    (h : a.Fits (.call fn req plan l)) (hGive : plan.give = .free) :
    fn = .mounted ∨ fn = .callback := by
  cases a with
  | main =>
      rcases h with ⟨-, -, hSend⟩ | ⟨hFn, -⟩ | ⟨-, hSend⟩
      · exact Give.noConfusion (hGive.symm.trans hSend)
      · exact Or.inl hFn
      · exact Give.noConfusion (hGive.symm.trans hSend)
  | recv t => exact Or.inr h.1

theorem Agent.Fits.not_mounting {t : Nat} {pc : Pc} (h : (Agent.recv t).Fits pc) :
    pc.mounting = none := by
  cases pc with
  | call fn req plan l => rw [h.1]; rfl
  | check fn req ret cc => rw [h.1]; rfl
  | back fn req ret freed => rw [h.1]; rfl
  | wait req => cases h
  | _ => rfl

/-- A request whose reply is taken up is in the hands of its thread. -/
theorem Pc.holds_of_taking {mnt : Mnt} {r : ReqId} {pc : Pc} (h : pc.taking = some r) :
    pc.holds mnt r := by
  cases pc with
  | taken req rep => exact Option.some.inj h
  | _ => cases h

/-- A request of the pool is in nobody's hands. -/
theorem Pc.holds.popReq {mnt : Mnt} {req r : ReqId} {pc : Pc} (h : pc.holds (popReq mnt req) r) :
    pc.holds mnt r := by
  refine h.mono ?_ ?_ <;> by_cases hr : r = req <;> simp [Nct.popReq, hr]

/-- The hands of one thread change, and those of the others stay as they are. -/
theorem Sys.lies_goto {s : Sys} {a b : Agent} {pc : Pc} {r : ReqId}
    (h : (s.goto a pc).lies (.held b) r) :
    (b = a ∧ pc.holds s.mnt r) ∨ (b ≠ a ∧ (s.pc b).holds s.mnt r) := by
  by_cases hb : b = a
  · subst hb
    exact Or.inl ⟨rfl, by simpa [Sys.lies] using h⟩
  · exact Or.inr ⟨hb, by simpa [Sys.lies, Sys.goto_pc_of_ne s pc hb] using h⟩

section
variable {s : Sys} {req : ReqId} (h : Owned s)

include h

/-- The request at the head of the free list is nowhere else, and the rest of
the list is still chained. -/
theorem Owned.pop_chain (hHead : s.mnt.reqHead = some req) :
    ∃ rest, Chain s.mnt.reqNext (s.mnt.reqNext req) rest ∧ s.lies .pool req ∧ req ∉ rest ∧
      ∀ r ∈ rest, s.lies .pool r := by
  obtain ⟨free, hChain⟩ := h.chain
  obtain ⟨rest, rfl, hRest⟩ := (hHead ▸ hChain).pop
  refine ⟨rest, hRest, ⟨_, hChain, List.mem_cons_self⟩, ?_, fun r hr => ?_⟩
  · exact (List.nodup_cons.mp hChain.nodup).1
  · exact ⟨_, hChain, List.mem_cons_of_mem _ hr⟩

/-- Main allocates a request. -/
theorem Owned.popMain {fn : Fn} {plan : Plan} {l : Local} (hHead : s.mnt.reqHead = some req)
    (hFits : Agent.main.Fits (.call fn req plan l)) :
    Owned ({ s with mnt := popReq s.mnt req }.goto .main (.call fn req plan l)) := by
  obtain ⟨rest, hRest, hPool, hOut, hIn⟩ := h.pop_chain hHead
  let s' := { s with mnt := popReq s.mnt req }.goto .main (.call fn req plan l)
  have hOther : ∀ t, s'.pc (.recv t) = s.pc (.recv t) := fun t => Sys.goto_pc_of_ne _ _ (by simp)
  have hMain : s'.pc .main = .call fn req plan l := Sys.goto_pc_self _ _ _
  refine ⟨?_, ⟨rest, hRest⟩, h.table, Sys.goto_forall hFits fun b _ => h.fits b, ?_, ?_,
    h.buffers⟩
  · refine h.exclusive.move (q := .held .main) hPool (fun p y hy hp => ?_) (fun p hp => ?_)
    · cases p with
      | pool => exact hIn y ((Sys.lies_pool hRest).mp hp)
      | held b =>
          rcases Sys.lies_goto hp with ⟨rfl, hHold⟩ | ⟨-, hHold⟩
          · exact absurd hHold.symm hy
          · exact hHold.popReq
      | _ => exact hp
    · cases p with
      | pool => exact absurd ((Sys.lies_pool hRest).mp hp) hOut
      | held b =>
          rcases Sys.lies_goto hp with ⟨rfl, -⟩ | ⟨-, hHold⟩
          · exact Or.inl rfl
          · exact Or.inr ⟨hHold.popReq, by simp⟩
      | _ => exact Or.inr ⟨hp, by simp⟩
  · intro r hr
    rw [hMain] at hr
    have hReq : req = r := by
      cases fn with
      | mount => exact Option.some.inj hr
      | _ => cases hr
    rw [← hReq]
    exact Function.update_self _ _ _
  · intro t
    rw [hOther]
    exact h.booted t

/-- A receive thread allocates a request and keeps its buffer. -/
theorem Owned.boot {t : Nat} (hPc : s.pc (.recv t) = .boot) (hHead : s.mnt.reqHead = some req) :
    Owned ((s.bootThread t req (popReq s.mnt req)).goto (.recv t) .idle) := by
  obtain ⟨rest, hRest, hPool, hOut, hIn⟩ := h.pop_chain hHead
  have hNone := (h.booted t).mp hPc
  have hNotSpare : ∀ u, s.req0 u ≠ some req := fun u hu =>
    Place.noConfusion (h.exclusive .pool (.spare u) req hPool hu)
  let s' := (s.bootThread t req (popReq s.mnt req)).goto (.recv t) .idle
  have hOther : ∀ b, b ≠ .recv t → s'.pc b = s.pc b := fun b hb => Sys.goto_pc_of_ne _ _ hb
  have hHere : s'.pc (.recv t) = .idle := Sys.goto_pc_self _ _ _
  have hReq0 : ∀ u, u ≠ t → s'.req0 u = s.req0 u := fun u hu => Function.update_of_ne hu _ _
  have hReq0Here : s'.req0 t = some req := Function.update_self _ _ _
  refine ⟨?_, ⟨rest, hRest⟩, h.table, Sys.goto_forall trivial fun b _ => h.fits b, ?_, ?_, ?_⟩
  · refine h.exclusive.move (q := .spare t) hPool (fun p y hy hp => ?_) (fun p hp => ?_)
    · cases p with
      | pool => exact hIn y ((Sys.lies_pool hRest).mp hp)
      | spare u =>
          by_cases hu : u = t
          · subst hu
            rw [Sys.lies, hReq0Here] at hp
            exact absurd (Option.some.inj hp).symm hy
          · rwa [Sys.lies, hReq0 u hu] at hp
      | held b =>
          rcases Sys.lies_goto hp with ⟨-, hHold⟩ | ⟨-, hHold⟩
          · cases hHold
          · exact hHold.popReq
      | flight => exact hp
    · cases p with
      | pool => exact absurd ((Sys.lies_pool hRest).mp hp) hOut
      | spare u =>
          by_cases hu : u = t
          · exact Or.inl (congrArg Place.spare hu)
          · rw [Sys.lies, hReq0 u hu] at hp
            exact absurd hp (hNotSpare u)
      | held b =>
          rcases Sys.lies_goto hp with ⟨-, hHold⟩ | ⟨-, hHold⟩
          · cases hHold
          · exact Or.inr ⟨hHold.popReq, by simp⟩
      | flight => exact Or.inr ⟨hp, by simp⟩
  · intro r hr
    rw [hOther _ (by simp)] at hr
    by_cases hReq : r = req
    · rw [hReq]
      exact Function.update_self _ _ _
    · exact (Function.update_of_ne hReq _ _).trans (h.mountCb r hr)
  · intro u
    by_cases hu : u = t
    · subst hu
      rw [hHere, hReq0Here]
      simp
    · rw [hOther _ (by simpa using hu), hReq0 u hu]
      exact h.booted u
  · -- the thread takes over the buffer of its request
    apply h.buffers.swap (.thread t) (.req req)
    intro p m hm
    cases p with
    | thread u =>
        by_cases hu : u = t
        · subst hu
          rw [Equiv.swap_apply_left]
          have hBuf : s'.buf u = s.mnt.reqMsg req := Function.update_self _ _ _
          exact ⟨hNotSpare, hBuf.symm.trans hm.2⟩
        · rw [Equiv.swap_apply_of_ne_of_ne (by simpa using hu) (by simp)]
          have hBuf : s'.buf u = s.buf u := Function.update_of_ne hu _ _
          exact ⟨by rw [← hReq0 u hu]; exact hm.1, hBuf.symm.trans hm.2⟩
    | req r =>
        have hr : r ≠ req := by
          rintro rfl
          exact hm.1 t hReq0Here
        rw [Equiv.swap_apply_of_ne_of_ne (by simp) (by simpa using hr)]
        refine ⟨fun u hu => ?_, hm.2⟩
        have hne : u ≠ t := by
          rintro rfl
          rw [hNone] at hu
          cases hu
        exact hm.1 u ((hReq0 u hne).trans hu)

/-- A request in the hands of a thread is in no other place. -/
theorem Owned.held_ne {a : Agent} {p : Place} (hHeld : (s.pc a).holds s.mnt req)
    (hp : s.lies p req) : p = .held a :=
  h.exclusive p (.held a) req hp hHeld

theorem Owned.mountCb_goto {a : Agent} {pc : Pc}
    (hMount : ∀ r, pc.mounting = some r → (s.pc a).mounting = some r) (r : ReqId)
    (hr : ((s.goto a pc).pc .main).mounting = some r) : s.mnt.reqCb r = none := by
  by_cases ha : Agent.main = a
  · subst ha
    rw [Sys.goto_pc_self] at hr
    exact h.mountCb r (hMount r hr)
  · rw [Sys.goto_pc_of_ne _ _ ha] at hr
    exact h.mountCb r hr

theorem Owned.booted_goto {a : Agent} {pc : Pc} (hOld : s.pc a ≠ .boot) (hNew : pc ≠ .boot)
    (u : Nat) : (s.goto a pc).pc (.recv u) = .boot ↔ s.req0 u = none := by
  by_cases hu : Agent.recv u = a
  · subst hu
    rw [Sys.goto_pc_self]
    exact iff_of_false hNew fun hNone => hOld ((h.booted u).mpr hNone)
  · rw [Sys.goto_pc_of_ne _ _ hu]
    exact h.booted u

/-- A receive thread takes up the request that a reply's slot gives. -/
theorem Owned.take {t : Nat} {rep : Reply} {now : UInt64}
    (hPc : s.pc (.recv t) = .got rep) (hSlot : s.mnt.reqTbl (slot rep.xid) = some req) :
    Owned ((s.take req rep now).goto (.recv t) (.taken req rep)) := by
  obtain ⟨hFlight, hXid⟩ := h.table _ _ hSlot
  refine ⟨?_, h.chain, ?_, Sys.goto_forall trivial fun b _ => h.fits b,
    h.mountCb_goto (by simp [Pc.mounting]), h.booted_goto (by simp [hPc]) (by simp), h.buffers⟩
  · refine h.exclusive.move (p := .flight) (q := .held (.recv t)) hFlight (fun p y hy hp => ?_)
      (fun p hp => ?_)
    · cases p with
      | held b =>
          rcases Sys.lies_goto hp with ⟨-, hHold⟩ | ⟨-, hHold⟩
          · exact absurd hHold.symm hy
          · exact hHold
      | flight => exact Finset.mem_of_mem_erase hp
      | _ => exact hp
    · cases p with
      | held b =>
          rcases Sys.lies_goto hp with ⟨rfl, -⟩ | ⟨-, hHold⟩
          · exact Or.inl rfl
          · exact Or.inr ⟨hHold, by simp⟩
      | flight => exact absurd hp (Finset.notMem_erase req s.inFlight)
      | _ => exact Or.inr ⟨hp, by simp⟩
  · intro i r hr
    have hi : i ≠ slot rep.xid := by
      rintro rfl
      exact absurd (hr.symm.trans (Function.update_self _ _ _)) (by simp)
    have hOld : s.mnt.reqTbl i = some r := (Function.update_of_ne hi _ _).symm.trans hr
    obtain ⟨hMem, hIdx⟩ := h.table i r hOld
    refine ⟨Finset.mem_erase.mpr ⟨?_, hMem⟩, hIdx⟩
    rintro rfl
    exact hi (hIdx.symm.trans hXid)

/-- A receive thread exchanges message buffers with its request. A request
without a callback passes to main, if main is waiting for it. -/
theorem Owned.exchange {t : Nat} {rep : Reply} (hPc : s.pc (.recv t) = .taken req rep) :
    Owned ((s.exchange t req rep).goto (.recv t) (.testCb req)) := by
  have hHeld : (s.pc (.recv t)).holds s.mnt req := by simp [hPc, Pc.holds]
  have hNotSpare : ∀ u, s.req0 u ≠ some req := fun u hu =>
    Place.noConfusion (h.held_ne (p := .spare u) hHeld hu)
  have hBooted : s.req0 t ≠ none := fun hNone => by
    rw [(h.booted t).mpr hNone] at hPc
    cases hPc
  have hDone : ∀ y, y ≠ req → (Nct.exchange s.mnt req (s.buf t) rep).reqDone y = s.mnt.reqDone y :=
    fun y hy => Function.update_of_ne hy _ _
  refine ⟨?_, h.chain, h.table, Sys.goto_forall trivial fun b _ => h.fits b,
    h.mountCb_goto (by simp [Pc.mounting]), h.booted_goto (by simp [hPc]) (by simp), ?_⟩
  · refine h.exclusive.move (p := .held (.recv t))
      (q := .held (if s.mnt.reqCb req = none then .main else .recv t)) hHeld
      (fun p y hy hp => ?_) (fun p hp => ?_)
    · cases p with
      | held b =>
          rcases Sys.lies_goto hp with ⟨-, hHold⟩ | ⟨-, hHold⟩
          · exact absurd hHold.1.symm hy
          · have hHold : (s.pc b).holds (Nct.exchange s.mnt req (s.buf t) rep) y := hHold
            have hOld : (s.pc b).holds s.mnt y := hHold.mono id (by rw [hDone y hy]; exact id)
            exact hOld
      | _ => exact hp
    · cases p with
      | held b =>
          rcases Sys.lies_goto hp with ⟨rfl, hHold⟩ | ⟨hb, hHold⟩
          · have hCb : s.mnt.reqCb req ≠ none := hHold.2
            exact Or.inl (by rw [if_neg hCb])
          · have hHold : (s.pc b).holds (Nct.exchange s.mnt req (s.buf t) rep) req := hHold
            have hOr : (s.pc b).holds s.mnt req ∨ (s.pc b).mounting = some req := hHold.of_cb rfl
            rcases hOr with hOld | hMount
            · exact Or.inr ⟨hOld, by simpa using hb⟩
            · cases b with
              | recv u => exact absurd hMount (by simp [(h.fits (.recv u)).not_mounting])
              | main => exact Or.inl (by rw [if_pos (h.mountCb req hMount)])
      | _ => exact Or.inr ⟨hp, by simp⟩
  · apply h.buffers.swap (.thread t) (.req req)
    intro p m hm
    cases p with
    | thread u =>
        by_cases hu : u = t
        · subst hu
          rw [Equiv.swap_apply_left]
          exact ⟨hNotSpare, (Function.update_self _ _ _).symm.trans hm.2⟩
        · rw [Equiv.swap_apply_of_ne_of_ne (by simpa using hu) (by simp)]
          exact ⟨hm.1, (Function.update_of_ne hu _ _).symm.trans hm.2⟩
    | req r =>
        by_cases hr : r = req
        · subst hr
          rw [Equiv.swap_apply_right]
          exact ⟨hBooted, (Function.update_self _ _ _).symm.trans hm.2⟩
        · rw [Equiv.swap_apply_of_ne_of_ne (by simp) (by simpa using hr)]
          exact ⟨hm.1, (Function.update_of_ne hr _ _).symm.trans hm.2⟩

/-- A thread returns the request it holds to the pool. -/
theorem Owned.free {a : Agent} {fn : Fn} {plan : Plan} {l : Local}
    (hPc : s.pc a = .call fn req plan l) (hGive : plan.give = .free) :
    Owned ((s.free req).goto a (.back fn req plan.ret true)) := by
  have hHeld : (s.pc a).holds s.mnt req := by simp [hPc, Pc.holds]
  have hFits : a.Fits (.call fn req plan l) := hPc ▸ h.fits a
  have hFn : fn ≠ .mount := by
    rcases hFits.of_free hGive with rfl | rfl <;> simp
  have hNew : ∀ mnt r, ¬ Pc.holds mnt r (.back fn req plan.ret true) := by
    intro mnt r
    cases fn <;> simp_all [Pc.holds]
  obtain ⟨free, hChain⟩ := h.chain
  have hOut : req ∉ free := fun hMem =>
    Place.noConfusion (h.held_ne (p := .pool) hHeld ⟨free, hChain, hMem⟩)
  have hPush := hChain.push hOut
  refine ⟨?_, ⟨_, hPush⟩, h.table, Sys.goto_forall ?_ fun b _ => h.fits b,
    h.mountCb_goto ?_, h.booted_goto (by simp [hPc]) (by simp), h.buffers⟩
  · refine h.exclusive.move (p := .held a) (q := .pool) hHeld (fun p y hy hp => ?_)
      (fun p hp => ?_)
    · cases p with
      | pool =>
          have hMem := (Sys.lies_pool hPush).mp hp
          exact ⟨free, hChain, (List.mem_cons.mp hMem).resolve_left hy⟩
      | held b =>
          rcases Sys.lies_goto hp with ⟨-, hHold⟩ | ⟨-, hHold⟩
          · exact absurd hHold (hNew _ _)
          · exact hHold
      | _ => exact hp
    · cases p with
      | pool => exact Or.inl rfl
      | held b =>
          rcases Sys.lies_goto hp with ⟨-, hHold⟩ | ⟨hb, hHold⟩
          · exact absurd hHold (hNew _ _)
          · exact Or.inr ⟨hHold, by simpa using hb⟩
      | _ => exact Or.inr ⟨hp, by simp⟩
  · cases a with
    | main =>
        rcases hFits with ⟨rfl, -⟩ | ⟨rfl, -⟩ | ⟨rfl, hSend⟩
        · exact absurd rfl hFn
        · exact Or.inr (Or.inl rfl)
        · simp [hGive] at hSend
    | recv t => exact ⟨hFits.1, by simp⟩
  · intro r hr
    cases fn <;> simp_all [Pc.mounting]

/-- A thread sends the request it holds. -/
theorem Owned.send {a : Agent} {fn : Fn} {plan : Plan} {l : Local} {complete : Bool}
    {cc : Option Nat} (hPc : s.pc a = .call fn req plan l) (hGive : plan.give = .send) :
    Owned ((s.send fn req complete).goto a (.check fn req plan.ret cc)) := by
  have hHeld : (s.pc a).holds s.mnt req := by simp [hPc, Pc.holds]
  have hFits : a.Fits (.call fn req plan l) := hPc ▸ h.fits a
  have hNotFlight : req ∉ s.inFlight := fun hMem =>
    Place.noConfusion (h.held_ne (p := .flight) hHeld hMem)
  have hDone : ∀ y, (reqSend s.mnt req).reqDone y = true → s.mnt.reqDone y = true := by
    intro y
    by_cases hy : y = req <;> simp [reqSend, hy]
  have hNotDone : (reqSend s.mnt req).reqDone req = false := Function.update_self _ _ _
  refine ⟨?_, h.chain, ?_, Sys.goto_forall ?_ fun b _ => h.fits b,
    h.mountCb_goto ?_, h.booted_goto (by simp [hPc]) (by simp), h.buffers⟩
  · refine h.exclusive.move (p := .held a) (q := .flight) hHeld (fun p y hy hp => ?_)
      (fun p hp => ?_)
    · cases p with
      | held b =>
          rcases Sys.lies_goto hp with ⟨-, hHold⟩ | ⟨-, hHold⟩
          · cases fn with
            | mount => exact absurd hHold.1.symm hy
            | _ => cases hHold
          · exact Pc.holds.mono hHold id (hDone y)
      | flight => exact (Finset.mem_insert.mp hp).resolve_left hy
      | _ => exact hp
    · cases p with
      | held b =>
          rcases Sys.lies_goto hp with ⟨-, hHold⟩ | ⟨hb, hHold⟩
          · cases fn with
            | mount => exact absurd (hHold.2.symm.trans hNotDone) (by simp)
            | _ => cases hHold
          · exact Or.inr ⟨Pc.holds.mono hHold id (hDone req), by simpa using hb⟩
      | flight => exact Or.inl rfl
      | _ => exact Or.inr ⟨hp, by simp⟩
  · intro i r hr
    by_cases hi : i = slot s.mnt.sendXid
    · subst hi
      have hHere : update s.mnt.reqTbl (slot s.mnt.sendXid) (some req) (slot s.mnt.sendXid) =
        some r := hr
      rw [Function.update_self] at hHere
      obtain rfl : req = r := Option.some.inj hHere
      refine ⟨Finset.mem_insert_self _ _, congrArg slot ?_⟩
      exact Function.update_self _ _ _
    · obtain ⟨hMem, hIdx⟩ := h.table i r ((Function.update_of_ne hi _ _).symm.trans hr)
      have hne : r ≠ req := by
        rintro rfl
        exact hNotFlight hMem
      refine ⟨Finset.mem_insert_of_mem hMem, (congrArg slot ?_).trans hIdx⟩
      exact Function.update_of_ne hne _ _
  · cases a with
    | main =>
        rcases hFits with ⟨rfl, -⟩ | ⟨-, rfl⟩ | ⟨rfl, -⟩
        · exact Or.inl rfl
        · cases hGive
        · exact Or.inr rfl
    | recv t => exact ⟨hFits.1, hFits.2.2 hGive⟩
  · intro r hr
    rw [hPc]
    cases fn with
    | mount => exact hr
    | _ => cases hr

/-- A start function sets the callback of its request, which must not be one
that a receive thread has yet to test. -/
theorem Owned.arm {a : Agent} {fn : Fn} {plan : Plan} {l : Local} {job : Job}
    {finish : ReqId → UInt64} {prep : List Prep} (hPc : s.pc a = .call fn req plan l)
    (hPrep : plan.prep = .arm job :: prep) (hFresh : ∀ b, (s.pc b).testing ≠ some req) :
    Owned ({ s with mnt := { s.mnt with
      reqTscFinish := finish
      reqCb := update s.mnt.reqCb req (some job) } }.goto a (.call fn req { plan with prep } l)) := by
  have hFits : a.Fits (.call fn req plan l) := hPc ▸ h.fits a
  obtain ⟨rfl, rfl, hGive⟩ := hFits.start_of_op hPrep (Or.inr ⟨job, rfl⟩)
  refine ⟨?_, h.chain, h.table, Sys.goto_forall (Or.inr (Or.inr ⟨rfl, hGive⟩)) fun b _ => h.fits b,
    fun r hr => ?_, h.booted_goto (by simp [hPc]) (by simp), h.buffers⟩
  · apply h.exclusive.mono
    intro p y hp
    cases p with
    | held b =>
        rcases Sys.lies_goto hp with ⟨rfl, hHold⟩ | ⟨hb, hHold⟩
        · have hOld : (s.pc .main).holds s.mnt y := hPc ▸ hHold
          exact hOld
        · have hOr : (s.pc b).holds s.mnt y ∨ (s.pc b).testing = some y := hHold.of_done rfl
          rcases hOr with hOld | hTest
          · exact hOld
          · have hy : y ≠ req := by
              rintro rfl
              exact hFresh b hTest
            exact hHold.mono (by simp [Function.update_of_ne hy]) id
    | _ => exact hp
  · rw [Sys.goto_pc_self] at hr
    cases hr

end

theorem Owned.atBoot : Owned Sys.boot := by
  refine ⟨?_, reqCreate_chain, ?_, ?_, ?_, ?_, ?_⟩
  · -- all requests are in the pool
    have hPool : ∀ p r, Sys.boot.lies p r → p = .pool := by
      intro p r hp
      cases p with
      | pool => rfl
      | spare t => cases hp
      | held a => cases a <;> cases hp
      | flight => exact absurd hp (Finset.notMem_empty r)
    intro p q r hp hq
    rw [hPool p r hp, hPool q r hq]
  · intro i r hr
    have hTbl : (reqCreate Mnt.zero).reqTbl i = none := by
      rw [reqCreate, createReqs_rest]
      rfl
    exact absurd (hr.symm.trans hTbl) (by simp)
  · intro a
    cases a <;> trivial
  · exact fun r hr => nomatch hr
  · exact fun t => iff_of_true rfl rfl
  · have hOwn : ∀ p m, Sys.boot.keeps p m → ∃ r : ReqId, p = .req r ∧ r.val = m := by
      intro p m hp
      cases p with
      | req r => exact ⟨r, rfl, (reqCreate_reqMsg r).symm.trans hp.2⟩
      | thread t => exact absurd rfl hp.1
    intro p q m hp hq
    obtain ⟨r, rfl, hr⟩ := hOwn p m hp
    obtain ⟨r', rfl, hr'⟩ := hOwn q m hq
    rw [Fin.ext (hr.trans hr'.symm)]

/-- A callback sets no callback. -/
theorem Job.cb_noStart (xdr : XdrInts) (job : Job) (mnt : Mnt) (req : ReqId) (status : UInt32) :
    (job.cb xdr mnt req status).NoStart := by
  unfold Plan.NoStart
  cases job <;> simp only [Job.cb, testNullCb, testGetattrCb, testReadCb] <;> split_ifs <;> simp

theorem Job.start_give (job : Job) : job.start.give = .send := by
  cases job <;> rfl

/-- An operation of a plan other than setting the callback changes nothing that
tells who has what. -/
theorem prepare_same {cfg : Cfg} {s s' : Sys} {req : ReqId} {l l' : Local} {now : UInt64} {p : Prep}
    (h : s.prepare cfg req l now p = some (s', l')) (hArm : ∀ job, p ≠ .arm job) :
    s.SameOwners s' := by
  rcases prepare_cases h with ⟨job, rfl, -⟩ | ⟨-, rfl⟩ | ⟨_, -, rfl⟩ | ⟨_, rfl⟩
  · exact absurd rfl (hArm job)
  all_goals constructor <;> rfl

/-- What is counted at the end of a callback concerns no owner. -/
theorem settle_same (s : Sys) (rc : UInt32) (freed : Bool) : s.SameOwners (s.settle rc freed) := by
  obtain ⟨_, _, _, hEq⟩ := settle_eq s rc freed
  rw [hEq]
  constructor <;> rfl

/-- A start function sets the callback of no request of which a receive thread,
done with the reply, has yet to test `req_cb`. -/
def NoStaleTest (cfg : Cfg) (s : Sys) (act : Act) : Prop :=
  match s.pc act.agent with
  | .call _ req ⟨.arm _ :: _, _, _⟩ _ => ∀ t < cfg.tdsMax, s.pc (.recv t) ≠ .testCb req
  | _ => True

instance (cfg : Cfg) (s : Sys) (act : Act) : Decidable (NoStaleTest cfg s act) := by
  unfold NoStaleTest
  generalize s.pc act.agent = pc
  -- by `casesOn` itself, so that the instance carries no equations and runs well
  induction pc using Pc.casesOn with
  | call fn req plan l =>
      obtain ⟨_ | ⟨p, prep⟩, give, ret⟩ := plan
      · infer_instance
      · induction p using Prep.casesOn <;> infer_instance
  | _ => infer_instance

theorem Pc.testing_eq {pc : Pc} {r : ReqId} : pc.testing = some r ↔ pc = .testCb r := by
  cases pc <;> simp [Pc.testing]

/-- The rest of a plan is for the same thread. -/
theorem Agent.Fits.call_tail {a : Agent} {fn : Fn} {req : ReqId} {plan : Plan} {l l' : Local}
    {p : Prep} {prep : List Prep} (h : a.Fits (.call fn req plan l)) (hPrep : plan.prep = p :: prep) :
    a.Fits (.call fn req { plan with prep } l') := by
  have hTail : plan.NoStart → Plan.NoStart { plan with prep } := by
    intro hNo q hMem
    exact hNo q (by rw [hPrep]; exact List.mem_cons_of_mem p hMem)
  cases a with
  | main =>
      rcases h with ⟨hFn, hNo, hGive⟩ | ⟨-, rfl⟩ | ⟨hFn, hGive⟩
      · exact Or.inl ⟨hFn, hTail hNo, hGive⟩
      · cases hPrep
      · exact Or.inr (Or.inr ⟨hFn, hGive⟩)
  | recv t => exact ⟨h.1, hTail h.2.1, h.2.2⟩

/-- Only main finds that a job is refused. -/
theorem Agent.Fits.refused {a : Agent} {fn : Fn} {req : ReqId} {plan : Plan} {l : Local}
    {prep : List Prep} (h : a.Fits (.call fn req plan l)) (hPrep : plan.prep = .refuse :: prep) :
    a.Fits (.back fn req (.value EINVAL) false) := by
  obtain ⟨rfl, rfl, -⟩ := h.start_of_op hPrep (Or.inl rfl)
  exact Or.inr (Or.inr rfl)

theorem Agent.Fits.back_of_check {a : Agent} {fn : Fn} {req : ReqId} {ret : Ret} {cc : Option Nat}
    (h : a.Fits (.check fn req ret cc)) : a.Fits (.back fn req ret false) := by
  cases a with
  | main => exact h.imp id Or.inr
  | recv t => exact ⟨h.1, fun _ => h.2⟩

/-- Only the threads that were created ever run. -/
def Sys.Within (cfg : Cfg) (s : Sys) : Prop := ∀ t, cfg.tdsMax ≤ t → s.pc (.recv t) = .boot

/-- Only main and the receive threads move. -/
theorem Sys.Within.step {cfg : Cfg} {s s' : Sys} {act : Act} (h : s.Within cfg)
    (hStep : step cfg s act = some s') : s'.Within cfg := by
  obtain ⟨hCase, hTd⟩ := step_cases hStep
  intro t ht
  rw [step_pc_other hCase fun hAgent => absurd (hTd t hAgent.symm) (Nat.not_lt.mpr ht)]
  exact h t ht

/-- Where a start function sets a callback, nobody is about to test it. -/
theorem NoStaleTest.not_testing {cfg : Cfg} {s : Sys} {act : Act} {a : Agent} {fn : Fn} {req : ReqId}
    {plan : Plan} {l : Local} {job : Job} {prep : List Prep} (h : NoStaleTest cfg s act)
    (hFits : ∀ a : Agent, a.Fits (s.pc a)) (hWithin : s.Within cfg)
    (hAgent : act.agent = a) (hPc : s.pc a = .call fn req plan l) (hPrep : plan.prep = .arm job :: prep)
    (b : Agent) : (s.pc b).testing ≠ some req := by
  intro hTest
  rw [Pc.testing_eq] at hTest
  obtain ⟨_, give, ret⟩ := plan
  obtain rfl := hPrep
  simp only [NoStaleTest, hAgent, hPc] at h
  cases b with
  | main =>
      have hFits := hFits .main
      rw [hTest] at hFits
      exact hFits
  | recv t =>
      by_cases ht : t < cfg.tdsMax
      · exact h t ht hTest
      · rw [hWithin t (Nat.le_of_not_lt ht)] at hTest
        cases hTest

/-- Every step of a run keeps requests and buffers where they belong. -/
theorem Owned.step {cfg : Cfg} {s s' : Sys} {act : Act} (h : Owned s) (hWithin : s.Within cfg)
    (hOk : NoStaleTest cfg s act) (hStep : step cfg s act = some s') : Owned s' := by
  obtain ⟨hCase, -⟩ := step_cases hStep
  generalize hAgent : act.agent = a at hCase
  cases hCase with
  | boot hPc hHead => exact h.boot hPc hHead
  | eof hPc =>
      refine h.goto ⟨trivial, ?_, ?_, ?_⟩ <;>
        simp [hPc, Pc.holds, Pc.mounting]
  | cantDecode hPc =>
      exact h.same (by constructor <;> rfl)
  | reply hPc hRep =>
      refine h.quiet (by constructor <;> rfl) ⟨trivial, ?_, ?_, ?_⟩ <;>
        simp [hPc, Pc.holds, Pc.mounting]
  | nullSlot hPc hSlot =>
      exact h.same (by constructor <;> rfl)
  | @xidMismatch t rep req hPc hSlot hXid =>
      have hCleared : Owned { s with mnt := clearSlot s.mnt rep.xid } :=
        { h with
          exclusive := h.exclusive.mono fun p r hp => by cases p <;> exact hp
          buffers := h.buffers.mono fun p m hm => by cases p <;> exact hm
          table := fun i r hr => by
            by_cases hi : i = slot rep.xid
            · subst hi
              exact absurd (hr.symm.trans (Function.update_self _ _ _)) (by simp)
            · exact h.table i r ((Function.update_of_ne hi _ _).symm.trans hr) }
      exact hCleared.same (by constructor <;> rfl)
  | take hPc hSlot hXid => exact h.take hPc hSlot
  | exchange hPc => exact h.exchange hPc
  | noCb hPc hCb =>
      refine h.goto ⟨trivial, ?_, ?_, ?_⟩ <;>
        simp [hPc, Pc.holds, Pc.mounting]
  | cb hPc hCb =>
      refine h.goto ⟨trivial, ?_, ?_, ?_⟩ <;>
        simp [hPc, hCb, Pc.holds, Pc.mounting]
  | @callback t req job hPc =>
      refine h.goto ⟨⟨rfl, job.cb_noStart _ _ _ _, cb_send_ret⟩, ?_, ?_, ?_⟩ <;>
        simp [hPc, Pc.holds, Pc.mounting]
  | @returned t req ret freed hPc =>
      have hFits : (Agent.recv t).Fits (.back .callback req ret freed) := hPc ▸ h.fits (.recv t)
      refine h.goto ⟨fun hf => ?_, ?_, ?_, ?_⟩
      · rw [hFits.2 hf]
        rfl
      all_goals simp [hPc, Pc.holds, Pc.mounting]
  | settle hPc =>
      refine h.quiet (settle_same _ _ _) ⟨?_, ?_, ?_, ?_⟩
      · split <;> trivial
      all_goals split <;> simp [hPc, Pc.holds, Pc.mounting]
  | shut hPc =>
      refine h.quiet (by constructor <;> rfl) ⟨trivial, ?_, ?_, ?_⟩ <;>
        simp [hPc, Pc.holds, Pc.mounting]
  | woke hPc =>
      refine h.goto ⟨trivial, ?_, ?_, ?_⟩ <;>
        simp [hPc, Pc.holds, Pc.mounting]
  | mount hPc hHead =>
      exact h.popMain hHead (Or.inl ⟨rfl, by simp [Plan.NoStart, mountPlan], rfl⟩)
  | mountSent hPc =>
      refine h.goto ⟨trivial, ?_, ?_, ?_⟩ <;>
        simp [hPc, Pc.holds, Pc.mounting]
  | waited hPc hDone =>
      refine h.goto ⟨trivial, ?_, ?_, ?_⟩ <;>
        simp [hPc, hDone, Pc.holds, Pc.mounting]
  | mountFailed hPc =>
      exact h.same (by constructor <;> rfl)
  | decoded hPc =>
      refine h.quiet (by constructor <;> rfl) ⟨Or.inr (Or.inl ⟨rfl, rfl⟩), ?_, ?_, ?_⟩ <;>
        simp [hPc, Pc.holds, Pc.mounting]
  | mounted hPc =>
      refine h.goto ⟨trivial, ?_, ?_, ?_⟩ <;>
        simp [hPc, Pc.holds, Pc.mounting]
  | raise hPc hMore =>
      refine h.quiet (by constructor <;> rfl) ⟨trivial, ?_, ?_, ?_⟩ <;>
        simp [hPc, Pc.holds, Pc.mounting]
  | stats hPc hDone =>
      refine h.goto ⟨trivial, ?_, ?_, ?_⟩ <;>
        simp [hPc, Pc.holds, Pc.mounting]
  | alloc hPc hHead =>
      exact h.popMain hHead (Or.inr (Or.inr ⟨rfl, Job.start_give _⟩))
  | started hPc =>
      refine h.quiet (by constructor <;> rfl) ⟨trivial, ?_, ?_, ?_⟩ <;>
        simp [hPc, Pc.holds, Pc.mounting]
  | @prepare _ fn req plan l l' p prep s' hPc hPrep hDo =>
      by_cases hArm : ∃ job, p = .arm job
      · obtain ⟨job, rfl⟩ := hArm
        cases hDo
        exact h.arm hPc hPrep (hOk.not_testing h.fits hWithin hAgent hPc hPrep)
      · have hSame := prepare_same hDo (fun job hp => hArm ⟨job, hp⟩)
        refine h.quiet hSame ⟨?_, ?_, ?_, ?_⟩
        · exact (hPc ▸ h.fits a : a.Fits (.call fn req plan l)).call_tail hPrep
        all_goals cases fn <;> simp [hPc, Pc.holds, Pc.mounting]
  | @refuse _ fn req plan l prep hPc hPrep hPast =>
      have hFits : a.Fits (.call fn req plan l) := hPc ▸ h.fits a
      refine h.quiet (by constructor <;> rfl) ⟨hFits.refused hPrep, ?_, ?_, ?_⟩ <;>
        cases fn <;> simp [hPc, Pc.holds, Pc.mounting]
  | free hPc hPrep hGive => exact h.free hPc hGive
  | send hPc hPrep hGive => exact h.send hPc hGive
  | sendCheck hPc hCheck =>
      exact h.same (by constructor <;> rfl)
  | @checked _ fn req ret cc hPc hCheck =>
      have hFits : a.Fits (.check fn req ret cc) := hPc ▸ h.fits a
      refine h.goto ⟨hFits.back_of_check, ?_, ?_, ?_⟩ <;> cases fn <;>
        simp [hPc, Pc.holds, Pc.mounting]

end Nct
