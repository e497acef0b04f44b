import Nct.Accounting
import Nct.Support.Tokens

/-! The life of a request: from the pool to a thread, into flight, back to a
thread, and so on until it is freed. Every step of the program moves one request
along one edge of this cycle or none, so that none is ever lost, but for those
that a start function leaves behind when it refuses to start. -/
namespace Nct

open Function (update)
open Linked (Chain)
open Places (Shift)
open Transition (Run)

/-- Where a request can go next. Only the request of a receive thread's spare
buffer stays where it is. -/
inductive Place.Leads : Place → Place → Prop where
  /-- a receive thread's first `nct_req_alloc` -/
  | boot (t : Nat) : Leads .pool (.spare t)
  | alloc : Leads .pool (.held .main)
  | send (a : Agent) : Leads (.held a) .flight
  /-- a receive thread finds the request of a reply -/
  | take (t : Nat) : Leads .flight (.held (.recv t))
  /-- it sets `req_done`, and `nct_mount` goes on with the request -/
  | done (t : Nat) : Leads (.held (.recv t)) (.held .main)
  | free (a : Agent) : Leads (.held a) .pool

/-- Only in main's start functions a request is left behind. -/
def Place.Exits (p : Place) : Prop := p = .held .main

/-- In a step requests move along the cycle, and the given one is left behind. -/
abbrev Sys.Shifts (s s' : Sys) (lost : Option ReqId) : Prop :=
  Shift Place.Leads Place.Exits s.lies s'.lies lost

def Pc.hand (mnt : Mnt) : Pc → Option ReqId
  | .taken req _ => some req
  | .callback req _ => some req
  | .call _ req _ _ => some req
  | .decode req => some req
  | .testCb req => if (mnt.reqCb req).isSome then some req else none
  | .wait req => if mnt.reqDone req then some req else none
  | .check .mount req _ _ => if mnt.reqDone req then some req else none
  | .back .mount req _ _ => if mnt.reqDone req then some req else none
  | _ => none

theorem Pc.hand_eq_some {mnt : Mnt} {r : ReqId} {pc : Pc} :
    pc.hand mnt = some r ↔ pc.holds mnt r := by
  cases pc with
  | testCb req => cases hCb : mnt.reqCb req <;> simp [Pc.hand, Pc.holds, hCb] <;> grind
  | wait req => simp [Pc.hand, Pc.holds, and_comm]; grind
  | check fn req ret cc => cases fn <;> simp [Pc.hand, Pc.holds]; grind
  | back fn req ret freed => cases fn <;> simp [Pc.hand, Pc.holds]; grind
  | _ => simp [Pc.hand, Pc.holds]

/-- Whether a thread has a request in its hands shows in `req_cb` and `req_done` only.
-/
theorem Pc.holds_congr {mnt mnt' : Mnt} (hCb : mnt'.reqCb = mnt.reqCb)
    (hDone : mnt'.reqDone = mnt.reqDone) {r : ReqId} {pc : Pc} :
    pc.holds mnt' r ↔ pc.holds mnt r :=
  ⟨fun h => h.mono (by rw [hCb]; exact id) (by rw [hDone]; exact id),
    fun h => h.mono (by rw [hCb]; exact id) (by rw [hDone]; exact id)⟩

/-- Whether a thread holds a request depends on that request's fields only. -/
theorem Pc.holds_congr_req {mnt mnt' : Mnt} {r : ReqId} (hCb : mnt'.reqCb r = mnt.reqCb r)
    (hDone : mnt'.reqDone r = mnt.reqDone r) {pc : Pc} : pc.holds mnt' r ↔ pc.holds mnt r :=
  ⟨fun h => h.mono (by rw [hCb]; exact id) (by rw [hDone]; exact id),
    fun h => h.mono (by rw [hCb]; exact id) (by rw [hDone]; exact id)⟩

/-- The request is in flight, or a receive thread has just taken it up. -/
def Sys.Away (s : Sys) (r : ReqId) : Prop :=
  r ∈ s.inFlight ∨ ∃ t, (s.pc (.recv t)).taking = some r

/-- A request that is away without a callback is the one that `nct_mount` waits for. -/
def Sys.Awaited (s : Sys) : Prop :=
  ∀ r, s.Away r → s.mnt.reqCb r = none → (s.pc .main).mounting = some r

/-- A request that is away after a step was away before it. -/
theorem Sys.Away.of_step {s s' : Sys} {a : Agent} {r : ReqId}
    (hOther : ∀ b, b ≠ a → s'.pc b = s.pc b)
    (hTaking : (s'.pc a).taking = some r → (s.pc a).taking = some r)
    (hFlight : r ∈ s'.inFlight → r ∈ s.inFlight) (h : s'.Away r) : s.Away r := by
  rcases h with hMem | ⟨t, ht⟩
  · exact Or.inl (hFlight hMem)
  · refine Or.inr ⟨t, ?_⟩
    by_cases hb : Agent.recv t = a
    · subst hb
      exact hTaking ht
    · rwa [hOther _ hb] at ht

/-- No other request is away than before, and main still waits for its own. -/
theorem Sys.Awaited.frame {s s' : Sys} {a : Agent} (h : s.Awaited)
    (hOther : ∀ b, b ≠ a → s'.pc b = s.pc b)
    (hTaking : ∀ r, (s'.pc a).taking = some r → (s.pc a).taking = some r)
    (hFlight : ∀ r, r ∈ s'.inFlight → r ∈ s.inFlight)
    (hCb : ∀ r, s.Away r → s'.mnt.reqCb r = none → s.mnt.reqCb r = none)
    (hMount : ∀ r, s.Away r → (s.pc a).mounting = some r → (s'.pc a).mounting = some r) :
    s'.Awaited := by
  intro r hAway hNone
  have hOld := hAway.of_step hOther (hTaking r) (hFlight r)
  have hMounting := h r hOld (hCb r hOld hNone)
  by_cases hb : Agent.main = a
  · subst hb
    exact hMount r hOld hMounting
  · rwa [hOther _ hb]

/-- A request that a thread holds, and has not just taken up, is not away. -/
theorem Owned.not_away {s : Sys} {a : Agent} {r : ReqId} (h : Owned s)
    (hHeld : (s.pc a).holds s.mnt r) (hTaking : (s.pc a).taking ≠ some r) : ¬ s.Away r := by
  rintro (hMem | ⟨t, ht⟩)
  · exact Place.noConfusion (h.held_ne (p := .flight) hHeld hMem)
  · have hSame := h.held_ne (p := .held (.recv t)) hHeld (Pc.holds_of_taking ht)
    injection hSame with hSame
    exact hTaking (hSame ▸ ht)

/-- Nor is a request that is in the pool. -/
theorem Owned.not_away_of_pool {s : Sys} {r : ReqId} (h : Owned s) (hPool : s.lies .pool r) :
    ¬ s.Away r := by
  rintro (hMem | ⟨t, ht⟩)
  · exact Place.noConfusion (h.exclusive .pool .flight r hPool hMem)
  · exact Place.noConfusion (h.exclusive .pool (.held (.recv t)) r hPool (Pc.holds_of_taking ht))

/-- A request that is away keeps its callback when another one is popped. -/
theorem Owned.popReq_away {s : Sys} {req r : ReqId} (h : Owned s)
    (hHead : s.mnt.reqHead = some req) (hAway : s.Away r) :
    (popReq s.mnt req).reqCb r = s.mnt.reqCb r := by
  obtain ⟨-, -, hPool, -⟩ := h.pop_chain hHead
  have hr : r ≠ req := by
    rintro rfl
    exact h.not_away_of_pool hPool hAway
  exact Function.update_of_ne hr _ _

/-- Main waits for its request until a receive thread is done with it. -/
theorem Sys.Awaited.step {cfg : Cfg} {s s' : Sys} {act : Act} (h : s.Awaited) (hOwned : Owned s)
    (hHasCb : HasCb s) (hStep : Nct.step cfg s act = some s') : s'.Awaited := by
  obtain ⟨hCase, -⟩ := step_cases hStep
  have hOther := fun b (hb : b ≠ act.agent) => step_pc_other hCase hb
  generalize hAgent : act.agent = a at hCase hOther
  cases hCase with
  | boot hPc hHead | mount hPc hHead | alloc hPc hHead =>
      refine h.frame hOther (by simp [Pc.taking]) (fun _ hr => hr) (fun r hAway hNone => ?_)
        (by simp [hPc, Pc.mounting])
      rwa [← hOwned.popReq_away hHead hAway]
  | @take t rep req hPc hSlot hXid =>
      intro r hAway hNone
      rw [Sys.goto_pc_of_ne _ _ (by simp)]
      refine h r ?_ hNone
      obtain ⟨hMem, -⟩ := hOwned.table _ _ hSlot
      rcases hAway with hFlight | ⟨u, hu⟩
      · exact Or.inl (Finset.mem_of_mem_erase hFlight)
      · by_cases hb : Agent.recv u = .recv t
        · rw [hb, Sys.goto_pc_self] at hu
          obtain rfl : req = r := Option.some.inj hu
          exact Or.inl hMem
        · rw [Sys.goto_pc_of_ne _ _ hb] at hu
          exact Or.inr ⟨u, hu⟩
  | @prepare _ fn req plan l l' p prep s'' hPc hPrep hDo =>
      obtain ⟨-, hFlight⟩ := prepare_counts hDo
      refine h.frame hOther (by simp [Pc.taking]) (fun r hr => hFlight ▸ hr)
        (fun r _ hNone => ?_) (fun r _ hMount => ?_)
      · by_contra hSome
        exact (prepare_cb hDo).1 r hSome hNone
      · rw [hPc] at hMount
        rw [Sys.goto_pc_self]
        cases fn with
        | mount => exact hMount
        | _ => cases hMount
  | @send _ fn req plan l hPc hPrep hGive =>
      intro r hAway hNone
      have hOld : HasCb s := hHasCb
      by_cases hr : r = req
      · subst hr
        have hCb := hOld a
        rw [hPc] at hCb
        cases fn with
        | mount =>
            have hFits := hPc ▸ hOwned.fits a
            cases a with
            | main => rfl
            | recv t => cases hFits.1
        | mounted =>
            have hFits := hPc ▸ hOwned.fits a
            cases a with
            | main =>
                rcases hFits with ⟨hFn, -⟩ | ⟨-, rfl⟩ | ⟨hFn, -⟩
                · cases hFn
                · cases hGive
                · cases hFn
            | recv t => cases hFits.1
        | start =>
            rcases hCb with hCb | ⟨job, hMem⟩
            · exact absurd hNone hCb
            · rw [hPrep] at hMem
              cases hMem
        | callback => exact absurd hNone hCb
      · have hAwayOld : s.Away r :=
          hAway.of_step hOther (by simp [Pc.taking])
            fun hMem => (Finset.mem_insert.mp hMem).resolve_left hr
        have hMount := h r hAwayOld hNone
        by_cases hb : Agent.main = a
        · subst hb
          rw [hPc] at hMount
          cases fn with
          | mount => exact absurd (Option.some.inj hMount).symm hr
          | _ => cases hMount
        · rwa [hOther _ hb]
  | @waited req hPc hDone =>
      refine h.frame hOther (by simp [Pc.taking]) (fun _ hr => hr) (fun _ _ hNone => hNone)
        fun r hAway hMount => ?_
      rw [hPc] at hMount
      obtain rfl : req = r := Option.some.inj hMount
      have hHeld : (s.pc .main).holds s.mnt req := by simp [hPc, hDone, Pc.holds]
      exact absurd hAway (hOwned.not_away hHeld (by simp [hPc, Pc.taking]))
  | settle hPc =>
      refine h.frame hOther (fun r hr => ?_) (fun r hr => ?_) (fun r _ hNone => ?_)
        (by simp [hPc, Pc.mounting])
      · rw [Sys.goto_pc_self] at hr
        split at hr <;> cases hr
      · exact hr
      · rwa [Sys.goto_mnt, (settle_same _ _ _).cb] at hNone
  | @refuse _ fn req plan l prep hPc hPrep hPast =>
      have hFits := hPc ▸ hOwned.fits a
      obtain ⟨rfl, rfl, -⟩ := hFits.start_of_op hPrep (Or.inl rfl)
      exact h.frame hOther (by simp [Pc.taking]) (fun _ hr => hr) (fun _ _ hNone => hNone)
        (by simp [hPc, Pc.mounting])
  | @free _ fn req plan l hPc hPrep hGive =>
      have hFits := hPc ▸ hOwned.fits a
      refine h.frame hOther (by simp [Pc.taking]) (fun _ hr => hr) (fun _ _ hNone => hNone) ?_
      rcases hFits.of_free hGive with rfl | rfl <;> simp [hPc, Pc.mounting]
  | @checked _ fn req ret cc hPc hCheck =>
      refine h.frame hOther (by simp [Pc.taking]) (fun _ hr => hr) (fun _ _ hNone => hNone) ?_
      cases fn <;> simp [hPc, Pc.mounting]
  | cantDecode | nullSlot | xidMismatch | mountFailed | sendCheck =>
      exact h.frame hOther (fun _ hr => hr) (fun _ hr => hr) (fun _ _ hNone => hNone)
        fun _ _ hMount => hMount
  | _ =>
      exact h.frame hOther (by simp [Pc.taking]) (fun _ hr => hr) (fun _ _ hNone => hNone)
        (by simp [Pc.mounting, *])

/-- A request is where it was if the pool, the spare requests and what is in flight
have not changed for it, nor what the thread that moved has in its hands. -/
theorem Sys.lies_other {s s' : Sys} {a : Agent} {y : ReqId} (hOther : ∀ b, b ≠ a → s'.pc b = s.pc b)
    (hPool : s'.lies .pool y ↔ s.lies .pool y)
    (hSpare : ∀ t, s'.req0 t = some y ↔ s.req0 t = some y)
    (hFlight : y ∈ s'.inFlight ↔ y ∈ s.inFlight) (hCb : s'.mnt.reqCb y = s.mnt.reqCb y)
    (hDone : s'.mnt.reqDone y = s.mnt.reqDone y)
    (hHand : (s'.pc a).holds s'.mnt y ↔ (s.pc a).holds s.mnt y) (p : Place) :
    s'.lies p y ↔ s.lies p y := by
  cases p with
  | pool => exact hPool
  | spare t => exact hSpare t
  | flight => exact hFlight
  | held b =>
      by_cases hb : b = a
      · subst hb
        exact hHand
      · change (s'.pc b).holds s'.mnt y ↔ (s.pc b).holds s.mnt y
        rw [hOther b hb]
        exact Pc.holds_congr_req hCb hDone

@[simp] theorem Sys.lies_held_goto {s : Sys} {a : Agent} {pc : Pc} {r : ReqId} :
    (s.goto a pc).lies (.held a) r ↔ pc.holds s.mnt r := by
  change ((s.goto a pc).pc a).holds _ r ↔ _
  rw [Sys.goto_pc_self, Sys.goto_mnt]

/-- A thread moves on with the request that it had, and nothing else changes hands. -/
theorem Sys.lies_stay {s s' : Sys} {a : Agent} {pc : Pc} (hSame : s.SameOwners s')
    (hHand : ∀ r, pc.holds s.mnt r ↔ (s.pc a).holds s.mnt r) (p : Place) (y : ReqId) :
    (s'.goto a pc).lies p y ↔ s.lies p y := by
  apply Sys.lies_other (a := a)
  · intro b hb
    rw [Sys.goto_pc_of_ne _ _ hb, hSame.pc]
  · change (∃ free, Chain s'.mnt.reqNext s'.mnt.reqHead free ∧ y ∈ free) ↔ _
    rw [hSame.next, hSame.head]
    exact Iff.rfl
  · intro t
    change s'.req0 t = some y ↔ _
    rw [hSame.req0]
  · change y ∈ s'.inFlight ↔ _
    rw [hSame.inFlight]
  · exact congrFun hSame.cb y
  · exact congrFun hSame.done y
  · rw [Sys.goto_pc_self, Sys.goto_mnt, Pc.holds_congr hSame.cb hSame.done]
    exact hHand y

/-- Popping a request leaves the others in the pool there. -/
theorem Owned.pool_popReq {s : Sys} {req y : ReqId} (h : Owned s) (hHead : s.mnt.reqHead = some req)
    (hy : y ≠ req) :
    (∃ free, Chain (popReq s.mnt req).reqNext (popReq s.mnt req).reqHead free ∧ y ∈ free) ↔
      s.lies .pool y := by
  obtain ⟨free, hChain⟩ := h.chain
  obtain ⟨rest, rfl, hRest⟩ := (hHead ▸ hChain).pop
  rw [Sys.lies_pool hChain, List.mem_cons, or_iff_right hy]
  constructor
  · rintro ⟨others, hOthers, hMem⟩
    rwa [Chain.unique hRest hOthers]
  · exact fun hMem => ⟨rest, hRest, hMem⟩

section
variable {s : Sys} {req : ReqId} (h : Owned s)

include h

/-- A request of the pool becomes the spare of a thread. -/
theorem Owned.shift_boot {t : Nat} (hPc : s.pc (.recv t) = .boot)
    (hHead : s.mnt.reqHead = some req) :
    s.Shifts ((s.bootThread t req (popReq s.mnt req)).goto (.recv t) .idle) none := by
  obtain ⟨-, -, hPool, -⟩ := h.pop_chain hHead
  have hNone : s.req0 t = none := (h.booted t).mp hPc
  refine .move (.boot t) hPool (Function.update_self _ _ _) fun p y hy => ?_
  apply Sys.lies_other (a := .recv t)
  · exact fun b hb => Sys.goto_pc_of_ne _ _ hb
  · exact h.pool_popReq hHead hy
  · intro u
    change update s.req0 t (some req) u = some y ↔ _
    by_cases hu : u = t
    · subst hu
      rw [Function.update_self, hNone]
      simp [Ne.symm hy]
    · rw [Function.update_of_ne hu]
  · exact Iff.rfl
  · exact Function.update_of_ne hy _ _
  · exact Function.update_of_ne hy _ _
  · rw [Sys.goto_pc_self, hPc]
    exact Iff.rfl

/-- Main allocates a request while it has none. -/
theorem Owned.shift_popMain {fn : Fn} {plan : Plan} {l : Local} (hHead : s.mnt.reqHead = some req)
    (hNone : ∀ r, ¬ (s.pc .main).holds s.mnt r) :
    s.Shifts ({ s with mnt := popReq s.mnt req }.goto .main (.call fn req plan l)) none := by
  obtain ⟨-, -, hPool, -⟩ := h.pop_chain hHead
  refine .move .alloc hPool (Sys.lies_held_goto.mpr rfl) fun p y hy => ?_
  apply Sys.lies_other (a := .main)
  · exact fun b hb => Sys.goto_pc_of_ne _ _ hb
  · exact h.pool_popReq hHead hy
  · exact fun _ => Iff.rfl
  · exact Iff.rfl
  · exact Function.update_of_ne hy _ _
  · exact Function.update_of_ne hy _ _
  · rw [Sys.goto_pc_self]
    exact iff_of_false (fun hSame => hy hSame.symm) (hNone y)

/-- A request in flight goes to the thread that takes up its reply. -/
theorem Owned.shift_take {t : Nat} {rep : Reply} {now : UInt64} (hPc : s.pc (.recv t) = .got rep)
    (hSlot : s.mnt.reqTbl (slot rep.xid) = some req) :
    s.Shifts ((s.take req rep now).goto (.recv t) (.taken req rep)) none := by
  obtain ⟨hFlight, -⟩ := h.table _ _ hSlot
  refine .move (.take t) hFlight (Sys.lies_held_goto.mpr rfl) fun p y hy => ?_
  apply Sys.lies_other (a := .recv t)
  · exact fun b hb => Sys.goto_pc_of_ne _ _ hb
  · exact Iff.rfl
  · exact fun _ => Iff.rfl
  · exact ⟨Finset.mem_of_mem_erase, fun hMem => Finset.mem_erase.mpr ⟨hy, hMem⟩⟩
  · rfl
  · rfl
  · rw [Sys.goto_pc_self, hPc]
    exact iff_of_false (fun hSame => hy hSame.symm) id

/-- The request passes to `nct_mount`, or stays with the receive thread for its callback. -/
theorem Owned.shift_exchange {t : Nat} {rep : Reply} (hAwaited : s.Awaited)
    (hPc : s.pc (.recv t) = .taken req rep) :
    s.Shifts ((s.exchange t req rep).goto (.recv t) (.testCb req)) none := by
  have hHeld : (s.pc (.recv t)).holds s.mnt req := by simp [hPc, Pc.holds]
  have hRest : ∀ p y, y ≠ req →
      (((s.exchange t req rep).goto (.recv t) (.testCb req)).lies p y ↔ s.lies p y) := by
    intro p y hy
    apply Sys.lies_other (a := .recv t)
    · exact fun b hb => Sys.goto_pc_of_ne _ _ hb
    · exact Iff.rfl
    · exact fun _ => Iff.rfl
    · exact Iff.rfl
    · rfl
    · exact Function.update_of_ne hy _ _
    · rw [Sys.goto_pc_self, hPc]
      exact iff_of_false (fun hSame => hy hSame.1.symm) (fun hSame => hy hSame.symm)
  by_cases hCb : s.mnt.reqCb req = none
  · have hMount := hAwaited req (Or.inr ⟨t, by simp [hPc, Pc.taking]⟩) hCb
    refine .move (.done t) hHeld ?_ hRest
    change (s.pc .main).holds (Nct.exchange s.mnt req (s.buf t) rep) req
    have hDone : (Nct.exchange s.mnt req (s.buf t) rep).reqDone req = true :=
      Function.update_self _ _ _
    cases hMain : s.pc .main with
    | call fn r plan l =>
        -- main would hold the request that the receive thread has
        rw [hMain] at hMount
        cases fn with
        | mount =>
            obtain rfl : r = req := Option.some.inj hMount
            have hTwice := h.held_ne (p := .held .main) hHeld (by simp [Sys.lies, hMain, Pc.holds])
            exact absurd hTwice (by simp)
        | _ => cases hMount
    | check fn r ret cc =>
        rw [hMain] at hMount
        cases fn with
        | mount => exact ⟨Option.some.inj hMount, hDone⟩
        | _ => cases hMount
    | back fn r ret freed =>
        rw [hMain] at hMount
        cases fn with
        | mount => exact ⟨Option.some.inj hMount, hDone⟩
        | _ => cases hMount
    | wait r =>
        rw [hMain] at hMount
        exact ⟨Option.some.inj hMount, hDone⟩
    | _ =>
        rw [hMain] at hMount
        cases hMount
  · exact Shift.of_same_place (p := Place.held (.recv t)) h.exclusive (h.exchange hPc).exclusive
      hHeld (Sys.lies_held_goto.mpr ⟨rfl, hCb⟩) hRest

/-- A request goes from the hands of a thread to the pool. -/
theorem Owned.shift_free {a : Agent} {fn : Fn} {plan : Plan} {l : Local}
    (hPc : s.pc a = .call fn req plan l) (hGive : plan.give = .free) :
    s.Shifts ((s.free req).goto a (.back fn req plan.ret true)) none := by
  have hHeld : (s.pc a).holds s.mnt req := by simp [hPc, Pc.holds]
  obtain ⟨free, hChain⟩ := h.chain
  have hOut : req ∉ free := fun hMem =>
    Place.noConfusion (h.held_ne (p := .pool) hHeld ⟨free, hChain, hMem⟩)
  have hPush := hChain.push hOut
  refine .move (.free a) hHeld ⟨_, hPush, List.mem_cons_self⟩ fun p y hy => ?_
  apply Sys.lies_other (a := a)
  · exact fun b hb => Sys.goto_pc_of_ne _ _ hb
  · rw [Sys.lies_pool hChain, Sys.lies_pool hPush, List.mem_cons, or_iff_right hy]
  · exact fun _ => Iff.rfl
  · exact Iff.rfl
  · rfl
  · rfl
  · rw [Sys.goto_pc_self, hPc]
    refine iff_of_false ?_ fun hSame => hy hSame.symm
    have hFits : a.Fits (.call fn req plan l) := hPc ▸ h.fits a
    rcases hFits.of_free hGive with rfl | rfl <;> exact id

omit h in
/-- A request goes from the hands of a thread into flight. -/
theorem Sys.shift_send {a : Agent} {fn : Fn} {plan : Plan} {l : Local} {complete : Bool}
    {cc : Option Nat} (hPc : s.pc a = .call fn req plan l) :
    s.Shifts ((s.send fn req complete).goto a (.check fn req plan.ret cc)) none := by
  have hHeld : (s.pc a).holds s.mnt req := by simp [hPc, Pc.holds]
  refine .move (.send a) hHeld (Finset.mem_insert_self _ _) fun p y hy => ?_
  apply Sys.lies_other (a := a)
  · exact fun b hb => Sys.goto_pc_of_ne _ _ hb
  · exact Iff.rfl
  · exact fun _ => Iff.rfl
  · exact ⟨fun hMem => (Finset.mem_insert.mp hMem).resolve_left hy, Finset.mem_insert_of_mem⟩
  · rfl
  · exact Function.update_of_ne hy _ _
  · rw [Sys.goto_pc_self, hPc]
    refine iff_of_false (fun hHold => ?_) fun hSame => hy hSame.symm
    cases fn with
    | mount => exact hy hHold.1.symm
    | _ => cases hHold

/-- A start function refuses, and leaves its request behind. -/
theorem Owned.shift_refuse {a : Agent} {fn : Fn} {plan : Plan} {l : Local} {prep : List Prep}
    (hPc : s.pc a = .call fn req plan l) (hPrep : plan.prep = .refuse :: prep) :
    s.Shifts ({ s with refused := s.refused + 1 }.goto a (.back fn req (.value EINVAL) false))
      (some req) := by
  have hHeld : (s.pc a).holds s.mnt req := by simp [hPc, Pc.holds]
  have hFits : a.Fits (.call fn req plan l) := hPc ▸ h.fits a
  obtain ⟨rfl, rfl, -⟩ := hFits.start_of_op hPrep (Or.inl rfl)
  refine .lose (p := Place.held .main) rfl hHeld (fun p hp => ?_) fun p y hy => ?_
  · have hOld : p ≠ .held .main → s.lies p req := by
      intro hne
      cases p with
      | held b =>
          have hb : b ≠ .main := fun hb => hne (congrArg Place.held hb)
          change (Sys.pc _ b).holds _ req at hp
          rwa [Sys.goto_pc_of_ne _ _ hb] at hp
      | _ => exact hp
    by_cases hne : p = .held .main
    · subst hne
      cases Sys.lies_held_goto.mp hp
    · exact hne (h.held_ne hHeld (hOld hne))
  · apply Sys.lies_other (a := .main)
    · exact fun b hb => Sys.goto_pc_of_ne _ _ hb
    · exact Iff.rfl
    · exact fun _ => Iff.rfl
    · exact Iff.rfl
    · rfl
    · rfl
    · rw [Sys.goto_pc_self, hPc]
      exact iff_of_false id fun hSame => hy hSame.symm

/-- A start function sets its request's callback, and keeps the request. -/
theorem Owned.shift_arm {a : Agent} {fn : Fn} {plan : Plan} {l : Local} {job : Job}
    {finish : ReqId → UInt64} {prep : List Prep} (hPc : s.pc a = .call fn req plan l)
    (hPrep : plan.prep = .arm job :: prep) (hFresh : ∀ b, (s.pc b).testing ≠ some req) :
    s.Shifts ({ s with mnt := { s.mnt with
      reqTscFinish := finish
      reqCb := update s.mnt.reqCb req (some job) } }.goto a (.call fn req { plan with prep } l))
      none := by
  have hHeld : (s.pc a).holds s.mnt req := by simp [hPc, Pc.holds]
  refine Shift.of_same_place (p := Place.held a) h.exclusive (h.arm hPc hPrep hFresh).exclusive
    hHeld (Sys.lies_held_goto.mpr rfl) fun p y hy => ?_
  apply Sys.lies_other (a := a)
  · exact fun b hb => Sys.goto_pc_of_ne _ _ hb
  · exact Iff.rfl
  · exact fun _ => Iff.rfl
  · exact Iff.rfl
  · exact Function.update_of_ne hy _ _
  · rfl
  · rw [Sys.goto_pc_self, hPc]
    exact Iff.rfl

end

/-- Every step moves one request along the cycle or none, or leaves behind the one
whose start function refuses. -/
theorem step_shift {cfg : Cfg} {s s' : Sys} {act : Act} (h : Owned s) (hAwaited : s.Awaited)
    (hWithin : s.Within cfg) (hOk : NoStaleTest cfg s act) (hStep : Nct.step cfg s act = some s') :
    ∃ lost : Option ReqId, s.Shifts s' lost ∧ s'.refused = s.refused + lost.toFinset.card := by
  obtain ⟨hCase, -⟩ := step_cases hStep
  generalize hAgent : act.agent = a at hCase
  cases hCase with
  | boot hPc hHead => exact ⟨none, h.shift_boot hPc hHead, rfl⟩
  | mount hPc hHead | alloc hPc hHead =>
      exact ⟨none, h.shift_popMain hHead (by simp [hPc, Pc.holds]), rfl⟩
  | take hPc hSlot hXid => exact ⟨none, h.shift_take hPc hSlot, rfl⟩
  | exchange hPc => exact ⟨none, h.shift_exchange hAwaited hPc, rfl⟩
  | free hPc hPrep hGive => exact ⟨none, h.shift_free hPc hGive, rfl⟩
  | send hPc hPrep hGive => exact ⟨none, Sys.shift_send hPc, rfl⟩
  | @refuse _ fn req plan l prep hPc hPrep hPast => exact ⟨some req, h.shift_refuse hPc hPrep, rfl⟩
  | @prepare _ fn req plan l l' p prep s'' hPc hPrep hDo =>
      refine ⟨none, ?_, (prepare_counts hDo).1.refused⟩
      by_cases hArm : ∃ job, p = .arm job
      · obtain ⟨job, rfl⟩ := hArm
        cases hDo
        exact h.shift_arm hPc hPrep (hOk.not_testing h.fits hWithin hAgent hPc hPrep)
      · refine .stay (Sys.lies_stay (prepare_same hDo fun job hp => hArm ⟨job, hp⟩) fun r => ?_)
        rw [hPc]
        exact Iff.rfl
  | settle hPc =>
      refine ⟨none, .stay (Sys.lies_stay (settle_same _ _ _) fun r => ?_), rfl⟩
      rw [hPc]
      split <;> exact Iff.rfl
  | cb hPc hCb | noCb hPc hCb =>
      refine ⟨none, .stay (Sys.lies_stay (by constructor <;> rfl) ?_), rfl⟩
      simp [hPc, hCb, Pc.holds]
  | waited hPc hDone =>
      refine ⟨none, .stay (Sys.lies_stay (by constructor <;> rfl) ?_), rfl⟩
      simp [hPc, hDone, Pc.holds]
  | cantDecode | nullSlot | xidMismatch | mountFailed | sendCheck =>
      exact ⟨none, .stay fun _ _ => Iff.rfl, rfl⟩
  | @checked _ fn req ret cc hPc hCheck =>
      refine ⟨none, .stay (Sys.lies_stay (by constructor <;> rfl) fun r => ?_), rfl⟩
      rw [hPc]
      cases fn <;> exact Iff.rfl
  | _ =>
      exact ⟨none, .stay (Sys.lies_stay (by constructor <;> rfl) (by simp [Pc.holds, *])), rfl⟩

/-- What a run keeps: requests and jobs are accounted for, and a request that is
nowhere is one that a start function has left behind. -/
structure Living (cfg : Cfg) (s : Sys) : Prop where
  kept : Kept cfg s
  awaited : s.Awaited
  left : ∃ lost : Finset ReqId, lost.card = s.refused ∧ ∀ r, r ∈ lost ↔ ¬ ∃ p, s.lies p r

theorem Living.atBoot (cfg : Cfg) : Living cfg Sys.boot where
  kept := Kept.atBoot cfg
  awaited r hAway := by
    rcases hAway with hMem | ⟨t, ht⟩
    · exact absurd hMem (Finset.notMem_empty r)
    · cases ht
  left := by
    obtain ⟨free, hChain, hAll⟩ := reqCreate_all
    exact ⟨∅, rfl, fun r => by simpa using ⟨.pool, free, hChain, hAll r⟩⟩

/-- Each step without a late test keeps it. -/
theorem Living.step {cfg : Cfg} {s s' : Sys} {act : Act} (h : Living cfg s)
    (hOk : NoStaleTest cfg s act) (hStep : Nct.step cfg s act = some s') : Living cfg s' where
  kept := h.kept.step hOk hStep
  awaited := h.awaited.step h.kept.owned h.kept.hasCb hStep
  left := by
    obtain ⟨lost, hCard, hLost⟩ := h.left
    obtain ⟨new, hShift, hRefused⟩ := step_shift h.kept.owned h.awaited h.kept.within hOk hStep
    refine ⟨lost ∪ new.toFinset, ?_, fun r => ?_⟩
    · rw [Finset.card_union_of_disjoint, hCard, hRefused]
      refine Finset.disjoint_left.mpr fun r hOld hNew => (hLost r).mp hOld ?_
      obtain rfl : new = some r := Option.mem_toFinset.mp hNew
      obtain ⟨p, -, hp⟩ := hShift.lost_placed
      exact ⟨p, hp⟩
    · rw [hShift.placed r, Finset.mem_union, hLost, Option.mem_toFinset, Option.mem_def]
      tauto

/-- What the table has does not matter to where a request is. -/
theorem Sys.lies_withTbl {s : Sys} {tbl : Nat → Option ReqId} (p : Place) (r : ReqId) :
    (s.withTbl tbl).lies p r ↔ s.lies p r := by
  cases p with
  | held a => exact Pc.holds_congr rfl rfl
  | _ => exact Iff.rfl

/-- The end of the program moves no request. -/
theorem Sys.lies_crash {s : Sys} {c : Crash} (p : Place) (r : ReqId) :
    (s.crash c).lies p r ↔ s.lies p r := by
  cases p <;> exact Iff.rfl

theorem Living.robust (cfg : Cfg) : Robust (Living cfg) where
  table _ h := h.kept.owned.table
  withTbl s tbl h hTable :=
    ⟨(Kept.robust cfg).withTbl s tbl h.kept hTable, h.awaited, by
      simp only [Sys.lies_withTbl]
      exact h.left⟩
  crash s c h :=
    ⟨(Kept.robust cfg).crash s c h.kept, h.awaited, by
      simp only [Sys.lies_crash]
      exact h.left⟩

/-- It holds in every run in which replies are taken up once. -/
theorem run_living {cfg : Cfg} {s : Races}
    (run : Run (raceStep cfg) (TakenOnce (NoStaleTest cfg)) Races.boot s) :
    Living cfg s.sys ∧ s.Hands cfg :=
  (Living.robust cfg).run (Living.atBoot cfg) (fun _ _ _ h hOk hStep => h.step hOk hStep)
    (fun _ _ h => noStaleTest_takes h) run

/-- A thread's accesses to the table move no request before it goes on with one. -/
theorem raceStep_shift {cfg : Cfg} {s s' : Races} {act : RaceAct} (h : Living cfg s.sys)
    (hHands : s.Hands cfg) (hOk : TakenOnce (NoStaleTest cfg) s act)
    (hStep : raceStep cfg s act = some s') :
    ∃ lost : Option ReqId, s.sys.Shifts s'.sys lost ∧
      s'.sys.refused = s.sys.refused + lost.toFinset.card := by
  cases act with
  | go act =>
      exact step_shift h.kept.owned h.awaited h.kept.within hOk (raceStep_go hStep).2.1
  | look t =>
      obtain ⟨rep, -, -, -, hSys, -⟩ := raceStep_look hStep
      rw [hSys]
      exact ⟨none, .stay fun _ _ => Iff.rfl, rfl⟩
  | clear t =>
      obtain ⟨rep, req, -, hSys, -⟩ := raceStep_clear hStep
      rw [hSys]
      exact ⟨none, .stay Sys.lies_withTbl, rfl⟩
  | check t now =>
      obtain ⟨rep, req, other, hRun, hHand, -, hSys⟩ := raceStep_check hStep
      rcases hSys with ⟨-, c, hSys⟩ | ⟨r, rfl, hXid, hSys⟩
      · rw [hSys]
        exact ⟨none, .stay Sys.lies_crash, rfl⟩
      · obtain ⟨ht, hPc⟩ := hHands t _ hHand
        simp only [TakenOnce, Races.TakesOnce, hHand] at hOk
        have hEntered := (Living.robust cfg).entered h hXid (hOk hXid).1
        obtain ⟨taken, hTake, hFound⟩ := found_of_take rep now hRun ht hPc hXid
        have hStale : NoStaleTest cfg (s.sys.entered rep.xid r) (takeAt t now) :=
          noStaleTest_takes (by simp [takeAt, Act.TakesUp, Sys.entered, Sys.withTbl, hPc])
        obtain ⟨lost, hShift, hRefused⟩ :=
          step_shift hEntered.kept.owned hEntered.awaited hEntered.kept.within hStale hTake
        rw [hSys, hFound]
        exact ⟨lost, hShift.congr Sys.lies_withTbl Sys.lies_withTbl, hRefused⟩

/-- The cycle that every request goes through, in every run and whatever the
threads do next: it stays where it is or follows one edge, is never in two places,
and has no place any more only if its start function has refused. -/
theorem life_cycle (cfg : Cfg) (s : Races)
    (run : Run (raceStep cfg) (TakenOnce (NoStaleTest cfg)) Races.boot s) :
    (∀ p q r, s.sys.lies p r → s.sys.lies q r → p = q) ∧
    ∀ act s', TakenOnce (NoStaleTest cfg) s act → raceStep cfg s act = some s' →
      ∀ p r, s.sys.lies p r →
        (∃ q, s'.sys.lies q r ∧ (q = p ∨ p.Leads q)) ∨
          (p = .held .main ∧ (∀ q, ¬ s'.sys.lies q r) ∧ s'.sys.refused = s.sys.refused + 1) := by
  obtain ⟨hLiving, hHands⟩ := run_living run
  have hExclusive := hLiving.kept.owned.exclusive
  refine ⟨hExclusive, fun act s' hOk hStep p r hp => ?_⟩
  have hExclusive' := (run_living (run.snoc hOk hStep)).1.kept.owned.exclusive
  obtain ⟨lost, hShift, hRefused⟩ := raceStep_shift hLiving hHands hOk hStep
  by_cases hLost : lost = some r
  · subst hLost
    obtain ⟨q, rfl, hq⟩ := hShift.lost_placed
    exact Or.inr ⟨hExclusive p _ r hp hq, fun q hq => ((hShift.placed r).mp ⟨q, hq⟩).2 rfl,
      hRefused⟩
  · obtain ⟨q, hq⟩ := (hShift.placed r).mpr ⟨⟨p, hp⟩, hLost⟩
    exact Or.inl ⟨q, hq, hShift.follows hExclusive' hExclusive hp hq⟩

/-- The only job is in flight. -/
theorem life_cycle_plainSteps : ∃ s : Sys, s.pc .main = .stats ∧ s.mnt.reqTbl 11 = none ∧
    ∀ p q r, s.lies p r → s.lies q r → p = q := by
  obtain ⟨s, hRun, hMain, hTbl⟩ : ∃ s, Run (step twoThreads) (NoStaleTest twoThreads) Sys.boot s ∧
      s.pc .main = .stats ∧ s.mnt.reqTbl 11 = none :=
    Run.of_exec_any plainSteps (by decide +kernel)
  have hRaces := races_of_run (fun _ _ hOk => hOk) hRun
  exact ⟨s, hMain, hTbl, (life_cycle twoThreads ⟨s, fun _ => none⟩ hRaces).1⟩

end Nct
