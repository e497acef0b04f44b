import Nct.TakeUp

/-! How the resend loop tells the requests that are in flight: by two time
stamps, of which the callbacks and start functions write one, and the receive
loop the other. -/
namespace Nct

open Function (update)
open Transition (Run)

/-- What is left to do once the request has been stamped, or the stamp is still
to come. -/
def EndsInSend : List Prep → Prop
  | [] => True
  | .encode _ :: prep => prep = []
  | .stamp :: prep => ∃ job, prep = [.encode job]
  | _ :: prep => .stamp ∈ prep ∧ EndsInSend prep

/-- A plan stamps its request if it sends it, and does nothing else if not. -/
def Plan.Stamps (plan : Plan) : Prop :=
  (plan.give = .free ∧ plan.prep = []) ∨ (plan.give = .send ∧ EndsInSend plan.prep)

/-- The request that a thread has stamped and is about to send. -/
def Pc.sending : Pc → Option ReqId
  | .call _ req plan _ => if plan.give = .send ∧ .stamp ∉ plan.prep then some req else none
  | _ => none

def Pc.Stamps : Pc → Prop
  | .call _ _ plan _ => plan.Stamps
  | _ => True

/-- The send of the request has begun, and its reply has not been taken up. -/
def Sys.Awaits (s : Sys) (req : ReqId) : Prop :=
  req ∈ s.inFlight ∨ ∃ a, (s.pc a).sending = some req

/-- The test of the resend loop. -/
def Mnt.LooksSent (mnt : Mnt) (req : ReqId) : Prop := mnt.reqTscStart req > mnt.reqTscStop req

instance (mnt : Mnt) (req : ReqId) : Decidable (mnt.LooksSent req) :=
  inferInstanceAs (Decidable (_ < _))

/-- A request is stamped later than its last reply was. -/
def StampsLater (s : Sys) (act : Act) : Prop :=
  match s.pc act.agent with
  | .call _ req ⟨.stamp :: _, _, _⟩ _ => s.mnt.reqTscStop req < act.input.now
  | _ => True

instance (s : Sys) (act : Act) : Decidable (StampsLater s act) := by
  unfold StampsLater
  generalize s.pc act.agent = pc
  induction pc using Pc.casesOn with
  | call fn req plan l =>
      obtain ⟨_ | ⟨p, prep⟩, give, ret⟩ := plan
      · infer_instance
      · induction p using Prep.casesOn <;> infer_instance
  | _ => infer_instance

/-- The pass of a resend loop finds no request to send. -/
def ResendsNone (s : Link) (t : Nat) : Prop :=
  match s.scan t with
  | none => True
  | some i =>
      match s.sys.mnt.reqTbl i with
      | none => True
      | some req => ¬ s.sys.mnt.LooksSent req

instance (s : Link) (t : Nat) : Decidable (ResendsNone s t) := by
  unfold ResendsNone
  generalize s.scan t = scan
  induction scan using Option.casesOn with
  | none => infer_instance
  | some i =>
      dsimp only
      generalize s.sys.mnt.reqTbl i = found
      induction found using Option.casesOn <;> infer_instance

/-- What the steps of a run must meet for the test to be right: requests are not
shared by a late test of a callback, are stamped later than their last reply,
and are not sent again by a resend loop. -/
def StampsRight (cfg : Cfg) (s : Link) : LinkAct → Prop
  | .go act => NoStaleTest cfg s.sys act ∧ StampsLater s.sys act
  | .drop _ => True
  | .scan t _ _ => ResendsNone s t

instance (cfg : Cfg) (s : Link) (act : LinkAct) : Decidable (StampsRight cfg s act) := by
  unfold StampsRight
  induction act using LinkAct.casesOn <;> infer_instance

structure Stamped (cfg : Cfg) (s : Sys) (last : UInt64) : Prop where
  owned : Owned s
  within : s.Within cfg
  stamps : ∀ a, (s.pc a).Stamps
  starts : ∀ req, s.mnt.reqTscStart req ≤ last
  stops : ∀ req, s.mnt.reqTscStop req ≤ last
  test : ∀ req, s.mnt.LooksSent req ↔ s.Awaits req

theorem EndsInSend.tail {p : Prep} {prep : List Prep} (h : EndsInSend (p :: prep)) :
    EndsInSend prep := by
  cases p with
  | encode job =>
      obtain rfl : prep = [] := h
      trivial
  | stamp =>
      obtain ⟨job, rfl⟩ : ∃ job, prep = [.encode job] := h
      rfl
  | _ => exact h.2

/-- What is left of a plan still stamps before it sends. -/
theorem Plan.Stamps.tail {plan : Plan} {p : Prep} {prep : List Prep} (h : plan.Stamps)
    (hPrep : plan.prep = p :: prep) : Plan.Stamps { plan with prep } := by
  rcases h with ⟨-, hNil⟩ | ⟨hGive, hEnds⟩
  · cases hPrep.symm.trans hNil
  · rw [hPrep] at hEnds
    exact Or.inr ⟨hGive, hEnds.tail⟩

/-- A callback that sends its request again stamps it first. -/
theorem Job.cb_stamps (xdr : XdrInts) (job : Job) (mnt : Mnt) (req : ReqId) (status : UInt32) :
    (job.cb xdr mnt req status).Stamps ∧
      ((job.cb xdr mnt req status).give = .send → .stamp ∈ (job.cb xdr mnt req status).prep) := by
  cases job <;> simp only [Job.cb, testNullCb, testGetattrCb, testReadCb] <;> split_ifs <;>
    simp [Plan.Stamps, EndsInSend]

/-- A start function stamps its request before it sends it. -/
theorem Job.start_stamps (job : Job) : job.start.Stamps ∧ .stamp ∈ job.start.prep := by
  cases job <;> simp [Job.start, testNullStart, testGetattrStart, testReadStart, Plan.Stamps, EndsInSend]

/-- The two states agree on the time stamps and on what is in flight. -/
structure Sys.SameStamps (s s' : Sys) : Prop where
  start : s'.mnt.reqTscStart = s.mnt.reqTscStart
  stop : s'.mnt.reqTscStop = s.mnt.reqTscStop
  inFlight : s'.inFlight = s.inFlight

/-- Of the operations of a plan only the stamp touches the two times. -/
theorem prepare_stamps {cfg : Cfg} {s s' : Sys} {req : ReqId} {l l' : Local} {now : UInt64} {p : Prep}
    (h : s.prepare cfg req l now p = some (s', l')) (hp : p ≠ .stamp) : s.SameStamps s' := by
  rcases prepare_cases h with ⟨_, -, rfl⟩ | ⟨hStamp, -⟩ | ⟨_, -, rfl⟩ | ⟨_, rfl⟩
  case inr.inl => exact absurd hStamp hp
  all_goals constructor <;> rfl

theorem settle_stamps (s : Sys) (rc : UInt32) (freed : Bool) : s.SameStamps (s.settle rc freed) := by
  obtain ⟨_, _, _, hEq⟩ := settle_eq s rc freed
  rw [hEq]
  constructor <;> rfl

theorem Sys.SameStamps.goto {s s' : Sys} (h : s.SameStamps s') (a : Agent) (pc : Pc) :
    s.SameStamps (s'.goto a pc) :=
  ⟨h.start, h.stop, h.inFlight⟩

section
variable {cfg : Cfg} {s s' : Sys} {last now : UInt64} {a : Agent}

/-- A thread that is about to send a request holds it. -/
theorem Pc.holds_of_sending {mnt : Mnt} {pc : Pc} {req : ReqId} (h : pc.sending = some req) :
    pc.holds mnt req := by
  cases pc with
  | call fn r plan l =>
      simp only [Pc.sending, Option.ite_none_right_eq_some, Option.some.injEq] at h
      simp [Pc.holds, h.2]
  | _ => cases h

/-- Whether a request is about to be sent is up to the thread that moves. -/
theorem sending_congr (hOther : ∀ b, b ≠ a → s'.pc b = s.pc b) (req : ReqId)
    (hSame : (s'.pc a).sending = some req ↔ (s.pc a).sending = some req) :
    (∃ b, (s'.pc b).sending = some req) ↔ ∃ b, (s.pc b).sending = some req :=
  exists_congr <| Sys.forall_pc (P := fun b pc => pc.sending = some req ↔ (s.pc b).sending = some req)
    hOther hSame fun _ _ => Iff.rfl

/-- The times have not changed, and a thread that moves has stamped what it is about to
send. -/
theorem Stamped.frame (h : Stamped cfg s last) (hOwned : Owned s') (hWithin : s'.Within cfg)
    (hNow : last ≤ now) (hSame : s.SameStamps s') (hOther : ∀ b, b ≠ a → s'.pc b = s.pc b)
    (hNew : (s'.pc a).Stamps) (hSending : (s'.pc a).sending = (s.pc a).sending) :
    Stamped cfg s' now := by
  refine ⟨hOwned, hWithin, ?_, fun req => ?_, fun req => ?_, fun req => ?_⟩
  · exact Sys.forall_pc hOther hNew fun b _ => h.stamps b
  · rw [hSame.start]
    exact UInt64.le_trans (h.starts req) hNow
  · rw [hSame.stop]
    exact UInt64.le_trans (h.stops req) hNow
  · rw [Mnt.LooksSent, hSame.start, hSame.stop, Sys.Awaits, hSame.inFlight,
      sending_congr hOther req (by rw [hSending])]
    exact h.test req

/-- The receive loop takes up a reply. -/
theorem Stamped.take {t : Nat} {rep : Reply} {req : ReqId} (h : Stamped cfg s last)
    (hOwned : Owned ((s.take req rep now).goto (.recv t) (.taken req rep)))
    (hWithin : ((s.take req rep now).goto (.recv t) (.taken req rep)).Within cfg)
    (hNow : last ≤ now) (hPc : s.pc (.recv t) = .got rep)
    (hSlot : s.mnt.reqTbl (slot rep.xid) = some req) :
    Stamped cfg ((s.take req rep now).goto (.recv t) (.taken req rep)) now := by
  have hFlight : req ∈ s.inFlight := (h.owned.table _ _ hSlot).1
  have hOther : ∀ b, b ≠ .recv t →
      ((s.take req rep now).goto (.recv t) (.taken req rep)).pc b = s.pc b := fun b hb =>
    Sys.goto_pc_of_ne _ _ hb
  have hSending := fun r => sending_congr hOther r (by simp [hPc, Pc.sending])
  have hNotSending : ¬ ∃ b, (s.pc b).sending = some req := by
    rintro ⟨b, hb⟩
    exact Place.noConfusion (h.owned.held_ne (p := .flight) (Pc.holds_of_sending hb) hFlight)
  refine ⟨hOwned, hWithin, ?_, fun r => ?_, fun r => ?_, fun r => ?_⟩
  · exact Sys.goto_forall (P := fun _ pc => pc.Stamps) trivial fun b _ => h.stamps b
  · exact UInt64.le_trans (h.starts r) hNow
  · by_cases hr : r = req
    · subst hr
      simp [Sys.take, stampStop]
    · simpa [Sys.take, stampStop, clearSlot, Function.update_of_ne hr] using
        UInt64.le_trans (h.stops r) hNow
  · by_cases hr : r = req
    · subst hr
      refine iff_of_false ?_ ?_
      · simpa [Mnt.LooksSent, Sys.take, stampStop, clearSlot] using
          UInt64.le_trans (h.starts r) hNow
      · rintro (hIn | hSend)
        · simp [Sys.take, Sys.goto] at hIn
        · exact hNotSending ((hSending r).mp hSend)
    · have hTest := h.test r
      simp only [Mnt.LooksSent, Sys.Awaits, hSending] at hTest ⊢
      simpa [Sys.take, Sys.goto, stampStop, clearSlot, Function.update_of_ne hr, hr] using hTest

/-- The thread that holds a request stamps it. -/
theorem Stamped.stamp {fn : Fn} {req : ReqId} {plan : Plan} {l : Local} {prep : List Prep}
    (h : Stamped cfg s last) (hOwned : Owned s') (hWithin : s'.Within cfg) (hNow : last ≤ now)
    (hPc : s.pc a = .call fn req plan l) (hPrep : plan.prep = .stamp :: prep)
    (hLater : s.mnt.reqTscStop req < now)
    (hMnt : s'.mnt = { s.mnt with reqTscStart := update s.mnt.reqTscStart req now })
    (hFlight : s'.inFlight = s.inFlight) (hOther : ∀ b, b ≠ a → s'.pc b = s.pc b)
    (hNew : s'.pc a = .call fn req { plan with prep } l) : Stamped cfg s' now := by
  have hStamps := h.stamps a
  rw [hPc] at hStamps
  have hSends : plan.give = .send ∧ .stamp ∉ prep := by
    rcases hStamps with ⟨-, hNil⟩ | ⟨hGive, hEnds⟩
    · cases hPrep.symm.trans hNil
    · rw [hPrep] at hEnds
      obtain ⟨job, rfl⟩ := hEnds
      exact ⟨hGive, by simp⟩
  have hOld : (s.pc a).sending = none := by simp [hPc, Pc.sending, hPrep]
  have hNow' : (s'.pc a).sending = some req := by simp [hNew, Pc.sending, hSends]
  refine ⟨hOwned, hWithin, ?_, fun r => ?_, fun r => ?_, fun r => ?_⟩
  · refine Sys.forall_pc hOther ?_ fun b _ => h.stamps b
    rw [hNew]
    exact hStamps.tail hPrep
  · rw [hMnt]
    by_cases hr : r = req
    · subst hr
      simp
    · simpa [Function.update_of_ne hr] using UInt64.le_trans (h.starts r) hNow
  · rw [hMnt]
    exact UInt64.le_trans (h.stops r) hNow
  · by_cases hr : r = req
    · subst hr
      exact iff_of_true (by simpa [Mnt.LooksSent, hMnt] using hLater) (Or.inr ⟨a, hNow'⟩)
    · have hSame := sending_congr hOther r (by simp [hOld, hNow', Ne.symm hr])
      have hTest := h.test r
      simp only [Mnt.LooksSent, Sys.Awaits, hMnt, hFlight, hSame,
        Function.update_of_ne hr] at hTest ⊢
      exact hTest

/-- The thread that holds a request sends it. -/
theorem Stamped.send {fn : Fn} {req : ReqId} {plan : Plan} {l : Local} {complete : Bool} {pc : Pc}
    (h : Stamped cfg s last) (hOwned : Owned ((s.send fn req complete).goto a pc))
    (hWithin : ((s.send fn req complete).goto a pc).Within cfg) (hNow : last ≤ now)
    (hPc : s.pc a = .call fn req plan l) (hPrep : plan.prep = []) (hGive : plan.give = .send)
    (hStamps : pc.Stamps) (hSent : pc.sending = none) :
    Stamped cfg ((s.send fn req complete).goto a pc) now := by
  have hOld : (s.pc a).sending = some req := by simp [hPc, Pc.sending, hPrep, hGive]
  have hOther : ∀ b, b ≠ a → ((s.send fn req complete).goto a pc).pc b = s.pc b := fun b hb =>
    Sys.goto_pc_of_ne _ _ hb
  refine ⟨hOwned, hWithin, ?_, fun r => ?_, fun r => ?_, fun r => ?_⟩
  · exact Sys.goto_forall hStamps fun b _ => h.stamps b
  · exact UInt64.le_trans (h.starts r) hNow
  · exact UInt64.le_trans (h.stops r) hNow
  · refine (h.test r).trans ⟨?_, ?_⟩
    · rintro (hIn | ⟨b, hb⟩)
      · exact Or.inl (Finset.mem_insert_of_mem hIn)
      · by_cases hba : b = a
        · obtain rfl : req = r := Option.some.inj (hOld.symm.trans (hba ▸ hb))
          exact Or.inl (Finset.mem_insert_self _ _)
        · exact Or.inr ⟨b, by rwa [hOther b hba]⟩
    · rintro (hIn | ⟨b, hb⟩)
      · rcases Finset.mem_insert.mp hIn with rfl | hBefore
        · exact Or.inr ⟨a, hOld⟩
        · exact Or.inl hBefore
      · by_cases hba : b = a
        · rw [hba, Sys.goto_pc_self, hSent] at hb
          cases hb
        · exact Or.inr ⟨b, by rwa [hOther b hba] at hb⟩

end

/-- Each step of the program keeps it, at the time of the step. -/
theorem Stamped.step {cfg : Cfg} {s s' : Sys} {last : UInt64} {act : Act} (h : Stamped cfg s last)
    (hNow : last ≤ act.input.now) (hStale : NoStaleTest cfg s act) (hLater : StampsLater s act)
    (hStep : Nct.step cfg s act = some s') : Stamped cfg s' act.input.now := by
  have hOwned := h.owned.step h.within hStale hStep
  have hWithin := h.within.step hStep
  obtain ⟨hCase, -⟩ := step_cases hStep
  have hOther := fun b (hb : b ≠ act.agent) => step_pc_other hCase hb
  generalize hAgent : act.agent = a at hCase hOther
  cases hCase with
  | take hPc hSlot hXid => exact h.take hOwned hWithin hNow hPc hSlot
  | @prepare _ fn req plan l l' p prep s'' hPc hPrep hDo =>
      have hPlan : plan.Stamps := by simpa [hPc, Pc.Stamps] using h.stamps a
      by_cases hp : p = .stamp
      · subst hp
        obtain ⟨_, give, ret⟩ := plan
        obtain rfl := hPrep
        cases hDo
        have hStop : s.mnt.reqTscStop req < act.input.now := by
          simpa only [StampsLater, hAgent, hPc] using hLater
        exact h.stamp hOwned hWithin hNow hPc rfl hStop rfl rfl hOther (Sys.goto_pc_self _ _ _)
      · refine h.frame hOwned hWithin hNow ((prepare_stamps hDo hp).goto _ _) hOther ?_ ?_
        · rw [Sys.goto_pc_self]
          exact hPlan.tail hPrep
        · rw [Sys.goto_pc_self, hPc]
          simp [Pc.sending, hPrep, Ne.symm hp]
  | @refuse _ fn req plan l prep hPc hPrep hPast =>
      have hPlan : plan.Stamps := by simpa [hPc, Pc.Stamps] using h.stamps a
      refine h.frame hOwned hWithin hNow (by constructor <;> rfl) hOther ?_ ?_
      · rw [Sys.goto_pc_self]
        trivial
      · rcases hPlan with ⟨-, hNil⟩ | ⟨-, hEnds⟩
        · cases hPrep.symm.trans hNil
        · rw [hPrep] at hEnds
          rw [Sys.goto_pc_self, hPc]
          simp [Pc.sending, hPrep, hEnds.1]
  | free hPc hPrep hGive =>
      refine h.frame hOwned hWithin hNow (by constructor <;> rfl) hOther ?_ ?_
      · rw [Sys.goto_pc_self]
        trivial
      · rw [Sys.goto_pc_self, hPc]
        simp [Pc.sending, hGive]
  | send hPc hPrep hGive =>
      exact h.send hOwned hWithin hNow hPc hPrep hGive trivial rfl
  | @callback t req job hPc =>
      obtain ⟨hStamps, hStamp⟩ := job.cb_stamps cfg.xdr s.mnt req act.input.status
      refine h.frame hOwned hWithin hNow (by constructor <;> rfl) hOther ?_ ?_
      · rw [Sys.goto_pc_self]
        exact hStamps
      · rw [Sys.goto_pc_self, hPc]
        simpa [Pc.sending] using hStamp
  | mount hPc hHead | decoded hPc =>
      refine h.frame hOwned hWithin hNow (by constructor <;> rfl) hOther ?_ ?_
      · rw [Sys.goto_pc_self]
        simp [Pc.Stamps, Plan.Stamps, mountPlan, mountedPlan, EndsInSend]
      · rw [Sys.goto_pc_self, hPc]
        simp [Pc.sending, mountPlan, mountedPlan]
  | alloc hPc hHead =>
      obtain ⟨hStamps, hStamp⟩ := cfg.job.start_stamps
      refine h.frame hOwned hWithin hNow (by constructor <;> rfl) hOther ?_ ?_
      · rw [Sys.goto_pc_self]
        exact hStamps
      · rw [Sys.goto_pc_self, hPc]
        simp [Pc.sending, hStamp]
  | cantDecode | nullSlot | xidMismatch | mountFailed | sendCheck =>
      exact h.frame hOwned hWithin hNow (by constructor <;> rfl) hOther (h.stamps _) rfl
  | settle hPc =>
      refine h.frame hOwned hWithin hNow ((settle_stamps _ _ _).goto _ _) hOther ?_ ?_
      · rw [Sys.goto_pc_self]
        split <;> trivial
      · rw [Sys.goto_pc_self, hPc]
        split <;> rfl
  | _ =>
      refine h.frame hOwned hWithin hNow (by constructor <;> rfl) hOther ?_ ?_
      · rw [Sys.goto_pc_self]
        trivial
      · rw [Sys.goto_pc_self]
        simp [Pc.sending, *]

theorem Stamped.atBoot (cfg : Cfg) : Stamped cfg Sys.boot 0 := by
  have hStart (req : ReqId) : Sys.boot.mnt.reqTscStart req = 0 := by
    change (reqCreate Mnt.zero).reqTscStart req = 0
    rw [reqCreate, createReqs_rest]
    rfl
  have hStop (req : ReqId) : Sys.boot.mnt.reqTscStop req = 0 := by
    change (reqCreate Mnt.zero).reqTscStop req = 0
    rw [reqCreate, createReqs_rest]
    rfl
  refine ⟨Owned.atBoot, fun _ _ => rfl, fun a => ?_, fun req => ?_, fun req => ?_, fun req => ?_⟩
  · cases a <;> trivial
  · rw [hStart]
    exact UInt64.le_refl 0
  · rw [hStop]
    exact UInt64.le_refl 0
  · refine iff_of_false ?_ ?_
    · rw [Mnt.LooksSent, hStart, hStop]
      exact UInt64.lt_irrefl 0
    · rintro (hIn | ⟨a, ha⟩)
      · exact absurd hIn (Finset.notMem_empty req)
      · cases a <;> cases ha

/-- Nothing changes but what the stamps do not depend on. -/
theorem Stamped.same {cfg : Cfg} {s s' : Sys} {last now : UInt64} (h : Stamped cfg s last)
    (hNow : last ≤ now) (hOwners : s.SameOwners s') (hSame : s.SameStamps s') (hPc : s'.pc = s.pc) :
    Stamped cfg s' now := by
  refine h.frame (a := .main) (h.owned.same hOwners) (fun t ht => ?_) hNow hSame (fun b _ => ?_) ?_ ?_
  · rw [hPc]
    exact h.within t ht
  all_goals rw [hPc]
  exact h.stamps .main

theorem Sys.resent_nothing (s : Sys) (latencyCum : UInt64) : s.resent ⟨s.mnt, latencyCum, []⟩ = s := by
  simp [Sys.resent]

/-- A resend loop that finds no request to send again keeps it, as the program does. -/
theorem linkStep_stamped {cfg : Cfg} {s s' : Link} {act : LinkAct} (h : Stamped cfg s.sys s.last)
    (hOk : StampsRight cfg s act) (hStep : linkStep cfg s act = some s') :
    Stamped cfg s'.sys s'.last := by
  cases act with
  | go act =>
      simp only [linkStep] at hStep
      split at hStep
      · next hGo =>
          obtain ⟨sys, hSys, rfl⟩ := Option.map_eq_some_iff.mp hStep
          exact h.step hGo.2 hOk.1 hOk.2 hSys
      · cases hStep
  | drop t =>
      simp only [linkStep] at hStep
      split at hStep
      · cases hStep
        exact h.same (UInt64.le_refl _) (by constructor <;> rfl) (by constructor <;> rfl) rfl
      · cases hStep
  | scan t now complete =>
      cases hScan : s.scan t with
      | none => simp [linkStep, hScan] at hStep
      | some i =>
          simp only [linkStep, hScan] at hStep
          split at hStep
          · cases hStep
          · next hNow =>
              have hLe : s.last ≤ now := UInt64.not_lt.mp fun hLt => hNow (Or.inr hLt)
              split at hStep
              · cases hTbl : s.sys.mnt.reqTbl i with
                | none =>
                    simp only [resendSlot, hTbl, Option.some.injEq] at hStep
                    subst hStep
                    exact h.same hLe (by constructor <;> rfl) (by constructor <;> rfl) rfl
                | some req =>
                    have hLooks : ¬ s.sys.mnt.LooksSent req := by
                      simpa only [StampsRight, ResendsNone, hScan, hTbl] using hOk
                    have hNot : ¬ s.sys.mnt.reqTscStart req > s.sys.mnt.reqTscStop req := hLooks
                    simp only [resendSlot, hTbl, hNot, if_false, Option.some.injEq] at hStep
                    subst hStep
                    rw [Sys.resent_nothing]
                    exact h.same hLe (by constructor <;> rfl) (by constructor <;> rfl) rfl
              · cases hStep
                exact h

/-- The state without the clock and the resend loops. -/
def Split.races (s : Split) : Races := ⟨s.link.sys, s.hand⟩

/-- The steps other than the take-ups are as `StampsRight` asks, and no two threads
go on with one request for one send. -/
def StampsOnce (cfg : Cfg) (s : Split) : SplitAct → Prop
  | .link act => StampsRight cfg s.link act
  | .check t _ => s.races.TakesOnce t
  | _ => True

instance (cfg : Cfg) (s : Split) (act : SplitAct) : Decidable (StampsOnce cfg s act) := by
  unfold StampsOnce
  induction act using SplitAct.casesOn <;> infer_instance

/-- Time goes on. -/
theorem Stamped.mono {cfg : Cfg} {s : Sys} {last now : UInt64} (h : Stamped cfg s last)
    (hNow : last ≤ now) : Stamped cfg s now :=
  h.same hNow (by constructor <;> rfl) (by constructor <;> rfl) rfl

theorem Stamped.robust (cfg : Cfg) (last : UInt64) : Robust fun s => Stamped cfg s last where
  table _ h := h.owned.table
  withTbl s tbl h hTable :=
    ⟨Owned.robust.withTbl s tbl h.owned hTable, h.within, h.stamps, h.starts, h.stops, h.test⟩
  crash _ _ h := h.same (UInt64.le_refl _) (by constructor <;> rfl) (by constructor <;> rfl) rfl

theorem stampsLater_takes {s : Sys} {act : Act} (h : act.TakesUp s = true) : StampsLater s act := by
  obtain ⟨rep, hPc⟩ := Act.got_of_takesUp h
  unfold StampsLater
  rw [hPc]
  trivial

section
variable {cfg : Cfg} {s s' : Split}

/-- The accesses of the take-up are the same on a connection that can be lost. -/
theorem splitStep_races {act : SplitAct} (h : splitStep cfg s act = some s') :
    match act with
    | .link act => act.TakesUp s.link.sys = false ∧ linkStep cfg s.link act = some s'.link ∧
        s'.hand = s.hand
    | .look t => raceStep cfg s.races (.look t) = some s'.races ∧ s'.link.last = s.link.last
    | .clear t => raceStep cfg s.races (.clear t) = some s'.races ∧ s'.link.last = s.link.last
    | .check t now => raceStep cfg s.races (.check t now) = some s'.races ∧
        s.link.last ≤ now ∧ s'.link.last = now := by
  cases act with
  | link act =>
      simp only [splitStep] at h
      split at h
      · cases h
      · next hNot =>
          obtain ⟨link, hLink, rfl⟩ := Option.map_eq_some_iff.mp h
          exact ⟨by simpa using hNot, hLink, rfl⟩
  | look t =>
      simp only [splitStep] at h
      split at h
      · next hRun =>
          split at h
          · next rep hPc hHand =>
              cases h
              exact ⟨by simp [raceStep, Split.races, hRun, hPc, hHand], rfl⟩
          · cases h
      · cases h
  | clear t =>
      simp only [splitStep] at h
      split at h
      · next hRun =>
          split at h
          · next rep req hHand =>
              cases h
              exact ⟨by simp [raceStep, Split.races, hRun, hHand], rfl⟩
          · cases h
      · cases h
  | check t now =>
      simp only [splitStep] at h
      split at h
      · next hRun =>
          split at h
          · next rep req other hHand =>
              cases h
              refine ⟨?_, hRun.2, rfl⟩
              simp only [raceStep, Split.races, hRun.1, hHand, if_true]
              rfl
          · cases h
      · cases h

/-- A step other than a take-up leaves the threads that hold a reply where they are. -/
theorem linkStep_got {s s' : Link} {act : LinkAct} {t : Nat} {rep : Reply}
    (h : linkStep cfg s act = some s') (hNot : act.TakesUp s.sys = false)
    (hPc : s.sys.pc (.recv t) = .got rep) : s'.sys.pc (.recv t) = .got rep := by
  cases act with
  | go act =>
      simp only [linkStep] at h
      split at h
      · obtain ⟨sys, hSys, rfl⟩ := Option.map_eq_some_iff.mp h
        have hAgent : Agent.recv t ≠ act.agent := by
          intro hEq
          simp [LinkAct.TakesUp, Act.TakesUp, ← hEq, hPc] at hNot
        exact (step_pc_other (step_cases hSys).1 hAgent).trans hPc
      · cases h
  | drop u =>
      simp only [linkStep] at h
      split at h
      · cases h
        exact hPc
      · cases h
  | scan u now complete =>
      simp only [linkStep] at h
      split at h
      · cases h
      · split at h
        · cases h
        · split at h
          · split at h <;> cases h <;> exact hPc
          · cases h
            exact hPc

/-- A thread keeps its reply through the steps of the others. -/
theorem Split.hands_step {act : SplitAct} (h : s.races.Hands cfg)
    (hStep : splitStep cfg s act = some s') : s'.races.Hands cfg := by
  have hRaces := splitStep_races hStep
  cases act with
  | link act =>
      obtain ⟨hNot, hLink, hSame⟩ := hRaces
      intro t g (hg : s'.hand t = some g)
      rw [hSame] at hg
      obtain ⟨ht, hPc⟩ := h t g hg
      exact ⟨ht, linkStep_got hLink hNot hPc⟩
  | look t => exact h.step hRaces.1
  | clear t => exact h.step hRaces.1
  | check t now => exact h.step hRaces.1

/-- Each of the single steps keeps it. -/
theorem splitStep_stamped {act : SplitAct} (h : Stamped cfg s.link.sys s.link.last)
    (hHands : s.races.Hands cfg) (hOk : StampsOnce cfg s act)
    (hStep : splitStep cfg s act = some s') : Stamped cfg s'.link.sys s'.link.last := by
  have hRaces := splitStep_races hStep
  cases act with
  | link act => exact linkStep_stamped h hOk hRaces.2.1
  | look t =>
      rw [hRaces.2]
      exact Robust.look (P := fun sys => Stamped cfg sys s.link.last) h hRaces.1
  | clear t =>
      rw [hRaces.2]
      exact (Stamped.robust cfg _).clear h hRaces.1
  | check t now =>
      rw [hRaces.2.2]
      refine (Stamped.robust cfg now).check (h.mono hRaces.2.1) hHands hOk hRaces.1 ?_
      intro _ _ hPrior hTakesUp hTake
      exact hPrior.step (UInt64.le_refl now) (noStaleTest_takes hTakesUp)
        (stampsLater_takes hTakesUp) hTake

end

/-- As long as requests are stamped later than their last replies, none is sent
again on a new connection, and no two threads go on with one request for one send,
the test tells what is in flight. -/
theorem looksSent_iff (cfg : Cfg) (s : Split)
    (run : Run (splitStep cfg) (StampsOnce cfg) Split.boot s) (req : ReqId) :
    s.link.sys.mnt.LooksSent req ↔ s.link.sys.Awaits req := by
  have h : Stamped cfg s.link.sys s.link.last ∧ s.races.Hands cfg :=
    run.invariant (P := fun s => Stamped cfg s.link.sys s.link.last ∧ s.races.Hands cfg)
      ⟨Stamped.atBoot cfg, fun _ _ hHand => by cases hHand⟩
      fun _ _ _ h hOk hStep => ⟨splitStep_stamped h.1 h.2 hOk hStep, Split.hands_step h.2 hStep⟩
  exact h.1.test req

/-- The agent takes `n` steps, all at the same time. -/
def Agent.stepsAt (a : Agent) (now : UInt64) (n : Nat) : List LinkAct :=
  List.replicate n (.go ⟨a, { quietInput with now }⟩)

/-- Main sends the GETATTR of the mount, and a receive thread decodes its reply. -/
def getattrSteps : List SplitAct :=
  let rep : Reply := ⟨0, RPC_SUCCESS, 112, getattrBody⟩
  let hears : LinkAct := .go ⟨.recv 0, { quietInput with now := 5, reply := some rep }⟩
  (Agent.main.stepsAt 5 4 ++ (Agent.recv 0).stepsAt 5 1 ++ [hears]).map SplitAct.link

/-- Main sends the GETATTR of the mount. Its reply comes, and a thread has cleared the
slot but not yet gone on. -/
theorem looksSent_iff_getattr :
    let req : ReqId := ⟨1023, by decide⟩
    ∃ s : Split, s.link.sys.mnt.reqTbl 0 = none ∧ req ∈ s.link.sys.inFlight ∧
      (s.link.sys.mnt.LooksSent req ↔ s.link.sys.Awaits req) := by
  intro req
  obtain ⟨s, hRun, hTbl, hFlight⟩ : ∃ s,
      Run (splitStep twoThreads) (StampsOnce twoThreads) Split.boot s ∧
        s.link.sys.mnt.reqTbl 0 = none ∧ req ∈ s.link.sys.inFlight :=
    Run.of_exec_any (getattrSteps ++ [.look 0, .clear 0]) (by decide +kernel)
  exact ⟨s, hTbl, hFlight, looksSent_iff twoThreads s hRun req⟩

/-- The connection is lost while the GETATTR is in flight. -/
def resentSteps : List LinkAct :=
  Agent.main.stepsAt 5 6 ++ (Agent.recv 0).stepsAt 5 1 ++ [.drop 0, .scan 0 6 true]

/-- Sent again, the request does not look so any more. -/
theorem looksSent_iff_resent :
    ¬ ∀ (cfg : Cfg) (s : Split), Run (splitStep cfg) (fun _ _ => True) Split.boot s →
      ∀ req, s.link.sys.mnt.LooksSent req ↔ s.link.sys.Awaits req := by
  intro h
  let req : ReqId := ⟨1023, by decide⟩
  obtain ⟨s, hRun, hFlight, hNot⟩ : ∃ s, Run (splitStep twoThreads) (fun _ _ => True) Split.boot s ∧
      req ∈ s.link.sys.inFlight ∧ ¬ s.link.sys.mnt.LooksSent req :=
    Run.of_exec_any (resentSteps.map SplitAct.link) (by decide +kernel)
  exact hNot ((h twoThreads s hRun req).mpr (Or.inl hFlight))

end Nct
