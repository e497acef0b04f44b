import Nct.Link
import Nct.Ownership

/-! How the receive loop takes up a reply, with its accesses to the table one by
one: it reads the slot of the xid, clears it, and only then looks at the request.
Other threads may come in between. -/
namespace Nct

open Function (update)
open Transition (Run)

def Hand.xid : Hand → UInt32
  | .looked rep _ | .cleared rep _ _ => rep.xid

/-- The xid of a reply whose slot has been cleared. -/
def Hand.clearedXid : Hand → Option UInt32
  | .looked _ _ => none
  | .cleared rep _ _ => some rep.xid

structure Split where
  link : Link
  hand : Nat → Option Hand

def Split.boot : Split := ⟨Link.boot, fun _ => none⟩

inductive SplitAct where
  | link (act : LinkAct)
  | look (t : Nat)
  | clear (t : Nat)
  /-- `if (req->req_xid != rm_xid) abort()`, and the time stamp after it -/
  | check (t : Nat) (now : UInt64)
  deriving DecidableEq

/-- The step in which a thread takes up its reply all at once. -/
def LinkAct.TakesUp (s : Sys) : LinkAct → Bool
  | .go act => act.TakesUp s
  | _ => false

def splitStep (cfg : Cfg) (s : Split) : SplitAct → Option Split
  | .link act =>
      if act.TakesUp s.link.sys then none
      else (linkStep cfg s.link act).map fun link => { s with link }
  | .look t =>
      if t < cfg.tdsMax ∧ s.link.sys.halted = none then
        match s.link.sys.pc (.recv t), s.hand t with
        | .got rep, none =>
            let req := s.link.sys.mnt.reqTbl (slot rep.xid)
            some { s with hand := update s.hand t (some (.looked rep req)) }
        | _, _ => none
      else none
  | .clear t =>
      if s.link.sys.halted = none then
        match s.hand t with
        | some (.looked rep req) =>
            let sys := { s.link.sys with mnt := clearSlot s.link.sys.mnt rep.xid }
            let other := s.link.sys.mnt.otherAt rep.xid
            some { link := { s.link with sys }, hand := update s.hand t (some (.cleared rep req other)) }
        | _ => none
      else none
  | .check t now =>
      if s.link.sys.halted = none ∧ s.link.last ≤ now then
        match s.hand t with
        | some (.cleared rep req _) =>
            let sys :=
              match req with
              | none => s.link.sys.crash .nullSlot
              | some req =>
                  if s.link.sys.mnt.reqXid req ≠ rep.xid then s.link.sys.crash .xidMismatch
                  else s.link.sys.found t req rep now
            some { link := { s.link with sys, last := now }, hand := update s.hand t none }
        | _ => none
      else none

/-- With nothing in between, the three steps are the one step of the program. -/
theorem splitStep_atomic {cfg : Cfg} {s : Link} {t : Nat} {rep : Reply} {input : Input}
    (hPc : s.sys.pc (.recv t) = .got rep) (hOut : s.Out (.recv t)) (hT : t < cfg.tdsMax)
    (hRun : s.sys.halted = none) (hNow : s.last ≤ input.now) :
    ((splitStep cfg ⟨s, fun _ => none⟩ (.look t)).bind fun s => (splitStep cfg s (.clear t)).bind
      fun s => splitStep cfg s (.check t input.now)).map Split.link =
      linkStep cfg s (.go ⟨.recv t, input⟩) := by
  have hGo : linkStep cfg s (.go ⟨.recv t, input⟩) =
      (recvStep cfg s.sys t input).map fun sys => { s with sys, last := input.now } := by
    simp [linkStep, hOut, hNow, step, hRun, hT]
  cases hTbl : s.sys.mnt.reqTbl (slot rep.xid) with
  | none =>
      have hClear : clearSlot s.sys.mnt rep.xid = s.sys.mnt := by
        rw [clearSlot, ← hTbl, Function.update_eq_self]
      simp [hGo, splitStep, hT, hRun, hPc, hNow, recvStep, hTbl, hClear]
      rfl
  | some req =>
      by_cases hXid : s.sys.mnt.reqXid req = rep.xid
      · simp [hGo, splitStep, hT, hRun, hPc, hNow, recvStep, hTbl, hXid, clearSlot, Sys.found,
          Sys.take]
      · simp [hGo, splitStep, hT, hRun, hPc, hNow, recvStep, hTbl, hXid, clearSlot]

def LinkAct.Sends (s : Sys) : LinkAct → Prop
  | .go act =>
      match s.pc act.agent with
      | .call _ _ ⟨[], .send, _⟩ _ => True
      | _ => False
  | .drop _ => False
  | .scan _ _ _ => True

instance (s : Sys) (act : LinkAct) : Decidable (act.Sends s) := by
  unfold LinkAct.Sends
  induction act using LinkAct.casesOn with
  | go act =>
      dsimp only
      generalize s.pc act.agent = pc
      induction pc using Pc.casesOn with
      | call fn req plan l =>
          obtain ⟨_ | ⟨p, prep⟩, _ | _, ret⟩ := plan <;> infer_instance
      | _ => infer_instance
  | _ => infer_instance

/-- No two threads are with replies that carry the same xid, no one takes the
slot between the look and the clearing, and no request is sent under the xid of a
reply whose slot has been cleared. -/
def KeepsApart (cfg : Cfg) (s : Split) : SplitAct → Prop
  | .link act =>
      act.Sends s.link.sys →
        ∀ t < cfg.tdsMax, (s.hand t).bind Hand.clearedXid ≠ some s.link.sys.mnt.sendXid
  | .look t =>
      match s.link.sys.pc (.recv t) with
      | .got rep => ∀ u < cfg.tdsMax, (s.hand u).map Hand.xid ≠ some rep.xid
      | _ => True
  | .clear t =>
      match s.hand t with
      | some (.looked rep req) => s.link.sys.mnt.reqTbl (slot rep.xid) = req
      | _ => True
  | .check _ _ => True

instance (cfg : Cfg) (s : Split) (act : SplitAct) : Decidable (KeepsApart cfg s act) := by
  unfold KeepsApart
  induction act using SplitAct.casesOn with
  | link act => infer_instance
  | look t =>
      dsimp only
      generalize s.link.sys.pc (.recv t) = pc
      induction pc using Pc.casesOn <;> infer_instance
  | clear t =>
      dsimp only
      generalize s.hand t = hand
      induction hand using Option.casesOn with
      | none => infer_instance
      | some hand => induction hand using Hand.casesOn <;> infer_instance
  | check t now => infer_instance

/-- What a step of the program other than a take-up does to the table, the xids
and the requests in flight: nothing, or what one send does. -/
inductive Traffic (sends : Prop) (s s' : Sys) : Prop where
  | none (hTbl : s'.mnt.reqTbl = s.mnt.reqTbl) (hXid : s'.mnt.reqXid = s.mnt.reqXid)
      (hFlight : s'.inFlight = s.inFlight)
  | sent (hSends : sends) (req : ReqId)
      (hTbl : s'.mnt.reqTbl = update s.mnt.reqTbl (slot s.mnt.sendXid) (some req))
      (hXid : s'.mnt.reqXid = update s.mnt.reqXid req s.mnt.sendXid)
      (hFlight : s'.inFlight = insert req s.inFlight)

/-- What the take-up looks at has not changed. -/
theorem Traffic.of_link {sends : Prop} {s s' : Sys} (h : s.SameLink s') : Traffic sends s s' :=
  .none h.tbl h.xid h.inFlight

/-- Of the steps of the program only a send writes to the table. -/
theorem step_traffic {cfg : Cfg} {s s' : Sys} {act : Act} (h : step cfg s act = some s')
    (hNot : (LinkAct.go act).TakesUp s = false) : Traffic ((LinkAct.go act).Sends s) s s' := by
  obtain ⟨hCase, -⟩ := step_cases h
  generalize hAgent : act.agent = a at hCase
  cases hCase with
  | nullSlot hPc | xidMismatch hPc | take hPc => simp [LinkAct.TakesUp, Act.TakesUp, hAgent, hPc] at hNot
  | prepare hPc hPrep hDo => exact .of_link ((prepare_link hDo).goto _ _)
  | settle hPc => exact .of_link ((settle_link s _ _).goto _ _)
  | @send _ fn req plan l hPc hPrep hGive =>
      obtain ⟨prep, give, ret⟩ := plan
      obtain rfl := hPrep
      obtain rfl := hGive
      exact .sent (by simp [LinkAct.Sends, hAgent, hPc]) req rfl rfl rfl
  | _ => exact .none rfl rfl rfl

/-- So it is with resend loops: their passes send, and nothing else that they do
matters. -/
theorem linkStep_traffic {cfg : Cfg} {s s' : Link} {act : LinkAct}
    (h : linkStep cfg s act = some s') (hNot : act.TakesUp s.sys = false) :
    Traffic (act.Sends s.sys) s.sys s'.sys := by
  cases act with
  | go act =>
      simp only [linkStep] at h
      split at h
      · obtain ⟨sys, hSys, rfl⟩ := Option.map_eq_some_iff.mp h
        exact step_traffic hSys hNot
      · cases h
  | drop t =>
      simp only [linkStep] at h
      split at h
      · cases h
        exact .none rfl rfl rfl
      · cases h
  | scan t now complete =>
      simp only [linkStep] at h
      split at h
      · cases h
      · next i hScan =>
          split at h
          · cases h
          · split at h
            · split at h
              · cases h
                exact .none rfl rfl rfl
              · next r hPass =>
                  cases h
                  obtain ⟨req, -, ⟨-, rfl⟩ | ⟨-, -, hMnt, hSends⟩⟩ := resendSlot_eq_ok hPass
                  · exact .none rfl rfl (by simp [Sys.resent])
                  · refine .sent trivial req ?_ ?_ ?_
                    · simp only [Sys.resent, hMnt]
                      rfl
                    · simp only [Sys.resent, hMnt]
                      rfl
                    · ext r
                      simp [Sys.resent, hSends]
            · cases h
              exact .none rfl rfl rfl

structure Split.Right (cfg : Cfg) (s : Split) : Prop where
  entries : ∀ r, s.link.sys.mnt.reqTbl (slot (s.link.sys.mnt.reqXid r)) = some r →
    r ∈ s.link.sys.inFlight
  within : ∀ t, cfg.tdsMax ≤ t → s.hand t = none
  apart : ∀ t u, t ≠ u → ∀ h ∈ s.hand t, ∀ h' ∈ s.hand u, h.xid ≠ h'.xid
  cleared : ∀ t rep r other, s.hand t = some (.cleared rep (some r) other) →
    s.link.sys.mnt.reqXid r = rep.xid →
    r ∈ s.link.sys.inFlight ∧ other = false ∧ s.link.sys.mnt.reqTbl (slot rep.xid) ≠ some r

section
variable {cfg : Cfg} {s s' : Split} (h : s.Right cfg)

include h

/-- Only receive threads have replies in their hands. -/
theorem Split.Right.lt_of_hand {t : Nat} {hand : Hand} (hHand : s.hand t = some hand) :
    t < cfg.tdsMax := by
  by_contra hNot
  simp [h.within t (not_lt.mp hNot)] at hHand

/-- A send has an xid that no thread has in its hands, so that their requests stay as
they are. -/
theorem Split.Right.link {act : LinkAct} (hOk : KeepsApart cfg s (.link act))
    (hStep : splitStep cfg s (.link act) = some s') : s'.Right cfg := by
  simp only [splitStep] at hStep
  split at hStep
  · cases hStep
  · next hNot =>
      obtain ⟨link, hLink, rfl⟩ := Option.map_eq_some_iff.mp hStep
      have hTraffic := linkStep_traffic hLink (by simpa using hNot)
      cases hTraffic with
      | none hTbl hXid hFlight =>
          refine ⟨?_, h.within, h.apart, ?_⟩
          · simp only [hTbl, hXid, hFlight]
            exact h.entries
          · simp only [hTbl, hXid, hFlight]
            exact h.cleared
      | sent hSends req hTbl hXid hFlight =>
          refine ⟨fun r hEntry => ?_, h.within, h.apart, fun t rep r other hHand hSame => ?_⟩
          · by_cases hr : r = req
            · simp [hFlight, hr]
            · simp only [hTbl, hXid, Function.update_of_ne hr] at hEntry
              rw [hFlight]
              refine Finset.mem_insert_of_mem (h.entries r ?_)
              rwa [Function.update_of_ne] at hEntry
              intro hSlot
              rw [hSlot, Function.update_self] at hEntry
              exact hr (Option.some.inj hEntry).symm
          · replace hHand : s.hand t = some (.cleared rep (some r) other) := hHand
            have hFresh : rep.xid ≠ s.link.sys.mnt.sendXid := by
              have hApart := hOk hSends t (h.lt_of_hand hHand)
              simpa [hHand, Hand.clearedXid] using hApart
            have hr : r ≠ req := by
              rintro rfl
              simp only [hXid, Function.update_self] at hSame
              exact hFresh hSame.symm
            simp only [hXid, Function.update_of_ne hr] at hSame
            obtain ⟨hIn, hOther, hGone⟩ := h.cleared t rep r other hHand hSame
            refine ⟨by rw [hFlight]; exact Finset.mem_insert_of_mem hIn, hOther, ?_⟩
            rw [hTbl]
            by_cases hSlot : slot rep.xid = slot s.link.sys.mnt.sendXid
            · rw [hSlot, Function.update_self]
              exact fun hEq => hr (Option.some.inj hEq).symm
            · rwa [Function.update_of_ne hSlot]

theorem Split.Right.within_update {t : Nat} (ht : t < cfg.tdsMax) (new : Option Hand) (u : Nat)
    (hu : cfg.tdsMax ≤ u) : update s.hand t new u = none := by
  have hNe : u ≠ t := by omega
  simpa [hNe] using h.within u hu

/-- A thread whose reply, if it has one, differs from the others' stays apart from them. -/
theorem Split.Right.apart_update (t : Nat) (new : Option Hand)
    (hNew : ∀ hand ∈ new, ∀ u, u ≠ t → ∀ hand' ∈ s.hand u, hand.xid ≠ hand'.xid) (u v : Nat)
    (hNe : u ≠ v) :
    ∀ hand ∈ update s.hand t new u, ∀ hand' ∈ update s.hand t new v, hand.xid ≠ hand'.xid := by
  by_cases hu : u = t
  · subst hu
    rw [Function.update_self, Function.update_of_ne hNe.symm]
    exact fun hand hMem => hNew hand hMem v hNe.symm
  · rw [Function.update_of_ne hu]
    by_cases hv : v = t
    · subst hv
      rw [Function.update_self]
      exact fun hand hMem hand' hMem' => (hNew hand' hMem' u hu hand hMem).symm
    · rw [Function.update_of_ne hv]
      exact h.apart u v hNe

/-- A thread looks for an xid that no other thread has in its hands. -/
theorem Split.Right.look {t : Nat} (hOk : KeepsApart cfg s (.look t))
    (hStep : splitStep cfg s (.look t) = some s') : s'.Right cfg := by
  simp only [splitStep] at hStep
  split at hStep
  · next hRun =>
      split at hStep
      · next rep hPc hHand =>
          cases hStep
          simp only [KeepsApart, hPc] at hOk
          refine ⟨h.entries, h.within_update hRun.1 _, h.apart_update t _ ?_,
            fun u rep' r other hHand' => ?_⟩
          · intro new hNew u _ hand hMem hSame
            obtain rfl := Option.some.inj hNew
            apply hOk u (h.lt_of_hand hMem)
            rw [Option.mem_def.mp hMem, Option.map_some, ← hSame]
            rfl
          · by_cases hu : u = t
            · simp [hu] at hHand'
            · simp only [Function.update_of_ne hu] at hHand'
              exact h.cleared u rep' r other hHand'
      · cases hStep
  · cases hStep

/-- Where the slot has the request of the xid, clearing it takes the request off the
table. -/
theorem Split.Right.clear {t : Nat} (hOk : KeepsApart cfg s (.clear t))
    (hStep : splitStep cfg s (.clear t) = some s') : s'.Right cfg := by
  simp only [splitStep] at hStep
  split at hStep
  · split at hStep
    · next rep req hHand =>
        cases hStep
        simp only [KeepsApart, hHand] at hOk
        have hGone : ∀ xid r, (clearSlot s.link.sys.mnt rep.xid).reqTbl (slot xid) = some r →
            s.link.sys.mnt.reqTbl (slot xid) = some r := by
          intro xid r hEntry
          by_cases hSlot : slot xid = slot rep.xid
          · simp [clearSlot, hSlot] at hEntry
          · simpa [clearSlot, hSlot] using hEntry
        refine ⟨fun r hEntry => h.entries r (hGone _ r hEntry), h.within_update (h.lt_of_hand hHand) _,
          h.apart_update t _ ?_, fun u rep' r other hHand' hSame => ?_⟩
        · intro new hNew u hu
          obtain rfl := Option.some.inj hNew
          exact h.apart t u hu.symm (.looked rep req) hHand
        · by_cases hu : u = t
          · subst hu
            simp only [Function.update_self, Option.some.injEq, Hand.cleared.injEq] at hHand'
            obtain ⟨rfl, rfl, rfl⟩ := hHand'
            replace hSame : s.link.sys.mnt.reqXid r = rep.xid := hSame
            refine ⟨h.entries r (by rw [hSame, hOk]), ?_, by simp [clearSlot]⟩
            simp [Mnt.otherAt, hOk, hSame]
          · simp only [Function.update_of_ne hu] at hHand'
            obtain ⟨hIn, hOther, hNot⟩ := h.cleared u rep' r other hHand' hSame
            exact ⟨hIn, hOther, fun hEntry => hNot (hGone _ r hEntry)⟩
    · cases hStep
  · cases hStep

/-- After its check a thread has nothing in its hands. -/
theorem Split.Right.check {t : Nat} {now : UInt64}
    (hStep : splitStep cfg s (.check t now) = some s') : s'.Right cfg := by
  simp only [splitStep] at hStep
  split at hStep
  · split at hStep
    · next rep req other hHand =>
        cases hStep
        have hWithin := h.within_update (h.lt_of_hand hHand) none
        have hApart := h.apart_update t none (by simp)
        have hCleared : ∀ u rep' r other',
            update s.hand t none u = some (.cleared rep' (some r) other') →
            u ≠ t ∧ s.hand u = some (.cleared rep' (some r) other') := by
          intro u rep' r other' hHand'
          by_cases hu : u = t
          · simp [hu] at hHand'
          · exact ⟨hu, by simpa [hu] using hHand'⟩
        cases req with
        | none =>
            refine ⟨h.entries, hWithin, hApart, fun u rep' r other' hHand' => ?_⟩
            exact h.cleared u rep' r other' (hCleared u rep' r other' hHand').2
        | some req =>
            by_cases hXid : s.link.sys.mnt.reqXid req = rep.xid
            · obtain ⟨-, -, hGone⟩ := h.cleared t rep req other hHand hXid
              simp only [hXid, ne_eq, not_true_eq_false, if_false]
              refine ⟨fun r hEntry => ?_, hWithin, hApart, fun u rep' r other' hHand' hSame => ?_⟩
              · have hr : r ≠ req := by
                  rintro rfl
                  rw [← hXid] at hGone
                  exact hGone hEntry
                exact Finset.mem_erase.mpr ⟨hr, h.entries r hEntry⟩
              · obtain ⟨hu, hPrior⟩ := hCleared u rep' r other' hHand'
                replace hSame : s.link.sys.mnt.reqXid r = rep'.xid := hSame
                obtain ⟨hIn, hOther, hNot⟩ := h.cleared u rep' r other' hPrior hSame
                -- the other thread's reply has another xid, so it is with another request
                have hr : r ≠ req := by
                  rintro rfl
                  exact h.apart u t hu _ hPrior _ hHand (hSame.symm.trans hXid)
                exact ⟨Finset.mem_erase.mpr ⟨hr, hIn⟩, hOther, hNot⟩
            · simp only [ne_eq, hXid, not_false_eq_true, if_true]
              refine ⟨h.entries, hWithin, hApart, fun u rep' r other' hHand' => ?_⟩
              exact h.cleared u rep' r other' (hCleared u rep' r other' hHand').2
    · cases hStep
  · cases hStep

end

theorem Split.boot_right (cfg : Cfg) : Split.boot.Right cfg := by
  have hTbl : Split.boot.link.sys.mnt.reqTbl = fun _ => none := by
    change (reqCreate Mnt.zero).reqTbl = _
    rw [reqCreate, createReqs_rest]
    rfl
  refine ⟨fun r h => ?_, fun _ _ => rfl, fun _ _ _ _ h => ?_, fun _ _ _ _ h => ?_⟩
  · rw [hTbl] at h
    cases h
  · cases h
  · cases h

/-- Each kind of step keeps it. -/
theorem Split.Right.step {cfg : Cfg} {s s' : Split} {act : SplitAct} (h : s.Right cfg)
    (hOk : KeepsApart cfg s act) (hStep : splitStep cfg s act = some s') : s'.Right cfg := by
  cases act with
  | link act => exact h.link hOk hStep
  | look t => exact h.look hOk hStep
  | clear t => exact h.clear hOk hStep
  | check t now => exact h.check hStep

/-- What the receive loop is to do with a reply: go on with the one request in
flight that has exactly its xid, and with no other request's slot cleared, or end
in its check. -/
def Split.Answers (s s' : Split) (t : Nat) : Prop :=
  match s.hand t with
  | some (.cleared rep _ other) =>
      s'.link.sys.halted = some .xidMismatch ∨
        s'.link.sys.halted = none ∧ other = false ∧
          ∃ r ∈ s.link.sys.inFlight, s.link.sys.mnt.reqXid r = rep.xid ∧
            (∀ r' ∈ s.link.sys.inFlight, s.link.sys.mnt.reqXid r' = rep.xid → r' = r) ∧
            s'.link.sys.pc (.recv t) = .taken r rep ∧
            s'.link.sys.inFlight = s.link.sys.inFlight.erase r
  | _ => True

/-- The slot was not empty, and no other request in flight has the xid that the
reply and the request found have. -/
def Split.Single (s : Split) (t : Nat) : Prop :=
  match s.hand t with
  | some (.cleared rep req _) =>
      ∃ r, req = some r ∧ (s.link.sys.mnt.reqXid r = rep.xid →
        ∀ r' ∈ s.link.sys.inFlight, s.link.sys.mnt.reqXid r' = rep.xid → r' = r)
  | _ => True

/-- In a run that keeps the threads apart, a reply is answered just if its slot
was not empty and its xid is of one request. -/
theorem takeUp_answers_iff (cfg : Cfg) (s s' : Split) (t : Nat) (now : UInt64)
    (hRun : Run (splitStep cfg) (KeepsApart cfg) Split.boot s)
    (hStep : splitStep cfg s (.check t now) = some s') : s.Answers s' t ↔ s.Single t := by
  have hRight : s.Right cfg :=
    hRun.invariant (Split.boot_right cfg) fun _ _ _ h hOk hLast => h.step hOk hLast
  simp only [splitStep] at hStep
  split at hStep
  · next hNow =>
      split at hStep
      · next rep req other hHand =>
          cases hStep
          simp only [Split.Answers, Split.Single, hHand]
          cases req with
          | none => simp [Sys.crash]
          | some req =>
              by_cases hXid : s.link.sys.mnt.reqXid req = rep.xid
              · obtain ⟨hIn, hOther, -⟩ := hRight.cleared t rep req other hHand hXid
                simp only [hXid, ne_eq, not_true_eq_false, if_false]
                constructor
                · rintro (hHalted | ⟨-, -, r, -, -, hOne, hPc, -⟩)
                  · cases hNow.1.symm.trans hHalted
                  · have hr : req = r := by simpa [Sys.found] using hPc
                    exact ⟨req, rfl, fun _ => hr ▸ hOne⟩
                · rintro ⟨r, hr, hOne⟩
                  obtain rfl := Option.some.inj hr
                  exact Or.inr ⟨hNow.1, hOther, req, hIn, hXid, hOne hXid, by simp [Sys.found], rfl⟩
              · simp [hXid, Sys.crash]
      · cases hStep
  · cases hStep

/-- Main sends the GETATTR of the mount, of xid 0, and the receive thread has
looked at and cleared the slot of a reply. -/
def replySteps (rep : Reply) : List SplitAct :=
  let acts : List Act := Agent.main.steps 4 ++ (Agent.recv 0).steps 1 ++
    [⟨.recv 0, { quietInput with reply := some rep }⟩]
  acts.map (fun act => .link (.go act)) ++ [.look 0, .clear 0]

/-- The reply to the mount's GETATTR, taken up by one thread. -/
theorem takeUp_answers_iff_mount :
    ∃ s s' : Split, s'.link.sys.halted = none ∧ (s.Answers s' 0 ↔ s.Single 0) := by
  obtain ⟨s, hRun, hSome⟩ : ∃ s, Run (splitStep twoThreads) (KeepsApart twoThreads) Split.boot s ∧
      (splitStep twoThreads s (.check 0 5)).any (fun s' => s'.link.sys.halted = none) = true :=
    Run.of_exec_any (replySteps ⟨0, RPC_SUCCESS, 112, getattrBody⟩) (by decide +kernel)
  obtain ⟨s', hStep, hHalted⟩ := (Option.any_eq_true _ _).mp hSome
  exact ⟨s, s', of_decide_eq_true hHalted, takeUp_answers_iff twoThreads s s' 0 5 hRun hStep⟩

/-- A reply that no request waits for uses an empty slot as one. -/
theorem takeUp_emptySlot :
    ¬ ∀ (cfg : Cfg) (s s' : Split) (t : Nat) (now : UInt64),
      Run (splitStep cfg) (fun _ _ => True) Split.boot s →
      splitStep cfg s (.check t now) = some s' → s.Answers s' t := by
  intro h
  let rep : Reply := ⟨7, RPC_SUCCESS, 24, []⟩
  obtain ⟨s, hRun, hHand, hSome⟩ : ∃ s, Run (splitStep twoThreads) (fun _ _ => True) Split.boot s ∧
      s.hand 0 = some (.cleared rep none false) ∧
      (splitStep twoThreads s (.check 0 5)).any (fun s' => s'.link.sys.halted = some .nullSlot) :=
    Run.of_exec_any (replySteps rep) (by decide +kernel)
  obtain ⟨s', hStep, hNull⟩ := (Option.any_eq_true _ _).mp hSome
  have hHalted : s'.link.sys.halted = some .nullSlot := of_decide_eq_true hNull
  have hAnswers := h twoThreads s s' 0 5 hRun hStep
  simp [Split.Answers, hHand, hHalted] at hAnswers

end Nct
