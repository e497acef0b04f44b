import Nct.Pool
import Nct.Slots

/-! What the program waits for. It never waits for itself: when all that is left
to do is to receive, every call that goes on is with the server, and main is done
or waits for one of them. -/
namespace Nct

open Function (update)
open Transition (Run)

/-- The request whose call was cut short, which is about to end the program. -/
def Pc.torn : Pc → Option ReqId
  | .check _ req _ none => some req
  | _ => none

/-- The reply to every request in flight is still to come or with a receive
thread, unless its call was cut short. -/
def Sys.Expected (s : Sys) : Prop :=
  ∀ r ∈ s.inFlight, (∃ p, s.answering p (s.mnt.reqXid r)) ∨ ∃ a, (s.pc a).torn = some r

/-- The request that `nct_mount` has sent and whose reply it needs. -/
def Pc.seeking : Pc → Option ReqId
  | .check .mount req _ _ => some req
  | .back .mount req _ _ => some req
  | .wait req => some req
  | _ => none

/-- It is away, or `req_done` is set. -/
def Sys.Sought (s : Sys) : Prop :=
  ∀ r, (s.pc .main).seeking = some r → s.Away r ∨ s.mnt.reqDone r = true

section
variable {s s' : Sys} {a : Agent}

/-- An answer that is on its way stays so. -/
theorem Sys.answering_other {p : Answer} {xid : UInt32} (hNet : xid ∈ s.net → xid ∈ s'.net)
    (hOther : ∀ b, b ≠ a → s'.pc b = s.pc b)
    (hAnswer : (s.pc a).answer = some xid → (s'.pc a).answer = some xid)
    (h : s.answering p xid) : s'.answering p xid := by
  cases p with
  | net => exact hNet h
  | got t =>
      by_cases hb : Agent.recv t = a
      · subst hb
        exact hAnswer h
      · change (s'.pc (.recv t)).answer = some xid
        rwa [hOther _ hb]

/-- A request whose reply is being taken up stays with its thread. -/
theorem Sys.torn_other {r : ReqId} (hOther : ∀ b, b ≠ a → s'.pc b = s.pc b)
    (hTorn : (s.pc a).torn = some r → (s'.pc a).torn = some r)
    (h : ∃ b, (s.pc b).torn = some r) : ∃ b, (s'.pc b).torn = some r := by
  obtain ⟨b, hb⟩ := h
  refine ⟨b, ?_⟩
  by_cases hba : b = a
  · subst hba
    exact hTorn hb
  · rwa [hOther b hba]

/-- Nothing is sent and no answer is taken. -/
theorem Sys.Expected.frame (h : s.Expected) (hLink : s.SameLink s')
    (hOther : ∀ b, b ≠ a → s'.pc b = s.pc b)
    (hAnswer : ∀ xid, (s.pc a).answer = some xid → (s'.pc a).answer = some xid)
    (hTorn : ∀ r, (s.pc a).torn = some r → (s'.pc a).torn = some r) : s'.Expected := by
  intro r hr
  rw [hLink.inFlight] at hr
  rw [hLink.xid]
  refine (h r hr).imp (fun ⟨p, hp⟩ => ⟨p, ?_⟩) (Sys.torn_other hOther (hTorn r))
  exact Sys.answering_other (fun hMem => hLink.net ▸ hMem) hOther (hAnswer _) hp

/-- A request that is away stays so while the others move. -/
theorem Sys.Away.other {r : ReqId} (h : s.Away r) (hOther : ∀ b, b ≠ a → s'.pc b = s.pc b)
    (hTaking : (s.pc a).taking ≠ some r) (hFlight : r ∈ s.inFlight → r ∈ s'.inFlight) :
    s'.Away r := by
  refine h.imp hFlight fun ⟨t, ht⟩ => ⟨t, ?_⟩
  by_cases hb : Agent.recv t = a
  · exact absurd (hb ▸ ht) hTaking
  · rwa [hOther _ hb]

/-- What main waits for is still away, or done. -/
theorem Sys.Sought.frame (h : s.Sought) (hOther : ∀ b, b ≠ a → s'.pc b = s.pc b)
    (hSeeking : ∀ r, (s'.pc a).seeking = some r → (s.pc a).seeking = some r)
    (hKept : ∀ r, (s.pc .main).seeking = some r → s.Away r ∨ s.mnt.reqDone r = true →
      s'.Away r ∨ s'.mnt.reqDone r = true) : s'.Sought := by
  intro r hr
  have hOld : (s.pc .main).seeking = some r := by
    by_cases hb : Agent.main = a
    · subst hb
      exact hSeeking r hr
    · rwa [hOther _ hb] at hr
  exact hKept r hOld (h r hOld)

/-- Once `req_done` is set, main has the request in its hands. -/
theorem Pc.holds_of_seeking {mnt : Mnt} {r : ReqId} {pc : Pc} (h : pc.seeking = some r)
    (hDone : mnt.reqDone r = true) : pc.holds mnt r := by
  cases pc with
  | check fn req ret cc =>
      cases fn with
      | mount => exact ⟨Option.some.inj h, hDone⟩
      | _ => cases h
  | back fn req ret freed =>
      cases fn with
      | mount => exact ⟨Option.some.inj h, hDone⟩
      | _ => cases h
  | wait req => exact ⟨Option.some.inj h, hDone⟩
  | _ => cases h

end

/-- Every request in flight has its call with the server, or its answer on the way. -/
theorem Sys.Expected.step {cfg : Cfg} {s s' : Sys} {act : Act} (h : s.Expected) (hMatched : Matched s)
    (hOwned : Owned s) (hStep : Nct.step cfg s act = some s') : s'.Expected := by
  obtain ⟨hCase, -⟩ := step_cases hStep
  have hOther := fun b (hb : b ≠ act.agent) => step_pc_other hCase hb
  generalize hAgent : act.agent = a at hCase hOther
  cases hCase with
  | @reply t rep hPc hRep =>
      intro r hr
      refine (h r hr).imp (fun ⟨p, hp⟩ => ?_) (Sys.torn_other hOther (by simp [hPc, Pc.torn]))
      change ∃ p, Sys.answering _ p (s.mnt.reqXid r)
      by_cases hXid : s.mnt.reqXid r = rep.xid
      · -- the thread has it now
        refine ⟨.got t, ?_⟩
        rw [Sys.answering, Sys.goto_pc_self, hXid]
        rfl
      · refine ⟨p, Sys.answering_other (fun hMem => ?_) hOther (by simp [hPc, Pc.answer]) hp⟩
        exact (List.mem_erase_of_ne hXid).mpr hMem
  | @take t rep req hPc hSlot hXid =>
      intro r hr
      obtain ⟨hne, hIn⟩ := Finset.mem_erase.mp hr
      obtain ⟨hMem, -⟩ := hOwned.table _ _ hSlot
      refine (h r hIn).imp (fun ⟨p, hp⟩ => ⟨p, ?_⟩) (Sys.torn_other hOther (by simp [hPc, Pc.torn]))
      refine Sys.answering_other (s := s) id hOther (fun hAnswer => ?_) hp
      rw [hPc] at hAnswer
      have hSame : rep.xid = s.mnt.reqXid r := Option.some.inj hAnswer
      refine absurd (hMatched.eq_of_slot hIn hMem ?_) hne
      rw [hXid, hSame]
  | @send _ fn req plan l hPc hPrep hGive =>
      intro r hr
      by_cases hReq : r = req
      · subst hReq
        cases hComplete : act.input.complete with
        | true =>
            refine Or.inl ⟨.net, ?_⟩
            change update s.mnt.reqXid r s.mnt.sendXid r ∈ s.mnt.sendXid :: s.net
            rw [Function.update_self]
            exact List.mem_cons_self
        | false =>
            refine Or.inr ⟨a, ?_⟩
            rw [Sys.goto_pc_self]
            rfl
      · have hIn : r ∈ s.inFlight := (Finset.mem_insert.mp hr).resolve_left hReq
        have hKept : (s.send fn req act.input.complete).mnt.reqXid r = s.mnt.reqXid r :=
          Function.update_of_ne hReq _ _
        refine (h r hIn).imp (fun ⟨p, hp⟩ => ⟨p, ?_⟩) (Sys.torn_other hOther (by simp [hPc, Pc.torn]))
        rw [Sys.goto_mnt, hKept]
        refine Sys.answering_other (fun hMem => ?_) hOther (by simp [hPc, Pc.answer]) hp
        change s.mnt.reqXid r ∈ if act.input.complete then s.mnt.sendXid :: s.net else s.net
        split
        · exact List.mem_cons_of_mem _ hMem
        · exact hMem
  | @prepare _ fn req plan l l' p prep s'' hPc hPrep hDo =>
      exact h.frame ((prepare_link hDo).goto _ _) hOther (by simp [hPc, Pc.answer])
        (by simp [hPc, Pc.torn])
  | @settle t rc freed hPc =>
      exact h.frame ((settle_link s rc freed).goto _ _) hOther (by simp [hPc, Pc.answer])
        (by simp [hPc, Pc.torn])
  | @checked _ fn req ret cc hPc hCheck =>
      subst hCheck
      exact h.frame (by constructor <;> rfl) hOther (by simp [hPc, Pc.answer])
        (by simp [hPc, Pc.torn])
  | cantDecode | nullSlot | xidMismatch | mountFailed | sendCheck =>
      exact fun r hr => h r hr
  | _ =>
      exact h.frame (by constructor <;> rfl) hOther (by simp [Pc.answer, *]) (by simp [Pc.torn, *])

/-- No step loses what main waits for. -/
theorem Sys.Sought.step {cfg : Cfg} {s s' : Sys} {act : Act} (h : s.Sought) (hOwned : Owned s)
    (hStep : Nct.step cfg s act = some s') : s'.Sought := by
  obtain ⟨hCase, -⟩ := step_cases hStep
  have hOther := fun b (hb : b ≠ act.agent) => step_pc_other hCase hb
  generalize hAgent : act.agent = a at hCase hOther
  cases hCase with
  | @boot t req hPc hHead =>
      obtain ⟨-, -, hPool, -⟩ := hOwned.pop_chain hHead
      refine h.frame hOther (by simp [Pc.seeking]) fun r hr hOld => ?_
      refine hOld.imp (fun hAway => hAway.other hOther (by simp [hPc, Pc.taking]) id) fun hSet => ?_
      have hne : r ≠ req := by
        rintro rfl
        have hHeld := Pc.holds_of_seeking hr hSet
        exact Place.noConfusion (hOwned.held_ne (p := .pool) hHeld hPool)
      exact (Function.update_of_ne hne _ _).trans hSet
  | mount | alloc =>
      intro r hr
      rw [Sys.goto_pc_self] at hr
      cases hr
  | @take t rep req hPc hSlot hXid =>
      refine h.frame hOther (by simp [Pc.seeking]) fun r _ hOld => hOld.imp (fun hAway => ?_) id
      by_cases hReq : r = req
      · subst hReq
        refine Or.inr ⟨t, ?_⟩
        rw [Sys.goto_pc_self]
        rfl
      · exact hAway.other hOther (by simp [hPc, Pc.taking])
          fun hMem => Finset.mem_erase.mpr ⟨hReq, hMem⟩
  | @exchange t rep req hPc =>
      refine h.frame hOther (by simp [Pc.seeking]) fun r _ hOld => ?_
      change _ ∨ update s.mnt.reqDone req true r = true
      by_cases hReq : r = req
      · subst hReq
        exact Or.inr (Function.update_self _ _ _)
      · rw [Function.update_of_ne hReq]
        refine hOld.imp (fun hAway => hAway.other hOther ?_ id) id
        simpa [hPc, Pc.taking] using Ne.symm hReq
  | @send _ fn req plan l hPc hPrep hGive =>
      intro r hr
      by_cases hReq : r = req
      · exact Or.inl (Or.inl (Finset.mem_insert.mpr (Or.inl hReq)))
      · have hOld : (s.pc .main).seeking = some r := by
          by_cases hb : Agent.main = a
          · subst hb
            rw [Sys.goto_pc_self] at hr
            cases fn with
            | mount => exact absurd (Option.some.inj hr).symm hReq
            | _ => cases hr
          · rwa [hOther _ hb] at hr
        refine (h r hOld).imp (fun hAway => ?_) fun hSet => ?_
        · exact hAway.other hOther (by simp [hPc, Pc.taking]) Finset.mem_insert_of_mem
        · exact (Function.update_of_ne hReq _ _).trans hSet
  | @prepare _ fn req plan l l' p prep s'' hPc hPrep hDo =>
      obtain ⟨-, hFlight⟩ := prepare_counts hDo
      refine h.frame hOther (by simp [Pc.seeking]) fun r _ hOld => hOld.imp (fun hAway => ?_) fun hSet => ?_
      · exact hAway.other hOther (by simp [hPc, Pc.taking]) fun hMem => hFlight.symm ▸ hMem
      · rcases prepare_cases hDo with ⟨_, -, rfl⟩ | ⟨-, rfl⟩ | ⟨_, -, rfl⟩ | ⟨_, rfl⟩ <;> exact hSet
  | @settle t rc freed hPc =>
      refine h.frame hOther (fun r hr => ?_) fun r _ hOld => hOld.imp (fun hAway => ?_) fun hSet => ?_
      · rw [Sys.goto_pc_self] at hr
        split at hr <;> cases hr
      · exact hAway.other hOther (by simp [hPc, Pc.taking]) id
      · rwa [Sys.goto_mnt, (settle_same _ _ _).done]
  | @checked _ fn req ret cc hPc hCheck =>
      refine h.frame hOther (fun r hr => ?_) fun r _ hOld => hOld.imp (fun hAway => ?_) id
      · rw [Sys.goto_pc_self] at hr
        rw [hPc]
        cases fn <;> exact hr
      · exact hAway.other hOther (by simp [hPc, Pc.taking]) id
  | @free _ fn req plan l hPc hPrep hGive =>
      have hFits := hPc ▸ hOwned.fits a
      refine h.frame hOther (fun r hr => ?_) fun r _ hOld => hOld.imp (fun hAway => ?_) id
      · rw [Sys.goto_pc_self] at hr
        rcases hFits.of_free hGive with rfl | rfl <;> cases hr
      · exact hAway.other hOther (by simp [hPc, Pc.taking]) id
  | @refuse _ fn req plan l prep hPc hPrep hPast =>
      have hFits := hPc ▸ hOwned.fits a
      obtain ⟨rfl, rfl, -⟩ := hFits.start_of_op hPrep (Or.inl rfl)
      exact h.frame hOther (by simp [Pc.seeking]) fun r _ hOld =>
        hOld.imp (fun hAway => hAway.other hOther (by simp [hPc, Pc.taking]) id) id
  | cantDecode | nullSlot | xidMismatch | mountFailed | sendCheck => exact fun r hr => h r hr
  | _ =>
      exact h.frame hOther (by simp [Pc.seeking, *]) fun r _ hOld =>
        hOld.imp (fun hAway => hAway.other hOther (by simp [Pc.taking, *]) id) id

/-- Within a plan a thread can always go on. -/
theorem callStep_isSome {cfg : Cfg} {s : Sys} {a : Agent} {input : Input} {pc : Pc}
    (hCall : (∃ fn req plan l, pc = .call fn req plan l) ∨ ∃ fn req ret cc, pc = .check fn req ret cc) :
    (callStep cfg s a input pc).isSome := by
  rcases hCall with ⟨fn, req, ⟨prep, give, ret⟩, l, rfl⟩ | ⟨fn, req, ret, cc, rfl⟩
  · cases prep with
    | nil => cases give <;> rfl
    | cons p prep =>
        simp only [callStep]
        cases s.prepare cfg req l input.now p <;> rfl
  · simp only [callStep]
    split <;> rfl

/-- A receive thread that is not about to receive goes on, if its `nct_req_alloc`
finds a request. -/
theorem recvStep_isSome {cfg : Cfg} {s : Sys} {t : Nat} (hFits : (Agent.recv t).Fits (s.pc (.recv t)))
    (hIdle : s.pc (.recv t) ≠ .idle) (hLeft : s.pc (.recv t) ≠ .exited)
    (hHead : s.pc (.recv t) = .boot → ∃ req, s.mnt.reqHead = some req) (input : Input) :
    (recvStep cfg s t input).isSome := by
  cases hPc : s.pc (.recv t) with
  | boot =>
      obtain ⟨req, hReq⟩ := hHead hPc
      simp [recvStep, hPc, reqAlloc, hReq]
  | idle => exact absurd hPc hIdle
  | exited => exact absurd hPc hLeft
  | got rep =>
      simp only [recvStep, hPc]
      split
      · rfl
      · split <;> rfl
  | testCb req =>
      simp only [recvStep, hPc]
      split <;> rfl
  | back fn req ret freed =>
      obtain ⟨rfl, -⟩ : fn = .callback ∧ _ := hPc ▸ hFits
      simp [recvStep, hPc]
  | call fn req plan l =>
      simp only [recvStep, hPc]
      exact callStep_isSome (Or.inl ⟨_, _, _, _, rfl⟩)
  | check fn req ret cc =>
      simp only [recvStep, hPc]
      exact callStep_isSome (Or.inr ⟨_, _, _, _, rfl⟩)
  | taken | callback | returned | shut | wake => simp [recvStep, hPc]
  | _ =>
      rw [hPc] at hFits
      cases hFits

/-- Main goes on, unless it is done or waits for its reply. -/
theorem mainStep_isSome {cfg : Cfg} {s : Sys} (hFits : Agent.main.Fits (s.pc .main))
    (hStats : s.pc .main ≠ .stats)
    (hHead : (s.pc .main).asks → ∃ req, s.mnt.reqHead = some req)
    (hDone : ∀ req, s.pc .main = .wait req → s.mnt.reqDone req = true) (input : Input) :
    (mainStep cfg s input).isSome := by
  cases hPc : s.pc .main with
  | stats => exact absurd hPc hStats
  | mount =>
      obtain ⟨req, hReq⟩ := hHead (Or.inl hPc)
      simp [mainStep, hPc, reqAlloc, hReq]
  | alloc =>
      obtain ⟨req, hReq⟩ := hHead (Or.inr hPc)
      simp [mainStep, hPc, reqAlloc, hReq]
  | wait req => simp [mainStep, hPc, hDone req hPc]
  | decode req =>
      simp only [mainStep, hPc]
      split
      · rfl
      · split <;> rfl
  | raise =>
      simp only [mainStep, hPc]
      split <;> rfl
  | back fn req ret freed =>
      rw [hPc] at hFits
      rcases hFits with rfl | rfl | rfl <;> simp [mainStep, hPc]
  | call fn req plan l =>
      simp only [mainStep, hPc]
      exact callStep_isSome (Or.inl ⟨_, _, _, _, rfl⟩)
  | check fn req ret cc =>
      simp only [mainStep, hPc]
      exact callStep_isSome (Or.inr ⟨_, _, _, _, rfl⟩)
  | _ =>
      rw [hPc] at hFits
      cases hFits

/-- All that the program can do next is to receive. -/
def Sys.AtRest (cfg : Cfg) (s : Sys) : Prop :=
  ∀ act s', step cfg s act = some s' → ∃ t, act.agent = .recv t ∧ s.pc (.recv t) = .idle

structure Timely (cfg : Cfg) (s : Sys) : Prop where
  living : Living cfg s
  first : s.MountsFirst
  matched : Matched s
  expected : s.Expected
  sought : s.Sought

theorem Timely.atBoot (cfg : Cfg) : Timely cfg Sys.boot where
  living := Living.atBoot cfg
  first := Sys.MountsFirst.atBoot
  matched := Matched.atBoot
  expected r hr := absurd hr (Finset.notMem_empty r)
  sought r hr := by cases hr

/-- Each step in time keeps all of it. -/
theorem Timely.step {cfg : Cfg} {s s' : Sys} {act : Act} (h : Timely cfg s) (hOk : InTime cfg s act)
    (hStep : Nct.step cfg s act = some s') : Timely cfg s' := by
  obtain ⟨hStale, hAnswers, hLapped⟩ := hOk
  have hOwned := h.living.kept.owned
  exact {
    living := h.living.step hStale hStep
    first := h.first.step hStep
    matched := h.matched.step hOwned hAnswers hLapped hStep
    expected := h.expected.step h.matched hOwned hStep
    sought := h.sought.step hOwned hStep }

theorem run_timely {cfg : Cfg} {s : Sys} (run : Run (step cfg) (InTime cfg) Sys.boot s) :
    Timely cfg s :=
  run.invariant (Timely.atBoot cfg) fun _ _ _ h hOk hStep => h.step hOk hStep

section
variable {cfg : Cfg} {s : Sys} (hRest : s.AtRest cfg) (hRun : s.halted = none)

include hRest hRun

/-- At rest main has no step. -/
theorem Sys.AtRest.main (input : Input) : mainStep cfg s input = none := by
  by_contra hSome
  obtain ⟨s', hStep⟩ := Option.ne_none_iff_exists'.mp hSome
  obtain ⟨t, hAgent, -⟩ := hRest ⟨.main, input⟩ s' (by simpa [step, hRun] using hStep)
  cases hAgent

/-- At rest a receive thread has no step, unless it receives. -/
theorem Sys.AtRest.recv {t : Nat} (ht : t < cfg.tdsMax) (hIdle : s.pc (.recv t) ≠ .idle)
    (input : Input) : recvStep cfg s t input = none := by
  by_contra hSome
  obtain ⟨s', hStep⟩ := Option.ne_none_iff_exists'.mp hSome
  obtain ⟨u, hAgent, hPc⟩ := hRest ⟨.recv t, input⟩ s' (by simpa [step, hRun, ht] using hStep)
  injection hAgent with hSame
  exact hIdle (hSame ▸ hPc)

end

section
variable {cfg : Cfg} {s : Sys} (h : Timely cfg s) (hRest : s.AtRest cfg) (hRun : s.halted = none)
  (hSize : cfg.tdsMax + max 1 cfg.jobsMax.toNat ≤ NCT_REQ_MAX)

include h hRest hRun hSize

/-- A receive thread that cannot go on is in its receive, or has left. -/
theorem Timely.recv_rests {t : Nat} (ht : t < cfg.tdsMax) :
    s.pc (.recv t) = .idle ∨ s.pc (.recv t) = .exited := by
  by_contra hBusy
  obtain ⟨hIdle, hLeft⟩ := not_or.mp hBusy
  let input : Input := ⟨0, none, true, 0⟩
  have hSome : (recvStep cfg s t input).isSome :=
    recvStep_isSome (h.living.kept.owned.fits (.recv t)) hIdle hLeft
      (fun hBoot => h.living.pool_ready h.first hSize (Or.inr ⟨t, ht, hBoot⟩)) input
  rw [hRest.recv hRun ht hIdle] at hSome
  cases hSome

/-- Main has nothing left to do but wait. -/
theorem Timely.main_rests :
    s.pc .main = .stats ∨ ∃ req, s.pc .main = .wait req ∧ s.mnt.reqDone req = false := by
  by_contra hBusy
  obtain ⟨hStats, hWait⟩ := not_or.mp hBusy
  have hDone : ∀ req, s.pc .main = .wait req → s.mnt.reqDone req = true := by
    intro req hPc
    by_contra hNot
    exact hWait ⟨req, hPc, by simpa using hNot⟩
  let input : Input := ⟨0, none, true, 0⟩
  have hSome : (mainStep cfg s input).isSome :=
    mainStep_isSome (h.living.kept.owned.fits .main) hStats
      (fun hAsks => h.living.pool_ready h.first hSize (Or.inl hAsks)) hDone input
  rw [hRest.main hRun] at hSome
  cases hSome

/-- At rest no thread has a call or a reply in its hands. -/
theorem Timely.quiet_rests (a : Agent) :
    (s.pc a).torn = none ∧ (s.pc a).answer = none ∧ (s.pc a).taking = none := by
  cases a with
  | main =>
      rcases h.main_rests hRest hRun hSize with hPc | ⟨req, hPc, -⟩ <;> simp [hPc] <;>
        exact ⟨rfl, rfl, rfl⟩
  | recv t =>
      by_cases ht : t < cfg.tdsMax
      · rcases h.recv_rests hRest hRun hSize ht with hPc | hPc <;> simp [hPc] <;>
          exact ⟨rfl, rfl, rfl⟩
      · rw [h.living.kept.within t (Nat.le_of_not_lt ht)]
        exact ⟨rfl, rfl, rfl⟩

/-- What is in flight is with the server then. -/
theorem Timely.with_server {r : ReqId} (hr : r ∈ s.inFlight) : s.mnt.reqXid r ∈ s.net := by
  rcases h.expected r hr with ⟨p, hp⟩ | ⟨a, ha⟩
  · cases p with
    | net => exact hp
    | got t =>
        obtain ⟨-, hNone, -⟩ := h.quiet_rests hRest hRun hSize (.recv t)
        exact absurd (hNone.symm.trans hp) (by simp)
  · obtain ⟨hNone, -⟩ := h.quiet_rests hRest hRun hSize a
    exact absurd (hNone.symm.trans ha) (by simp)

end

/-- When the program can do nothing but receive, it waits for the server: main is
done or its GETATTR is in flight, every call in flight is with the server, and the
jobs that go on are those in flight. -/
theorem rests_on_server (cfg : Cfg) (hSize : cfg.tdsMax + max 1 cfg.jobsMax.toNat ≤ NCT_REQ_MAX)
    (s : Sys) (run : Run (step cfg) (InTime cfg) Sys.boot s) (hRun : s.halted = none)
    (hRest : s.AtRest cfg) :
    (s.pc .main = .stats ∨ ∃ req ∈ s.inFlight, s.pc .main = .wait req) ∧
    (∀ t < cfg.tdsMax, s.pc (.recv t) = .idle ∨ s.pc (.recv t) = .exited) ∧
    (∀ r ∈ s.inFlight, s.mnt.reqXid r ∈ s.net) ∧
    (s.pc .main = .stats → s.sent = s.ended + s.inFlight.card) := by
  have h := run_timely run
  refine ⟨?_, fun t ht => h.recv_rests hRest hRun hSize ht,
    fun r hr => h.with_server hRest hRun hSize hr, fun hStats => ?_⟩
  · refine (h.main_rests hRest hRun hSize).imp id fun ⟨req, hPc, hNot⟩ => ⟨req, ?_, hPc⟩
    rcases h.sought req (by rw [hPc]; rfl) with (hMem | ⟨t, ht⟩) | hSet
    · exact hMem
    · obtain ⟨-, -, hNone⟩ := h.quiet_rests hRest hRun hSize (.recv t)
      exact absurd (hNone.symm.trans ht) (by simp)
    · exact absurd (hNot.symm.trans hSet) (by simp)
  · have hWorking : s.working cfg = 0 := by
      refine Finset.sum_eq_zero fun t ht => ?_
      rcases h.recv_rests hRest hRun hSize (Finset.mem_range.mp ht) with hPc | hPc <;> rw [hPc] <;> rfl
    have hFlights : s.flights = s.inFlight.card := by
      rw [Sys.flights, Finset.card_eq_sum_ones]
      refine Finset.sum_congr rfl fun r hr => ?_
      have hCb : s.mnt.reqCb r ≠ none := by
        intro hNone
        have hMount := h.living.awaited r (Or.inl hr) hNone
        rw [hStats] at hMount
        cases hMount
      rw [Option.isSome_iff_ne_none.mpr hCb, Bool.toNat_true]
    have hJobs := h.living.kept.accounted.jobs
    rw [Sys.live, hWorking, hFlights] at hJobs
    exact hJobs

/-- Threads that are about to receive or have left, and main after its start loop. -/
theorem Sys.AtRest.of_stats {cfg : Cfg} {s : Sys} (hMain : s.pc .main = .stats)
    (hRecv : ∀ t < cfg.tdsMax, s.pc (.recv t) = .idle ∨ s.pc (.recv t) = .exited) :
    s.AtRest cfg := by
  rintro ⟨a, input⟩ s' hStep
  obtain ⟨-, hTd⟩ := step_cases hStep
  have hRun := step_running hStep
  cases a with
  | main => simp [step, hRun, mainStep, hMain, callStep] at hStep
  | recv t =>
      have ht := hTd t rfl
      rcases hRecv t ht with hPc | hPc
      · exact ⟨t, rfl, hPc⟩
      · simp [step, hRun, ht, recvStep, hPc, callStep] at hStep

/-- Main has sent the only job, whose reply is still to come. -/
theorem rests_on_server_sentSteps : ∃ s : Sys, s.AtRest (oneThread .null 1) ∧
    s.inFlight.card = 1 ∧ (∀ r ∈ s.inFlight, s.mnt.reqXid r ∈ s.net) ∧
    s.sent = s.ended + s.inFlight.card := by
  obtain ⟨s, hRun, hHalted, hMain, hIdle, hFlight⟩ : ∃ s,
      Run (step (oneThread .null 1)) (InTime (oneThread .null 1)) Sys.boot s ∧
      s.halted = none ∧ s.pc .main = .stats ∧ s.pc (.recv 0) = .idle ∧ s.inFlight.card = 1 :=
    Run.of_exec_any sentSteps (by decide +kernel)
  have hRest : s.AtRest (oneThread .null 1) := by
    refine Sys.AtRest.of_stats hMain fun t ht => Or.inl ?_
    obtain rfl : t = 0 := Nat.lt_one_iff.mp ht
    exact hIdle
  obtain ⟨-, -, hNet, hJobs⟩ :=
    rests_on_server (oneThread .null 1) (by decide) s hRun hHalted hRest
  exact ⟨s, hRest, hFlight, hNet, hJobs hMain⟩

end Nct
