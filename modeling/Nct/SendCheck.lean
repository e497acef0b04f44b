import Nct.Ownership

/-! The comparison at the end of `nct_req_send`, which is made after the unlock:
between the two the reply may come in and give the request another message. -/
namespace Nct

open Function (update)
open Transition (Run)

/-- The request that a thread has sent and has yet to compare the length of. -/
def Pc.checking : Pc → Option ReqId
  | .check _ req _ _ => some req
  | _ => none

/-- A receive thread exchanges the message of a request only after the thread
that sent it has made its comparison. -/
def ExchangeWaits (cfg : Cfg) (s : Sys) (act : Act) : Prop :=
  match (s.pc act.agent).taking with
  | none => True
  | some req =>
      (s.pc .main).checking ≠ some req ∧ ∀ t < cfg.tdsMax, (s.pc (.recv t)).checking ≠ some req

instance (cfg : Cfg) (s : Sys) (act : Act) : Decidable (ExchangeWaits cfg s act) := by
  unfold ExchangeWaits
  split <;> infer_instance

/-- The sends of all threads go well: no thread that has transmitted a whole
message ends the program in its next step. -/
def SendsPass (cfg : Cfg) (s : Sys) : Prop :=
  ∀ act s' fn req ret len, s.pc act.agent = .check fn req ret (some len) →
    step cfg s act = some s' → s'.halted ≠ some .sendCheck

/-- Until the exchange, a request that has been sent is in flight or taken up,
and its message has the length that was sent. -/
structure Unchanged (s : Sys) (req : ReqId) (cc : Option Nat) : Prop where
  away : req ∈ s.inFlight ∨ ∃ t, (s.pc (.recv t)).taking = some req
  len : ∀ n, cc = some n → s.mnt.msgLen (s.mnt.reqMsg req) = n

def Checked (s : Sys) : Prop :=
  ∀ a fn req ret cc, s.pc a = .check fn req ret cc → Unchanged s req cc

/-- A thread takes a step that keeps messages and their lengths, and leaves no
request neither in flight nor taken up. -/
theorem Checked.frame {s s' : Sys} {a : Agent} (h : Checked s) (hOther : ∀ b, b ≠ a → s'.pc b = s.pc b)
    (hCheck : ∀ fn req ret cc, s'.pc a = .check fn req ret cc → s.pc a = .check fn req ret cc)
    (hTaking : ∀ req, (s.pc a).taking = some req → (s'.pc a).taking = some req)
    (hFlight : s.inFlight ⊆ s'.inFlight)
    (hLen : s'.mnt.msgLen = s.mnt.msgLen) (hMsg : s'.mnt.reqMsg = s.mnt.reqMsg) : Checked s' := by
  intro b fn req ret cc hPc
  have hOld : s.pc b = .check fn req ret cc := by
    by_cases hb : b = a
    · subst hb
      exact hCheck fn req ret cc hPc
    · rwa [hOther b hb] at hPc
  obtain ⟨hAway, hSame⟩ := h b fn req ret cc hOld
  refine ⟨hAway.imp (fun hMem => hFlight hMem) ?_, by rw [hLen, hMsg]; exact hSame⟩
  rintro ⟨t, ht⟩
  refine ⟨t, ?_⟩
  by_cases hb : Agent.recv t = a
  · subst hb
    exact hTaking req ht
  · rwa [hOther _ hb]

/-- A request that is away is no thread's spare request. -/
theorem Owned.not_spare {s : Sys} {req : ReqId} (h : Owned s)
    (hAway : req ∈ s.inFlight ∨ ∃ t, (s.pc (.recv t)).taking = some req) (u : Nat) :
    s.req0 u ≠ some req := by
  intro hSpare
  rcases hAway with hMem | ⟨t, ht⟩
  · exact Place.noConfusion (h.exclusive (.spare u) .flight req hSpare hMem)
  · exact Place.noConfusion (h.held_ne (p := .spare u) (Pc.holds_of_taking ht) hSpare)

theorem prepare_msgLen {cfg : Cfg} {s s' : Sys} {req : ReqId} {l l' : Local} {now : UInt64} {p : Prep}
    (h : s.prepare cfg req l now p = some (s', l')) :
    s'.inFlight = s.inFlight ∧ s'.mnt.reqMsg = s.mnt.reqMsg ∧
      ∀ msg, msg ≠ s.mnt.reqMsg req → s'.mnt.msgLen msg = s.mnt.msgLen msg := by
  rcases prepare_cases h with ⟨_, -, rfl⟩ | ⟨-, rfl⟩ | ⟨_, -, rfl⟩ | ⟨_, rfl⟩
  case inr.inr.inl => exact ⟨rfl, rfl, fun msg hMsg => Function.update_of_ne hMsg _ _⟩
  all_goals exact ⟨rfl, rfl, fun _ _ => rfl⟩

section
variable {cfg : Cfg} {s s' : Sys} {a : Agent} {now : UInt64}

/-- A request that a thread has taken up stays so when another one takes a step. -/
theorem taking_of_other {r : ReqId} (hOther : ∀ b, b ≠ a → s'.pc b = s.pc b)
    (hNot : (s.pc a).taking ≠ some r) (hTaken : ∃ t, (s.pc (.recv t)).taking = some r) :
    ∃ t, (s'.pc (.recv t)).taking = some r := by
  obtain ⟨t, ht⟩ := hTaken
  have hb : Agent.recv t ≠ a := by
    rintro rfl
    exact hNot ht
  exact ⟨t, by rwa [hOther _ hb]⟩

/-- A thread that is about to compare after the step of another one was before. -/
theorem Checked.before {b : Agent} {fn : Fn} {r : ReqId} {ret : Ret} {cc : Option Nat}
    (h : Checked s) (hOther : ∀ b, b ≠ a → s'.pc b = s.pc b)
    (hNew : s'.pc a ≠ .check fn r ret cc) (hAt : s'.pc b = .check fn r ret cc) :
    b ≠ a ∧ s.pc b = .check fn r ret cc ∧ Unchanged s r cc := by
  have hb : b ≠ a := by
    rintro rfl
    exact hNew hAt
  rw [hOther b hb] at hAt
  exact ⟨hb, hAt, h b fn r ret cc hAt⟩

theorem Checked.take {t : Nat} {rep : Reply} {req : ReqId} (h : Checked s)
    (hPc : s.pc (.recv t) = .got rep) :
    Checked ((s.take req rep now).goto (.recv t) (.taken req rep)) := by
  have hOther : ∀ b, b ≠ .recv t →
      ((s.take req rep now).goto (.recv t) (.taken req rep)).pc b = s.pc b := fun b hb =>
    Sys.goto_pc_of_ne _ _ hb
  intro b fn r ret cc hAt
  obtain ⟨-, -, hAway, hLen⟩ := h.before hOther (by simp) hAt
  refine ⟨?_, hLen⟩
  by_cases hr : r = req
  · exact Or.inr ⟨t, by simp [Pc.taking, hr]⟩
  · refine hAway.imp (fun hMem => Finset.mem_erase.mpr ⟨hr, hMem⟩) ?_
    exact taking_of_other hOther (by simp [hPc, Pc.taking])

theorem Checked.exchange {t : Nat} {rep : Reply} {req : ReqId} (h : Checked s) (hOwned : Owned s)
    (hWithin : s.Within cfg) (hPc : s.pc (.recv t) = .taken req rep)
    (hWaits : (s.pc .main).checking ≠ some req ∧
      ∀ u < cfg.tdsMax, (s.pc (.recv u)).checking ≠ some req) :
    Checked ((s.exchange t req rep).goto (.recv t) (.testCb req)) := by
  have hOther : ∀ b, b ≠ .recv t →
      ((s.exchange t req rep).goto (.recv t) (.testCb req)).pc b = s.pc b := fun b hb =>
    Sys.goto_pc_of_ne _ _ hb
  intro b fn r ret cc hAt
  obtain ⟨-, hOld, hAway, hLen⟩ := h.before hOther (by simp) hAt
  -- the sender of this request is done, so `r` is another one
  have hr : r ≠ req := by
    rintro rfl
    cases b with
    | main => exact hWaits.1 (by simp [hOld, Pc.checking])
    | recv u =>
        by_cases hu : u < cfg.tdsMax
        · exact hWaits.2 u hu (by simp [hOld, Pc.checking])
        · rw [hWithin u (Nat.le_of_not_lt hu)] at hOld
          cases hOld
  have hMsg : s.mnt.reqMsg r ≠ s.buf t := by
    intro he
    have hBooted : s.req0 t ≠ none := fun hNone => by
      rw [(hOwned.booted t).mpr hNone] at hPc
      cases hPc
    cases hOwned.buffers (.req r) (.thread t) (s.buf t) ⟨hOwned.not_spare hAway, he⟩
      ⟨hBooted, rfl⟩
  refine ⟨hAway.imp id ?_, fun n hn => ?_⟩
  · exact taking_of_other hOther (by simpa [hPc, Pc.taking] using hr.symm)
  · have hSame : (Nct.exchange s.mnt req (s.buf t) rep).reqMsg r = s.mnt.reqMsg r :=
      Function.update_of_ne hr _ _
    have hKept : (Nct.exchange s.mnt req (s.buf t) rep).msgLen (s.mnt.reqMsg r) =
        s.mnt.msgLen (s.mnt.reqMsg r) := Function.update_of_ne hMsg _ _
    exact (congrArg _ hSame).trans (hKept.trans (hLen n hn))

/-- A request that is away has another message than one that a thread prepares. -/
theorem Owned.away_msg_ne {fn : Fn} {req r : ReqId} {plan : Plan} {l : Local} (h : Owned s)
    (hPc : s.pc a = .call fn req plan l)
    (hAway : r ∈ s.inFlight ∨ ∃ t, (s.pc (.recv t)).taking = some r) :
    s.mnt.reqMsg r ≠ s.mnt.reqMsg req := by
  have hHeld : (s.pc a).holds s.mnt req := by simp [hPc, Pc.holds]
  have hr : r ≠ req := by
    rintro rfl
    rcases hAway with hMem | ⟨u, hu⟩
    · exact Place.noConfusion (h.held_ne (p := .flight) hHeld hMem)
    · have hSame := h.held_ne (p := .held (.recv u)) hHeld (Pc.holds_of_taking hu)
      injection hSame with hSame
      rw [hSame, hPc] at hu
      cases hu
  intro he
  have hSpare : ∀ u, s.req0 u ≠ some req := fun u hu =>
    Place.noConfusion (h.held_ne (p := .spare u) hHeld hu)
  have hSame := h.buffers (.req r) (.req req) _ ⟨h.not_spare hAway, he⟩ ⟨hSpare, rfl⟩
  injection hSame with hSame
  exact hr hSame

theorem Checked.prepare {fn : Fn} {req : ReqId} {plan : Plan} {l l' : Local} {p : Prep}
    {prep : List Prep} (h : Checked s) (hOwned : Owned s) (hPc : s.pc a = .call fn req plan l)
    (hDo : s.prepare cfg req l now p = some (s', l')) :
    Checked (s'.goto a (.call fn req { plan with prep } l')) := by
  obtain ⟨hFlight, hMsg, hLenOther⟩ := prepare_msgLen hDo
  have hOther : ∀ b, b ≠ a → (s'.goto a (.call fn req { plan with prep } l')).pc b = s.pc b :=
    fun b hb => by rw [Sys.goto_pc_of_ne _ _ hb, prepare_pc hDo]
  intro b fn' r ret cc hAt
  obtain ⟨-, -, hAway, hLen⟩ := h.before hOther (by simp) hAt
  have hBuf := hOwned.away_msg_ne hPc hAway
  refine ⟨hAway.imp (fun hMem => by rwa [← hFlight] at hMem) ?_, fun n hn => ?_⟩
  · exact taking_of_other hOther (by simp [hPc, Pc.taking])
  · rw [Sys.goto_mnt, hMsg, hLenOther _ hBuf]
    exact hLen n hn

/-- The length that a thread is about to compare is that of the message it has sent. -/
theorem Checked.send {fn : Fn} {req : ReqId} {plan : Plan} {l : Local} {complete : Bool}
    (h : Checked s) (hPc : s.pc a = .call fn req plan l) :
    Checked ((s.send fn req complete).goto a (.check fn req plan.ret
      (if complete then some (s.mnt.msgLen (s.mnt.reqMsg req)) else none))) := by
  have hOther : ∀ b, b ≠ a → ((s.send fn req complete).goto a (.check fn req plan.ret
      (if complete then some (s.mnt.msgLen (s.mnt.reqMsg req)) else none))).pc b = s.pc b :=
    fun b hb => Sys.goto_pc_of_ne _ _ hb
  intro b fn' r ret cc hAt
  by_cases hb : b = a
  · subst hb
    rw [Sys.goto_pc_self] at hAt
    cases hAt
    refine ⟨Or.inl (Finset.mem_insert_self _ _), fun n hn => ?_⟩
    split at hn
    · exact Option.some.inj hn
    · cases hn
  · obtain ⟨hAway, hLen⟩ := h b fn' r ret cc (by rwa [hOther b hb] at hAt)
    refine ⟨hAway.imp (fun hMem => Finset.mem_insert_of_mem hMem) ?_, hLen⟩
    exact taking_of_other hOther (by simp [hPc, Pc.taking])

end

/-- Every step keeps what the sending threads are about to compare. -/
theorem Checked.step {cfg : Cfg} {s s' : Sys} {act : Act} (h : Checked s) (hOwned : Owned s)
    (hWithin : s.Within cfg) (hOk : ExchangeWaits cfg s act) (hStep : Nct.step cfg s act = some s') :
    Checked s' := by
  obtain ⟨hCase, -⟩ := step_cases hStep
  have hOther := fun b (hb : b ≠ act.agent) => step_pc_other hCase hb
  generalize hAgent : act.agent = a at hCase hOther
  cases hCase with
  | take hPc => exact h.take hPc
  | @exchange t rep req hPc =>
      apply h.exchange hOwned hWithin hPc
      simpa [ExchangeWaits, hAgent, hPc, Pc.taking] using hOk
  | prepare hPc _ hDo => exact h.prepare hOwned hPc hDo
  | send hPc => exact h.send hPc
  | @settle t rc freed hPc =>
      refine h.frame hOther (fun fn r ret cc hAt => ?_) (by simp [Pc.taking, hPc]) (fun _ hr => hr) ?_
        (settle_same s rc freed).msg
      · rw [Sys.goto_pc_self] at hAt
        split at hAt <;> cases hAt
      · rw [Sys.goto_mnt, Sys.settle]
        dsimp only
        split <;> rfl
  | cantDecode | nullSlot | xidMismatch | mountFailed | sendCheck =>
      exact h.frame hOther (fun _ _ _ _ hAt => hAt) (fun _ hr => hr) (fun _ hr => hr) rfl rfl
  | _ => exact h.frame hOther (by simp) (by simp [Pc.taking, *]) (fun _ hr => hr) rfl rfl

theorem Checked.atBoot : Checked Sys.boot := fun a fn req ret cc hPc => by cases a <;> cases hPc

theorem exchangeWaits_takes {cfg : Cfg} {s : Sys} {act : Act} (h : act.TakesUp s = true) :
    ExchangeWaits cfg s act := by
  obtain ⟨rep, hPc⟩ := Act.got_of_takesUp h
  simp [ExchangeWaits, hPc, Pc.taking]

/-- As long as the reply to a request is exchanged for its message only after
its sender has made the comparison (and requests stay where they belong), no
complete send ends the program. -/
theorem completeSend_passes (cfg : Cfg) (s : Races)
    (run : Run (raceStep cfg) (TakenOnce fun s act => NoStaleTest cfg s act ∧ ExchangeWaits cfg s act)
      Races.boot s) :
    SendsPass cfg s.sys := by
  have hRobust : Robust fun s => (Owned s ∧ s.Within cfg) ∧ Checked s :=
    ownedWithin_robust.and
      (fun _ _ h a fn req ret cc hPc => ⟨(h a fn req ret cc hPc).away, (h a fn req ret cc hPc).len⟩)
      fun _ _ h a fn req ret cc hPc => ⟨(h a fn req ret cc hPc).away, (h a fn req ret cc hPc).len⟩
  obtain ⟨⟨-, hChecked⟩, -⟩ := hRobust.run ⟨⟨Owned.atBoot, fun _ _ => rfl⟩, Checked.atBoot⟩
    (fun _ _ _ h hOk hStep =>
      ⟨OwnedWithin.step h.1 hOk.1 hStep, h.2.step h.1.1 h.1.2 hOk.2 hStep⟩)
    (fun _ _ h => ⟨noStaleTest_takes h, exchangeWaits_takes h⟩) run
  intro act s' fn req ret len hPc hStep
  have hLen := (hChecked _ fn req ret _ hPc).len len rfl
  obtain ⟨hCase, -⟩ := step_cases hStep
  generalize act.agent = a at hPc hCase
  cases hCase with
  | sendCheck hAt hCheck =>
      rw [hPc] at hAt
      cases hAt
      exact absurd (congrArg some hLen.symm) hCheck
  | checked hAt hCheck => simp [Sys.goto, step_running hStep]
  | _ => simp_all

/-- The first thread sends a job's request again and has yet to compare. -/
def resendSteps : List Act :=
  mountSteps 2 getattrBody ++ (Agent.recv 0).steps 2 ++ Agent.main.steps 13 ++
    (Agent.recv 0).hears 11 RPC_SUCCESS [] :: (Agent.recv 0).steps 7

theorem completeSend_resendSteps :
    ∃ s : Sys, (s.pc (.recv 0)).checking.isSome ∧ SendsPass twoThreads s := by
  obtain ⟨s, hRun, hChecking⟩ : ∃ s, Run (step twoThreads)
      (fun s act => NoStaleTest twoThreads s act ∧ ExchangeWaits twoThreads s act) Sys.boot s ∧
      (s.pc (.recv 0)).checking.isSome :=
    Run.of_exec_any resendSteps (by decide +kernel)
  have hRaces := races_of_run (fun _ _ hOk => hOk.1) hRun
  exact ⟨s, hChecking, completeSend_passes twoThreads ⟨s, fun _ => none⟩ hRaces⟩

/-- The reply to main's GETATTR, of 112 bytes, is exchanged for its call, of
100 bytes, before main compares. -/
def earlyReplySteps : List Act :=
  Agent.main.steps 4 ++ (Agent.recv 0).steps 1 ++
    (Agent.recv 0).hears 0 RPC_SUCCESS getattrBody :: (Agent.recv 0).steps 2

theorem completeSend_earlyReply :
    ¬ ∀ (cfg : Cfg) (s : Sys), Run (step cfg) (fun _ _ => True) Sys.boot s → SendsPass cfg s := by
  intro h
  obtain ⟨s, hRun, hPc, s', hStep, hAbort⟩ : ∃ s,
      Run (step twoThreads) (fun _ _ => True) Sys.boot s ∧
      s.pc .main = .check .mount ⟨1023, by decide⟩ (.value 0) (some 100) ∧
      ∃ s' ∈ step twoThreads s ⟨.main, quietInput⟩, s'.halted = some .sendCheck :=
    Run.of_exec_any earlyReplySteps (by decide +kernel)
  exact h twoThreads s hRun _ s' _ _ _ _ hPc hStep hAbort

end Nct
