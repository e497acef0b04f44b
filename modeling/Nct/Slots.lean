import Nct.Accounting

/-! The table that finds the request of a reply. Its slot is taken from the xid,
and the xids of successive sends are 11 apart, so a slot comes around after 1024
sends, whether or not the reply it was meant for has come in. -/
namespace Nct

open Function (update)
open Places (Exclusive)
open Transition (Run)

/-- The xid of the reply that a receive thread has decoded and not taken up. -/
def Pc.answer : Pc → Option UInt32
  | .got rep => some rep.xid
  | _ => none

/-- Where the answer to a call is: still with the server or on the wire, or
with a receive thread. -/
inductive Answer where
  | net
  | got (t : Nat)
  deriving DecidableEq

def Sys.answering (s : Sys) : Answer → UInt32 → Prop
  | .net, xid => xid ∈ s.net
  | .got t, xid => (s.pc (.recv t)).answer = some xid

/-- The server answers only calls that it has got, each of them once. -/
def Answers (s : Sys) (act : Act) : Prop :=
  match s.pc act.agent, act.input.reply with
  | .idle, some rep => rep.xid ∈ s.net
  | _, _ => True

instance (s : Sys) (act : Act) : Decidable (Answers s act) := by
  unfold Answers
  generalize s.pc act.agent = pc, act.input.reply = reply
  induction pc using Pc.casesOn <;> induction reply using Option.casesOn <;> infer_instance

/-- When a request is sent, none is in flight that was sent 1024 sends before. -/
def NotLapped (s : Sys) (act : Act) : Prop :=
  match s.pc act.agent with
  | .call _ _ ⟨[], .send, _⟩ _ => ∀ r ∈ s.inFlight, s.mnt.sendXid ≠ s.mnt.reqXid r + 11264
  | _ => True

instance (s : Sys) (act : Act) : Decidable (NotLapped s act) := by
  unfold NotLapped
  generalize s.pc act.agent = pc
  induction pc using Pc.casesOn with
  | call fn req plan l =>
      obtain ⟨_ | ⟨p, prep⟩, _ | _, ret⟩ := plan <;> infer_instance
  | _ => infer_instance

/-- `xid` was given out `k` sends before `next`. -/
def Older (xid next : UInt32) (k : Nat) : Prop := next.toNat = (xid.toNat + 11 * k) % 2 ^ 32

/-- A send later, the xid is one stride older. -/
theorem Older.succ {xid next : UInt32} {k : Nat} (h : Older xid next k) :
    Older xid (next + 11) (k + 1) := by
  have hSum : (next + 11).toNat = (next.toNat + 11) % 2 ^ 32 := UInt32.toNat_add next 11
  unfold Older at *
  omega

/-- Two xids fewer than 1024 sends apart have different slots. -/
theorem Older.slot_ne {xid next : UInt32} {k : Nat} (h : Older xid next k) (hPos : 1 ≤ k)
    (hLess : k < NCT_REQ_MAX) : slot xid ≠ slot next := by
  simp only [Older, slot, NCT_REQ_MAX] at *
  omega

/-- After 1024 sends the counter is 11264 further. -/
theorem Older.lapped {xid next : UInt32} {k : Nat} (h : Older xid next k) (hMax : k = NCT_REQ_MAX) :
    next = xid + 11264 := by
  rw [← UInt32.toNat_inj, UInt32.toNat_add, h, hMax]
  rfl

/-- Each request in flight has its slot, and what is still to be answered are
requests in flight, each once. -/
structure Matched (s : Sys) : Prop where
  slots : ∀ r ∈ s.inFlight, s.mnt.reqTbl (slot (s.mnt.reqXid r)) = some r
  ages : ∀ r ∈ s.inFlight, ∃ k, 1 ≤ k ∧ k ≤ NCT_REQ_MAX ∧ Older (s.mnt.reqXid r) s.mnt.sendXid k
  nodup : s.net.Nodup
  answers : Exclusive s.answering
  awaited : ∀ p xid, s.answering p xid → ∃ r ∈ s.inFlight, s.mnt.reqXid r = xid
  running : s.halted ≠ some .nullSlot ∧ s.halted ≠ some .xidMismatch

/-- Nothing that the table or the connection has changes, and no answer appears. -/
theorem Matched.frame {s s' : Sys} {a : Agent} (h : Matched s) (hLink : s.SameLink s')
    (hOther : ∀ b, b ≠ a → s'.pc b = s.pc b)
    (hAnswer : ∀ xid, (s'.pc a).answer = some xid → (s.pc a).answer = some xid) : Matched s' := by
  have hAnswering : ∀ p xid, s'.answering p xid → s.answering p xid := by
    intro p xid hp
    cases p with
    | net => rwa [Sys.answering, hLink.net] at hp
    | got t =>
        by_cases ht : Agent.recv t = a
        · subst ht
          exact hAnswer xid hp
        · rwa [Sys.answering, hOther _ ht] at hp
  constructor
  · rw [hLink.inFlight, hLink.tbl, hLink.xid]
    exact h.slots
  · rw [hLink.inFlight, hLink.xid, hLink.sendXid]
    exact h.ages
  · rw [hLink.net]
    exact h.nodup
  · exact h.answers.mono hAnswering
  · rw [hLink.inFlight, hLink.xid]
    exact fun p xid hp => h.awaited p xid (hAnswering p xid hp)
  · rw [hLink.halted]
    exact h.running

section
variable {s : Sys} (h : Matched s)

include h

/-- A reply that a receive thread has decoded finds its request. -/
theorem Matched.found {t : Nat} {rep : Reply} (hPc : s.pc (.recv t) = .got rep) :
    ∃ r ∈ s.inFlight, s.mnt.reqXid r = rep.xid ∧ s.mnt.reqTbl (slot rep.xid) = some r := by
  obtain ⟨r, hMem, hXid⟩ := h.awaited (.got t) rep.xid (by simp [Sys.answering, hPc, Pc.answer])
  exact ⟨r, hMem, hXid, hXid ▸ h.slots r hMem⟩

/-- Requests in flight that share a slot are the same. -/
theorem Matched.eq_of_slot {r r' : ReqId} (hr : r ∈ s.inFlight) (hr' : r' ∈ s.inFlight)
    (hSlot : slot (s.mnt.reqXid r) = slot (s.mnt.reqXid r')) : r = r' := by
  have hBoth := (h.slots r hr).symm.trans ((congrArg _ hSlot).trans (h.slots r' hr'))
  exact Option.some.inj hBoth

/-- A reply goes from the connection to the thread that has received it. -/
theorem Matched.reply {t : Nat} {rep : Reply} (hPc : s.pc (.recv t) = .idle)
    (hMem : rep.xid ∈ s.net) :
    Matched ({ s with net := s.net.erase rep.xid }.goto (.recv t) (.got rep)) := by
  let s' := { s with net := s.net.erase rep.xid }.goto (.recv t) (.got rep)
  have hHere : s'.pc (.recv t) = .got rep := Sys.goto_pc_self _ _ _
  have hOther : ∀ u, u ≠ t → s'.pc (.recv u) = s.pc (.recv u) := fun u hu =>
    Sys.goto_pc_of_ne _ _ (by simpa using hu)
  have hAnswering : ∀ p xid, s'.answering p xid → s.answering p xid ∨ p = .got t ∧ xid = rep.xid := by
    intro p xid hp
    cases p with
    | net => exact Or.inl (List.mem_of_mem_erase hp)
    | got u =>
        by_cases hu : u = t
        · subst hu
          rw [Sys.answering, hHere] at hp
          exact Or.inr ⟨rfl, (Option.some.inj hp).symm⟩
        · rw [Sys.answering, hOther u hu] at hp
          exact Or.inl hp
  refine ⟨h.slots, h.ages, h.nodup.erase _, ?_, fun p xid hp => ?_, h.running⟩
  · refine h.answers.move (p := .net) (q := .got t) hMem (fun p xid hXid hp => ?_) (fun p hp => ?_)
    · exact (hAnswering p xid hp).resolve_right fun hNew => hXid hNew.2
    · rcases hAnswering p rep.xid hp with hOld | ⟨hNew, -⟩
      · refine Or.inr ⟨hOld, ?_⟩
        rintro rfl
        exact (List.Nodup.not_mem_erase h.nodup) hp
      · exact Or.inl hNew
  · rcases hAnswering p xid hp with hOld | ⟨-, rfl⟩
    · exact h.awaited p xid hOld
    · exact h.awaited .net _ hMem

/-- With its request the reply is gone. -/
theorem Matched.take {t : Nat} {rep : Reply} {req : ReqId} {now : UInt64}
    (hPc : s.pc (.recv t) = .got rep) (hMem : req ∈ s.inFlight) (hXid : s.mnt.reqXid req = rep.xid) :
    Matched ((s.take req rep now).goto (.recv t) (.taken req rep)) := by
  let s' := (s.take req rep now).goto (.recv t) (.taken req rep)
  have hHere : s'.pc (.recv t) = .taken req rep := Sys.goto_pc_self _ _ _
  have hAnswering : ∀ p xid, s'.answering p xid → s.answering p xid ∧ xid ≠ rep.xid := by
    intro p xid hp
    have hThread : s.answering (.got t) rep.xid := by simp [Sys.answering, hPc, Pc.answer]
    have hOld : s.answering p xid ∧ p ≠ .got t := by
      cases p with
      | net => exact ⟨hp, by simp⟩
      | got u =>
          have hu : u ≠ t := by
            rintro rfl
            rw [Sys.answering, hHere] at hp
            cases hp
          rw [Sys.answering, Sys.goto_pc_of_ne _ _ (by simpa using hu)] at hp
          exact ⟨hp, by simpa using hu⟩
    refine ⟨hOld.1, ?_⟩
    rintro rfl
    exact hOld.2 (h.answers _ _ _ hOld.1 hThread)
  refine ⟨fun r hr => ?_, fun r hr => h.ages r (Finset.mem_of_mem_erase hr), h.nodup,
    h.answers.mono fun p xid hp => (hAnswering p xid hp).1, fun p xid hp => ?_, h.running⟩
  · obtain ⟨hne, hIn⟩ := Finset.mem_erase.mp hr
    have hSlot : slot (s.mnt.reqXid r) ≠ slot rep.xid := by
      rw [← hXid]
      exact fun hSame => hne (h.eq_of_slot hIn hMem hSame)
    exact (Function.update_of_ne hSlot _ _).trans (h.slots r hIn)
  · obtain ⟨hOld, hne⟩ := hAnswering p xid hp
    obtain ⟨r, hIn, hr⟩ := h.awaited p xid hOld
    refine ⟨r, Finset.mem_erase.mpr ⟨?_, hIn⟩, hr⟩
    rintro rfl
    exact hne (hr.symm.trans hXid)

/-- No request in flight has the slot of the next send. -/
theorem Matched.slot_ne (hLapped : ∀ r ∈ s.inFlight, s.mnt.sendXid ≠ s.mnt.reqXid r + 11264)
    {r : ReqId} (hr : r ∈ s.inFlight) : slot (s.mnt.reqXid r) ≠ slot s.mnt.sendXid := by
  obtain ⟨k, hPos, hMax, hOlder⟩ := h.ages r hr
  have hk : k ≠ NCT_REQ_MAX := fun hk => hLapped r hr (hOlder.lapped hk)
  exact hOlder.slot_ne hPos (by omega)

/-- A send takes a slot that no request in flight has. -/
theorem Matched.send {a : Agent} {fn : Fn} {req : ReqId} {complete : Bool} {pc : Pc}
    (hNotFlight : req ∉ s.inFlight) (hAnswer : pc.answer = none)
    (hLapped : ∀ r ∈ s.inFlight, s.mnt.sendXid ≠ s.mnt.reqXid r + 11264) :
    Matched ((s.send fn req complete).goto a pc) := by
  let s' := (s.send fn req complete).goto a pc
  have hSlot : ∀ r ∈ s.inFlight, slot (s.mnt.reqXid r) ≠ slot s.mnt.sendXid := fun _ hr =>
    h.slot_ne hLapped hr
  have hXid : ∀ r ∈ s.inFlight, s'.mnt.reqXid r = s.mnt.reqXid r := fun r hr =>
    Function.update_of_ne (ne_of_mem_of_not_mem hr hNotFlight) _ _
  have hXidHere : s'.mnt.reqXid req = s.mnt.sendXid := Function.update_self _ _ _
  have hFresh : ∀ p, ¬ s.answering p s.mnt.sendXid := by
    intro p hp
    obtain ⟨r, hr, he⟩ := h.awaited p _ hp
    exact hSlot r hr (congrArg slot he)
  have hAnswering : ∀ p xid, s'.answering p xid →
      s.answering p xid ∨ p = .net ∧ xid = s.mnt.sendXid ∧ complete = true := by
    intro p xid hp
    cases p with
    | net =>
        change xid ∈ if complete then s.mnt.sendXid :: s.net else s.net at hp
        split at hp
        · next hc =>
            rcases List.mem_cons.mp hp with rfl | hOld
            · exact Or.inr ⟨rfl, rfl, hc⟩
            · exact Or.inl hOld
        · exact Or.inl hp
    | got t =>
        by_cases ht : Agent.recv t = a
        · subst ht
          rw [Sys.answering, Sys.goto_pc_self, hAnswer] at hp
          cases hp
        · rw [Sys.answering, Sys.goto_pc_of_ne _ _ ht] at hp
          exact Or.inl hp
  refine ⟨fun r hr => ?_, fun r hr => ?_, ?_, ?_, fun p xid hp => ?_, h.running⟩
  · rcases Finset.mem_insert.mp hr with rfl | hIn
    · rw [hXidHere]
      exact Function.update_self _ _ _
    · rw [hXid r hIn]
      exact (Function.update_of_ne (hSlot r hIn) _ _).trans (h.slots r hIn)
  · rcases Finset.mem_insert.mp hr with rfl | hIn
    · refine ⟨1, Nat.le_refl _, by decide, ?_⟩
      rw [hXidHere]
      exact UInt32.toNat_add s.mnt.sendXid 11
    · obtain ⟨k, hPos, hMax, hOlder⟩ := h.ages r hIn
      have hk : k ≠ NCT_REQ_MAX := fun hk => hLapped r hIn (hOlder.lapped hk)
      refine ⟨k + 1, by omega, by omega, ?_⟩
      rw [hXid r hIn]
      exact hOlder.succ
  · change (if complete then s.mnt.sendXid :: s.net else s.net).Nodup
    split
    · exact List.nodup_cons.mpr ⟨hFresh .net, h.nodup⟩
    · exact h.nodup
  · intro p q xid hp hq
    rcases hAnswering p xid hp with hOld | ⟨rfl, rfl, -⟩
    · rcases hAnswering q xid hq with hOld' | ⟨-, rfl, -⟩
      · exact h.answers p q xid hOld hOld'
      · exact absurd hOld (hFresh p)
    · rcases hAnswering q _ hq with hOld' | ⟨rfl, -, -⟩
      · exact absurd hOld' (hFresh q)
      · rfl
  · rcases hAnswering p xid hp with hOld | ⟨-, rfl, -⟩
    · obtain ⟨r, hIn, hr⟩ := h.awaited p xid hOld
      exact ⟨r, Finset.mem_insert_of_mem hIn, (hXid r hIn).trans hr⟩
    · exact ⟨req, Finset.mem_insert_self _ _, hXidHere⟩

end

/-- The program does not end for want of a reply's request. -/
theorem Matched.crash {s : Sys} {c : Crash} (h : Matched s) (hNull : c ≠ .nullSlot)
    (hXid : c ≠ .xidMismatch) : Matched (s.crash c) :=
  ⟨h.slots, h.ages, h.nodup, h.answers, h.awaited, by simpa [Sys.crash] using ⟨hNull, hXid⟩⟩

/-- Each step of a run in time keeps it. -/
theorem Matched.step {cfg : Cfg} {s s' : Sys} {act : Act} (h : Matched s) (hOwned : Owned s)
    (hAnswers : Answers s act) (hLapped : NotLapped s act) (hStep : Nct.step cfg s act = some s') :
    Matched s' := by
  obtain ⟨hCase, -⟩ := step_cases hStep
  have hOther := fun b (hb : b ≠ act.agent) => step_pc_other hCase hb
  generalize hAgent : act.agent = a at hCase hOther
  cases hCase with
  | @reply t rep hPc hRep =>
      apply h.reply hPc
      simpa [Answers, hAgent, hPc, hRep] using hAnswers
  | nullSlot hPc hSlot =>
      obtain ⟨r, -, -, hTbl⟩ := h.found hPc
      exact absurd (hSlot.symm.trans hTbl) (by simp)
  | xidMismatch hPc hSlot hXid =>
      obtain ⟨r, -, hr, hTbl⟩ := h.found hPc
      obtain rfl := Option.some.inj (hSlot.symm.trans hTbl)
      exact absurd hr hXid
  | take hPc hSlot hXid => exact h.take hPc (hOwned.table _ _ hSlot).1 hXid
  | cantDecode | mountFailed | sendCheck => exact h.crash (by simp) (by simp)
  | @prepare _ fn req plan l l' p prep s'' hPc hPrep hDo =>
      apply h.frame ((prepare_link hDo).goto _ _) hOther
      simp [Pc.answer]
  | @send _ fn req plan l hPc hPrep hGive =>
      have hHeld : (s.pc a).holds s.mnt req := by simp [hPc, Pc.holds]
      have hNotFlight : req ∉ s.inFlight := fun hMem =>
        Place.noConfusion (hOwned.held_ne (p := .flight) hHeld hMem)
      obtain ⟨prep, give, ret⟩ := plan
      obtain rfl := hPrep
      obtain rfl := hGive
      apply h.send hNotFlight rfl
      simpa only [NotLapped, hAgent, hPc] using hLapped
  | @settle t rc freed hPc =>
      apply h.frame ((settle_link s rc freed).goto _ _) hOther
      rw [Sys.goto_pc_self]
      split <;> simp [Pc.answer]
  | _ => exact h.frame (by constructor <;> rfl) hOther (by simp [Pc.answer])

theorem Matched.atBoot : Matched Sys.boot where
  slots r hr := absurd hr (Finset.notMem_empty r)
  ages r hr := absurd hr (Finset.notMem_empty r)
  nodup := List.nodup_nil
  answers p q xid hp := by
    cases p with
    | net => cases hp
    | got t => cases hp
  awaited p xid hp := by
    cases p with
    | net => cases hp
    | got t => cases hp
  running := by simp [Sys.boot]

/-- The table finds the request of every reply: each request in flight has its
slot, and the program has not ended for want of one. -/
structure Sys.SlotsHold (s : Sys) : Prop where
  occupied : ∀ r ∈ s.inFlight, s.mnt.reqTbl (slot (s.mnt.reqXid r)) = some r
  replies : ∀ t rep, s.pc (.recv t) = .got rep →
    ∃ r ∈ s.inFlight, s.mnt.reqXid r = rep.xid ∧ s.mnt.reqTbl (slot rep.xid) = some r
  running : s.halted ≠ some .nullSlot ∧ s.halted ≠ some .xidMismatch

/-- What a run must meet for the table to hold every request in flight: the
server answers calls that it has got, no reply is delayed over 1024 sends, and
no request has its callback run twice. -/
def InTime (cfg : Cfg) (s : Sys) (act : Act) : Prop :=
  NoStaleTest cfg s act ∧ Answers s act ∧ NotLapped s act

instance (cfg : Cfg) (s : Sys) (act : Act) : Decidable (InTime cfg s act) := by
  unfold InTime
  infer_instance

/-- When each call is answered once and in time, no send overwrites a slot in use, and
every reply finds its request. -/
theorem slots_hold (cfg : Cfg) (s : Sys) (run : Run (step cfg) (InTime cfg) Sys.boot s) :
    s.SlotsHold := by
  obtain ⟨hMatched, -⟩ : Matched s ∧ Kept cfg s := by
    refine run.invariant (P := fun s => Matched s ∧ Kept cfg s) ⟨Matched.atBoot, Kept.atBoot cfg⟩ ?_
    rintro s act s' ⟨hMatched, hKept⟩ ⟨hStale, hAnswers, hLapped⟩ hStep
    exact ⟨hMatched.step hKept.owned hAnswers hLapped hStep, hKept.step hStale hStep⟩
  exact ⟨hMatched.slots, fun t rep hPc => hMatched.found hPc, hMatched.running⟩

/-- One receive thread, and main sends the only job. -/
def sentSteps : List Act :=
  mountSteps 1 getattrBody ++ (Agent.recv 0).steps 2 ++ Agent.main.steps 13

/-- Two jobs are in flight. -/
theorem slots_hold_sentSteps :
    ∃ s : Sys, s.pc .main = .stats ∧ s.inFlight.Nonempty ∧ s.SlotsHold := by
  let req : ReqId := ⟨1023, by decide⟩
  obtain ⟨s, hRun, hMain, hFlight⟩ : ∃ s,
      Run (step (oneThread .null 1)) (InTime (oneThread .null 1)) Sys.boot s ∧
      s.pc .main = .stats ∧ req ∈ s.inFlight :=
    Run.of_exec_any sentSteps (by decide +kernel)
  exact ⟨s, hMain, ⟨req, hFlight⟩, slots_hold (oneThread .null 1) s hRun⟩

/-- Job `late` waits for the reply to its first request, of xid 11, while the
receive thread is about to get the reply to the other job's. -/
structure Spins (s : Sys) (late other : ReqId) (xid : UInt32) : Prop where
  running : s.halted = none
  idle : s.pc (.recv 0) = .idle
  differ : late ≠ other
  waits : late ∈ s.inFlight
  lateXid : s.mnt.reqXid late = 11
  answer : xid ∈ s.net
  table : s.mnt.reqTbl (slot xid) = some other
  otherXid : s.mnt.reqXid other = xid
  cb : s.mnt.reqCb other = some .null
  finish : 0 < s.mnt.reqTscFinish other

/-- The other job's callback is about to send its request again. -/
structure Resends (s : Sys) (late other : ReqId) : Prop where
  running : s.halted = none
  call : s.pc (.recv 0) = .call .callback other ⟨[.stamp, .encode .null], .send, .value 0⟩ ⟨0, 0⟩
  differ : late ≠ other
  waits : late ∈ s.inFlight
  lateXid : s.mnt.reqXid late = 11
  cb : s.mnt.reqCb other = some .null
  finish : 0 < s.mnt.reqTscFinish other

theorem answers_quiet (s : Sys) : Answers s ⟨.recv 0, quietInput⟩ := by
  unfold Answers
  split
  · next hReply => cases hReply
  · trivial

section
variable {cfg : Cfg} (ht : 0 < cfg.tdsMax)

include ht

theorem step_recv {s s' : Sys} {input : Input} (hRun : s.halted = none)
    (h : recvStep cfg s 0 input = some s') : step cfg s ⟨.recv 0, input⟩ = some s' := by
  simp [step, hRun, ht, h]

/-- The reply to the other request is taken up, and its callback is about to send it. -/
theorem Spins.hear {s : Sys} {late other : ReqId} {xid : UInt32} (h : Spins s late other xid) :
    ∃ s', Run (step cfg) Answers s s' ∧ Resends s' late other ∧ s'.mnt.sendXid = s.mnt.sendXid := by
  let rep : Reply := ⟨xid, RPC_SUCCESS, rpcmin, []⟩
  let plan : Plan := ⟨[.stamp, .encode .null], .send, .value 0⟩
  let s₁ := { s with net := s.net.erase xid }.goto (.recv 0) (.got rep)
  let s₂ := (s₁.take other rep 0).goto (.recv 0) (.taken other rep)
  let s₃ := (s₂.exchange 0 other rep).goto (.recv 0) (.testCb other)
  let s₄ := s₃.goto (.recv 0) (.callback other .null)
  let s₅ := s₄.goto (.recv 0) (.call .callback other plan ⟨0, 0⟩)
  have h₁ : step cfg s ⟨.recv 0, { quietInput with reply := some rep }⟩ = some s₁ := by
    refine step_recv ht h.running ?_
    simp [recvStep, h.idle, rep, rpcmin, RPC_SUCCESS, RPC_CANTDECODERES, s₁]
  have h₂ : step cfg s₁ ⟨.recv 0, quietInput⟩ = some s₂ := by
    refine step_recv ht h.running ?_
    have hPc : s₁.pc (.recv 0) = .got rep := Sys.goto_pc_self _ _ _
    have hTbl : s₁.mnt.reqTbl (slot rep.xid) = some other := h.table
    have hXid : s₁.mnt.reqXid other = rep.xid := h.otherXid
    simp [recvStep, hPc, hTbl, hXid, s₂, quietInput]
  have h₃ : step cfg s₂ ⟨.recv 0, quietInput⟩ = some s₃ := by
    refine step_recv ht h.running ?_
    have hPc : s₂.pc (.recv 0) = .taken other rep := Sys.goto_pc_self _ _ _
    simp [recvStep, hPc, s₃]
  have h₄ : step cfg s₃ ⟨.recv 0, quietInput⟩ = some s₄ := by
    refine step_recv ht h.running ?_
    have hPc : s₃.pc (.recv 0) = .testCb other := Sys.goto_pc_self _ _ _
    have hCb : s₃.mnt.reqCb other = some .null := h.cb
    simp [recvStep, hPc, hCb, s₄]
  have hPlan : Job.null.cb cfg.xdr s₄.mnt other 0 = plan := by
    have hMsg : s₄.mnt.reqMsg other = s₂.buf 0 := Function.update_self _ _ _
    have hStat : s₄.mnt.msgStat (s₂.buf 0) = RPC_SUCCESS := Function.update_self _ _ _
    have hStop : s₄.mnt.reqTscStop other = 0 := Function.update_self _ _ _
    have hFinish : ¬ s₄.mnt.reqTscFinish other ≤ 0 := UInt64.not_le.mpr h.finish
    simp [Job.cb, testNullCb, hMsg, hStat, hStop, hFinish, plan]
  have h₅ : step cfg s₄ ⟨.recv 0, quietInput⟩ = some s₅ := by
    refine step_recv ht h.running ?_
    have hPc : s₄.pc (.recv 0) = .callback other .null := Sys.goto_pc_self _ _ _
    simp [recvStep, hPc, hPlan, s₅, quietInput]
  have hHears : Answers s ⟨.recv 0, { quietInput with reply := some rep }⟩ := by
    simpa [Answers, h.idle] using h.answer
  refine ⟨s₅, ?_, ?_, rfl⟩
  · exact ((((Run.nil.snoc hHears h₁).snoc (answers_quiet _) h₂).snoc (answers_quiet _) h₃).snoc
      (answers_quiet _) h₄).snoc (answers_quiet _) h₅
  · exact {
      running := h.running
      call := Sys.goto_pc_self _ _ _
      differ := h.differ
      waits := Finset.mem_erase.mpr ⟨h.differ, h.waits⟩
      lateXid := h.lateXid
      cb := h.cb
      finish := h.finish }

/-- The other request is sent under the next xid. -/
theorem Resends.send {s : Sys} {late other : ReqId} (h : Resends s late other) :
    ∃ s', Run (step cfg) Answers s s' ∧ Spins s' late other s.mnt.sendXid ∧
      s'.mnt.sendXid = s.mnt.sendXid + 11 := by
  let s₁ := { s with mnt := { s.mnt with reqTscStart := update s.mnt.reqTscStart other 0 } }.goto
    (.recv 0) (.call .callback other ⟨[.encode .null], .send, .value 0⟩ ⟨0, 0⟩)
  let s₂ := { s₁ with mnt := { s₁.mnt with
      msgLen := update s₁.mnt.msgLen (s₁.mnt.reqMsg other) (cfg.encLen .null) } }.goto
    (.recv 0) (.call .callback other ⟨[], .send, .value 0⟩ ⟨0, 0⟩)
  let s₃ := (s₂.send .callback other true).goto (.recv 0)
    (.check .callback other (.value 0) (some (s₂.mnt.msgLen (s₂.mnt.reqMsg other))))
  let s₄ := s₃.goto (.recv 0) (.back .callback other (.value 0) false)
  let s₅ := s₄.goto (.recv 0) (.returned 0 false)
  let s₆ := (s₅.settle 0 false).goto (.recv 0) .idle
  have h₁ : step cfg s ⟨.recv 0, quietInput⟩ = some s₁ := by
    refine step_recv ht h.running ?_
    simp [recvStep, callStep, h.call, Sys.prepare, s₁, quietInput]
  have h₂ : step cfg s₁ ⟨.recv 0, quietInput⟩ = some s₂ := by
    refine step_recv ht h.running ?_
    have hPc : s₁.pc (.recv 0) = .call .callback other ⟨[.encode .null], .send, .value 0⟩ ⟨0, 0⟩ :=
      Sys.goto_pc_self _ _ _
    simp [recvStep, callStep, hPc, Sys.prepare, s₂]
  have h₃ : step cfg s₂ ⟨.recv 0, quietInput⟩ = some s₃ := by
    refine step_recv ht h.running ?_
    have hPc : s₂.pc (.recv 0) = .call .callback other ⟨[], .send, .value 0⟩ ⟨0, 0⟩ :=
      Sys.goto_pc_self _ _ _
    simp [recvStep, callStep, hPc, s₃, quietInput]
  have h₄ : step cfg s₃ ⟨.recv 0, quietInput⟩ = some s₄ := by
    refine step_recv ht h.running ?_
    have hPc : s₃.pc (.recv 0) =
      .check .callback other (.value 0) (some (s₂.mnt.msgLen (s₂.mnt.reqMsg other))) :=
      Sys.goto_pc_self _ _ _
    have hLen : s₃.mnt.msgLen (s₃.mnt.reqMsg other) = s₂.mnt.msgLen (s₂.mnt.reqMsg other) := rfl
    simp [recvStep, callStep, hPc, hLen, s₄]
  have h₅ : step cfg s₄ ⟨.recv 0, quietInput⟩ = some s₅ := by
    refine step_recv ht h.running ?_
    have hPc : s₄.pc (.recv 0) = .back .callback other (.value 0) false := Sys.goto_pc_self _ _ _
    simp [recvStep, hPc, Ret.eval, s₅]
  have h₆ : step cfg s₅ ⟨.recv 0, quietInput⟩ = some s₆ := by
    refine step_recv ht h.running ?_
    have hPc : s₅.pc (.recv 0) = .returned 0 false := Sys.goto_pc_self _ _ _
    simp [recvStep, hPc, s₆]
  refine ⟨s₆, ?_, ?_, rfl⟩
  · exact (((((Run.nil.snoc (answers_quiet _) h₁).snoc (answers_quiet _) h₂).snoc
      (answers_quiet _) h₃).snoc (answers_quiet _) h₄).snoc (answers_quiet _) h₅).snoc
      (answers_quiet _) h₆
  · exact {
      running := h.running
      idle := Sys.goto_pc_self _ _ _
      differ := h.differ
      waits := Finset.mem_insert_of_mem h.waits
      lateXid := (Function.update_of_ne h.differ _ _).trans h.lateXid
      answer := List.mem_cons_self
      table := Function.update_self _ _ _
      otherXid := Function.update_self _ _ _
      cb := h.cb
      finish := h.finish }

/-- The other job can go round any number of times. -/
theorem Spins.rounds {s : Sys} {late other : ReqId} {xid : UInt32} (h : Spins s late other xid)
    (hNext : s.mnt.sendXid = xid + 11) (n : Nat) :
    ∃ s', Run (step cfg) Answers s s' ∧ Spins s' late other (xid + 11 * UInt32.ofNat n) ∧
      s'.mnt.sendXid = xid + 11 * UInt32.ofNat n + 11 := by
  induction n with
  | zero => exact ⟨s, .nil, by simpa using h, by simpa using hNext⟩
  | succ n ih =>
      obtain ⟨s₁, hRun₁, hSpins, hXid₁⟩ := ih
      obtain ⟨s₂, hRun₂, hResends, hXid₂⟩ := hSpins.hear ht
      obtain ⟨s₃, hRun₃, hNextSpins, hXid₃⟩ := hResends.send ht
      have hStride : xid + 11 * UInt32.ofNat n + 11 = xid + 11 * UInt32.ofNat (n + 1) := by
        rw [UInt32.ofNat_add, UInt32.mul_add, UInt32.add_assoc]
        rfl
      refine ⟨s₃, (hRun₁.trans hRun₂).trans hRun₃, ?_, ?_⟩
      · rwa [hXid₂, hXid₁, hStride] at hNextSpins
      · rw [hXid₃, hXid₂, hXid₁, hStride]

end

/-- Main sends two jobs. -/
def bothSentSteps : List Act :=
  mountSteps 1 getattrBody ++ (Agent.recv 0).steps 2 ++ Agent.main.steps 21

/-- With two jobs, one can be sent 1024 times while the reply to the other is
delayed, and then takes its slot. -/
theorem slots_hold_delayed :
    ¬ ∀ (cfg : Cfg) (s : Sys), cfg.jobsMax ≤ 2 → Run (step cfg) Answers Sys.boot s →
      ∀ r ∈ s.inFlight, s.mnt.reqTbl (slot (s.mnt.reqXid r)) = some r := by
  intro h
  let late : ReqId := ⟨1023, by decide⟩
  let other : ReqId := ⟨1021, by decide⟩
  obtain ⟨s, hRun, hHalted, hIdle, hWaits, hLate, hNet, hTbl, hOther, hCb, hFinish, hNext⟩ : ∃ s,
      Run (step (oneThread .null 2)) Answers Sys.boot s ∧
      s.halted = none ∧ s.pc (.recv 0) = .idle ∧ late ∈ s.inFlight ∧ s.mnt.reqXid late = 11 ∧
      22 ∈ s.net ∧ s.mnt.reqTbl (slot 22) = some other ∧ s.mnt.reqXid other = 22 ∧
      s.mnt.reqCb other = some .null ∧ 0 < s.mnt.reqTscFinish other ∧ s.mnt.sendXid = 33 :=
    Run.of_exec_any bothSentSteps (by decide +kernel)
  have hSpins : Spins s late other 22 :=
    ⟨hHalted, hIdle, by decide, hWaits, hLate, hNet, hTbl, hOther, hCb, hFinish⟩
  have hTd : 0 < (oneThread .null 2).tdsMax := by decide
  obtain ⟨s', hRounds, hEnd, -⟩ := hSpins.rounds hTd hNext 1023
  have hHere := h (oneThread .null 2) s' (by decide) (hRun.trans hRounds) late hEnd.waits
  have hSame : slot (s'.mnt.reqXid late) = slot (22 + 11 * UInt32.ofNat 1023) := by
    rw [hEnd.lateXid]
    decide
  rw [hSame, hEnd.table] at hHere
  exact hEnd.differ (Option.some.inj hHere).symm

end Nct
