import Nct.Link
import Nct.Slots
import Nct.Support.Strides

/-! The xids that successive calls of `nct_req_send` give out, and the slots of the
table that they use, across the wrap-around of the 32-bit counter. -/
namespace Nct

open Transition (Run)

/-- A call of `nct_req_send`: its request, and the xid that this is given. -/
structure SendCall where
  req : ReqId
  xid : UInt32

/-- The slot that the request is put in, and looked up in by the reply's xid. -/
def SendCall.slot (call : SendCall) : Nat := Nct.slot call.xid

def Mnt.sendCall (mnt : Mnt) (req : ReqId) : SendCall := ⟨req, (reqSend mnt req).reqXid req⟩

/-- What becomes of a mount on which `nct_req_send` is called, with the calls in
their order. Whatever else is done to it leaves `mnt_send_xid` alone. -/
inductive Sends (start : Mnt) : List SendCall → Mnt → Prop where
  | nil : Sends start [] start
  | other {calls : List SendCall} {mnt mnt' : Mnt} (prior : Sends start calls mnt)
      (hXid : mnt'.sendXid = mnt.sendXid) : Sends start calls mnt'
  | send {calls : List SendCall} {mnt : Mnt} (prior : Sends start calls mnt) (req : ReqId) :
      Sends start (calls ++ [mnt.sendCall req]) (reqSend mnt req)

section
variable {mnt mnt' mnt'' : Mnt} {calls calls' : List SendCall} {req : ReqId}

theorem sendCall_xid (mnt : Mnt) (req : ReqId) : (mnt.sendCall req).xid = mnt.sendXid :=
  Function.update_self _ _ _

theorem Sends.trans (first : Sends mnt calls mnt') (rest : Sends mnt' calls' mnt'') :
    Sends mnt (calls ++ calls') mnt'' := by
  induction rest with
  | nil => simpa using first
  | other prior hXid ih => exact ih.other hXid
  | send prior req ih =>
      rw [← List.append_assoc]
      exact ih.send req

/-- A call gives out the xid that is as many strides from the first as calls were
made before. -/
theorem Sends.older (sends : Sends mnt calls mnt') :
    Older mnt.sendXid mnt'.sendXid calls.length ∧
      ∀ i, (hi : i < calls.length) → Older mnt.sendXid calls[i].xid i := by
  induction sends with
  | nil =>
      refine ⟨?_, fun i hi => absurd hi (Nat.not_lt_zero i)⟩
      have := mnt.sendXid.toNat_lt
      simp only [Older, List.length_nil]
      omega
  | other prior hXid ih => exact ⟨hXid ▸ ih.1, ih.2⟩
  | @send calls mnt' prior req ih =>
      obtain ⟨hNext, hGiven⟩ := ih
      refine ⟨?_, fun i hi => ?_⟩
      · rw [List.length_append, List.length_singleton]
        exact hNext.succ
      · rcases Nat.lt_or_ge i calls.length with hLt | hGe
        · rw [List.getElem_append_left hLt]
          exact hGiven i hLt
        · have hLast : i = calls.length := by
            rw [List.length_append, List.length_singleton] at hi
            omega
          subst hLast
          rw [List.getElem_concat_length rfl, sendCall_xid]
          exact hNext

end

/-- A step of the program makes one call or none. -/
theorem step_sends {cfg : Cfg} {s s' : Sys} {act : Act} (hStep : step cfg s act = some s') :
    ∃ calls, Sends s.mnt calls s'.mnt := by
  obtain ⟨hCase, -⟩ := step_cases hStep
  generalize act.agent = a at hCase
  cases hCase with
  | @send _ fn req plan l hPc hPrep hGive => exact ⟨_, Sends.nil.send req⟩
  | @prepare _ fn req plan l l' p prep s'' hPc hPrep hDo =>
      exact ⟨[], Sends.nil.other (prepare_link hDo).sendXid⟩
  | @settle t rc freed hPc => exact ⟨[], Sends.nil.other (settle_link s rc freed).sendXid⟩
  | _ => exact ⟨[], Sends.nil.other rfl⟩

/-- So does a pass of a resend loop. -/
theorem resendSlot_sends {clock : Nat → UInt64} {complete : Nat → Bool} {i : Nat} {r r' : Resend}
    (h : resendSlot clock complete i r = .ok r') : ∃ calls, Sends r.mnt calls r'.mnt := by
  obtain ⟨req, -, ⟨-, rfl⟩ | ⟨-, -, hMnt, -⟩⟩ := resendSlot_eq_ok h
  · exact ⟨[], .nil⟩
  · have hStamped : Sends r.mnt [] (stampStop r.mnt req (clock i)) := Sends.nil.other rfl
    rw [hMnt]
    exact ⟨_, hStamped.send req⟩

theorem linkStep_sends {cfg : Cfg} {s s' : Link} {act : LinkAct} (hStep : linkStep cfg s act = some s') :
    ∃ calls, Sends s.sys.mnt calls s'.sys.mnt := by
  cases act with
  | go act =>
      simp only [linkStep] at hStep
      split at hStep
      · obtain ⟨sys, hSys, rfl⟩ := Option.map_eq_some_iff.mp hStep
        exact step_sends hSys
      · cases hStep
  | drop t =>
      simp only [linkStep] at hStep
      split at hStep
      · cases hStep
        exact ⟨[], Sends.nil.other rfl⟩
      · cases hStep
  | scan t now complete =>
      simp only [linkStep] at hStep
      split at hStep
      · cases hStep
      · split at hStep
        · cases hStep
        · split at hStep
          · split at hStep
            · cases hStep
              exact ⟨[], Sends.nil.other rfl⟩
            · next hSlot =>
                cases hStep
                exact resendSlot_sends hSlot
          · cases hStep
            exact ⟨[], .nil⟩

/-- Whatever the threads do, the calls that they make follow one another so. -/
theorem link_sends {cfg : Cfg} {ok : Link → LinkAct → Prop} {s s' : Link}
    (run : Run (linkStep cfg) ok s s') : ∃ calls, Sends s.sys.mnt calls s'.sys.mnt := by
  induction run with
  | nil => exact ⟨[], .nil⟩
  | @snoc mid last act prior hOk hStep ih =>
      obtain ⟨calls, hBefore⟩ := ih
      obtain ⟨calls', hLast⟩ := linkStep_sends hStep
      exact ⟨calls ++ calls', hBefore.trans hLast⟩

end Nct
