import Nct.Support.OncRpc

/-! Reply messages of ONC RPC: a server accepts a call, whatever then becomes of
it, or denies it. The results of a call that succeeded follow the header. -/
namespace OncRpc

open Representation

def replyType : UInt32 := 1

inductive AcceptStat where
  | success
  | progUnavail
  | progMismatch (low high : UInt32)
  | procUnavail
  | garbageArgs
  | systemErr
  deriving DecidableEq, Repr

inductive RejectStat where
  | rpcMismatch (low high : UInt32)
  | authError (why : UInt32)
  deriving DecidableEq, Repr

inductive ReplyBody where
  | accepted (verf : OpaqueAuth) (stat : AcceptStat)
  | denied (stat : RejectStat)
  deriving DecidableEq, Repr

structure ReplyHeader where
  xid : UInt32
  body : ReplyBody
  deriving DecidableEq, Repr

def AcceptStat.bytes : AcceptStat → List UInt8
  | .success => word 0
  | .progUnavail => word 1
  | .progMismatch low high => word 2 ++ (word low ++ word high)
  | .procUnavail => word 3
  | .garbageArgs => word 4
  | .systemErr => word 5

def RejectStat.bytes : RejectStat → List UInt8
  | .rpcMismatch low high => word 0 ++ (word low ++ word high)
  | .authError why => word 1 ++ word why

def ReplyBody.bytes : ReplyBody → List UInt8
  | .accepted verf stat => word 0 ++ (verf.bytes ++ stat.bytes)
  | .denied stat => word 1 ++ stat.bytes

def ReplyHeader.bytes (h : ReplyHeader) : List UInt8 :=
  word h.xid ++ (word replyType ++ h.body.bytes)

def getAcceptStat : Parser AcceptStat := do
  let stat ← getWord
  if stat = 0 then return .success
  else if stat = 1 then return .progUnavail
  else if stat = 2 then
    let low ← getWord
    let high ← getWord
    return .progMismatch low high
  else if stat = 3 then return .procUnavail
  else if stat = 4 then return .garbageArgs
  else if stat = 5 then return .systemErr
  else failure

def getRejectStat : Parser RejectStat := do
  let stat ← getWord
  if stat = 0 then
    let low ← getWord
    let high ← getWord
    return .rpcMismatch low high
  else if stat = 1 then
    let why ← getWord
    return .authError why
  else failure

def getReplyBody : Parser ReplyBody := do
  let stat ← getWord
  if stat = 0 then
    let verf ← getAuth
    let stat ← getAcceptStat
    return .accepted verf stat
  else if stat = 1 then
    let stat ← getRejectStat
    return .denied stat
  else failure

/-- A message of another type than REPLY is not a reply. -/
def getReply : Parser ReplyHeader := do
  let xid ← getWord
  let type ← getWord
  ensure (type = replyType)
  let body ← getReplyBody
  return { xid, body }

theorem AcceptStat.reads (stat : AcceptStat) : Reads getAcceptStat stat.bytes stat := by
  cases stat with
  | progMismatch low high =>
      exact (reads_word 2).bind ((reads_word low).bind ((reads_word high).map _))
  | success => exact (reads_word 0).bind_last (Reads.pure _)
  | progUnavail => exact (reads_word 1).bind_last (Reads.pure _)
  | procUnavail => exact (reads_word 3).bind_last (Reads.pure _)
  | garbageArgs => exact (reads_word 4).bind_last (Reads.pure _)
  | systemErr => exact (reads_word 5).bind_last (Reads.pure _)

theorem RejectStat.reads (stat : RejectStat) : Reads getRejectStat stat.bytes stat := by
  cases stat with
  | rpcMismatch low high =>
      exact (reads_word 0).bind ((reads_word low).bind ((reads_word high).map _))
  | authError why => exact (reads_word 1).bind ((reads_word why).map _)

theorem ReplyBody.reads (body : ReplyBody) : Reads getReplyBody body.bytes body := by
  cases body with
  | accepted verf stat => exact (reads_word 0).bind (verf.reads.bind (stat.reads.map _))
  | denied stat => exact (reads_word 1).bind (stat.reads.map _)

theorem ReplyHeader.reads (h : ReplyHeader) : Reads getReply h.bytes h := by
  refine (reads_word h.xid).bind ((reads_word replyType).bind ?_)
  exact Reads.bind_nil (reads_ensure rfl) (h.body.reads.map _)

/-- A reply takes up 24 bytes or more, but for the denial of a credential. -/
theorem ReplyHeader.bytes_length (h : ReplyHeader) :
    (∃ why, h.body = .denied (.authError why) ∧ h.bytes.length = 20) ∨
      (∀ why, h.body ≠ .denied (.authError why)) ∧ 24 ≤ h.bytes.length := by
  obtain ⟨xid, body⟩ := h
  cases body with
  | accepted verf stat =>
      right
      refine ⟨by simp, ?_⟩
      have hStat : 4 ≤ stat.bytes.length := by cases stat <;> simp [AcceptStat.bytes]
      simp only [ReplyHeader.bytes, ReplyBody.bytes, OpaqueAuth.bytes, counted_length,
        List.length_append, word_length]
      omega
  | denied stat =>
      cases stat with
      | rpcMismatch low high =>
          right
          simp [ReplyHeader.bytes, ReplyBody.bytes, RejectStat.bytes]
      | authError why =>
          left
          exact ⟨why, rfl, by simp [ReplyHeader.bytes, ReplyBody.bytes, RejectStat.bytes]⟩

end OncRpc
