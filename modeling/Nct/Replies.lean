import Nct.Call
import Nct.Framing
import Nct.RecvLoop
import Nct.Support.OncReply

/-! Replies on the wire: from the stream that a server sends to what
`nct_req_recv_loop` looks up, through `nct_rpc_recv` and `nct_rpc_decode`. -/
namespace Nct

open Delivery
open OncRpc (ReplyHeader ReplyBody)
open Representation

/-- What a `clnt_stat` says of a reply. -/
def clntStat : ReplyBody → UInt32
  | .accepted _ .success => RPC_SUCCESS
  | .accepted _ .progUnavail => 8
  | .accepted _ (.progMismatch _ _) => 9
  | .accepted _ .procUnavail => 10
  | .accepted _ .garbageArgs => 11
  | .accepted _ .systemErr => 12
  | .denied (.rpcMismatch _ _) => 6
  | .denied (.authError _) => 7

/-- What `nct_rpc_decode` takes from libtirpc: `xdr_replymsg`, with `xdr_void` for
the results, and `_seterr_reply`. -/
structure ReplyTirpc extends Tirpc where
  xdrReplymsg : Decoder ReplyHeader
  seterrReply : ReplyHeader → UInt32

/-- A reply is read as the standard represents it, and each kind of reply has its
own `clnt_stat`. -/
structure ReplyTirpc.FollowsRfcs (lib : ReplyTirpc) : Prop where
  replymsg : ∀ h : ReplyHeader, Reads lib.xdrReplymsg h.bytes h
  seterr : ∀ h : ReplyHeader, lib.seterrReply h = clntStat h.body

/-- `nct_rpc_decode`: what it returns, and the header and what is left of the XDR
stream if it is decoded. -/
def rpcDecode (lib : ReplyTirpc) (buf : List UInt8) : UInt32 × Option (ReplyHeader × List UInt8) :=
  match lib.xdrReplymsg.run buf with
  | some (rpc, rest) => (lib.seterrReply rpc, some (rpc, rest))
  | none => (RPC_CANTDECODERES, none)

/-- The data of a message, with the length as `nct_rpc_decode` is given it. -/
def received (buf : List UInt8) (cc : Int) : List UInt8 := buf.take (cc % 2 ^ 32).toNat

def Turn.reply (lib : ReplyTirpc) (turn : Turn) : Option Reply :=
  match turn.path with
  | .decode cc =>
      match rpcDecode lib (received turn.after.buf cc) with
      | (stat, some (rpc, rest)) =>
          if stat = RPC_CANTDECODERES then none
          else some ⟨rpc.xid, stat, (cc % 2 ^ 64).toNat, rest⟩
      | (_, none) => none
  | _ => none

/-- A reply as a server sends it. Only a call that succeeded has results. -/
structure RpcReply where
  header : ReplyHeader
  results : List UInt8
  void : (∀ verf, header.body ≠ .accepted verf .success) → results = []
  short : (header.bytes ++ results).length < 2 ^ 31

def RpcReply.bytes (r : RpcReply) : List UInt8 := r.header.bytes ++ r.results

def RpcReply.fragment (r : RpcReply) : Fragment := ⟨r.bytes, r.short⟩

/-- The server does not accept the credential. -/
def RpcReply.AuthFails (r : RpcReply) : Prop := ∃ why, r.header.body = .denied (.authError why)

/-- The reply as the program has it. -/
def RpcReply.taken (r : RpcReply) : Reply :=
  ⟨r.header.xid, clntStat r.header.body, r.bytes.length, r.results⟩

/-- Only a reply of 20 bytes is too short for the receive loop. -/
theorem RpcReply.short_iff (r : RpcReply) :
    (r.AuthFails ∧ r.bytes.length = 20) ∨ (¬ r.AuthFails ∧ rpcmin ≤ r.bytes.length) := by
  rcases r.header.bytes_length with ⟨why, hBody, hLength⟩ | ⟨hBody, hLength⟩
  · have hVoid := r.void (by simp [hBody])
    exact Or.inl ⟨⟨why, hBody⟩, by rw [RpcReply.bytes, hVoid, List.append_nil, hLength]⟩
  · right
    refine ⟨fun ⟨why, hWhy⟩ => hBody why hWhy, ?_⟩
    rw [RpcReply.bytes, List.length_append, rpcmin]
    omega

theorem clntStat_ne (body : ReplyBody) : clntStat body ≠ RPC_CANTDECODERES := by
  cases body with
  | accepted verf stat => cases stat <;> simp [clntStat, RPC_SUCCESS, RPC_CANTDECODERES]
  | denied stat => cases stat <;> simp [clntStat, RPC_CANTDECODERES]

/-- No other reply than that to a call that succeeded is taken for one. -/
theorem clntStat_success {body : ReplyBody} (h : clntStat body = RPC_SUCCESS) :
    ∃ verf, body = .accepted verf .success := by
  cases body with
  | accepted verf stat =>
      cases stat with
      | success => exact ⟨verf, rfl⟩
      | _ => simp [clntStat, RPC_SUCCESS] at h
  | denied stat => cases stat <;> simp [clntStat, RPC_SUCCESS] at h

/-- A whole reply is decoded. -/
theorem rpcDecode_reply {lib : ReplyTirpc} (hLib : lib.FollowsRfcs) (r : RpcReply) :
    rpcDecode lib r.bytes = (clntStat r.header.body, some (r.header, r.results)) := by
  have hRead : lib.xdrReplymsg.run r.bytes = some (r.header, r.results) :=
    hLib.replymsg r.header r.results
  simp only [rpcDecode, hRead, hLib.seterr]

/-- A buffer into which the reply has been received. -/
theorem received_eq {buf : List UInt8} {r : RpcReply} (h : buf.take r.bytes.length = r.bytes) :
    received buf r.bytes.length = r.bytes := by
  have hShort : r.bytes.length < 2 ^ 31 := r.short
  have hLength : ((r.bytes.length : Int) % 2 ^ 32).toNat = r.bytes.length := by omega
  rw [received, hLength, h]

/-- What a turn makes of a reply that it has received. -/
theorem Turn.reply_of_delivers {lib : ReplyTirpc} (hLib : lib.FollowsRfcs) {s : Loop}
    {out : RecvOut} {r : RpcReply} (h : Delivers out r.fragment) :
    (r.AuthFails → (takeRecv s out).path = .reconnect) ∧
      (¬ r.AuthFails → (takeRecv s out).path = .decode r.bytes.length ∧
        (takeRecv s out).reply lib = some r.taken) := by
  obtain ⟨hResult, hBuf⟩ := h
  have hShort : r.bytes.length < 2 ^ 31 := r.short
  have hMin := belowMin_record (n := r.bytes.length) (by omega)
  have hPath : (takeRecv s out).path =
      if belowMin r.bytes.length then loopShort r.bytes.length else .decode r.bytes.length := by
    show out.result.path loopShort = _
    rw [hResult]
    rfl
  rcases r.short_iff with ⟨hFails, hLength⟩ | ⟨hFails, hLength⟩
  · refine ⟨fun _ => ?_, fun hNot => absurd hFails hNot⟩
    have hLess : r.bytes.length < rpcmin := by rw [hLength, rpcmin]; omega
    rw [hPath, if_pos (hMin.mpr hLess), hLength]
    rfl
  · refine ⟨fun hIs => absurd hIs hFails, fun _ => ?_⟩
    rw [if_neg fun hBelow => absurd (hMin.mp hBelow) (Nat.not_lt.mpr hLength)] at hPath
    refine ⟨hPath, ?_⟩
    have hBytes : received (takeRecv s out).after.buf r.bytes.length = r.bytes := received_eq hBuf
    have hLen : ((r.bytes.length : Int) % 2 ^ 64).toNat = r.bytes.length := by omega
    simp only [Turn.reply, hPath, hLen, hBytes, rpcDecode_reply hLib,
      if_neg (clntStat_ne r.header.body), RpcReply.taken]

/-- The mark word that `nct_rpc_recv` is given. -/
def Loop.markp (jobsMax : UInt32) (s : Loop) : Option UInt32 :=
  if jobsMax > 3 then some s.mnt.recvMark else none

/-- Turns of any receive threads, each with its own message, one after another
under `mnt_recv_mtx`. As long as replies are decoded, a turn finds the connection
and the mark as the turn before left them. -/
structure Turns (jobsMax : UInt32) (msgszMax : Nat) (loops : Nat → Loop) : Prop where
  buf : ∀ k, (loops k).buf.length = msgszMax
  first : (loops 0).mnt.recvMark = 0
  next : ∀ k cc, (recvTurn jobsMax msgszMax (loops k)).path = .decode cc →
    (loops (k + 1)).sock = (recvTurn jobsMax msgszMax (loops k)).after.sock ∧
      (loops (k + 1)).mnt.recvMark = (recvTurn jobsMax msgszMax (loops k)).after.mnt.recvMark

/-- A turn that decodes keeps the mark that was read ahead. -/
theorem takeRecv_mark {s : Loop} {out : RecvOut} {cc : Int}
    (h : (takeRecv s out).path = .decode cc) :
    (takeRecv s out).after.mnt.recvMark = out.markp.getD s.mnt.recvMark := by
  have hPath : out.result.path loopShort = .decode cc := h
  simp only [takeRecv, hPath]

section
variable {jobsMax : UInt32} {msgszMax : Nat} {loops : Nat → Loop} {records : List Fragment}
  (hTurns : Turns jobsMax msgszMax loops) (h64 : msgszMax < 2 ^ 64)
  (hFit : Fits msgszMax records) (hStream : ready (loops 0).sock.inbox = stream records)
  (hWhole : jobsMax > 3 ∨ ∀ k, ¬ MarkSizedTail records (loops 0).sock.inbox k)

include hTurns h64 hFit hStream hWhole

/-- In both modes each call delivers its record, and leaves a mark word or none as
it was given one. -/
theorem calls_deliver {k : Nat} (hk : k < records.length) :
    let start := ((loops 0).markp jobsMax, (loops 0).sock)
    Delivers (nthCall msgszMax (fun k => (loops k).buf) start k) records[k] ∧
      (nthCall msgszMax (fun k => (loops k).buf) start k).markp.isSome = decide (jobsMax > 3) := by
  intro start
  by_cases hMode : jobsMax > 3
  · have hStart : start = (some 0, (loops 0).sock) := by
      simp only [start, Loop.markp, if_pos hMode, hTurns.first]
    obtain ⟨hDelivers, hMarks⟩ := readAhead_framing msgszMax (fun k => (loops k).buf) records
      (loops 0).sock h64 hTurns.buf hFit hStream
    obtain ⟨w, left, hAfter, -⟩ := hMarks (k + 1) hk
    rw [hStart]
    refine ⟨hDelivers k hk, ?_⟩
    have hMark :
        (nthCall msgszMax (fun k => (loops k).buf) (some 0, (loops 0).sock) k).markp = some w :=
      congrArg Prod.fst hAfter
    simp [hMark, hMode]
  · have hStart : start = (none, (loops 0).sock) := by
      simp only [start, Loop.markp, if_neg hMode]
    have hCut := hWhole.resolve_left hMode
    have hDelivers := (plain_framing msgszMax (fun k => (loops k).buf) records (loops 0).sock h64
      hTurns.buf hFit hStream).mpr hCut
    obtain ⟨calls, hAfter⟩ := plain_position h64 hTurns.buf hFit hStream (k := k + 1) hk
      fun j _ => hCut j
    rw [hStart]
    refine ⟨(hDelivers k hk).1, ?_⟩
    have hMark :
        (nthCall msgszMax (fun k => (loops k).buf) (none, (loops 0).sock) k).markp = none :=
      congrArg Prod.fst hAfter
    simp [hMark, hMode]

/-- While replies are decoded, the turns make these calls. -/
theorem turns_call {k : Nat} (hk : k ≤ records.length)
    (hDecodes : ∀ j < k, ∃ cc, (recvTurn jobsMax msgszMax (loops j)).path = .decode cc) :
    afterCalls msgszMax (fun k => (loops k).buf) ((loops 0).markp jobsMax, (loops 0).sock) k =
      ((loops k).markp jobsMax, (loops k).sock) := by
  induction k with
  | zero => rfl
  | succ k ih =>
      have hNow := ih (by omega) fun j hj => hDecodes j (by omega)
      obtain ⟨-, hMark⟩ := calls_deliver hTurns h64 hFit hStream hWhole (k := k) (by omega)
      obtain ⟨cc, hPath⟩ := hDecodes k (by omega)
      obtain ⟨hSock, hNext⟩ := hTurns.next k cc hPath
      let out := rpcRecv (loops k).sock (loops k).buf msgszMax ((loops k).markp jobsMax)
      have hCall : nthCall msgszMax (fun k => (loops k).buf)
          ((loops 0).markp jobsMax, (loops 0).sock) k = out := by
        rw [nthCall, hNow]
      have hKept : (loops (k + 1)).mnt.recvMark = out.markp.getD (loops k).mnt.recvMark :=
        hNext.trans (takeRecv_mark hPath)
      have hAfter : (loops (k + 1)).markp jobsMax = out.markp := by
        rw [hCall] at hMark
        rw [Loop.markp, hKept]
        cases hWord : out.markp with
        | none => rw [if_neg (by simpa [hWord] using hMark)]
        | some w => rw [if_pos (by simpa [hWord] using hMark), Option.getD_some]
      rw [afterCalls, hNow]
      exact Prod.ext hAfter.symm hSock.symm

end

/-- However a server's replies are cut up on their way, and whichever threads take
turns to receive them: up to the first that denies a credential, each turn has the
next reply with its xid, the `clnt_stat` of its kind, its length and its results.
That one, of 20 bytes, is taken for the end of the connection, and the program
connects again. Without read-ahead this is so where no segment ends four bytes
before the end of a reply. -/
theorem replies_taken {lib : ReplyTirpc} (hLib : lib.FollowsRfcs) (jobsMax : UInt32)
    (replies : List RpcReply) (loops : Nat → Loop)
    (hFit : ∀ r ∈ replies, r.bytes.length + marksz ≤ NCT_MSGSZ_MAX lib.toTirpc)
    (hTurns : Turns jobsMax (NCT_MSGSZ_MAX lib.toTirpc) loops)
    (hStream : ready (loops 0).sock.inbox = stream (replies.map RpcReply.fragment))
    (hWhole : jobsMax > 3 ∨
      ∀ k, ¬ MarkSizedTail (replies.map RpcReply.fragment) (loops 0).sock.inbox k) :
    ∀ k (hk : k < replies.length), (∀ j (hj : j < k), ¬ replies[j].AuthFails) →
      let turn := recvTurn jobsMax (NCT_MSGSZ_MAX lib.toTirpc) (loops k)
      (replies[k].AuthFails → turn.path = .reconnect) ∧
        (¬ replies[k].AuthFails →
          turn.path = .decode replies[k].bytes.length ∧
            turn.reply lib = some replies[k].taken) := by
  have h64 : NCT_MSGSZ_MAX lib.toTirpc < 2 ^ 64 := lt_of_le_of_lt (Nat.sub_le ..) (by decide)
  have hFits : Fits (NCT_MSGSZ_MAX lib.toTirpc) (replies.map RpcReply.fragment) := by
    intro f hf
    obtain ⟨r, hr, rfl⟩ := List.mem_map.mp hf
    refine ⟨?_, hFit r hr⟩
    show 1 ≤ r.bytes.length
    rcases r.short_iff with ⟨-, hLength⟩ | ⟨-, hLength⟩
    · omega
    · exact le_trans (by decide) hLength
  intro k
  induction k using Nat.strong_induction_on with
  | _ k ih =>
      intro hk hBefore turn
      have hLength : k < (replies.map RpcReply.fragment).length := by simpa using hk
      -- the turns before this one have decoded their replies
      have hDecodes : ∀ j < k, ∃ cc,
          (recvTurn jobsMax (NCT_MSGSZ_MAX lib.toTirpc) (loops j)).path = .decode cc := fun j hj =>
        ⟨_, ((ih j hj (by omega) fun i hi => hBefore i (by omega)).2 (hBefore j hj)).1⟩
      have hCalls := turns_call hTurns h64 hFits hStream hWhole hLength.le hDecodes
      obtain ⟨hDelivers, -⟩ := calls_deliver hTurns h64 hFits hStream hWhole hLength
      have hFragment : (replies.map RpcReply.fragment)[k] = replies[k].fragment :=
        List.getElem_map _
      rw [nthCall, hCalls, hFragment] at hDelivers
      exact Turn.reply_of_delivers hLib hDelivers

def rfcReplyTirpc : ReplyTirpc where
  toTirpc := rfcTirpc
  xdrReplymsg := OncRpc.getReply
  seterrReply h := clntStat h.body

theorem rfcReplyTirpc_follows : rfcReplyTirpc.FollowsRfcs where
  replymsg h := h.reads
  seterr _ := rfl

/-- Turns that each start with a cleared message. -/
def clearedTurns (jobsMax : UInt32) (msgszMax : Nat) (s : Loop) : Nat → Loop
  | 0 => { s with buf := List.replicate msgszMax 0 }
  | k + 1 =>
      { (recvTurn jobsMax msgszMax (clearedTurns jobsMax msgszMax s k)).after with
        buf := List.replicate msgszMax 0 }

theorem clearedTurns_turns (jobsMax : UInt32) (msgszMax : Nat) {s : Loop} (h : s.mnt.recvMark = 0) :
    Turns jobsMax msgszMax (clearedTurns jobsMax msgszMax s) where
  buf k := by cases k <;> exact List.length_replicate
  first := h
  next _ _ _ := ⟨rfl, rfl⟩

def mixedReplies : List RpcReply :=
  [⟨⟨7, .accepted nullAuth .success⟩, [0, 0, 0, 0], by simp, by decide⟩,
    ⟨⟨18, .denied (.authError 5)⟩, [], fun _ => rfl, by decide⟩]

theorem replies_taken_mixed :
    let start : Loop := ⟨Mnt.zero, ⟨push (stream (mixedReplies.map RpcReply.fragment)) [], []⟩, []⟩
    let turns := clearedTurns 4 (NCT_MSGSZ_MAX rfcTirpc) start
    (recvTurn 4 (NCT_MSGSZ_MAX rfcTirpc) (turns 0)).reply rfcReplyTirpc =
        some ⟨7, RPC_SUCCESS, 28, [0, 0, 0, 0]⟩ ∧
      (recvTurn 4 (NCT_MSGSZ_MAX rfcTirpc) (turns 1)).path = .reconnect := by
  intro start turns
  have hFit : ∀ r ∈ mixedReplies, r.bytes.length + marksz ≤ NCT_MSGSZ_MAX rfcTirpc := by decide
  have hStream : ready (turns 0).sock.inbox = stream (mixedReplies.map RpcReply.fragment) := by
    apply (ready_push (stream (mixedReplies.map RpcReply.fragment)) []).trans
    exact List.append_nil _
  have hTaken := replies_taken rfcReplyTirpc_follows 4 mixedReplies turns hFit
    (clearedTurns_turns 4 _ rfl) hStream (Or.inl (by decide))
  have hFirst : ¬ mixedReplies[0].AuthFails := by
    rintro ⟨why, hWhy⟩
    cases hWhy
  refine ⟨((hTaken 0 (by decide) (by simp)).2 hFirst).2, (hTaken 1 (by decide) ?_).1 ⟨5, rfl⟩⟩
  intro j hj
  obtain rfl : j = 0 := by omega
  exact hFirst

end Nct
