import Nct.Xdr
import Nct.Support.Linked

/-! The mount object with its pool of requests, and the operations of
`nct_req.c` on it. A field of `nct_req_t` or `nct_msg_t` is a table over all
requests or messages; the struct itself is its position in the pool. -/
namespace Nct

/-- Max number of NFS requests. -/
def NCT_REQ_MAX : Nat := 1024

/-- `nct_req_t *`, as its position in the pool. -/
abbrev ReqId := Fin NCT_REQ_MAX

/-- `nct_msg_t *`, as its position in the message area. -/
abbrev MsgId := Nat

/-- The callback of a request: one for each test. -/
inductive Job where
  | null
  | getattr
  | read
  deriving DecidableEq, Repr

def RPC_SUCCESS : UInt32 := 0

def RPC_CANTDECODERES : UInt32 := 2

/-- What the receive threads and main share through `nct_mnt_t`. `msgBody` is
what a message's XDR stream has left once the RPC header is decoded, and
`wrShut` tells whether the write side of the connection has been shut down. -/
structure Mnt where
  sendXid : UInt32
  recvMark : UInt32
  reqHead : Option ReqId
  reqTbl : Nat → Option ReqId
  jobsCnt : UInt32
  fattrSize : UInt64
  wrShut : Bool
  reqMsg : ReqId → MsgId
  reqXid : ReqId → UInt32
  reqCb : ReqId → Option Job
  reqDone : ReqId → Bool
  reqTscStart : ReqId → UInt64
  reqTscStop : ReqId → UInt64
  reqTscFinish : ReqId → UInt64
  reqNext : ReqId → Option ReqId
  msgStat : MsgId → UInt32
  msgLen : MsgId → Nat
  msgBody : MsgId → List UInt8

/-- The mount object after its `memset`, over memory fresh from `mmap`. -/
def Mnt.zero : Mnt where
  sendXid := 0
  recvMark := 0
  reqHead := none
  reqTbl := fun _ => none
  jobsCnt := 0
  fattrSize := 0
  wrShut := false
  reqMsg := fun _ => 0
  reqXid := fun _ => 0
  reqCb := fun _ => none
  reqDone := fun _ => false
  reqTscStart := fun _ => 0
  reqTscStop := fun _ => 0
  reqTscFinish := fun _ => 0
  reqNext := fun _ => none
  msgStat := fun _ => 0
  msgLen := fun _ => 0
  msgBody := fun _ => []

open Function (update)

/-- The body of the loop in `nct_req_create`. -/
def Mnt.createReq (mnt : Mnt) (i : ReqId) : Mnt :=
  { mnt with
    reqMsg := update mnt.reqMsg i i
    reqNext := update mnt.reqNext i mnt.reqHead
    reqHead := some i }

/-- The first `n` passes of that loop. -/
def Mnt.createReqs (mnt : Mnt) : (n : Nat) → n ≤ NCT_REQ_MAX → Mnt
  | 0, _ => mnt
  | n + 1, h => (mnt.createReqs n (Nat.le_of_succ_le h)).createReq ⟨n, h⟩

def reqCreate (mnt : Mnt) : Mnt := mnt.createReqs NCT_REQ_MAX (Nat.le_refl _)

/-- `req` leaves the head of the free list. -/
def popReq (mnt : Mnt) (req : ReqId) : Mnt :=
  { mnt with
    reqHead := mnt.reqNext req
    reqCb := update mnt.reqCb req none
    reqDone := update mnt.reqDone req false }

/-- `nct_req_alloc`; it blocks while the pool is empty. -/
def reqAlloc (mnt : Mnt) : Option (ReqId × Mnt) :=
  mnt.reqHead.map fun req => (req, popReq mnt req)

def reqFree (mnt : Mnt) (req : ReqId) : Mnt :=
  { mnt with
    reqNext := update mnt.reqNext req mnt.reqHead
    reqHead := some req }

def slot (xid : UInt32) : Nat := xid.toNat % NCT_REQ_MAX

/-- `nct_req_send` up to the unlock of `mnt_send_mtx`. -/
def reqSend (mnt : Mnt) (req : ReqId) : Mnt :=
  { mnt with
    reqDone := update mnt.reqDone req false
    sendXid := mnt.sendXid + 11
    reqTbl := update mnt.reqTbl (slot mnt.sendXid) (some req)
    reqXid := update mnt.reqXid req mnt.sendXid }

/-- A reply as `nct_rpc_decode` leaves it: the xid, the status, the length of
the record and the result that follows the RPC header. -/
structure Reply where
  xid : UInt32
  stat : UInt32
  len : Nat
  body : List UInt8
  deriving DecidableEq, Repr

/-- The receive loop clears the slot that a reply's xid maps to. -/
def clearSlot (mnt : Mnt) (xid : UInt32) : Mnt :=
  { mnt with reqTbl := update mnt.reqTbl (slot xid) none }

/-- The receive loop stamps the request it found there. -/
def stampStop (mnt : Mnt) (req : ReqId) (now : UInt64) : Mnt :=
  { mnt with reqTscStop := update mnt.reqTscStop req now }

/-- The receive loop fills in its message `msg`, gives it to the request in
exchange for the request's own, and sets `req_done`. -/
def exchange (mnt : Mnt) (req : ReqId) (msg : MsgId) (rep : Reply) : Mnt :=
  { mnt with
    msgLen := update mnt.msgLen msg rep.len
    msgStat := update mnt.msgStat msg rep.stat
    msgBody := update mnt.msgBody msg rep.body
    reqMsg := update mnt.reqMsg req msg
    reqDone := update mnt.reqDone req true }

open Linked (Chain)

/-- The pool is chained through `req_next` in the order of allocation. -/
theorem createReqs_chain (n : Nat) (h : n ≤ NCT_REQ_MAX) :
    ∃ free, Chain (Mnt.zero.createReqs n h).reqNext (Mnt.zero.createReqs n h).reqHead free ∧
      ∀ r ∈ free, r.val < n := by
  induction n with
  | zero => exact ⟨[], rfl, by simp⟩
  | succ n ih =>
      obtain ⟨free, hChain, hBound⟩ := ih (Nat.le_of_succ_le h)
      refine ⟨⟨n, h⟩ :: free, hChain.push fun hMem => ?_, ?_⟩
      · exact Nat.lt_irrefl n (hBound _ hMem)
      · intro r hr
        rcases List.mem_cons.mp hr with rfl | hMem
        · exact Nat.lt_succ_self n
        · exact Nat.lt_succ_of_lt (hBound r hMem)

theorem createReqs_reqMsg (n : Nat) (h : n ≤ NCT_REQ_MAX) (r : ReqId) (hr : r.val < n) :
    (Mnt.zero.createReqs n h).reqMsg r = r := by
  induction n with
  | zero => exact absurd hr (Nat.not_lt_zero _)
  | succ n ih =>
      change update (Mnt.zero.createReqs n _).reqMsg ⟨n, h⟩ n r = r
      by_cases hn : r = ⟨n, h⟩
      · rw [hn, Function.update_self]
      · rw [Function.update_of_ne hn]
        have hne : r.val ≠ n := fun he => hn (Fin.ext he)
        exact ih (Nat.le_of_succ_le h) (by omega)

/-- What `nct_req_create` leaves alone. -/
theorem createReqs_rest (n : Nat) (h : n ≤ NCT_REQ_MAX) :
    Mnt.zero.createReqs n h =
      { Mnt.zero with
        reqMsg := (Mnt.zero.createReqs n h).reqMsg
        reqNext := (Mnt.zero.createReqs n h).reqNext
        reqHead := (Mnt.zero.createReqs n h).reqHead } := by
  induction n with
  | zero => rfl
  | succ n ih =>
      rw [Mnt.createReqs, ih (Nat.le_of_succ_le h)]
      rfl

/-- Every request starts with a message buffer of its own. -/
theorem reqCreate_reqMsg (r : ReqId) : (reqCreate Mnt.zero).reqMsg r = r :=
  createReqs_reqMsg _ _ r r.isLt

theorem reqCreate_chain :
    ∃ free, Chain (reqCreate Mnt.zero).reqNext (reqCreate Mnt.zero).reqHead free := by
  obtain ⟨free, hChain, -⟩ := createReqs_chain NCT_REQ_MAX (Nat.le_refl _)
  exact ⟨free, hChain⟩

/-- All requests are in the pool at first. -/
theorem reqCreate_all :
    ∃ free, Chain (reqCreate Mnt.zero).reqNext (reqCreate Mnt.zero).reqHead free ∧ ∀ r, r ∈ free := by
  have hAll : ∀ n (h : n ≤ NCT_REQ_MAX) free,
      Chain (Mnt.zero.createReqs n h).reqNext (Mnt.zero.createReqs n h).reqHead free →
      ∀ r : ReqId, r.val < n → r ∈ free := by
    intro n
    induction n with
    | zero => exact fun _ _ _ r hr => absurd hr (Nat.not_lt_zero _)
    | succ n ih =>
        intro h free hChain r hr
        obtain ⟨old, hOld, hBound⟩ := createReqs_chain n (Nat.le_of_succ_le h)
        have hPush := hOld.push (a := ⟨n, h⟩) fun hMem => Nat.lt_irrefl n (hBound _ hMem)
        rw [hChain.unique hPush, List.mem_cons]
        rcases Nat.lt_succ_iff_lt_or_eq.mp hr with hLess | hLast
        · exact Or.inr (ih _ old hOld r hLess)
        · exact Or.inl (Fin.ext hLast)
  obtain ⟨free, hChain⟩ := reqCreate_chain
  exact ⟨free, hChain, fun r => hAll _ _ free hChain r r.isLt⟩

end Nct
