import Nct.Races

/-! What every run keeps apart: free requests from those in the table, spare
requests from those in use, and the message buffers from one another. -/
namespace Nct

open Linked (Chain)
open Transition (Run)

/-- The request is the one a receive thread allocated for its spare buffer. -/
def Sys.IsSpare (s : Sys) (req : ReqId) : Prop := ∃ t, s.req0 t = some req

/-- Requests and message buffers are where they belong. Only the request of a
`call` can be sent or freed next. -/
structure Sys.Apart (s : Sys) : Prop where
  freeList : ∃ free, Chain s.mnt.reqNext s.mnt.reqHead free ∧ free.Nodup ∧
    ∀ req ∈ free, ∀ i, s.mnt.reqTbl i ≠ some req
  spare : ∀ req, s.IsSpare req → req ∉ s.inFlight ∧ (∀ i, s.mnt.reqTbl i ≠ some req) ∧
    ∀ a fn plan l, s.pc a ≠ .call fn req plan l
  threadBuffers : ∀ t u, s.req0 t ≠ none → s.req0 u ≠ none → s.buf t = s.buf u → t = u
  requestBuffers : ∀ req req', ¬ s.IsSpare req → ¬ s.IsSpare req' →
    s.mnt.reqMsg req = s.mnt.reqMsg req' → req = req'
  sharedBuffers : ∀ t req, s.req0 t ≠ none → ¬ s.IsSpare req → s.buf t ≠ s.mnt.reqMsg req

theorem Owned.apart {s : Sys} (h : Owned s) : s.Apart where
  freeList := by
    obtain ⟨free, hChain⟩ := h.chain
    refine ⟨free, hChain, hChain.nodup, fun req hFree i hTbl => ?_⟩
    exact Place.noConfusion
      (h.exclusive .pool .flight req ⟨free, hChain, hFree⟩ (h.table i req hTbl).1)
  spare req := by
    rintro ⟨t, ht⟩
    have hNotFlight : req ∉ s.inFlight := fun hMem =>
      Place.noConfusion (h.exclusive (.spare t) .flight req ht hMem)
    refine ⟨hNotFlight, fun i hTbl => hNotFlight (h.table i req hTbl).1, fun a fn plan l hPc => ?_⟩
    exact Place.noConfusion
      (h.held_ne (a := a) (p := .spare t) (by simp [hPc, Pc.holds]) ht)
  threadBuffers t u ht hu hBuf := by
    have hSame := h.buffers (.thread t) (.thread u) (s.buf u) ⟨ht, hBuf⟩ ⟨hu, rfl⟩
    injection hSame
  requestBuffers req req' hReq hReq' hMsg := by
    have hSame := h.buffers (.req req) (.req req') (s.mnt.reqMsg req')
      ⟨fun t ht => hReq ⟨t, ht⟩, hMsg⟩ ⟨fun t ht => hReq' ⟨t, ht⟩, rfl⟩
    injection hSame
  sharedBuffers t req ht hReq hBuf := by
    have hSame := h.buffers (.thread t) (.req req) (s.mnt.reqMsg req) ⟨ht, hBuf⟩
      ⟨fun u hu => hReq ⟨u, hu⟩, rfl⟩
    cases hSame

/-- A send finds its table slot empty. -/
def KeepsSlots (s : Sys) (act : Act) : Prop :=
  match s.pc act.agent with
  | .call _ _ plan _ =>
      plan.prep = [] → plan.give = .send → s.mnt.reqTbl (slot s.mnt.sendXid) = none
  | _ => True

instance (s : Sys) (act : Act) : Decidable (KeepsSlots s act) := by
  unfold KeepsSlots
  generalize s.pc act.agent = pc
  induction pc using Pc.casesOn <;> infer_instance

/-- Nothing arrives, and a send is complete; for fixed runs. -/
def quietInput : Input := ⟨0, none, true, 0⟩

def Agent.steps (a : Agent) (n : Nat) : List Act := List.replicate n ⟨a, quietInput⟩

def Agent.hears (a : Agent) (xid stat : UInt32) (body : List UInt8) : Act :=
  ⟨a, { quietInput with reply := some ⟨xid, stat, rpcmin + body.length, body⟩ }⟩

def getattrBody : List UInt8 := List.replicate 88 0

/-- Main sends its GETATTR, and the first of `tds` receive threads gets the
result and sets `req_done`. -/
def mountSteps (tds : Nat) (body : List UInt8) : List Act :=
  Agent.main.steps 6 ++ (List.range tds).flatMap (fun t => (Agent.recv t).steps 1) ++
    (Agent.recv 0).hears 0 RPC_SUCCESS body :: (Agent.recv 0).steps 2

def twoThreads : Cfg := ⟨.null, 1, 2, 4096, 1000, fun _ => 100, rfcInts⟩

/-- The first thread stays behind at its test of `req_cb` while main allocates
the request again and sends it as a job. Then it runs the callback of that job
and sends the request too. The second thread gets an error reply to this. -/
def staleSteps : List Act :=
  mountSteps 2 getattrBody ++ Agent.main.steps 13 ++ (Agent.recv 0).steps 8 ++
    (Agent.recv 1).hears 22 1 [] :: (Agent.recv 1).steps 5

/-- With no thread left behind, the same job is sent and its reply taken. -/
def plainSteps : List Act :=
  mountSteps 2 getattrBody ++ (Agent.recv 0).steps 2 ++ Agent.main.steps 13 ++
    (Agent.recv 1).hears 11 RPC_SUCCESS [] :: (Agent.recv 1).steps 5

end Nct
