import Nct.Jobs
import Nct.Support.Run
import Mathlib.Data.Finset.Erase
import Mathlib.Data.Finset.Insert

/-! The running program: main, which mounts and then starts the jobs, and the
receive threads. One step is one access to what they share, or the part of a
function between a lock and its unlock; to take up a reply is one step too, and
`Races` has its accesses one by one. The connection stays up: a receive gives a
whole record or end of file, and `Link` has the receive that fails. -/
namespace Nct

open Function (update)

/-- What the program is run with. `duration` is in clock cycles, `encLen` is the
length of an encoded call, and `xdr` is what decodes the numbers of a reply. -/
structure Cfg where
  job : Job
  jobsMax : UInt32
  tdsMax : Nat
  prLength : UInt64
  duration : UInt64
  encLen : Job → Nat
  xdr : XdrInts

inductive Agent where
  | main
  | recv (t : Nat)
  deriving DecidableEq, Repr

/-- The function whose plan is being carried out: `nct_mount` sending its
GETATTR, `nct_mount` freeing it, a start function, or a callback. -/
inductive Fn where
  | mount
  | mounted
  | start
  | callback
  deriving DecidableEq, Repr

structure Local where
  offset : UInt64
  loaded : UInt64
  deriving DecidableEq, Repr

inductive Pc where
  /-- `nct_req_alloc` of `req0` -/
  | boot
  /-- `nct_rpc_recv` -/
  | idle
  /-- a reply has been decoded -/
  | got (rep : Reply)
  /-- its request has been found -/
  | taken (req : ReqId) (rep : Reply)
  /-- `req_done` is set; `if (req->req_cb)` comes next -/
  | testCb (req : ReqId)
  | callback (req : ReqId) (job : Job)
  /-- the callback has returned `rc`; `freed` tells whether it freed its request -/
  | returned (rc : UInt32) (freed : Bool)
  /-- `shutdown(mnt->mnt_fd, SHUT_WR)` -/
  | shut
  /-- broadcast to `nct_req_wait` -/
  | wake
  | exited
  /-- `nct_mount` before its `nct_req_alloc` -/
  | mount
  /-- `nct_req_wait` -/
  | wait (req : ReqId)
  /-- `nct_mount` has its reply -/
  | decode (req : ReqId)
  /-- top of main's start loop -/
  | raise
  /-- `nct_req_alloc` in main's start loop -/
  | alloc
  | stats
  /-- inside a function that holds the request -/
  | call (fn : Fn) (req : ReqId) (plan : Plan) (l : Local)
  /-- `nct_req_send` before it compares; `none` if not all bytes were sent -/
  | check (fn : Fn) (req : ReqId) (ret : Ret) (cc : Option Nat)
  /-- about to return -/
  | back (fn : Fn) (req : ReqId) (ret : Ret) (freed : Bool)
  deriving DecidableEq, Repr

/-- The program's own ways to end early, and one it does not intend. -/
inductive Crash where
  | nullSlot
  | xidMismatch
  | sendCheck
  | cantDecode
  | mountFailed
  deriving DecidableEq, Repr

/-- The state of a run. `net` holds the xids of calls that the server has yet
to answer. The last five fields are history, which no step looks at: requests
sent whose reply has not been taken up, and how many jobs sent their first
request, ended, were refused, or ended with a callback that returned zero. -/
structure Sys where
  mnt : Mnt
  pc : Agent → Pc
  req0 : Nat → Option ReqId
  buf : Nat → MsgId
  prOffset : UInt64
  jobIdx : Nat
  net : List UInt32
  halted : Option Crash
  inFlight : Finset ReqId
  sent : Nat
  ended : Nat
  refused : Nat
  zeros : Nat

/-- What a step takes from outside: the clock, the next record on the
connection (`none` is end of file), whether a send is complete, and what an
uninitialised `res.status` holds. -/
structure Input where
  now : UInt64
  reply : Option Reply
  complete : Bool
  status : UInt32
  deriving DecidableEq, Repr

structure Act where
  agent : Agent
  input : Input
  deriving DecidableEq, Repr

/-- The threads have been created and none has run yet. -/
def Sys.boot : Sys where
  mnt := reqCreate Mnt.zero
  pc := fun a => match a with
    | .main => .mount
    | .recv _ => .boot
  req0 := fun _ => none
  buf := fun _ => 0
  prOffset := 0
  jobIdx := 0
  net := []
  halted := none
  inFlight := ∅
  sent := 0
  ended := 0
  refused := 0
  zeros := 0

def Sys.goto (s : Sys) (a : Agent) (pc : Pc) : Sys := { s with pc := update s.pc a pc }

def Sys.crash (s : Sys) (c : Crash) : Sys := { s with halted := some c }

def rpcmin : Nat := 24

/-- `offset + priv->pr_length > vn->xvn_fattr.size` -/
def Sys.pastEnd (s : Sys) (cfg : Cfg) (offset : UInt64) : Bool :=
  offset + cfg.prLength > s.mnt.fattrSize

/-- One operation of a plan; `none` when the start function returns EINVAL. -/
def Sys.prepare (s : Sys) (cfg : Cfg) (req : ReqId) (l : Local) (now : UInt64) :
    Prep → Option (Sys × Local)
  | .arm job =>
      some ({ s with mnt := { s.mnt with
        reqTscFinish := update s.mnt.reqTscFinish req (now + cfg.duration)
        reqCb := update s.mnt.reqCb req (some job) } }, l)
  | .fetchAdd =>
      some ({ s with prOffset := s.prOffset + cfg.prLength }, { l with offset := s.prOffset })
  | .refuse => if s.pastEnd cfg l.offset then none else some (s, l)
  | .load => some (s, if s.pastEnd cfg l.offset then { l with loaded := s.prOffset } else l)
  | .fetchSub =>
      if s.pastEnd cfg l.offset then
        some ({ s with prOffset := s.prOffset - l.loaded }, { l with offset := s.prOffset })
      else some (s, l)
  | .stamp =>
      some ({ s with mnt := { s.mnt with
        reqTscStart := update s.mnt.reqTscStart req now } }, l)
  | .encode job =>
      some ({ s with mnt := { s.mnt with
        msgLen := update s.mnt.msgLen (s.mnt.reqMsg req) (cfg.encLen job) } }, l)

/-- Receive thread `t` has allocated `req` and keeps its message buffer. -/
def Sys.bootThread (s : Sys) (t : Nat) (req : ReqId) (mnt : Mnt) : Sys :=
  { s with
    mnt
    req0 := update s.req0 t (some req)
    buf := update s.buf t (mnt.reqMsg req) }

def Sys.free (s : Sys) (req : ReqId) : Sys := { s with mnt := reqFree s.mnt req }

/-- `nct_req_send(req)` up to the unlock. -/
def Sys.send (s : Sys) (fn : Fn) (req : ReqId) (complete : Bool) : Sys :=
  { s with
    mnt := reqSend s.mnt req
    net := if complete then s.mnt.sendXid :: s.net else s.net
    inFlight := insert req s.inFlight
    sent := if fn = .start then s.sent + 1 else s.sent }

/-- The receive loop takes up the request it found. -/
def Sys.take (s : Sys) (req : ReqId) (rep : Reply) (now : UInt64) : Sys :=
  { s with
    mnt := stampStop (clearSlot s.mnt rep.xid) req now
    inFlight := s.inFlight.erase req }

/-- Receive thread `t` exchanges message buffers with the request. -/
def Sys.exchange (s : Sys) (t : Nat) (req : ReqId) (rep : Reply) : Sys :=
  { s with
    mnt := Nct.exchange s.mnt req (s.buf t) rep
    buf := update s.buf t (s.mnt.reqMsg req) }

/-- The receive loop counts out a job whose callback returned non-zero. -/
def Sys.settle (s : Sys) (rc : UInt32) (freed : Bool) : Sys :=
  { s with
    mnt := if rc = 0 then s.mnt else { s.mnt with jobsCnt := s.mnt.jobsCnt - 1 }
    ended := if freed then s.ended + 1 else s.ended
    zeros := if freed ∧ rc = 0 then s.zeros + 1 else s.zeros }

/-- A step inside a callback, a start function or `nct_mount`. -/
def callStep (cfg : Cfg) (s : Sys) (a : Agent) (input : Input) : Pc → Option Sys
  | .call fn req plan l =>
      match plan.prep with
      | p :: prep =>
          match s.prepare cfg req l input.now p with
          | some (s, l) => some (s.goto a (.call fn req { plan with prep } l))
          | none =>
              some ({ s with refused := s.refused + 1 }.goto a (.back fn req (.value EINVAL) false))
      | [] =>
          match plan.give with
          | .free => some ((s.free req).goto a (.back fn req plan.ret true))
          | .send =>
              let cc := if input.complete then some (s.mnt.msgLen (s.mnt.reqMsg req)) else none
              some ((s.send fn req input.complete).goto a (.check fn req plan.ret cc))
  | .check fn req ret cc =>
      if cc ≠ some (s.mnt.msgLen (s.mnt.reqMsg req)) then some (s.crash .sendCheck)
      else some (s.goto a (.back fn req ret false))
  | _ => none

/-- A step of `nct_req_recv_loop` in thread `t`. At `.got` it reads the slot, clears it
and takes the request in one step; `raceStep` does so in three. -/
def recvStep (cfg : Cfg) (s : Sys) (t : Nat) (input : Input) : Option Sys :=
  match s.pc (.recv t) with
  | .boot =>
      match reqAlloc s.mnt with
      | none => none
      | some (req, mnt) => some ((s.bootThread t req mnt).goto (.recv t) .idle)
  | .idle =>
      match input.reply with
      | none => some (s.goto (.recv t) .exited)
      | some rep =>
          if rep.len < rpcmin then none
          else if rep.stat = RPC_CANTDECODERES then some (s.crash .cantDecode)
          else some ({ s with net := s.net.erase rep.xid }.goto (.recv t) (.got rep))
  | .got rep =>
      match s.mnt.reqTbl (slot rep.xid) with
      | none => some (s.crash .nullSlot)
      | some req =>
          if s.mnt.reqXid req ≠ rep.xid then
            some ({ s with mnt := clearSlot s.mnt rep.xid }.crash .xidMismatch)
          else some ((s.take req rep input.now).goto (.recv t) (.taken req rep))
  | .taken req rep => some ((s.exchange t req rep).goto (.recv t) (.testCb req))
  | .testCb req =>
      match s.mnt.reqCb req with
      | none => some (s.goto (.recv t) .wake)
      | some job => some (s.goto (.recv t) (.callback req job))
  | .callback req job =>
      some (s.goto (.recv t) (.call .callback req (job.cb cfg.xdr s.mnt req input.status) ⟨0, 0⟩))
  | .back .callback req ret freed =>
      some (s.goto (.recv t)
        (.returned (ret.eval (s.mnt.msgStat (s.mnt.reqMsg req))) freed))
  | .returned rc freed =>
      let s := s.settle rc freed
      some (s.goto (.recv t) (if rc ≠ 0 ∧ s.mnt.jobsCnt = 0 then .shut else .idle))
  | .shut => some ({ s with mnt := { s.mnt with wrShut := true } }.goto (.recv t) .idle)
  | .wake => some (s.goto (.recv t) .idle)
  | pc => callStep cfg s (.recv t) input pc

/-- `nct_mount` gets the attributes of the file handle ... -/
def mountPlan : Plan := ⟨[.stamp, .encode .getattr], .send, .value 0⟩

/-- ... and frees the request when it has them. -/
def mountedPlan : Plan := ⟨[], .free, .value 0⟩

/-- A step of `nct_mount` and then of main's start loop. -/
def mainStep (cfg : Cfg) (s : Sys) (input : Input) : Option Sys :=
  match s.pc .main with
  | .mount =>
      match reqAlloc s.mnt with
      | none => none
      | some (req, mnt) =>
          some ({ s with mnt }.goto .main
            (.call .mount req mountPlan ⟨0, 0⟩))
  | .back .mount req _ _ => some (s.goto .main (.wait req))
  | .wait req => if s.mnt.reqDone req then some (s.goto .main (.decode req)) else none
  | .decode req =>
      if s.mnt.msgStat (s.mnt.reqMsg req) ≠ RPC_SUCCESS then some (s.crash .mountFailed)
      else
        match (xdrGetattr3Decode cfg.xdr input.status (s.mnt.msgBody (s.mnt.reqMsg req))).attributes with
        | none => some (s.crash .mountFailed)
        | some attributes =>
            some ({ s with mnt := { s.mnt with fattrSize := attributes.size } }.goto .main
              (.call .mounted req mountedPlan ⟨0, 0⟩))
  | .back .mounted _ _ _ => some (s.goto .main .raise)
  | .raise =>
      if s.jobIdx < cfg.jobsMax.toNat then
        some ({ s with mnt := { s.mnt with jobsCnt := s.mnt.jobsCnt + 1 } }.goto .main .alloc)
      else some (s.goto .main .stats)
  | .alloc =>
      match reqAlloc s.mnt with
      | none => none
      | some (req, mnt) =>
          some ({ s with mnt }.goto .main (.call .start req cfg.job.start ⟨0, 0⟩))
  | .back .start _ _ _ => some ({ s with jobIdx := s.jobIdx + 1 }.goto .main .raise)
  | pc => callStep cfg s .main input pc

/-- One step of the program; none is left once it has ended early. -/
def step (cfg : Cfg) (s : Sys) (act : Act) : Option Sys :=
  if s.halted.isSome then none
  else
    match act.agent with
    | .main => mainStep cfg s act.input
    | .recv t => if t < cfg.tdsMax then recvStep cfg s t act.input else none

/-- The steps one by one: what a step from `s` by an agent can do. -/
inductive Step (cfg : Cfg) (s : Sys) (input : Input) : Agent → Sys → Prop where
  | boot {t : Nat} {req : ReqId} (hPc : s.pc (.recv t) = .boot) (hHead : s.mnt.reqHead = some req) :
      Step cfg s input (.recv t) ((s.bootThread t req (popReq s.mnt req)).goto (.recv t) .idle)
  | eof {t : Nat} (hPc : s.pc (.recv t) = .idle) :
      Step cfg s input (.recv t) (s.goto (.recv t) .exited)
  | cantDecode {t : Nat} (hPc : s.pc (.recv t) = .idle) :
      Step cfg s input (.recv t) (s.crash .cantDecode)
  | reply {t : Nat} {rep : Reply} (hPc : s.pc (.recv t) = .idle) (hRep : input.reply = some rep) :
      Step cfg s input (.recv t) ({ s with net := s.net.erase rep.xid }.goto (.recv t) (.got rep))
  | nullSlot {t : Nat} {rep : Reply} (hPc : s.pc (.recv t) = .got rep)
      (hSlot : s.mnt.reqTbl (slot rep.xid) = none) :
      Step cfg s input (.recv t) (s.crash .nullSlot)
  | xidMismatch {t : Nat} {rep : Reply} {req : ReqId} (hPc : s.pc (.recv t) = .got rep)
      (hSlot : s.mnt.reqTbl (slot rep.xid) = some req) (hXid : s.mnt.reqXid req ≠ rep.xid) :
      Step cfg s input (.recv t) ({ s with mnt := clearSlot s.mnt rep.xid }.crash .xidMismatch)
  | take {t : Nat} {rep : Reply} {req : ReqId} (hPc : s.pc (.recv t) = .got rep)
      (hSlot : s.mnt.reqTbl (slot rep.xid) = some req) (hXid : s.mnt.reqXid req = rep.xid) :
      Step cfg s input (.recv t) ((s.take req rep input.now).goto (.recv t) (.taken req rep))
  | exchange {t : Nat} {rep : Reply} {req : ReqId} (hPc : s.pc (.recv t) = .taken req rep) :
      Step cfg s input (.recv t) ((s.exchange t req rep).goto (.recv t) (.testCb req))
  | noCb {t : Nat} {req : ReqId} (hPc : s.pc (.recv t) = .testCb req)
      (hCb : s.mnt.reqCb req = none) :
      Step cfg s input (.recv t) (s.goto (.recv t) .wake)
  | cb {t : Nat} {req : ReqId} {job : Job} (hPc : s.pc (.recv t) = .testCb req)
      (hCb : s.mnt.reqCb req = some job) :
      Step cfg s input (.recv t) (s.goto (.recv t) (.callback req job))
  | callback {t : Nat} {req : ReqId} {job : Job} (hPc : s.pc (.recv t) = .callback req job) :
      Step cfg s input (.recv t) (s.goto (.recv t)
        (.call .callback req (job.cb cfg.xdr s.mnt req input.status) ⟨0, 0⟩))
  | returned {t : Nat} {req : ReqId} {ret : Ret} {freed : Bool}
      (hPc : s.pc (.recv t) = .back .callback req ret freed) :
      Step cfg s input (.recv t) (s.goto (.recv t)
        (.returned (ret.eval (s.mnt.msgStat (s.mnt.reqMsg req))) freed))
  | settle {t : Nat} {rc : UInt32} {freed : Bool} (hPc : s.pc (.recv t) = .returned rc freed) :
      Step cfg s input (.recv t) ((s.settle rc freed).goto (.recv t)
        (if rc ≠ 0 ∧ (s.settle rc freed).mnt.jobsCnt = 0 then .shut else .idle))
  | shut {t : Nat} (hPc : s.pc (.recv t) = .shut) :
      Step cfg s input (.recv t)
        ({ s with mnt := { s.mnt with wrShut := true } }.goto (.recv t) .idle)
  | woke {t : Nat} (hPc : s.pc (.recv t) = .wake) :
      Step cfg s input (.recv t) (s.goto (.recv t) .idle)
  | mount {req : ReqId} (hPc : s.pc .main = .mount) (hHead : s.mnt.reqHead = some req) :
      Step cfg s input .main
        ({ s with mnt := popReq s.mnt req }.goto .main (.call .mount req mountPlan ⟨0, 0⟩))
  | mountSent {req : ReqId} {ret : Ret} {freed : Bool} (hPc : s.pc .main = .back .mount req ret freed) :
      Step cfg s input .main (s.goto .main (.wait req))
  | waited {req : ReqId} (hPc : s.pc .main = .wait req) (hDone : s.mnt.reqDone req = true) :
      Step cfg s input .main (s.goto .main (.decode req))
  | mountFailed {req : ReqId} (hPc : s.pc .main = .decode req) :
      Step cfg s input .main (s.crash .mountFailed)
  | decoded {req : ReqId} {size : UInt64} (hPc : s.pc .main = .decode req) :
      Step cfg s input .main ({ s with mnt := { s.mnt with fattrSize := size } }.goto .main
        (.call .mounted req mountedPlan ⟨0, 0⟩))
  | mounted {req : ReqId} {ret : Ret} {freed : Bool} (hPc : s.pc .main = .back .mounted req ret freed) :
      Step cfg s input .main (s.goto .main .raise)
  | raise (hPc : s.pc .main = .raise) (hMore : s.jobIdx < cfg.jobsMax.toNat) :
      Step cfg s input .main
        ({ s with mnt := { s.mnt with jobsCnt := s.mnt.jobsCnt + 1 } }.goto .main .alloc)
  | stats (hPc : s.pc .main = .raise) (hDone : ¬ s.jobIdx < cfg.jobsMax.toNat) :
      Step cfg s input .main (s.goto .main .stats)
  | alloc {req : ReqId} (hPc : s.pc .main = .alloc) (hHead : s.mnt.reqHead = some req) :
      Step cfg s input .main
        ({ s with mnt := popReq s.mnt req }.goto .main (.call .start req cfg.job.start ⟨0, 0⟩))
  | started {req : ReqId} {ret : Ret} {freed : Bool} (hPc : s.pc .main = .back .start req ret freed) :
      Step cfg s input .main ({ s with jobIdx := s.jobIdx + 1 }.goto .main .raise)
  | prepare {a : Agent} {fn : Fn} {req : ReqId} {plan : Plan} {l l' : Local} {p : Prep}
      {prep : List Prep} {s' : Sys} (hPc : s.pc a = .call fn req plan l)
      (hPrep : plan.prep = p :: prep) (hDo : s.prepare cfg req l input.now p = some (s', l')) :
      Step cfg s input a (s'.goto a (.call fn req { plan with prep } l'))
  | refuse {a : Agent} {fn : Fn} {req : ReqId} {plan : Plan} {l : Local} {prep : List Prep}
      (hPc : s.pc a = .call fn req plan l) (hPrep : plan.prep = .refuse :: prep)
      (hPast : s.pastEnd cfg l.offset = true) :
      Step cfg s input a
        ({ s with refused := s.refused + 1 }.goto a (.back fn req (.value EINVAL) false))
  | free {a : Agent} {fn : Fn} {req : ReqId} {plan : Plan} {l : Local}
      (hPc : s.pc a = .call fn req plan l) (hPrep : plan.prep = []) (hGive : plan.give = .free) :
      Step cfg s input a ((s.free req).goto a (.back fn req plan.ret true))
  | send {a : Agent} {fn : Fn} {req : ReqId} {plan : Plan} {l : Local}
      (hPc : s.pc a = .call fn req plan l) (hPrep : plan.prep = []) (hGive : plan.give = .send) :
      Step cfg s input a ((s.send fn req input.complete).goto a (.check fn req plan.ret
        (if input.complete then some (s.mnt.msgLen (s.mnt.reqMsg req)) else none)))
  | sendCheck {a : Agent} {fn : Fn} {req : ReqId} {ret : Ret} {cc : Option Nat}
      (hPc : s.pc a = .check fn req ret cc)
      (hCheck : cc ≠ some (s.mnt.msgLen (s.mnt.reqMsg req))) :
      Step cfg s input a (s.crash .sendCheck)
  | checked {a : Agent} {fn : Fn} {req : ReqId} {ret : Ret} {cc : Option Nat}
      (hPc : s.pc a = .check fn req ret cc)
      (hCheck : cc = some (s.mnt.msgLen (s.mnt.reqMsg req))) :
      Step cfg s input a (s.goto a (.back fn req ret false))

/-- Only the test for the end of the file can refuse. -/
theorem prepare_none {cfg : Cfg} {s : Sys} {req : ReqId} {l : Local} {now : UInt64} {p : Prep}
    (h : s.prepare cfg req l now p = none) : p = .refuse ∧ s.pastEnd cfg l.offset = true := by
  cases p with
  | refuse =>
      refine ⟨rfl, ?_⟩
      by_contra hPast
      simp [Sys.prepare, hPast] at h
  | fetchSub => simp only [Sys.prepare] at h; split at h <;> cases h
  | _ => cases h

/-- All that a plan can do next. -/
theorem callStep_cases {cfg : Cfg} {s s' : Sys} {a : Agent} {input : Input}
    (h : callStep cfg s a input (s.pc a) = some s') : Step cfg s input a s' := by
  cases hPc : s.pc a with
  | call fn req plan l =>
      simp only [hPc, callStep] at h
      cases hPrep : plan.prep with
      | cons p prep =>
          simp only [hPrep] at h
          cases hDo : s.prepare cfg req l input.now p with
          | none =>
              simp only [hDo, Option.some.injEq] at h
              obtain ⟨rfl, hPast⟩ := prepare_none hDo
              exact h ▸ .refuse hPc hPrep hPast
          | some next =>
              simp only [hDo, Option.some.injEq] at h
              exact h ▸ .prepare hPc hPrep hDo
      | nil =>
          simp only [hPrep] at h
          cases hGive : plan.give with
          | free =>
              simp only [hGive, Option.some.injEq] at h
              exact h ▸ .free hPc hPrep hGive
          | send =>
              simp only [hGive, Option.some.injEq] at h
              exact h ▸ .send hPc hPrep hGive
  | check fn req ret cc =>
      simp only [hPc, callStep] at h
      split at h
      · next hCheck => exact Option.some.inj h ▸ .sendCheck hPc hCheck
      · next hCheck => exact Option.some.inj h ▸ .checked hPc (by simpa using hCheck)
  | _ => simp [hPc, callStep] at h

/-- All that a receive thread can do outside a callback. -/
theorem recvStep_cases {cfg : Cfg} {s s' : Sys} {t : Nat} {input : Input}
    (h : recvStep cfg s t input = some s') : Step cfg s input (.recv t) s' := by
  cases hPc : s.pc (.recv t) with
  | boot =>
      cases hHead : s.mnt.reqHead with
      | none => simp [recvStep, hPc, reqAlloc, hHead] at h
      | some req =>
          simp only [recvStep, hPc, reqAlloc, hHead, Option.map_some, Option.some.injEq] at h
          exact h ▸ .boot hPc hHead
  | idle =>
      simp only [recvStep, hPc] at h
      split at h
      · exact Option.some.inj h ▸ .eof hPc
      · next rep hRep =>
          split at h
          · cases h
          · split at h
            · exact Option.some.inj h ▸ .cantDecode hPc
            · exact Option.some.inj h ▸ .reply hPc hRep
  | got rep =>
      simp only [recvStep, hPc] at h
      split at h
      · next hSlot => exact Option.some.inj h ▸ .nullSlot hPc hSlot
      · next req hSlot =>
          split at h
          · next hXid => exact Option.some.inj h ▸ .xidMismatch hPc hSlot hXid
          · next hXid => exact Option.some.inj h ▸ .take hPc hSlot (not_ne_iff.mp hXid)
  | taken req rep =>
      simp only [recvStep, hPc, Option.some.injEq] at h
      exact h ▸ .exchange hPc
  | testCb req =>
      simp only [recvStep, hPc] at h
      split at h
      · next hCb => exact Option.some.inj h ▸ .noCb hPc hCb
      · next job hCb => exact Option.some.inj h ▸ .cb hPc hCb
  | callback req job =>
      simp only [recvStep, hPc, Option.some.injEq] at h
      exact h ▸ .callback hPc
  | returned rc freed =>
      simp only [recvStep, hPc, Option.some.injEq] at h
      exact h ▸ .settle hPc
  | shut =>
      simp only [recvStep, hPc, Option.some.injEq] at h
      exact h ▸ .shut hPc
  | wake =>
      simp only [recvStep, hPc, Option.some.injEq] at h
      exact h ▸ .woke hPc
  | back fn req ret freed =>
      cases fn with
      | callback =>
          simp only [recvStep, hPc, Option.some.injEq] at h
          exact h ▸ .returned hPc
      | _ => simp [recvStep, hPc, callStep] at h
  | call fn req plan l =>
      simp only [recvStep, hPc] at h
      exact callStep_cases (hPc ▸ h)
  | check fn req ret cc =>
      simp only [recvStep, hPc] at h
      exact callStep_cases (hPc ▸ h)
  | _ => simp [recvStep, hPc, callStep] at h

/-- All that main can do itself. -/
theorem mainStep_cases {cfg : Cfg} {s s' : Sys} {input : Input}
    (h : mainStep cfg s input = some s') : Step cfg s input .main s' := by
  cases hPc : s.pc .main with
  | mount =>
      cases hHead : s.mnt.reqHead with
      | none => simp [mainStep, hPc, reqAlloc, hHead] at h
      | some req =>
          simp only [mainStep, hPc, reqAlloc, hHead, Option.map_some, Option.some.injEq] at h
          exact h ▸ .mount hPc hHead
  | wait req =>
      simp only [mainStep, hPc] at h
      split at h
      · next hDone => exact Option.some.inj h ▸ .waited hPc hDone
      · cases h
  | decode req =>
      simp only [mainStep, hPc] at h
      split at h
      · exact Option.some.inj h ▸ .mountFailed hPc
      · split at h
        · exact Option.some.inj h ▸ .mountFailed hPc
        · exact Option.some.inj h ▸ .decoded hPc
  | raise =>
      simp only [mainStep, hPc] at h
      split at h
      · next hMore => exact Option.some.inj h ▸ .raise hPc hMore
      · next hDone => exact Option.some.inj h ▸ .stats hPc hDone
  | alloc =>
      cases hHead : s.mnt.reqHead with
      | none => simp [mainStep, hPc, reqAlloc, hHead] at h
      | some req =>
          simp only [mainStep, hPc, reqAlloc, hHead, Option.map_some, Option.some.injEq] at h
          exact h ▸ .alloc hPc hHead
  | back fn req ret freed =>
      cases fn with
      | mount =>
          simp only [mainStep, hPc, Option.some.injEq] at h
          exact h ▸ .mountSent hPc
      | mounted =>
          simp only [mainStep, hPc, Option.some.injEq] at h
          exact h ▸ .mounted hPc
      | start =>
          simp only [mainStep, hPc, Option.some.injEq] at h
          exact h ▸ .started hPc
      | callback => simp [mainStep, hPc, callStep] at h
  | call fn req plan l =>
      simp only [mainStep, hPc] at h
      exact callStep_cases (hPc ▸ h)
  | check fn req ret cc =>
      simp only [mainStep, hPc] at h
      exact callStep_cases (hPc ▸ h)
  | _ => simp [mainStep, hPc, callStep] at h

/-- All that an operation of a plan changes: three of them write to the request,
the others at most move the offset. -/
theorem prepare_cases {cfg : Cfg} {s s' : Sys} {req : ReqId} {l l' : Local} {now : UInt64} {p : Prep}
    (h : s.prepare cfg req l now p = some (s', l')) :
    (∃ job, p = .arm job ∧ s' = { s with mnt := { s.mnt with
      reqTscFinish := update s.mnt.reqTscFinish req (now + cfg.duration)
      reqCb := update s.mnt.reqCb req (some job) } }) ∨
    (p = .stamp ∧ s' = { s with mnt := { s.mnt with
      reqTscStart := update s.mnt.reqTscStart req now } }) ∨
    (∃ job, p = .encode job ∧ s' = { s with mnt := { s.mnt with
      msgLen := update s.mnt.msgLen (s.mnt.reqMsg req) (cfg.encLen job) } }) ∨
    ∃ offset, s' = { s with prOffset := offset } := by
  cases p with
  | arm job =>
      cases h
      exact Or.inl ⟨job, rfl, rfl⟩
  | stamp =>
      cases h
      exact Or.inr (Or.inl ⟨rfl, rfl⟩)
  | encode job =>
      cases h
      exact Or.inr (Or.inr (Or.inl ⟨job, rfl, rfl⟩))
  | fetchAdd | load =>
      cases h
      exact Or.inr (Or.inr (Or.inr ⟨_, rfl⟩))
  | refuse | fetchSub =>
      simp only [Sys.prepare] at h
      split at h <;> cases h
      all_goals exact Or.inr (Or.inr (Or.inr ⟨_, rfl⟩))

/-- A plan's operations leave every thread where it is. -/
theorem prepare_pc {cfg : Cfg} {s s' : Sys} {req : ReqId} {l l' : Local} {now : UInt64} {p : Prep}
    (h : s.prepare cfg req l now p = some (s', l')) : s'.pc = s.pc := by
  rcases prepare_cases h with ⟨_, -, rfl⟩ | ⟨-, rfl⟩ | ⟨_, -, rfl⟩ | ⟨_, rfl⟩ <;> rfl

/-- The two states agree on what goes over the connection. -/
structure Sys.SameLink (s s' : Sys) : Prop where
  sendXid : s'.mnt.sendXid = s.mnt.sendXid
  tbl : s'.mnt.reqTbl = s.mnt.reqTbl
  xid : s'.mnt.reqXid = s.mnt.reqXid
  net : s'.net = s.net
  inFlight : s'.inFlight = s.inFlight
  halted : s'.halted = s.halted

theorem Sys.SameLink.goto {s s' : Sys} (h : s.SameLink s') (a : Agent) (pc : Pc) :
    s.SameLink (s'.goto a pc) :=
  ⟨h.sendXid, h.tbl, h.xid, h.net, h.inFlight, h.halted⟩

/-- The operations of a plan send nothing. -/
theorem prepare_link {cfg : Cfg} {s s' : Sys} {req : ReqId} {l l' : Local} {now : UInt64} {p : Prep}
    (h : s.prepare cfg req l now p = some (s', l')) : s.SameLink s' := by
  rcases prepare_cases h with ⟨_, -, rfl⟩ | ⟨-, rfl⟩ | ⟨_, -, rfl⟩ | ⟨_, rfl⟩
  all_goals constructor <;> rfl

/-- Settling a callback changes counters only. -/
theorem settle_eq (s : Sys) (rc : UInt32) (freed : Bool) : ∃ jobsCnt ended zeros,
    s.settle rc freed = { s with mnt := { s.mnt with jobsCnt }, ended, zeros } := by
  by_cases h : rc = 0
  · exact ⟨s.mnt.jobsCnt, _, _, by simp only [Sys.settle, h, if_true]; rfl⟩
  · exact ⟨s.mnt.jobsCnt - 1, _, _, by simp only [Sys.settle, h, if_false]; rfl⟩

theorem settle_link (s : Sys) (rc : UInt32) (freed : Bool) : s.SameLink (s.settle rc freed) := by
  obtain ⟨_, _, _, hEq⟩ := settle_eq s rc freed
  rw [hEq]
  constructor <;> rfl

/-- A step moves no thread but the one that takes it. -/
theorem step_pc_other {cfg : Cfg} {s s' : Sys} {input : Input} {a b : Agent}
    (h : Step cfg s input a s') (hb : b ≠ a) : s'.pc b = s.pc b := by
  cases h with
  | prepare hPc hPrep hDo =>
      rw [← prepare_pc hDo]
      exact Function.update_of_ne hb _ _
  | cantDecode => rfl
  | nullSlot => rfl
  | xidMismatch => rfl
  | mountFailed => rfl
  | sendCheck => rfl
  | _ => exact Function.update_of_ne hb _ _

theorem step_running {cfg : Cfg} {s s' : Sys} {act : Act} (h : step cfg s act = some s') :
    s.halted = none := by
  unfold step at h
  split at h
  · cases h
  · next hRun => simpa using hRun

/-- Every step of the program is one of these, by one of its threads. -/
theorem step_cases {cfg : Cfg} {s s' : Sys} {act : Act} (h : step cfg s act = some s') :
    Step cfg s act.input act.agent s' ∧ ∀ t, act.agent = .recv t → t < cfg.tdsMax := by
  unfold step at h
  split at h
  · cases h
  · split at h
    · next hMain => exact ⟨hMain ▸ mainStep_cases h, fun t ht => by simp [hMain] at ht⟩
    · next t hRecv =>
        split at h
        · next hTd =>
            refine ⟨hRecv ▸ recvStep_cases h, fun u hu => ?_⟩
            obtain rfl : t = u := by simpa [hRecv] using hu
            exact hTd
        · cases h

end Nct
