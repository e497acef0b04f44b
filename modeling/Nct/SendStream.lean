import Nct.Support.Framed
import Nct.Support.Monitor
import Nct.Support.Run
import Nct.Wire

/-! The connection as many senders write to it. Threads encode calls, each into a
request's own message, and go through `nct_req_send` at the same time; one step
is one access to what they share, one `send`, or an operation on `mnt_send_mtx`.
What goes out is a stream of whole calls. -/
namespace Nct

open Framed (readAll Frames)
open Function (update)
open Monitor (Guarded)
open OncRpc (CallHeader)
open Transition (Run exec)

/-- Where a thread is. It carries its call until this is transmitted. -/
inductive SendPc where
  | out
  /-- at the start of `nct_req_send`, with the call encoded -/
  | enter (req : ReqId) (call : Nfs3Call)
  /-- `pthread_mutex_lock`; `msg` is the message to put the xid into -/
  | lock (req : ReqId) (call : Nfs3Call) (msg : MsgId)
  /-- `xid = mnt->mnt_send_xid` -/
  | load (req : ReqId) (call : Nfs3Call) (msg : MsgId)
  /-- `mnt->mnt_send_xid += 11` -/
  | bump (req : ReqId) (call : Nfs3Call) (msg : MsgId) (xid : UInt32)
  /-- `msg->rm_xid = htonl(xid)` -/
  | patch (req : ReqId) (call : Nfs3Call) (msg : MsgId) (xid : UInt32)
  /-- `mnt->mnt_req_tbl[xid % NCT_REQ_MAX] = req` -/
  | enroll (req : ReqId) (call : Nfs3Call) (xid : UInt32)
  /-- `req->req_xid = xid` -/
  | name (req : ReqId) (call : Nfs3Call) (xid : UInt32)
  /-- `nct_rpc_send` puts the record mark in place -/
  | mark (req : ReqId) (call : Nfs3Call)
  /-- `while (nleft > 0)`, with `buf` moved on by `pos` -/
  | send (req : ReqId) (call : Nfs3Call) (buf : MsgId) (bufsz pos nleft : Nat)
  /-- `pthread_mutex_unlock` -/
  | unlock (req : ReqId) (cc : Int)
  /-- `if (cc != req->req_msg->msg_len)` -/
  | check (req : ReqId) (cc : Int)
  deriving DecidableEq

/-- `mnt_send_mtx` is held there. -/
def SendPc.Holds : SendPc → Prop
  | .out | .enter .. | .lock .. | .check .. => False
  | _ => True

/-- The request whose message the thread has yet to transmit, and the call in it. -/
def SendPc.sending : SendPc → Option (ReqId × Nfs3Call)
  | .out | .unlock .. | .check .. => none
  | .enter req call => some (req, call)
  | .lock req call _ => some (req, call)
  | .load req call _ => some (req, call)
  | .bump req call _ _ => some (req, call)
  | .patch req call _ _ => some (req, call)
  | .enroll req call _ => some (req, call)
  | .name req call _ => some (req, call)
  | .mark req call => some (req, call)
  | .send req call _ _ _ _ => some (req, call)

/-- A call that has its xid, and how many bytes of it have gone out. -/
def SendPc.gone : SendPc → Option (Nfs3Call × Nat)
  | .patch _ call _ _ => some (call, 0)
  | .enroll _ call _ => some (call, 0)
  | .name _ call _ => some (call, 0)
  | .mark _ call => some (call, 0)
  | .send _ call _ _ pos _ => some (call, pos)
  | _ => none

/-- What is done to the table of requests. -/
inductive SendEvent where
  | send (req : ReqId)
  | clear (xid : UInt32)
  deriving DecidableEq, Repr

/-- `n` threads with what they share. `asked` are the calls that each of them has
begun, `log` those that have gone out whole, with their requests, and `events` what
the table has been through; no step looks at them. -/
structure SendSys (n : Nat) where
  mtx : Monitor.State (Fin n)
  client : Client
  wire : List UInt8
  pc : Fin n → SendPc
  aborted : Bool
  asked : Fin n → List Nfs3Call
  log : List (Fin n × ReqId × Nfs3Call)
  events : List SendEvent

def SendSys.start (n : Nat) (client : Client) : SendSys n where
  mtx := .idle
  client := client
  wire := []
  pc := fun _ => .out
  aborted := false
  asked := fun _ => []
  log := []
  events := []

/-- A thread encodes a call and begins to send it, or goes on, where `cc` is what
a `send` returns if it is not more than it is given. A receive thread gives a
request another message, that of a reply, or clears a slot of the table. -/
inductive SendAct (n : Nat) where
  | issue (t : Fin n) (req : ReqId) (call : Nfs3Call)
  | go (t : Fin n) (cc : Int)
  | exchange (req : ReqId) (msg : MsgId) (data : List UInt8) (len : Nat)
  | clear (xid : UInt32)
  deriving DecidableEq

variable {n : Nat}

def SendSys.goto (s : SendSys n) (t : Fin n) (pc : SendPc) : SendSys n :=
  { s with pc := update s.pc t pc }

/-- A message's buffer is written to. -/
def Client.put (c : Client) (msg : MsgId) (pos : Nat) (bytes : List UInt8) : Client :=
  { c with msgData := update c.msgData msg (store (c.msgData msg) pos bytes) }

@[simp] theorem Client.put_self (c : Client) (msg : MsgId) (pos : Nat) (bytes : List UInt8) :
    (c.put msg pos bytes).msgData msg = store (c.msgData msg) pos bytes :=
  Function.update_self _ _ _

theorem Client.put_of_ne (c : Client) {msg other : MsgId} (pos : Nat) (bytes : List UInt8)
    (h : other ≠ msg) : (c.put msg pos bytes).msgData other = c.msgData other :=
  Function.update_of_ne h _ _

/-- The next step of a thread in `nct_req_send`. -/
def SendSys.go (s : SendSys n) (t : Fin n) (cc : Int) : Option (SendSys n) :=
  let c := s.client
  let mnt := c.mnt
  match s.pc t with
  | .out => none
  | .enter req call =>
      let mnt := { mnt with reqDone := update mnt.reqDone req false }
      some ({ s with client := { c with mnt } }.goto t (.lock req call (mnt.reqMsg req)))
  | .lock req call msg => (s.mtx.lock t).map fun mtx => { s with mtx }.goto t (.load req call msg)
  | .load req call msg => some (s.goto t (.bump req call msg mnt.sendXid))
  | .bump req call msg xid =>
      let mnt := { mnt with sendXid := mnt.sendXid + 11 }
      some ({ s with client := { c with mnt } }.goto t (.patch req call msg xid))
  | .patch req call msg xid =>
      some ({ s with client := c.put msg 4 (htonl xid) }.goto t (.enroll req call xid))
  | .enroll req call xid =>
      let mnt := { mnt with reqTbl := update mnt.reqTbl (slot xid) (some req) }
      some ({ s with client := { c with mnt }, events := s.events ++ [SendEvent.send req] }.goto t
        (.name req call xid))
  | .name req call xid =>
      let mnt := { mnt with reqXid := update mnt.reqXid req xid }
      some ({ s with client := { c with mnt } }.goto t (.mark req call))
  | .mark req call =>
      let buf := mnt.reqMsg req
      let bufsz := mnt.msgLen buf
      some ({ s with client := c.put buf 0 (htonl (recordMark bufsz)) }.goto t
        (.send req call buf bufsz 0 bufsz))
  | .send req call buf bufsz pos nleft =>
      if nleft = 0 then some (s.goto t (.unlock req bufsz))
      else
        let cc := min cc nleft
        let s := { s with wire := s.wire ++ ((c.msgData buf).drop pos).take cc.toNat }
        if cc < 1 then some (s.goto t (.unlock req (if cc = -1 then -1 else 0)))
        else if cc = nleft then
          -- the loop ends
          some ({ s with log := s.log ++ [(t, req, call)] }.goto t (.unlock req bufsz))
        else some (s.goto t (.send req call buf bufsz (pos + cc.toNat) (nleft - cc.toNat)))
  | .unlock req cc => some ({ s with mtx := s.mtx.unlock }.goto t (.check req cc))
  | .check req cc =>
      if (cc % 2 ^ 64).toNat ≠ mnt.msgLen (mnt.reqMsg req) then some { s with aborted := true }
      else some (s.goto t .out)

def sendStep (lib : Tirpc) (s : SendSys n) (act : SendAct n) : Option (SendSys n) :=
  let c := s.client
  let mnt := c.mnt
  if s.aborted then none
  else
    match act with
    | .issue t req call =>
        if s.pc t = .out then
          (call.encode lib req c).map fun client =>
            { s with client, asked := update s.asked t (s.asked t ++ [call]) }.goto t
              (.enter req call)
        else none
    | .go t cc => s.go t cc
    | .exchange req msg data len =>
        let mnt := { mnt with reqMsg := update mnt.reqMsg req msg }
        some { s with client := { c with mnt }.setMsg msg data len }
    | .clear xid =>
        some { s with
          client := { c with mnt := clearSlot mnt xid }
          events := s.events ++ [SendEvent.clear xid] }

/-- No thread has still to transmit the request or a call in the message. -/
def SendSys.Unsent (s : SendSys n) (req : ReqId) (msg : MsgId) : Prop :=
  ∀ t, ∀ e ∈ (s.pc t).sending, e.1 ≠ req ∧ s.client.mnt.reqMsg e.1 ≠ msg

/-- A call goes into a message of the thread's own, and its count is a word of the
protocol; `send` takes some bytes; a request's message is exchanged when the
request has been sent. -/
def SendsWell (lib : Tirpc) (s : SendSys n) : SendAct n → Prop
  | .issue _ req call => s.Unsent req (s.client.mnt.reqMsg req) ∧ call.CountFits
  | .go _ cc => 1 ≤ cc
  | .exchange req msg data _ => s.Unsent req msg ∧ data.length = NCT_MSGSZ_MAX lib
  | .clear _ => True

instance (call : Nfs3Call) : Decidable call.CountFits := by
  cases call <;> unfold Nfs3Call.CountFits <;> infer_instance

instance (lib : Tirpc) (s : SendSys n) (act : SendAct n) : Decidable (SendsWell lib s act) := by
  cases act <;> unfold SendsWell <;> unfold SendSys.Unsent <;> infer_instance

section
variable {lib : Tirpc} {s s' : SendSys n}

/-- The steps one by one, where they go well. -/
inductive SendMove (lib : Tirpc) (s : SendSys n) : SendSys n → Prop where
  | issue {t : Fin n} {req : ReqId} {call : Nfs3Call} {client : Client} (hPc : s.pc t = .out)
      (hOwn : s.Unsent req (s.client.mnt.reqMsg req)) (hFits : call.CountFits)
      (hEncode : call.encode lib req s.client = some client) :
      SendMove lib s ({ s with
        client := client
        asked := update s.asked t (s.asked t ++ [call]) }.goto t (.enter req call))
  | enter {t : Fin n} {req : ReqId} {call : Nfs3Call} {done : ReqId → Bool}
      (hPc : s.pc t = .enter req call) :
      SendMove lib s ({ s with
        client := { s.client with mnt := { s.client.mnt with reqDone := done } } }.goto t
          (.lock req call (s.client.mnt.reqMsg req)))
  | lock {t : Fin n} {req : ReqId} {call : Nfs3Call} {msg : MsgId}
      (hPc : s.pc t = .lock req call msg) (hOwner : s.mtx.owner = none) :
      SendMove lib s
        ({ s with mtx := { s.mtx with owner := some t } }.goto t (.load req call msg))
  | load {t : Fin n} {req : ReqId} {call : Nfs3Call} {msg : MsgId}
      (hPc : s.pc t = .load req call msg) :
      SendMove lib s (s.goto t (.bump req call msg s.client.mnt.sendXid))
  | bump {t : Fin n} {req : ReqId} {call : Nfs3Call} {msg : MsgId} {xid : UInt32}
      (hPc : s.pc t = .bump req call msg xid) :
      SendMove lib s ({ s with
        client := { s.client with
          mnt := { s.client.mnt with sendXid := s.client.mnt.sendXid + 11 } } }.goto t
          (.patch req call msg xid))
  | patch {t : Fin n} {req : ReqId} {call : Nfs3Call} {msg : MsgId} {xid : UInt32}
      (hPc : s.pc t = .patch req call msg xid) :
      SendMove lib s
        ({ s with client := s.client.put msg 4 (htonl xid) }.goto t (.enroll req call xid))
  | enroll {t : Fin n} {req : ReqId} {call : Nfs3Call} {xid : UInt32}
      (hPc : s.pc t = .enroll req call xid) :
      SendMove lib s ({ s with
        client := { s.client with
          mnt := { s.client.mnt with
            reqTbl := update s.client.mnt.reqTbl (slot xid) (some req) } }
        events := s.events ++ [SendEvent.send req] }.goto t (.name req call xid))
  | name {t : Fin n} {req : ReqId} {call : Nfs3Call} {xid : UInt32}
      (hPc : s.pc t = .name req call xid) :
      SendMove lib s ({ s with
        client := { s.client with
          mnt := { s.client.mnt with reqXid := update s.client.mnt.reqXid req xid } } }.goto t
          (.mark req call))
  | mark {t : Fin n} {req : ReqId} {call : Nfs3Call} {buf : MsgId} {bufsz : Nat}
      (hPc : s.pc t = .mark req call) (hBuf : buf = s.client.mnt.reqMsg req)
      (hSize : bufsz = s.client.mnt.msgLen buf) :
      SendMove lib s ({ s with
        client := s.client.put buf 0 (htonl (recordMark bufsz)) }.goto t
          (.send req call buf bufsz 0 bufsz))
  | send {t : Fin n} {req : ReqId} {call : Nfs3Call} {buf : MsgId} {bufsz pos nleft k : Nat}
      (hPc : s.pc t = .send req call buf bufsz pos nleft) (hSome : 0 < k) (hLeft : k < nleft) :
      SendMove lib s ({ s with
        wire := s.wire ++ ((s.client.msgData buf).drop pos).take k }.goto t
          (.send req call buf bufsz (pos + k) (nleft - k)))
  | whole {t : Fin n} {req : ReqId} {call : Nfs3Call} {buf : MsgId} {bufsz pos nleft : Nat}
      (hPc : s.pc t = .send req call buf bufsz pos nleft) :
      SendMove lib s ({ s with
        wire := s.wire ++ ((s.client.msgData buf).drop pos).take nleft
        log := s.log ++ [(t, req, call)] }.goto t (.unlock req bufsz))
  | nothing {t : Fin n} {req : ReqId} {call : Nfs3Call} {buf : MsgId} {bufsz pos : Nat}
      (hPc : s.pc t = .send req call buf bufsz pos 0) :
      SendMove lib s (s.goto t (.unlock req bufsz))
  | unlock {t : Fin n} {req : ReqId} {cc : Int} (hPc : s.pc t = .unlock req cc) :
      SendMove lib s ({ s with mtx := s.mtx.unlock }.goto t (.check req cc))
  | check {t : Fin n} {req : ReqId} {cc : Int} (hPc : s.pc t = .check req cc) :
      SendMove lib s (s.goto t .out)
  | abort : SendMove lib s { s with aborted := true }
  | exchange {req : ReqId} {msg : MsgId} {data : List UInt8} {len : Nat}
      (hSent : s.Unsent req msg) (hData : data.length = NCT_MSGSZ_MAX lib) :
      SendMove lib s { s with
        client := Client.setMsg
          { s.client with
            mnt := { s.client.mnt with reqMsg := update s.client.mnt.reqMsg req msg } }
          msg data len }
  | clear {xid : UInt32} :
      SendMove lib s { s with
        client := { s.client with mnt := clearSlot s.client.mnt xid }
        events := s.events ++ [SendEvent.clear xid] }

/-- A step of a sender is one of the moves. -/
theorem SendSys.go_cases {t : Fin n} {cc : Int} (hSome : 1 ≤ cc) (h : s.go t cc = some s') :
    SendMove lib s s' := by
  cases hPc : s.pc t with
  | out => simp [SendSys.go, hPc] at h
  | lock req call msg =>
      simp only [SendSys.go, hPc, Option.map_eq_some_iff, Monitor.State.lock_eq_some] at h
      obtain ⟨mtx, ⟨hOwner, rfl⟩, rfl⟩ := h
      exact .lock hPc hOwner
  | mark req call =>
      simp only [SendSys.go, hPc, Option.some.injEq] at h
      exact h ▸ .mark hPc rfl rfl
  | send req call buf bufsz pos nleft =>
      simp only [SendSys.go, hPc] at h
      split at h
      · next hDone =>
          subst hDone
          exact Option.some.inj h ▸ .nothing hPc
      · have hCc : ∃ k : Nat, 0 < k ∧ k ≤ nleft ∧ min cc (nleft : Int) = (k : Int) :=
          ⟨(min cc (nleft : Int)).toNat, by omega, by omega, by omega⟩
        obtain ⟨k, hPos, hLeft, hCc⟩ := hCc
        simp only [hCc, if_neg (show ¬ (k : Int) < 1 by omega), Int.toNat_natCast,
          Int.natCast_inj] at h
        split at h
        · next hAll =>
            subst hAll
            exact Option.some.inj h ▸ .whole hPc
        · next hMore => exact Option.some.inj h ▸ .send hPc hPos (by omega)
  | check req cc =>
      simp only [SendSys.go, hPc] at h
      split at h
      · exact Option.some.inj h ▸ .abort
      · exact Option.some.inj h ▸ .check hPc
  | _ =>
      simp only [SendSys.go, hPc, Option.some.injEq] at h
      subst h
      constructor
      exact hPc

/-- So is any step of the system. -/
theorem sendStep_cases {act : SendAct n} (hOk : SendsWell lib s act)
    (h : sendStep lib s act = some s') : SendMove lib s s' := by
  unfold sendStep at h
  split at h
  · cases h
  cases act with
  | issue t req call =>
      simp only at h
      split at h
      · next hPc =>
          obtain ⟨client, hEncode, rfl⟩ := Option.map_eq_some_iff.mp h
          exact .issue hPc hOk.1 hOk.2 hEncode
      · cases h
  | go t cc => exact SendSys.go_cases hOk h
  | exchange req msg data len => exact Option.some.inj h ▸ .exchange hOk.1 hOk.2
  | clear xid => exact Option.some.inj h ▸ .clear

/-- The xid that the `i`-th call from a start on is given. -/
def nthXid (start : Client) (i : Nat) : UInt32 := start.mnt.sendXid + UInt32.ofNat i * 11

/-- Each send counts the xid on by 11. -/
theorem nthXid_succ (start : Client) (i : Nat) : nthXid start (i + 1) = nthXid start i + 11 := by
  rw [nthXid, nthXid, UInt32.ofNat_add, UInt32.add_assoc, UInt32.add_mul]
  rfl

/-- The `i`-th call as it goes out. -/
def sentRecord (start : Client) (i : Nat) (call : Nfs3Call) : List UInt8 :=
  htonl (recordMark (4 + (call.image (nthXid start i) start).length)) ++
    call.image (nthXid start i) start

/-- What has gone out of calls that are whole. -/
def sentRecords (start : Client) (log : List (Fin n × ReqId × Nfs3Call)) : List (List UInt8) :=
  log.mapIdx fun i e => sentRecord start i e.2.2

/-- The record of the next call comes last. -/
theorem sentRecords_snoc (start : Client) (log : List (Fin n × ReqId × Nfs3Call))
    (e : Fin n × ReqId × Nfs3Call) :
    (sentRecords start (log ++ [e])).flatten =
      (sentRecords start log).flatten ++ sentRecord start log.length e.2.2 := by
  simp [sentRecords]

/-- The message is an image behind the place of the mark. -/
def Client.Carries (c : Client) (msg : MsgId) (image : List UInt8) : Prop :=
  (∃ buf : List UInt8, 4 ≤ buf.length ∧ c.msgData msg = store buf 4 image) ∧
    c.mnt.msgLen msg = 4 + image.length

/-- How far the message of a thread's call is, when `i` calls are whole. -/
def Staged (start c : Client) (i : Nat) : SendPc → Prop
  | .out | .unlock .. | .check .. => True
  | .enter req call => c.Carries (c.mnt.reqMsg req) (call.image 0 start)
  | .lock req call msg => msg = c.mnt.reqMsg req ∧ c.Carries msg (call.image 0 start)
  | .load req call msg => msg = c.mnt.reqMsg req ∧ c.Carries msg (call.image 0 start)
  | .bump req call msg xid =>
      msg = c.mnt.reqMsg req ∧ c.Carries msg (call.image 0 start) ∧ xid = c.mnt.sendXid
  | .patch req call msg xid =>
      msg = c.mnt.reqMsg req ∧ c.Carries msg (call.image 0 start) ∧ xid = nthXid start i
  | .enroll req call _ => c.Carries (c.mnt.reqMsg req) (call.image (nthXid start i) start)
  | .name req call _ => c.Carries (c.mnt.reqMsg req) (call.image (nthXid start i) start)
  | .mark req call => c.Carries (c.mnt.reqMsg req) (call.image (nthXid start i) start)
  | .send req call buf bufsz pos nleft =>
      buf = c.mnt.reqMsg req ∧ bufsz = (sentRecord start i call).length ∧
        (pos + nleft = bufsz ∧ 0 < nleft) ∧ (c.msgData buf).take bufsz = sentRecord start i call

def SendSys.current (s : SendSys n) : SendPc :=
  match s.mtx.owner with
  | none => .out
  | some t => s.pc t

/-- What has gone out: the whole calls, and part of one that has its xid. -/
def Front (start : Client) (s : SendSys n) (gone : Option (Nfs3Call × Nat)) : Prop :=
  match gone with
  | none =>
      s.client.mnt.sendXid = nthXid start s.log.length ∧
        s.wire = (sentRecords start s.log).flatten
  | some (call, pos) =>
      s.client.mnt.sendXid = nthXid start (s.log.length + 1) ∧
        s.wire = (sentRecords start s.log).flatten ++ (sentRecord start s.log.length call).take pos

def callsOf (t : Fin n) (log : List (Fin n × ReqId × Nfs3Call)) : List Nfs3Call :=
  (log.filter fun e => e.1 = t).map fun e => e.2.2

/-- What the threads keep to. -/
structure SendSys.Orderly (lib : Tirpc) (start : Client) (s : SendSys n) : Prop where
  guarded : Guarded SendPc.Holds s.pc s.mtx
  auth : s.client.mntAuth = start.mntAuth
  vn : s.client.mntVn = start.mntVn
  sized : ∀ msg, (s.client.msgData msg).length = NCT_MSGSZ_MAX lib
  apart : ∀ t u, t ≠ u → ∀ e ∈ (s.pc t).sending, ∀ e' ∈ (s.pc u).sending,
    s.client.mnt.reqMsg e.1 ≠ s.client.mnt.reqMsg e'.1
  staged : ∀ t, Staged start s.client s.log.length (s.pc t)
  front : Front start s s.current.gone
  asked : ∀ t, s.asked t = callsOf t s.log ++ (s.pc t).sending.toList.map Prod.snd

@[simp] theorem SendSys.goto_pc_self (s : SendSys n) (t : Fin n) (p : SendPc) :
    (s.goto t p).pc t = p :=
  Function.update_self _ _ _

theorem SendSys.goto_pc_of_ne (s : SendSys n) {t u : Fin n} (p : SendPc) (h : u ≠ t) :
    (s.goto t p).pc u = s.pc u :=
  Function.update_of_ne h _ _

variable {start : Client} {t : Fin n}

/-- The thread that holds the mutex is the one whose call is under way. -/
theorem SendSys.current_eq (hGuarded : Guarded SendPc.Holds s.pc s.mtx) (h : (s.pc t).Holds) :
    s.current = s.pc t := by
  rw [SendSys.current, (hGuarded t).mp h]

/-- A thread without the mutex takes a step. -/
theorem SendSys.current_other (hGuarded : Guarded SendPc.Holds s.pc s.mtx)
    (h : ¬ (s.pc t).Holds) {p : SendPc} (hPc : s'.pc = update s.pc t p)
    (hOwner : s'.mtx.owner = s.mtx.owner) : s'.current = s.current := by
  rw [SendSys.current, SendSys.current, hOwner, hPc]
  cases hHolder : s.mtx.owner with
  | none => rfl
  | some u =>
      have hu : u ≠ t := by
        rintro rfl
        exact h ((hGuarded u).mpr hHolder)
      exact Function.update_of_ne hu _ _

/-- The wire, the log and the counter are as they were, and so is the call under way. -/
theorem Front.frame {gone gone' : Option (Nfs3Call × Nat)} (h : Front start s gone)
    (hGone : gone' = gone) (hXid : s'.client.mnt.sendXid = s.client.mnt.sendXid)
    (hLog : s'.log = s.log) (hWire : s'.wire = s.wire) : Front start s' gone' := by
  subst hGone
  simp only [Front, hXid, hLog, hWire]
  exact h

/-- A thread is as far with its message when others work on theirs. -/
theorem Staged.frame {c c' : Client} {i i' : Nat} {p : SendPc} (h : Staged start c i p)
    (hKeep : ∀ e ∈ p.sending, c'.mnt.reqMsg e.1 = c.mnt.reqMsg e.1 ∧
      c'.msgData (c.mnt.reqMsg e.1) = c.msgData (c.mnt.reqMsg e.1) ∧
      c'.mnt.msgLen (c.mnt.reqMsg e.1) = c.mnt.msgLen (c.mnt.reqMsg e.1))
    (hTurn : p.Holds → c'.mnt.sendXid = c.mnt.sendXid ∧ i' = i) : Staged start c' i' p := by
  cases hSending : p.sending with
  | none => cases p <;> trivial
  | some e =>
      obtain ⟨hMsg, hData, hLen⟩ := hKeep e (by simp [hSending])
      have hCarries : ∀ image, c.Carries (c.mnt.reqMsg e.1) image →
          c'.Carries (c.mnt.reqMsg e.1) image := by
        intro image
        simp only [Client.Carries, hData, hLen, imp_self]
      cases p with
      | out | unlock | check => trivial
      | enter req call =>
          cases hSending
          exact (congrArg (c'.Carries · _) hMsg).mpr (hCarries _ h)
      | lock req call msg | load req call msg =>
          cases hSending
          obtain ⟨rfl, hImage⟩ := h
          exact ⟨hMsg.symm, hCarries _ hImage⟩
      | bump req call msg xid =>
          cases hSending
          obtain ⟨hXid, -⟩ := hTurn trivial
          obtain ⟨rfl, hImage, hSame⟩ := h
          exact ⟨hMsg.symm, hCarries _ hImage, hSame.trans hXid.symm⟩
      | patch req call msg xid =>
          cases hSending
          obtain ⟨-, rfl⟩ := hTurn trivial
          obtain ⟨rfl, hImage, hSame⟩ := h
          exact ⟨hMsg.symm, hCarries _ hImage, hSame⟩
      | enroll req call xid | name req call xid | mark req call =>
          cases hSending
          obtain ⟨-, rfl⟩ := hTurn trivial
          exact (congrArg (c'.Carries · _) hMsg).mpr (hCarries _ h)
      | send req call buf bufsz pos nleft =>
          cases hSending
          obtain ⟨-, rfl⟩ := hTurn trivial
          obtain ⟨rfl, hSize, hSum, hImage⟩ := h
          exact ⟨hMsg.symm, hSize, hSum, by rw [hData]; exact hImage⟩

/-- What the step of one thread, to `p`, leaves as it is. -/
structure SendSys.Shift (s s' : SendSys n) (t : Fin n) (p : SendPc) : Prop where
  pc : s'.pc = update s.pc t p
  auth : s'.client.mntAuth = s.client.mntAuth
  vn : s'.client.mntVn = s.client.mntVn
  reqMsg : s'.client.mnt.reqMsg = s.client.mnt.reqMsg
  sending : ∀ e ∈ p.sending, e ∈ (s.pc t).sending
  keep : ∀ msg, (∀ e ∈ (s.pc t).sending, msg ≠ s.client.mnt.reqMsg e.1) →
    s'.client.msgData msg = s.client.msgData msg ∧
      s'.client.mnt.msgLen msg = s.client.mnt.msgLen msg
  turn : (s.pc t).Holds ∨ s'.client.mnt.sendXid = s.client.mnt.sendXid ∧ s'.log = s.log

theorem SendSys.Orderly.shift {p : SendPc} (h : s.Orderly lib start) (hShift : s.Shift s' t p)
    (hGuarded : Guarded SendPc.Holds s'.pc s'.mtx)
    (hSized : ∀ msg, (s'.client.msgData msg).length = NCT_MSGSZ_MAX lib)
    (hStaged : Staged start s'.client s'.log.length p) (hFront : Front start s' s'.current.gone)
    (hAsked : ∀ u, s'.asked u = callsOf u s'.log ++ (s'.pc u).sending.toList.map Prod.snd) :
    s'.Orderly lib start := by
  have hSending : ∀ u, ∀ e ∈ (s'.pc u).sending, e ∈ (s.pc u).sending := by
    intro u e he
    rw [hShift.pc] at he
    by_cases hu : u = t
    · subst hu
      rw [Function.update_self] at he
      exact hShift.sending e he
    · rwa [Function.update_of_ne hu] at he
  refine ⟨hGuarded, hShift.auth.trans h.auth, hShift.vn.trans h.vn, hSized, ?_, ?_, hFront, hAsked⟩
  · intro u v hne e he e' he'
    rw [hShift.reqMsg]
    exact h.apart u v hne e (hSending u e he) e' (hSending v e' he')
  · intro u
    rw [hShift.pc]
    by_cases hu : u = t
    · subst hu
      rwa [Function.update_self]
    · rw [Function.update_of_ne hu]
      apply (h.staged u).frame
      · intro e he
        obtain ⟨hData, hLen⟩ :=
          hShift.keep (s.client.mnt.reqMsg e.1) fun e' he' => h.apart u t hu e he e' he'
        exact ⟨congrFun hShift.reqMsg _, hData, hLen⟩
      · intro hHolds
        rcases hShift.turn with hMine | ⟨hXid, hLog⟩
        · exact absurd (h.guarded.exclusive hHolds hMine) hu
        · exact ⟨hXid, by rw [hLog]⟩

/-- A thread that keeps its call has asked for what it had. -/
theorem SendSys.asked_same {p : SendPc}
    (h : ∀ u, s.asked u = callsOf u s.log ++ (s.pc u).sending.toList.map Prod.snd)
    (hPc : s'.pc = update s.pc t p) (hAsked : s'.asked = s.asked) (hLog : s'.log = s.log)
    (hSending : p.sending = (s.pc t).sending) (u : Fin n) :
    s'.asked u = callsOf u s'.log ++ (s'.pc u).sending.toList.map Prod.snd := by
  rw [hAsked, hLog, h u, hPc]
  by_cases hu : u = t
  · subst hu
    rw [Function.update_self, hSending]
  · rw [Function.update_of_ne hu]

/-- A thread goes on without writing to its message. -/
theorem SendSys.Orderly.goOn {p : SendPc} (h : s.Orderly lib start) (hPc : s'.pc = update s.pc t p)
    (hClient : ∃ mnt, s'.client = { s.client with mnt := mnt } ∧ mnt.reqMsg = s.client.mnt.reqMsg ∧
      mnt.msgLen = s.client.mnt.msgLen)
    (hGuarded : Guarded SendPc.Holds s'.pc s'.mtx)
    (hTurn : (s.pc t).Holds ∨ s'.client.mnt.sendXid = s.client.mnt.sendXid)
    (hSending : p.sending = (s.pc t).sending) (hKept : s'.asked = s.asked ∧ s'.log = s.log)
    (hStaged : Staged start s'.client s.log.length p) (hFront : Front start s' s'.current.gone) :
    s'.Orderly lib start := by
  obtain ⟨mnt, hEq, hMsg, hLen⟩ := hClient
  have hData : s'.client.msgData = s.client.msgData := by rw [hEq]
  refine h.shift (t := t) (p := p) ?_ hGuarded (by rw [hData]; exact h.sized)
    (by rw [hKept.2]; exact hStaged) hFront (asked_same h.asked hPc hKept.1 hKept.2 hSending)
  exact {
    pc := hPc
    auth := by rw [hEq]
    vn := by rw [hEq]
    reqMsg := by rw [hEq, hMsg]
    sending := by simp [hSending]
    keep := fun msg _ => ⟨by rw [hData], by rw [hEq, hLen]⟩
    turn := hTurn.imp id fun hXid => ⟨hXid, hKept.2⟩ }

/-- A thread that has the mutex writes to its message. -/
theorem SendSys.Orderly.write {p q : SendPc} {msg : MsgId} {pos : Nat} {bytes : List UInt8}
    (h : s.Orderly lib start) (hPc : s.pc t = q) (hHolds : q.Holds) (hNext : p.Holds)
    (hMine : ∃ e ∈ q.sending, msg = s.client.mnt.reqMsg e.1)
    (hRoom : pos + bytes.length ≤ NCT_MSGSZ_MAX lib) (hSending : p.sending = q.sending)
    (hGone : p.gone = q.gone)
    (hStaged : Staged start (s.client.put msg pos bytes) s.log.length p) :
    ({ s with client := s.client.put msg pos bytes }.goto t p).Orderly lib start := by
  subst hPc
  obtain ⟨e, he, hMsg⟩ := hMine
  have hGuarded : Guarded SendPc.Holds (update s.pc t p) s.mtx :=
    h.guarded.stay ⟨fun _ => hHolds, fun _ => hNext⟩ rfl
  refine h.shift (t := t) (p := p) ?_ hGuarded ?_ hStaged ?_
    (asked_same (p := p) h.asked rfl rfl rfl hSending)
  · exact {
      pc := rfl
      auth := rfl
      vn := rfl
      reqMsg := rfl
      sending := by simp [hSending]
      keep := fun other hOther =>
        ⟨s.client.put_of_ne _ _ fun hSame => hOther e he (hSame.trans hMsg), rfl⟩
      turn := Or.inl hHolds }
  · intro other
    show ((s.client.put msg pos bytes).msgData other).length = _
    by_cases hOther : other = msg
    · subst hOther
      rw [Client.put_self, store_length (by rw [h.sized]; exact hRoom), h.sized]
    · rw [s.client.put_of_ne _ _ hOther, h.sized]
  · apply h.front.frame _ rfl rfl rfl
    rw [current_eq h.guarded hHolds, current_eq hGuarded (t := t) (by simpa using hNext),
      goto_pc_self]
    exact hGone

/-- The image of a call depends on the credential and the handle only. -/
theorem Nfs3Call.image_congr (call : Nfs3Call) (xid : UInt32) {c c' : Client}
    (hAuth : c.mntAuth = c'.mntAuth) (hVn : c.mntVn = c'.mntVn) :
    call.image xid c = call.image xid c' := by
  rw [Nfs3Call.image, Nfs3Call.image, hAuth, hVn]

/-- The xid is put in its place. -/
theorem Client.Carries.patch {c : Client} {msg : MsgId} {call : Nfs3Call}
    (h : c.Carries msg (call.image 0 start)) (xid : UInt32) :
    (c.put msg 4 (htonl xid)).Carries msg (call.image xid start) := by
  obtain ⟨⟨buf, hBuf, hData⟩, hLen⟩ := h
  obtain ⟨more, hImage⟩ := call.image_eq start
  refine ⟨⟨buf, hBuf, ?_⟩, ?_⟩
  · rw [Client.put_self, hData, hImage 0, store_patch more hBuf (by simp), ← hImage]
  · have hSame : (call.image 0 start).length = (call.image xid start).length := by
      simp only [hImage, List.length_append, htonl_length]
    rw [← hSame]
    exact hLen

/-- The mark is put before it. -/
theorem Client.Carries.mark {c : Client} {msg : MsgId} {image : List UInt8}
    (h : c.Carries msg image) :
    ((c.put msg 0 (htonl (recordMark (c.mnt.msgLen msg)))).msgData msg).take (c.mnt.msgLen msg) =
      htonl (recordMark (4 + image.length)) ++ image := by
  obtain ⟨⟨buf, hBuf, hData⟩, hLen⟩ := h
  rw [Client.put_self, hData, hLen, take_store_mark buf image _ hBuf (htonl_length _)]

theorem sentRecord_length (start : Client) (i : Nat) (call : Nfs3Call) :
    (sentRecord start i call).length = 4 + (call.image (nthXid start i) start).length := by
  rw [sentRecord, List.length_append, htonl_length, marksz]

/-- A `send` within the message takes the next bytes of the call. -/
theorem take_of_taken {data record : List UInt8} {len pos k : Nat} (h : data.take len = record)
    (hLess : pos + k ≤ len) :
    record.take pos ++ (data.drop pos).take k = record.take (pos + k) := by
  subst h
  rw [List.take_take, List.take_take, Nat.min_eq_left (by omega), Nat.min_eq_left hLess,
    List.take_add]

/-- A call is encoded into a message that nobody is sending. -/
theorem SendSys.Orderly.issue {req : ReqId} {call : Nfs3Call} {client : Client}
    (hLib : lib.FollowsRfcs) (hFh : start.mntVn.xvnFh.fhandle3Val.length ≤ NFS3_FHSIZE)
    (h : s.Orderly lib start) (hPc : s.pc t = .out)
    (hOwn : s.Unsent req (s.client.mnt.reqMsg req)) (hFits : call.CountFits)
    (hEncode : call.encode lib req s.client = some client) :
    ({ s with
      client := client
      asked := update s.asked t (s.asked t ++ [call]) }.goto t (.enter req call)).Orderly lib
        start := by
  have hImage : call.image 0 s.client = call.image 0 start := call.image_congr 0 h.auth h.vn
  obtain ⟨hSmall, hSize⟩ := image_fits hLib call 0 start hFh
  rw [call.encode_eq hLib req s.client (h.sized _) (by rw [h.vn]; exact hFh) hFits, hImage]
    at hEncode
  obtain rfl := Option.some.inj hEncode
  have hRoom : 4 + (call.image 0 start).length ≤
      (s.client.msgData (s.client.mnt.reqMsg req)).length := by
    rw [h.sized]
    omega
  have hHere : (s.client.setMsg (s.client.mnt.reqMsg req)
      (store (s.client.msgData (s.client.mnt.reqMsg req)) 4 (call.image 0 start))
      (4 + (call.image 0 start).length)).Carries (s.client.mnt.reqMsg req) (call.image 0 start) :=
    ⟨⟨_, by omega, Function.update_self ..⟩, Function.update_self ..⟩
  have hNone : (s.pc t).sending = none := by rw [hPc]; rfl
  have hHolds : ¬ (s.pc t).Holds := by rw [hPc]; exact id
  refine ⟨h.guarded.stay (by simp [hPc, SendPc.Holds]) rfl, h.auth, h.vn, ?_, ?_, ?_, ?_, ?_⟩
  · intro msg
    show (update s.client.msgData _ _ msg).length = _
    by_cases hMsg : msg = s.client.mnt.reqMsg req
    · subst hMsg
      rw [Function.update_self, store_length hRoom, h.sized]
    · rw [Function.update_of_ne hMsg, h.sized]
  · -- no other thread has a call in this message
    intro u v hne e he e' he'
    show s.client.mnt.reqMsg e.1 ≠ s.client.mnt.reqMsg e'.1
    by_cases hu : u = t
    · subst hu
      have hv : v ≠ u := Ne.symm hne
      simp only [SendSys.goto, Function.update_self, Function.update_of_ne hv, SendPc.sending,
        Option.mem_def, Option.some.injEq] at he he'
      subst he
      exact fun hSame => (hOwn v e' he').2 hSame.symm
    · by_cases hv : v = t
      · subst hv
        simp only [SendSys.goto, Function.update_self, Function.update_of_ne hu, SendPc.sending,
          Option.mem_def, Option.some.injEq] at he he'
        subst he'
        exact (hOwn u e he).2
      · simp only [SendSys.goto, Function.update_of_ne hu, Function.update_of_ne hv] at he he'
        exact h.apart u v hne e he e' he'
  · intro u
    by_cases hu : u = t
    · subst hu
      rw [SendSys.goto_pc_self]
      exact hHere
    · rw [SendSys.goto_pc_of_ne _ _ hu]
      refine (h.staged u).frame ?_ fun _ => ⟨rfl, rfl⟩
      intro e he
      have hMsg := (hOwn u e he).2
      exact ⟨rfl, Function.update_of_ne hMsg _ _, Function.update_of_ne hMsg _ _⟩
  · exact h.front.frame (congrArg SendPc.gone (current_other h.guarded hHolds rfl rfl)) rfl rfl rfl
  · intro u
    show update s.asked t (s.asked t ++ [call]) u = _
    by_cases hu : u = t
    · subst hu
      rw [Function.update_self, SendSys.goto_pc_self, h.asked u, hNone]
      simp [SendPc.sending, SendSys.goto]
    · rw [Function.update_of_ne hu, h.asked u, SendSys.goto_pc_of_ne _ _ hu]
      rfl

/-- Once the rest of its record is on the wire, a call has gone out whole. -/
theorem Front.snoc {req : ReqId} {call : Nfs3Call} {pos : Nat} {rest : List UInt8}
    (h : Front start s (some (call, pos)))
    (hRest : (sentRecord start s.log.length call).take pos ++ rest =
      sentRecord start s.log.length call)
    (hXid : s'.client.mnt.sendXid = s.client.mnt.sendXid)
    (hLog : s'.log = s.log ++ [(t, req, call)]) (hWire : s'.wire = s.wire ++ rest) : Front start s' none := by
  obtain ⟨hNext, hOut⟩ := h
  refine ⟨?_, ?_⟩
  · rw [hXid, hNext, hLog, List.length_append, List.length_singleton]
  · rw [hWire, hOut, List.append_assoc, hRest, hLog, sentRecords_snoc]

/-- A call that goes out is its thread's newest. -/
theorem callsOf_snoc (u : Fin n) (log : List (Fin n × ReqId × Nfs3Call)) (req : ReqId)
    (call : Nfs3Call) :
    callsOf u (log ++ [(t, req, call)]) = callsOf u log ++ if u = t then [call] else [] := by
  by_cases hu : u = t
  · subst hu
    simp [callsOf]
  · simp [callsOf, hu, Ne.symm hu]

/-- A thread has transmitted all of its message. -/
theorem SendSys.Orderly.whole {req : ReqId} {call : Nfs3Call} {buf : MsgId} {bufsz pos nleft : Nat}
    (h : s.Orderly lib start) (hPc : s.pc t = .send req call buf bufsz pos nleft) :
    ({ s with
      wire := s.wire ++ ((s.client.msgData buf).drop pos).take nleft
      log := s.log ++ [(t, req, call)] }.goto t (.unlock req bufsz)).Orderly lib start := by
  have hHolds : (s.pc t).Holds := by rw [hPc]; trivial
  have hStaged := h.staged t
  have hFront := h.front
  rw [current_eq h.guarded hHolds] at hFront
  rw [hPc] at hStaged hFront
  obtain ⟨-, hSize, ⟨hSum, -⟩, hImage⟩ := hStaged
  have hGuarded : Guarded SendPc.Holds (update s.pc t (.unlock req bufsz)) s.mtx :=
    h.guarded.stay (p := .unlock req bufsz) ⟨fun _ => hHolds, fun _ => trivial⟩ rfl
  refine h.shift (t := t) (p := .unlock req bufsz) ?_ hGuarded h.sized trivial ?_ ?_
  · exact {
      pc := rfl
      auth := rfl
      vn := rfl
      reqMsg := rfl
      sending := by simp [SendPc.sending]
      keep := fun _ _ => ⟨rfl, rfl⟩
      turn := Or.inl hHolds }
  · rw [current_eq hGuarded (t := t) (by simp [SendPc.Holds]), goto_pc_self]
    refine Front.snoc hFront ?_ rfl rfl rfl
    rw [take_of_taken hImage hSum.le, hSum, hSize, List.take_length]
  · intro u
    show s.asked u = callsOf u (s.log ++ [(t, req, call)]) ++ _
    rw [h.asked u, callsOf_snoc]
    by_cases hu : u = t
    · subst hu
      rw [hPc, SendSys.goto_pc_self]
      simp [SendPc.sending]
    · rw [SendSys.goto_pc_of_ne _ _ hu]
      simp [hu]

/-- A request that has been sent is given another message. -/
theorem SendSys.Orderly.exchange {req : ReqId} {msg : MsgId} {data : List UInt8} {len : Nat}
    (h : s.Orderly lib start) (hSent : s.Unsent req msg) (hData : data.length = NCT_MSGSZ_MAX lib) :
    ({ s with
      client := Client.setMsg
        { s.client with
          mnt := { s.client.mnt with reqMsg := update s.client.mnt.reqMsg req msg } }
        msg data len } : SendSys n).Orderly lib start := by
  have hMsg : ∀ u, ∀ e ∈ (s.pc u).sending,
      update s.client.mnt.reqMsg req msg e.1 = s.client.mnt.reqMsg e.1 := fun u e he =>
    Function.update_of_ne (hSent u e he).1 _ _
  refine ⟨h.guarded, h.auth, h.vn, ?_, ?_, ?_, ?_, h.asked⟩
  · intro other
    show (update s.client.msgData msg data other).length = _
    by_cases hOther : other = msg
    · subst hOther
      rw [Function.update_self, hData]
    · rw [Function.update_of_ne hOther, h.sized]
  · intro u v hne e he e' he'
    show update s.client.mnt.reqMsg req msg e.1 ≠ update s.client.mnt.reqMsg req msg e'.1
    rw [hMsg u e he, hMsg v e' he']
    exact h.apart u v hne e he e' he'
  · intro u
    refine (h.staged u).frame ?_ fun _ => ⟨rfl, rfl⟩
    intro e he
    have hOther := (hSent u e he).2
    exact ⟨hMsg u e he, Function.update_of_ne hOther _ _, Function.update_of_ne hOther _ _⟩
  · exact h.front.frame rfl rfl rfl rfl

theorem SendSys.Orderly.at {p : SendPc} (h : s.Orderly lib start) (hPc : s.pc t = p) :
    Staged start s.client s.log.length p :=
  hPc ▸ h.staged t

/-- A thread without the mutex goes on. -/
theorem SendSys.Orderly.outside {p q : SendPc} (mnt : Mnt) (h : s.Orderly lib start)
    (hPc : s.pc t = q) (hHolds : ¬ q.Holds) (hNext : ¬ p.Holds)
    (hMsg : mnt.reqMsg = s.client.mnt.reqMsg) (hLen : mnt.msgLen = s.client.mnt.msgLen)
    (hXid : mnt.sendXid = s.client.mnt.sendXid) (hSending : p.sending = q.sending)
    (hStaged : Staged start { s.client with mnt := mnt } s.log.length p) :
    ({ s with client := { s.client with mnt := mnt } }.goto t p).Orderly lib start := by
  subst hPc
  refine h.goOn rfl ⟨mnt, rfl, hMsg, hLen⟩ ?_ (Or.inr hXid) hSending ⟨rfl, rfl⟩ hStaged ?_
  · exact h.guarded.stay ⟨fun hp => absurd hp hNext, fun hp => absurd hp hHolds⟩ rfl
  · exact h.front.frame (congrArg SendPc.gone (current_other h.guarded hHolds rfl rfl)) hXid rfl rfl

/-- A thread that has the mutex goes on with it. -/
theorem SendSys.Orderly.inside {p q : SendPc} (mnt : Mnt) (wire : List UInt8)
    (events : List SendEvent) (h : s.Orderly lib start) (hPc : s.pc t = q) (hHolds : q.Holds)
    (hNext : p.Holds)
    (hMsg : mnt.reqMsg = s.client.mnt.reqMsg) (hLen : mnt.msgLen = s.client.mnt.msgLen)
    (hSending : p.sending = q.sending)
    (hStaged : Staged start { s.client with mnt := mnt } s.log.length p)
    (hFront : Front start s q.gone →
      Front start { s with client := { s.client with mnt := mnt }, wire := wire } p.gone) :
    ({ s with client := { s.client with mnt := mnt }, wire := wire, events := events }.goto t
      p).Orderly lib start := by
  subst hPc
  have hGuarded : Guarded SendPc.Holds (update s.pc t p) s.mtx :=
    h.guarded.stay ⟨fun _ => hHolds, fun _ => hNext⟩ rfl
  refine h.goOn rfl ⟨mnt, rfl, hMsg, hLen⟩ hGuarded (Or.inl hHolds) hSending ⟨rfl, rfl⟩ hStaged ?_
  have hHere := hFront (current_eq h.guarded hHolds ▸ h.front)
  rw [current_eq hGuarded (t := t) (by simpa using hNext), goto_pc_self]
  exact hHere

/-- A thread that has no xid yet, or has sent all, takes or lets go of the mutex. -/
theorem SendSys.Orderly.handOver {p : SendPc} {m : Monitor.State (Fin n)}
    (h : s.Orderly lib start) (hGuarded : Guarded SendPc.Holds (update s.pc t p) m)
    (hSending : p.sending = (s.pc t).sending)
    (hStaged : Staged start s.client s.log.length p) (hOld : s.current.gone = none)
    (hNew : ({ s with mtx := m }.goto t p).current.gone = none) :
    ({ s with mtx := m }.goto t p).Orderly lib start :=
  h.goOn rfl ⟨_, rfl, rfl, rfl⟩ hGuarded (Or.inr rfl) hSending ⟨rfl, rfl⟩ hStaged
    (h.front.frame (hNew.trans hOld.symm) rfl rfl rfl)

/-- Nothing of the call is on the wire yet. -/
theorem SendSys.Orderly.lock {req : ReqId} {call : Nfs3Call} {msg : MsgId}
    (h : s.Orderly lib start) (hPc : s.pc t = .lock req call msg) (hOwner : s.mtx.owner = none) :
    ({ s with mtx := { s.mtx with owner := some t } }.goto t (.load req call msg)).Orderly lib
      start := by
  have hGuarded : Guarded SendPc.Holds (update s.pc t (.load req call msg))
      { s.mtx with owner := some t } :=
    h.guarded.take hOwner (p := .load req call msg) trivial rfl
  have hStaged := h.at hPc
  refine h.handOver hGuarded (by rw [hPc]; rfl) hStaged ?_ ?_
  · rw [SendSys.current, hOwner]
    rfl
  · rw [current_eq hGuarded (t := t) (by simp [SendPc.Holds]), goto_pc_self]
    rfl

/-- All moves keep it. -/
theorem SendSys.Orderly.step (hLib : lib.FollowsRfcs)
    (hFh : start.mntVn.xvnFh.fhandle3Val.length ≤ NFS3_FHSIZE) (h : s.Orderly lib start)
    (hMove : SendMove lib s s') : s'.Orderly lib start := by
  have hRoom : ∀ (pos : Nat) (w : UInt32), pos ≤ 4 →
      pos + (htonl w).length ≤ NCT_MSGSZ_MAX lib := by
    intro pos w hPos
    obtain ⟨-, hSize⟩ := image_fits hLib .null 0 start hFh
    rw [htonl_length, marksz]
    omega
  cases hMove with
  | issue hPc hOwn hFits hEncode => exact h.issue hLib hFh hPc hOwn hFits hEncode
  | enter hPc => exact h.outside _ hPc id id rfl rfl rfl rfl ⟨rfl, h.at hPc⟩
  | lock hPc hOwner => exact h.lock hPc hOwner
  | load hPc =>
      obtain ⟨hMsg, hImage⟩ := h.at hPc
      exact h.inside s.client.mnt s.wire s.events hPc trivial trivial rfl rfl rfl
        ⟨hMsg, hImage, rfl⟩ id
  | @bump t _ _ _ _ hPc =>
      obtain ⟨hMsg, hImage, hXid⟩ := h.at hPc
      have hFront := h.front
      rw [current_eq (t := t) h.guarded (by simp [hPc, SendPc.Holds]), hPc] at hFront
      obtain ⟨hNext, hOut⟩ := hFront
      refine h.inside _ s.wire s.events hPc trivial trivial rfl rfl rfl
        ⟨hMsg, hImage, hXid.trans hNext⟩ fun _ => ⟨?_, ?_⟩
      · rw [nthXid_succ, ← hNext]
      · exact hOut.trans (List.append_nil _).symm
  | @patch _ _ _ _ xid hPc =>
      obtain ⟨hMsg, hImage, hXid⟩ := h.at hPc
      refine h.write hPc trivial trivial ⟨_, rfl, hMsg⟩ (hRoom 4 xid (le_refl 4)) rfl rfl ?_
      subst hMsg hXid
      exact hImage.patch _
  | enroll hPc => exact h.inside _ s.wire _ hPc trivial trivial rfl rfl rfl (h.at hPc) id
  | name hPc => exact h.inside _ s.wire s.events hPc trivial trivial rfl rfl rfl (h.at hPc) id
  | mark hPc hBuf hLen =>
      have hImage := h.at hPc
      subst hBuf hLen
      refine h.write hPc trivial trivial ⟨_, rfl, rfl⟩ (hRoom 0 _ (Nat.zero_le 4)) rfl rfl
        ⟨rfl, ?_, ⟨Nat.zero_add _, ?_⟩, hImage.mark⟩
      · rw [sentRecord_length]
        exact hImage.2
      · have hLen := hImage.2
        omega
  | send hPc hSome hLeft =>
      obtain ⟨hBuf, hLen, ⟨hSum, -⟩, hImage⟩ := h.at hPc
      refine h.inside s.client.mnt _ s.events hPc trivial trivial rfl rfl rfl
        ⟨hBuf, hLen, by omega, hImage⟩ ?_
      rintro ⟨hNext, hOut⟩
      refine ⟨hNext, ?_⟩
      show s.wire ++ _ = _
      rw [hOut, List.append_assoc, take_of_taken hImage (by omega)]
  | whole hPc => exact h.whole hPc
  | nothing hPc =>
      obtain ⟨-, -, ⟨-, hMore⟩, -⟩ := h.at hPc
      cases hMore
  | @unlock t _ _ hPc =>
      have hHolds : (s.pc t).Holds := by simp [hPc, SendPc.Holds]
      refine h.handOver (h.guarded.release hHolds id rfl) (by rw [hPc]; rfl) trivial ?_ rfl
      rw [current_eq h.guarded hHolds, hPc]
      rfl
  | check hPc => exact h.outside s.client.mnt hPc id id rfl rfl rfl rfl trivial
  | abort => exact ⟨h.guarded, h.auth, h.vn, h.sized, h.apart, h.staged, h.front, h.asked⟩
  | exchange hSent hData => exact h.exchange hSent hData
  | clear =>
      exact ⟨h.guarded, h.auth, h.vn, h.sized, h.apart,
        fun t => (h.staged t).frame (fun _ _ => ⟨rfl, rfl, rfl⟩) fun _ => ⟨rfl, rfl⟩,
        h.front.frame rfl rfl rfl rfl, h.asked⟩

theorem SendSys.Orderly.atStart
    (hData : ∀ msg, (start.msgData msg).length = NCT_MSGSZ_MAX lib) :
    (SendSys.start n start).Orderly lib start where
  guarded t := by simp [SendSys.start, SendPc.Holds, Monitor.State.idle]
  auth := rfl
  vn := rfl
  sized := hData
  apart := by simp [SendSys.start, SendPc.sending]
  staged _ := trivial
  front := ⟨by rw [nthXid]; exact (UInt32.add_zero _).symm, rfl⟩
  asked _ := rfl

theorem run_orderly (hLib : lib.FollowsRfcs)
    (hFh : start.mntVn.xvnFh.fhandle3Val.length ≤ NFS3_FHSIZE)
    (hData : ∀ msg, (start.msgData msg).length = NCT_MSGSZ_MAX lib)
    (run : Run (sendStep lib) (SendsWell lib) (SendSys.start n start) s) : s.Orderly lib start :=
  run.invariant (.atStart hData) fun _ _ _ h hOk hStep => h.step hLib hFh (sendStep_cases hOk hStep)

/-- What a server takes off the stream: a record of one fragment that is a call. -/
def nextCall (bytes : List UInt8) : Option ((CallHeader × Nfs3Args) × List UInt8) :=
  let mark := ntohl (bytes.take marksz)
  let payload := bytes.drop marksz
  if bytes.length < marksz then none
  else if isLast mark ∧ fragmentSize mark ≤ payload.length then
    match getCall.run (payload.take (fragmentSize mark)) with
    | some (call, []) => some (call, payload.drop (fragmentSize mark))
    | _ => none
  else none

/-- The image of a call is read as this call, and no part of it is read at all. -/
theorem WireImage.frames {bytes : List UInt8} {call : CallHeader × Nfs3Args}
    (h : WireImage bytes bytes.length call) : Frames nextCall bytes call := by
  obtain ⟨mark, payload, hBytes, hLast, hSize, hLength, hCall⟩ := h
  rw [← hLength] at hSize
  subst hBytes
  have hWord : ∀ rest, ((htonl mark ++ payload) ++ rest).take marksz = htonl mark ∧
      ((htonl mark ++ payload) ++ rest).drop marksz = payload ++ rest := by
    intro rest
    rw [List.append_assoc, ← htonl_length mark, List.take_left, List.drop_left]
    exact ⟨rfl, rfl⟩
  refine ⟨fun rest => ?_, fun pos hPos => ?_, fun hNil => ?_⟩
  · obtain ⟨hTake, hDrop⟩ := hWord rest
    have hLong : ¬ (htonl mark ++ payload ++ rest).length < marksz := by
      simp only [List.length_append, htonl_length]
      omega
    have hFit : payload.length ≤ (payload ++ rest).length := by simp
    simp only [nextCall, hTake, hDrop, ntohl_htonl, hLong, if_false, hLast, hSize, hFit, and_self,
      if_true, List.take_left, List.drop_left, hCall]
  · by_cases hShort : pos < marksz
    · have hLess : ((htonl mark ++ payload).take pos).length < marksz := by
        rw [List.length_take]
        omega
      simp only [nextCall, hLess, if_true]
    · have hSplit :
          (htonl mark ++ payload).take pos = htonl mark ++ payload.take (pos - marksz) := by
        rw [List.take_append, htonl_length, List.take_of_length_le (by rw [htonl_length]; omega)]
      have hTake : ((htonl mark ++ payload).take pos).take marksz = htonl mark := by
        rw [hSplit, ← htonl_length mark, List.take_left]
      have hDrop :
          ((htonl mark ++ payload).take pos).drop marksz = payload.take (pos - marksz) := by
        rw [hSplit, ← htonl_length mark, List.drop_left]
      have hCut : ¬ fragmentSize mark ≤ (payload.take (pos - marksz)).length := by
        rw [List.length_append, htonl_length] at hPos
        rw [hSize, List.length_take]
        omega
      simp only [nextCall, hTake, hDrop, ntohl_htonl, hCut, and_false, if_false, ite_self]
  · have hZero := congrArg List.length hNil
    simp [marksz] at hZero

/-- The calls as a server reads them. -/
def sentCalls (start : Client) (log : List (Fin n × ReqId × Nfs3Call)) :
    List (CallHeader × Nfs3Args) :=
  log.mapIdx fun i e =>
    (nfsHeader (nthXid start i) e.2.2.proc (authOf (e.2.2.auth start.mntAuth)),
      e.2.2.args start.mntVn.xvnFh.fhandle3Val)

/-- A record is parsed as its call, whatever follows it. -/
theorem sentRecord_frames (hFh : start.mntVn.xvnFh.fhandle3Val.length ≤ NFS3_FHSIZE) (i : Nat)
    (call : Nfs3Call) :
    Frames nextCall (sentRecord start i call)
      (nfsHeader (nthXid start i) call.proc (authOf (call.auth start.mntAuth)),
        call.args start.mntVn.xvnFh.fhandle3Val) := by
  apply WireImage.frames
  rw [sentRecord_length]
  exact wireImage_image call (nthXid start i) start hFh

/-- Records one after another are parsed as their calls. -/
theorem sentRecords_frames (hFh : start.mntVn.xvnFh.fhandle3Val.length ≤ NFS3_FHSIZE)
    (log : List (Fin n × ReqId × Nfs3Call)) :
    List.Forall₂ (Frames nextCall) (sentRecords start log) (sentCalls start log) := by
  apply List.forall₂_iff_get.mpr
  refine ⟨by simp [sentRecords, sentCalls], fun i hi hi' => ?_⟩
  simp only [sentRecords, sentCalls, List.get_eq_getElem, List.getElem_mapIdx]
  exact sentRecord_frames hFh i _

/-- A call of which some bytes may have gone out is that of the thread that has the
mutex, and has not gone out whole. -/
theorem SendSys.Orderly.part {call : Nfs3Call} {pos : Nat} (h : s.Orderly lib start)
    (hGone : s.current.gone = some (call, pos)) :
    ∃ t req, s.mtx.owner = some t ∧ (s.pc t).sending = some (req, call) ∧
      pos < (sentRecord start s.log.length call).length := by
  have hNonempty : 0 < (sentRecord start s.log.length call).length := by
    rw [sentRecord_length]
    omega
  unfold SendSys.current at hGone
  split at hGone
  · cases hGone
  · next t hOwner =>
      have hStaged := h.staged t
      refine ⟨t, ?_⟩
      generalize s.pc t = p at hGone hStaged
      cases p with
      | send req call buf bufsz pos nleft =>
          cases hGone
          obtain ⟨-, hSize, ⟨hSum, hMore⟩, -⟩ := hStaged
          exact ⟨req, hOwner, rfl, by omega⟩
      | patch req | enroll req | name req | mark req =>
          cases hGone
          exact ⟨req, hOwner, rfl, hNonempty⟩
      | _ => cases hGone

/-- However many threads send, in whatever order they get the mutex and however
`send` cuts what they give it, a server that reads the stream gets at every moment
just the calls that have gone out whole, in the order of their xids; what is left
over is a part of the one call that the thread with the mutex is sending. Of the calls
of each thread none is lost or repeated, and they come in the thread's order. -/
theorem stream_of_calls {lib : Tirpc} (hLib : lib.FollowsRfcs) {start : Client}
    (hFh : start.mntVn.xvnFh.fhandle3Val.length ≤ NFS3_FHSIZE)
    (hData : ∀ msg, (start.msgData msg).length = NCT_MSGSZ_MAX lib) {s : SendSys n}
    (run : Run (sendStep lib) (SendsWell lib) (SendSys.start n start) s) :
    (∃ rest, readAll nextCall s.wire = (sentCalls start s.log, rest) ∧
        (rest = [] ∨ ∃ t req call, s.mtx.owner = some t ∧ (s.pc t).sending = some (req, call) ∧
          rest <+: sentRecord start s.log.length call ∧
          rest.length < (sentRecord start s.log.length call).length)) ∧
      ∀ t, ∃ left, s.asked t = callsOf t s.log ++ left ∧ left.length ≤ 1 ∧
        (s.pc t = .out → left = []) := by
  have h := run_orderly hLib hFh hData run
  refine ⟨?_, fun t => ⟨_, h.asked t, ?_, fun hPc => by rw [hPc]; rfl⟩⟩
  · have hFront := h.front
    cases hGone : s.current.gone with
    | none =>
        rw [hGone] at hFront
        have hEmpty : readAll nextCall [] = ([], []) := Framed.readAll_none rfl
        have hAll := Framed.readAll_flatten (sentRecords_frames hFh s.log) []
        rw [List.append_nil, hEmpty, List.append_nil, ← hFront.2] at hAll
        exact ⟨[], hAll, Or.inl rfl⟩
    | some e =>
        obtain ⟨call, pos⟩ := e
        obtain ⟨t, req, hOwner, hSending, hPart⟩ := h.part hGone
        have hCut := Framed.readAll_cut (sentRecords_frames hFh s.log)
          (sentRecord_frames hFh s.log.length call) hPart
        rw [hGone] at hFront
        rw [← hFront.2] at hCut
        refine ⟨_, hCut, Or.inr ⟨t, req, call, hOwner, hSending, List.take_prefix _ _, ?_⟩⟩
        rw [List.length_take]
        omega
  · cases (s.pc t).sending <;> simp

end

/-- A client with an AUTH_UNIX credential, and a message for each request. -/
def sendingClient : Client :=
  { unixClient with mnt := { unixClient.mnt with reqMsg := fun req => req } }

def pinger : Fin 2 := ⟨0, by decide⟩

def reader : Fin 2 := ⟨1, by decide⟩

def secondReq : ReqId := ⟨firstReq.val + 1, by decide⟩

/-- The second thread begins while the first one is between two `send` calls. -/
def turns : List (SendAct 2) :=
  [.issue pinger firstReq .null] ++ List.replicate 9 (.go pinger 7) ++
    [.issue reader secondReq (.read 0 4096), .go reader 1, .go pinger 100, .go pinger 1] ++
    List.replicate 7 (.go reader 1) ++ [.go reader 30, .go reader 300, .go reader 1]

/-- What has gone out then. -/
def turnsLog : List (Fin 2 × ReqId × Nfs3Call) :=
  [(pinger, firstReq, .null), (reader, secondReq, .read 0 4096)]

/-- Two threads take turns, and all that they ask for has gone out. -/
theorem stream_of_calls_turns : ∃ s : SendSys 2,
    readAll nextCall s.wire = (sentCalls sendingClient turnsLog, []) := by
  have hRun : ∃ s : SendSys 2, Run (sendStep rfcTirpc) (SendsWell rfcTirpc)
      (SendSys.start 2 sendingClient) s ∧ (s.log = turnsLog ∧ s.mtx.owner = none) :=
    Run.of_exec_any turns (by decide +kernel)
  obtain ⟨s, run, hLog, hFree⟩ := hRun
  obtain ⟨⟨rest, hRead, hRest⟩, -⟩ := stream_of_calls rfcTirpc_follows (by decide)
    (fun _ => List.length_replicate) run
  rcases hRest with rfl | ⟨t, req, call, hOwner, -⟩
  · rw [hLog] at hRead
    exact ⟨s, hRead⟩
  · cases hFree.symm.trans hOwner

end Nct
