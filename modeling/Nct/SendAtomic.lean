import Nct.SendStream

/-! `nct_req_send` as one operation. What concurrent senders and the receive threads
leave of the table, the xids and the counter is what whole sends would leave, done
one at a time in the order in which their requests get into the table. -/
namespace Nct

open Function (update)
open Transition (Run exec)

def SendEvent.apply (mnt : Mnt) : SendEvent → Mnt
  | .send req => reqSend mnt req
  | .clear xid => clearSlot mnt xid

def replaySends (mnt : Mnt) (events : List SendEvent) : Mnt := events.foldl SendEvent.apply mnt

theorem replaySends_snoc (mnt : Mnt) (events : List SendEvent) (event : SendEvent) :
    replaySends mnt (events ++ [event]) = event.apply (replaySends mnt events) := by
  rw [replaySends, replaySends, List.foldl_append]
  rfl

def sentReqs (events : List SendEvent) : List ReqId :=
  events.filterMap fun
    | .send req => some req
    | .clear _ => none

/-- The counter tells how many calls have got their xid. -/
theorem replaySends_sendXid (start : Client) (events : List SendEvent) :
    (replaySends start.mnt events).sendXid = nthXid start (sentReqs events).length := by
  induction events using List.reverseRecOn with
  | nil => exact (UInt32.add_zero _).symm
  | append_singleton events event ih =>
      rw [replaySends_snoc, sentReqs, List.filterMap_append, List.length_append]
      cases event with
      | send req =>
          show (replaySends start.mnt events).sendXid + 11 =
            nthXid start ((sentReqs events).length + 1)
          rw [ih, nthXid_succ]
      | clear xid => exact ih

/-- The request that the thread has put into the table, with its call not whole. -/
def SendPc.enrolled : SendPc → Option ReqId
  | .name req _ _ => some req
  | .mark req _ => some req
  | .send req _ _ _ _ _ => some req
  | _ => none

/-- How the counter and the xids stand to those of whole sends, by the place of the
thread that has the mutex. -/
def Midway (m mnt : Mnt) : SendPc → Prop
  | .bump _ _ _ xid => xid = m.sendXid ∧ mnt.sendXid = m.sendXid ∧ mnt.reqXid = m.reqXid
  | .patch _ _ _ xid => xid = m.sendXid ∧ mnt.sendXid = m.sendXid + 11 ∧ mnt.reqXid = m.reqXid
  | .enroll _ _ xid => xid = m.sendXid ∧ mnt.sendXid = m.sendXid + 11 ∧ mnt.reqXid = m.reqXid
  | .name req _ xid => mnt.sendXid = m.sendXid ∧ update mnt.reqXid req xid = m.reqXid
  | _ => mnt.sendXid = m.sendXid ∧ mnt.reqXid = m.reqXid

variable {n : Nat} {lib : Tirpc} {start : Client} {s s' : SendSys n} {t : Fin n}

/-- The table is that of whole sends, and the rest is on its way there. -/
structure SendSys.Replays (start : Client) (s : SendSys n) : Prop where
  tbl : s.client.mnt.reqTbl = (replaySends start.mnt s.events).reqTbl
  midway : Midway (replaySends start.mnt s.events) s.client.mnt s.current
  order : sentReqs s.events = s.log.map (fun e => e.2.1) ++ s.current.enrolled.toList

theorem SendSys.Replays.atStart : (SendSys.start n start).Replays start :=
  ⟨rfl, ⟨rfl, rfl⟩, rfl⟩

/-- A step that the thread with the mutex does not take, and that keeps the table. -/
theorem SendSys.Replays.frame (h : s.Replays start) (hCurrent : s'.current = s.current)
    (hTbl : s'.client.mnt.reqTbl = s.client.mnt.reqTbl)
    (hXid : s'.client.mnt.sendXid = s.client.mnt.sendXid)
    (hXids : s'.client.mnt.reqXid = s.client.mnt.reqXid) (hEvents : s'.events = s.events)
    (hLog : s'.log = s.log) : s'.Replays start := by
  refine ⟨by rw [hTbl, hEvents]; exact h.tbl, ?_, by rw [hEvents, hLog, hCurrent]; exact h.order⟩
  have hMidway := h.midway
  rw [hEvents, hCurrent]
  cases hPc : s.current <;> simpa only [hPc, Midway, hXid, hXids] using hMidway

/-- Encoding a call writes to its message only. -/
theorem Nfs3Call.encode_mnt {call : Nfs3Call} {req : ReqId} {c c' : Client}
    (h : call.encode lib req c = some c') :
    c'.mnt.reqTbl = c.mnt.reqTbl ∧ c'.mnt.sendXid = c.mnt.sendXid ∧
      c'.mnt.reqXid = c.mnt.reqXid := by
  have hCommon : ∀ proc auth xdrproc, nfsEncode lib proc auth xdrproc req c = some c' →
      c'.mnt.reqTbl = c.mnt.reqTbl ∧ c'.mnt.sendXid = c.mnt.sendXid ∧
        c'.mnt.reqXid = c.mnt.reqXid := by
    intro proc auth xdrproc hEncode
    obtain ⟨_, -, rfl⟩ := Option.map_eq_some_iff.mp hEncode
    exact ⟨rfl, rfl, rfl⟩
  cases call <;> exact hCommon _ _ _ h

/-- A step of the thread that has the mutex, and keeps it. -/
theorem SendSys.Replays.owner {p q : SendPc} (h : s.Replays start) (hOrderly : s.Orderly lib start)
    (hNext : s'.Orderly lib start) (hPc : s.pc t = q) (hPc' : s'.pc t = p) (hHolds : q.Holds)
    (hHolds' : p.Holds)
    (hStep : s.client.mnt.reqTbl = (replaySends start.mnt s.events).reqTbl →
      Midway (replaySends start.mnt s.events) s.client.mnt q →
      sentReqs s.events = s.log.map (fun e => e.2.1) ++ q.enrolled.toList →
        s'.client.mnt.reqTbl = (replaySends start.mnt s'.events).reqTbl ∧
          Midway (replaySends start.mnt s'.events) s'.client.mnt p ∧
            sentReqs s'.events = s'.log.map (fun e => e.2.1) ++ p.enrolled.toList) :
    s'.Replays start := by
  subst hPc hPc'
  have hHere := SendSys.current_eq hOrderly.guarded hHolds
  obtain ⟨hTbl, hMidway, hOrder⟩ := hStep h.tbl (hHere ▸ h.midway) (hHere ▸ h.order)
  rw [← SendSys.current_eq hNext.guarded hHolds'] at hMidway hOrder
  exact ⟨hTbl, hMidway, hOrder⟩

/-- A send counts when its thread has written the table. -/
theorem SendSys.Replays.step (h : s.Replays start) (hOrderly : s.Orderly lib start)
    (hNext : s'.Orderly lib start) (hMove : SendMove lib s s') : s'.Replays start := by
  have hGuarded := hOrderly.guarded
  cases hMove with
  | issue hPc hOwn hFits hEncode =>
      obtain ⟨hTbl, hXid, hXids⟩ := Nfs3Call.encode_mnt hEncode
      exact h.frame (current_other hGuarded (by rw [hPc]; exact id) rfl rfl) hTbl hXid hXids rfl rfl
  | enter hPc =>
      exact h.frame (current_other hGuarded (by rw [hPc]; exact id) rfl rfl) rfl rfl rfl rfl rfl
  | check hPc =>
      exact h.frame (current_other hGuarded (by rw [hPc]; exact id) rfl rfl) rfl rfl rfl rfl rfl
  | @lock t _ _ _ hPc hOwner =>
      have hHere : s.current = .out := by rw [SendSys.current, hOwner]
      refine ⟨h.tbl, ?_, ?_⟩ <;>
        rw [current_eq (t := t) hNext.guarded (by simp [SendPc.Holds]), goto_pc_self]
      · exact (hHere ▸ h.midway : Midway _ _ .out)
      · exact (hHere ▸ h.order : _ = _ ++ SendPc.out.enrolled.toList)
  | load hPc =>
      exact h.owner hOrderly hNext hPc (goto_pc_self ..) trivial trivial
        fun hTbl hMid hOrder => ⟨hTbl, ⟨hMid.1, hMid⟩, hOrder⟩
  | bump hPc =>
      exact h.owner hOrderly hNext hPc (goto_pc_self ..) trivial trivial
        fun hTbl hMid hOrder => ⟨hTbl, ⟨hMid.1, congrArg (· + 11) hMid.2.1, hMid.2.2⟩, hOrder⟩
  | patch hPc | mark hPc =>
      exact h.owner hOrderly hNext hPc (goto_pc_self ..) trivial trivial
        fun hTbl hMid hOrder => ⟨hTbl, hMid, hOrder⟩
  | @enroll t req call xid hPc =>
      refine h.owner hOrderly hNext hPc (goto_pc_self ..) trivial trivial ?_
      rintro hTbl ⟨rfl, hXid, hXids⟩ hOrder
      show _ = (replaySends start.mnt (s.events ++ [.send req])).reqTbl ∧
        Midway (replaySends start.mnt (s.events ++ [.send req])) _ _ ∧
          sentReqs (s.events ++ [.send req]) = _
      rw [replaySends_snoc, sentReqs, List.filterMap_append]
      refine ⟨?_, ⟨hXid, ?_⟩, ?_⟩
      · show update s.client.mnt.reqTbl _ _ = update _ _ _
        rw [hTbl]
      · show update s.client.mnt.reqXid _ _ = update _ _ _
        rw [hXids]
      · exact congrArg (· ++ [req]) (hOrder.trans (List.append_nil _))
  | name hPc =>
      exact h.owner hOrderly hNext hPc (goto_pc_self ..) trivial trivial
        fun hTbl hMid hOrder => ⟨hTbl, hMid, hOrder⟩
  | send hPc hSome hLeft =>
      exact h.owner hOrderly hNext hPc (goto_pc_self ..) trivial trivial
        fun hTbl hMid hOrder => ⟨hTbl, hMid, hOrder⟩
  | whole hPc =>
      refine h.owner hOrderly hNext hPc (goto_pc_self ..) trivial trivial ?_
      rintro hTbl hMid hOrder
      refine ⟨hTbl, hMid, hOrder.trans ?_⟩
      simp [SendPc.enrolled, SendSys.goto]
  | nothing hPc =>
      obtain ⟨-, -, ⟨-, hMore⟩, -⟩ := hOrderly.at hPc
      cases hMore
  | @unlock t _ _ hPc =>
      have hHere := current_eq (t := t) hGuarded (by simp [hPc, SendPc.Holds])
      rw [hPc] at hHere
      refine ⟨h.tbl, ?_, ?_⟩
      · exact (hHere ▸ h.midway : Midway _ _ (.unlock _ _))
      · exact (hHere ▸ h.order : _ = _ ++ (SendPc.unlock _ _).enrolled.toList)
  | abort => exact h.frame rfl rfl rfl rfl rfl rfl
  | exchange hSent hData => exact h.frame rfl rfl rfl rfl rfl rfl
  | @clear xid =>
      have hMidway := h.midway
      refine ⟨?_, ?_, ?_⟩
      · show update s.client.mnt.reqTbl _ _ =
          (replaySends start.mnt (s.events ++ [.clear xid])).reqTbl
        rw [replaySends_snoc, h.tbl]
        rfl
      · show Midway (replaySends start.mnt (s.events ++ [.clear xid])) _ s.current
        rw [replaySends_snoc]
        cases hPc : s.current <;> rw [hPc] at hMidway <;> exact hMidway
      · show sentReqs (s.events ++ [.clear xid]) = _
        rw [sentReqs, List.filterMap_append]
        exact (List.append_nil _).trans h.order

/-- `nct_req_send` is one operation on the table. At every moment the table is as
whole sends and the clearings would leave it, one after another in the order in which
they reached it; when no thread has the mutex, so are the xids and the counter, the
sends are those whose calls have gone out, in the order of the stream, and as many
xids have been given out. -/
theorem sends_atomic {lib : Tirpc} (hLib : lib.FollowsRfcs) {start : Client}
    (hFh : start.mntVn.xvnFh.fhandle3Val.length ≤ NFS3_FHSIZE)
    (hData : ∀ msg, (start.msgData msg).length = NCT_MSGSZ_MAX lib) {s : SendSys n}
    (run : Run (sendStep lib) (SendsWell lib) (SendSys.start n start) s) :
    let m := replaySends start.mnt s.events
    s.client.mnt.reqTbl = m.reqTbl ∧
      (s.mtx.owner = none →
        s.client.mnt.sendXid = m.sendXid ∧ s.client.mnt.reqXid = m.reqXid ∧
          sentReqs s.events = s.log.map (fun e => e.2.1) ∧
            m.sendXid = nthXid start s.log.length) := by
  have hBoth : s.Orderly lib start ∧ s.Replays start := by
    refine run.invariant (P := fun s => s.Orderly lib start ∧ s.Replays start)
      ⟨.atStart hData, .atStart⟩ fun s act s' h hOk hStep => ?_
    have hMove := sendStep_cases hOk hStep
    have hNext := h.1.step hLib hFh hMove
    exact ⟨hNext, h.2.step h.1 hNext hMove⟩
  obtain ⟨-, h⟩ := hBoth
  refine ⟨h.tbl, fun hFree => ?_⟩
  have hHere : s.current = .out := by rw [SendSys.current, hFree]
  have hMidway := h.midway
  have hOrder := h.order
  rw [hHere] at hMidway hOrder
  obtain ⟨hXid, hXids⟩ := hMidway
  have hSame : sentReqs s.events = s.log.map (fun e => e.2.1) := hOrder.trans (List.append_nil _)
  refine ⟨hXid, hXids, hSame, ?_⟩
  rw [replaySends_sendXid, hSame, List.length_map]

theorem sends_atomic_turns : ∃ s : SendSys 2,
    s.client.mnt.reqTbl = (replaySends sendingClient.mnt s.events).reqTbl ∧
      s.client.mnt.sendXid = nthXid sendingClient 2 := by
  have hRun : ∃ s : SendSys 2, Run (sendStep rfcTirpc) (SendsWell rfcTirpc)
      (SendSys.start 2 sendingClient) s ∧ (s.log.length = 2 ∧ s.mtx.owner = none) :=
    Run.of_exec_any turns (by decide +kernel)
  obtain ⟨s, run, hLog, hFree⟩ := hRun
  obtain ⟨hTbl, hRest⟩ := sends_atomic rfcTirpc_follows (by decide)
    (fun _ => List.length_replicate) run
  obtain ⟨hXid, -, -, hCount⟩ := hRest hFree
  exact ⟨s, hTbl, by rw [hXid, hCount, hLog]⟩

end Nct
