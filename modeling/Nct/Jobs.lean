import Nct.Req

/-! The three tests: their start functions and reply callbacks. Each does some
private work on its request, then frees or sends it, and returns a status. -/
namespace Nct

def ETIMEDOUT : UInt32 := 110

def EINVAL : UInt32 := 22

/-- One operation a test does on a request that it holds. -/
inductive Prep where
  /-- set `req_tsc_finish` and `req_cb` -/
  | arm (job : Job)
  /-- `offset = __sync_fetch_and_add(&priv->pr_offset, priv->pr_length)` -/
  | fetchAdd
  /-- return EINVAL if the read would end past the end of the file -/
  | refuse
  /-- if the read would end past the end of the file, load `pr_offset` ... -/
  | load
  /-- ... and `offset = __sync_fetch_and_sub(&priv->pr_offset, ...)` -/
  | fetchSub
  /-- `req->req_tsc_start = rdtsc()` -/
  | stamp
  /-- `nct_nfs_*_encode(req)` -/
  | encode (job : Job)
  deriving DecidableEq, Repr

/-- What the test does with the request in the end. -/
inductive Give where
  | free
  | send
  deriving DecidableEq, Repr

/-- The value returned: one known before the request is given away, or its
`req_msg->msg_stat` read after that. -/
inductive Ret where
  | value (rc : UInt32)
  | msgStat
  deriving DecidableEq, Repr

/-- What is left to do of a callback or start function. -/
structure Plan where
  prep : List Prep
  give : Give
  ret : Ret
  deriving DecidableEq, Repr

def testNullCb (mnt : Mnt) (req : ReqId) : Plan :=
  let stat := mnt.msgStat (mnt.reqMsg req)
  if stat ≠ RPC_SUCCESS then ⟨[], .free, .value stat⟩
  else if mnt.reqTscStop req ≥ mnt.reqTscFinish req then ⟨[], .free, .value ETIMEDOUT⟩
  else ⟨[.stamp, .encode .null], .send, .value 0⟩

/-- `status` is what the uninitialised `res.status` holds. -/
def testGetattrCb (xdr : XdrInts) (mnt : Mnt) (req : ReqId) (status : UInt32) : Plan :=
  let stat := mnt.msgStat (mnt.reqMsg req)
  if stat ≠ RPC_SUCCESS then ⟨[], .free, .value stat⟩
  else
    let res := xdrGetattr3Decode xdr status (mnt.msgBody (mnt.reqMsg req))
    if res.attributes = none then ⟨[], .free, .value res.status⟩
    else if mnt.reqTscStop req ≥ mnt.reqTscFinish req then ⟨[], .free, .value ETIMEDOUT⟩
    else ⟨[.stamp, .encode .getattr], .send, .value 0⟩

def testReadCb (mnt : Mnt) (req : ReqId) : Plan :=
  if mnt.msgStat (mnt.reqMsg req) ≠ RPC_SUCCESS then ⟨[], .free, .msgStat⟩
  else if mnt.reqTscStop req ≥ mnt.reqTscFinish req then ⟨[], .free, .value ETIMEDOUT⟩
  else ⟨[.fetchAdd, .load, .fetchSub, .stamp, .encode .read], .send, .value 0⟩

def Job.cb (xdr : XdrInts) : Job → Mnt → ReqId → UInt32 → Plan
  | .null, mnt, req, _ => testNullCb mnt req
  | .getattr, mnt, req, status => testGetattrCb xdr mnt req status
  | .read, mnt, req, _ => testReadCb mnt req

def testNullStart : Plan := ⟨[.arm .null, .stamp, .encode .null], .send, .value 0⟩

def testGetattrStart : Plan := ⟨[.arm .getattr, .stamp, .encode .getattr], .send, .value 0⟩

def testReadStart : Plan :=
  ⟨[.arm .read, .fetchAdd, .refuse, .stamp, .encode .read], .send, .value 0⟩

def Job.start : Job → Plan
  | .null => testNullStart
  | .getattr => testGetattrStart
  | .read => testReadStart

/-- The value a plan returns, where `late` is the `msg_stat` found in the end. -/
def Ret.eval (late : UInt32) : Ret → UInt32
  | .value rc => rc
  | .msgStat => late

/-- The request is encoded and sent again and the job goes on. -/
def Plan.Continues (p : Plan) (job : Job) (late : UInt32) : Prop :=
  p.give = .send ∧ p.prep.count (.encode job) = 1 ∧ p.ret.eval late = 0

/-- The request goes back to the pool and the job ends. -/
def Plan.Ends (p : Plan) (job : Job) (late : UInt32) : Prop :=
  p.give = .free ∧ p.prep.count (.encode job) = 0 ∧ p.ret.eval late ≠ 0

/-- Exactly one of the two happens. -/
def Plan.Settles (p : Plan) (job : Job) (late : UInt32) : Prop :=
  Xor (p.Continues job late) (p.Ends job late)

/-- The reply to a GETATTR is a success whose result is NFS3_OK but cut short,
or shorter than a status word when `res.status` happens to be zero. -/
def CutShort (mnt : Mnt) (req : ReqId) (status : UInt32) : Prop :=
  let body := mnt.msgBody (mnt.reqMsg req)
  mnt.msgStat (mnt.reqMsg req) = RPC_SUCCESS ∧
    ((body.length < 4 ∧ status = NFS3_OK) ∨
      (4 ≤ body.length ∧ body.length < 88 ∧ ntohl (body.take 4) = NFS3_OK))

/-- The replies and late reads on which a callback keeps to the convention that
non-zero means the job has ended. -/
def Job.Keeps : Job → Mnt → ReqId → UInt32 → UInt32 → Prop
  | .null, _, _, _, _ => True
  | .getattr, mnt, req, status, _ => ¬ CutShort mnt req status
  | .read, mnt, req, _, late => mnt.msgStat (mnt.reqMsg req) ≠ RPC_SUCCESS → late ≠ 0

theorem testNullCb_cases (mnt : Mnt) (req : ReqId) (late : UInt32) :
    (testNullCb mnt req).Continues .null late ∨ (testNullCb mnt req).Ends .null late := by
  unfold testNullCb
  by_cases hStat : mnt.msgStat (mnt.reqMsg req) = RPC_SUCCESS
  · by_cases hStop : mnt.reqTscStop req ≥ mnt.reqTscFinish req
    · right
      simp only [hStat, ne_eq, not_true, if_false, hStop, if_true]
      exact ⟨rfl, rfl, show ETIMEDOUT ≠ 0 by decide⟩
    · left
      simp only [hStat, ne_eq, not_true, if_false, hStop]
      exact ⟨rfl, rfl, rfl⟩
  · right
    simp only [ne_eq, hStat, not_false_eq_true, if_true]
    exact ⟨rfl, rfl, hStat⟩

/-- One of the two happens on every reply but those `Keeps` leaves out. -/
theorem cb_continues_or_ends_iff (xdr : XdrInts) (job : Job) (mnt : Mnt) (req : ReqId) (status late : UInt32) :
    ((job.cb xdr mnt req status).Continues job late ∨ (job.cb xdr mnt req status).Ends job late) ↔
      job.Keeps mnt req status late := by
  cases job with
  | null => exact iff_of_true (testNullCb_cases mnt req late) trivial
  | getattr =>
      simp only [Job.cb, Job.Keeps, testGetattrCb]
      by_cases hStat : mnt.msgStat (mnt.reqMsg req) = RPC_SUCCESS
      · have hCut : CutShort mnt req status ↔
            ((xdrGetattr3Decode xdr status (mnt.msgBody (mnt.reqMsg req))).attributes = none ∧
              (xdrGetattr3Decode xdr status (mnt.msgBody (mnt.reqMsg req))).status = NFS3_OK) := by
          rw [getattr3_failed_ok_iff, CutShort]
          simp only [hStat, true_and]
        rw [hCut]
        simp only [hStat, ne_eq, not_true, if_false]
        by_cases hFail :
            (xdrGetattr3Decode xdr status (mnt.msgBody (mnt.reqMsg req))).attributes = none
        · simp [hFail, Plan.Continues, Plan.Ends, Ret.eval, NFS3_OK]
        · by_cases hStop : mnt.reqTscStop req ≥ mnt.reqTscFinish req <;>
            simp [hFail, hStop, Plan.Continues, Plan.Ends, Ret.eval, ETIMEDOUT]
      · have hNot : ¬ CutShort mnt req status := fun h => hStat h.1
        have hNonzero : mnt.msgStat (mnt.reqMsg req) ≠ 0 := hStat
        simp [hStat, hNot, hNonzero, Plan.Continues, Plan.Ends, Ret.eval]
  | read =>
      simp only [Job.cb, Job.Keeps, testReadCb]
      by_cases hStat : mnt.msgStat (mnt.reqMsg req) = RPC_SUCCESS
      · by_cases hStop : mnt.reqTscStop req ≥ mnt.reqTscFinish req <;>
          simp [hStat, hStop, Plan.Continues, Plan.Ends, Ret.eval, ETIMEDOUT]
      · simp [hStat, Plan.Continues, Plan.Ends, Ret.eval]

theorem cb_settles_iff (xdr : XdrInts) (job : Job) (mnt : Mnt) (req : ReqId) (status late : UInt32) :
    (job.cb xdr mnt req status).Settles job late ↔ job.Keeps mnt req status late := by
  have hNotBoth : (job.cb xdr mnt req status).Continues job late →
      ¬ (job.cb xdr mnt req status).Ends job late :=
    fun hSend hFree => Give.noConfusion (hSend.1.symm.trans hFree.1)
  rw [Plan.Settles, xor_iff_or_and_not_and, ← cb_continues_or_ends_iff]
  exact and_iff_left fun h => hNotBoth h.1 h.2

/-- A callback that sends its request again returns zero. -/
theorem cb_send_ret {xdr : XdrInts} {job : Job} {mnt : Mnt} {req : ReqId} {status : UInt32}
    (h : (job.cb xdr mnt req status).give = .send) : (job.cb xdr mnt req status).ret = .value 0 := by
  cases job <;> simp only [Job.cb, testNullCb, testGetattrCb, testReadCb] at h ⊢ <;>
    split_ifs at h ⊢ <;> rfl

/-- A callback that frees its request does not return a plain zero, unless it
is GETATTR's and the reply is cut short. -/
theorem cb_free_ret {xdr : XdrInts} {job : Job} {mnt : Mnt} {req : ReqId} {status : UInt32}
    (hWhole : job = .getattr → ¬ CutShort mnt req status)
    (h : (job.cb xdr mnt req status).give = .free) : (job.cb xdr mnt req status).ret ≠ .value 0 := by
  intro hZero
  have hKeeps : job.Keeps mnt req status 1 := by
    cases job with
    | null => trivial
    | getattr => exact hWhole rfl
    | read => exact fun _ => by decide
  rcases (cb_continues_or_ends_iff xdr job mnt req status 1).mpr hKeeps with hSend | hEnds
  · exact Give.noConfusion (h.symm.trans hSend.1)
  · exact hEnds.2.2 (by rw [hZero]; rfl)

end Nct
