import Nct.Rpc
import Nct.System

/-! The error paths of receiving: what `nct_req_recv_loop` and `nct_nfs_mount`
make of the value that `nct_rpc_recv` returns. -/
namespace Nct

open Delivery

/-- Of the calls made between two logs, one has returned -1 just if `failed`. -/
def Logs (before after : List RecvCall) (failed : Prop) : Prop :=
  ∃ new, after = before ++ new ∧ (failed ↔ ∃ call ∈ new, call.got = -1)

theorem Logs.none (calls : List RecvCall) : Logs calls calls False :=
  ⟨[], by simp, by simp⟩

/-- One more call. -/
theorem Logs.one (calls : List RecvCall) (call : RecvCall) {failed : Prop}
    (h : failed ↔ call.got = -1) : Logs calls (calls ++ [call]) failed :=
  ⟨[call], rfl, by simpa using h⟩

/-- Calls one after another are logged one after another. -/
theorem Logs.trans {first second third : List RecvCall} {failed : Prop}
    (h : Logs first second False) (hNext : Logs second third failed) : Logs first third failed := by
  obtain ⟨new, rfl, hNew⟩ := h
  obtain ⟨more, rfl, hMore⟩ := hNext
  refine ⟨new ++ more, by rw [List.append_assoc], hMore.trans ?_⟩
  have hOld : ¬ ∃ call ∈ new, call.got = -1 := hNew.mpr
  constructor
  · rintro ⟨call, hMem, hGot⟩
    exact ⟨call, List.mem_append_right _ hMem, hGot⟩
  · rintro ⟨call, hMem, hGot⟩
    rcases List.mem_append.mp hMem with hIn | hIn
    · exact absurd ⟨call, hIn, hGot⟩ hOld
    · exact ⟨call, hIn, hGot⟩

theorem Logs.congr {before after : List RecvCall} {failed failed' : Prop}
    (h : Logs before after failed) (hSame : failed' ↔ failed) : Logs before after failed' := by
  obtain ⟨new, hNew, hFailed⟩ := h
  exact ⟨new, hNew, hSame.trans hFailed⟩

/-- A receive returns -1 just if it has failed. -/
theorem returned_eq_neg_one {got : Got UInt8} : returned got = -1 ↔ got = .failed := by
  cases got with
  | bytes bs => simp [returned]
  | closed => simp [returned]
  | failed => simp [returned]

/-- A receive logs one call. -/
theorem recv_logs {s s' : Sock} {pos n : Nat} {got : Got UInt8} (h : s.recv pos n = (got, s')) :
    Logs s.calls s'.calls (got = .failed) := by
  obtain ⟨rfl, rfl⟩ := Prod.mk.inj h
  exact Logs.one _ _ returned_eq_neg_one.symm

/-- The receive of a mark logs its calls, and nothing if a mark was read ahead. -/
theorem readMark_logs {markp : Option UInt32} {sock left : Sock} {res : Except Int UInt32}
    (h : readMark markp sock = (res, left)) :
    Logs sock.calls left.calls (res = .error (-1)) ∧ ∀ cc, res = .error cc → cc = 0 ∨ cc = -1 := by
  by_cases hMark : markp.getD 0 = 0
  · rcases hRecv : sock.recvMark with ⟨got, sock'⟩
    have hLogs : Logs sock.calls sock'.calls (got = .failed) := by
      obtain ⟨rfl, rfl⟩ := Prod.mk.inj hRecv
      exact Logs.one _ _ returned_eq_neg_one.symm
    cases got with
    | closed =>
        simp only [readMark, hMark, hRecv, beq_self_eq_true, if_true, Prod.mk.injEq] at h
        obtain ⟨rfl, rfl⟩ := h
        exact ⟨hLogs.congr (by simp), fun cc hcc => by cases hcc; exact Or.inl rfl⟩
    | failed =>
        simp only [readMark, hMark, hRecv, beq_self_eq_true, if_true, Prod.mk.injEq] at h
        obtain ⟨rfl, rfl⟩ := h
        exact ⟨hLogs.congr (by simp), fun cc hcc => by cases hcc; exact Or.inr rfl⟩
    | bytes bs =>
        simp only [readMark, hMark, hRecv, beq_self_eq_true, if_true, Prod.mk.injEq] at h
        obtain ⟨rfl, rfl⟩ := h
        by_cases hLen : bs.length = marksz
        · simp only [hLen, bne_self_eq_false, Bool.false_eq_true, if_false]
          exact ⟨hLogs.congr (by simp), fun cc hcc => by cases hcc⟩
        · simp only [bne_iff_ne.mpr hLen, if_true]
          exact ⟨hLogs.congr (by simp), fun cc hcc => by cases hcc; exact Or.inl rfl⟩
  · simp only [readMark, beq_eq_false_iff_ne.mpr hMark, Bool.false_eq_true, if_false,
      Prod.mk.injEq] at h
    obtain ⟨rfl, rfl⟩ := h
    exact ⟨(Logs.none _).congr (by simp), fun cc hcc => by cases hcc⟩

/-- The payload loop fails with -1 just if one of its `recv` calls did. -/
theorem recvPayload_logs (last : Bool) (nleft : Nat) (f : Frame) :
    Logs f.sock.calls (recvPayload last nleft f).2.sock.calls
        ((recvPayload last nleft f).1 = .failed (-1)) ∧
      ∀ cc, (recvPayload last nleft f).1 = .failed cc → cc = 0 ∨ cc = -1 := by
  fun_induction recvPayload with
  | case1 nleft f hn sock h =>
      refine ⟨(recv_logs h).congr (by simp), fun cc hcc => ?_⟩
      cases hcc
      exact Or.inl rfl
  | case2 nleft f hn sock h =>
      refine ⟨(recv_logs h).congr (by simp), fun cc hcc => ?_⟩
      cases hcc
      exact Or.inr rfl
  | case3 nleft f hn bs sock h nleft' f' hStop =>
      exact ⟨(recv_logs h).congr (by simp), fun cc hcc => by cases hcc⟩
  | case4 nleft f hn bs sock h nleft' f' hStop ih =>
      exact ⟨((recv_logs h).congr (by simp)).trans ih.1, ih.2⟩
  | case5 nleft f hn => exact ⟨(Logs.none _).congr (by simp), fun cc hcc => by cases hcc⟩

/-- What a call of `nct_rpc_recv` returns, next to what its `recv` calls did. -/
structure Reports (before : List RecvCall) (out : RecvOut) : Prop where
  logs : Logs before out.frame.sock.calls (out.result = .failed (-1))
  failed : ∀ cc, out.result = .failed cc → cc = 0 ∨ cc = -1
  size : ∀ n, out.result = .record n → n < 2 ^ 32

/-- What is returned tells of the calls that were made. -/
theorem recvAgain_reports (markp : Option UInt32) (f : Frame) :
    Reports f.sock.calls (recvAgain markp f) := by
  fun_induction recvAgain with
  | case1 markp f cc sock hMark =>
      obtain ⟨hLogs, hCc⟩ := readMark_logs hMark
      refine ⟨hLogs.congr (by simp), fun cc' h => ?_, fun n h => by cases h⟩
      cases h
      exact hCc cc rfl
  | case2 markp f mark sock hMark recsz hLarge =>
      exact ⟨(readMark_logs hMark).1.congr (by simp), fun cc h => (by cases h), fun n h => by cases h⟩
  | case3 markp f mark sock hMark last recsz hFit nleft cc g hLoop =>
      obtain ⟨hLogs, hCc⟩ := recvPayload_logs last nleft { f with sock }
      rw [hLoop] at hLogs hCc
      refine ⟨((readMark_logs hMark).1.congr (by simp)).trans (hLogs.congr (by simp)),
        fun cc' h => ?_, fun n h => by cases h⟩
      cases h
      exact hCc cc rfl
  | case4 markp f mark sock hMark last recsz hFit nleft g hLoop =>
      obtain ⟨hLogs, -⟩ := recvPayload_logs last nleft { f with sock }
      rw [hLoop] at hLogs
      refine ⟨((readMark_logs hMark).1.congr (by simp)).trans (hLogs.congr (by simp)),
        fun cc h => (by cases h), fun n h => ?_⟩
      cases h
      exact UInt32.toNat_lt _
  | case5 markp f mark sock hMark last recsz hFit nleft g hLoop kept hLast =>
      obtain ⟨hLogs, -⟩ := recvPayload_logs last nleft { f with sock }
      rw [hLoop] at hLogs
      have hKept : kept.2.sock = g.sock := keepMark_sock markp g
      refine ⟨((readMark_logs hMark).1.congr (by simp)).trans ?_, fun cc h => (by cases h),
        fun n h => ?_⟩
      · rw [hKept]
        exact hLogs.congr (by simp)
      · cases h
        exact UInt32.toNat_lt _
  | case6 markp f mark sock hMark last recsz hFit nleft g hLoop kept hMore ih =>
      obtain ⟨hLogs, -⟩ := recvPayload_logs last nleft { f with sock }
      rw [hLoop] at hLogs
      have hKept : kept.2.sock = g.sock := keepMark_sock markp g
      have hFirst : Logs f.sock.calls kept.2.sock.calls False := by
        rw [hKept]
        exact ((readMark_logs hMark).1.congr (by simp)).trans (hLogs.congr (by simp))
      exact ⟨hFirst.trans ih.logs, ih.failed, ih.size⟩

/-- What the receiving thread of `nct_req_recv_loop` sees of the program:
its message's data area is the buffer. -/
structure Loop where
  mnt : Mnt
  sock : Sock
  buf : List UInt8

/-- Where an iteration goes after its `nct_rpc_recv`. -/
inductive Path where
  | exit
  | reconnect
  | decode (cc : Int)
  | abort
  deriving DecidableEq, Repr

/-- The first part of an iteration, as far as the unlock of `mnt_recv_mtx`. -/
structure Turn where
  before : Loop
  result : RecvResult
  after : Loop
  path : Path

/-- `cc < rpcmin`, where `cc` becomes a `size_t`. -/
def belowMin (cc : Int) : Bool := (cc % 2 ^ 64).toNat < rpcmin

/-- `if (cc < rpcmin) ...` after a call of `nct_rpc_recv`, which may have ended
the program. -/
def RecvResult.path (short : Int → Path) : RecvResult → Path
  | .abort => .abort
  | .record recsz => if belowMin recsz then short recsz else .decode recsz
  | .failed cc => if belowMin cc then short cc else .decode cc

/-- In the receive loop a short value leads out of the loop or to the reconnect. -/
def loopShort (cc : Int) : Path := if cc = 0 then .exit else .reconnect

/-- In `nct_nfs_mount` it ends the program. -/
def mountShort (_ : Int) : Path := .abort

/-- What an iteration makes of its `nct_rpc_recv`. -/
def takeRecv (s : Loop) (out : RecvOut) : Turn :=
  let path := out.result.path loopShort
  let mark := match path with
    | .exit | .reconnect => 0
    | .decode _ | .abort => out.markp.getD s.mnt.recvMark
  { before := s
    result := out.result
    after := ⟨{ s.mnt with recvMark := mark }, out.frame.sock, out.frame.buf⟩
    path }

/-- Receive a record in `nct_req_recv_loop`; `msgszMax` is `NCT_MSGSZ_MAX`. -/
def recvTurn (jobsMax : UInt32) (msgszMax : Nat) (s : Loop) : Turn :=
  takeRecv s (rpcRecv s.sock s.buf msgszMax (if jobsMax > 3 then some s.mnt.recvMark else none))

/-- The iterations of `nct_req_recv_loop`. What the rest of an iteration and the
other threads leave for the next one is taken from the list. -/
def recvLoop (jobsMax : UInt32) (msgszMax : Nat) : Loop → List Loop → List Turn
  | s, [] => [recvTurn jobsMax msgszMax s]
  | s, next :: more =>
      let turn := recvTurn jobsMax msgszMax s
      match turn.path with
      | .exit | .abort => [turn]
      | .reconnect | .decode _ => turn :: recvLoop jobsMax msgszMax next more

/-- Receive the reply in `nct_nfs_mount`, into its local `rxbuf`. -/
def mountRecv (sock : Sock) (rxbuf : List UInt8) : RecvOut × Path :=
  let out := rpcRecv sock rxbuf 1024 none
  (out, out.result.path mountShort)

/-- Only a record that is long enough is decoded. -/
def DecodesRecord (result : RecvResult) (path : Path) : Prop :=
  ∀ cc, path = .decode cc → ∃ n, result = .record n ∧ rpcmin ≤ n ∧ cc = n

/-- An iteration decodes only what it should, and a failure clears the mark and
nothing else of the mount and leads to the reconnect. -/
structure Turn.Right (turn : Turn) : Prop where
  decodes : DecodesRecord turn.result turn.path
  fails : turn.result = .failed (-1) →
    turn.path = .reconnect ∧ turn.after.mnt = { turn.before.mnt with recvMark := 0 }

/-- In `nct_nfs_mount` a failure ends the program. -/
structure MountRight (turn : RecvOut × Path) : Prop where
  decodes : DecodesRecord turn.1.result turn.2
  fails : turn.1.result = .failed (-1) → turn.2 = .abort

/-- A `recv` since `before` has returned -1. -/
def RecvFailed (before after : Sock) : Prop :=
  ∃ call ∈ after.calls.drop before.calls.length, call.got = -1

/-- A length is compared as it is, while it is one of 32 bits. -/
theorem belowMin_record {n : Nat} (h : n < 2 ^ 32) : belowMin n = true ↔ n < rpcmin := by
  have hMod : ((n : Int) % 2 ^ 64).toNat = n := by omega
  rw [belowMin, hMod, decide_eq_true_eq]

/-- The comparison takes -1 for a very large size. -/
theorem belowMin_failed : belowMin (-1) = false := by decide

theorem belowMin_zero : belowMin 0 = true := by decide

/-- A result of -1 stands for a receive that has failed. -/
theorem Reports.failed_iff {sock : Sock} {out : RecvOut} (h : Reports sock.calls out) :
    out.result = .failed (-1) ↔ RecvFailed sock out.frame.sock := by
  obtain ⟨new, hNew, hFailed⟩ := h.logs
  rw [hFailed, RecvFailed, hNew, List.drop_left]

/-- Of all that a call can return only -1 is taken for a record that it is not. -/
theorem Reports.decodes_iff {before : List RecvCall} {out : RecvOut} (h : Reports before out)
    (short : Int → Path) (hShort : ∀ cc cc', short cc ≠ .decode cc') :
    DecodesRecord out.result (out.result.path short) ↔ out.result ≠ .failed (-1) := by
  cases hResult : out.result with
  | abort => exact iff_of_true (fun cc hPath => by cases hPath) (by simp)
  | record n =>
      refine iff_of_true (fun cc hPath => ?_) (by simp)
      simp only [RecvResult.path] at hPath
      split at hPath
      · exact absurd hPath (hShort _ _)
      · next hNot =>
          cases hPath
          have hMin := belowMin_record (h.size n hResult)
          exact ⟨n, rfl, Nat.le_of_not_lt fun hLt => hNot (hMin.mpr hLt), rfl⟩
  | failed cc =>
      rcases h.failed cc hResult with rfl | rfl
      · refine iff_of_true (fun cc hPath => ?_) (by simp)
        rw [RecvResult.path, belowMin_zero, if_pos rfl] at hPath
        exact absurd hPath (hShort _ _)
      · refine iff_of_false (fun hDecodes => ?_) (by simp)
        have hPath : RecvResult.path short (.failed (-1)) = .decode (-1) := by
          rw [RecvResult.path, belowMin_failed, if_neg (by decide)]
        obtain ⟨n, hRecord, -⟩ := hDecodes (-1) hPath
        cases hRecord

theorem rpcRecv_reports (sock : Sock) (buf : List UInt8) (bufsz : Nat) (markp : Option UInt32) :
    Reports sock.calls (rpcRecv sock buf bufsz markp) :=
  recvAgain_reports markp { sock, buf, pos := 0, bufsz }

/-- An iteration does what it should just if no receive has failed. -/
theorem recvTurn_right_iff (jobsMax : UInt32) (msgszMax : Nat) (s : Loop) :
    (recvTurn jobsMax msgszMax s).Right ↔
      ¬ RecvFailed s.sock (recvTurn jobsMax msgszMax s).after.sock := by
  have h := rpcRecv_reports s.sock s.buf msgszMax (if jobsMax > 3 then some s.mnt.recvMark else none)
  have hDecodes := h.decodes_iff loopShort fun cc cc' => by
    unfold loopShort
    split <;> simp
  change _ ↔ ¬ RecvFailed s.sock (rpcRecv s.sock s.buf msgszMax _).frame.sock
  rw [← h.failed_iff]
  exact ⟨fun hRight => hDecodes.mp hRight.decodes,
    fun hNot => ⟨hDecodes.mpr hNot, fun hFailed => absurd hFailed hNot⟩⟩

/-- The receive of `nct_nfs_mount` does what it should just if it has not failed. -/
theorem mountRecv_right_iff (sock : Sock) (rxbuf : List UInt8) :
    MountRight (mountRecv sock rxbuf) ↔ ¬ RecvFailed sock (mountRecv sock rxbuf).1.frame.sock := by
  have h := rpcRecv_reports sock rxbuf 1024 none
  have hDecodes := h.decodes_iff mountShort fun cc cc' => by simp [mountShort]
  change _ ↔ ¬ RecvFailed sock (rpcRecv sock rxbuf 1024 none).frame.sock
  rw [← h.failed_iff]
  exact ⟨fun hRight => hDecodes.mp hRight.decodes,
    fun hNot => ⟨hDecodes.mpr hNot, fun hFailed => absurd hFailed hNot⟩⟩

/-- Every turn of the loop starts from some state. -/
theorem recvLoop_turn {jobsMax : UInt32} {msgszMax : Nat} {s : Loop} {more : List Loop} {turn : Turn}
    (h : turn ∈ recvLoop jobsMax msgszMax s more) :
    ∃ s' : Loop, turn = recvTurn jobsMax msgszMax s' := by
  induction more generalizing s with
  | nil => exact ⟨s, List.mem_singleton.mp h⟩
  | cons next more ih =>
      rw [recvLoop] at h
      split at h
      · exact ⟨s, List.mem_singleton.mp h⟩
      · exact ⟨s, List.mem_singleton.mp h⟩
      all_goals
        rcases List.mem_cons.mp h with rfl | hRest
        · exact ⟨s, rfl⟩
        · exact ih hRest

/-- All iterations of the receive loop, and the mount's call, go right just if
no `recv` returns -1 in them. -/
theorem recv_errors (jobsMax : UInt32) (msgszMax : Nat) (s : Loop) (more : List Loop) (sock : Sock)
    (rxbuf : List UInt8) :
    ((∀ turn ∈ recvLoop jobsMax msgszMax s more, turn.Right) ↔
      ∀ turn ∈ recvLoop jobsMax msgszMax s more, ¬ RecvFailed turn.before.sock turn.after.sock) ∧
    (MountRight (mountRecv sock rxbuf) ↔
      ¬ RecvFailed sock (mountRecv sock rxbuf).1.frame.sock) := by
  refine ⟨forall₂_congr fun turn hTurn => ?_, mountRecv_right_iff sock rxbuf⟩
  obtain ⟨s', rfl⟩ := recvLoop_turn hTurn
  exact recvTurn_right_iff jobsMax msgszMax s'

/-- The very first `recv` fails, and the receive loop goes on to decode what its
buffer holds. -/
theorem recv_errors_firstRecv :
    ¬ (recvTurn 1 1024 ⟨Mnt.zero, ⟨[.failed], []⟩, List.replicate 1024 0⟩).Right := by
  intro hRight
  obtain ⟨hPath, -⟩ := hRight.fails (by decide +kernel)
  revert hPath
  decide +kernel

end Nct
