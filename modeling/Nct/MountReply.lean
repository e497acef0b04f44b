import Nct.Breakargs
import Nct.Handle
import Nct.Replies

/-! The reply to the MNT call: what `nct_nfs_mount` makes of it. -/
namespace Nct

open Delivery
open Representation

def EX_IOERR : Int := 74

def EX_PROTOCOL : Int := 76

def EX_NOPERM : Int := 77

def MNT3ERR_PERM : UInt32 := 1

def MNT3ERR_NOENT : UInt32 := 2

def MNT3ERR_IO : UInt32 := 5

def MNT3ERR_ACCES : UInt32 := 13

def MNT3ERR_NOTDIR : UInt32 := 20

def MNT3ERR_INVAL : UInt32 := 22

def MNT3ERR_NAMETOOLONG : UInt32 := 63

/-- How `nct_nfs_mount` ends: the program aborts or exits, or the mount has its
vnode. -/
inductive MountOutcome where
  | abort
  | exits (status : Int)
  | mounted (vn : Vn)
  deriving Repr

/-- The switch over `fhs_status`. -/
def mountExit (status : UInt32) : Int :=
  if status = MNT3ERR_PERM ∨ status = MNT3ERR_ACCES then EX_NOPERM
  else if status = MNT3ERR_IO then EX_IOERR
  else if status = MNT3ERR_NOENT ∨ status = MNT3ERR_NOTDIR ∨ status = MNT3ERR_INVAL ∨
      status = MNT3ERR_NAMETOOLONG then EX_DATAERR
  else EX_PROTOCOL

/-- `nct_nfs_mount` from its `nct_rpc_recv` on. The xid of the reply is not looked at. -/
def nfsMountReply (lib : ReplyTirpc) (sock : Sock) (rxbuf : List UInt8) : MountOutcome :=
  let (out, path) := mountRecv sock rxbuf
  match path with
  | .decode cc =>
      match rpcDecode lib (received out.frame.buf cc) with
      | (_, none) => .abort
      | (stat, some (_, rest)) =>
          if stat ≠ RPC_SUCCESS then .abort
          else
            match xdrMountres3Decode lib.toTirpc rest with
            | none => .abort
            | some mntres =>
                if mntres.fhsStatus ≠ MNT3_OK then .exits (mountExit mntres.fhsStatus)
                else mntres.mountinfo.elim .abort fun mountinfo => .mounted (mountVn mountinfo)
  | _ => .abort

/-- Besides, arrays and counted strings of a reply are decoded as the standard
represents them. -/
structure ReplyTirpc.DecodesMounts (lib : ReplyTirpc) : Prop where
  follows : lib.FollowsRfcs
  string : ∀ (max : Nat) (str : XdrString), str.val.length ≤ max → max < 2 ^ 32 →
    Reads (lib.xdrBytesDecode max) (counted str.val) str
  array : ∀ (max : UInt32) (items : List UInt32), items.length ≤ max.toNat →
    Reads (lib.xdrArrayDecode max) (word (UInt32.ofNat items.length) ++ items.flatMap word) items

/-- The result of MNT as a server sends it. -/
inductive MountResult where
  | ok (fhandle : Fhandle3) (flavors : List UInt32) (short : fhandle.fhandle3Val.length ≤ FHSIZE3)
      (few : flavors.length < 2 ^ 32)
  | error (status : UInt32) (failed : status ≠ MNT3_OK)

def MountResult.bytes : MountResult → List UInt8
  | .ok fhandle flavors _ _ =>
      word MNT3_OK ++ (counted fhandle.fhandle3Val ++
        (word (UInt32.ofNat flavors.length) ++ flavors.flatMap word))
  | .error status _ => word status

def MountResult.outcome : MountResult → MountOutcome
  | .ok fhandle flavors _ _ => .mounted (mountVn ⟨fhandle, flavors⟩)
  | .error status _ => .exits (mountExit status)

theorem reads_mountstat3 (lib : Tirpc) (w : UInt32) : Reads (xdrMountstat3Decode lib) (word w) w :=
  lib.ints.enum.reads w

/-- The handle and the flavors are decoded as they were encoded. -/
theorem xdrMountres3Ok_reads {lib : ReplyTirpc} (hLib : lib.DecodesMounts) (info : Mountres3Ok)
    (hShort : info.fhandle.fhandle3Val.length ≤ FHSIZE3) (hFew : info.authFlavors.length < 2 ^ 32) :
    Reads (xdrMountres3Ok lib.toTirpc) (counted info.fhandle.fhandle3Val ++
      (word (UInt32.ofNat info.authFlavors.length) ++ info.authFlavors.flatMap word)) info := by
  have hHandle := hLib.string FHSIZE3
    ⟨info.fhandle.fhandle3Len, info.fhandle.fhandle3Val, info.fhandle.whole⟩ hShort (by decide)
  have hArray := hLib.array 0xffffffff info.authFlavors (Nat.le_of_lt_succ hFew)
  exact (hHandle.map _).bind (hArray.map _)

/-- Each result has its outcome. -/
theorem xdrMountres3Decode_result {lib : ReplyTirpc} (hLib : lib.DecodesMounts)
    (res : MountResult) :
    ∃ mntres, xdrMountres3Decode lib.toTirpc res.bytes = some mntres ∧
      (if mntres.fhsStatus ≠ MNT3_OK then .exits (mountExit mntres.fhsStatus)
        else mntres.mountinfo.elim .abort fun mountinfo => .mounted (mountVn mountinfo)) =
      res.outcome := by
  cases res with
  | ok fhandle flavors hShort hFew =>
      have hStatus := reads_mountstat3 lib.toTirpc MNT3_OK (counted fhandle.fhandle3Val ++
        (word (UInt32.ofNat flavors.length) ++ flavors.flatMap word))
      have hInfo := (xdrMountres3Ok_reads hLib ⟨fhandle, flavors⟩ hShort hFew).exact
      refine ⟨⟨MNT3_OK, some ⟨fhandle, flavors⟩⟩, ?_, rfl⟩
      simp only [xdrMountres3Decode, MountResult.bytes, hStatus, hInfo, beq_self_eq_true, if_true,
        Option.map_some]
  | error status hFailed =>
      have hStatus := (reads_mountstat3 lib.toTirpc status).exact
      refine ⟨⟨status, none⟩, ?_, if_pos hFailed⟩
      simp only [xdrMountres3Decode, MountResult.bytes, hStatus, beq_iff_eq, hFailed, if_false]

/-- A whole reply is received in plain mode, unless a segment ends four bytes before
its end. -/
theorem mountRecv_reply {r : RpcReply} {sock : Sock} {rxbuf rest : List UInt8}
    (hBuf : rxbuf.length = 1024) (hFit : r.bytes.length + marksz ≤ 1024)
    (hStream : ready sock.inbox = r.fragment.wire true ++ rest)
    (hWhole : marksz < r.bytes.length → r.bytes.length ∉ ends sock.inbox) :
    (mountRecv sock rxbuf).1.frame.buf.take r.bytes.length = r.bytes ∧
      (r.AuthFails → (mountRecv sock rxbuf).2 = .abort) ∧
        (¬ r.AuthFails → (mountRecv sock rxbuf).2 = .decode r.bytes.length) := by
  let f : Frame := { sock, buf := rxbuf, pos := 0, bufsz := 1024 }
  have hIn : InBuffer f := ⟨by simp [f, hBuf], by simp [f]⟩
  obtain ⟨g, hRun, -, hGot, -⟩ := plain_complete hIn hFit hStream fun _ => hWhole
  rw [if_pos rfl] at hRun
  have hOut : (mountRecv sock rxbuf).1 = ⟨.record r.bytes.length, none, g⟩ := hRun
  have hPath : (mountRecv sock rxbuf).2 = RecvResult.path mountShort (.record r.bytes.length) :=
    congrArg (fun out : RecvOut => out.result.path mountShort) hOut
  have hShort : r.bytes.length < 2 ^ 31 := r.short
  have hMin := belowMin_record (n := r.bytes.length) (by omega)
  refine ⟨?_, ?_⟩
  · have hBytes := take_store_zero rxbuf r.bytes []
    rw [List.append_nil] at hBytes
    rw [hOut, hGot]
    exact hBytes
  · rw [hPath, RecvResult.path]
    rcases r.short_iff with ⟨hFails, hLength⟩ | ⟨hFails, hLength⟩
    · have hLess : r.bytes.length < rpcmin := by rw [hLength, rpcmin]; omega
      exact ⟨fun _ => if_pos (hMin.mpr hLess), fun hNot => absurd hFails hNot⟩
    · exact ⟨fun hIs => absurd hIs hFails,
        fun _ => if_neg fun hBelow => absurd (hMin.mp hBelow) (Nat.not_lt.mpr hLength)⟩

/-- Whatever xid and verifier the reply has: if the server has carried out the
call, the mount has a vnode of the handle in the result, or the program exits with
the status that belongs to the error; any other reply ends it with an abort. -/
theorem mount_outcome {lib : ReplyTirpc} (hLib : lib.DecodesMounts) (r : RpcReply) (sock : Sock)
    (rxbuf rest : List UInt8) (hBuf : rxbuf.length = 1024) (hFit : r.bytes.length + marksz ≤ 1024)
    (hStream : ready sock.inbox = r.fragment.wire true ++ rest)
    (hWhole : marksz < r.bytes.length → r.bytes.length ∉ ends sock.inbox) :
    (∀ verf res, r.header.body = .accepted verf .success → r.results = MountResult.bytes res →
        nfsMountReply lib sock rxbuf = res.outcome) ∧
      ((∀ verf, r.header.body ≠ .accepted verf .success) →
        nfsMountReply lib sock rxbuf = .abort) := by
  obtain ⟨hBytes, hAuth, hDecode⟩ := mountRecv_reply hBuf hFit hStream hWhole
  have hReply : ¬ r.AuthFails → nfsMountReply lib sock rxbuf =
      if clntStat r.header.body ≠ RPC_SUCCESS then .abort
      else
        match xdrMountres3Decode lib.toTirpc r.results with
        | none => .abort
        | some mntres =>
            if mntres.fhsStatus ≠ MNT3_OK then .exits (mountExit mntres.fhsStatus)
            else mntres.mountinfo.elim .abort fun mountinfo => .mounted (mountVn mountinfo) := by
    intro hNot
    simp only [nfsMountReply, hDecode hNot, received_eq hBytes, rpcDecode_reply hLib.follows]
  refine ⟨fun verf res hBody hResults => ?_, fun hBody => ?_⟩
  · have hNot : ¬ r.AuthFails := by
      rintro ⟨why, hWhy⟩
      rw [hBody] at hWhy
      cases hWhy
    obtain ⟨mntres, hRes, hOutcome⟩ := xdrMountres3Decode_result hLib res
    rw [hReply hNot, hBody, hResults, hRes, clntStat, if_neg (by simp)]
    exact hOutcome
  · by_cases hFails : r.AuthFails
    · simp only [nfsMountReply, hAuth hFails]
    · rw [hReply hFails, if_pos]
      intro hStat
      obtain ⟨verf, hVerf⟩ := clntStat_success hStat
      exact hBody verf hVerf

/-- Words one after another. -/
theorem reads_words (ns : List Nat) (items : List UInt32) (hSame : ns.length = items.length) :
    Reads (ns.mapM fun _ => getWord) (items.flatMap word) items := by
  induction ns generalizing items with
  | nil =>
      obtain rfl := List.length_eq_zero_iff.mp hSame.symm
      exact Reads.pure []
  | cons n ns ih =>
      obtain ⟨item, items, rfl⟩ := List.exists_cons_of_length_eq_add_one hSame.symm
      rw [List.mapM_cons, List.flatMap_cons]
      exact (reads_word item).bind ((ih items (by simpa using hSame)).map _)

theorem rfcReplyTirpc_mounts : rfcReplyTirpc.DecodesMounts where
  follows := rfcReplyTirpc_follows
  string max str hShort hMax := by
    have hLen : UInt32.ofNat str.val.length = str.len := by rw [str.whole, UInt32.ofNat_toNat]
    have hVal := reads_take str.val
    have hFill := reads_take (List.replicate (padding str.val.length) (0 : UInt8))
    rw [List.length_replicate] at hFill
    rw [str.whole] at hVal hFill hShort
    rw [counted, hLen, str.whole]
    refine (reads_word str.len).bind (Reads.bind_nil (reads_ensure hShort) ?_)
    refine hVal.bind (hFill.bind_last ?_)
    rw [dif_pos str.whole]
    exact Reads.pure str
  array max items hFew := by
    have hLen : (UInt32.ofNat items.length).toNat = items.length := by
      have hMax := max.toNat_lt
      rw [UInt32.toNat_ofNat', Nat.mod_eq_of_lt (by omega)]
    refine (reads_word _).bind (Reads.bind_nil (reads_ensure ?_) ?_)
    · rw [UInt32.le_iff_toNat_le, hLen]
      exact hFew
    · apply reads_words
      rw [List.length_range, hLen]

/-- A server whose export may not be mounted by the caller. -/
def refusedMount : RpcReply :=
  ⟨⟨99, .accepted nullAuth .success⟩, MountResult.bytes (.error MNT3ERR_ACCES (by decide)), by simp,
    by decide⟩

/-- The program exits with `EX_NOPERM`. -/
theorem mount_outcome_refused :
    nfsMountReply rfcReplyTirpc ⟨push (refusedMount.fragment.wire true) [], []⟩
      (List.replicate 1024 0) = .exits EX_NOPERM := by
  have hStream : ready (push (refusedMount.fragment.wire true) []) =
      refusedMount.fragment.wire true ++ [] := ready_push _ _
  exact (mount_outcome rfcReplyTirpc_mounts refusedMount ⟨push _ [], []⟩ (List.replicate 1024 0) []
    List.length_replicate (by decide) hStream (fun _ => by decide)).1 nullAuth
      (.error MNT3ERR_ACCES (by decide)) rfl rfl

end Nct
