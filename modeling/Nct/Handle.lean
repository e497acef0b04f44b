import Nct.Wire

/-! The file handle of a mount: decoded from the reply to MNT, copied into the
vnode, and encoded again in every GETATTR and READ. -/
namespace Nct

open Representation
open OncRpc (CallHeader)

def FHSIZE3 : Nat := 64

def MNT3_OK : UInt32 := 0

structure Mountres3Ok where
  fhandle : Fhandle3
  authFlavors : List UInt32
  deriving Repr

/-- The union holds `mountinfo` only under MNT3_OK. -/
structure Mountres3 where
  fhsStatus : UInt32
  mountinfo : Option Mountres3Ok
  deriving Repr

/-- `xdr_fhandle3`, when it decodes -/
def xdrFhandle3 (lib : Tirpc) : Decoder Fhandle3 := do
  let str ← lib.xdrBytesDecode FHSIZE3
  return ⟨str.len, str.val, str.whole⟩

def xdrMountstat3Decode (lib : Tirpc) : Decoder UInt32 := lib.ints.xdrEnum

def xdrMountres3Ok (lib : Tirpc) : Decoder Mountres3Ok := do
  let fhandle ← xdrFhandle3 lib
  let authFlavors ← lib.xdrArrayDecode 0xffffffff
  return { fhandle, authFlavors }

/-- `nct_xdr_mountres3_decode`; `none` for FALSE. -/
def xdrMountres3Decode (lib : Tirpc) (msg : List UInt8) : Option Mountres3 :=
  match (xdrMountstat3Decode lib).run msg with
  | none => none
  | some (status, rest) =>
      if status == MNT3_OK then
        ((xdrMountres3Ok lib).run rest).map fun (info, _) => ⟨status, some info⟩
      else some ⟨status, none⟩

def vnAlloc (fh : Fhandle3) (name : List UInt8) (namelen : Nat) : Vn where
  xvnFh := fh
  xvnNamelen := namelen
  xvnName := name.take (namelen + 1)

/-- The vnode that `nct_nfs_mount` makes, of the name "/". -/
def mountVn (info : Mountres3Ok) : Vn := vnAlloc info.fhandle [0x2f, 0] 1

/-- The handle in the body of an MNT reply: it follows the status, as a string
with its length before it. -/
def sentHandle (body : List UInt8) : List UInt8 :=
  (body.drop 8).take (ntohl ((body.drop 4).take 4)).toNat

/-- What happens on a mount: calls are encoded and sent, and the receive threads
change requests and messages. -/
inductive Client.Later (lib : Tirpc) (c : Client) : Client → Prop
  | refl : Later lib c c
  | encode {d d' : Client} {call : Nfs3Call} {req : ReqId} : Later lib c d →
      call.encode lib req d = some d' → Later lib c d'
  | send {d d' : Client} {req : ReqId} {sock sock' : TxSock} : Later lib c d →
      d.reqSend req sock = some (d', sock') → Later lib c d'
  | recv {d : Client} (mnt : Mnt) (msgData : MsgId → List UInt8) : Later lib c d →
      Later lib c { d with mnt, msgData }

def Nfs3Args.handle : Nfs3Args → Option (List UInt8)
  | .null => none
  | .getattr object => some object
  | .read file _ _ => some file

/-- A request's message holds a whole call within its buffer, on the file with
the given handle. -/
def CarriesHandle (lib : Tirpc) (c : Client) (msg : MsgId) (fh : List UInt8) : Prop :=
  c.mnt.msgLen msg ≤ NCT_MSGSZ_MAX lib ∧ ∃ header args,
    getCall.run (((c.msgData msg).take (c.mnt.msgLen msg)).drop 4) = some ((header, args), []) ∧
      args.handle = some fh

/-- A call does not write to the vnode that it reads. -/
theorem Nfs3Call.encode_mntVn {lib : Tirpc} {call : Nfs3Call} {req : ReqId} {c c' : Client}
    (h : call.encode lib req c = some c') : c'.mntVn = c.mntVn := by
  have hCommon {proc : UInt32} {auth : Option Auth} {xdrproc : Filter}
      (h : nfsEncode lib proc auth xdrproc req c = some c') : c'.mntVn = c.mntVn := by
    obtain ⟨_, -, rfl⟩ := Option.map_eq_some_iff.mp h
    rfl
  cases call with
  | null => exact hCommon h
  | getattr => exact hCommon h
  | read offset length => exact hCommon h

/-- Neither does a send. -/
theorem Client.reqSend_mntVn {c c' : Client} {req : ReqId} {sock sock' : TxSock}
    (h : c.reqSend req sock = some (c', sock')) : c'.mntVn = c.mntVn := by
  simp only [Client.reqSend] at h
  split at h
  · cases h
  · cases h
    rfl

/-- A mount keeps its vnode. -/
theorem Client.Later.mntVn {lib : Tirpc} {c d : Client} (h : c.Later lib d) :
    d.mntVn = c.mntVn := by
  induction h with
  | refl => rfl
  | encode _ hEncode ih => rw [Nfs3Call.encode_mntVn hEncode, ih]
  | send _ hSend ih => rw [Client.reqSend_mntVn hSend, ih]
  | recv _ _ _ ih => exact ih

/-- Decoding keeps the handle that the server sent, which is in bounds. -/
theorem mountres3_handle {lib : Tirpc} (hLib : lib.FollowsRfcs) {body : List UInt8}
    {res : Mountres3} (hDecode : xdrMountres3Decode lib body = some res)
    (hOk : res.fhsStatus = MNT3_OK) :
    ∃ info, res.mountinfo = some info ∧ info.fhandle.fhandle3Val = sentHandle body ∧
      info.fhandle.fhandle3Len.toNat ≤ FHSIZE3 := by
  unfold xdrMountres3Decode at hDecode
  split at hDecode
  · cases hDecode
  · next status rest hStatus =>
      obtain ⟨hFour, rfl, rfl⟩ := lib.ints.enum.word_of_run hStatus
      split at hDecode
      · obtain ⟨⟨info, left⟩, hInfo, rfl⟩ := Option.map_eq_some_iff.mp hDecode
        refine ⟨info, rfl, ?_⟩
        simp only [xdrMountres3Ok, xdrFhandle3, StateT.run_bind, Option.bind_eq_bind,
          Option.bind_eq_some_iff] at hInfo
        obtain ⟨⟨fh, tail⟩, ⟨⟨str, more⟩, hStr, hFh⟩, ⟨flavors, after⟩, -, hPure⟩ := hInfo
        obtain ⟨hLen, hMax, hVal⟩ := hLib.bytes_decode _ _ _ _ hStr
        rw [hLen, List.drop_drop] at hVal
        cases hFh
        cases hPure
        exact ⟨hVal, hMax⟩
      · next hNot =>
          cases hDecode
          exact absurd hOk (by simpa using hNot)

/-- An encoded call of GETATTR or READ carries the vnode's handle. -/
theorem Nfs3Call.carries {lib : Tirpc} (hLib : lib.FollowsRfcs) {call : Nfs3Call}
    (hNull : call ≠ .null) {req : ReqId} {c : Client}
    (hData : (c.msgData (c.mnt.reqMsg req)).length = NCT_MSGSZ_MAX lib)
    (hFh : c.mntVn.xvnFh.fhandle3Val.length ≤ NFS3_FHSIZE) (hCount : call.CountFits) :
    ∃ c', call.encode lib req c = some c' ∧
      CarriesHandle lib c' (c.mnt.reqMsg req) c.mntVn.xvnFh.fhandle3Val := by
  obtain ⟨hFits, hSize⟩ := image_fits hLib call 0 c hFh
  have hBuf : 4 ≤ (c.msgData (c.mnt.reqMsg req)).length := by omega
  refine ⟨_, call.encode_eq hLib req c hData hFh hCount, ?_⟩
  have hImage : ((store (c.msgData (c.mnt.reqMsg req)) 4 (call.image 0 c)).take
      (4 + (call.image 0 c).length)).drop 4 = call.image 0 c := by
    rw [List.drop_take, Nat.add_sub_cancel_left]
    exact store_mark [] _ hBuf
  unfold CarriesHandle
  simp only [Client.setMsg, Function.update_self, hImage]
  refine ⟨by omega, _, _, (call.reads hFh 0 _).exact, ?_⟩
  cases call with
  | null => exact absurd rfl hNull
  | getattr => rfl
  | read offset length => rfl

/-- Whatever the server sends: an accepted handle is at most 64 bytes long, and
every GETATTR and READ on the mount is encoded and carries just these bytes. -/
theorem handle_fidelity {lib : Tirpc} (hLib : lib.FollowsRfcs) {body : List UInt8}
    {res : Mountres3} (hDecode : xdrMountres3Decode lib body = some res)
    (hOk : res.fhsStatus = MNT3_OK) :
    (sentHandle body).length ≤ 64 ∧ ∃ info, res.mountinfo = some info ∧
      ∀ c d : Client, c.mntVn = mountVn info → c.Later lib d →
        ∀ (req : ReqId) (call : Nfs3Call), call ≠ .null → call.CountFits →
          (d.msgData (d.mnt.reqMsg req)).length = NCT_MSGSZ_MAX lib →
          ∃ d', call.encode lib req d = some d' ∧
            CarriesHandle lib d' (d.mnt.reqMsg req) (sentHandle body) := by
  obtain ⟨info, hInfo, hVal, hMax⟩ := mountres3_handle hLib hDecode hOk
  have hShort : (sentHandle body).length ≤ 64 := by
    rw [← hVal, info.fhandle.whole]
    exact hMax
  refine ⟨hShort, info, hInfo, fun c d hMount hLater req call hNull hCount hData => ?_⟩
  have hFh : d.mntVn.xvnFh.fhandle3Val = sentHandle body := by
    rw [hLater.mntVn, hMount]
    exact hVal
  have hCarries := Nfs3Call.carries hLib hNull hData (by rw [hFh]; exact hShort) hCount
  rwa [hFh] at hCarries

/-- A reply with a handle of five bytes, filled up to eight, and one flavor. -/
def mountReply : List UInt8 :=
  word MNT3_OK ++ (counted [9, 8, 7, 6, 5] ++ (word 1 ++ word 1))

def mountReplyOk : Mountres3Ok := ⟨⟨5, [9, 8, 7, 6, 5], rfl⟩, [1]⟩

def mountedClient : Client := { unixClient with mntVn := mountVn mountReplyOk }

theorem handle_fidelity_five : (sentHandle mountReply).length ≤ 64 ∧
    ∃ d', (Nfs3Call.read 0 512).encode rfcTirpc firstReq mountedClient = some d' ∧
      CarriesHandle rfcTirpc d' (mountedClient.mnt.reqMsg firstReq) [9, 8, 7, 6, 5] := by
  have hReply : xdrMountres3Decode rfcTirpc mountReply = some ⟨MNT3_OK, some mountReplyOk⟩ :=
    rfl
  obtain ⟨hShort, info, hInfo, hCalls⟩ := handle_fidelity rfcTirpc_follows hReply rfl
  cases hInfo
  have hSent : sentHandle mountReply = [9, 8, 7, 6, 5] := by decide
  refine ⟨hShort, ?_⟩
  rw [← hSent]
  exact hCalls mountedClient mountedClient rfl .refl firstReq (.read 0 512) (by decide)
    (show (512 : UInt64).toNat < 2 ^ 32 by decide) List.length_replicate

end Nct
