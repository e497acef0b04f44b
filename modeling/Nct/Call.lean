import Nct.Req
import Nct.Tirpc

/-! Encoding of NFS calls: `nct_rpc_encode` and the encoders of `nct_nfs.c`,
against the grammar of NFSv3 calls. -/
namespace Nct

open Function (update)
open Representation
open OncRpc (OpaqueAuth CallHeader getHeader)

/-- Limit of a file handle as NFS calls carry it. -/
def NFS3_FHSIZE : Nat := 64

def NFS_PROGRAM : UInt32 := 100003

def NFS_V3 : UInt32 := 3

def NFS3_NULL : UInt32 := 0

def NFS3_GETATTR : UInt32 := 1

def NFS3_READ : UInt32 := 6

def NCT_MSGSZ_MAX (lib : Tirpc) : Nat := 1024 * 256 - lib.sizeofMsg

/-- A handle as the mount protocol has it; the pointer is to that many bytes. -/
structure Fhandle3 where
  fhandle3Len : UInt32
  fhandle3Val : List UInt8
  whole : fhandle3Val.length = fhandle3Len.toNat
  deriving Repr

/-- The same, as the NFS protocol has it. -/
structure NfsFh3 where
  dataLen : UInt32
  dataVal : List UInt8
  whole : dataVal.length = dataLen.toNat
  deriving Repr

/-- `(getattr3_args *)fh` -/
def Fhandle3.asFh3 (fh : Fhandle3) : NfsFh3 := ⟨fh.fhandle3Len, fh.fhandle3Val, fh.whole⟩

/-- `xdr_uint64`, when it encodes -/
def xdrUint64Encode (lib : Tirpc) (objp : UInt64) : Filter := lib.xdrUQuad objp

/-- `xdr_uint32`, when it encodes; `uint32` is an `u_long`. -/
def xdrUint32Encode (lib : Tirpc) (objp : UInt64) : Filter := lib.xdrULong objp

def xdrOffset3 (lib : Tirpc) (arg : UInt64) : Filter := xdrUint64Encode lib arg

def xdrCount3 (lib : Tirpc) (arg : UInt64) : Filter := xdrUint32Encode lib arg

def xdrFh3 (lib : Tirpc) (arg : NfsFh3) : Filter := lib.xdrBytes arg.dataVal arg.dataLen NFS3_FHSIZE

structure Getattr3Args where
  object : NfsFh3
  deriving Repr

structure Read3Args where
  file : NfsFh3
  offset : UInt64
  count : UInt64
  deriving Repr

def xdrGetattr3Encode (lib : Tirpc) (args : Getattr3Args) : Filter := xdrFh3 lib args.object

def xdrRead3Encode (lib : Tirpc) (args : Read3Args) : Filter :=
  (xdrFh3 lib args.file).and ((xdrOffset3 lib args.offset).and (xdrCount3 lib args.count))

structure Auth where
  ahCred : OpaqueAuth
  ahVerf : OpaqueAuth
  deriving DecidableEq, Repr

def nullAuth : OpaqueAuth := ⟨0, [], Nat.zero_le _⟩

/-- The credential and verifier that `nct_rpc_encode` puts into the message. -/
def authOf : Option Auth → Auth
  | some auth => auth
  | none => ⟨nullAuth, nullAuth⟩

/-- `nct_rpc_encode`: the length, or -1, and the buffer; `none` for its abort.
The first four bytes are left for the record mark. -/
def rpcEncode (lib : Tirpc) (msg : CallBody) (auth : Option Auth) (xdrproc : Filter)
    (buf : List UInt8) (bufsz : Nat) : Option (Int × List UInt8) :=
  if bufsz < 4 * 6 + 4 then none
  else
    let rpc : RpcMsg := { msg with cbCred := (authOf auth).ahCred, cbVerf := (authOf auth).ahVerf }
    match (lib.xdrCallmsg rpc).and xdrproc (xdrmemCreate buf 4 (bufsz - 4)) with
    | (true, xdr) => some (xdr.getpos + 4, xdr.mem)
    | (false, xdr) => some (-1, xdr.mem)

structure Vn where
  xvnFh : Fhandle3
  xvnNamelen : Nat
  xvnName : List UInt8
  deriving Repr

/-- What the encoders read and write: the mount object with its pool of
requests, the mount's vnode and credential, and the messages' buffers. -/
structure Client where
  mnt : Mnt
  mntVn : Vn
  mntAuth : Auth
  msgData : MsgId → List UInt8

/-- A message's buffer and length change. -/
def Client.setMsg (c : Client) (msg : MsgId) (data : List UInt8) (len : Nat) : Client :=
  { c with
    mnt := { c.mnt with msgLen := update c.mnt.msgLen msg len }
    msgData := update c.msgData msg data }

/-- What the encoders of `nct_nfs.c` have in common. `msg_len` is a `size_t`. -/
def nfsEncode (lib : Tirpc) (proc : UInt32) (auth : Option Auth) (xdrproc : Filter) (req : ReqId)
    (c : Client) : Option Client :=
  let msg := c.mnt.reqMsg req
  let body : CallBody :=
    { rmXid := 0
      rmDirection := CALL
      cbRpcvers := RPC_MSG_VERSION
      cbProg := NFS_PROGRAM
      cbVers := NFS_V3
      cbProc := proc }
  (rpcEncode lib body auth xdrproc (c.msgData msg) (NCT_MSGSZ_MAX lib)).map fun (len, data) =>
    c.setMsg msg data (len % 2 ^ 64).toNat

def nfsNullEncode (lib : Tirpc) (req : ReqId) (c : Client) : Option Client :=
  nfsEncode lib NFS3_NULL none lib.xdrVoid req c

def nfsGetattr3Encode (lib : Tirpc) (req : ReqId) (c : Client) : Option Client :=
  nfsEncode lib NFS3_GETATTR (some c.mntAuth) (xdrGetattr3Encode lib ⟨c.mntVn.xvnFh.asFh3⟩) req c

def nfsRead3Encode (lib : Tirpc) (offset : Int64) (length : UInt64) (req : ReqId) (c : Client) :
    Option Client :=
  let args : Read3Args :=
    { file := ⟨c.mntVn.xvnFh.fhandle3Len, c.mntVn.xvnFh.fhandle3Val, c.mntVn.xvnFh.whole⟩
      offset := offset.toUInt64
      count := length }
  nfsEncode lib NFS3_READ (some c.mntAuth) (xdrRead3Encode lib args) req c

/-- The three calls, with what their callers give. -/
inductive Nfs3Call where
  | null
  | getattr
  | read (offset : Int64) (length : UInt64)
  deriving DecidableEq

def Nfs3Call.encode (lib : Tirpc) : Nfs3Call → ReqId → Client → Option Client
  | .null => nfsNullEncode lib
  | .getattr => nfsGetattr3Encode lib
  | .read offset length => nfsRead3Encode lib offset length

/-- The count of a READ is a 32-bit word of the protocol. -/
def Nfs3Call.CountFits : Nfs3Call → Prop
  | .read _ length => length.toNat < 2 ^ 32
  | _ => True

/-- Arguments of the calls, in the terms of the protocol. -/
inductive Nfs3Args where
  | null
  | getattr (object : List UInt8)
  | read (file : List UInt8) (offset : UInt64) (count : UInt32)
  deriving DecidableEq, Repr

/-- The arguments that the grammar has for a procedure of a program. -/
def getArgs (h : CallHeader) : Parser Nfs3Args := do
  ensure (h.prog = NFS_PROGRAM ∧ h.vers = NFS_V3)
  if h.proc = NFS3_NULL then
    return .null
  else if h.proc = NFS3_GETATTR then
    return .getattr (← getCounted NFS3_FHSIZE)
  else if h.proc = NFS3_READ then
    let file ← getCounted NFS3_FHSIZE
    let offset ← getHyper
    let count ← getWord
    return .read file offset count
  else failure

def getCall : Parser (CallHeader × Nfs3Args) := do
  let header ← getHeader
  let args ← getArgs header
  return (header, args)

/-- The header of a call of this program, with the given credentials. -/
def nfsHeader (xid proc : UInt32) (auth : Auth) : CallHeader where
  xid := xid
  rpcvers := RPC_MSG_VERSION
  prog := NFS_PROGRAM
  vers := NFS_V3
  proc := proc
  cred := auth.ahCred
  verf := auth.ahVerf

def Nfs3Call.proc : Nfs3Call → UInt32
  | .null => NFS3_NULL
  | .getattr => NFS3_GETATTR
  | .read _ _ => NFS3_READ

/-- The credentials the encoder of a call gives to `nct_rpc_encode`. -/
def Nfs3Call.auth (call : Nfs3Call) (auth : Auth) : Option Auth :=
  match call with
  | .null => none
  | .getattr | .read _ _ => some auth

/-- What a call asks for, on the file with the given handle. -/
def Nfs3Call.args (call : Nfs3Call) (fh : List UInt8) : Nfs3Args :=
  match call with
  | .null => .null
  | .getattr => .getattr fh
  | .read offset length => .read fh offset.toUInt64 length.toUInt32

def Nfs3Args.bytes : Nfs3Args → List UInt8
  | .null => []
  | .getattr object => counted object
  | .read file offset count => counted file ++ (hyper offset ++ word count)

/-- Arguments of a procedure are read back as that procedure's. -/
theorem Nfs3Call.reads_args (call : Nfs3Call) {fh : List UInt8} (hFh : fh.length ≤ NFS3_FHSIZE)
    (xid : UInt32) (auth : Auth) :
    Reads (getArgs (nfsHeader xid call.proc auth)) (call.args fh).bytes (call.args fh) := by
  have hHandle : Reads (getCounted NFS3_FHSIZE) (counted fh) fh := reads_counted hFh (by decide)
  refine Reads.bind_nil (reads_ensure ⟨rfl, rfl⟩) ?_
  cases call with
  | null => exact Reads.pure _
  | getattr => exact hHandle.map _
  | read offset length =>
      exact hHandle.bind ((reads_hyper _).bind ((reads_word _).map _))

/-- The whole call is read back. -/
theorem Nfs3Call.reads (call : Nfs3Call) {fh : List UInt8} (hFh : fh.length ≤ NFS3_FHSIZE)
    (xid : UInt32) (auth : Auth) :
    Reads getCall ((nfsHeader xid call.proc auth).bytes ++ (call.args fh).bytes)
      (nfsHeader xid call.proc auth, call.args fh) :=
  (CallHeader.reads _).bind ((call.reads_args hFh xid auth).map _)

theorem Nfs3Args.bytes_length_le (call : Nfs3Call) {fh : List UInt8}
    (hFh : fh.length ≤ NFS3_FHSIZE) : (call.args fh).bytes.length ≤ 80 := by
  have hHandle := counted_length_le 16 hFh
  cases call with
  | null => simp [Nfs3Call.args, Nfs3Args.bytes]
  | getattr =>
      simp only [Nfs3Call.args, Nfs3Args.bytes]
      omega
  | read offset length =>
      simp only [Nfs3Call.args, Nfs3Args.bytes, List.length_append, hyper_length, word_length]
      omega

/-- With room for header and arguments, `nct_rpc_encode` writes both behind the
place of the record mark. -/
theorem rpcEncode_eq {lib : Tirpc} (hLib : lib.FollowsRfcs) (msg : CallBody) (auth : Option Auth)
    {xdrproc : Filter} {header : CallHeader} {args buf : List UInt8} {bufsz : Nat}
    (hDirection : msg.rmDirection = CALL) (hVers : msg.cbRpcvers = RPC_MSG_VERSION)
    (hHeader : header =
      RpcMsg.header { msg with cbCred := (authOf auth).ahCred, cbVerf := (authOf auth).ahVerf })
    (hArgs : Puts xdrproc args) (hMin : 28 ≤ bufsz)
    (hRoom : 4 + (header.bytes ++ args).length ≤ bufsz) (hBuf : bufsz ≤ buf.length) :
    rpcEncode lib msg auth xdrproc buf bufsz =
      some (((4 + (header.bytes ++ args).length : Nat) : Int),
        store buf 4 (header.bytes ++ args)) := by
  subst hHeader
  have hPuts := (hLib.callmsg { msg with
    cbCred := (authOf auth).ahCred, cbVerf := (authOf auth).ahVerf } hDirection hVers).and hArgs
  have hWithin : (xdrmemCreate buf 4 (bufsz - 4)).Within := by
    simp only [XdrMem.Within, xdrmemCreate]
    omega
  simp only [rpcEncode, if_neg (show ¬ bufsz < 4 * 6 + 4 by omega),
    hPuts _ hWithin (by simp only [xdrmemCreate]; omega)]
  simp only [xdrmemCreate, XdrMem.put, XdrMem.getpos, Nat.add_sub_cancel_left, Int.add_comm,
    Nat.cast_ofNat, Nat.cast_add]

/-- What a call's encoder writes, but for the xid, and what is sent. -/
def Nfs3Call.image (call : Nfs3Call) (xid : UInt32) (c : Client) : List UInt8 :=
  (nfsHeader xid call.proc (authOf (call.auth c.mntAuth))).bytes ++
    (call.args c.mntVn.xvnFh.fhandle3Val).bytes

section
variable {lib : Tirpc} (hLib : lib.FollowsRfcs)

include hLib

theorem xdrFh3_puts {fh : NfsFh3} (h : fh.dataVal.length ≤ NFS3_FHSIZE) :
    Puts (xdrFh3 lib fh) (counted fh.dataVal) := by
  rw [fh.whole] at h
  exact hLib.bytes _ _ _ fh.whole h

theorem xdrRead3Encode_puts {args : Read3Args} (h : args.file.dataVal.length ≤ NFS3_FHSIZE)
    (hCount : args.count.toNat < 2 ^ 32) :
    Puts (xdrRead3Encode lib args)
      (counted args.file.dataVal ++ (hyper args.offset ++ word args.count.toUInt32)) :=
  (xdrFh3_puts hLib h).and ((hLib.u_quad _).and (hLib.u_long _ hCount))

/-- The largest call fits a message. -/
theorem image_fits (call : Nfs3Call) (xid : UInt32) (c : Client)
    (hFh : c.mntVn.xvnFh.fhandle3Val.length ≤ NFS3_FHSIZE) :
    4 + (call.image xid c).length ≤ 924 ∧ 924 ≤ NCT_MSGSZ_MAX lib := by
  have hHeader := (nfsHeader xid call.proc (authOf (call.auth c.mntAuth))).bytes_length_le
  have hArgs := Nfs3Args.bytes_length_le call hFh
  have hSmall := hLib.msg_small
  simp only [Nfs3Call.image, List.length_append, NCT_MSGSZ_MAX]
  omega

/-- Each encoder leaves its call, with xid 0, in the request's message. -/
theorem Nfs3Call.encode_eq (call : Nfs3Call) (req : ReqId) (c : Client)
    (hData : (c.msgData (c.mnt.reqMsg req)).length = NCT_MSGSZ_MAX lib)
    (hFh : c.mntVn.xvnFh.fhandle3Val.length ≤ NFS3_FHSIZE) (hCount : call.CountFits) :
    call.encode lib req c =
      some (c.setMsg (c.mnt.reqMsg req) (store (c.msgData (c.mnt.reqMsg req)) 4 (call.image 0 c))
        (4 + (call.image 0 c).length)) := by
  obtain ⟨hImage, hRoom⟩ := image_fits hLib call 0 c hFh
  -- the encoders differ in what they give to the common part
  have hCommon : ∀ xdrproc, Puts xdrproc (call.args c.mntVn.xvnFh.fhandle3Val).bytes →
      nfsEncode lib call.proc (call.auth c.mntAuth) xdrproc req c =
        some (c.setMsg (c.mnt.reqMsg req) (store (c.msgData (c.mnt.reqMsg req)) 4 (call.image 0 c))
          (4 + (call.image 0 c).length)) := by
    intro xdrproc hPuts
    have hRpc := rpcEncode_eq hLib ⟨0, CALL, RPC_MSG_VERSION, NFS_PROGRAM, NFS_V3, call.proc⟩
      (call.auth c.mntAuth) rfl rfl rfl hPuts (show 28 ≤ NCT_MSGSZ_MAX lib by omega)
      (hImage.trans hRoom) hData.ge
    have hLen : (((4 + (call.image 0 c).length : Nat) : Int) % 2 ^ 64).toNat =
        4 + (call.image 0 c).length := by omega
    apply (congrArg (Option.map _) hRpc).trans
    simp only [Option.map_some]
    exact congrArg (fun n => some (c.setMsg _ _ n)) hLen
  cases call with
  | null => exact hCommon _ hLib.void
  | getattr => exact hCommon _ (xdrFh3_puts hLib hFh)
  | read offset length => exact hCommon _ (xdrRead3Encode_puts hLib hFh hCount)

end

end Nct
