import Nct.Rpc
import Nct.Xdr
import Nct.Support.OncRpc

/-! XDR streams over memory that encode, and libtirpc as a parameter: the
filters that nct calls, with what they are documented to do. -/
namespace Nct

open Representation
open OncRpc (OpaqueAuth CallHeader)

/-- An XDR stream that encodes into a buffer: `base` and `pos` are `x_base` and
`x_private`, as offsets into it. -/
structure XdrMem where
  mem : List UInt8
  base : Nat
  pos : Nat
  handy : Nat
  deriving DecidableEq, Repr

/-- `xdrmem_create(&xdr, buf + off, len, XDR_ENCODE)` -/
def xdrmemCreate (buf : List UInt8) (off len : Nat) : XdrMem := ⟨buf, off, off, len⟩

def XdrMem.getpos (x : XdrMem) : Nat := x.pos - x.base

/-- Write at the stream's position. -/
def XdrMem.put (x : XdrMem) (bytes : List UInt8) : XdrMem :=
  { x with
    mem := store x.mem x.pos bytes
    pos := x.pos + bytes.length
    handy := x.handy - bytes.length }

/-- The stream's room lies within the buffer. -/
def XdrMem.Within (x : XdrMem) : Prop := x.pos + x.handy ≤ x.mem.length

theorem XdrMem.Within.put {x : XdrMem} {bytes : List UInt8} (h : x.Within)
    (hRoom : bytes.length ≤ x.handy) : (x.put bytes).Within := by
  unfold XdrMem.Within at *
  rw [XdrMem.put, store_length (by omega)]
  simp only
  omega

/-- What is put piece by piece is put as a whole. -/
theorem XdrMem.put_put {x : XdrMem} {left right : List UInt8} (h : x.Within)
    (hRoom : left.length ≤ x.handy) : (x.put left).put right = x.put (left ++ right) := by
  have hFits : x.pos + left.length ≤ x.mem.length := by
    unfold XdrMem.Within at h
    omega
  simp only [XdrMem.put, List.length_append, Nat.add_assoc, Nat.sub_add_eq]
  rw [store_store left right hFits]

/-- An XDR filter, with the value that it encodes. -/
abbrev Filter := XdrMem → Bool × XdrMem

/-- `first && second` -/
def Filter.and (first second : Filter) : Filter := fun x =>
  match first x with
  | (true, x) => second x
  | (false, x) => (false, x)

/-- Where there is room for `bytes`, the filter writes them and succeeds. -/
def Puts (f : Filter) (bytes : List UInt8) : Prop :=
  ∀ x : XdrMem, x.Within → bytes.length ≤ x.handy → f x = (true, x.put bytes)

/-- A filter that runs two others puts what both put. -/
theorem Puts.and {f g : Filter} {left right : List UInt8} (hf : Puts f left) (hg : Puts g right) :
    Puts (f.and g) (left ++ right) := by
  intro x hWithin hRoom
  rw [List.length_append] at hRoom
  have hLeft : left.length ≤ x.handy := by omega
  have hRight : right.length ≤ (x.put left).handy := by
    simp only [XdrMem.put]
    omega
  rw [Filter.and, hf x hWithin hLeft]
  simp only
  rw [hg _ (hWithin.put hLeft) hRight, XdrMem.put_put hWithin hLeft]

def CALL : UInt32 := 0

def RPC_MSG_VERSION : UInt32 := 2

/-- What the callers of `nct_rpc_encode` fill in of a `struct rpc_msg`. -/
structure CallBody where
  rmXid : UInt32
  rmDirection : UInt32
  cbRpcvers : UInt32
  cbProg : UInt32
  cbVers : UInt32
  cbProc : UInt32
  deriving DecidableEq, Repr

structure RpcMsg extends CallBody where
  cbCred : OpaqueAuth
  cbVerf : OpaqueAuth
  deriving DecidableEq, Repr

/-- The call header that a message stands for. -/
def RpcMsg.header (msg : RpcMsg) : CallHeader where
  xid := msg.rmXid
  rpcvers := msg.cbRpcvers
  prog := msg.cbProg
  vers := msg.cbVers
  proc := msg.cbProc
  cred := msg.cbCred
  verf := msg.cbVerf

/-- A string that `xdr_bytes` has decoded, into as many bytes as it allocated. -/
structure XdrString where
  len : UInt32
  val : List UInt8
  whole : val.length = len.toNat
  deriving Repr

/-- What nct takes from libtirpc: the filters, those for numbers, `xdr_bytes` and
`xdr_array` also as they decode, and the size that its structs give to
`struct nct_msg_s`. A string goes to `xdr_bytes` as its bytes, their count and the
limit. -/
structure Tirpc where
  sizeofMsg : Nat
  ints : XdrInts
  xdrVoid : Filter
  xdrULong : UInt64 → Filter
  xdrUQuad : UInt64 → Filter
  xdrBytes : List UInt8 → UInt32 → Nat → Filter
  xdrCallmsg : RpcMsg → Filter
  xdrBytesDecode : Nat → Decoder XdrString
  xdrArrayDecode : UInt32 → Decoder (List UInt32)

/-- The filters represent what XDR and ONC RPC can represent as these standards
have it, and the message struct takes up little of its 256 kB. -/
structure Tirpc.FollowsRfcs (lib : Tirpc) : Prop where
  msg_small : lib.sizeofMsg ≤ 4096
  void : Puts lib.xdrVoid []
  u_long : ∀ n : UInt64, n.toNat < 2 ^ 32 → Puts (lib.xdrULong n) (word n.toUInt32)
  u_quad : ∀ n, Puts (lib.xdrUQuad n) (hyper n)
  bytes : ∀ (val : List UInt8) (len : UInt32) (max : Nat), val.length = len.toNat →
    len.toNat ≤ max → Puts (lib.xdrBytes val len max) (counted val)
  callmsg : ∀ msg : RpcMsg, msg.rmDirection = CALL → msg.cbRpcvers = RPC_MSG_VERSION →
    Puts (lib.xdrCallmsg msg) msg.header.bytes
  bytes_decode : ∀ (max : Nat) (input : List UInt8) (str : XdrString) (rest : List UInt8),
    (lib.xdrBytesDecode max).run input = some (str, rest) →
      str.len = ntohl (input.take 4) ∧ str.len.toNat ≤ max ∧
        str.val = (input.drop 4).take str.len.toNat

/-- A filter that writes the given bytes where it has room for them. -/
def putFilter (bytes : List UInt8) : Filter := fun x =>
  if bytes.length ≤ x.handy then (true, x.put bytes) else (false, x)

theorem putFilter_puts (bytes : List UInt8) : Puts (putFilter bytes) bytes :=
  fun _ _ hRoom => if_pos hRoom

theorem take_run {n : Nat} {input bytes rest : List UInt8}
    (h : (take n).run input = some (bytes, rest)) :
    n ≤ input.length ∧ bytes = input.take n ∧ rest = input.drop n := by
  change (if n ≤ input.length then some (input.take n, input.drop n) else none) = _ at h
  split at h
  · next hLe =>
      cases h
      exact ⟨hLe, rfl, rfl⟩
  · cases h

/-- libtirpc as the standards describe it. -/
def rfcTirpc : Tirpc where
  sizeofMsg := 192
  ints := rfcInts
  xdrVoid := putFilter []
  xdrULong n := putFilter (word n.toUInt32)
  xdrUQuad n := putFilter (hyper n)
  xdrBytes val len max := if len.toNat ≤ max then putFilter (counted (val.take len.toNat)) else
    fun x => (false, x)
  xdrCallmsg msg := if msg.rmDirection = CALL ∧ msg.cbRpcvers = RPC_MSG_VERSION then
    putFilter msg.header.bytes else fun x => (false, x)
  xdrBytesDecode max := do
    let len ← getWord
    ensure (len.toNat ≤ max)
    let val ← take len.toNat
    let _ ← take (padding len.toNat)
    if whole : val.length = len.toNat then return ⟨len, val, whole⟩ else failure
  xdrArrayDecode max := do
    let len ← getWord
    ensure (len ≤ max)
    (List.range len.toNat).mapM fun _ => getWord

/-- The standards meet their own conditions. -/
theorem rfcTirpc_follows : rfcTirpc.FollowsRfcs where
  msg_small := by decide
  void := putFilter_puts []
  u_long _ _ := putFilter_puts _
  u_quad _ := putFilter_puts _
  bytes val len max hLen hMax := by
    rw [← hLen] at hMax
    simp only [rfcTirpc, ← hLen, List.take_length, if_pos hMax]
    exact putFilter_puts _
  callmsg msg hDirection hVers := by
    simp only [rfcTirpc, hDirection, hVers, and_self, if_true]
    exact putFilter_puts _
  bytes_decode max input str rest h := by
    simp only [rfcTirpc, StateT.run_bind, Option.bind_eq_bind, Option.bind_eq_some_iff] at h
    obtain ⟨⟨n, bytes⟩, hCount, ⟨⟨⟩, left⟩, hEnsure, ⟨v, tail⟩, hVal, ⟨fill, more⟩, -, hPure⟩ := h
    obtain ⟨hFour, rfl, rfl⟩ := getWord_decodes.word_of_run hCount
    obtain ⟨hMax, rfl⟩ := ensure_run hEnsure
    obtain ⟨hFits, rfl, -⟩ := take_run hVal
    split at hPure
    · cases hPure
      exact ⟨rfl, hMax, rfl⟩
    · cases hPure

end Nct
