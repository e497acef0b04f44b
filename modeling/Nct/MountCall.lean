import Nct.Wire

/-! The MNT call of `nct_nfs_mount`, up to its wait for the reply. -/
namespace Nct

open Representation
open OncRpc (OpaqueAuth CallHeader)

def MOUNT_PROGRAM : UInt32 := 100005

def MOUNT_V3 : UInt32 := 3

def MOUNT3_MNT : UInt32 := 1

def MNTPATHLEN : Nat := 1024

/-- `xdr_string` too, of a string and the limit on its length. -/
structure MountTirpc extends Tirpc where
  xdrString : List UInt8 → Nat → Filter

/-- Where there is no room for that many bytes, the filter fails. -/
def Refuses (f : Filter) (n : Nat) : Prop := ∀ x : XdrMem, x.Within → x.handy < n → (f x).1 = false

/-- The filters of the call represent what they can, as the standards have it,
and fail where they cannot: for want of room, or because the string is too long. -/
structure MountTirpc.FollowsRfcs (lib : MountTirpc) : Prop extends lib.toTirpc.FollowsRfcs where
  callmsg_refuses : ∀ msg : RpcMsg, msg.rmDirection = CALL → msg.cbRpcvers = RPC_MSG_VERSION →
    Refuses (lib.xdrCallmsg msg) msg.header.bytes.length
  string : ∀ (str : List UInt8) (max : Nat), str.length ≤ max → max < 2 ^ 32 →
    Puts (lib.xdrString str max) (counted str)
  string_refuses : ∀ (str : List UInt8) (max : Nat),
    Refuses (lib.xdrString str max) (counted str).length
  string_long : ∀ (str : List UInt8) (max : Nat), max < str.length →
    ∀ x, (lib.xdrString str max x).1 = false

/-- `nct_xdr_dirpath`, when it encodes -/
def xdrDirpath (lib : MountTirpc) (dirpath : List UInt8) : Filter :=
  lib.xdrString dirpath MNTPATHLEN

/-- What `nct_nfs_mount` has done once its call is sent: what the encoder
returned, the lengths that `nct_rpc_send` was called with, and whether
`nct_rpc_recv` comes next. If it does not, the mount has aborted. -/
structure MountCall where
  txlen : Int
  sends : List Nat
  waits : Bool
  deriving DecidableEq

def mountBody : CallBody where
  rmXid := 0
  rmDirection := CALL
  cbRpcvers := RPC_MSG_VERSION
  cbProg := MOUNT_PROGRAM
  cbVers := MOUNT_V3
  cbProc := MOUNT3_MNT

/-- `nct_nfs_mount` from the encoding of its call to the test of what
`nct_rpc_send` returns. `txlen` is an `int`, the length passed on a `size_t`, and
`cc` a `ssize_t`. -/
def nfsMountCall (lib : MountTirpc) (auth : Option Auth) (path txbuf : List UInt8)
    (sock : TxSock) : Option MountCall :=
  (rpcEncode lib.toTirpc mountBody auth (xdrDirpath lib path) txbuf 1024).map
    fun (txlen, txbuf) =>
      let bufsz := (txlen % 2 ^ 64).toNat
      let cc := (rpcSend txbuf bufsz sock).1.bmod (2 ^ 64)
      { txlen, sends := [bufsz], waits := cc == txlen }

/-- A failed encode is not sent, and the mount does not wait; any other is sent
with its length. -/
def MountCall.Checked (m : MountCall) : Prop :=
  if m.txlen = -1 then 2 ^ 64 - 1 ∉ m.sends ∧ m.waits = false
  else ∃ len : Nat, m.txlen = len ∧ m.sends = [len] ∧ 28 ≤ len ∧ len ≤ 1024

/-- The path is not too long, and the call with its record mark fits the buffer. -/
def MountFits (auth : Option Auth) (path : List UInt8) : Prop :=
  path.length ≤ MNTPATHLEN ∧
    48 + padded (authOf auth).ahCred.body.length + padded (authOf auth).ahVerf.body.length +
      padded path.length ≤ 1024

instance (auth : Option Auth) (path : List UInt8) : Decidable (MountFits auth path) :=
  inferInstanceAs (Decidable (_ ∧ _))

theorem Refuses.and {f g : Filter} {left right : List UInt8} (hf : Puts f left)
    (hfRefuses : Refuses f left.length) (hg : Refuses g right.length) :
    Refuses (f.and g) (left ++ right).length := by
  intro x hWithin hRoom
  rw [List.length_append] at hRoom
  by_cases hLeft : left.length ≤ x.handy
  · rw [Filter.and, hf x hWithin hLeft]
    exact hg _ (hWithin.put hLeft) (by simp only [XdrMem.put]; omega)
  · have hFail := hfRefuses x hWithin (by omega)
    rw [Filter.and]
    split
    · next x' hx => exact absurd (congrArg Prod.fst hx) (by simp [hFail])
    · rfl

/-- What comes after a filter that always fails does too. -/
theorem Filter.and_false {f g : Filter} {x : XdrMem} (hg : ∀ x, (g x).1 = false) :
    (f.and g x).1 = false := by
  rw [Filter.and]
  split
  · exact hg _
  · rfl

theorem callHeader_length (h : CallHeader) :
    h.bytes.length = 40 + padded h.cred.body.length + padded h.verf.body.length := by
  simp only [CallHeader.bytes, CallHeader.tail, OpaqueAuth.bytes, List.length_append, word_length,
    counted_length, padded]
  omega

def mountHeader (auth : Option Auth) : CallHeader :=
  RpcMsg.header
    { mountBody with cbCred := (authOf auth).ahCred, cbVerf := (authOf auth).ahVerf }

/-- The two credentials and the path vary. -/
theorem mountImage_length (auth : Option Auth) (path : List UInt8) :
    4 + ((mountHeader auth).bytes ++ counted path).length =
      48 + padded (authOf auth).ahCred.body.length + padded (authOf auth).ahVerf.body.length +
        padded path.length := by
  rw [List.length_append, callHeader_length, counted_length]
  simp only [mountHeader, RpcMsg.header, padded]
  omega

section
variable {lib : MountTirpc} (hLib : lib.FollowsRfcs) {auth : Option Auth}
  {path txbuf : List UInt8} (hBuf : txbuf.length = 1024)

include hLib hBuf

/-- The call is encoded if it fits. -/
theorem mountEncode_fits (h : MountFits auth path) :
    ∃ data, rpcEncode lib.toTirpc mountBody auth (xdrDirpath lib path) txbuf 1024 =
      some (((4 + ((mountHeader auth).bytes ++ counted path).length : Nat) : Int), data) := by
  obtain ⟨hPath, hRoom⟩ := h
  rw [← mountImage_length] at hRoom
  exact ⟨_, rpcEncode_eq hLib.toFollowsRfcs mountBody auth rfl rfl rfl
    (hLib.string path MNTPATHLEN hPath (by decide)) (by decide) hRoom hBuf.ge⟩

/-- If it does not, the encoder fails. -/
theorem mountEncode_fails (h : ¬ MountFits auth path) :
    ∃ data, rpcEncode lib.toTirpc mountBody auth (xdrDirpath lib path) txbuf 1024 =
      some (-1, data) := by
  let xdr := xdrmemCreate txbuf 4 (1024 - 4)
  have hWithin : xdr.Within := by
    simp only [xdr, XdrMem.Within, xdrmemCreate]
    omega
  have hFail : ((lib.xdrCallmsg
      { mountBody with cbCred := (authOf auth).ahCred, cbVerf := (authOf auth).ahVerf }).and
        (xdrDirpath lib path) xdr).1 = false := by
    by_cases hPath : path.length ≤ MNTPATHLEN
    · have hLong : 1024 < 4 + ((mountHeader auth).bytes ++ counted path).length := by
        rw [mountImage_length]
        exact not_le.mp fun hRoom => h ⟨hPath, hRoom⟩
      refine Refuses.and (hLib.callmsg _ rfl rfl) (hLib.callmsg_refuses _ rfl rfl)
        (hLib.string_refuses path MNTPATHLEN) xdr hWithin ?_
      change 1024 - 4 < ((mountHeader auth).bytes ++ counted path).length
      omega
    · exact Filter.and_false (hLib.string_long path MNTPATHLEN (not_le.mp hPath))
  rw [rpcEncode, if_neg (by decide)]
  simp only
  split
  · next hTrue => exact absurd (congrArg Prod.fst hTrue) (by simp [hFail, xdr])
  · exact ⟨_, rfl⟩

end

/-- A call that does not fit is sent all the same, with the length -1. -/
theorem mountCall_checked_iff (lib : MountTirpc) (hLib : lib.FollowsRfcs) (auth : Option Auth)
    (path txbuf : List UInt8) (hBuf : txbuf.length = 1024) (sock : TxSock) :
    ∃ m, nfsMountCall lib auth path txbuf sock = some m ∧
      (m.txlen = -1 ↔ ¬ MountFits auth path) ∧ (m.Checked ↔ MountFits auth path) := by
  by_cases hFits : MountFits auth path
  · obtain ⟨data, hEncode⟩ := mountEncode_fits hLib hBuf hFits
    have hLength := mountImage_length auth path
    have hRoom := hFits.2
    rw [← hLength] at hRoom
    generalize 4 + ((mountHeader auth).bytes ++ counted path).length = len at *
    have hSize : ((len : Int) % 2 ^ 64).toNat = len := by omega
    have hNot : (len : Int) ≠ -1 := by omega
    refine ⟨_, by rw [nfsMountCall, hEncode, Option.map_some], ?_, ?_⟩
    · simp [hFits]
    · simp only [MountCall.Checked, hNot, if_false, hSize]
      exact iff_of_true ⟨len, rfl, rfl, by omega, hRoom⟩ hFits
  · obtain ⟨data, hEncode⟩ := mountEncode_fails hLib hBuf hFits
    refine ⟨_, by rw [nfsMountCall, hEncode, Option.map_some], ?_, ?_⟩
    · simp [hFits]
    · simp [MountCall.Checked, hFits]

/-- libtirpc as the standards describe it, with `xdr_string`. -/
def rfcMountTirpc : MountTirpc where
  toTirpc := rfcTirpc
  xdrString str max := if str.length ≤ max then putFilter (counted str) else fun x => (false, x)

theorem putFilter_refuses (bytes : List UInt8) : Refuses (putFilter bytes) bytes.length :=
  fun x _ hRoom => by rw [putFilter, if_neg (not_le.mpr hRoom)]

theorem rfcMountTirpc_follows : rfcMountTirpc.FollowsRfcs where
  toFollowsRfcs := rfcTirpc_follows
  callmsg_refuses msg hDirection hVers := by
    simp only [rfcMountTirpc, rfcTirpc, hDirection, hVers, and_self, if_true]
    exact putFilter_refuses _
  string str max hMax _ := by
    simp only [rfcMountTirpc, if_pos hMax]
    exact putFilter_puts _
  string_refuses str max := by
    by_cases hMax : str.length ≤ max
    · simp only [rfcMountTirpc, if_pos hMax]
      exact putFilter_refuses _
    · simp only [rfcMountTirpc, if_neg hMax]
      exact fun _ _ _ => rfl
  string_long str max hMax x := by simp only [rfcMountTirpc, if_neg (not_le.mpr hMax)]

/-- The export `/`, without a credential. -/
theorem mountCall_checked_iff_root :
    ∃ m, nfsMountCall rfcMountTirpc none [47] (List.replicate 1024 0) ⟨[], 0, fun _ => 1⟩ = some m ∧
      (m.txlen = -1 ↔ ¬ MountFits none [47]) ∧ (m.Checked ↔ MountFits none [47]) :=
  mountCall_checked_iff rfcMountTirpc rfcMountTirpc_follows none [47] _ List.length_replicate _

/-- Where the send fails too, its -1 is the -1 of the encoder, and the mount
waits for a reply. -/
theorem mountCall_unnoticed :
    ∃ m, nfsMountCall rfcMountTirpc none (List.replicate 1025 47) (List.replicate 1024 0)
        ⟨[], 0, fun _ => -1⟩ = some m ∧
      m = ⟨-1, [2 ^ 64 - 1], true⟩ ∧ ¬ m.Checked := by
  have hLong : ¬ MountFits none (List.replicate 1025 47) := by
    intro h
    have hPath := h.1
    rw [List.length_replicate] at hPath
    exact absurd hPath (by decide)
  obtain ⟨data, hEncode⟩ := mountEncode_fails rfcMountTirpc_follows
    (List.length_replicate (n := 1024) (a := (0 : UInt8))) hLong
  refine ⟨⟨-1, [2 ^ 64 - 1], true⟩, ?_, rfl, by simp [MountCall.Checked]⟩
  rw [nfsMountCall, hEncode, Option.map_some]
  simp [rpcSend, rpcSendLoop, TxSock.send]

end Nct
