import Nct.Call
import Nct.Framing

/-! Calls on the wire: `nct_req_send` puts the xid into an encoded message in
place, and `nct_rpc_send` sends the message behind its record mark, in as many
`send` calls as the socket asks for. -/
namespace Nct

open Function (update)
open Representation
open OncRpc (OpaqueAuth CallHeader)

/-- The sending side of a connection. The `i`-th `send` call takes as many of
its bytes as `room i` allows; where that is less than one it returns it. -/
structure TxSock where
  wire : List UInt8
  calls : Nat
  room : Nat → Int

def TxSock.send (s : TxSock) (buf : List UInt8) (n : Nat) : Int × TxSock :=
  let cc := min (s.room s.calls) n
  (cc, { s with wire := s.wire ++ buf.take cc.toNat, calls := s.calls + 1 })

/-- `while (nleft > 0) { ... }` of `nct_rpc_send`, with `buf` at offset `pos`,
and the return after it. -/
def rpcSendLoop (data : List UInt8) (bufsz pos nleft : Nat) (s : TxSock) : Int × TxSock :=
  if _hn : 0 < nleft then
    let sent := s.send (data.drop pos) nleft
    if _hcc : sent.1 < 1 then (if sent.1 = -1 then -1 else 0, sent.2)
    else rpcSendLoop data bufsz (pos + sent.1.toNat) (nleft - sent.1.toNat) sent.2
  else (bufsz, s)
termination_by nleft
decreasing_by
  change nleft - sent.1.toNat < nleft
  omega

/-- `htonl((bufsz - sizeof(mark)) | 0x80000000u)`, as a word -/
def recordMark (bufsz : Nat) : UInt32 := UInt32.ofNat (subSize bufsz marksz ||| 0x80000000)

/-- `nct_rpc_send`: what it returns, and the buffer and the socket after it. -/
def rpcSend (buf : List UInt8) (bufsz : Nat) (sock : TxSock) : Int × List UInt8 × TxSock :=
  let buf := store buf 0 (htonl (recordMark bufsz))
  let sent := rpcSendLoop buf bufsz 0 bufsz sock
  (sent.1, buf, sent.2)

/-- `nct_req_send`, with no other thread at the message; `none` for its abort.
The xid goes to the first field of the `struct rpc_msg` behind the mark. -/
def Client.reqSend (c : Client) (req : ReqId) (sock : TxSock) : Option (Client × TxSock) :=
  let msg := c.mnt.reqMsg req
  let patched := store (c.msgData msg) 4 (htonl c.mnt.sendXid)
  let sent := rpcSend patched (c.mnt.msgLen msg) sock
  if (sent.1 % 2 ^ 64).toNat ≠ c.mnt.msgLen msg then none
  else some ({ c with
    mnt := Nct.reqSend c.mnt req
    msgData := update c.msgData msg sent.2.1 }, sent.2.2)

/-- Encode a call and send it. -/
def Nfs3Call.issue (lib : Tirpc) (call : Nfs3Call) (req : ReqId) (c : Client) (sock : TxSock) :
    Option (Client × TxSock) :=
  (call.encode lib req c).bind fun c => c.reqSend req sock

/-- However the socket cuts the data up, all of it goes out in order. -/
theorem rpcSendLoop_all (data : List UInt8) (bufsz pos nleft : Nat) (s : TxSock)
    (hRoom : ∀ i, 1 ≤ s.room i) :
    (rpcSendLoop data bufsz pos nleft s).1 = bufsz ∧
      (rpcSendLoop data bufsz pos nleft s).2.wire = s.wire ++ (data.drop pos).take nleft := by
  induction nleft using Nat.strong_induction_on generalizing pos s with
  | _ nleft ih =>
      by_cases hn : 0 < nleft
      · have hFirst := hRoom s.calls
        have hSent : ∃ k, 0 < k ∧ k ≤ nleft ∧ min (s.room s.calls) (nleft : Int) = (k : Int) :=
          ⟨(min (s.room s.calls) (nleft : Int)).toNat, by omega, by omega, by omega⟩
        obtain ⟨k, hPos, hLe, hCc⟩ := hSent
        have hRest := ih (nleft - k) (by omega) (pos + k)
          { s with wire := s.wire ++ (data.drop pos).take k, calls := s.calls + 1 } hRoom
        rw [rpcSendLoop, dif_pos hn]
        simp only [TxSock.send, hCc, Int.toNat_natCast]
        rw [dif_neg (by omega)]
        refine ⟨hRest.1, hRest.2.trans ?_⟩
        rw [List.append_assoc, ← List.drop_drop, ← List.take_add, Nat.add_sub_cancel' hLe]
      · obtain rfl : nleft = 0 := by omega
        rw [rpcSendLoop, dif_neg hn]
        simp

/-- The mark of a record of one fragment. -/
theorem recordMark_eq (r : Fragment) : recordMark (4 + r.payload.length) = r.mark true := by
  have hShort := r.short
  have hSub : subSize (4 + r.payload.length) marksz = r.payload.length := by
    rw [subSize_of_le (by simp [marksz]) (by omega), marksz, Nat.add_sub_cancel_left]
  have hOr := Nat.two_pow_add_eq_or_of_lt hShort 1
  rw [recordMark, hSub, Fragment.mark, if_pos rfl, Nat.add_comm r.payload.length,
    show (0x80000000 : Nat) = 2 ^ 31 * 1 from rfl, Nat.or_comm, ← hOr, Nat.mul_one]

/-- Writing over the front of what was stored keeps the rest. -/
theorem store_patch {buf left new : List UInt8} {pos : Nat} (right : List UInt8)
    (hPos : pos ≤ buf.length) (hSame : new.length = left.length) :
    store (store buf pos (left ++ right)) pos new = store buf pos (new ++ right) := by
  have hTake : (buf.take pos).length = pos := by simpa using hPos
  have hFront : (store buf pos (left ++ right)).take pos = buf.take pos := by
    rw [store, List.append_assoc, List.take_left' hTake]
  have hBack : (store buf pos (left ++ right)).drop (pos + new.length) =
      right ++ buf.drop (pos + (left ++ right).length) := by
    rw [store, ← List.append_assoc, List.append_assoc, List.drop_left' (by simp [hTake, hSame])]
  rw [store, hFront, hBack, store]
  simp only [List.append_assoc, List.length_append, hSame]

/-- A mark written before what was stored at offset 4. -/
theorem take_store_mark (buf image mark : List UInt8) (hBuf : 4 ≤ buf.length)
    (hMark : mark.length = 4) :
    (store (store buf 4 image) 0 mark).take (4 + image.length) = mark ++ image := by
  have hTake : (buf.take 4).length = 4 := by simpa using hBuf
  have hBack : (store buf 4 image).drop 4 = image ++ buf.drop (4 + image.length) := by
    rw [store, List.append_assoc, List.drop_left' hTake]
  rw [store, List.take_zero, List.nil_append, Nat.zero_add, hMark, hBack, ← List.append_assoc,
    List.take_left' (by rw [List.length_append, hMark])]

/-- The bytes are one record of a message of `len` bytes: its mark has the
last-fragment bit and the length of the payload, and the payload is the call,
with nothing left over. -/
def WireImage (bytes : List UInt8) (len : Nat) (call : CallHeader × Nfs3Args) : Prop :=
  ∃ mark payload, bytes = htonl mark ++ payload ∧ isLast mark = true ∧
    fragmentSize mark = len - 4 ∧ payload.length = len - 4 ∧
    getCall.run payload = some (call, [])

/-- Bytes are the image of one call at most. -/
theorem WireImage.unique {bytes : List UInt8} {len len' : Nat} {call call' : CallHeader × Nfs3Args}
    (h : WireImage bytes len call) (h' : WireImage bytes len' call') : call = call' := by
  obtain ⟨mark, payload, rfl, -, -, -, hCall⟩ := h
  obtain ⟨mark', payload', hBytes, -, -, -, hCall'⟩ := h'
  obtain ⟨-, rfl⟩ := List.append_inj hBytes (by rw [htonl_length, htonl_length])
  rw [hCall] at hCall'
  cases hCall'
  rfl

theorem wireImage_image (call : Nfs3Call) (xid : UInt32) (c : Client)
    (hFh : c.mntVn.xvnFh.fhandle3Val.length ≤ NFS3_FHSIZE) :
    WireImage (htonl (recordMark (4 + (call.image xid c).length)) ++ call.image xid c)
      (4 + (call.image xid c).length)
      (nfsHeader xid call.proc (authOf (call.auth c.mntAuth)),
        call.args c.mntVn.xvnFh.fhandle3Val) := by
  obtain ⟨hFits, -⟩ := image_fits rfcTirpc_follows call xid c hFh
  let r : Fragment := ⟨call.image xid c, by omega⟩
  have hMark : recordMark (4 + (call.image xid c).length) = r.mark true := recordMark_eq r
  refine ⟨_, _, rfl, ?_, ?_, (Nat.add_sub_cancel_left ..).symm, (call.reads hFh xid _).exact⟩
  · rw [hMark, Fragment.isLast_mark]
  · rw [hMark, Fragment.fragmentSize_mark, Nat.add_sub_cancel_left]

/-- The image of a call but for the xid, which comes first. -/
theorem Nfs3Call.image_eq (call : Nfs3Call) (c : Client) :
    ∃ more : List UInt8, ∀ xid, call.image xid c = htonl xid ++ more := by
  refine ⟨(nfsHeader 0 call.proc (authOf (call.auth c.mntAuth))).tail ++
    (call.args c.mntVn.xvnFh.fhandle3Val).bytes, fun xid => ?_⟩
  rw [Nfs3Call.image, CallHeader.bytes, List.append_assoc]
  rfl

/-- A message that is `image` once the xid is in place goes out behind its mark. -/
theorem Client.reqSend_eq (c : Client) (req : ReqId) (sock : TxSock) {buf image : List UInt8}
    (hPatch : store (c.msgData (c.mnt.reqMsg req)) 4 (htonl c.mnt.sendXid) = store buf 4 image)
    (hLen : c.mnt.msgLen (c.mnt.reqMsg req) = 4 + image.length) (hBuf : 4 ≤ buf.length)
    (h64 : 4 + image.length < 2 ^ 64) (hRoom : ∀ i, 1 ≤ sock.room i) :
    ∃ c' sock', c.reqSend req sock = some (c', sock') ∧ c'.mnt.msgLen = c.mnt.msgLen ∧
      sock'.wire = sock.wire ++ (htonl (recordMark (4 + image.length)) ++ image) := by
  obtain ⟨hCc, hWire⟩ := rpcSendLoop_all
    (store (store buf 4 image) 0 (htonl (recordMark (4 + image.length))))
    (4 + image.length) 0 (4 + image.length) sock hRoom
  rw [List.drop_zero, take_store_mark buf image _ hBuf (htonl_length _)] at hWire
  have hSame : (((4 + image.length : Nat) : Int) % 2 ^ 64).toNat = 4 + image.length := by omega
  refine ⟨{ c with
    mnt := Nct.reqSend c.mnt req
    msgData := update c.msgData (c.mnt.reqMsg req)
      (store (store buf 4 image) 0 (htonl (recordMark (4 + image.length)))) }, _, ?_, rfl, hWire⟩
  simp only [Client.reqSend, hPatch, hLen, rpcSend, hCc, hSame, ne_eq, not_true_eq_false, if_false]

/-- Encoding, the xid in place and the mark before it give the image, and the
send loop puts it on the wire. -/
theorem Nfs3Call.issue_eq {lib : Tirpc} (hLib : lib.FollowsRfcs) (call : Nfs3Call) (req : ReqId)
    (c : Client) (sock : TxSock)
    (hData : (c.msgData (c.mnt.reqMsg req)).length = NCT_MSGSZ_MAX lib)
    (hFh : c.mntVn.xvnFh.fhandle3Val.length ≤ NFS3_FHSIZE) (hCount : call.CountFits)
    (hRoom : ∀ i, 1 ≤ sock.room i) :
    ∃ c' sock', call.issue lib req c sock = some (c', sock') ∧
      c'.mnt.msgLen (c.mnt.reqMsg req) = 4 + (call.image c.mnt.sendXid c).length ∧
      sock'.wire = sock.wire ++
        (htonl (recordMark (4 + (call.image c.mnt.sendXid c).length)) ++
          call.image c.mnt.sendXid c) := by
  obtain ⟨hFits, hSize⟩ := image_fits hLib call c.mnt.sendXid c hFh
  obtain ⟨more, hImage⟩ := call.image_eq c
  have hLen : (call.image 0 c).length = (call.image c.mnt.sendXid c).length := by
    simp only [hImage, List.length_append, htonl_length]
  have hPatch : store (store (c.msgData (c.mnt.reqMsg req)) 4 (call.image 0 c)) 4
      (htonl c.mnt.sendXid) =
        store (c.msgData (c.mnt.reqMsg req)) 4 (call.image c.mnt.sendXid c) := by
    rw [hImage 0, store_patch more (by omega) (by simp), ← hImage]
  have hEncode := call.encode_eq hLib req c hData hFh hCount
  rw [hLen] at hEncode
  let encoded := c.setMsg (c.mnt.reqMsg req) (store (c.msgData (c.mnt.reqMsg req)) 4
    (call.image 0 c)) (4 + (call.image c.mnt.sendXid c).length)
  have hStored : encoded.msgData (encoded.mnt.reqMsg req) =
      store (c.msgData (c.mnt.reqMsg req)) 4 (call.image 0 c) := Function.update_self ..
  have hMsgLen : encoded.mnt.msgLen (encoded.mnt.reqMsg req) =
      4 + (call.image c.mnt.sendXid c).length := Function.update_self ..
  rw [← hStored] at hPatch
  obtain ⟨c', sock', hSend, hKeep, hWire⟩ :=
    encoded.reqSend_eq req sock hPatch hMsgLen (by omega) (by omega) hRoom
  refine ⟨c', sock', ?_, ?_, hWire⟩
  · rw [Nfs3Call.issue, hEncode, Option.bind_some]
    exact hSend
  · rw [hKeep]
    exact hMsgLen

/-- For NULL, GETATTR and READ, whatever the handle, the credentials, the xid
and the cuts that `send` makes: one record goes out, and it is the call. NULL
goes without the mount's credentials. -/
theorem wire_image {lib : Tirpc} (hLib : lib.FollowsRfcs) (call : Nfs3Call) (req : ReqId)
    (c : Client) (sock : TxSock)
    (hData : (c.msgData (c.mnt.reqMsg req)).length = NCT_MSGSZ_MAX lib)
    (hFh : c.mntVn.xvnFh.fhandle3Val.length ≤ NFS3_FHSIZE) (hCount : call.CountFits)
    (hRoom : ∀ i, 1 ≤ sock.room i) :
    ∃ c' sock' bytes, call.issue lib req c sock = some (c', sock') ∧
      sock'.wire = sock.wire ++ bytes ∧
      WireImage bytes (c'.mnt.msgLen (c.mnt.reqMsg req))
        (nfsHeader c.mnt.sendXid call.proc (authOf (call.auth c.mntAuth)),
          call.args c.mntVn.xvnFh.fhandle3Val) := by
  obtain ⟨c', sock', hIssue, hLen, hWire⟩ := call.issue_eq hLib req c sock hData hFh hCount hRoom
  refine ⟨c', sock', _, hIssue, hWire, ?_⟩
  rw [hLen]
  exact wireImage_image call _ c hFh

/-- A client with an AUTH_UNIX credential for user 7, and a three-byte handle. -/
def unixClient : Client where
  mnt := { Mnt.zero with sendXid := 0xffffffff }
  mntVn := ⟨⟨3, [1, 2, 3], rfl⟩, 1, [47, 0]⟩
  mntAuth := ⟨⟨1, [0, 0, 0, 7], by decide⟩, nullAuth⟩
  msgData _ := List.replicate (NCT_MSGSZ_MAX rfcTirpc) 0

def byteSock : TxSock := ⟨[], 0, fun _ => 1⟩

def firstReq : ReqId := ⟨0, by decide⟩

theorem wire_image_read : ∃ c' sock' bytes,
    (Nfs3Call.read (-1) 4096).issue rfcTirpc firstReq unixClient byteSock = some (c', sock') ∧
      sock'.wire = byteSock.wire ++ bytes ∧
      WireImage bytes (c'.mnt.msgLen (unixClient.mnt.reqMsg firstReq))
        (nfsHeader 0xffffffff NFS3_READ unixClient.mntAuth,
          .read [1, 2, 3] 0xffffffffffffffff 4096) :=
  wire_image rfcTirpc_follows (.read (-1) 4096) firstReq unixClient byteSock List.length_replicate
    (by decide) (show (4096 : UInt64).toNat < 2 ^ 32 by decide) fun _ => le_refl 1

/-- The credential of the mount is not in its NULL calls. -/
theorem null_uncredentialed : ∃ c' sock',
    Nfs3Call.null.issue rfcTirpc firstReq unixClient byteSock = some (c', sock') ∧
      ¬ ∃ bytes, sock'.wire = byteSock.wire ++ bytes ∧
        WireImage bytes (c'.mnt.msgLen (unixClient.mnt.reqMsg firstReq))
          (nfsHeader 0xffffffff NFS3_NULL unixClient.mntAuth, .null) := by
  have hFh : unixClient.mntVn.xvnFh.fhandle3Val.length ≤ NFS3_FHSIZE := by decide
  obtain ⟨c', sock', hIssue, -, hWire⟩ := Nfs3Call.issue_eq rfcTirpc_follows .null firstReq
    unixClient byteSock List.length_replicate hFh trivial fun _ => le_refl 1
  refine ⟨c', sock', hIssue, ?_⟩
  rintro ⟨bytes, hBytes, hImage⟩
  rw [hWire] at hBytes
  obtain rfl := List.append_cancel_left hBytes
  have hSame := hImage.unique (wireImage_image .null _ unixClient hFh)
  have hCred : unixClient.mntAuth.ahCred = nullAuth := congrArg (fun call => call.1.cred) hSame
  exact absurd hCred (by decide)

end Nct
