import Nct.Fragments
import Nct.Reads

/-! The size check of `nct_rpc_recv` on whole records, and the replies to the
READs that `test_read_init` lets through. -/
namespace Nct

open Delivery
open Representation

/-- A fragment that does not fit what is left of the buffer ends the program. -/
theorem recvAgain_abort {markp : Option UInt32} {f : Frame} {mark : UInt32} {left : Sock}
    (hMark : readMark markp f.sock = (.ok mark, left))
    (hLong : f.bufsz < fragmentSize mark + marksz) : (recvAgain markp f).result = .abort := by
  have hSize : fragmentSize mark < 2 ^ 32 := UInt32.toNat_lt _
  have hCheck : addSize (fragmentSize mark) marksz > f.bufsz := by
    rwa [addSize_of_lt (by simp only [marksz]; omega)]
  rw [recvAgain]
  split
  · next h => simp [hMark] at h
  · next mark' sock h =>
      obtain ⟨rfl, rfl⟩ : mark = mark' ∧ left = sock := by simpa [hMark] using h
      rw [if_pos hCheck]

/-- The last fragment is refused for its size only. -/
theorem recvAgain_last_abort_iff {markp : Option UInt32} {f : Frame} {final : Fragment}
    {rest : List UInt8} (hPend : pending markp f.sock.inbox = final.wire true ++ rest) :
    (recvAgain markp f).result = .abort ↔ f.bufsz < final.payload.length + marksz := by
  rw [Fragment.wire, List.append_assoc] at hPend
  obtain ⟨left, hMark, -, -⟩ := readMark_pending hPend
  by_cases hFit : final.payload.length + marksz ≤ f.bufsz
  · rw [recvAgain_of_mark hMark (by simpa using hFit), Fragment.isLast_mark]
    refine iff_of_false ?_ (not_lt.mpr hFit)
    generalize recvPayload true _ _ = loop
    rcases loop with ⟨ending, g⟩
    cases ending <;> simp
  · have hLong := not_le.mp hFit
    exact iff_of_true (recvAgain_abort hMark (by simpa using hLong)) hLong

/-- However a record is cut into fragments, the program is ended exactly if the
whole of it and one more mark do not fit. -/
theorem recvAgain_abort_iff {more : List Fragment} {final : Fragment} {markp : Option UInt32}
    {f : Frame} {rest : List UInt8} (hIn : InBuffer f)
    (hNext : Upcoming markp f.sock.inbox (recordWire more final ++ rest)) :
    (recvAgain markp f).result = .abort ↔
      f.bufsz < (recordPayload more final).length + marksz := by
  induction more generalizing f markp with
  | nil =>
      rcases hNext with hPend | ⟨rfl, hPend⟩
      · simpa [recordPayload] using recvAgain_last_abort_iff hPend
      · rw [recordWire, List.flatMap_nil, List.nil_append] at hPend
        exact absurd hPend wire_last_ne
  | cons r more ih =>
      rw [recordPayload_cons, List.length_append]
      rw [recordWire_cons, List.append_assoc] at hNext
      rcases hNext with hPend | ⟨rfl, hPend⟩
      · by_cases hFit : r.payload.length + marksz ≤ f.bufsz
        · cases markp with
          | none =>
              obtain ⟨g, hRun, hIn', -, hReady, -, -, hSize⟩ := plain_next hIn hFit hPend
              have hAfter : Upcoming none g.sock.inbox (recordWire more final ++ rest) :=
                Or.inl hReady
              rw [hRun, ih hIn' hAfter, hSize]
              omega
          | some w =>
              obtain ⟨mark, g, hRun, hIn', hSize, -, hAfter⟩ := ahead_next hIn hFit hPend
              rw [hRun, ih hIn' hAfter, hSize]
              omega
        · have hLong := not_le.mp hFit
          have hBytes := hPend
          rw [Fragment.wire, List.append_assoc] at hBytes
          obtain ⟨left, hMark, -, -⟩ := readMark_pending hBytes
          exact iff_of_true (recvAgain_abort hMark (by simpa using hLong)) (by omega)
      · obtain ⟨hEmpty, hAfter⟩ := Upcoming.of_empty hPend
        rw [ih hIn hAfter, hEmpty, List.length_nil, Nat.zero_add]

/-- The same of a whole call. -/
theorem rpcRecv_abort_iff (bufsz : Nat) (buf : List UInt8) (sock : Sock) (markp : Option UInt32)
    (more : List Fragment) (final : Fragment) (rest : List UInt8) (h64 : bufsz < 2 ^ 64)
    (hBuf : buf.length = bufsz)
    (hNext : Upcoming markp sock.inbox (recordWire more final ++ rest)) :
    (rpcRecv sock buf bufsz markp).result = .abort ↔
      bufsz < (recordPayload more final).length + marksz :=
  recvAgain_abort_iff (f := { sock, buf, pos := 0, bufsz }) ⟨by simp [hBuf], h64⟩ hNext

/-- A complete successful reply to a READ: an accepted reply with an empty
verifier, and a result with attributes, which are those of a `fattr3`. -/
structure ReadReply where
  xid : UInt32
  attributes : List UInt8
  whole : attributes.length = 84
  eof : Bool
  data : List UInt8

def ReadReply.bytes (reply : ReadReply) : List UInt8 :=
  -- xid, REPLY, MSG_ACCEPTED, verifier, SUCCESS
  word reply.xid ++ (word 1 ++ (word 0 ++ (word 0 ++ (counted [] ++ (word 0 ++
    -- NFS3_OK, attributes, count, eof, data
    (word 0 ++ (word 1 ++ (reply.attributes ++ (word (UInt32.ofNat reply.data.length) ++
      (word (if reply.eof then 1 else 0) ++ counted reply.data))))))))))

/-- Header, attributes and counts are 128 bytes. -/
theorem ReadReply.bytes_length (reply : ReadReply) :
    reply.bytes.length = 128 + padded reply.data.length := by
  simp only [ReadReply.bytes, List.length_append, word_length, counted_length, reply.whole,
    List.length_nil, show padded 0 = 0 from rfl]
  omega

/-- The receive loop takes the whole reply to a READ exactly if the reply and
one more mark fit the message buffer. -/
theorem readReply_accepted_iff (lib : Tirpc) (length : UInt64) (reply : ReadReply)
    (hData : reply.data.length = length.toNat) (more : List Fragment) (final : Fragment)
    (hRecord : recordPayload more final = reply.bytes) (sock : Sock) (buf : List UInt8)
    (hBuf : buf.length = NCT_MSGSZ_MAX lib) (markp : Option UInt32) (rest : List UInt8)
    (hNext : Upcoming markp sock.inbox (recordWire more final ++ rest)) :
    (rpcRecv sock buf (NCT_MSGSZ_MAX lib) markp).result ≠ .abort ↔
      132 + padded length.toNat ≤ NCT_MSGSZ_MAX lib := by
  have h64 : NCT_MSGSZ_MAX lib < 2 ^ 64 :=
    lt_of_le_of_lt (Nat.sub_le ..) (by decide)
  rw [ne_eq, rpcRecv_abort_iff _ _ _ _ more final rest h64 hBuf hNext, hRecord,
    reply.bytes_length, hData, not_lt, marksz]
  omega

def zeroReply (length : Nat) : ReadReply :=
  ⟨11, List.replicate 84 0, List.length_replicate, false, List.replicate length 0⟩

theorem zeroReply_length (length : Nat) : (zeroReply length).bytes.length = 128 + padded length := by
  rw [ReadReply.bytes_length, zeroReply, List.length_replicate]

theorem zeroReply_short {length : Nat} (h : length ≤ 2 ^ 18) :
    (zeroReply length).bytes.length < 2 ^ 31 := by
  rw [zeroReply_length, padded, padding]
  omega

theorem recordPayload_single (final : Fragment) : recordPayload [] final = final.payload := by
  rw [recordPayload, List.flatMap_nil, List.nil_append]

-- for every length, so that the long reply below need not be computed
theorem zeroReply_payload (length : Nat) (hShort : (zeroReply length).bytes.length < 2 ^ 31) :
    (recordPayload [] ⟨(zeroReply length).bytes, hShort⟩).length = 128 + padded length := by
  rw [recordPayload_single, zeroReply_length]

def arrived (bytes : List UInt8) : Sock := ⟨push bytes [], []⟩

theorem arrived_upcoming {markp : Option UInt32} (hMark : markp.getD 0 = 0) (bytes : List UInt8) :
    Upcoming markp (arrived bytes).inbox (bytes ++ []) :=
  Or.inl (by simp [pending, arrived, ready, hMark])

/-- A block of 4096 bytes is admitted. -/
theorem readReply_accepted_iff_block :
    (rpcRecv (arrived (recordWire [] ⟨(zeroReply 4096).bytes, zeroReply_short (by decide)⟩))
        (List.replicate (NCT_MSGSZ_MAX rfcTirpc) 0) (NCT_MSGSZ_MAX rfcTirpc) none).result ≠ .abort ↔
      132 + padded 4096 ≤ NCT_MSGSZ_MAX rfcTirpc :=
  readReply_accepted_iff rfcTirpc 4096 (zeroReply 4096) List.length_replicate []
    ⟨(zeroReply 4096).bytes, zeroReply_short (by decide)⟩ (recordPayload_single _) _ _
    List.length_replicate none [] (arrived_upcoming rfl _)

/-- `test_read_init` lets a READ of a whole buffer through, whose reply then ends
the program. -/
theorem readReply_tooLong :
    testReadInit rfcTirpc 261952 10 = some ⟨0, 261952, 10⟩ ∧
      (rpcRecv (arrived (recordWire [] ⟨(zeroReply 261952).bytes, zeroReply_short (by decide)⟩))
        (List.replicate (NCT_MSGSZ_MAX rfcTirpc) 0) (NCT_MSGSZ_MAX rfcTirpc) (some 0)).result =
          .abort := by
  refine ⟨rfl, ?_⟩
  refine (rpcRecv_abort_iff _ _ _ _ [] ⟨(zeroReply 261952).bytes, zeroReply_short (by decide)⟩ []
    (by decide) List.length_replicate (arrived_upcoming rfl _)).mpr ?_
  rw [zeroReply_payload]
  decide

end Nct
