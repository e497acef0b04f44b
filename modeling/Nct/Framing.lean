import Nct.Rpc
import Mathlib.Data.Nat.Bitwise

/-! Framing of whole records. A sender's byte stream is compared with what
successive `nct_rpc_recv` calls return, with and without read-ahead, for every
segmentation of the stream. -/
namespace Nct

open Delivery

/-- One fragment of a record; its length fits the 31-bit field of a mark. -/
structure Fragment where
  payload : List UInt8
  short : payload.length < 2 ^ 31

/-- The record mark of a fragment: its length, and the top bit on the last one. -/
def Fragment.mark (last : Bool) (r : Fragment) : UInt32 :=
  UInt32.ofNat (r.payload.length + if last then 2 ^ 31 else 0)

/-- A fragment as it is sent. -/
def Fragment.wire (last : Bool) (r : Fragment) : List UInt8 := htonl (r.mark last) ++ r.payload

/-- Records of one fragment each, sent one after another. -/
def stream (records : List Fragment) : List UInt8 := records.flatMap (Fragment.wire true)

@[simp] theorem htonl_length (w : UInt32) : (htonl w).length = marksz := by simp [htonl]

@[simp] theorem ntohl_htonl (w : UInt32) : ntohl (htonl w) = w := by
  apply UInt32.toNat_inj.mp
  have hw : w.toNat < 2 ^ 32 := w.toNat_lt
  rw [ntohl, htonl, BigEndian.decode_encode_of_lt (by simpa [marksz] using hw)]
  simp

theorem Fragment.mark_toNat (last : Bool) (r : Fragment) :
    (r.mark last).toNat = r.payload.length + if last then 2 ^ 31 else 0 := by
  have := r.short
  rw [Fragment.mark, UInt32.toNat_ofNat', Nat.mod_eq_of_lt]
  split <;> omega

@[simp] theorem Fragment.isLast_mark (last : Bool) (r : Fragment) :
    isLast (r.mark last) = last := by
  have hBit : (r.mark last &&& 0x80000000).toNat = if last then 2 ^ 31 else 0 := by
    rw [UInt32.toNat_and, Fragment.mark_toNat, show (0x80000000 : UInt32).toNat = 2 ^ 31 from rfl,
      Nat.and_two_pow]
    have := r.short
    cases last with
    | false => simp [Nat.testBit_lt_two_pow this]
    | true =>
        have : (r.payload.length + 2 ^ 31).testBit 31 = true := by
          rw [Nat.add_comm, Nat.testBit_two_pow_add_eq, Nat.testBit_lt_two_pow this]
          rfl
        simp only [if_true, this, Bool.toNat_true, one_mul]
  cases last with
  | false =>
      have : r.mark false &&& 0x80000000 = 0 := UInt32.toNat_inj.mp hBit
      simp [isLast, this]
  | true =>
      have : r.mark true &&& 0x80000000 ≠ 0 := by
        intro h
        rw [h] at hBit
        simp at hBit
      simpa [isLast] using this

@[simp] theorem Fragment.fragmentSize_mark (last : Bool) (r : Fragment) :
    fragmentSize (r.mark last) = r.payload.length := by
  have := r.short
  rw [fragmentSize, UInt32.toNat_and, Fragment.mark_toNat,
    show (~~~(0x80000000 : UInt32)).toNat = 2 ^ 31 - 1 from rfl, Nat.and_two_pow_sub_one_eq_mod]
  cases last with
  | false => simpa using this
  | true => rw [if_pos rfl, Nat.add_mod_right, Nat.mod_eq_of_lt this]

/-- Only an empty fragment that is not the last one has mark zero. -/
theorem Fragment.mark_eq_zero {last : Bool} {r : Fragment} :
    r.mark last = 0 ↔ last = false ∧ r.payload = [] := by
  rw [← UInt32.toNat_inj, Fragment.mark_toNat]
  cases last <;> simp

@[simp] theorem Fragment.wire_length (last : Bool) (r : Fragment) :
    (r.wire last).length = marksz + r.payload.length := by
  simp [Fragment.wire]

/-- What a call that starts with `markp` has yet to take in: the mark that the
call before may have left, and then what is on the connection. -/
def pending (markp : Option UInt32) (inbox : List (Arrival UInt8)) : List UInt8 :=
  (if markp.getD 0 = 0 then [] else htonl (markp.getD 0)) ++ ready inbox

/-- How many bytes of the next mark are still on the connection. -/
def markBytes (markp : Option UInt32) : Nat := if markp.getD 0 = 0 then marksz else 0

/-- The mark is read, or has been, and its payload comes next. -/
theorem readMark_pending {markp : Option UInt32} {sock : Sock} {mark : UInt32} {rest : List UInt8}
    (h : pending markp sock.inbox = htonl mark ++ rest) :
    ∃ left, readMark markp sock = (.ok mark, left) ∧
      left.inbox = advance (markBytes markp) sock.inbox ∧ ready left.inbox = rest := by
  by_cases hMark : markp.getD 0 = 0
  · simp only [pending, hMark, if_true, List.nil_append] at h
    have hLen : marksz ≤ (ready sock.inbox).length := by
      rw [h, List.length_append, htonl_length]
      omega
    have hAll := readAll_ready (by decide) hLen
    have hTake : (ready sock.inbox).take marksz = htonl mark := by
      rw [h, ← htonl_length mark, List.take_left']
      rfl
    rw [hTake] at hAll
    refine ⟨sock.recvMark.2, ?_, ?_, ?_⟩
    · simp only [readMark, hMark, Sock.recvMark, hAll, beq_self_eq_true, if_true,
        htonl_length, bne_self_eq_false, Bool.false_eq_true, if_false, ntohl_htonl]
    · simp only [Sock.recvMark, hAll, markBytes, hMark, if_true]
    · simp only [Sock.recvMark, hAll]
      rw [ready_advance, h, ← htonl_length mark, List.drop_left']
      rfl
  · simp only [pending, hMark, if_false] at h
    obtain ⟨hWord, hRest⟩ := List.append_inj h (by simp)
    have hSame : markp.getD 0 = mark := by rw [← ntohl_htonl (markp.getD 0), hWord, ntohl_htonl]
    refine ⟨sock, ?_, ?_, hRest⟩
    · simp only [hSame] at hMark
      simp only [readMark, hSame, beq_eq_false_iff_ne.mpr hMark, Bool.false_eq_true, if_false]
    · simp only [markBytes, hMark, if_false, advance_zero]

/-- The space `nct_rpc_recv` still counts on lies within the caller's buffer. -/
def InBuffer (f : Frame) : Prop := f.pos + f.bufsz ≤ f.buf.length ∧ f.bufsz < 2 ^ 64

/-- What was stored behind the payload is the next mark. -/
theorem store_mark {buf : List UInt8} {pos : Nat} (left mark : List UInt8)
    (h : pos ≤ buf.length) :
    ((store buf pos (left ++ mark)).drop (pos + left.length)).take mark.length = mark := by
  have hPrefix : (buf.take pos ++ left).length = pos + left.length := by
    simp only [List.length_append, List.length_take]
    omega
  rw [store, ← hPrefix, ← List.append_assoc, List.append_assoc _ mark, List.drop_left' rfl,
    List.take_left' rfl]

/-- The payload loop of a fragment whose mark is known, by the three ways it
can end. `bytes` is what the stream holds after the mark. -/
theorem payload_of_pending (markp : Option UInt32) (want : Nat) {f : Frame} {r : Fragment}
    {last : Bool} {rest : List UInt8} (hIn : InBuffer f) (hWant : want ≤ f.bufsz)
    (hPend : pending markp f.sock.inbox = r.wire last ++ rest) :
    ∃ left, readMark markp f.sock = (.ok (r.mark last), left) ∧
      left.inbox = advance (markBytes markp) f.sock.inbox ∧
      ready left.inbox = r.payload ++ rest ∧
      (∀ p, 0 < p → (p ∈ ends left.inbox ↔ markBytes markp + p ∈ ends f.sock.inbox)) ∧
      PayloadSpec last want { f with sock := left } := by
  have hWire : pending markp f.sock.inbox = htonl (r.mark last) ++ (r.payload ++ rest) := by
    rw [hPend, Fragment.wire, List.append_assoc]
  obtain ⟨left, hMark, hInbox, hReady⟩ := readMark_pending hWire
  have hBytes : markBytes markp ≤ (ready f.sock.inbox).length := by
    unfold markBytes
    split
    · next h =>
        simp only [pending, h, if_true, List.nil_append] at hWire
        rw [hWire, List.length_append, htonl_length]
        omega
    · omega
  refine ⟨left, hMark, hInbox, hReady, fun p hp => ?_, ?_⟩
  · rw [hInbox, mem_ends_advance hp hBytes]
  · exact recvPayload_spec _ _ _ hWant hIn.2 (by have := hIn.1; simp only; omega)

section
variable {f : Frame} {r : Fragment} {rest : List UInt8} (hIn : InBuffer f)
  (hFit : r.payload.length + marksz ≤ f.bufsz)

include hIn hFit

/-- Plain mode, last fragment: a segment end four bytes before the end of the
payload ends the call there, with those bytes unread. -/
theorem plain_last_cut (hPend : ready f.sock.inbox = r.wire true ++ rest)
    (hLong : marksz < r.payload.length) (hCut : r.payload.length ∈ ends f.sock.inbox) :
    ∃ g, recvAgain none f = ⟨.record r.payload.length, none, g⟩ ∧
      g.sock.inbox = advance r.payload.length f.sock.inbox ∧
      g.buf = store f.buf f.pos (r.payload.take (r.payload.length - marksz)) := by
  obtain ⟨left, hMark, hInbox, hReady, hEnds, spec⟩ :=
    payload_of_pending none r.payload.length hIn (by omega) hPend
  have hBytes : markBytes none + (r.payload.length - marksz) = r.payload.length := by
    simp only [markBytes, Option.getD_none, if_true]
    omega
  have hEarly : EarlyExit true r.payload.length left.inbox :=
    ⟨rfl, hLong, by rwa [hEnds _ (by omega), hBytes]⟩
  obtain ⟨g, hRun, hGot⟩ := spec.early hEarly
  refine ⟨g, ?_, ?_, ?_⟩
  · rw [recvAgain_of_mark hMark (by simpa using hFit)]
    simp only [Fragment.isLast_mark, Fragment.fragmentSize_mark, wanted, Option.isSome_none,
      Bool.false_eq_true, if_false, Nat.add_zero, hRun, Option.map_none]
  · rw [hGot.inbox, hInbox, advance_advance, hBytes]
  · rw [hGot.buf, hReady, List.take_append_of_le_length (by omega)]

/-- Plain mode without such a segment end: the whole fragment is received. -/
theorem plain_complete {last : Bool} (hPend : ready f.sock.inbox = r.wire last ++ rest)
    (hCut : last = true → marksz < r.payload.length → r.payload.length ∉ ends f.sock.inbox) :
    ∃ g, recvAgain none f =
        (if last then ⟨.record r.payload.length, none, g⟩ else recvAgain none g) ∧
      g.sock.inbox = advance (marksz + r.payload.length) f.sock.inbox ∧
      g.buf = store f.buf f.pos r.payload ∧
      g.pos = f.pos + r.payload.length ∧ g.bufsz = f.bufsz - r.payload.length := by
  obtain ⟨left, hMark, hInbox, hReady, hEnds, spec⟩ :=
    payload_of_pending none r.payload.length hIn (by omega) hPend
  have hEarly : ¬ EarlyExit last r.payload.length left.inbox := by
    rintro ⟨hLast, hLong, hMem⟩
    rw [hEnds _ (by omega)] at hMem
    apply hCut hLast hLong
    simp only [markBytes, Option.getD_none, if_true] at hMem
    rwa [show marksz + (r.payload.length - marksz) = r.payload.length by omega] at hMem
  obtain ⟨g, hRun, hGot⟩ := spec.complete hEarly (by simp [hReady])
  refine ⟨g, ?_, ?_, ?_, hGot.pos, hGot.bufsz⟩
  · rw [recvAgain_of_mark hMark (by simpa using hFit)]
    simp only [Fragment.isLast_mark, Fragment.fragmentSize_mark, wanted, Option.isSome_none,
      Bool.false_eq_true, if_false, Nat.add_zero, hRun, keepMark]
  · rw [hGot.inbox, hInbox, advance_advance]
    rfl
  · rw [hGot.buf, hReady, List.take_left' rfl]

/-- Read-ahead, last fragment: a segment that ends with the payload ends the
call there, with no mark read ahead. -/
theorem ahead_last_cut {w : UInt32} (hPend : pending (some w) f.sock.inbox = r.wire true ++ rest)
    (hSome : 0 < r.payload.length)
    (hCut : markBytes (some w) + r.payload.length ∈ ends f.sock.inbox) :
    ∃ g, recvAgain (some w) f = ⟨.record r.payload.length, some 0, g⟩ ∧
      g.sock.inbox = advance (markBytes (some w) + r.payload.length) f.sock.inbox ∧
      g.buf = store f.buf f.pos r.payload := by
  obtain ⟨left, hMark, hInbox, hReady, hEnds, spec⟩ :=
    payload_of_pending (some w) (r.payload.length + marksz) hIn (by omega) hPend
  have hEarly : EarlyExit true (r.payload.length + marksz) left.inbox :=
    ⟨rfl, by omega, by rwa [Nat.add_sub_cancel, hEnds _ hSome]⟩
  obtain ⟨g, hRun, hGot⟩ := spec.early hEarly
  rw [Nat.add_sub_cancel] at hGot
  refine ⟨g, ?_, ?_, ?_⟩
  · rw [recvAgain_of_mark hMark (by simpa using hFit)]
    simp only [Fragment.isLast_mark, Fragment.fragmentSize_mark, wanted, Option.isSome_some,
      if_true, hRun, Option.map_some]
  · rw [hGot.inbox, hInbox, advance_advance]
  · rw [hGot.buf, hReady, List.take_left' rfl]

/-- Read-ahead, last fragment, without such a segment end and with less than a
mark behind it: waiting for the mark runs into the end of the stream. -/
theorem ahead_last_short {w : UInt32} (hPend : pending (some w) f.sock.inbox = r.wire true ++ rest)
    (hCut : 0 < r.payload.length → markBytes (some w) + r.payload.length ∉ ends f.sock.inbox)
    (hShort : rest.length < marksz) :
    ∃ cc g, recvAgain (some w) f = ⟨.failed cc, some w, g⟩ := by
  obtain ⟨left, hMark, hInbox, hReady, hEnds, spec⟩ :=
    payload_of_pending (some w) (r.payload.length + marksz) hIn (by omega) hPend
  have hEarly : ¬ EarlyExit true (r.payload.length + marksz) left.inbox := by
    rintro ⟨-, hLong, hMem⟩
    rw [Nat.add_sub_cancel, hEnds _ (by omega)] at hMem
    exact hCut (by omega) hMem
  obtain ⟨cc, g, hRun⟩ := spec.failed hEarly (by simpa [hReady] using hShort)
  refine ⟨cc, g, ?_⟩
  rw [recvAgain_of_mark hMark (by simpa using hFit)]
  simp only [Fragment.isLast_mark, Fragment.fragmentSize_mark, wanted, Option.isSome_some,
    if_true, hRun]

/-- Read-ahead with the four bytes after the fragment at hand: they are read
behind the payload and kept as the next mark. -/
theorem ahead_complete {w : UInt32} {last : Bool} {mark : List UInt8}
    (hPend : pending (some w) f.sock.inbox = r.wire last ++ (mark ++ rest))
    (hLen : mark.length = marksz)
    (hCut : last = true → 0 < r.payload.length →
      markBytes (some w) + r.payload.length ∉ ends f.sock.inbox) :
    ∃ g, recvAgain (some w) f =
        (if last then ⟨.record r.payload.length, some (ntohl mark), g⟩
          else recvAgain (some (ntohl mark)) g) ∧
      g.sock.inbox = advance (markBytes (some w) + (r.payload.length + marksz)) f.sock.inbox ∧
      g.buf = store f.buf f.pos (r.payload ++ mark) ∧
      g.pos = f.pos + r.payload.length ∧ g.bufsz = f.bufsz - r.payload.length := by
  obtain ⟨left, hMark, hInbox, hReady, hEnds, spec⟩ :=
    payload_of_pending (some w) (r.payload.length + marksz) hIn (by omega) hPend
  have hEarly : ¬ EarlyExit last (r.payload.length + marksz) left.inbox := by
    rintro ⟨hLast, hLong, hMem⟩
    rw [Nat.add_sub_cancel, hEnds _ (by omega)] at hMem
    exact hCut hLast (by omega) hMem
  obtain ⟨g, hRun, hGot⟩ := spec.complete hEarly (by simp [hReady, hLen])
  have hTake : (r.payload ++ (mark ++ rest)).take (r.payload.length + marksz) =
      r.payload ++ mark := by
    rw [← List.append_assoc, List.take_left' (by simp [hLen])]
  have hBuf : g.buf = store f.buf f.pos (r.payload ++ mark) := by
    rw [hGot.buf, hReady, hTake]
  have hPos : g.pos - marksz = f.pos + r.payload.length := by
    rw [hGot.pos]
    simp only
    omega
  have hKept : (keepMark (some w) g).1 = some (ntohl mark) := by
    have hRoom := hIn.1
    have := store_mark r.payload mark (show f.pos ≤ f.buf.length by omega)
    rw [hLen] at this
    simp only [keepMark, hPos, hBuf, this]
  refine ⟨(keepMark (some w) g).2, ?_, ?_, ?_, ?_, ?_⟩
  · rw [recvAgain_of_mark hMark (by simpa using hFit)]
    simp only [Fragment.isLast_mark, Fragment.fragmentSize_mark, wanted, Option.isSome_some,
      if_true, hRun, hKept]
  · rw [keepMark_sock, hGot.inbox, hInbox, advance_advance]
  · exact hBuf
  · exact hPos
  · have h64 := hIn.2
    simp only [keepMark, hGot.bufsz]
    rw [addSize_of_lt (by omega)]
    omega

end

/-- The mark word and the connection after `k` calls that share them. The
`k`-th call is given the buffer `buf k` of `bufsz` bytes. -/
def afterCalls (bufsz : Nat) (buf : Nat → List UInt8) (start : Option UInt32 × Sock) :
    Nat → Option UInt32 × Sock
  | 0 => start
  | k + 1 =>
      let now := afterCalls bufsz buf start k
      let out := rpcRecv now.2 (buf k) bufsz now.1
      (out.markp, out.frame.sock)

/-- The `k`-th of these calls, counted from zero. -/
def nthCall (bufsz : Nat) (buf : Nat → List UInt8) (start : Option UInt32 × Sock) (k : Nat) :
    RecvOut :=
  let now := afterCalls bufsz buf start k
  rpcRecv now.2 (buf k) bufsz now.1

/-- The call returns the record's length and leaves its payload in the buffer. -/
def Delivers (out : RecvOut) (r : Fragment) : Prop :=
  out.result = .record r.payload.length ∧ out.frame.buf.take r.payload.length = r.payload

/-- Records that a buffer of `bufsz` bytes has room for. -/
def Fits (bufsz : Nat) (records : List Fragment) : Prop :=
  ∀ r ∈ records, 1 ≤ r.payload.length ∧ r.payload.length + marksz ≤ bufsz

theorem take_store_zero (buf bytes tail : List UInt8) :
    (store buf 0 (bytes ++ tail)).take bytes.length = bytes := by
  rw [store, List.take_zero, List.nil_append, List.append_assoc, List.take_left' rfl]

theorem stream_drop {records : List Fragment} {k : Nat} (hk : k < records.length) :
    stream (records.drop k) = records[k].wire true ++ stream (records.drop (k + 1)) := by
  rw [List.drop_eq_getElem_cons hk, stream, List.flatMap_cons]
  rfl

theorem stream_take_length {records : List Fragment} {k : Nat} (hk : k < records.length) :
    (stream (records.take (k + 1))).length =
      (stream (records.take k)).length + (marksz + records[k].payload.length) := by
  rw [List.take_succ_eq_append_getElem hk, stream, List.flatMap_append, List.length_append]
  simp [stream]

theorem stream_take_drop (records : List Fragment) (k : Nat) :
    stream records = stream (records.take k) ++ stream (records.drop k) := by
  rw [stream, stream, stream, ← List.flatMap_append, List.take_append_drop]

/-- What a run of calls has left of the stream after `k` whole records. -/
theorem ready_after {records : List Fragment} {inbox : List (Arrival UInt8)} (k : Nat)
    (hStream : ready inbox = stream records) :
    ready (advance (stream (records.take k)).length inbox) = stream (records.drop k) := by
  rw [ready_advance, hStream, stream_take_drop records k, List.drop_left' rfl]

/-- A segment of the stream ends four bytes before the end of record `k`,
after at least one byte of its payload. -/
def MarkSizedTail (records : List Fragment) (inbox : List (Arrival UInt8)) (k : Nat) : Prop :=
  ∃ hk : k < records.length, marksz < records[k].payload.length ∧
    (stream (records.take k)).length + records[k].payload.length ∈ ends inbox

section
variable {bufsz : Nat} {buf : Nat → List UInt8} {records : List Fragment} {sock : Sock}
  (h64 : bufsz < 2 ^ 64) (hBuf : ∀ k, (buf k).length = bufsz) (hFit : Fits bufsz records)
  (hStream : ready sock.inbox = stream records)

include h64 hBuf hFit hStream

/-- A plain-mode call at the start of record `k`, with and without a segment
end four bytes before the end of the record. -/
theorem plain_call {k : Nat} (hk : k < records.length)
    (hNow : ∃ calls, afterCalls bufsz buf (none, sock) k =
      (none, ⟨advance (stream (records.take k)).length sock.inbox, calls⟩)) :
    (¬ MarkSizedTail records sock.inbox k →
      Delivers (nthCall bufsz buf (none, sock) k) records[k] ∧
      ∃ calls, afterCalls bufsz buf (none, sock) (k + 1) =
        (none, ⟨advance (stream (records.take (k + 1))).length sock.inbox, calls⟩)) ∧
    (MarkSizedTail records sock.inbox k →
      ready (nthCall bufsz buf (none, sock) k).frame.sock.inbox ≠ stream (records.drop (k + 1))) := by
  obtain ⟨calls, hNow⟩ := hNow
  let f : Frame :=
    ⟨⟨advance (stream (records.take k)).length sock.inbox, calls⟩, buf k, 0, bufsz⟩
  have hCall : nthCall bufsz buf (none, sock) k = recvAgain none f := by
    rw [nthCall, hNow]
    rfl
  have hIn : InBuffer f := ⟨by simp [f, hBuf], h64⟩
  obtain ⟨-, hRoom⟩ := hFit _ (List.getElem_mem hk)
  have hReady : ready f.sock.inbox = records[k].wire true ++ stream (records.drop (k + 1)) := by
    rw [← stream_drop hk]
    exact ready_after k hStream
  have hBefore : (stream (records.take k)).length ≤ (ready sock.inbox).length := by
    rw [hStream, stream_take_drop records k, List.length_append]
    omega
  have hTail : MarkSizedTail records sock.inbox k ↔
      marksz < records[k].payload.length ∧ records[k].payload.length ∈ ends f.sock.inbox := by
    rw [MarkSizedTail, exists_prop_of_true hk]
    apply and_congr_right
    intro hLong
    exact (mem_ends_advance (by omega) hBefore).symm
  constructor
  · intro hCut
    obtain ⟨g, hRun, hInbox, hGot, -⟩ := plain_complete hIn hRoom hReady
      (fun _ hLong hMem => hCut (hTail.mpr ⟨hLong, hMem⟩))
    rw [if_pos rfl, ← hCall] at hRun
    refine ⟨⟨by rw [hRun], ?_⟩, g.sock.calls, ?_⟩
    · rw [hRun, hGot]
      simpa using take_store_zero (buf k) records[k].payload []
    · have hAfter : afterCalls bufsz buf (none, sock) (k + 1) = (none, g.sock) := by
        rw [afterCalls]
        exact Prod.ext (congrArg RecvOut.markp hRun) (congrArg (·.frame.sock) hRun)
      rw [hAfter, stream_take_length hk, ← advance_advance, ← hInbox]
  · intro hCut hSame
    obtain ⟨hLong, hMem⟩ := hTail.mp hCut
    obtain ⟨g, hRun, hInbox, -⟩ := plain_last_cut hIn hRoom hReady hLong hMem
    -- four bytes of the record are still on the connection
    have hLeft := congrArg List.length hSame
    rw [hCall, hRun, hInbox, ready_advance, hReady] at hLeft
    simp only [List.length_drop, List.length_append, Fragment.wire_length, marksz] at hLeft
    omega

/-- Plain mode stays in step with the stream up to record `k` when no segment
ends four bytes before the end of an earlier record. -/
theorem plain_position {k : Nat} (hk : k ≤ records.length)
    (hCut : ∀ j < k, ¬ MarkSizedTail records sock.inbox j) :
    ∃ calls, afterCalls bufsz buf (none, sock) k =
      (none, ⟨advance (stream (records.take k)).length sock.inbox, calls⟩) := by
  induction k with
  | zero => exact ⟨sock.calls, by simp [afterCalls, stream, advance_zero]⟩
  | succ k ih =>
      have hNow := ih (by omega) (fun j hj => hCut j (by omega))
      exact ((plain_call h64 hBuf hFit hStream (by omega) hNow).1 (hCut k (by omega))).2

end

/-- Plain mode, as `nct_nfs_mount` and a receive loop with few jobs use it.
Every call returns its own record, and leaves the connection at the next mark,
exactly when no segment ends four bytes before the end of a record. -/
theorem plain_framing (bufsz : Nat) (buf : Nat → List UInt8) (records : List Fragment)
    (sock : Sock) (h64 : bufsz < 2 ^ 64) (hBuf : ∀ k, (buf k).length = bufsz)
    (hFit : Fits bufsz records) (hStream : ready sock.inbox = stream records) :
    (∀ k (hk : k < records.length),
      Delivers (nthCall bufsz buf (none, sock) k) records[k] ∧
      ready (nthCall bufsz buf (none, sock) k).frame.sock.inbox = stream (records.drop (k + 1))) ↔
    ∀ k, ¬ MarkSizedTail records sock.inbox k := by
  constructor
  · intro hCalls k
    induction k using Nat.strong_induction_on with
    | _ k ih =>
      rintro ⟨hk, hTail⟩
      have hNow := plain_position h64 hBuf hFit hStream hk.le ih
      exact (plain_call h64 hBuf hFit hStream hk hNow).2 ⟨hk, hTail⟩ (hCalls k hk).2
  · intro hCut k hk
    have hNow := plain_position h64 hBuf hFit hStream hk.le fun j _ => hCut j
    obtain ⟨hDelivers, calls, hAfter⟩ :=
      (plain_call h64 hBuf hFit hStream hk hNow).1 (hCut k)
    refine ⟨hDelivers, ?_⟩
    have hSock : (nthCall bufsz buf (none, sock) k).frame.sock =
        (afterCalls bufsz buf (none, sock) (k + 1)).2 := rfl
    rw [hSock, hAfter]
    exact ready_after (k + 1) hStream

def shortReply : Fragment := ⟨List.replicate 28 7, by decide⟩

/-- The reply in two segments, the second of which holds its last four bytes. -/
def tailSplit : Sock := ⟨[.segment 0x80 ([0, 0, 28] ++ List.replicate 24 7), .segment 7 [7, 7, 7]], []⟩

/-- The reply twice, in segments of 24, 18 and 22 bytes: the second one holds the end
of the first reply and ten bytes of the next. -/
def middleSplit : Sock :=
  ⟨[.segment 0x80 ([0, 0, 28] ++ List.replicate 20 7),
    .segment 7 (List.replicate 7 7 ++ [0x80, 0, 0, 28] ++ List.replicate 6 7),
    .segment 7 (List.replicate 21 7)], []⟩

theorem plain_framing_middleSplit :
    let call := nthCall 1024 (fun _ => List.replicate 1024 0) (none, middleSplit)
    Delivers (call 0) shortReply ∧ ready (call 0).frame.sock.inbox = stream [shortReply] ∧
      Delivers (call 1) shortReply ∧ ready (call 1).frame.sock.inbox = [] := by
  have hFit : Fits 1024 [shortReply, shortReply] := by
    intro r hr
    obtain rfl : r = shortReply := by simpa using hr
    decide
  have hCalls := (plain_framing 1024 (fun _ => List.replicate 1024 0) [shortReply, shortReply]
    middleSplit (by decide) (fun _ => List.length_replicate) hFit (by decide)).mpr ?_
  · exact ⟨(hCalls 0 (by decide)).1, (hCalls 0 (by decide)).2, hCalls 1 (by decide)⟩
  · rintro k ⟨hk, hTail⟩
    have hTwo : k < 2 := hk
    obtain rfl | rfl : k = 0 ∨ k = 1 := by omega
    · revert hTail
      decide +revert
    · revert hTail
      decide +revert

/-- With the reply's last four bytes in a segment of their own, the call
returns 28 but leaves those bytes on the connection. -/
theorem plain_framing_tailSplit :
    ¬ ∀ (bufsz : Nat) (buf : Nat → List UInt8) (records : List Fragment) (sock : Sock),
      bufsz < 2 ^ 64 → (∀ k, (buf k).length = bufsz) → Fits bufsz records →
      ready sock.inbox = stream records →
      ∀ k (hk : k < records.length),
        Delivers (nthCall bufsz buf (none, sock) k) records[k] ∧
        ready (nthCall bufsz buf (none, sock) k).frame.sock.inbox =
          stream (records.drop (k + 1)) := by
  intro h
  have hFit : Fits 1024 [shortReply] := by
    intro r hr
    rw [List.mem_singleton.mp hr]
    decide
  have hBuf : ∀ k, ((fun _ : Nat => List.replicate 1024 (0 : UInt8)) k).length = 1024 :=
    fun _ => List.length_replicate
  have hStream : ready tailSplit.inbox = stream [shortReply] := by decide
  have hTail : MarkSizedTail [shortReply] tailSplit.inbox 0 :=
    ⟨by decide, by decide, by decide⟩
  have hStart := plain_position (k := 0) (by decide) hBuf hFit hStream (by decide)
    (fun j hj => absurd hj (by omega))
  exact (plain_call (by decide) hBuf hFit hStream (by decide) hStart).2 hTail
    (h 1024 _ _ tailSplit (by decide) hBuf hFit hStream 0 (by decide)).2

/-- After the mark, the payload is what comes next. -/
theorem ready_of_pending {markp : Option UInt32} {inbox : List (Arrival UInt8)} {mark : UInt32}
    {bytes : List UInt8} (h : pending markp inbox = htonl mark ++ bytes) (n : Nat) :
    ready (advance (markBytes markp + n) inbox) = bytes.drop n := by
  rw [ready_advance]
  by_cases hMark : markp.getD 0 = 0
  · simp only [pending, hMark, if_true, List.nil_append] at h
    simp only [markBytes, hMark, if_true]
    rw [h, ← htonl_length mark, List.drop_length_add_append]
  · simp only [pending, hMark, if_false] at h
    simp only [markBytes, hMark, if_false, Nat.zero_add]
    rw [(List.append_inj h (by simp)).2]

/-- Before call `k` the mark word and the connection together hold the stream
from record `k` on. -/
def InStep (bufsz : Nat) (buf : Nat → List UInt8) (records : List Fragment) (sock : Sock)
    (k : Nat) : Prop :=
  ∃ w left, afterCalls bufsz buf (some 0, sock) k = (some w, left) ∧
    pending (some w) left.inbox = stream (records.drop k)

section
variable {bufsz : Nat} {buf : Nat → List UInt8} {records : List Fragment} {sock : Sock}
  (h64 : bufsz < 2 ^ 64) (hBuf : ∀ k, (buf k).length = bufsz) (hFit : Fits bufsz records)

include h64 hBuf hFit

/-- One read-ahead call delivers its record and stays in step with the stream. -/
theorem ahead_call {k : Nat} (hk : k < records.length) (hNow : InStep bufsz buf records sock k) :
    Delivers (nthCall bufsz buf (some 0, sock) k) records[k] ∧
      InStep bufsz buf records sock (k + 1) := by
  obtain ⟨w, left, hAfter, hPend⟩ := hNow
  obtain ⟨hSome, hRoom⟩ := hFit _ (List.getElem_mem hk)
  let f : Frame := ⟨left, buf k, 0, bufsz⟩
  have hCall : nthCall bufsz buf (some 0, sock) k = recvAgain (some w) f := by
    rw [nthCall, hAfter]
    rfl
  have hIn : InBuffer f := ⟨by simp [f, hBuf], h64⟩
  have hWire : pending (some w) f.sock.inbox =
      records[k].wire true ++ stream (records.drop (k + 1)) := by rw [← stream_drop hk, ← hPend]
  have hBytes : pending (some w) left.inbox =
      htonl (records[k].mark true) ++ (records[k].payload ++ stream (records.drop (k + 1))) := by
    rw [← List.append_assoc]
    exact hWire
  have hNext : ∀ {out : RecvOut} {next : UInt32}, recvAgain (some w) f = out →
      out.markp = some next →
      afterCalls bufsz buf (some 0, sock) (k + 1) = (some next, out.frame.sock) := by
    intro out next hRun hMark
    rw [afterCalls, ← hMark, ← hRun, ← hCall]
    rfl
  by_cases hCut : markBytes (some w) + records[k].payload.length ∈ ends left.inbox
  · obtain ⟨g, hRun, hInbox, hGot⟩ := ahead_last_cut hIn hRoom hWire hSome hCut
    refine ⟨⟨by rw [hCall, hRun], ?_⟩, 0, g.sock, hNext hRun rfl, ?_⟩
    · rw [hCall, hRun, hGot]
      simpa using take_store_zero (buf k) records[k].payload []
    · rw [pending, Option.getD_some, if_pos rfl, List.nil_append, hInbox,
        ready_of_pending hBytes, List.drop_left' rfl]
  · -- the last record ends with a segment, so there is a record after this one
    have hMore : k + 1 < records.length := by
      by_contra hEnd
      have hNil : stream (records.drop (k + 1)) = [] := by
        rw [List.drop_of_length_le (by omega)]
        rfl
      rw [hNil, List.append_nil] at hBytes
      have hLen : (ready left.inbox).length = markBytes (some w) + records[k].payload.length := by
        have hTotal := congrArg List.length hBytes
        by_cases hw : (some w).getD 0 = 0 <;>
          simp only [pending, markBytes, hw, if_true, if_false, List.length_append,
            htonl_length, List.length_nil] at hTotal ⊢ <;> omega
      refine hCut (hLen ▸ ready_length_mem_ends fun hEmpty => ?_)
      rw [hEmpty, List.length_nil] at hLen
      omega
    have hRest := stream_drop hMore
    rw [Fragment.wire, List.append_assoc] at hRest
    rw [hRest] at hWire hBytes
    obtain ⟨g, hRun, hInbox, hGot, -⟩ :=
      ahead_complete hIn hRoom hWire (htonl_length _) (fun _ _ => hCut)
    rw [if_pos rfl, ntohl_htonl] at hRun
    refine ⟨⟨by rw [hCall, hRun], ?_⟩, _, g.sock, hNext hRun rfl, ?_⟩
    · rw [hCall, hRun, hGot]
      exact take_store_zero _ _ _
    · have hMark : records[k + 1].mark true ≠ 0 := fun h0 => by
        simpa using (Fragment.mark_eq_zero.mp h0).1
      rw [pending, Option.getD_some, if_neg hMark, hInbox, ready_of_pending hBytes, hRest,
        ← List.append_assoc, List.drop_left' (by simp)]

/-- The position in the stream is what the mark read ahead says. -/
theorem ahead_inStep (hStream : ready sock.inbox = stream records) {k : Nat}
    (hk : k ≤ records.length) : InStep bufsz buf records sock k := by
  induction k with
  | zero => exact ⟨0, sock, rfl, by simpa [pending] using hStream⟩
  | succ k ih => exact (ahead_call h64 hBuf hFit (by omega) (ih (by omega))).2

end

/-- Read-ahead mode, with a mark word that starts at zero. However the stream
is segmented, every call returns its own record; between calls the word is
zero and the connection is at the next mark, or the word holds that mark and
the connection is just past it. -/
theorem readAhead_framing (bufsz : Nat) (buf : Nat → List UInt8) (records : List Fragment)
    (sock : Sock) (h64 : bufsz < 2 ^ 64) (hBuf : ∀ k, (buf k).length = bufsz)
    (hFit : Fits bufsz records) (hStream : ready sock.inbox = stream records) :
    (∀ k (hk : k < records.length),
      Delivers (nthCall bufsz buf (some 0, sock) k) records[k]) ∧
    ∀ k ≤ records.length, ∃ w left, afterCalls bufsz buf (some 0, sock) k = (some w, left) ∧
      ((w = 0 ∧ ready left.inbox = stream (records.drop k)) ∨
        ∃ hk : k < records.length, w = records[k].mark true ∧
          ready left.inbox = records[k].payload ++ stream (records.drop (k + 1))) := by
  constructor
  · intro k hk
    exact (ahead_call h64 hBuf hFit hk (ahead_inStep h64 hBuf hFit hStream hk.le)).1
  · intro k hk
    obtain ⟨w, left, hAfter, hPend⟩ := ahead_inStep h64 hBuf hFit hStream hk
    refine ⟨w, left, hAfter, ?_⟩
    by_cases hw : w = 0
    · left
      simp only [pending, Option.getD_some, hw, if_true, List.nil_append] at hPend
      exact ⟨hw, hPend⟩
    · right
      simp only [pending, Option.getD_some, hw, if_false] at hPend
      have hk : k < records.length := by
        by_contra hEnd
        rw [List.drop_of_length_le (by omega)] at hPend
        have := congrArg List.length hPend
        simp [stream, marksz] at this
      rw [stream_drop hk, Fragment.wire, List.append_assoc] at hPend
      obtain ⟨hWord, hReady⟩ := List.append_inj hPend (by simp)
      refine ⟨hk, ?_, hReady⟩
      rw [← ntohl_htonl w, hWord, ntohl_htonl]

/-- Two replies; the second one's mark is cut in the middle. -/
def markSplit : Sock :=
  ⟨[.segment 0x80 ([0, 0, 28] ++ List.replicate 28 7 ++ [0x80, 0]),
    .segment 0 (28 :: List.replicate 28 7)], []⟩

/-- The second call gets its record, though its mark comes in two segments. -/
theorem readAhead_framing_markSplit :
    Delivers (nthCall 1024 (fun _ => List.replicate 1024 0) (some 0, markSplit) 1) shortReply := by
  refine (readAhead_framing 1024 _ [shortReply, shortReply] markSplit (by decide)
    (fun _ => List.length_replicate) ?_ (by decide)).1 1 (by decide)
  intro r hr
  obtain rfl : r = shortReply := by simpa using hr
  decide

end Nct
