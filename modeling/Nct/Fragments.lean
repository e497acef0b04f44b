import Nct.Framing

/-! Records of several fragments. The payload loop runs once per fragment and
the size it returns is that of the fragment it received last. -/
namespace Nct

open Delivery

/-- A record of several fragments as it is sent: `more` and then the last one. -/
def recordWire (more : List Fragment) (final : Fragment) : List UInt8 :=
  more.flatMap (Fragment.wire false) ++ final.wire true

/-- What the record carries. -/
def recordPayload (more : List Fragment) (final : Fragment) : List UInt8 :=
  more.flatMap Fragment.payload ++ final.payload

/-- A record starts with its first fragment. -/
theorem recordWire_cons (r : Fragment) (more : List Fragment) (final : Fragment) :
    recordWire (r :: more) final = r.wire false ++ recordWire more final := by
  simp [recordWire]

/-- Its payload starts with that of its first fragment. -/
theorem recordPayload_cons (r : Fragment) (more : List Fragment) (final : Fragment) :
    recordPayload (r :: more) final = r.payload ++ recordPayload more final := by
  simp [recordPayload]

/-- Its length is the sum of those of its fragments. -/
theorem recordPayload_length (more : List Fragment) (final : Fragment) :
    (recordPayload more final).length =
      (more.flatMap Fragment.payload).length + final.payload.length := by
  simp [recordPayload]

/-- A segment ends four bytes before the end of the record, after at least one
payload byte of its last fragment. -/
def FinalTail (more : List Fragment) (final : Fragment) (inbox : List (Arrival UInt8)) : Prop :=
  marksz < final.payload.length ∧ (recordWire more final).length - marksz ∈ ends inbox

/-- Plain mode over a fragment that is not the last: the call goes on behind it. -/
theorem plain_next {r : Fragment} {f : Frame} {rest : List UInt8} (hIn : InBuffer f)
    (hRoom : r.payload.length + marksz ≤ f.bufsz)
    (hPend : ready f.sock.inbox = r.wire false ++ rest) :
    ∃ g, recvAgain none f = recvAgain none g ∧ InBuffer g ∧
      g.sock.inbox = advance (r.wire false).length f.sock.inbox ∧ ready g.sock.inbox = rest ∧
      g.buf = store f.buf f.pos r.payload ∧ g.pos = f.pos + r.payload.length ∧
      g.bufsz = f.bufsz - r.payload.length := by
  obtain ⟨g, hRun, hInbox, hGot, hPos, hSize⟩ :=
    plain_complete hIn hRoom hPend (fun h => Bool.noConfusion h)
  rw [if_neg Bool.false_ne_true] at hRun
  rw [← Fragment.wire_length false r] at hInbox
  have hInner := hIn.1
  have hLen : g.buf.length = f.buf.length := by
    rw [hGot, store_length (by omega)]
  refine ⟨g, hRun, ⟨by rw [hPos, hSize, hLen]; omega, by rw [hSize]; have := hIn.2; omega⟩, hInbox,
    ?_, hGot, hPos, hSize⟩
  rw [hInbox, ready_advance, hPend, List.drop_left' rfl]

/-- Plain mode over all fragments of a record. The result is the size of the
last one, and the buffer holds all payloads but perhaps the last four bytes. -/
theorem plain_fragments {more : List Fragment} {final : Fragment} {f : Frame} {rest : List UInt8}
    (hIn : InBuffer f) (hFit : (recordPayload more final).length + marksz ≤ f.bufsz)
    (hPend : ready f.sock.inbox = recordWire more final ++ rest) :
    ∃ g, recvAgain none f = ⟨.record final.payload.length, none, g⟩ ∧
      (FinalTail more final f.sock.inbox →
        g.buf = store f.buf f.pos (more.flatMap Fragment.payload ++
          final.payload.take (final.payload.length - marksz))) ∧
      (¬ FinalTail more final f.sock.inbox →
        g.buf = store f.buf f.pos (recordPayload more final)) := by
  induction more generalizing f with
  | nil =>
      have hSpan : (recordWire [] final).length - marksz = final.payload.length := by
        simp [recordWire]
      have hRoom : final.payload.length + marksz ≤ f.bufsz := by simpa [recordPayload] using hFit
      have hReady : ready f.sock.inbox = final.wire true ++ rest := by
        simpa [recordWire] using hPend
      by_cases hTail : FinalTail [] final f.sock.inbox
      · obtain ⟨g, hRun, -, hGot⟩ :=
          plain_last_cut hIn hRoom hReady hTail.1 (hSpan ▸ hTail.2)
        exact ⟨g, hRun, fun _ => by simpa using hGot, fun h => absurd hTail h⟩
      · obtain ⟨g, hRun, -, hGot, -⟩ := plain_complete hIn hRoom hReady
          (fun _ hLong hMem => hTail ⟨hLong, hSpan.symm ▸ hMem⟩)
        exact ⟨g, hRun, fun h => absurd h hTail, fun _ => by simpa [recordPayload] using hGot⟩
  | cons r more ih =>
      rw [recordPayload_cons, List.length_append] at hFit
      rw [recordWire_cons, List.append_assoc] at hPend
      have hRoom : r.payload.length + marksz ≤ f.bufsz := by omega
      obtain ⟨g, hRun, hIn', hInbox, hReady, hGot, hPos, hSize⟩ := plain_next hIn hRoom hPend
      have hInner := hIn.1
      have hTail : FinalTail more final g.sock.inbox ↔
          FinalTail (r :: more) final f.sock.inbox := by
        have hSpan : marksz < (recordWire more final).length ∨ final.payload.length ≤ marksz := by
          simp only [recordWire, List.length_append, Fragment.wire_length]
          omega
        unfold FinalTail
        apply and_congr_right
        intro hLong
        rw [hInbox, mem_ends_advance (by omega) (by rw [hPend, List.length_append]; omega),
          recordWire_cons, List.length_append,
          Nat.add_sub_assoc (by omega : marksz ≤ (recordWire more final).length)]
      have hStore : ∀ bytes, store g.buf g.pos bytes = store f.buf f.pos (r.payload ++ bytes) := by
        intro bytes
        rw [hGot, hPos, store_store _ _ (by omega)]
      obtain ⟨h, hNext, hShort, hWhole⟩ := ih hIn' (by rw [hSize]; omega) hReady
      refine ⟨h, hRun.trans hNext, fun hT => ?_, fun hT => ?_⟩
      · rw [hShort (hTail.mpr hT), hStore, List.flatMap_cons, List.append_assoc]
      · rw [hWhole (fun h' => hT (hTail.mp h')), hStore, recordPayload_cons]

/-- What a call that starts with `markp` has yet to receive. A mark word of
zero may also be the mark of an empty fragment, read ahead by the call before. -/
def Upcoming (markp : Option UInt32) (inbox : List (Arrival UInt8)) (bytes : List UInt8) : Prop :=
  pending markp inbox = bytes ∨ markp = some 0 ∧ htonl 0 ++ ready inbox = bytes

/-- A record starts with the mark of its first fragment. -/
theorem recordWire_mark (more : List Fragment) (final : Fragment) :
    ∃ mark bytes, recordWire more final = htonl mark ++ bytes := by
  cases more with
  | nil => exact ⟨final.mark true, final.payload, by simp [recordWire, Fragment.wire]⟩
  | cons r more =>
      refine ⟨r.mark false, r.payload ++ recordWire more final, ?_⟩
      rw [recordWire_cons, Fragment.wire, List.append_assoc]

/-- What is stored is what is found. -/
theorem take_store {buf : List UInt8} {pos : Nat} (left right : List UInt8) (h : pos ≤ buf.length) :
    (store buf pos (left ++ right)).take (pos + left.length) = buf.take pos ++ left := by
  have hPrefix : (buf.take pos ++ left).length = pos + left.length := by
    simp only [List.length_append, List.length_take]
    omega
  rw [store, ← List.append_assoc, List.append_assoc, ← hPrefix, List.take_left' rfl]

/-- A mark can be told from what follows it. -/
theorem htonl_append_inj {mark mark' : UInt32} {bytes bytes' : List UInt8}
    (h : htonl mark ++ bytes = htonl mark' ++ bytes') : mark = mark' ∧ bytes = bytes' := by
  obtain ⟨hWord, hBytes⟩ := List.append_inj h (by simp)
  refine ⟨?_, hBytes⟩
  rw [← ntohl_htonl mark, hWord, ntohl_htonl]

/-- The mark of a last fragment is not zero. -/
theorem wire_last_ne {final : Fragment} {bytes rest : List UInt8} :
    htonl 0 ++ bytes ≠ final.wire true ++ rest := by
  intro h
  rw [Fragment.wire, List.append_assoc] at h
  exact absurd (Fragment.mark_eq_zero.mp (htonl_append_inj h).1.symm).1 (by simp)

/-- When the mark of an empty fragment is already in the word, what follows the
fragment is still to come. -/
theorem Upcoming.of_empty {r : Fragment} {inbox : List (Arrival UInt8)} {bytes : List UInt8}
    (h : htonl 0 ++ ready inbox = r.wire false ++ bytes) :
    r.payload = [] ∧ Upcoming (some 0) inbox bytes := by
  rw [Fragment.wire, List.append_assoc] at h
  obtain ⟨hMark, hReady⟩ := htonl_append_inj h
  have hEmpty := (Fragment.mark_eq_zero.mp hMark.symm).2
  rw [hEmpty, List.nil_append] at hReady
  refine ⟨hEmpty, Or.inl ?_⟩
  rw [pending, Option.getD_some, if_pos rfl, List.nil_append, hReady]

section
variable {more : List Fragment} {final : Fragment} {f : Frame} {w : UInt32} {rest : List UInt8} {n : Nat}

/-- Read-ahead over the last fragment. -/
theorem ahead_last (hIn : InBuffer f) (hRoom : final.payload.length + marksz ≤ f.bufsz)
    (hWire : pending (some w) f.sock.inbox = final.wire true ++ rest)
    (hRec : (recvAgain (some w) f).result = .record n) :
    n = final.payload.length ∧
      f.buf.take f.pos ++ final.payload <+: (recvAgain (some w) f).frame.buf := by
  have hStored : ∀ tail, f.buf.take f.pos ++ final.payload <+:
      store f.buf f.pos (final.payload ++ tail) := by
    intro tail
    have hPos : f.pos ≤ f.buf.length := by have := hIn.1; omega
    rw [← take_store final.payload tail hPos]
    exact List.take_prefix _ _
  by_cases hCut : 0 < final.payload.length ∧
      markBytes (some w) + final.payload.length ∈ ends f.sock.inbox
  · obtain ⟨g, hRun, -, hGot⟩ := ahead_last_cut hIn hRoom hWire hCut.1 hCut.2
    rw [hRun] at hRec ⊢
    simp only [RecvResult.record.injEq] at hRec
    refine ⟨hRec.symm, ?_⟩
    simpa [hGot] using hStored []
  · have hPast : 0 < final.payload.length →
        markBytes (some w) + final.payload.length ∉ ends f.sock.inbox :=
      fun hLong hMem => hCut ⟨hLong, hMem⟩
    by_cases hShort : rest.length < marksz
    · obtain ⟨cc, g, hRun⟩ := ahead_last_short hIn hRoom hWire hPast hShort
      rw [hRun] at hRec
      cases hRec
    · rw [← List.take_append_drop marksz rest] at hWire
      obtain ⟨g, hRun, -, hGot, -⟩ := ahead_complete hIn hRoom hWire
        (by rw [List.length_take]; omega) (fun _ => hPast)
      rw [if_pos rfl] at hRun
      rw [hRun] at hRec ⊢
      simp only [RecvResult.record.injEq] at hRec
      refine ⟨hRec.symm, ?_⟩
      rw [hGot]
      exact hStored _

/-- Read-ahead over a fragment that is not the last: the call goes on as one that
starts with the mark of the next fragment. -/
theorem ahead_next {r : Fragment} (hIn : InBuffer f) (hRoom : r.payload.length + marksz ≤ f.bufsz)
    (hPend : pending (some w) f.sock.inbox = r.wire false ++ (recordWire more final ++ rest)) :
    ∃ mark g, recvAgain (some w) f = recvAgain (some mark) g ∧ InBuffer g ∧
      g.bufsz = f.bufsz - r.payload.length ∧ g.buf.take g.pos = f.buf.take f.pos ++ r.payload ∧
      Upcoming (some mark) g.sock.inbox (recordWire more final ++ rest) := by
  obtain ⟨mark, bytes, hWire⟩ := recordWire_mark more final
  have hSplit : pending (some w) f.sock.inbox =
      r.wire false ++ (htonl mark ++ (bytes ++ rest)) := by
    rw [hPend, hWire, List.append_assoc]
  have hBytes : pending (some w) f.sock.inbox =
      htonl (r.mark false) ++ (r.payload ++ (htonl mark ++ (bytes ++ rest))) := by
    rw [hSplit, Fragment.wire, List.append_assoc]
  obtain ⟨g, hRun, hInbox, hGot, hPos, hSize⟩ :=
    ahead_complete hIn hRoom hSplit (by simp) (fun h => Bool.noConfusion h)
  rw [if_neg Bool.false_ne_true, ntohl_htonl] at hRun
  have hInner := hIn.1
  have hOuter := hIn.2
  have hLen : g.buf.length = f.buf.length := by
    rw [hGot, store_length (by rw [List.length_append, htonl_length]; omega)]
  have hReady : ready g.sock.inbox = bytes ++ rest := by
    rw [hInbox, ready_of_pending hBytes, ← List.append_assoc, List.drop_left' (by simp)]
  refine ⟨mark, g, hRun, ⟨by rw [hPos, hSize, hLen]; omega, by omega⟩, hSize, ?_, ?_⟩
  · rw [hGot, hPos, take_store _ _ (by omega)]
  · rw [hWire, List.append_assoc, ← hReady]
    by_cases hMark : mark = 0
    · exact Or.inr ⟨by rw [hMark], by rw [hMark]⟩
    · exact Or.inl (by rw [pending, Option.getD_some, if_neg hMark])

end

/-- Read-ahead over all fragments of a record. If the call succeeds, its result
is the size of the last fragment, and the buffer holds all payloads. -/
theorem ahead_fragments {more : List Fragment} {final : Fragment} {f : Frame} {w : UInt32}
    {rest : List UInt8} {n : Nat} (hIn : InBuffer f)
    (hFit : (recordPayload more final).length + marksz ≤ f.bufsz)
    (hNext : Upcoming (some w) f.sock.inbox (recordWire more final ++ rest))
    (hRec : (recvAgain (some w) f).result = .record n) :
    n = final.payload.length ∧
      f.buf.take f.pos ++ recordPayload more final <+: (recvAgain (some w) f).frame.buf := by
  induction more generalizing f w with
  | nil =>
      rcases hNext with hPend | ⟨hZero, hPend⟩
      · exact ahead_last hIn hFit hPend hRec
      · rw [recordWire, List.flatMap_nil, List.nil_append] at hPend
        exact absurd hPend wire_last_ne
  | cons r more ih =>
      rw [recordPayload_cons, List.length_append] at hFit
      rw [recordWire_cons, List.append_assoc] at hNext
      rcases hNext with hPend | ⟨hZero, hPend⟩
      · obtain ⟨mark, g, hRun, hIn', hSize, hTake, hAfter⟩ := ahead_next hIn (by omega) hPend
        rw [hRun] at hRec ⊢
        obtain ⟨hn, hHeld⟩ := ih hIn' (by rw [hSize]; omega) hAfter hRec
        refine ⟨hn, ?_⟩
        rwa [hTake, List.append_assoc, ← recordPayload_cons] at hHeld
      · obtain ⟨hEmpty, hAfter⟩ := Upcoming.of_empty hPend
        have hNow := ih hIn (by omega) (hZero ▸ hAfter) hRec
        rwa [recordPayload_cons, hEmpty, List.nil_append]

/-- The empty fragments before the last one add nothing to a record. -/
theorem length_eq_iff_empty (more : List Fragment) (final : Fragment) :
    final.payload.length = (recordPayload more final).length ↔ ∀ r ∈ more, r.payload = [] := by
  rw [recordPayload_length, ← List.flatMap_eq_nil_iff (f := Fragment.payload),
    ← List.length_eq_zero_iff]
  omega

/-- A last fragment whose tail was not received is still whole in the buffer
when the buffer happened to hold that tail already. -/
theorem take_store_tail {buf payload : List UInt8} (hLong : marksz < payload.length) :
    (store buf 0 (payload.take (payload.length - marksz))).take payload.length = payload ↔
      (buf.drop (payload.length - marksz)).take marksz =
        payload.drop (payload.length - marksz) := by
  have hLen : (payload.take (payload.length - marksz)).length = payload.length - marksz := by simp
  have hTake : (store buf 0 (payload.take (payload.length - marksz))).take payload.length =
      payload.take (payload.length - marksz) ++
        (buf.drop (payload.length - marksz)).take marksz := by
    rw [store, List.take_zero, List.nil_append, List.take_append, hLen, Nat.zero_add,
      List.take_of_length_le (by omega), show payload.length - (payload.length - marksz) = marksz by
        omega]
  rw [hTake]
  constructor
  · intro h
    have hTail := congrArg (List.drop (payload.length - marksz)) h
    rwa [List.drop_left' hLen] at hTail
  · intro h
    rw [h, List.take_append_drop]

/-- A record of any number of fragments, in both modes and from any mark word a
previous call may have left. A call that succeeds returns the total length with
all payloads in the buffer exactly when every fragment but the last is empty
and, in plain mode, no segment ends four bytes before the end of the record
(or the buffer happened to hold those bytes before). -/
theorem fragment_reassembly (bufsz : Nat) (buf : List UInt8) (sock : Sock)
    (markp : Option UInt32) (more : List Fragment) (final : Fragment) (rest : List UInt8) (n : Nat)
    (h64 : bufsz < 2 ^ 64) (hBuf : buf.length = bufsz)
    (hFit : (recordPayload more final).length + marksz ≤ bufsz)
    (hNext : Upcoming markp sock.inbox (recordWire more final ++ rest))
    (hRec : (rpcRecv sock buf bufsz markp).result = .record n) :
    (n = (recordPayload more final).length ∧
      (rpcRecv sock buf bufsz markp).frame.buf.take n = recordPayload more final) ↔
    (∀ r ∈ more, r.payload = []) ∧
      (markp = none → FinalTail more final sock.inbox →
        (buf.drop (final.payload.length - marksz)).take marksz =
          final.payload.drop (final.payload.length - marksz)) := by
  let f : Frame := { sock, buf, pos := 0, bufsz }
  have hIn : InBuffer f := ⟨by simp [f, hBuf], h64⟩
  have hCall : rpcRecv sock buf bufsz markp = recvAgain markp f := rfl
  rw [hCall] at hRec ⊢
  cases markp with
  | some w =>
      obtain ⟨rfl, hHeld⟩ := ahead_fragments hIn hFit hNext hRec
      rw [length_eq_iff_empty]
      refine and_congr_right fun hEmpty => iff_of_true ?_ (fun h => nomatch h)
      rw [← length_eq_iff_empty more final] at hEmpty
      rw [hEmpty]
      simpa [f] using (List.prefix_iff_eq_take.mp hHeld).symm
  | none =>
      have hPend : ready f.sock.inbox = recordWire more final ++ rest := by
        rcases hNext with hPend | ⟨h, -⟩
        · simpa [pending] using hPend
        · cases h
      obtain ⟨g, hRun, hShort, hWhole⟩ := plain_fragments hIn hFit hPend
      rw [hRun] at hRec ⊢
      obtain rfl : final.payload.length = n := by simpa using hRec
      simp only [length_eq_iff_empty, true_implies]
      apply and_congr_right
      intro hEmpty
      have hPayload : recordPayload more final = final.payload := by
        rw [recordPayload, List.flatMap_eq_nil_iff.mpr hEmpty, List.nil_append]
      by_cases hTail : FinalTail more final sock.inbox
      · rw [hShort hTail, List.flatMap_eq_nil_iff.mpr hEmpty, List.nil_append, hPayload]
        simp only [hTail, true_implies]
        exact take_store_tail hTail.1
      · refine iff_of_true ?_ (fun h => absurd h hTail)
        rw [hWhole hTail, hPayload]
        simpa using take_store_zero buf final.payload []

def oneByte : Fragment := ⟨[7], by decide⟩

def emptyFragment : Fragment := ⟨[], by decide⟩

def emptyFirst : Sock := ⟨[.segment 0 [0, 0, 0, 0x80, 0, 0, 1, 7]], []⟩

def twoBytes : Sock := ⟨[.segment 0 [0, 0, 1, 7, 0x80, 0, 0, 1, 7]], []⟩

theorem plain_one_byte (r : Fragment) (sock : Sock)
    (hFit : (recordPayload [r] oneByte).length + marksz ≤ 64)
    (hPend : ready sock.inbox = recordWire [r] oneByte) :
    (rpcRecv sock (List.replicate 64 0) 64 none).result = .record 1 := by
  let f : Frame := ⟨sock, List.replicate 64 0, 0, 64⟩
  have hIn : InBuffer f := ⟨by simp [f], by simp [f]⟩
  obtain ⟨g, hRun, -⟩ := plain_fragments hIn hFit (hPend.trans (List.append_nil _).symm)
  exact congrArg RecvOut.result hRun

theorem fragment_reassembly_emptyFirst :
    1 = (recordPayload [emptyFragment] oneByte).length ∧
      (rpcRecv emptyFirst (List.replicate 64 0) 64 none).frame.buf.take 1 =
        recordPayload [emptyFragment] oneByte := by
  refine (fragment_reassembly 64 (List.replicate 64 0) emptyFirst none [emptyFragment] oneByte [] 1
    (by decide) List.length_replicate (by decide) (Or.inl (by decide))
    (plain_one_byte emptyFragment emptyFirst (by decide) (by decide))).mpr ⟨?_, fun _ hTail => absurd hTail.1 (by decide)⟩
  intro r hr
  rw [List.mem_singleton.mp hr]
  rfl

/-- The call returns 1 for a record of two bytes in two fragments. -/
theorem fragment_reassembly_twoBytes :
    ¬ ∀ (bufsz : Nat) (buf : List UInt8) (sock : Sock) (markp : Option UInt32)
        (more : List Fragment) (final : Fragment) (rest : List UInt8) (n : Nat),
      bufsz < 2 ^ 64 → buf.length = bufsz → more ≠ [] →
      (recordPayload more final).length + marksz ≤ bufsz →
      Upcoming markp sock.inbox (recordWire more final ++ rest) →
      (rpcRecv sock buf bufsz markp).result = .record n →
      n = (recordPayload more final).length ∧
        (rpcRecv sock buf bufsz markp).frame.buf.take n = recordPayload more final := by
  intro h
  have hOne := (h 64 (List.replicate 64 0) twoBytes none [oneByte] oneByte [] 1 (by decide)
    List.length_replicate (by decide) (by decide) (Or.inl (by decide))
    (plain_one_byte oneByte twoBytes (by decide) (by decide))).1
  exact absurd hOne (by decide)

end Nct
