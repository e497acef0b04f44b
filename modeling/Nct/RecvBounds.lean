import Nct.Rpc

/-! The bounds of `nct_rpc_recv`, on any input. `RecvExact` describes a call in
which no size wraps and each `recv` asks for no more than the space left; every
call is one of these. -/
namespace Nct

open Delivery

/-- The frame once `bytes` have been received. -/
def Frame.after (f : Frame) (sock : Sock) (bytes : List UInt8) : Frame where
  sock := sock
  buf := store f.buf f.pos bytes
  pos := f.pos + bytes.length
  bufsz := f.bufsz - bytes.length

/-- The payload loop from `nleft` on, with subtractions that do not wrap, as
`hGot` and `hRoom` say. -/
inductive PayloadExact (last : Bool) : Nat → Frame → Ending × Frame → Prop where
  | complete (f : Frame) : PayloadExact last 0 f (.complete, f)
  | closed {nleft : Nat} {f : Frame} {sock : Sock} (hRoom : nleft ≤ f.bufsz)
      (hRecv : f.sock.recv f.pos nleft = (.closed, sock)) :
      PayloadExact last nleft f (.failed 0, { f with sock })
  | failed {nleft : Nat} {f : Frame} {sock : Sock} (hRoom : nleft ≤ f.bufsz)
      (hRecv : f.sock.recv f.pos nleft = (.failed, sock)) :
      PayloadExact last nleft f (.failed (-1), { f with sock })
  | early {nleft : Nat} {f : Frame} {sock : Sock} {bs : List UInt8} (hRoom : nleft ≤ f.bufsz)
      (hRecv : f.sock.recv f.pos nleft = (.bytes bs, sock)) (hGot : bs.length ≤ nleft)
      (hStop : (last && nleft - bs.length == marksz) = true) :
      PayloadExact last nleft f (.early, f.after sock bs)
  | more {nleft : Nat} {f : Frame} {sock : Sock} {bs : List UInt8} {r : Ending × Frame}
      (hRoom : nleft ≤ f.bufsz) (hRecv : f.sock.recv f.pos nleft = (.bytes bs, sock))
      (hGot : bs.length ≤ nleft) (hGoOn : (last && nleft - bs.length == marksz) = false)
      (rest : PayloadExact last (nleft - bs.length) (f.after sock bs) r) :
      PayloadExact last nleft f r

/-- How far the write pointer is stepped back over a mark read ahead. -/
def backBy (markp : Option UInt32) : Nat := if markp.isSome then marksz else 0

/-- The pointer and the size are stepped back, within the buffer. -/
structure SteppedBack (markp : Option UInt32) (g g' : Frame) : Prop where
  sock : g'.sock = g.sock
  pos : g'.pos + backBy markp = g.pos
  bufsz : g'.bufsz = g.bufsz + backBy markp

/-- There is a mark, and its fragment fits. -/
structure Found (markp : Option UInt32) (f : Frame) (mark : UInt32) (sock : Sock) : Prop where
  read : readMark markp f.sock = (.ok mark, sock)
  fits : fragmentSize mark + marksz ≤ f.bufsz

/-- `again:` with sizes that do not wrap, and the count of marks that were read
ahead and stepped back over. -/
inductive RecvExact : Option UInt32 → Frame → RecvOut → Nat → Prop where
  | noMark {markp : Option UInt32} {f : Frame} {cc : Int} {sock : Sock}
      (hMark : readMark markp f.sock = (.error cc, sock)) :
      RecvExact markp f ⟨.failed cc, markp, { f with sock }⟩ 0
  | abort {markp : Option UInt32} {f : Frame} {mark : UInt32} {sock : Sock}
      (hMark : readMark markp f.sock = (.ok mark, sock))
      (hLong : f.bufsz < fragmentSize mark + marksz) :
      RecvExact markp f ⟨.abort, markp, { f with sock }⟩ 0
  | failed {markp : Option UInt32} {f g : Frame} {mark : UInt32} {sock : Sock} {cc : Int}
      (hFound : Found markp f mark sock)
      (hLoop : PayloadExact (isLast mark) (wanted markp (fragmentSize mark)) { f with sock }
        (.failed cc, g)) :
      RecvExact markp f ⟨.failed cc, markp, g⟩ 0
  | early {markp : Option UInt32} {f g : Frame} {mark : UInt32} {sock : Sock}
      (hFound : Found markp f mark sock)
      (hLoop : PayloadExact (isLast mark) (wanted markp (fragmentSize mark)) { f with sock }
        (.early, g)) :
      RecvExact markp f ⟨.record (fragmentSize mark), markp.map fun _ => 0, g⟩ 0
  | last {markp : Option UInt32} {f g : Frame} {mark : UInt32} {sock : Sock}
      (hFound : Found markp f mark sock)
      (hLoop : PayloadExact (isLast mark) (wanted markp (fragmentSize mark)) { f with sock }
        (.complete, g))
      (hBack : SteppedBack markp g (keepMark markp g).2) (hLast : isLast mark = true) :
      RecvExact markp f ⟨.record (fragmentSize mark), (keepMark markp g).1, (keepMark markp g).2⟩
        (if markp.isSome then 1 else 0)
  | again {markp : Option UInt32} {f g : Frame} {mark : UInt32} {sock : Sock} {out : RecvOut}
      {marks : Nat} (hFound : Found markp f mark sock)
      (hLoop : PayloadExact (isLast mark) (wanted markp (fragmentSize mark)) { f with sock }
        (.complete, g))
      (hBack : SteppedBack markp g (keepMark markp g).2) (hLast : isLast mark = false)
      (rest : RecvExact (keepMark markp g).1 (keepMark markp g).2 out marks) :
      RecvExact markp f out (marks + if markp.isSome then 1 else 0)

/-- A receive gives no more than it is asked for. -/
theorem Sock.recv_length {sock sock' : Sock} {pos n : Nat} {bs : List UInt8}
    (h : sock.recv pos n = (.bytes bs, sock')) : bs.length ≤ n := by
  have hRead : (Delivery.read n sock.inbox).1 = .bytes bs := congrArg Prod.fst h
  exact read_length (Prod.ext hRead rfl)

/-- The payload loop wraps nothing when its fragment fits. -/
theorem recvPayload_exact (last : Bool) (nleft : Nat) (f : Frame) (hRoom : nleft ≤ f.bufsz)
    (h64 : f.bufsz < 2 ^ 64) : PayloadExact last nleft f (recvPayload last nleft f) := by
  fun_induction recvPayload with
  | case1 nleft f hn sock h => exact .closed hRoom h
  | case2 nleft f hn sock h => exact .failed hRoom h
  | case3 nleft f hn bs sock h nleft' f' hStop =>
      have hGot := Sock.recv_length h
      have hLeft : nleft' = nleft - bs.length := subSize_of_le hGot (hRoom.trans_lt h64)
      have hAfter : f' = f.after sock bs := by
        simp only [f', Frame.after, subSize_of_le (hGot.trans hRoom) h64]
      rw [hAfter]
      exact .early hRoom h hGot (hLeft ▸ hStop)
  | case4 nleft f hn bs sock h nleft' f' hGoOn ih =>
      have hGot := Sock.recv_length h
      have hLeft : nleft' = nleft - bs.length := subSize_of_le hGot (hRoom.trans_lt h64)
      have hAfter : f' = f.after sock bs := by
        simp only [f', Frame.after, subSize_of_le (hGot.trans hRoom) h64]
      rw [hAfter, hLeft] at ih ⊢
      refine .more hRoom h hGot (by simpa [hLeft] using hGoOn) (ih ?_ ?_)
      · simp only [Frame.after]
        omega
      · simp only [Frame.after]
        omega
  | case5 nleft f hn =>
      obtain rfl : nleft = 0 := by omega
      exact .complete f

/-- Bytes that were received into the caller's buffer. -/
def written (calls : List RecvCall) : Nat :=
  (calls.map fun call => if call.into.isSome then call.got.toNat else 0).sum

/-- What the payload loop adds to the log: calls that ask for no more than what
is wanted, one behind the other. -/
structure PayloadLog (nleft : Nat) (f g : Frame) (new : List RecvCall) : Prop where
  calls : g.sock.calls = f.sock.calls ++ new
  within : ∀ call ∈ new, ∃ pos, call.into = some pos ∧ pos + call.want ≤ f.pos + nleft ∧
    call.got ≤ call.want
  pos : g.pos = f.pos + written new
  bufsz : g.bufsz + written new = f.bufsz

theorem Sock.recv_calls {sock sock' : Sock} {pos n : Nat} {got : Got UInt8}
    (h : sock.recv pos n = (got, sock')) :
    sock'.calls = sock.calls ++ [⟨some pos, n, returned got⟩] := by
  obtain ⟨rfl, rfl⟩ := Prod.mk.inj h
  rfl

/-- A loop that ends with a call that gave nothing. -/
theorem PayloadLog.none {nleft : Nat} {f : Frame} {sock : Sock} {got : Got UInt8}
    (hRecv : f.sock.recv f.pos nleft = (got, sock)) (hGot : returned got ≤ 0) :
    PayloadLog nleft f { f with sock } [⟨some f.pos, nleft, returned got⟩] where
  calls := Sock.recv_calls hRecv
  within := by
    intro call hCall
    obtain rfl := List.mem_singleton.mp hCall
    exact ⟨f.pos, rfl, Nat.le_refl _, by simp only; omega⟩
  pos := by simp [written, hGot]
  bufsz := by simp [written, hGot]

/-- A loop that goes on behind a call that gave some bytes. -/
theorem PayloadLog.cons {nleft : Nat} {f g : Frame} {sock : Sock} {bs : List UInt8}
    {new : List RecvCall} (hRoom : nleft ≤ f.bufsz)
    (hRecv : f.sock.recv f.pos nleft = (.bytes bs, sock)) (hGot : bs.length ≤ nleft)
    (h : PayloadLog (nleft - bs.length) (f.after sock bs) g new) :
    PayloadLog nleft f g (⟨some f.pos, nleft, bs.length⟩ :: new) where
  calls := by
    rw [h.calls, show (f.after sock bs).sock.calls = sock.calls from rfl, Sock.recv_calls hRecv,
      List.append_assoc]
    rfl
  within := by
    intro call hCall
    rcases List.mem_cons.mp hCall with rfl | hCall
    · exact ⟨f.pos, rfl, Nat.le_refl _, by simpa using hGot⟩
    · obtain ⟨pos, hInto, hEnd, hCc⟩ := h.within call hCall
      refine ⟨pos, hInto, ?_, hCc⟩
      simp only [Frame.after] at hEnd
      omega
  pos := by
    rw [h.pos]
    simp [written, Frame.after, Nat.add_assoc]
  bufsz := by
    have hRest := h.bufsz
    simp only [written, Frame.after, List.map_cons, List.sum_cons] at hRest ⊢
    simp
    omega

/-- The receives of a payload stay within it, and fill it if all is well. -/
theorem PayloadExact.log {last : Bool} {nleft : Nat} {f : Frame} {r : Ending × Frame}
    (h : PayloadExact last nleft f r) :
    ∃ new, PayloadLog nleft f r.2 new ∧ (r.1 = .complete → written new = nleft) := by
  induction h with
  | complete f => exact ⟨[], ⟨by simp, by simp, rfl, rfl⟩, fun _ => rfl⟩
  | closed hRoom hRecv => exact ⟨_, .none hRecv (by simp [returned]), by simp⟩
  | failed hRoom hRecv => exact ⟨_, .none hRecv (by simp [returned]), by simp⟩
  | early hRoom hRecv hGot hStop =>
      exact ⟨_, .cons hRoom hRecv hGot ⟨(List.append_nil _).symm, by simp, rfl, rfl⟩, by simp⟩
  | @more nleft f sock bs r hRoom hRecv hGot hGoOn rest ih =>
      obtain ⟨new, hLog, hAll⟩ := ih
      refine ⟨_, .cons hRoom hRecv hGot hLog, fun hComplete => ?_⟩
      have hRest := hAll hComplete
      simp only [written] at hRest
      simp only [written, List.map_cons, List.sum_cons, hRest]
      simp
      omega

/-- A mark that was read ahead is taken off the buffer again. -/
theorem keepMark_steppedBack {markp : Option UInt32} {g : Frame} (hPos : backBy markp ≤ g.pos)
    (h64 : g.bufsz + backBy markp < 2 ^ 64) : SteppedBack markp g (keepMark markp g).2 := by
  cases markp with
  | none => exact ⟨rfl, rfl, rfl⟩
  | some w => exact ⟨rfl, Nat.sub_add_cancel hPos, addSize_of_lt h64⟩

section
variable {markp : Option UInt32} {f g : Frame} {mark : UInt32} {sock : Sock}
  (h64 : f.bufsz < 2 ^ 64)

/-- A fragment is received only after the check of its size. -/
theorem Found.of_check (hMark : readMark markp f.sock = (.ok mark, sock))
    (hCheck : ¬ addSize (fragmentSize mark) marksz > f.bufsz) : Found markp f mark sock := by
  have hSize : fragmentSize mark < 2 ^ 32 := UInt32.toNat_lt _
  rw [addSize_of_lt (by simp only [marksz]; omega)] at hCheck
  exact ⟨hMark, not_lt.mp hCheck⟩

include h64

/-- The payload loop that `nct_rpc_recv` enters. -/
theorem Found.loop (h : Found markp f mark sock) {r : Ending × Frame}
    (hLoop : recvPayload (isLast mark)
      (addSize (fragmentSize mark) (if markp.isSome then marksz else 0)) { f with sock } = r) :
    PayloadExact (isLast mark) (wanted markp (fragmentSize mark)) { f with sock } r := by
  have hSize : fragmentSize mark < 2 ^ 32 := UInt32.toNat_lt _
  have hFits := h.fits
  have hWanted : wanted markp (fragmentSize mark) ≤ fragmentSize mark + marksz := by
    rw [wanted]
    split <;> omega
  rw [addSize_of_lt (by simp only [marksz]; split <;> omega)] at hLoop
  rw [← hLoop]
  exact recvPayload_exact _ _ _ (hWanted.trans hFits) h64

/-- A fragment that is complete leaves room for the step back over the mark. -/
theorem PayloadExact.steppedBack
    (h : PayloadExact (isLast mark) (wanted markp (fragmentSize mark)) { f with sock }
      (.complete, g)) : SteppedBack markp g (keepMark markp g).2 := by
  obtain ⟨new, hLog, hAll⟩ := h.log
  have hPos := hLog.pos
  have hSize := hLog.bufsz
  have hWanted : backBy markp ≤ written new := by
    rw [hAll rfl]
    exact Nat.le_add_left ..
  simp only at hPos hSize
  exact keepMark_steppedBack (by omega) (by omega)

end

/-- Every call of `nct_rpc_recv` wraps nothing. -/
theorem recvAgain_exact (markp : Option UInt32) (f : Frame) (h64 : f.bufsz < 2 ^ 64) :
    ∃ marks, RecvExact markp f (recvAgain markp f) marks := by
  fun_induction recvAgain with
  | case1 markp f cc sock hMark => exact ⟨0, .noMark hMark⟩
  | case2 markp f mark sock hMark recsz hCheck =>
      have hSize : fragmentSize mark < 2 ^ 32 := UInt32.toNat_lt _
      refine ⟨0, .abort hMark ?_⟩
      rwa [addSize_of_lt (by simp only [recsz, marksz]; omega)] at hCheck
  | case3 markp f mark sock hMark last recsz hCheck nleft cc g hLoop =>
      have hFound := Found.of_check hMark hCheck
      exact ⟨0, .failed hFound (hFound.loop h64 hLoop)⟩
  | case4 markp f mark sock hMark last recsz hCheck nleft g hLoop =>
      have hFound := Found.of_check hMark hCheck
      exact ⟨0, .early hFound (hFound.loop h64 hLoop)⟩
  | case5 markp f mark sock hMark last recsz hCheck nleft g hLoop kept hLast =>
      have hFound := Found.of_check hMark hCheck
      have hExact := hFound.loop h64 hLoop
      exact ⟨_, .last hFound hExact (hExact.steppedBack h64) hLast⟩
  | case6 markp f mark sock hMark last recsz hCheck nleft g hLoop kept hLast ih =>
      have hFound := Found.of_check hMark hCheck
      have hExact := hFound.loop h64 hLoop
      have hBack := hExact.steppedBack h64
      obtain ⟨new, hLog, hAll⟩ := hExact.log
      have hRest : kept.2.bufsz < 2 ^ 64 := by
        have hLeft : g.bufsz + written new = f.bufsz := hLog.bufsz
        have hSpan : backBy markp ≤ written new := by
          rw [hAll rfl]
          exact Nat.le_add_left ..
        have hKept : kept.2.bufsz = g.bufsz + backBy markp := hBack.bufsz
        omega
      obtain ⟨marks, hNext⟩ := ih hRest
      exact ⟨_, .again hFound hExact hBack (Bool.eq_false_iff.mpr hLast) hNext⟩

/-- A call asks for a mark, or for no more than there is room for behind the
place where it puts it. -/
def RecvCall.Within (bufsz : Nat) (call : RecvCall) : Prop :=
  match call.into with
  | none => call.want = marksz
  | some pos => pos + call.want ≤ bufsz ∧ call.got ≤ call.want

/-- What `nct_rpc_recv` adds to the log on the way from one frame to another. -/
structure RecvLog (markp : Option UInt32) (f g : Frame) (marks : Nat) (new : List RecvCall) :
    Prop where
  calls : g.sock.calls = f.sock.calls ++ new
  within : ∀ call ∈ new, call.Within (f.pos + f.bufsz)
  pos : g.pos + marksz * marks = f.pos + written new
  bufsz : g.pos + g.bufsz = f.pos + f.bufsz
  plain : markp = none → marks = 0

theorem written_append (calls more : List RecvCall) :
    written (calls ++ more) = written calls + written more := by
  simp [written]

section
variable {markp markp' : Option UInt32} {f g h : Frame} {marks marks' : Nat}
  {new more : List RecvCall} {sock : Sock}

/-- The bounds of two parts of a call are those of the whole. -/
theorem RecvLog.trans (first : RecvLog markp f g marks new) (rest : RecvLog markp' g h marks' more)
    (hPlain : markp = none → markp' = none) : RecvLog markp f h (marks' + marks) (new ++ more) where
  calls := by rw [rest.calls, first.calls, List.append_assoc]
  within call hCall := (List.mem_append.mp hCall).elim (first.within call) fun hMore => by
    rw [← first.bufsz]
    exact rest.within call hMore
  pos := by
    have hFirst := first.pos
    have hRest := rest.pos
    rw [written_append, Nat.mul_add]
    omega
  bufsz := rest.bufsz.trans first.bufsz
  plain hNone := by rw [first.plain hNone, rest.plain (hPlain hNone)]

/-- Stepping back over a mark gives its bytes back. -/
theorem RecvLog.back (h : RecvLog markp f g 0 new) {g' : Frame} (hBack : SteppedBack markp g g') :
    RecvLog markp f g' (if markp.isSome then 1 else 0) new where
  calls := by rw [hBack.sock, h.calls]
  within := h.within
  pos := by
    have hPos := h.pos
    have hEnd := hBack.pos
    cases markp <;> simp [backBy] at hEnd hPos ⊢ <;> omega
  bufsz := by
    have hSum := h.bufsz
    have hPos := hBack.pos
    have hSize := hBack.bufsz
    omega
  plain hNone := by simp [hNone]

/-- Taking the mark leaves the frame but for the socket. -/
theorem readMark_log {got : Except Int UInt32} (hMark : readMark markp f.sock = (got, sock)) :
    ∃ new, RecvLog markp f { f with sock } 0 new := by
  by_cases hZero : markp.getD 0 = 0
  · refine ⟨[⟨none, marksz, returned f.sock.recvMark.1⟩], ?_, ?_, by simp [written], rfl, fun _ => rfl⟩
    · have hSock : f.sock.recvMark.2 = sock := by
        simp only [readMark, hZero, beq_self_eq_true, if_true] at hMark
        cases hRecv : f.sock.recvMark with
        | mk got' sock' =>
            rw [hRecv] at hMark
            cases got' <;> exact congrArg Prod.snd hMark
      rw [← hSock]
      rfl
    · intro call hCall
      obtain rfl := List.mem_singleton.mp hCall
      rfl
  · have hSame : f.sock = sock := by
      simp only [readMark, beq_eq_false_iff_ne.mpr hZero, Bool.false_eq_true, if_false,
        Prod.mk.injEq] at hMark
      exact hMark.2
    exact ⟨[], by simp [hSame], by simp, rfl, rfl, fun _ => rfl⟩

/-- The mark of a fragment that fits, and what the payload loop then receives. -/
theorem Found.log {mark : UInt32} {last : Bool} {r : Ending × Frame}
    (hFound : Found markp f mark sock)
    (hLoop : PayloadExact last (wanted markp (fragmentSize mark)) { f with sock } r) :
    ∃ new, RecvLog markp f r.2 0 new := by
  obtain ⟨first, hFirst⟩ := readMark_log hFound.read
  obtain ⟨new, hLog, -⟩ := hLoop.log
  have hFits := hFound.fits
  have hWanted : wanted markp (fragmentSize mark) ≤ fragmentSize mark + marksz := by
    rw [wanted]
    split <;> omega
  have hPos := hLog.pos
  have hSize := hLog.bufsz
  simp only at hPos hSize
  have hRest : RecvLog none { f with sock } r.2 0 new := by
    refine ⟨hLog.calls, fun call hCall => ?_, hPos, ?_, fun _ => rfl⟩
    · obtain ⟨pos, hInto, hEnd, hGot⟩ := hLog.within call hCall
      simp only at hEnd
      simp only [RecvCall.Within, hInto]
      exact ⟨by omega, hGot⟩
    · simp only
      omega
  exact ⟨first ++ new, hFirst.trans hRest fun _ => rfl⟩

/-- Each way in which a call can end has its log. -/
theorem RecvExact.log {out : RecvOut} (h : RecvExact markp f out marks) :
    ∃ new, RecvLog markp f out.frame marks new := by
  induction h with
  | noMark hMark => exact readMark_log hMark
  | abort hMark hLong => exact readMark_log hMark
  | failed hFound hLoop => exact hFound.log hLoop
  | early hFound hLoop => exact hFound.log hLoop
  | last hFound hLoop hBack hLast =>
      obtain ⟨new, hLog⟩ := hFound.log hLoop
      exact ⟨new, hLog.back hBack⟩
  | @again markp f g mark sock out marks hFound hLoop hBack hLast rest ih =>
      obtain ⟨new, hLog⟩ := hFound.log hLoop
      obtain ⟨more, hRest⟩ := ih
      exact ⟨new ++ more, (hLog.back hBack).trans hRest fun hNone => by rw [hNone]; rfl⟩

end

/-- On any input, in both modes and from any mark word, `nct_rpc_recv` wraps
nothing and each `recv` into the buffer ends within it. What is written in all
is how far the write pointer has come, with four bytes for each mark read ahead. -/
theorem recv_bounds (sock : Sock) (buf : List UInt8) (bufsz : Nat) (markp : Option UInt32)
    (h64 : bufsz < 2 ^ 64) :
    let out := rpcRecv sock buf bufsz markp
    ∃ marks new, RecvExact markp { sock, buf, pos := 0, bufsz } out marks ∧
      out.frame.sock.calls = sock.calls ++ new ∧ (∀ call ∈ new, call.Within bufsz) ∧
      written new = out.frame.pos + 4 * marks ∧ out.frame.pos + out.frame.bufsz = bufsz ∧
      (markp = none → marks = 0) := by
  obtain ⟨marks, hExact⟩ := recvAgain_exact markp { sock, buf, pos := 0, bufsz } h64
  obtain ⟨new, hLog⟩ := hExact.log
  have hPos := hLog.pos
  have hSize := hLog.bufsz
  have hWithin := hLog.within
  simp only [marksz, Nat.zero_add] at hPos hSize hWithin
  exact ⟨marks, new, hExact, hLog.calls, hWithin, hPos.symm, hSize, hLog.plain⟩

/-- Four fragments of a byte each, and the mark of the next record. -/
def fourMarks : Sock :=
  ⟨[.segment 0 [0, 0, 1, 7, 0, 0, 0, 1, 7, 0, 0, 0, 1, 7, 0x80, 0, 0, 1, 7, 0x80, 0, 0, 0]], []⟩

theorem recv_bounds_plainMark :
    let out := rpcRecv fourMarks (List.replicate 8 0) 8 none
    ∃ marks new, RecvExact none { sock := fourMarks, buf := List.replicate 8 0, pos := 0, bufsz := 8 }
        out marks ∧
      out.frame.sock.calls = [] ++ new ∧ (∀ call ∈ new, call.Within 8) ∧
      written new = out.frame.pos + 4 * marks ∧ out.frame.pos + out.frame.bufsz = 8 ∧
      (none = (none : Option UInt32) → marks = 0) :=
  recv_bounds fourMarks (List.replicate 8 0) 8 none (by decide)

/-- Reading ahead, each mark is written over by what follows it, and 20 bytes go
into a buffer of 8. -/
theorem recv_overwrites :
    (rpcRecv fourMarks (List.replicate 8 0) 8 (some 0)).result = .record 1 ∧
      ¬ written (rpcRecv fourMarks (List.replicate 8 0) 8 (some 0)).frame.sock.calls ≤ 8 := by
  decide +kernel

end Nct
