import Nct.Support.BigEndian
import Nct.Support.Delivery

/-! Receiving RPC records over TCP: the record mark and `nct_rpc_recv`. The
socket hands out bytes as `Delivery` describes, and keeps a log of the `recv`
calls made on it. -/
namespace Nct

open Delivery

/-- Size in bytes of a record mark, `sizeof(*markp)`. -/
def marksz : Nat := 4

/-- `size_t` subtraction and addition, which wrap at 64 bits. -/
def subSize (a b : Nat) : Nat := (a + 2 ^ 64 - b) % 2 ^ 64

def addSize (a b : Nat) : Nat := (a + b) % 2 ^ 64

theorem subSize_of_le {a b : Nat} (h : b ≤ a) (ha : a < 2 ^ 64) : subSize a b = a - b := by
  unfold subSize
  rw [show a + 2 ^ 64 - b = a - b + 2 ^ 64 by omega, Nat.add_mod_right, Nat.mod_eq_of_lt (by omega)]

theorem addSize_of_lt {a b : Nat} (h : a + b < 2 ^ 64) : addSize a b = a + b :=
  Nat.mod_eq_of_lt h

/-- One `recv` call: where its bytes went (`none` for the local mark, else an
offset into the caller's buffer), how many it asked for, and what it returned. -/
structure RecvCall where
  into : Option Nat
  want : Nat
  got : Int
  deriving DecidableEq, Repr

/-- The receiving side of a TCP connection. -/
structure Sock where
  inbox : List (Arrival UInt8)
  calls : List RecvCall
  deriving DecidableEq, Repr

def returned : Got UInt8 → Int
  | .bytes bs => bs.length
  | .closed => 0
  | .failed => -1

/-- `recv(fd, buf, n, 0)` with `buf` at offset `pos` of the caller's buffer. -/
def Sock.recv (s : Sock) (pos n : Nat) : Got UInt8 × Sock :=
  let got := read n s.inbox
  (got.1, { inbox := got.2, calls := s.calls ++ [⟨some pos, n, returned got.1⟩] })

/-- `recv(fd, &mark, marksz, MSG_WAITALL)`. -/
def Sock.recvMark (s : Sock) : Got UInt8 × Sock :=
  let got := readAll marksz s.inbox
  (got.1, { inbox := got.2, calls := s.calls ++ [⟨none, marksz, returned got.1⟩] })

/-- Mark words are kept as the number their wire bytes denote, so `ntohl` of
the stored word is the word itself and zero is zero in either byte order. -/
def ntohl (bytes : List UInt8) : UInt32 := UInt32.ofNat (BigEndian.decode bytes)

def htonl (word : UInt32) : List UInt8 := BigEndian.encode marksz word.toNat

def isLast (mark : UInt32) : Bool := mark &&& 0x80000000 != 0

def fragmentSize (mark : UInt32) : Nat := (mark &&& ~~~0x80000000).toNat

/-- Copy bytes into a buffer at an offset. -/
def store (buf : List UInt8) (pos : Nat) (bytes : List UInt8) : List UInt8 :=
  buf.take pos ++ bytes ++ buf.drop (pos + bytes.length)

/-- What the loops of `nct_rpc_recv` change besides the mark: the socket, the
caller's buffer, and the moving arguments `buf` (as an offset) and `bufsz`. -/
structure Frame where
  sock : Sock
  buf : List UInt8
  pos : Nat
  bufsz : Nat
  deriving DecidableEq, Repr

/-- How the payload loop ends: a `recv` that returned less than one byte, the
exit with exactly one mark's size left of the last fragment, or `nleft == 0`. -/
inductive Ending where
  | failed (cc : Int)
  | early
  | complete
  deriving DecidableEq, Repr

/-- `while (nleft > 0) { ... }` -/
def recvPayload (last : Bool) (nleft : Nat) (f : Frame) : Ending × Frame :=
  if _hn : 0 < nleft then
    match hr : f.sock.recv f.pos nleft with
    | (.closed, sock) => (.failed 0, { f with sock })
    | (.failed, sock) => (.failed (-1), { f with sock })
    | (.bytes bs, sock) =>
        let nleft := subSize nleft bs.length
        let f :=
          { sock, buf := store f.buf f.pos bs, pos := f.pos + bs.length
            bufsz := subSize f.bufsz bs.length : Frame }
        if last && nleft == marksz then (.early, f) else recvPayload last nleft f
  else (.complete, f)
termination_by weight f.sock.inbox
decreasing_by
  simp only [Sock.recv, Prod.mk.injEq] at hr
  have h := read_weight _hn (Prod.ext hr.1 rfl)
  rw [← hr.2]
  exact h

/-- The frame `g` after `n` bytes that were ready have been received into `f`. -/
structure Received (f : Frame) (n : Nat) (g : Frame) : Prop where
  inbox : g.sock.inbox = advance n f.sock.inbox
  buf : g.buf = store f.buf f.pos ((ready f.sock.inbox).take n)
  pos : g.pos = f.pos + n
  bufsz : g.bufsz = f.bufsz - n

/-- How many bytes one payload loop asks for. -/
def wanted (markp : Option UInt32) (n : Nat) : Nat := n + if markp.isSome then marksz else 0

/-- `mark = markp ? *markp : 0; if (mark == 0) ...`: the mark left by the last
call, else one read from the socket. The error is the value returned. -/
def readMark (markp : Option UInt32) (sock : Sock) : Except Int UInt32 × Sock :=
  let mark := markp.getD 0
  if mark == 0 then
    match sock.recvMark with
    | (.closed, sock) => (.error 0, sock)
    | (.failed, sock) => (.error (-1), sock)
    | (.bytes bs, sock) => (if bs.length != marksz then .error 0 else .ok (ntohl bs), sock)
  else (.ok mark, sock)

/-- What `nct_rpc_recv` returns: `record` from a `return recsz`, `failed` from
a `return (cc == -1) ? -1 : 0`. -/
inductive RecvResult where
  | record (recsz : Nat)
  | failed (cc : Int)
  | abort
  deriving DecidableEq, Repr

/-- The result with the caller's mark word and everything else it left behind. -/
structure RecvOut where
  result : RecvResult
  markp : Option UInt32
  frame : Frame
  deriving DecidableEq, Repr

/-- One pass of the payload loop over data that has arrived. -/
theorem recvPayload_pass (last : Bool) {nleft : Nat} {f : Frame} (hn : 0 < nleft)
    (hSize : nleft ≤ f.bufsz) (h64 : f.bufsz < 2 ^ 64) (hReady : ready f.sock.inbox ≠ []) :
    ∃ k g, 0 < k ∧ k ≤ nleft ∧ k ≤ (ready f.sock.inbox).length ∧ Received f k g ∧
      (k = nleft ∨ k ∈ ends f.sock.inbox) ∧ (∀ p ∈ ends f.sock.inbox, k ≤ p) ∧
      recvPayload last nleft f =
        if last && nleft - k == marksz then (.early, g) else recvPayload last (nleft - k) g := by
  obtain ⟨k, hPos, hLe, hLen, hRead, hEnd, hFirst⟩ := read_ready hn hReady
  have hTake : ((ready f.sock.inbox).take k).length = k := by simpa using hLen
  let g : Frame :=
    { sock := ⟨advance k f.sock.inbox, f.sock.calls ++ [⟨some f.pos, nleft, k⟩]⟩
      buf := store f.buf f.pos ((ready f.sock.inbox).take k)
      pos := f.pos + k
      bufsz := f.bufsz - k }
  refine ⟨k, g, hPos, hLe, hLen, ⟨rfl, rfl, rfl, rfl⟩, hEnd, hFirst, ?_⟩
  have hRecv : f.sock.recv f.pos nleft = (.bytes ((ready f.sock.inbox).take k), g.sock) := by
    simp only [Sock.recv, hRead, returned, hTake, g]
  rw [recvPayload, dif_pos hn]
  split
  · next h => simp [hRecv] at h
  · next h => simp [hRecv] at h
  · next bs sock h =>
      obtain ⟨rfl, rfl⟩ : (ready f.sock.inbox).take k = bs ∧ g.sock = sock := by
        simpa [hRecv] using h
      simp only [hTake, subSize_of_le hLe (hSize.trans_lt h64),
        subSize_of_le (hLe.trans hSize) h64]
      rfl

theorem store_length {buf bytes : List UInt8} {pos : Nat} (h : pos + bytes.length ≤ buf.length) :
    (store buf pos bytes).length = buf.length := by
  simp only [store, List.length_append, List.length_take, List.length_drop]
  omega

/-- Consecutive stores are one store of the joined bytes. -/
theorem store_store {buf : List UInt8} {pos : Nat} (left right : List UInt8)
    (h : pos + left.length ≤ buf.length) :
    store (store buf pos left) (pos + left.length) right = store buf pos (left ++ right) := by
  have hPrefix : (buf.take pos ++ left).length = pos + left.length := by
    simp only [List.length_append, List.length_take]
    omega
  have hTake : (store buf pos left).take (pos + left.length) = buf.take pos ++ left := by
    rw [store, ← hPrefix, List.take_left']
    rfl
  have hDrop : (store buf pos left).drop (pos + left.length + right.length) =
      buf.drop (pos + (left ++ right).length) := by
    rw [store, ← hPrefix, Nat.add_comm, List.drop_append, List.drop_of_length_le (by omega),
      List.nil_append, List.drop_drop]
    congr 1
    simp only [List.length_append] at hPrefix ⊢
    omega
  rw [store, hTake, hDrop, store]
  simp only [List.append_assoc]

theorem Received.refl (f : Frame) : Received f 0 f :=
  ⟨(advance_zero _).symm, by simp [store], by simp, by simp⟩

/-- Receiving `m` and then `n` bytes is receiving `m + n` bytes. -/
theorem Received.trans {f g h : Frame} {m n : Nat} (first : Received f m g)
    (second : Received g n h) (hReady : m ≤ (ready f.sock.inbox).length)
    (hRoom : f.pos + m ≤ f.buf.length) : Received f (m + n) h where
  inbox := by rw [second.inbox, first.inbox, advance_advance]
  buf := by
    have hLen : ((ready f.sock.inbox).take m).length = m := by simpa using hReady
    have hStore := store_store ((ready f.sock.inbox).take m)
      (((ready f.sock.inbox).drop m).take n) (show f.pos + _ ≤ f.buf.length by rwa [hLen])
    rw [hLen] at hStore
    rw [second.buf, first.buf, first.pos, first.inbox, ready_advance, hStore, ← List.take_add]
  pos := by rw [second.pos, first.pos, Nat.add_assoc]
  bufsz := by rw [second.bufsz, first.bufsz, Nat.sub_sub]

/-- The payload loop stops early on the last fragment when a segment ends
exactly one mark's size before the end of what it wants. -/
def EarlyExit (last : Bool) (nleft : Nat) (inbox : List (Arrival UInt8)) : Prop :=
  last = true ∧ marksz < nleft ∧ nleft - marksz ∈ ends inbox

instance (last : Bool) (nleft : Nat) (inbox : List (Arrival UInt8)) :
    Decidable (EarlyExit last nleft inbox) :=
  inferInstanceAs (Decidable (_ ∧ _ ∧ _))

/-- What the payload loop does on `nleft` wanted bytes, when the caller's
buffer has room for them. -/
structure PayloadSpec (last : Bool) (nleft : Nat) (f : Frame) : Prop where
  early : EarlyExit last nleft f.sock.inbox →
    ∃ g, recvPayload last nleft f = (.early, g) ∧ Received f (nleft - marksz) g
  complete : ¬ EarlyExit last nleft f.sock.inbox → nleft ≤ (ready f.sock.inbox).length →
    ∃ g, recvPayload last nleft f = (.complete, g) ∧ Received f nleft g
  failed : ¬ EarlyExit last nleft f.sock.inbox → (ready f.sock.inbox).length < nleft →
    ∃ cc g, recvPayload last nleft f = (.failed cc, g)

/-- Nothing is left to read. -/
theorem recvPayload_zero (last : Bool) (f : Frame) : recvPayload last 0 f = (.complete, f) := by
  rw [recvPayload, dif_neg (Nat.lt_irrefl 0)]

/-- The connection ends or fails before the payload does. -/
theorem recvPayload_not_ready {last : Bool} {nleft : Nat} {f : Frame} (hn : 0 < nleft)
    (hReady : ready f.sock.inbox = []) : ∃ cc g, recvPayload last nleft f = (.failed cc, g) := by
  rw [recvPayload, dif_pos hn]
  have hFault := read_not_ready nleft hReady
  split
  · exact ⟨_, _, rfl⟩
  · exact ⟨_, _, rfl⟩
  · next bs sock h =>
      simp only [Sock.recv, Prod.mk.injEq] at h
      rcases hFault with hf | hf <;> simp [hf] at h

/-- By induction on the bytes left, since each `recv` brings at least one. -/
theorem recvPayload_spec (last : Bool) (nleft : Nat) (f : Frame) (hSize : nleft ≤ f.bufsz)
    (h64 : f.bufsz < 2 ^ 64) (hRoom : f.pos + nleft ≤ f.buf.length) :
    PayloadSpec last nleft f := by
  induction nleft using Nat.strong_induction_on generalizing f with
  | _ nleft ih =>
    rcases Nat.eq_zero_or_pos nleft with rfl | hn
    · refine ⟨fun h => absurd h.2.1 (by omega), fun _ _ => ⟨f, recvPayload_zero last f, .refl f⟩,
        fun _ h => absurd h (by omega)⟩
    by_cases hReady : ready f.sock.inbox = []
    · refine ⟨fun h => ?_, fun _ h => ?_, fun _ _ => recvPayload_not_ready hn hReady⟩
      · have := ends_le_ready h.2.2
        simp only [hReady, List.length_nil] at this
        have := h.2.1
        omega
      · simp only [hReady, List.length_nil] at h
        omega
    · obtain ⟨k, g, hPos, hLe, hLen, hGot, hEnd, hFirst, hPass⟩ :=
        recvPayload_pass last hn hSize h64 hReady
      have hInbox : g.sock.inbox = advance k f.sock.inbox := hGot.inbox
      have hLeft : (ready g.sock.inbox).length = (ready f.sock.inbox).length - k := by
        rw [hInbox, ready_advance, List.length_drop]
      by_cases hStop : last = true ∧ nleft - k = marksz
      · -- this very `recv` leaves one mark's size of the last fragment
        have hEarly : EarlyExit last nleft f.sock.inbox := by
          have hk : nleft - marksz = k := by omega
          refine ⟨hStop.1, by omega, ?_⟩
          rw [hk]
          exact hEnd.resolve_left (by simp only [marksz] at hStop; omega)
        have hNow : recvPayload last nleft f = (.early, g) := by
          rw [hPass, if_pos (by simp [hStop])]
        refine ⟨fun _ => ⟨g, hNow, ?_⟩, fun h => absurd hEarly h, fun h => absurd hEarly h⟩
        rwa [show nleft - marksz = k by omega]
      · have hNext : recvPayload last nleft f = recvPayload last (nleft - k) g := by
          rw [hPass, if_neg (by simpa using hStop)]
        have hBuf : g.buf.length = f.buf.length := by
          rw [hGot.buf, store_length]
          simp only [List.length_take]
          omega
        have rest := ih (nleft - k) (by omega) g (by rw [hGot.bufsz]; omega)
          (by rw [hGot.bufsz]; omega) (by rw [hGot.pos, hBuf]; omega)
        -- the early exit lies ahead, at the same place in the stream
        have hSame : EarlyExit last (nleft - k) g.sock.inbox ↔ EarlyExit last nleft f.sock.inbox := by
          unfold EarlyExit
          apply and_congr_right
          intro hLast
          constructor
          · rintro ⟨hlt, hmem⟩
            rw [hInbox, mem_ends_advance (by omega) hLen] at hmem
            exact ⟨by omega, by rwa [show nleft - marksz = k + (nleft - k - marksz) by omega]⟩
          · rintro ⟨hlt, hmem⟩
            have hAfter := hFirst _ hmem
            have hne : nleft - k ≠ marksz := fun he => hStop ⟨hLast, he⟩
            refine ⟨by omega, ?_⟩
            rw [hInbox, mem_ends_advance (by omega) hLen]
            rwa [show k + (nleft - k - marksz) = nleft - marksz by omega]
        refine ⟨fun hEarly => ?_, fun hEarly hAll => ?_, fun hEarly hShort => ?_⟩
        · obtain ⟨h, hRun, hRest⟩ := rest.early (hSame.mpr hEarly)
          have hWant := (hSame.mpr hEarly).2.1
          refine ⟨h, hNext.trans hRun, ?_⟩
          have := hGot.trans hRest hLen (by omega)
          rwa [show k + (nleft - k - marksz) = nleft - marksz by omega] at this
        · obtain ⟨h, hRun, hRest⟩ := rest.complete (fun he => hEarly (hSame.mp he)) (by omega)
          refine ⟨h, hNext.trans hRun, ?_⟩
          have := hGot.trans hRest hLen (by omega)
          rwa [show k + (nleft - k) = nleft by omega] at this
        · obtain ⟨cc, h, hRun⟩ := rest.failed (fun he => hEarly (hSame.mp he)) (by omega)
          exact ⟨cc, h, hNext.trans hRun⟩

/-- Completing a non-empty payload uses up some of what has arrived. -/
theorem recvPayload_weight (last : Bool) (nleft : Nat) (f : Frame) :
    weight (recvPayload last nleft f).2.sock.inbox ≤ weight f.sock.inbox ∧
      (0 < nleft → (recvPayload last nleft f).1 = .complete →
        weight (recvPayload last nleft f).2.sock.inbox < weight f.sock.inbox) := by
  fun_induction recvPayload with
  | case1 nleft f hn sock h =>
      rw [← (Prod.mk.inj h).2]
      exact ⟨read_weight_le nleft f.sock.inbox, fun _ hc => by cases hc⟩
  | case2 nleft f hn sock h =>
      rw [← (Prod.mk.inj h).2]
      exact ⟨read_weight_le nleft f.sock.inbox, fun _ hc => by cases hc⟩
  | case3 nleft f hn bs sock h nleft' f' hStop =>
      have hGot : weight f'.sock.inbox < weight f.sock.inbox := by
        change weight sock.inbox < _
        rw [← (Prod.mk.inj h).2]
        exact read_weight hn (Prod.ext (Prod.mk.inj h).1 rfl)
      exact ⟨hGot.le, fun _ hc => by cases hc⟩
  | case4 nleft f hn bs sock h nleft' f' hStop ih =>
      have hGot : weight f'.sock.inbox < weight f.sock.inbox := by
        change weight sock.inbox < _
        rw [← (Prod.mk.inj h).2]
        exact read_weight hn (Prod.ext (Prod.mk.inj h).1 rfl)
      exact ⟨ih.1.trans hGot.le, fun _ _ => ih.1.trans_lt hGot⟩
  | case5 nleft f hn => exact ⟨Nat.le_refl _, fun h => absurd h hn⟩

/-- Taking the mark from the socket uses up some of what has arrived. -/
theorem readMark_weight {markp : Option UInt32} {sock left : Sock} {mark : UInt32}
    (h : readMark markp sock = (.ok mark, left)) :
    weight left.inbox ≤ weight sock.inbox ∧
      (markp = none → weight left.inbox < weight sock.inbox) := by
  by_cases hMark : markp.getD 0 = 0
  · cases hr : readAll marksz sock.inbox with
    | mk got inbox =>
        cases got <;> simp only [readMark, hMark, Sock.recvMark, hr, beq_self_eq_true, if_true,
          Prod.mk.injEq, reduceCtorEq, false_and] at h
        have hWeight := readAll_weight (by decide) hr
        rw [← h.2]
        exact ⟨hWeight.le, fun _ => hWeight⟩
  · simp only [readMark, beq_eq_false_iff_ne.mpr hMark, Bool.false_eq_true, if_false,
      Prod.mk.injEq] at h
    rw [← h.2]
    exact ⟨Nat.le_refl _, fun hNull => absurd (by simp [hNull]) hMark⟩

/-- `if (markp) { bufsz += marksz; buf -= marksz; memcpy(markp, buf, marksz); }`:
the mark read ahead is taken back out of the caller's buffer. -/
def keepMark (markp : Option UInt32) (g : Frame) : Option UInt32 × Frame :=
  match markp with
  | none => (none, g)
  | some _ =>
      let g := { g with bufsz := addSize g.bufsz marksz, pos := g.pos - marksz }
      (some (ntohl ((g.buf.drop g.pos).take marksz)), g)

@[simp] theorem keepMark_sock (markp : Option UInt32) (g : Frame) :
    (keepMark markp g).2.sock = g.sock := by
  cases markp <;> rfl

/-- `again:` of `nct_rpc_recv`; one call of it receives one fragment. -/
def recvAgain (markp : Option UInt32) (f : Frame) : RecvOut :=
  match _hm : readMark markp f.sock with
  | (.error cc, sock) => ⟨.failed cc, markp, { f with sock }⟩
  | (.ok mark, sock) =>
      let last := isLast mark
      let recsz := fragmentSize mark
      if addSize recsz marksz > f.bufsz then ⟨.abort, markp, { f with sock }⟩
      else
        let nleft := addSize recsz (if markp.isSome then marksz else 0)
        match _hp : recvPayload last nleft { f with sock } with
        | (.failed cc, f) => ⟨.failed cc, markp, f⟩
        | (.early, f) => ⟨.record recsz, markp.map fun _ => 0, f⟩
        | (.complete, g) =>
            let kept := keepMark markp g
            if last then ⟨.record recsz, kept.1, kept.2⟩ else recvAgain kept.1 kept.2
termination_by weight f.sock.inbox
decreasing_by
  rw [keepMark_sock]
  have hMark := readMark_weight _hm
  have hLoop := recvPayload_weight last nleft { f with sock }
  rw [_hp] at hLoop
  cases markp with
  | none => exact hLoop.1.trans_lt (hMark.2 rfl)
  | some w =>
      have hn : 0 < nleft := by
        have hSize : recsz < 2 ^ 32 := UInt32.toNat_lt _
        have hWant : nleft = addSize recsz 4 := by simp [nleft, marksz]
        rw [hWant, addSize_of_lt (by omega)]
        omega
      exact (hLoop.2 hn rfl).trans_le hMark.1

/-- The call once its mark is known and the fragment fits the space left. -/
theorem recvAgain_of_mark {markp : Option UInt32} {f : Frame} {mark : UInt32} {left : Sock}
    (hMark : readMark markp f.sock = (.ok mark, left))
    (hFit : fragmentSize mark + marksz ≤ f.bufsz) :
    recvAgain markp f =
      match recvPayload (isLast mark) (wanted markp (fragmentSize mark)) { f with sock := left } with
      | (.failed cc, g) => ⟨.failed cc, markp, g⟩
      | (.early, g) => ⟨.record (fragmentSize mark), markp.map fun _ => 0, g⟩
      | (.complete, g) =>
          if isLast mark then
            ⟨.record (fragmentSize mark), (keepMark markp g).1, (keepMark markp g).2⟩
          else recvAgain (keepMark markp g).1 (keepMark markp g).2 := by
  have hSize : fragmentSize mark < 2 ^ 32 := UInt32.toNat_lt _
  have hRoom : ¬ addSize (fragmentSize mark) marksz > f.bufsz := by
    rw [addSize_of_lt (by simp only [marksz]; omega)]
    omega
  have hWant : addSize (fragmentSize mark) (if markp.isSome then marksz else 0) =
      wanted markp (fragmentSize mark) := by
    rw [wanted, addSize_of_lt (by simp only [marksz]; split <;> omega)]
  rw [recvAgain]
  split
  · next h => simp [hMark] at h
  · next mark' sock h =>
      obtain ⟨rfl, rfl⟩ : mark = mark' ∧ left = sock := by simpa [hMark] using h
      rw [if_neg hRoom]
      rw [← hWant]
      dsimp only
      generalize recvPayload (isLast mark) _ _ = loop
      rcases loop with ⟨ending, g⟩
      cases ending <;> rfl

/-- `nct_rpc_recv(fd, buf, bufsz, markp)`; `markp = none` is the null pointer. -/
def rpcRecv (sock : Sock) (buf : List UInt8) (bufsz : Nat) (markp : Option UInt32) : RecvOut :=
  recvAgain markp { sock, buf, pos := 0, bufsz }

end Nct
