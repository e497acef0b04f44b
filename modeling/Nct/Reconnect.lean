import Mathlib.Data.Nat.Count
import Nct.Support.Scan
import Nct.Slots

/-! The resend loop, which the receive loop runs on a new connection. It goes
through the table while its own sends write to it. -/
namespace Nct

open Function (update)
open Transition (Run)

/-- The mount during the resend loop, `latency_cum`, and what has been put on the
new connection: each request with its xid. -/
structure Resend where
  mnt : Mnt
  latencyCum : UInt64
  sends : List (ReqId × UInt32)

section
variable (clock : Nat → UInt64) (complete : Nat → Bool)

/-- The body of the resend loop. `clock i` is what `rdtsc` returns there, and
`complete i` tells whether all bytes are sent. -/
def resendSlot (i : Nat) (s : Resend) : Except Crash Resend :=
  match s.mnt.reqTbl i with
  | none => .error .nullSlot
  | some req =>
      if s.mnt.reqTscStart req > s.mnt.reqTscStop req then
        let s' : Resend :=
          { mnt := reqSend (stampStop s.mnt req (clock i)) req
            latencyCum := s.latencyCum + (clock i - s.mnt.reqTscStart req)
            sends := s.sends ++ [(req, s.mnt.sendXid)] }
        if complete i then .ok s' else .error .sendCheck
      else .ok s

def resendAll (mnt : Mnt) (latencyCum : UInt64) : Except Crash Resend :=
  Scan.upTo (resendSlot clock complete) ⟨mnt, latencyCum, []⟩ NCT_REQ_MAX

end

/-- Each request in the table has been sent once, with the next xid each time,
and nothing else has been sent. -/
structure Resend.Resends (s : Resend) (mnt : Mnt) : Prop where
  once : (s.sends.map Prod.fst).Nodup
  all : ∀ req, req ∈ s.sends.map Prod.fst ↔ ∃ i < NCT_REQ_MAX, mnt.reqTbl i = some req
  xids : s.sends.map Prod.snd =
    (List.range s.sends.length).map fun k => mnt.sendXid + 11 * UInt32.ofNat k

/-- The slot that the `k`th request sent is put in. -/
def Mnt.place (mnt : Mnt) (k : Nat) : Nat := slot (mnt.sendXid + 11 * UInt32.ofNat k)

/-- The table when the given requests have been put in it, the latest first. -/
def Mnt.tblAfter (mnt : Mnt) : List (ReqId × Nat) → Nat → Option ReqId
  | [] => mnt.reqTbl
  | (req, _) :: sent => update (mnt.tblAfter sent) (mnt.place sent.length) (some req)

/-- The requests to meet in the first `n` slots, each with the slot where it is
met first, the latest first; there it is put in its new slot too. -/
def Mnt.met (mnt : Mnt) : Nat → List (ReqId × Nat)
  | 0 => []
  | n + 1 =>
      match mnt.tblAfter (mnt.met n) n with
      | none => mnt.met n
      | some req => if req ∈ (mnt.met n).map Prod.fst then mnt.met n else (req, n) :: mnt.met n

/-- There is a request to meet in slot `i`. One met for the first time can be
told to be in flight, and is sent whole; one met before is recognised. -/
structure Mnt.Passable (mnt : Mnt) (clock : Nat → UInt64) (complete : Nat → Bool) (i : Nat) :
    Prop where
  full : mnt.tblAfter (mnt.met i) i ≠ none
  first : ∀ req, mnt.tblAfter (mnt.met i) i = some req → req ∉ (mnt.met i).map Prod.fst →
    mnt.reqTscStart req > mnt.reqTscStop req ∧ complete i = true
  again : ∀ req p, mnt.tblAfter (mnt.met i) i = some req → (req, p) ∈ mnt.met i →
    mnt.reqTscStart req ≤ clock p

/-- The loop can pass all slots, and meets each request of the table in one. -/
structure Mnt.Workable (mnt : Mnt) (clock : Nat → UInt64) (complete : Nat → Bool) : Prop where
  passable : ∀ i < NCT_REQ_MAX, mnt.Passable clock complete i
  reached : ∀ i < NCT_REQ_MAX, ∀ req, mnt.reqTbl i = some req →
    req ∈ (mnt.met NCT_REQ_MAX).map Prod.fst

/-- Every request in the table is in the slot of its xid, as its send has left it. -/
def Mnt.InSlots (mnt : Mnt) : Prop := ∀ i req, mnt.reqTbl i = some req → slot (mnt.reqXid req) = i

/-- The occupied slots before the `n`th. -/
def Mnt.rank (mnt : Mnt) (n : Nat) : Nat := Nat.count (fun i => (mnt.reqTbl i).isSome = true) n

/-- Where the request in slot `p` is put when all those before it have been sent. -/
def Mnt.resendTo (mnt : Mnt) (p : Nat) : Nat := mnt.place (mnt.rank p)

/-- Slot `i` is empty just if a request from an earlier slot is put there by the
time that the loop gets to it, and is recognised then. If not, its request can
be told to be in flight, and is sent whole. -/
structure Mnt.Resendable (mnt : Mnt) (clock : Nat → UInt64) (complete : Nat → Bool) (i : Nat) :
    Prop where
  empty : mnt.reqTbl i = none ↔ ∃ p < i, (mnt.reqTbl p).isSome ∧ mnt.resendTo p = i
  moved : ∀ p < i, ∀ req, mnt.reqTbl p = some req → mnt.resendTo p = i →
    mnt.reqTscStart req ≤ clock p
  own : ∀ req, mnt.reqTbl i = some req →
    mnt.reqTscStart req > mnt.reqTscStop req ∧ complete i = true

/-- The k-th xid to come has its slot 11 * k slots on. -/
theorem place_eq (mnt : Mnt) (k : Nat) :
    mnt.place k = (mnt.sendXid.toNat + 11 * k) % NCT_REQ_MAX := by
  have hStride : (UInt32.ofNat k).toNat = k % 2 ^ 32 := UInt32.toNat_ofNat'
  have hTimes : (11 * UInt32.ofNat k).toNat = 11 * (UInt32.ofNat k).toNat % 2 ^ 32 :=
    UInt32.toNat_mul _ _
  rw [Mnt.place, slot, UInt32.toNat_add, hTimes, hStride, NCT_REQ_MAX]
  omega

theorem stride_succ (xid : UInt32) (k : Nat) :
    xid + 11 * UInt32.ofNat k + 11 = xid + 11 * UInt32.ofNat (k + 1) := by
  rw [UInt32.ofNat_add, UInt32.mul_add, UInt32.add_assoc]
  rfl

section
variable {mnt : Mnt} {n : Nat}

/-- What is in the table later has been put there or was there before. -/
theorem Mnt.tblAfter_traced {sent : List (ReqId × Nat)} {i : Nat} {req : ReqId}
    (h : mnt.tblAfter sent i = some req) : req ∈ sent.map Prod.fst ∨ mnt.reqTbl i = some req := by
  induction sent with
  | nil => exact Or.inr h
  | cons first sent ih =>
      obtain ⟨r, p⟩ := first
      by_cases hi : i = mnt.place sent.length
      · subst hi
        obtain rfl : r = req := by simpa [Mnt.tblAfter] using h
        exact Or.inl (List.mem_cons_self ..)
      · exact (ih ((Function.update_of_ne hi _ _).symm.trans h)).imp_left (List.mem_cons_of_mem _)

/-- A request that is met for the first time is noted with its slot. -/
theorem Mnt.met_succ_of_new {req : ReqId} (h : mnt.tblAfter (mnt.met n) n = some req)
    (hNew : req ∉ (mnt.met n).map Prod.fst) : mnt.met (n + 1) = (req, n) :: mnt.met n := by
  simp only [Mnt.met, h, hNew, if_false]

/-- One that has been met before is not noted again. -/
theorem Mnt.met_succ_of_old {req : ReqId} (h : mnt.tblAfter (mnt.met n) n = some req)
    (hOld : req ∈ (mnt.met n).map Prod.fst) : mnt.met (n + 1) = mnt.met n := by
  simp only [Mnt.met, h, hOld, if_true]

/-- The next slot adds nothing, or the table's own request there. -/
theorem Mnt.met_succ (mnt : Mnt) (n : Nat) : mnt.met (n + 1) = mnt.met n ∨
    ∃ req, mnt.reqTbl n = some req ∧ req ∉ (mnt.met n).map Prod.fst ∧
      mnt.met (n + 1) = (req, n) :: mnt.met n := by
  cases hTbl : mnt.tblAfter (mnt.met n) n with
  | none => exact Or.inl (by simp only [Mnt.met, hTbl])
  | some req =>
      by_cases hOld : req ∈ (mnt.met n).map Prod.fst
      · exact Or.inl (Mnt.met_succ_of_old hTbl hOld)
      · have hOwn := (Mnt.tblAfter_traced hTbl).resolve_left hOld
        exact Or.inr ⟨req, hOwn, hOld, Mnt.met_succ_of_new hTbl hOld⟩

/-- A request is noted with a slot that had it at first. -/
theorem Mnt.of_mem_met {req : ReqId} {p : Nat} (h : (req, p) ∈ mnt.met n) :
    p < n ∧ mnt.reqTbl p = some req := by
  induction n with
  | zero => cases h
  | succ n ih =>
      rcases mnt.met_succ n with hSame | ⟨r, hOwn, -, hMore⟩
      · obtain ⟨hp, hTbl⟩ := ih (hSame ▸ h)
        exact ⟨Nat.lt_succ_of_lt hp, hTbl⟩
      · rw [hMore] at h
        rcases List.mem_cons.mp h with hNew | hOld
        · cases hNew
          exact ⟨Nat.lt_succ_self _, hOwn⟩
        · obtain ⟨hp, hTbl⟩ := ih hOld
          exact ⟨Nat.lt_succ_of_lt hp, hTbl⟩

theorem Mnt.exists_met {req : ReqId} (h : req ∈ (mnt.met n).map Prod.fst) :
    ∃ p, (req, p) ∈ mnt.met n := by
  simpa using h

/-- No request is noted twice. -/
theorem Mnt.met_nodup (mnt : Mnt) (n : Nat) : ((mnt.met n).map Prod.fst).Nodup := by
  induction n with
  | zero => exact List.nodup_nil
  | succ n ih =>
      rcases mnt.met_succ n with hSame | ⟨r, -, hNew, hMore⟩
      · rwa [hSame]
      · rw [hMore, List.map_cons]
        exact List.nodup_cons.mpr ⟨hNew, ih⟩

end

/-- After the slots before `n`, all of which could be passed. -/
structure Resend.Follows (s : Resend) (mnt : Mnt) (clock : Nat → UInt64) (n : Nat) : Prop where
  tbl : s.mnt.reqTbl = mnt.tblAfter (mnt.met n)
  xid : s.mnt.sendXid = mnt.sendXid + 11 * UInt32.ofNat (mnt.met n).length
  start : s.mnt.reqTscStart = mnt.reqTscStart
  fresh : ∀ req, req ∉ (mnt.met n).map Prod.fst → s.mnt.reqTscStop req = mnt.reqTscStop req
  stamped : ∀ req p, (req, p) ∈ mnt.met n → s.mnt.reqTscStop req = clock p
  sends : s.sends.map Prod.fst = ((mnt.met n).map Prod.fst).reverse
  xids : s.sends.map Prod.snd =
    (List.range s.sends.length).map fun k => mnt.sendXid + 11 * UInt32.ofNat k

/-- A request has been sent twice, or one in the table can no longer be told to
be in flight and has not been sent. -/
def Resend.Spoilt (s : Resend) (mnt : Mnt) : Prop :=
  ¬ (s.sends.map Prod.fst).Nodup ∨
    ∃ i < NCT_REQ_MAX, ∃ req, mnt.reqTbl i = some req ∧ req ∉ s.sends.map Prod.fst ∧
      ¬ s.mnt.reqTscStart req > s.mnt.reqTscStop req

section
variable {mnt : Mnt} {clock : Nat → UInt64} {complete : Nat → Bool} {n : Nat} {s s' : Resend}

/-- A pass that gets through finds a request, and sends it if it looks to be in flight. -/
theorem resendSlot_eq_ok (h : resendSlot clock complete n s = .ok s') :
    ∃ req, s.mnt.reqTbl n = some req ∧
      ((¬ s.mnt.reqTscStart req > s.mnt.reqTscStop req ∧ s' = s) ∨
        (s.mnt.reqTscStart req > s.mnt.reqTscStop req ∧ complete n = true ∧
          s'.mnt = reqSend (stampStop s.mnt req (clock n)) req ∧
          s'.sends = s.sends ++ [(req, s.mnt.sendXid)])) := by
  cases hTbl : s.mnt.reqTbl n with
  | none => simp [resendSlot, hTbl] at h
  | some req =>
      simp only [resendSlot, hTbl] at h
      split at h
      · next hStart =>
          split at h
          · next hComplete =>
              cases h
              exact ⟨req, rfl, Or.inr ⟨hStart, hComplete, rfl, rfl⟩⟩
          · cases h
      · next hStart =>
          cases h
          exact ⟨req, rfl, Or.inl ⟨hStart, rfl⟩⟩

/-- What has gone wrong stays wrong. -/
theorem Resend.Spoilt.next (h : s.Spoilt mnt) (hOk : resendSlot clock complete n s = .ok s') :
    s'.Spoilt mnt := by
  obtain ⟨r, -, ⟨-, rfl⟩ | ⟨hStart, -, hMnt, hSends⟩⟩ := resendSlot_eq_ok hOk
  · exact h
  · rw [Resend.Spoilt, hSends, List.map_append]
    rcases h with hTwice | ⟨i, hi, req, hReq, hUnsent, hStop⟩
    · exact Or.inl fun hNodup => hTwice (List.nodup_append.mp hNodup).1
    · have hOther : req ≠ r := by
        rintro rfl
        exact hStop hStart
      refine Or.inr ⟨i, hi, req, hReq, ?_, ?_⟩
      · simp [hUnsent, hOther]
      · rw [hMnt]
        simpa [reqSend, stampStop, Function.update_of_ne hOther] using hStop

/-- What has been sent again is what has been met. -/
theorem Resend.Follows.mem_sends (h : s.Follows mnt clock n) (req : ReqId) :
    req ∈ s.sends.map Prod.fst ↔ req ∈ (mnt.met n).map Prod.fst := by
  rw [h.sends, List.mem_reverse]

/-- A slot that can be passed is. -/
theorem Resend.Follows.next (h : s.Follows mnt clock n) (hGood : mnt.Passable clock complete n) :
    ∃ s', resendSlot clock complete n s = .ok s' ∧ s'.Follows mnt clock (n + 1) := by
  obtain ⟨req, hFound⟩ := Option.ne_none_iff_exists'.mp hGood.full
  have hTbl : s.mnt.reqTbl n = some req := by rw [h.tbl, hFound]
  by_cases hOld : req ∈ (mnt.met n).map Prod.fst
  · obtain ⟨p, hMem⟩ := Mnt.exists_met hOld
    have hSkip : ¬ s.mnt.reqTscStart req > s.mnt.reqTscStop req := by
      rw [h.start, h.stamped req p hMem]
      exact UInt64.not_lt.mpr (hGood.again req p hFound hMem)
    have hSame := Mnt.met_succ_of_old hFound hOld
    refine ⟨s, by simp [resendSlot, hTbl, hSkip], ?_⟩
    exact ⟨hSame ▸ h.tbl, hSame ▸ h.xid, h.start, hSame ▸ h.fresh, hSame ▸ h.stamped,
      hSame ▸ h.sends, h.xids⟩
  · obtain ⟨hStart, hComplete⟩ := hGood.first req hFound hOld
    have hMore := Mnt.met_succ_of_new hFound hOld
    have hSend : s.mnt.reqTscStart req > s.mnt.reqTscStop req := by
      rwa [h.start, h.fresh req hOld]
    have hOk : resendSlot clock complete n s = .ok
        { mnt := reqSend (stampStop s.mnt req (clock n)) req
          latencyCum := s.latencyCum + (clock n - s.mnt.reqTscStart req)
          sends := s.sends ++ [(req, s.mnt.sendXid)] } := by
      simp [resendSlot, hTbl, hSend, hComplete]
    have hCount : s.sends.length = (mnt.met n).length := by
      simpa using congrArg List.length h.sends
    refine ⟨_, hOk, ?_, ?_, h.start, fun r hr => ?_, fun r p hp => ?_, ?_, ?_⟩
    · rw [hMore]
      simp only [reqSend, stampStop, Mnt.tblAfter, Mnt.place, h.tbl, h.xid]
    · rw [hMore, List.length_cons, ← stride_succ, ← h.xid]
      rfl
    · rw [hMore, List.map_cons, List.mem_cons, not_or] at hr
      exact (Function.update_of_ne hr.1 _ _).trans (h.fresh r hr.2)
    · rw [hMore] at hp
      rcases List.mem_cons.mp hp with hNew | hEarlier
      · cases hNew
        exact Function.update_self _ _ _
      · have hNot : r ≠ req := fun he => hOld (he ▸ List.mem_map_of_mem hEarlier)
        exact (Function.update_of_ne hNot _ _).trans (h.stamped r p hEarlier)
    · rw [hMore, List.map_append, h.sends]
      simp
    · rw [List.map_append, List.length_append, h.xids]
      simp [List.range_succ, hCount, h.xid]

/-- A slot that cannot be passed stops the loop or spoils it. -/
theorem Resend.Follows.spoil (h : s.Follows mnt clock n) (hn : n < NCT_REQ_MAX)
    (hBad : ¬ mnt.Passable clock complete n) (hOk : resendSlot clock complete n s = .ok s') :
    s'.Spoilt mnt := by
  obtain ⟨req, hTbl, hPass⟩ := resendSlot_eq_ok hOk
  have hFound : mnt.tblAfter (mnt.met n) n = some req := by rw [← h.tbl, hTbl]
  by_cases hOld : req ∈ (mnt.met n).map Prod.fst
  · -- it is sent again
    have hLate : s.mnt.reqTscStart req > s.mnt.reqTscStop req := by
      by_contra hSkip
      refine hBad ⟨by simp [hFound], fun r hr hNew => ?_, fun r p hr hMem => ?_⟩
      all_goals obtain rfl := Option.some.inj (hFound.symm.trans hr)
      · exact absurd hOld hNew
      · rw [h.start, h.stamped _ p hMem] at hSkip
        exact UInt64.not_lt.mp hSkip
    rcases hPass with ⟨hSkip, -⟩ | ⟨-, -, -, hSends⟩
    · exact absurd hLate hSkip
    · left
      rw [hSends, List.map_append, List.nodup_append]
      exact fun hNodup =>
        hNodup.2.2 req ((h.mem_sends req).mpr hOld) req (List.mem_singleton_self _) rfl
  · rcases hPass with ⟨hSkip, rfl⟩ | ⟨hStart, hComplete, -, -⟩
    · -- it is passed over
      have hOwn := (Mnt.tblAfter_traced hFound).resolve_left hOld
      exact Or.inr ⟨n, hn, req, hOwn, fun hSent => hOld ((h.mem_sends req).mp hSent), hSkip⟩
    · rw [h.start, h.fresh req hOld] at hStart
      refine absurd ⟨by simp [hFound], fun r hr _ => ?_, fun r p hr hMem => ?_⟩ hBad
      all_goals obtain rfl := Option.some.inj (hFound.symm.trans hr)
      · exact ⟨hStart, hComplete⟩
      · exact absurd (List.mem_map_of_mem hMem) hOld

/-- When the loop ends, each request of the table has been sent just if each has been
met. -/
theorem Resend.Follows.resends (h : s.Follows mnt clock NCT_REQ_MAX) :
    s.Resends mnt ↔ ∀ i < NCT_REQ_MAX, ∀ req, mnt.reqTbl i = some req →
      req ∈ (mnt.met NCT_REQ_MAX).map Prod.fst := by
  constructor
  · intro hResends i hi req hReq
    exact (h.mem_sends req).mp ((hResends.all req).mpr ⟨i, hi, hReq⟩)
  · intro hReached
    refine ⟨?_, fun req => ⟨fun hSent => ?_, fun ⟨i, hi, hReq⟩ => ?_⟩, h.xids⟩
    · rw [h.sends, List.nodup_reverse]
      exact mnt.met_nodup _
    · obtain ⟨p, hMem⟩ := Mnt.exists_met ((h.mem_sends req).mp hSent)
      exact ⟨p, Mnt.of_mem_met hMem⟩
    · exact (h.mem_sends req).mpr (hReached i hi req hReq)

theorem Resend.Spoilt.not_resends (h : s.Spoilt mnt) : ¬ s.Resends mnt := by
  intro hResends
  rcases h with hTwice | ⟨i, hi, req, hReq, hUnsent, -⟩
  · exact hTwice hResends.once
  · exact hUnsent ((hResends.all req).mpr ⟨i, hi, hReq⟩)

end

/-- For every table, the loop does its work just if the table is workable. -/
theorem resendAll_workable (clock : Nat → UInt64) (complete : Nat → Bool) (mnt : Mnt)
    (latencyCum : UInt64) :
    (∃ s, resendAll clock complete mnt latencyCum = .ok s ∧ s.Resends mnt) ↔
      mnt.Workable clock complete := by
  let start : Resend := ⟨mnt, latencyCum, []⟩
  have hStart : start.Follows mnt clock 0 := by
    constructor <;> simp [start, Mnt.met, Mnt.tblAfter]
  have hGood : ∀ i < NCT_REQ_MAX, ∀ s : Resend, s.Follows mnt clock i →
      mnt.Passable clock complete i →
      ∃ s', resendSlot clock complete i s = .ok s' ∧ s'.Follows mnt clock (i + 1) :=
    fun i _ s hFollows hSlot => hFollows.next hSlot
  have hBad : ∀ i < NCT_REQ_MAX, ∀ s s' : Resend, s.Follows mnt clock i →
      ¬ mnt.Passable clock complete i → resendSlot clock complete i s = .ok s' →
      s'.Spoilt mnt :=
    fun i hi s s' hFollows hSlot hPass => hFollows.spoil hi hSlot hPass
  have hStays : ∀ i < NCT_REQ_MAX, ∀ s s' : Resend, s.Spoilt mnt →
      resendSlot clock complete i s = .ok s' → s'.Spoilt mnt :=
    fun i _ s s' hSpoilt hPass => hSpoilt.next hPass
  constructor
  · rintro ⟨s, hOk, hResends⟩
    have hAll : ∀ i < NCT_REQ_MAX, mnt.Passable clock complete i := by
      by_contra hNot
      have hSpoilt : s.Spoilt mnt := Scan.upTo_bad hStart hGood hBad hStays hNot hOk
      exact hSpoilt.not_resends hResends
    obtain ⟨s', hOk', hFollows⟩ := Scan.upTo_good hStart hGood hAll
    obtain rfl : s = s' := Except.ok.inj (hOk.symm.trans hOk')
    exact ⟨hAll, hFollows.resends.mp hResends⟩
  · rintro ⟨hAll, hReached⟩
    obtain ⟨s, hOk, hFollows⟩ := Scan.upTo_good hStart hGood hAll
    exact ⟨s, hOk, hFollows.resends.mpr hReached⟩

/-- The request of every occupied slot before `n` is met there first. -/
def Mnt.AllNew (mnt : Mnt) (n : Nat) : Prop :=
  ∀ p < n, ∀ req, mnt.reqTbl p = some req → mnt.met (p + 1) = (req, p) :: mnt.met p

section
variable {mnt : Mnt} {n : Nat}

/-- A request is in no more than one slot. -/
theorem Mnt.InSlots.slot_eq (h : mnt.InSlots) {i j : Nat} {req : ReqId}
    (hi : mnt.reqTbl i = some req) (hj : mnt.reqTbl j = some req) : i = j :=
  (h i req hi).symm.trans (h j req hj)

theorem Mnt.rank_succ_of_some {req : ReqId} (h : mnt.reqTbl n = some req) :
    mnt.rank (n + 1) = mnt.rank n + 1 := by
  simp [Mnt.rank, Nat.count_succ, h]

theorem Mnt.rank_succ_of_none (h : mnt.reqTbl n = none) : mnt.rank (n + 1) = mnt.rank n := by
  simp [Mnt.rank, Nat.count_succ, h]

/-- Requests from different slots are put in different slots. -/
theorem Mnt.resendTo_ne {p q : Nat} {req : ReqId} (hp : mnt.reqTbl p = some req) (hLt : p < q)
    (hMax : q < NCT_REQ_MAX) : mnt.resendTo p ≠ mnt.resendTo q := by
  have hRank : mnt.rank p < mnt.rank q := Nat.count_strict_mono (by simp [hp]) hLt
  have hLe : mnt.rank q ≤ q := Nat.count_le _
  rw [Mnt.resendTo, Mnt.resendTo, place_eq, place_eq]
  simp only [NCT_REQ_MAX] at hMax ⊢
  omega

/-- An empty slot is passed over. -/
theorem Mnt.met_succ_of_none (h : mnt.reqTbl n = none) : mnt.met (n + 1) = mnt.met n := by
  rcases mnt.met_succ n with hSame | ⟨req, hOwn, -, -⟩
  · exact hSame
  · rw [h] at hOwn
    cases hOwn

/-- What is met first in a slot is what the slot holds. -/
theorem Mnt.tblAfter_of_met {req : ReqId} (h : mnt.met (n + 1) = (req, n) :: mnt.met n) :
    mnt.tblAfter (mnt.met n) n = some req ∧ req ∉ (mnt.met n).map Prod.fst := by
  cases hTbl : mnt.tblAfter (mnt.met n) n with
  | none => simp [Mnt.met, hTbl] at h
  | some r =>
      by_cases hOld : r ∈ (mnt.met n).map Prod.fst
      · simp [Mnt.met_succ_of_old hTbl hOld] at h
      · rw [Mnt.met_succ_of_new hTbl hOld] at h
        cases h
        exact ⟨rfl, hOld⟩

theorem Mnt.met_of_mem {req : ReqId} {p : Nat} (h : (req, p) ∈ mnt.met n) :
    mnt.met (p + 1) = (req, p) :: mnt.met p := by
  induction n with
  | zero => cases h
  | succ n ih =>
      rcases mnt.met_succ n with hSame | ⟨r, -, -, hMore⟩
      · exact ih (hSame ▸ h)
      · have hMem := h
        rw [hMore] at hMem
        rcases List.mem_cons.mp hMem with hNew | hOld
        · cases hNew
          exact hMore
        · exact ih hOld

theorem Mnt.AllNew.before (h : mnt.AllNew (n + 1)) : mnt.AllNew n :=
  fun p hp => h p (Nat.lt_succ_of_lt hp)

/-- If all requests so far were met where they were at first, they are as many as the
slots that were taken. -/
theorem Mnt.AllNew.length (h : mnt.AllNew n) : (mnt.met n).length = mnt.rank n := by
  induction n with
  | zero => rfl
  | succ n ih =>
      cases hTbl : mnt.reqTbl n with
      | none => rw [Mnt.met_succ_of_none hTbl, Mnt.rank_succ_of_none hTbl, ih h.before]
      | some req =>
          rw [h n (Nat.lt_succ_self n) req hTbl, List.length_cons, Mnt.rank_succ_of_some hTbl,
            ih h.before]

/-- If all requests so far were met where they were at first, each has been met at its
own slot. -/
theorem Mnt.AllNew.mem (h : mnt.AllNew n) {p : Nat} {req : ReqId} (hp : p < n)
    (hReq : mnt.reqTbl p = some req) : (req, p) ∈ mnt.met n := by
  induction n with
  | zero => exact absurd hp (Nat.not_lt_zero p)
  | succ n ih =>
      rcases Nat.lt_succ_iff_lt_or_eq.mp hp with hLt | rfl
      · rcases mnt.met_succ n with hSame | ⟨r, -, -, hMore⟩
        · rw [hSame]
          exact ih h.before hLt
        · rw [hMore]
          exact List.mem_cons_of_mem _ (ih h.before hLt)
      · rw [h p hp req hReq]
        exact List.mem_cons_self ..

/-- The slots that the requests before `n` are put in, and what is left of the rest. -/
theorem Mnt.AllNew.table (h : mnt.AllNew n) (hMax : n ≤ NCT_REQ_MAX) :
    (∀ p < n, ∀ req, mnt.reqTbl p = some req →
      mnt.tblAfter (mnt.met n) (mnt.resendTo p) = some req) ∧
    ∀ i, (∀ p < n, (mnt.reqTbl p).isSome → mnt.resendTo p ≠ i) →
      mnt.tblAfter (mnt.met n) i = mnt.reqTbl i := by
  induction n with
  | zero => exact ⟨fun p hp => absurd hp (Nat.not_lt_zero p), fun _ _ => rfl⟩
  | succ n ih =>
      obtain ⟨hMoved, hKept⟩ := ih h.before (Nat.le_of_succ_le hMax)
      have hHere := Nat.lt_succ_self n
      cases hTbl : mnt.reqTbl n with
      | none =>
          rw [Mnt.met_succ_of_none hTbl]
          refine ⟨fun p hp req hReq => hMoved p ?_ req hReq, fun i hFree => hKept i fun p hp => ?_⟩
          · apply lt_of_le_of_ne (Nat.le_of_lt_succ hp)
            rintro rfl
            rw [hTbl] at hReq
            cases hReq
          · exact hFree p (Nat.lt_succ_of_lt hp)
      | some own =>
          have hPlace : mnt.place (mnt.met n).length = mnt.resendTo n := by
            rw [h.before.length, Mnt.resendTo]
          rw [h n hHere own hTbl]
          simp only [Mnt.tblAfter, hPlace]
          refine ⟨fun p hp req hReq => ?_, fun i hFree => ?_⟩
          · rcases Nat.lt_succ_iff_lt_or_eq.mp hp with hLt | rfl
            · exact (Function.update_of_ne (Mnt.resendTo_ne hReq hLt hMax) _ _).trans
                (hMoved p hLt req hReq)
            · rw [Function.update_self, ← hReq, hTbl]
          · have hNot : i ≠ mnt.resendTo n := Ne.symm (hFree n hHere (by simp [hTbl]))
            exact (Function.update_of_ne hNot _ _).trans
              (hKept i fun p hp => hFree p (Nat.lt_succ_of_lt hp))

/-- While all have been met in their own slots, a slot can be resent just if it
can be passed and its request is met there first too. -/
theorem Mnt.AllNew.resendable_iff (h : mnt.AllNew n) (hSlots : mnt.InSlots) (hn : n < NCT_REQ_MAX)
    (clock : Nat → UInt64) (complete : Nat → Bool) :
    mnt.Resendable clock complete n ↔ mnt.Passable clock complete n ∧ mnt.AllNew (n + 1) := by
  obtain ⟨hMoved, hKept⟩ := h.table hn.le
  have hNew : mnt.AllNew (n + 1) ↔
      ∀ req, mnt.reqTbl n = some req → mnt.met (n + 1) = (req, n) :: mnt.met n := by
    refine ⟨fun hAll => hAll n (Nat.lt_succ_self n), fun hHere p hp => ?_⟩
    rcases Nat.lt_succ_iff_lt_or_eq.mp hp with hLt | rfl
    · exact h p hLt
    · exact hHere
  rw [hNew]
  constructor
  · intro hSlot
    cases hTbl : mnt.reqTbl n with
    | none =>
        obtain ⟨p, hp, hSome, hTo⟩ := hSlot.empty.mp hTbl
        obtain ⟨req, hReq⟩ := Option.isSome_iff_exists.mp hSome
        have hFound : mnt.tblAfter (mnt.met n) n = some req := hTo ▸ hMoved p hp req hReq
        refine ⟨⟨by simp [hFound], fun r hr hUnmet => ?_, fun r q hr hMem => ?_⟩, by simp⟩
        all_goals obtain rfl := Option.some.inj (hFound.symm.trans hr)
        · exact absurd (List.mem_map_of_mem (h.mem hp hReq)) hUnmet
        · obtain rfl := hSlots.slot_eq hReq (Mnt.of_mem_met hMem).2
          exact hSlot.moved p hp _ hReq hTo
    | some own =>
        have hFound : mnt.tblAfter (mnt.met n) n = some own := by
          refine (hKept n fun p hp hSome hTo => ?_).trans hTbl
          rw [hSlot.empty.mpr ⟨p, hp, hSome, hTo⟩] at hTbl
          cases hTbl
        have hUnmet : own ∉ (mnt.met n).map Prod.fst := fun hMem => by
          obtain ⟨p, hp⟩ := Mnt.exists_met hMem
          obtain ⟨hLt, hReq⟩ := Mnt.of_mem_met hp
          exact Nat.ne_of_lt hLt (hSlots.slot_eq hReq hTbl)
        refine ⟨⟨by simp [hFound], fun r hr _ => ?_, fun r p hr hMem => ?_⟩, fun r hr => ?_⟩
        · obtain rfl := Option.some.inj (hFound.symm.trans hr)
          exact hSlot.own _ hTbl
        · obtain rfl := Option.some.inj (hFound.symm.trans hr)
          exact absurd (List.mem_map_of_mem hMem) hUnmet
        · cases hr
          exact Mnt.met_succ_of_new hFound hUnmet
  · rintro ⟨hPass, hFirst⟩
    refine ⟨⟨fun hTbl => ?_, fun ⟨p, hp, hSome, hTo⟩ => ?_⟩, fun p hp req hReq hTo => ?_,
      fun req hReq => ?_⟩
    · by_contra hNone
      refine hPass.full ((hKept n fun p hp hSome hTo => ?_).trans hTbl)
      exact hNone ⟨p, hp, hSome, hTo⟩
    · obtain ⟨req, hReq⟩ := Option.isSome_iff_exists.mp hSome
      have hFound : mnt.tblAfter (mnt.met n) n = some req := hTo ▸ hMoved p hp req hReq
      -- the slot's own request would be lost
      by_contra hTbl
      obtain ⟨own, hOwn⟩ := Option.ne_none_iff_exists'.mp hTbl
      have hSame := Mnt.met_succ_of_old hFound (List.mem_map_of_mem (h.mem hp hReq))
      simp [hFirst own hOwn] at hSame
    · exact hPass.again req p (hTo ▸ hMoved p hp req hReq) (h.mem hp hReq)
    · obtain ⟨hFound, hUnmet⟩ := Mnt.tblAfter_of_met (hFirst req hReq)
      exact hPass.first req hFound hUnmet

/-- In a table of requests in their slots, each is met in its own. -/
theorem Mnt.Workable.allNew {clock : Nat → UInt64} {complete : Nat → Bool}
    (h : mnt.Workable clock complete) (hSlots : mnt.InSlots) : mnt.AllNew NCT_REQ_MAX := by
  intro p hp req hReq
  obtain ⟨q, hMem⟩ := Mnt.exists_met (h.reached p hp req hReq)
  obtain rfl := hSlots.slot_eq hReq (Mnt.of_mem_met hMem).2
  exact Mnt.met_of_mem hMem

/-- For a table with each request in the slot of its xid, the conditions go slot by
slot. -/
theorem Mnt.InSlots.workable_iff (hSlots : mnt.InSlots) (clock : Nat → UInt64)
    (complete : Nat → Bool) :
    mnt.Workable clock complete ↔ ∀ i < NCT_REQ_MAX, mnt.Resendable clock complete i := by
  constructor
  · intro h i hi
    have hNew := h.allNew hSlots
    have hBefore {j : Nat} (hj : j ≤ NCT_REQ_MAX) : mnt.AllNew j :=
      fun p hp => hNew p (hp.trans_le hj)
    exact ((hBefore hi.le).resendable_iff hSlots hi clock complete).mpr
      ⟨h.passable i hi, hBefore hi⟩
  · intro hAll
    have hNew : ∀ j ≤ NCT_REQ_MAX, mnt.AllNew j := by
      intro j
      induction j with
      | zero => exact fun _ p hp => absurd hp (Nat.not_lt_zero p)
      | succ j ih =>
          intro hj
          exact (((ih (Nat.le_of_succ_le hj)).resendable_iff hSlots hj clock complete).mp
            (hAll j hj)).2
    refine ⟨fun i hi => ?_, fun i hi req hReq => ?_⟩
    · exact (((hNew i hi.le).resendable_iff hSlots hi clock complete).mp (hAll i hi)).1
    · exact List.mem_map_of_mem ((hNew NCT_REQ_MAX le_rfl).mem hi hReq)

end

/-- The loop gets through and sends each request in the table once, and nothing
else, just if the table is workable; where each request is in the slot of its
xid, just if every slot can be resent. -/
theorem resendAll_iff (clock : Nat → UInt64) (complete : Nat → Bool) (mnt : Mnt)
    (latencyCum : UInt64) :
    ((∃ s, resendAll clock complete mnt latencyCum = .ok s ∧ s.Resends mnt) ↔
      mnt.Workable clock complete) ∧
    (mnt.InSlots → ((∃ s, resendAll clock complete mnt latencyCum = .ok s ∧ s.Resends mnt) ↔
      ∀ i < NCT_REQ_MAX, mnt.Resendable clock complete i)) := by
  have hWorkable := resendAll_workable clock complete mnt latencyCum
  exact ⟨hWorkable, fun hSlots => hWorkable.trans (hSlots.workable_iff clock complete)⟩

/-- How many of the first `n` slots are occupied in a table that has a request in
every slot but those where one from an earlier slot is put. -/
def seats (place : Nat → Nat) : Nat → Nat
  | 0 => 0
  | n + 1 => if ∃ k < seats place n, place k = n then seats place n else seats place n + 1

/-- The state with such a table. -/
def Mnt.seated (mnt : Mnt) : Mnt :=
  { mnt with
    reqTbl := fun i =>
      if h : i < NCT_REQ_MAX then
        if ∃ k < seats mnt.place i, mnt.place k = i then none else some ⟨i, h⟩
      else none }

/-- Every number below the count of taken slots is the number of such a slot. -/
theorem Mnt.exists_rank {mnt : Mnt} {n k : Nat} (h : k < mnt.rank n) :
    ∃ p < n, (mnt.reqTbl p).isSome ∧ mnt.rank p = k := by
  induction n with
  | zero => simp [Mnt.rank] at h
  | succ n ih =>
      cases hTbl : mnt.reqTbl n with
      | none =>
          rw [Mnt.rank_succ_of_none hTbl] at h
          obtain ⟨p, hp, hSome⟩ := ih h
          exact ⟨p, Nat.lt_succ_of_lt hp, hSome⟩
      | some req =>
          rw [Mnt.rank_succ_of_some hTbl] at h
          rcases Nat.lt_succ_iff_lt_or_eq.mp h with hLt | hLast
          · obtain ⟨p, hp, hSome⟩ := ih hLt
            exact ⟨p, Nat.lt_succ_of_lt hp, hSome⟩
          · exact ⟨n, Nat.lt_succ_self n, by simp [hTbl], hLast.symm⟩

/-- A slot that is taken is counted from the next one on. -/
theorem Mnt.rank_lt {mnt : Mnt} {p n : Nat} (hp : p < n) (hSome : (mnt.reqTbl p).isSome) :
    mnt.rank p < mnt.rank n := Nat.count_strict_mono hSome hp

section
variable (mnt : Mnt)

/-- A slot is left empty just if a resend from an earlier one goes there. -/
theorem Mnt.seated_none {i : Nat} (hi : i < NCT_REQ_MAX) :
    mnt.seated.reqTbl i = none ↔ ∃ k < seats mnt.place i, mnt.place k = i := by
  simp [Mnt.seated, hi]

theorem Mnt.seated_rank {n : Nat} (hn : n ≤ NCT_REQ_MAX) :
    mnt.seated.rank n = seats mnt.place n := by
  induction n with
  | zero => rfl
  | succ n ih =>
      rw [seats, ← ih (Nat.le_of_succ_le hn)]
      cases hTbl : mnt.seated.reqTbl n with
      | none =>
          have hTaken := (mnt.seated_none hn).mp hTbl
          rw [← ih (Nat.le_of_succ_le hn)] at hTaken
          rw [if_pos hTaken, Mnt.rank_succ_of_none hTbl]
      | some req =>
          have hFree := mt (mnt.seated_none hn).mpr (by simp [hTbl])
          rw [← ih (Nat.le_of_succ_le hn)] at hFree
          rw [if_neg hFree, Mnt.rank_succ_of_some hTbl]

/-- Whatever the next xid, such a table can be resent. -/
theorem Mnt.seated_resendable {clock : Nat → UInt64}
    (hStart : ∀ req, mnt.reqTscStart req > mnt.reqTscStop req)
    (hClock : ∀ i req, mnt.reqTscStart req ≤ clock i) (i : Nat) (hi : i < NCT_REQ_MAX) :
    mnt.seated.Resendable clock (fun _ => true) i where
  empty := by
    rw [mnt.seated_none hi, ← mnt.seated_rank hi.le]
    constructor
    · rintro ⟨k, hk, hPlace⟩
      obtain ⟨p, hp, hSome, rfl⟩ := Mnt.exists_rank hk
      exact ⟨p, hp, hSome, hPlace⟩
    · rintro ⟨p, hp, hSome, hTo⟩
      exact ⟨mnt.seated.rank p, Mnt.rank_lt hp hSome, hTo⟩
  moved p _ req _ _ := hClock p req
  own req _ := ⟨hStart req, rfl⟩

end

/-- Of a table with the first two requests and many more in flight, the loop sends all. -/
theorem resendAll_iff_seated :
    let mnt : Mnt := { Mnt.zero with
      reqXid := fun req => UInt32.ofNat req.val
      reqTscStart := fun _ => 1 }.seated
    (mnt.reqTbl 0).isSome ∧ (mnt.reqTbl 1).isSome ∧
      ∃ s, resendAll (fun _ => 2) (fun _ => true) mnt 0 = .ok s ∧ s.Resends mnt := by
  intro mnt
  have hSlots : mnt.InSlots := by
    intro i req hReq
    simp only [mnt, Mnt.seated, Option.dite_none_right_eq_some, Option.ite_none_left_eq_some,
      Option.some.injEq] at hReq
    obtain ⟨hi, -, rfl⟩ := hReq
    simp only [mnt, Mnt.seated, slot, UInt32.toNat_ofNat', NCT_REQ_MAX] at hi ⊢
    omega
  refine ⟨by decide, by decide, ?_⟩
  rw [(resendAll_iff (fun _ => 2) (fun _ => true) mnt 0).2 hSlots]
  have hStart : (1 : UInt64) > 0 := by decide
  have hClock : (1 : UInt64) ≤ 2 := by decide
  exact Mnt.seated_resendable _ (fun _ => hStart) fun _ _ => hClock

/-- With slot 0 empty, the first pass ends the program. -/
theorem resendAll_nullSlot {clock : Nat → UInt64} {complete : Nat → Bool} {mnt : Mnt}
    {latencyCum : UInt64} (h : mnt.reqTbl 0 = none) :
    resendAll clock complete mnt latencyCum = .error .nullSlot := by
  have hFirst : Scan.upTo (resendSlot clock complete) ⟨mnt, latencyCum, []⟩ 1 = .error .nullSlot := by
    simp [Scan.upTo, resendSlot, h]
  exact Scan.upTo_error_of_le hFirst (by decide)

/-- The only job's request is in flight in slot 11 when the connection is lost,
and the loop dereferences slot 0. -/
theorem resendAll_sentSteps :
    ¬ ∀ (cfg : Cfg) (s : Sys) (clock : Nat → UInt64) (complete : Nat → Bool),
      Run (step cfg) (fun _ _ => True) Sys.boot s → s.pc (.recv 0) = .idle →
      (∀ i, complete i = true) → (∀ i req, s.mnt.reqTscStart req ≤ clock i) →
      ∃ out, resendAll clock complete s.mnt 0 = .ok out ∧ out.Resends s.mnt := by
  intro h
  obtain ⟨s, hRun, hIdle, hEmpty⟩ : ∃ s, Run (step (oneThread .null 1)) (fun _ _ => True) Sys.boot s ∧
      s.pc (.recv 0) = .idle ∧ s.mnt.reqTbl 0 = none :=
    Run.of_exec_any sentSteps (by decide +kernel)
  have hLatest (x : UInt64) : x ≤ 0 - 1 := by
    have hMax : (0 - 1 : UInt64).toNat = 18446744073709551615 := rfl
    have hLt := x.toNat_lt
    rw [UInt64.le_iff_toNat_le, hMax]
    omega
  obtain ⟨out, hOut, -⟩ := h (oneThread .null 1) s (fun _ => 0 - 1) (fun _ => true) hRun hIdle
    (fun _ => rfl) (fun i req => hLatest _)
  rw [resendAll_nullSlot hEmpty] at hOut
  cases hOut

end Nct
