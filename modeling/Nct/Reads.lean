import Nct.Call
import Nct.System

/-! The offsets of the READs, when one start function runs after another and
then one callback after another. -/
namespace Nct

structure ReadPriv where
  prOffset : UInt64
  prLength : UInt64
  prDuration : Int32

/-- `test_read_init` from its arguments on; `none` for its abort. -/
def testReadInit (lib : Tirpc) (length : UInt64) (duration : Int32) : Option ReadPriv :=
  if length < 512 ∨ length.toNat > NCT_MSGSZ_MAX lib then none else some ⟨0, length, duration⟩

/-- The operations of a plan, up to one that makes a start function return
EINVAL. -/
def Sys.prepareAll (cfg : Cfg) (req : ReqId) (now : UInt64) :
    List Prep → Sys → Local → Except Sys (Sys × Local)
  | [], s, l => .ok (s, l)
  | p :: prep, s, l =>
      match s.prepare cfg req l now p with
      | none => .error s
      | some (s, l) => prepareAll cfg req now prep s l

/-- A plan with no other thread in between, and the offset of the READ that it
sends. -/
def Sys.carryOut (cfg : Cfg) (fn : Fn) (req : ReqId) (now : UInt64) (plan : Plan) (s : Sys) :
    Sys × Option UInt64 :=
  match Sys.prepareAll cfg req now plan.prep s ⟨0, 0⟩ with
  | .error s => ({ s with refused := s.refused + 1 }, none)
  | .ok (s, l) =>
      match plan.give with
      | .free => (s.free req, none)
      | .send => (s.send fn req true, some l.offset)

/-- What a start function or callback is called with: its request, the time, and
the mount with the replies that have come. -/
structure ReadCall where
  req : ReqId
  now : UInt64
  mnt : Mnt

/-- One call. The file's size stays as it is. -/
def Sys.readCall (cfg : Cfg) (fn : Fn) (s : Sys) (call : ReadCall) : Sys × Option UInt64 :=
  let s := { s with mnt := { call.mnt with fattrSize := s.mnt.fattrSize } }
  let plan := if fn = .start then testReadStart else testReadCb s.mnt call.req
  s.carryOut cfg fn call.req call.now plan

/-- One call after another, with the offsets of the READs that they send. -/
def Sys.readCalls (cfg : Cfg) (fn : Fn) : Sys → List ReadCall → Sys × List UInt64
  | s, [] => (s, [])
  | s, call :: calls =>
      let here := s.readCall cfg fn call
      let later := readCalls cfg fn here.1 calls
      (later.1, here.2.toList ++ later.2)

/-- The callback will send its request again: the reply is a success, and it has
come before the end of the test. -/
def ReadCall.Again (call : ReadCall) : Prop :=
  call.mnt.msgStat (call.mnt.reqMsg call.req) = RPC_SUCCESS ∧
    call.mnt.reqTscStop call.req < call.mnt.reqTscFinish call.req

instance (call : ReadCall) : Decidable call.Again := inferInstanceAs (Decidable (_ ∧ _))

/-- The READs go through a file of that size from its start, by blocks of that
length, again and again. -/
def Sequential (size length : Nat) (offsets : List UInt64) : Prop :=
  (∀ offset ∈ offsets, offset.toNat + length ≤ size) ∧
    offsets.map UInt64.toNat =
      (List.range offsets.length).map fun i => i % (size / length) * length

section
variable {cfg : Cfg} {fn : Fn} {s : Sys} {call : ReadCall}

/-- What the offset and the file's size are after a call, and what was read. -/
def outcome (r : Sys × Option UInt64) : UInt64 × UInt64 × Option UInt64 :=
  (r.1.prOffset, r.1.mnt.fattrSize, r.2)

theorem readCall_start (cfg : Cfg) (s : Sys) (call : ReadCall) :
    outcome (s.readCall cfg .start call) =
      (s.prOffset + cfg.prLength, s.mnt.fattrSize,
        if s.pastEnd cfg s.prOffset then none else some s.prOffset) := by
  by_cases hPast : s.pastEnd cfg s.prOffset <;> unfold Sys.pastEnd at hPast <;>
    simp [outcome, Sys.readCall, Sys.carryOut, Sys.prepareAll, testReadStart, Sys.prepare,
      Sys.pastEnd, Sys.send, reqSend, hPast]

/-- A callback that ends its job reads nothing. -/
theorem readCall_end (cfg : Cfg) (s : Sys) (h : ¬ call.Again) :
    outcome (s.readCall cfg .callback call) = (s.prOffset, s.mnt.fattrSize, none) := by
  unfold ReadCall.Again at h
  by_cases hStat : call.mnt.msgStat (call.mnt.reqMsg call.req) = RPC_SUCCESS
  · have hLate : call.mnt.reqTscFinish call.req ≤ call.mnt.reqTscStop call.req := by
      simpa [hStat] using h
    simp [outcome, Sys.readCall, Sys.carryOut, Sys.prepareAll, testReadCb, hStat, hLate, Sys.free,
      reqFree]
  · simp [outcome, Sys.readCall, Sys.carryOut, Sys.prepareAll, testReadCb, hStat, Sys.free,
      reqFree]

/-- What is read past the end of the file is what `__sync_fetch_and_sub` gives:
the offset before it is set to zero. -/
theorem readCall_again (cfg : Cfg) (s : Sys) (h : call.Again) :
    outcome (s.readCall cfg .callback call) =
      if s.pastEnd cfg s.prOffset then (0, s.mnt.fattrSize, some (s.prOffset + cfg.prLength))
      else (s.prOffset + cfg.prLength, s.mnt.fattrSize, some s.prOffset) := by
  obtain ⟨hStat, hTime⟩ := h
  have hNotLate : ¬ call.mnt.reqTscFinish call.req ≤ call.mnt.reqTscStop call.req :=
    UInt64.not_le.mpr hTime
  by_cases hPast : s.pastEnd cfg s.prOffset <;> unfold Sys.pastEnd at hPast <;>
    simp [outcome, Sys.readCall, Sys.carryOut, Sys.prepareAll, testReadCb, Sys.prepare,
      Sys.pastEnd, Sys.send, reqSend, hPast, hStat, hNotLate]

/-- The read at the offset would end past the end of the file from the last
whole block on. -/
theorem pastEnd_iff {m : Nat} (hPos : 0 < cfg.prLength.toNat)
    (hOffset : s.prOffset.toNat = m * cfg.prLength.toNat)
    (hRoom : m * cfg.prLength.toNat + cfg.prLength.toNat < 2 ^ 64) :
    s.pastEnd cfg s.prOffset = true ↔ s.mnt.fattrSize.toNat / cfg.prLength.toNat ≤ m := by
  have hSum : (s.prOffset + cfg.prLength).toNat = (m + 1) * cfg.prLength.toNat := by
    rw [UInt64.toNat_add, hOffset, Nat.mod_eq_of_lt hRoom, Nat.add_one_mul]
  rw [Sys.pastEnd, decide_eq_true_iff, gt_iff_lt, UInt64.lt_iff_toNat_lt, hSum,
    ← Nat.div_lt_iff_lt_mul hPos, Nat.lt_add_one_iff]

/-- The start functions read block after block of the file, and go on adding
when none is left. -/
theorem readCalls_start {m : Nat} {calls : List ReadCall} (hPos : 0 < cfg.prLength.toNat)
    (hOffset : s.prOffset.toNat = m * cfg.prLength.toNat)
    (hRoom : (m + calls.length) * cfg.prLength.toNat < 2 ^ 64) :
    (s.readCalls cfg .start calls).1.prOffset.toNat = (m + calls.length) * cfg.prLength.toNat ∧
      (s.readCalls cfg .start calls).1.mnt.fattrSize = s.mnt.fattrSize ∧
      (s.readCalls cfg .start calls).2.map UInt64.toNat =
        (List.range' m (min calls.length (s.mnt.fattrSize.toNat / cfg.prLength.toNat - m))).map
          (· * cfg.prLength.toNat) := by
  induction calls generalizing s m with
  | nil => simpa [Sys.readCalls] using hOffset
  | cons call calls ih =>
      have hLast : (m + 1 + calls.length) * cfg.prLength.toNat < 2 ^ 64 := by
        rwa [List.length_cons, Nat.add_comm calls.length, ← Nat.add_assoc] at hRoom
      have hNext : m * cfg.prLength.toNat + cfg.prLength.toNat < 2 ^ 64 := by
        rw [← Nat.add_one_mul]
        exact lt_of_le_of_lt (Nat.mul_le_mul_right _ (Nat.le_add_right ..)) hLast
      obtain ⟨hOff, hSize, hRead⟩ : _ ∧ _ ∧ _ := by
        simpa only [outcome, Prod.mk.injEq] using readCall_start cfg s call
      simp only [Sys.readCalls]
      generalize s.readCall cfg .start call = here at hOff hSize hRead
      have hOffset' : here.1.prOffset.toNat = (m + 1) * cfg.prLength.toNat := by
        rw [hOff, UInt64.toNat_add, hOffset, Nat.mod_eq_of_lt hNext, Nat.add_one_mul]
      obtain ⟨ihOff, ihSize, ihRead⟩ := ih hOffset' hLast
      refine ⟨?_, ihSize.trans hSize, ?_⟩
      · rw [ihOff, List.length_cons, Nat.add_right_comm, Nat.add_assoc]
      · rw [List.map_append, ihRead, hSize, hRead, List.length_cons]
        have hPastIff := pastEnd_iff hPos hOffset hNext
        by_cases hPast : s.pastEnd cfg s.prOffset
        · have hNone := hPastIff.mp hPast
          rw [if_pos hPast, Nat.sub_eq_zero_of_le hNone,
            Nat.sub_eq_zero_of_le (hNone.trans (Nat.le_add_right ..))]
          simp
        · have hSome := not_le.mp (hPastIff.not.mp hPast)
          have hMin : min (calls.length + 1) (s.mnt.fattrSize.toNat / cfg.prLength.toNat - m) =
              min calls.length (s.mnt.fattrSize.toNat / cfg.prLength.toNat - (m + 1)) + 1 := by
            omega
          rw [if_neg hPast, hMin, List.range'_succ]
          simp [hOffset]

/-- Callbacks that stay within the file's blocks read one after another. -/
theorem readCalls_within {m : Nat} {calls : List ReadCall} (hPos : 0 < cfg.prLength.toNat)
    (hOffset : s.prOffset.toNat = m * cfg.prLength.toNat)
    (hWithin : calls.countP (·.Again) = 0 ∨
      m + calls.countP (·.Again) ≤ s.mnt.fattrSize.toNat / cfg.prLength.toNat) :
    (s.readCalls cfg .callback calls).2.map UInt64.toNat =
      (List.range' m (calls.countP (·.Again))).map (· * cfg.prLength.toNat) := by
  induction calls generalizing s m with
  | nil => rfl
  | cons call calls ih =>
      simp only [Sys.readCalls]
      by_cases hAgain : call.Again
      · rw [List.countP_cons_of_pos (by simpa using hAgain)] at hWithin ⊢
        have hBlock : m + 1 ≤ s.mnt.fattrSize.toNat / cfg.prLength.toNat := by omega
        have hEnd : m * cfg.prLength.toNat + cfg.prLength.toNat < 2 ^ 64 := by
          rw [← Nat.add_one_mul]
          exact lt_of_le_of_lt ((Nat.le_div_iff_mul_le hPos).mp hBlock) (UInt64.toNat_lt _)
        have hNotPast : ¬ s.pastEnd cfg s.prOffset = true :=
          (pastEnd_iff hPos hOffset hEnd).not.mpr (by omega)
        obtain ⟨hOff, hSize, hRead⟩ : _ ∧ _ ∧ _ := by
          simpa only [outcome, if_neg hNotPast, Prod.mk.injEq] using
            readCall_again cfg s hAgain
        generalize s.readCall cfg .callback call = here at hOff hSize hRead
        have hOffset' : here.1.prOffset.toNat = (m + 1) * cfg.prLength.toNat := by
          rw [hOff, UInt64.toNat_add, hOffset, Nat.mod_eq_of_lt hEnd, Nat.add_one_mul]
        rw [hRead, List.range'_succ, List.map_append, ih hOffset' (hSize ▸ by omega)]
        simp [hOffset]
      · obtain ⟨hOff, hSize, hRead⟩ : _ ∧ _ ∧ _ := by
          simpa only [outcome, Prod.mk.injEq] using readCall_end cfg s hAgain
        generalize s.readCall cfg .callback call = here at hOff hSize hRead
        rw [List.countP_cons_of_neg (by simpa using hAgain)] at hWithin ⊢
        rw [hRead, Option.toList_none, List.nil_append]
        exact ih (hOff ▸ hOffset) (hSize ▸ hWithin)

/-- A callback that finds no whole block left reads past the end of the file. -/
theorem readCalls_past {m : Nat} {calls : List ReadCall} (hPos : 0 < cfg.prLength.toNat)
    (hOffset : s.prOffset.toNat = m * cfg.prLength.toNat) (hSome : 0 < calls.countP (·.Again))
    (hPast : s.mnt.fattrSize.toNat / cfg.prLength.toNat < m + calls.countP (·.Again)) :
    ∃ offset ∈ (s.readCalls cfg .callback calls).2,
      s.mnt.fattrSize.toNat < offset.toNat + cfg.prLength.toNat := by
  induction calls generalizing s m with
  | nil => exact absurd hSome (Nat.lt_irrefl 0)
  | cons call calls ih =>
      simp only [Sys.readCalls]
      by_cases hAgain : call.Again
      · rw [List.countP_cons_of_pos (by simpa using hAgain)] at hPast
        have hHere := readCall_again cfg s hAgain
        by_cases hBlock : m + 1 ≤ s.mnt.fattrSize.toNat / cfg.prLength.toNat
        · have hEnd : m * cfg.prLength.toNat + cfg.prLength.toNat < 2 ^ 64 := by
            rw [← Nat.add_one_mul]
            exact lt_of_le_of_lt ((Nat.le_div_iff_mul_le hPos).mp hBlock) (UInt64.toNat_lt _)
          have hNotPast : ¬ s.pastEnd cfg s.prOffset = true :=
            (pastEnd_iff hPos hOffset hEnd).not.mpr (by omega)
          obtain ⟨hOff, hSize, -⟩ : _ ∧ _ ∧ _ := by
            simpa only [outcome, if_neg hNotPast, Prod.mk.injEq] using hHere
          generalize s.readCall cfg .callback call = here at hOff hSize
          have hOffset' : here.1.prOffset.toNat = (m + 1) * cfg.prLength.toNat := by
            rw [hOff, UInt64.toNat_add, hOffset, Nat.mod_eq_of_lt hEnd, Nat.add_one_mul]
          obtain ⟨offset, hMem, hLong⟩ :=
            ih hOffset' (by omega) (by rw [hSize]; omega)
          exact ⟨offset, List.mem_append_right _ hMem, hSize ▸ hLong⟩
        · have hNone : s.mnt.fattrSize.toNat < (m + 1) * cfg.prLength.toNat :=
            (Nat.div_lt_iff_lt_mul hPos).mp (by omega)
          by_cases hPastEnd : s.pastEnd cfg s.prOffset = true
          · -- the sum may have wrapped, but then the test would not have found it too large
            have hLong : s.mnt.fattrSize.toNat < (s.prOffset + cfg.prLength).toNat :=
              UInt64.lt_iff_toNat_lt.mp (of_decide_eq_true hPastEnd)
            have hRead : (s.readCall cfg .callback call).2 = some (s.prOffset + cfg.prLength) := by
              simpa only [outcome, if_pos hPastEnd] using congrArg (·.2.2) hHere
            exact ⟨s.prOffset + cfg.prLength, by simp [hRead], by omega⟩
          · have hRead : (s.readCall cfg .callback call).2 = some s.prOffset := by
              simpa only [outcome, if_neg hPastEnd] using congrArg (·.2.2) hHere
            exact ⟨s.prOffset, by simp [hRead], by rwa [hOffset, ← Nat.add_one_mul]⟩
      · obtain ⟨hOff, hSize, hRead⟩ : _ ∧ _ ∧ _ := by
          simpa only [outcome, Prod.mk.injEq] using readCall_end cfg s hAgain
        generalize s.readCall cfg .callback call = here at hOff hSize hRead
        rw [List.countP_cons_of_neg (by simpa using hAgain)] at hSome hPast
        rw [hRead, Option.toList_none, List.nil_append, ← hSize]
        exact ih (hOff ▸ hOffset) hSome (hSize ▸ hPast)

end

theorem testReadInit_eq_some {lib : Tirpc} {length : UInt64} {duration : Int32} {priv : ReadPriv}
    (h : testReadInit lib length duration = some priv) :
    512 ≤ priv.prLength.toNat ∧ priv.prLength.toNat ≤ 2 ^ 18 ∧ priv.prOffset = 0 := by
  unfold testReadInit NCT_MSGSZ_MAX at h
  split at h
  · cases h
  · next hNot =>
      cases h
      obtain ⟨hLarge, hSmall⟩ := not_or.mp hNot
      have hMax : length.toNat ≤ 2 ^ 18 := by omega
      exact ⟨UInt64.le_iff_toNat_le.mp (UInt64.not_lt.mp hLarge), hMax, rfl⟩

/-- The first blocks of the file in order are a sequential read. -/
theorem Sequential.of_blocks {size length n : Nat} {offsets : List UInt64} (hPos : 0 < length)
    (hBlocks : offsets.map UInt64.toNat = (List.range n).map (· * length))
    (hFits : n ≤ size / length) : Sequential size length offsets := by
  have hCount : offsets.length = n := by simpa using congrArg List.length hBlocks
  refine ⟨fun offset hMem => ?_, ?_⟩
  · have hOffset : offset.toNat ∈ (List.range n).map (· * length) :=
      hBlocks ▸ List.mem_map_of_mem hMem
    obtain ⟨i, hi, hEq⟩ := List.mem_map.mp hOffset
    rw [← hEq, ← Nat.add_one_mul]
    exact (Nat.le_div_iff_mul_le hPos).mp ((Nat.succ_le_of_lt (List.mem_range.mp hi)).trans hFits)
  · rw [hBlocks, hCount]
    refine List.map_congr_left fun i hi => ?_
    rw [Nat.mod_eq_of_lt ((List.mem_range.mp hi).trans_le hFits)]

/-- The READs go through the file in order, round after round, exactly if no
callback has to begin a new round. -/
theorem reads_sequential_iff (lib : Tirpc) (cfg : Cfg) (s : Sys) (length : UInt64)
    (duration : Int32) (priv : ReadPriv) (starts callbacks : List ReadCall)
    (hInit : testReadInit lib length duration = some priv) (hOffset : s.prOffset = priv.prOffset)
    (hLength : cfg.prLength = priv.prLength) (hJobs : starts.length ≤ cfg.jobsMax.toNat) :
    let started := s.readCalls cfg .start starts
    Sequential s.mnt.fattrSize.toNat priv.prLength.toNat
        (started.2 ++ (started.1.readCalls cfg .callback callbacks).2) ↔
      (callbacks.countP (·.Again) = 0 ∨ starts.length + callbacks.countP (·.Again) ≤
        s.mnt.fattrSize.toNat / priv.prLength.toNat) := by
  obtain ⟨hLarge, hSmall, hZero⟩ := testReadInit_eq_some hInit
  rw [← hLength] at hLarge hSmall ⊢
  intro started
  have hPos : 0 < cfg.prLength.toNat := by omega
  have hStart : s.prOffset.toNat = 0 * cfg.prLength.toNat := by simp [hOffset, hZero]
  have hRoom : (0 + starts.length) * cfg.prLength.toNat < 2 ^ 64 := by
    have hJobsMax := UInt32.toNat_lt cfg.jobsMax
    calc (0 + starts.length) * cfg.prLength.toNat
        ≤ 2 ^ 32 * 2 ^ 18 := Nat.mul_le_mul (by omega) hSmall
      _ < 2 ^ 64 := by decide
  obtain ⟨hOff, hSame, hRead⟩ := readCalls_start hPos hStart hRoom
  rw [Nat.zero_add] at hOff
  rw [Nat.sub_zero] at hRead
  constructor
  · intro h
    by_contra hNot
    obtain ⟨hSome, hPast⟩ := not_or.mp hNot
    obtain ⟨offset, hMem, hLong⟩ := readCalls_past hPos hOff (Nat.pos_of_ne_zero hSome)
      (by rw [hSame]; omega)
    have hShort := h.1 offset (List.mem_append_right _ hMem)
    rw [hSame] at hLong
    omega
  · intro h
    have hLater := readCalls_within hPos hOff (hSame ▸ h)
    rcases h with hNone | hFits
    · rw [hNone] at hLater
      refine Sequential.of_blocks hPos ?_ (Nat.min_le_right starts.length _)
      rw [List.map_append, hRead, hLater, List.range_eq_range']
      simp
    · refine Sequential.of_blocks hPos ?_ hFits
      rw [List.map_append, hRead, hLater, Nat.min_eq_left (by omega), ← List.map_append,
        List.range_eq_range', ← List.range'_append_1, Nat.zero_add]

def oneReader : Cfg := ⟨.read, 1, 1, 4096, 1000, fun _ => 100, rfcInts⟩

def fileOf (size : UInt64) : Sys := { Sys.boot with mnt := { Mnt.zero with fattrSize := size } }

/-- Its reply has come in time. -/
def inTime : ReadCall := ⟨⟨1, by decide⟩, 1, { Mnt.zero with reqTscFinish := fun _ => 1000 }⟩

theorem reads_sequential_iff_twoBlocks :
    let started := (fileOf 8192).readCalls oneReader .start [inTime]
    Sequential 8192 4096
        (started.2 ++ (started.1.readCalls oneReader .callback [inTime]).2) ↔
      ([inTime].countP (·.Again) = 0 ∨ 1 + [inTime].countP (·.Again) ≤ 8192 / 4096) :=
  reads_sequential_iff rfcTirpc oneReader (fileOf 8192) 4096 1 ⟨0, 4096, 1⟩ [inTime] [inTime]
    rfl rfl rfl (by decide)

/-- The second round through a file of one block begins past its end. -/
theorem reads_pastEnd :
    let started := (fileOf 4096).readCalls oneReader .start [inTime]
    (started.1.readCalls oneReader .callback [inTime]).2 = [8192] ∧
      ¬ Sequential 4096 4096
        (started.2 ++ (started.1.readCalls oneReader .callback [inTime]).2) := by
  refine ⟨rfl, fun h => ?_⟩
  have hFits := h.1 8192 (by decide)
  exact absurd hFits (by decide)

end Nct
