import Nct.StatsLoop
import Nct.Support.Signed

/-! How long `nct_stats_loop` sleeps before a sample. The time left is a difference
modulo 2^64, and with a time-stamp counter it is multiplied and divided before it
is taken as a signed number. -/
namespace Nct

open Signed

section
variable (haveTsc : Bool) (tscFreq tscStart tscCur : UInt64) (samplesTot samplePeriod : Int64)

/-- The time of the next sample, exactly. -/
def targetTime : Int := tscStart.toNat + samplesTot.toInt * samplePeriod.toInt

/-- What the loop computes for the us in `left` cycles: modulo 2^64, before it is
taken as a signed number. -/
def waitFor (left : Int) : Nat :=
  let cycles := (left % 2 ^ 64).toNat
  if haveTsc then cycles * 1000000 % 2 ^ 64 / tscFreq.toNat else cycles

/-- Cycles in a second; without a time-stamp counter the clock counts us. -/
def clockFreq : Nat := if haveTsc then tscFreq.toNat else 1000000

/-- The loop does not sleep when it is late, and at most for the time left when it
is not. -/
def SleepsWithin : Prop :=
  let target := targetTime tscStart samplesTot samplePeriod
  let sleep := (sampleSleep haveTsc tscFreq (sampleTarget tscStart samplesTot samplePeriod) tscCur).toNat
  (target ≤ tscCur.toNat → sleep = 0) ∧
    (tscCur.toNat < target → sleep * clockFreq haveTsc tscFreq ≤ (target - tscCur.toNat) * 1000000)

/-- The time that the loop is late, in us on a clock of `perUs` and `freq` cycles, is
short of a multiple of 2^64 by less than 1000 us or by 2^63 us and more, or by 999 us
more than a multiple of 2^32. -/
def ShortAwake (late : Int) (perUs freq : Nat) : Prop :=
  let short := (-(late * perUs) % 2 ^ 64).toNat
  short < 1000 * freq ∨ 2 ^ 63 * freq ≤ short ∨ short / freq % 2 ^ 32 = 999

/-- The loop is not late, or late by so many cycles that it stays awake. Without a
time-stamp counter a cycle is a us. -/
def LateAwake : Prop :=
  let late := tscCur.toNat - targetTime tscStart samplesTot samplePeriod
  0 ≤ late → if haveTsc then ShortAwake late 1000000 tscFreq.toNat else ShortAwake late 1 1

end

section
variable {haveTsc : Bool} {tscFreq tscStart tscCur : UInt64} {samplesTot samplePeriod : Int64}

theorem sampleTarget_toNat (tscStart : UInt64) (samplesTot samplePeriod : Int64) :
    ((sampleTarget tscStart samplesTot samplePeriod).toUInt64.toNat : Int) =
      targetTime tscStart samplesTot samplePeriod % 2 ^ 64 := by
  rw [sampleTarget, UInt64.toUInt64_toInt64, UInt64.toNat_add, Int.natCast_mod, Int.natCast_add,
    mul_toUInt64_toNat, targetTime]
  exact_mod_cast Int.add_emod_emod _ _ _

theorem waitFor_lt (haveTsc : Bool) (tscFreq : UInt64) (left : Int) :
    waitFor haveTsc tscFreq left < 2 ^ 64 := by
  simp only [waitFor]
  split
  · exact Nat.lt_of_le_of_lt (Nat.div_le_self _ _) (Nat.mod_lt _ (by decide))
  · omega

theorem sampleDelta_toInt (haveTsc : Bool) (tscFreq tscStart tscCur : UInt64)
    (samplesTot samplePeriod : Int64) :
    (sampleDelta haveTsc tscFreq (sampleTarget tscStart samplesTot samplePeriod) tscCur).toInt =
      (waitFor haveTsc tscFreq (targetTime tscStart samplesTot samplePeriod - tscCur.toNat) :
        Int).bmod (2 ^ 64) := by
  have hLeft : ((sampleTarget tscStart samplesTot samplePeriod).toUInt64 - tscCur).toNat =
      ((targetTime tscStart samplesTot samplePeriod - tscCur.toNat) % 2 ^ 64).toNat := by
    have hSub := sub_toNat (sampleTarget tscStart samplesTot samplePeriod).toUInt64 tscCur
    rw [sampleTarget_toNat, Int.emod_sub_emod] at hSub
    omega
  cases haveTsc with
  | true =>
      simp only [sampleDelta, if_true, waitFor, toInt64_toInt, UInt64.toNat_div, UInt64.toNat_mul,
        hLeft]
      rfl
  | false => simp only [sampleDelta, Bool.false_eq_true, if_false, waitFor, toInt64_toInt, hLeft]

/-- Of what it computes, the loop sleeps all but 999 us, modulo 2^32. -/
theorem sampleSleep_toNat (haveTsc : Bool) (tscFreq tscStart tscCur : UInt64)
    (samplesTot samplePeriod : Int64) :
    (sampleSleep haveTsc tscFreq (sampleTarget tscStart samplesTot samplePeriod) tscCur).toNat =
      let us := waitFor haveTsc tscFreq (targetTime tscStart samplesTot samplePeriod - tscCur.toNat)
      if 999 < us ∧ us < 2 ^ 63 then (us - 999) % 2 ^ 32 else 0 := by
  have hDelta := sampleDelta_toInt haveTsc tscFreq tscStart tscCur samplesTot samplePeriod
  have hLt := waitFor_lt haveTsc tscFreq (targetTime tscStart samplesTot samplePeriod - tscCur.toNat)
  simp only [sampleSleep]
  generalize sampleDelta haveTsc tscFreq (sampleTarget tscStart samplesTot samplePeriod) tscCur = delta
    at hDelta ⊢
  generalize waitFor haveTsc tscFreq (targetTime tscStart samplesTot samplePeriod - tscCur.toNat) = us
    at hDelta hLt ⊢
  have hSigned : delta.toInt = if us < 2 ^ 63 then (us : Int) else us - 2 ^ 64 := by
    rw [hDelta, Int.bmod_eq_emod]
    split <;> omega
  have hSleeps : delta > 999 ↔ 999 < us ∧ us < 2 ^ 63 := by
    rw [gt_iff_lt, Int64.lt_iff_toInt_lt, hSigned, show (999 : Int64).toInt = 999 from rfl]
    split <;> omega
  by_cases hUs : 999 < us ∧ us < 2 ^ 63
  · rw [if_pos (hSleeps.mpr hUs), if_pos hUs, UInt64.toNat_toUInt32]
    have hRest : ((delta - 999).toUInt64.toNat : Int) = us - 999 := by
      rw [toUInt64_toNat, Int64.toInt_sub, hSigned, if_pos hUs.2, show (999 : Int64).toInt = 999 from rfl,
        Int.bmod_eq_emod]
      split <;> omega
    have hNat : (delta - 999).toUInt64.toNat = us - 999 := by omega
    rw [hNat]
  · rw [if_neg (mt hSleeps.mp hUs), if_neg hUs]
    rfl

/-- What the loop computes is never more than the time left. -/
theorem waitFor_le {left : Int} (hLeft : 0 ≤ left) :
    (waitFor haveTsc tscFreq left : Int) * clockFreq haveTsc tscFreq ≤ left * 1000000 := by
  have hCycles : ((left % 2 ^ 64).toNat : Int) ≤ left := by omega
  cases haveTsc with
  | true =>
      simp only [waitFor, clockFreq, if_true]
      generalize (left % 2 ^ 64).toNat = cycles at hCycles ⊢
      have hDiv : cycles * 1000000 % 2 ^ 64 / tscFreq.toNat * tscFreq.toNat ≤ cycles * 1000000 :=
        (Nat.div_mul_le_self _ _).trans (Nat.mod_le _ _)
      calc ((cycles * 1000000 % 2 ^ 64 / tscFreq.toNat : Nat) : Int) * (tscFreq.toNat : Int)
        _ ≤ (cycles : Int) * 1000000 := by exact_mod_cast hDiv
        _ ≤ left * 1000000 := by omega
  | false =>
      simp only [waitFor, clockFreq, Bool.false_eq_true, if_false]
      omega

theorem mod_scaled (late : Int) (k : Nat) :
    ((-late) % 2 ^ 64).toNat * k % 2 ^ 64 = (-(late * k) % 2 ^ 64).toNat := by
  have hPos : (2 ^ 64 : Int) ≠ 0 := by decide
  have hLeft : ((((-late) % 2 ^ 64).toNat * k % 2 ^ 64 : Nat) : Int) =
      (-late) % 2 ^ 64 * k % 2 ^ 64 := by
    rw [Int.natCast_mod, Int.natCast_mul, Int.toNat_of_nonneg (Int.emod_nonneg _ hPos)]
    rfl
  rw [← Int.natCast_inj, hLeft, Int.toNat_of_nonneg (Int.emod_nonneg _ hPos), Int.mul_emod,
    Int.emod_emod, ← Int.mul_emod, Int.neg_mul]

/-- What the loop computes when it is late makes it sleep, or not. -/
theorem shortAwake_iff {late : Int} {perUs freq us : Nat}
    (hUs : us = (-(late * perUs) % 2 ^ 64).toNat / freq) :
    ShortAwake late perUs freq ↔ us ≤ 999 ∨ 2 ^ 63 ≤ us ∨ 2 ^ 32 ∣ us - 999 := by
  subst hUs
  simp only [ShortAwake]
  generalize (-(late * perUs) % 2 ^ 64).toNat = short
  rcases Nat.eq_zero_or_pos freq with rfl | hFreq
  · simp
  · rw [← Nat.div_lt_iff_lt_mul hFreq, ← Nat.le_div_iff_mul_le hFreq]
    generalize short / freq = us
    omega

theorem lateAwake_iff : LateAwake haveTsc tscFreq tscStart tscCur samplesTot samplePeriod ↔
    (targetTime tscStart samplesTot samplePeriod - tscCur.toNat ≤ 0 →
      let us := waitFor haveTsc tscFreq (targetTime tscStart samplesTot samplePeriod - tscCur.toNat)
      us ≤ 999 ∨ 2 ^ 63 ≤ us ∨ 2 ^ 32 ∣ us - 999) := by
  simp only [LateAwake]
  generalize targetTime tscStart samplesTot samplePeriod = target
  refine imp_congr (by omega) ?_
  have hLeft : target - tscCur.toNat = -(tscCur.toNat - target) := by omega
  generalize (tscCur.toNat : Int) - target = late at hLeft ⊢
  rw [hLeft]
  cases haveTsc with
  | true =>
      have hUs : waitFor true tscFreq (-late) =
          (-(late * (1000000 : Nat)) % 2 ^ 64).toNat / tscFreq.toNat := by
        rw [← mod_scaled late 1000000]
        rfl
      simp only [if_true]
      exact shortAwake_iff hUs
  | false =>
      have hUs : waitFor false tscFreq (-late) = (-(late * (1 : Nat)) % 2 ^ 64).toNat / 1 := by
        simp [waitFor]
      simp only [Bool.false_eq_true, if_false]
      exact shortAwake_iff hUs

end

end Nct
