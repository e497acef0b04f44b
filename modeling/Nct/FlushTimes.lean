import Nct.Stats
import Nct.Support.Deadlines

/-! When a receive thread flushes its stats. The next time is set from the time
set before, and not from the time of the flush. -/
namespace Nct

section
variable (tscFreq earlier now : UInt64) (stamps : Nat → UInt64)

/-- `tsc_stats` at the end of an iteration. -/
def nextFlush (tscStats tscStop : UInt64) : UInt64 :=
  if tscStop < tscStats then tscStats else tscStats + 1000 * 1000000 / tscFreq

/-- `tsc_stats` before the `i`th reply. The thread started with two values of the
clock, and `stamps` are the time stamps of its replies. -/
def tscStatsAt : Nat → UInt64
  | 0 => tscStart tscFreq earlier now
  | i + 1 => nextFlush tscFreq (tscStatsAt i) (stamps i)

/-- The thread flushes its stats with the `i`th reply. -/
def FlushesAt (i : Nat) : Prop := ¬ stamps i < tscStatsAt tscFreq earlier now stamps i

instance (i : Nat) : Decidable (FlushesAt tscFreq earlier now stamps i) :=
  inferInstanceAs (Decidable (¬ _))

def flushTime (k : Nat) : UInt64 :=
  tscStart tscFreq earlier now + UInt64.ofNat k * (1000 * 1000000 / tscFreq)

/-- The `k`th time set for a flush has come. -/
def FlushDue (k : Nat) (stamp : UInt64) : Prop := ¬ stamp < flushTime tscFreq earlier now k

instance (k : Nat) (stamp : UInt64) : Decidable (FlushDue tscFreq earlier now k stamp) :=
  inferInstanceAs (Decidable (¬ _))

/-- Since before some earlier reply, more flush times have come than replies. -/
def Late (i : Nat) : Prop := Deadlines.Behind (FlushDue tscFreq earlier now) stamps i

/-- The first `n` replies have time stamps that do not decrease. -/
def NonDecreasing (n : Nat) : Prop := ∀ i j, i ≤ j → j < n → stamps i ≤ stamps j

/-- Less than 1000 us lie between the replies. -/
def Close (i j : Nat) : Prop := 1000 * ((stamps j).toNat - (stamps i).toNat) < tscFreq.toNat

instance (i j : Nat) : Decidable (Close tscFreq stamps i j) := inferInstanceAs (Decidable (_ < _))

/-- Any two flushes with the first `n` replies are at least 1000 us apart. -/
def Spaced (n : Nat) : Prop :=
  ∀ i j, i < j → j < n → FlushesAt tscFreq earlier now stamps i →
    FlushesAt tscFreq earlier now stamps j →
    tscFreq.toNat ≤ 1000 * ((stamps j).toNat - (stamps i).toNat)

end

/-- This is what the end of an iteration does. -/
theorem finish_nextFlush (tscFreq : UInt64) (m : Metered) (t : Nat) (times : Times) :
    (m.finish tscFreq t times).tscStats t = nextFlush tscFreq (m.tscStats t) times.tscStop ∧
      (m.finish tscFreq t times).mntStats =
        if times.tscStop < m.tscStats t then m.mntStats
        else m.mntStats.flush (m.own t) times.tscDiff := by
  unfold Metered.finish nextFlush
  split <;> simp

section
variable {tscFreq earlier now : UInt64} {stamps : Nat → UInt64}

theorem flushTime_succ (k : Nat) :
    flushTime tscFreq earlier now (k + 1) =
      flushTime tscFreq earlier now k + 1000 * 1000000 / tscFreq := by
  rw [flushTime, flushTime, UInt64.ofNat_add, add_mul, ← add_assoc]
  exact congrArg _ (one_mul _)

/-- `tsc_stats` is the first flush time that has not been met. -/
theorem tscStatsAt_eq (i : Nat) :
    tscStatsAt tscFreq earlier now stamps i =
      flushTime tscFreq earlier now (Deadlines.met (FlushDue tscFreq earlier now) stamps i) := by
  induction i with
  | zero => simp [tscStatsAt, flushTime, Deadlines.met]
  | succ i ih =>
      rw [tscStatsAt, nextFlush, ih, Deadlines.met]
      by_cases hDue : FlushDue tscFreq earlier now
          (Deadlines.met (FlushDue tscFreq earlier now) stamps i) (stamps i)
      · rw [if_pos hDue, if_neg hDue, flushTime_succ]
      · rw [if_neg hDue, if_pos (not_not.mp hDue)]

theorem FlushDue.later {k : Nat} {stamp stamp' : UInt64} (h : FlushDue tscFreq earlier now k stamp)
    (hLe : stamp ≤ stamp') : FlushDue tscFreq earlier now k stamp' :=
  fun hLt => h (UInt64.lt_of_le_of_lt hLe hLt)

theorem flushesAt_iff_late {n i : Nat} (hMono : NonDecreasing stamps n) (hi : i < n) :
    FlushesAt tscFreq earlier now stamps i ↔ Late tscFreq earlier now stamps i := by
  have hLater : ∀ k a b, a ≤ b → b ≤ i → FlushDue tscFreq earlier now k (stamps a) →
      FlushDue tscFreq earlier now k (stamps b) := fun k a b hab hb hDue =>
    hDue.later (hMono a b hab (Nat.lt_of_le_of_lt hb hi))
  rw [FlushesAt, tscStatsAt_eq]
  exact Deadlines.due_met_iff_behind hLater

/-- On a clock of more than 1 GHz the time set never moves on. -/
theorem flushesAt_of_fast (hFast : 1000000000 < tscFreq) (i : Nat) :
    FlushesAt tscFreq earlier now stamps i ↔ ¬ stamps i < tscStart tscFreq earlier now := by
  have hStep : (1000 * 1000000 : UInt64) / tscFreq = 0 := by
    apply UInt64.toNat_inj.mp
    rw [UInt64.toNat_div]
    exact Nat.div_eq_of_lt (UInt64.lt_iff_toNat_lt.mp hFast)
  rw [FlushesAt, tscStatsAt_eq, flushTime, hStep, mul_zero, add_zero]

/-- Flushes are 1000 us apart just if of two replies that are not, one is not late. -/
theorem flushes_spaced_iff (tscFreq earlier now : UInt64) (stamps : Nat → UInt64) (n : Nat)
    (hMono : NonDecreasing stamps n) :
    Spaced tscFreq earlier now stamps n ↔
      ∀ i j, i < j → j < n → Close tscFreq stamps i j →
        ¬ (Late tscFreq earlier now stamps i ∧ Late tscFreq earlier now stamps j) := by
  refine forall₄_congr fun i j hij hj => ?_
  rw [flushesAt_iff_late hMono (Nat.lt_trans hij hj), flushesAt_iff_late hMono hj, Close,
    ← not_le]
  tauto

end

def steady (i : Nat) : UInt64 := UInt64.ofNat (1000 * i)

theorem steady_toNat {i : Nat} (hi : i < 1000) : (steady i).toNat = 1000 * i := by
  rw [steady, UInt64.toNat_ofNat']
  exact Nat.mod_eq_of_lt (by omega)

theorem steady_nonDecreasing {n : Nat} (hn : n ≤ 1000) : NonDecreasing steady n := by
  intro i j hij hj
  rw [UInt64.le_iff_toNat_le, steady_toNat (by omega), steady_toNat (by omega)]
  omega

/-- On a clock of 1 MHz they are 1000 us apart. -/
theorem flushes_spaced_iff_steady : Spaced 1000000 0 0 steady 3 := by
  apply (flushes_spaced_iff 1000000 0 0 steady 3 (steady_nonDecreasing (by decide))).mpr
  intro i j hij hj hClose
  rw [Close, steady_toNat (by omega), steady_toNat (by omega)] at hClose
  have hFreq : (1000000 : UInt64).toNat = 1000000 := rfl
  omega

/-- On a clock of 2.4 GHz the thread flushes with each of two such replies. -/
theorem flushes_spaced_fast :
    ¬ ∀ (tscFreq earlier now : UInt64) (stamps : Nat → UInt64) (n : Nat), 1000000 ≤ tscFreq →
      NonDecreasing stamps n → Spaced tscFreq earlier now stamps n := by
  intro h
  have hSpaced := h 2400000000 0 0 steady 2 (by decide) (steady_nonDecreasing (by decide)) 0 1
    (by decide) (by decide)
  exact absurd (hSpaced (by decide) (by decide)) (by decide)

end Nct
