import Nct.Accounting

/-! The offset that the READ jobs share. A callback adds its read's length to it
and, where the read would end past the end of the file, loads it and subtracts
what it has loaded. Only two of these three steps go well with those of others. -/
namespace Nct

open Function (update)
open Transition (Run)

def offT (x : UInt64) : Int := x.toBitVec.toInt

theorem offT_of_lt {x : UInt64} (h : x.toNat < 2 ^ 63) : offT x = x.toNat :=
  BitVec.toInt_eq_toNat_of_lt (by rw [UInt64.toNat_toBitVec]; omega)

/-- The thread has loaded something that it has yet to subtract. -/
def Pc.Resetting : Pc → Prop
  | .call _ _ ⟨.fetchSub :: _, _, _⟩ l => l.loaded ≠ 0
  | _ => False

instance (pc : Pc) : Decidable pc.Resetting := by
  unfold Pc.Resetting
  induction pc using Pc.casesOn with
  | call fn req plan l =>
      obtain ⟨_ | ⟨p, prep⟩, give, ret⟩ := plan
      · infer_instance
      · induction p using Prep.casesOn <;> infer_instance
  | _ => infer_instance

/-- No callback subtracts while another one is resetting the offset, and no
addition goes past the largest `off_t`. -/
def ResetsApart (cfg : Cfg) (s : Sys) (act : Act) : Prop :=
  match s.pc act.agent with
  | .call _ _ ⟨.fetchAdd :: _, _, _⟩ _ => s.prOffset.toNat + cfg.prLength.toNat < 2 ^ 63
  | .call _ _ ⟨.fetchSub :: _, _, _⟩ l =>
      s.pastEnd cfg l.offset = true →
        ∀ t < cfg.tdsMax, Agent.recv t ≠ act.agent → ¬ (s.pc (.recv t)).Resetting
  | _ => True

instance (cfg : Cfg) (s : Sys) (act : Act) : Decidable (ResetsApart cfg s act) := by
  unfold ResetsApart
  generalize s.pc act.agent = pc
  induction pc using Pc.casesOn with
  | call fn req plan l =>
      obtain ⟨_ | ⟨p, prep⟩, give, ret⟩ := plan
      · infer_instance
      · induction p using Prep.casesOn <;> infer_instance
  | _ => infer_instance

/-- What a READ callback does to its request. -/
def readPrep : List Prep := [.fetchAdd, .load, .fetchSub, .stamp, .encode .read]

/-- The length goes into what a thread has loaded, which is still there to be
taken away from the offset. -/
def Local.Covered (l : Local) (length offset : Nat) : Prop :=
  l.loaded.toNat ≤ offset ∧ length ∣ l.loaded.toNat

/-- Where a thread is that has yet to subtract: main never is, and a receive
thread is in the READ callback, with nothing loaded before `.load`. -/
def Agent.Reads (length offset : Nat) : Agent → Pc → Prop
  | .main, .call _ _ plan _ => .fetchSub ∉ plan.prep
  | .recv _, .call _ _ plan l =>
      .fetchSub ∈ plan.prep → plan.prep <:+ readPrep ∧
        (.load ∈ plan.prep → l.loaded = 0) ∧ l.Covered length offset
  | _, _ => True

structure OffsetKept (cfg : Cfg) (s : Sys) : Prop where
  within : s.Within cfg
  bound : s.prOffset.toNat < 2 ^ 63
  multiple : cfg.prLength.toNat ∣ s.prOffset.toNat
  reads : ∀ a : Agent, a.Reads cfg.prLength.toNat s.prOffset.toNat (s.pc a)

/-- The load comes before the subtraction. -/
theorem readPrep_suffix {prep : List Prep} (h : prep <:+ readPrep) (hMem : .fetchSub ∈ prep) :
    .load ∈ prep ∨ prep = [.fetchSub, .stamp, .encode .read] := by
  simp only [readPrep, List.suffix_cons_iff, List.suffix_nil] at h
  rcases h with rfl | rfl | rfl | rfl | rfl | rfl
  · exact Or.inl (by decide)
  · exact Or.inl (by decide)
  · exact Or.inr rfl
  all_goals simp at hMem

/-- A call that begins has nothing loaded. -/
theorem Agent.Reads.begin {length offset : Nat} {t : Nat} {fn : Fn} {req : ReqId} {plan : Plan}
    (h : .fetchSub ∈ plan.prep → plan.prep <:+ readPrep) :
    (Agent.recv t).Reads length offset (.call fn req plan ⟨0, 0⟩) :=
  fun hMem => ⟨h hMem, fun _ => rfl, Nat.zero_le _, Nat.dvd_zero _⟩

theorem Job.cb_readPrep (xdr : XdrInts) (job : Job) (mnt : Mnt) (req : ReqId) (status : UInt32)
    (hMem : .fetchSub ∈ (job.cb xdr mnt req status).prep) :
    (job.cb xdr mnt req status).prep <:+ readPrep := by
  cases job <;> simp only [Job.cb, testNullCb, testGetattrCb, testReadCb] at hMem ⊢ <;>
    split_ifs at hMem ⊢ <;> simp [readPrep] at hMem ⊢

/-- Only a callback subtracts. -/
theorem Job.start_fetchSub (job : Job) : .fetchSub ∉ job.start.prep := by
  cases job <;> decide

/-- A larger offset covers what was covered before. -/
theorem Agent.Reads.grow {length offset offset' : Nat} {a : Agent} {pc : Pc}
    (h : a.Reads length offset pc) (hLe : offset ≤ offset') : a.Reads length offset' pc := by
  cases pc with
  | call fn req plan l =>
      cases a with
      | main => exact h
      | recv t =>
          intro hMem
          obtain ⟨hSuffix, hLoaded, hCover, hDvd⟩ := h hMem
          exact ⟨hSuffix, hLoaded, hCover.trans hLe, hDvd⟩
  | _ => cases a <;> trivial

/-- A thread that is not resetting the offset has loaded nothing, so any offset covers it. -/
theorem Agent.Reads.any {length offset offset' : Nat} {a : Agent} {pc : Pc}
    (h : a.Reads length offset pc) (hNot : a ≠ .main → ¬ pc.Resetting) :
    a.Reads length offset' pc := by
  cases pc with
  | call fn req plan l =>
      cases a with
      | main => exact h
      | recv t =>
          intro hMem
          obtain ⟨hSuffix, hLoaded, -⟩ := h hMem
          have hZero : l.loaded = 0 := by
            rcases readPrep_suffix hSuffix hMem with hLoad | hPrep
            · exact hLoaded hLoad
            · obtain ⟨prep, give, ret⟩ := plan
              obtain rfl := hPrep
              by_contra hSome
              exact hNot (by simp) hSome
          exact ⟨hSuffix, fun _ => hZero, by simp [Local.Covered, hZero]⟩
  | _ => cases a <;> trivial

/-- A thread goes on to its next operation. -/
theorem Agent.Reads.tail {length offset : Nat} {a : Agent} {fn : Fn} {req : ReqId} {plan : Plan}
    {l l' : Local} {p : Prep} {prep : List Prep} (h : a.Reads length offset (.call fn req plan l))
    (hPrep : plan.prep = p :: prep) (hSame : l'.loaded = l.loaded) :
    a.Reads length offset (.call fn req { plan with prep } l') := by
  have hTail : ∀ q ∈ prep, q ∈ plan.prep := fun q hq => hPrep ▸ List.mem_cons_of_mem p hq
  cases a with
  | main => exact fun hMem => h (hTail _ hMem)
  | recv t =>
      intro hMem
      obtain ⟨hSuffix, hLoaded, hCovered⟩ := h (hTail _ hMem)
      refine ⟨(hPrep ▸ List.suffix_cons p prep).trans hSuffix, fun hLoad => ?_, ?_⟩
      · exact hSame.trans (hLoaded (hTail _ hLoad))
      · simpa only [Local.Covered, hSame] using hCovered

/-- What the operations on the offset do. -/
theorem prepare_offset {cfg : Cfg} {s s' : Sys} {req : ReqId} {l l' : Local} {now : UInt64} {p : Prep}
    (h : s.prepare cfg req l now p = some (s', l')) :
    (p = .fetchAdd ∧ s'.prOffset = s.prOffset + cfg.prLength ∧ l'.loaded = l.loaded) ∨
      (p = .load ∧ s'.prOffset = s.prOffset ∧ l'.loaded = s.prOffset) ∨
      (p = .fetchSub ∧ s.pastEnd cfg l.offset = true ∧ s'.prOffset = s.prOffset - l.loaded) ∨
      (s'.prOffset = s.prOffset ∧ l'.loaded = l.loaded) := by
  cases p with
  | load | fetchSub | refuse =>
      simp only [Sys.prepare] at h
      split at h
      · cases h <;> simp_all
      · cases h
        simp
  | _ =>
      cases h
      simp

/-- The threads that do not move keep what they have loaded. -/
theorem OffsetKept.frame {cfg : Cfg} {s s' : Sys} {a : Agent} (h : OffsetKept cfg s)
    (hWithin : s'.Within cfg) (hOffset : s'.prOffset = s.prOffset)
    (hOther : ∀ b, b ≠ a → s'.pc b = s.pc b)
    (hNew : a.Reads cfg.prLength.toNat s.prOffset.toNat (s'.pc a)) : OffsetKept cfg s' where
  within := hWithin
  bound := by rw [hOffset]; exact h.bound
  multiple := by rw [hOffset]; exact h.multiple
  reads := by
    rw [hOffset]
    exact Sys.forall_pc hOther hNew fun b _ => h.reads b

section
variable {cfg : Cfg} {s s' : Sys} {a : Agent} {fn : Fn} {req : ReqId} {plan : Plan} {l l' : Local}
  {prep : List Prep} (h : OffsetKept cfg s) (hWithin : s'.Within cfg)
  (hOther : ∀ b, b ≠ a → s'.pc b = s.pc b) (hPc : s.pc a = .call fn req plan l)
  (hNext : s'.pc a = .call fn req { plan with prep } l')

include h hWithin hOther hPc hNext

/-- A multiple of `pr_length` is added. -/
theorem OffsetKept.fetchAdd (hPrep : plan.prep = .fetchAdd :: prep)
    (hOffset : s'.prOffset = s.prOffset + cfg.prLength) (hLoaded : l'.loaded = l.loaded)
    (hFits : s.prOffset.toNat + cfg.prLength.toNat < 2 ^ 63) : OffsetKept cfg s' := by
  have hSum : s'.prOffset.toNat = s.prOffset.toNat + cfg.prLength.toNat := by
    rw [hOffset, UInt64.toNat_add, Nat.mod_eq_of_lt (by omega)]
  refine ⟨hWithin, hSum ▸ hFits, hSum ▸ Nat.dvd_add h.multiple (Nat.dvd_refl _), ?_⟩
  rw [hSum]
  refine Sys.forall_pc hOther ?_ ?_
  · rw [hNext]
    have hReads := h.reads a
    rw [hPc] at hReads
    exact (hReads.tail hPrep hLoaded).grow (Nat.le_add_right _ _)
  · intro b _
    exact (h.reads b).grow (Nat.le_add_right _ _)

theorem OffsetKept.load (hPrep : plan.prep = .load :: prep) (hOffset : s'.prOffset = s.prOffset)
    (hLoaded : l'.loaded = s.prOffset) : OffsetKept cfg s' := by
  have hReads := h.reads a
  rw [hPc] at hReads
  apply h.frame hWithin hOffset hOther
  rw [hNext]
  cases a with
  | main => exact fun hMem => hReads (hPrep ▸ List.mem_cons_of_mem _ hMem)
  | recv t =>
      intro hMem
      obtain ⟨hSuffix, -, -⟩ := hReads (hPrep ▸ List.mem_cons_of_mem _ hMem)
      rw [hPrep] at hSuffix
      refine ⟨(List.suffix_cons _ _).trans hSuffix, fun hLoad => ?_, ?_⟩
      · exfalso
        simp only [readPrep, List.suffix_cons_iff, List.cons.injEq, reduceCtorEq, false_and,
          true_and, false_or, or_false, List.suffix_nil] at hSuffix
        subst hSuffix
        simp at hLoad
      · exact ⟨by rw [hLoaded], by rw [hLoaded]; exact h.multiple⟩

/-- What is subtracted is the value itself, since nobody else has come between. -/
theorem OffsetKept.fetchSub (hPrep : plan.prep = .fetchSub :: prep)
    (hOffset : s'.prOffset = s.prOffset - l.loaded)
    (hApart : ∀ t < cfg.tdsMax, Agent.recv t ≠ a → ¬ (s.pc (.recv t)).Resetting) :
    OffsetKept cfg s' := by
  have hReads := h.reads a
  rw [hPc] at hReads
  have hMem : .fetchSub ∈ plan.prep := hPrep ▸ List.mem_cons_self
  cases a with
  | main => exact absurd hMem hReads
  | recv t =>
      obtain ⟨hSuffix, -, hCover, hDvd⟩ := hReads hMem
      have hDiff : s'.prOffset.toNat = s.prOffset.toNat - l.loaded.toNat := by
        rw [hOffset, UInt64.toNat_sub_of_le _ _ (UInt64.le_iff_toNat_le.mpr hCover)]
      have hBound := h.bound
      refine ⟨hWithin, by omega, hDiff ▸ Nat.dvd_sub h.multiple hDvd, ?_⟩
      refine Sys.forall_pc hOther ?_ ?_
      · rw [hNext]
        intro hIn
        have hEnd : prep = [.stamp, .encode .read] := by
          rw [hPrep] at hSuffix
          simpa [readPrep, List.suffix_cons_iff] using hSuffix
        simp [hEnd] at hIn
      · intro b hb
        refine (h.reads b).any fun hMain => ?_
        cases b with
        | main => exact absurd rfl hMain
        | recv u =>
            by_cases hu : u < cfg.tdsMax
            · exact hApart u hu hb
            · rw [h.within u (Nat.le_of_not_lt hu)]
              exact id

end

/-- Every step keeps it, where resets are apart. -/
theorem OffsetKept.step {cfg : Cfg} {s s' : Sys} {act : Act} (h : OffsetKept cfg s)
    (hOk : ResetsApart cfg s act) (hStep : Nct.step cfg s act = some s') : OffsetKept cfg s' := by
  have hWithin := h.within.step hStep
  obtain ⟨hCase, -⟩ := step_cases hStep
  have hOther := fun b (hb : b ≠ act.agent) => step_pc_other hCase hb
  generalize hAgent : act.agent = a at hCase hOther
  cases hCase with
  | @prepare _ fn req plan l l' p prep s'' hPc hPrep hDo =>
      have hNext := Sys.goto_pc_self s'' a (.call fn req { plan with prep } l')
      have hReads := h.reads a
      rw [hPc] at hReads
      rcases prepare_offset hDo with ⟨rfl, hOffset, hLoaded⟩ | ⟨rfl, hOffset, hLoaded⟩ |
        ⟨rfl, hPast, hOffset⟩ | ⟨hOffset, hLoaded⟩
      · obtain ⟨_, give, ret⟩ := plan
        obtain rfl := hPrep
        exact h.fetchAdd hWithin hOther hPc hNext rfl hOffset hLoaded
          (by simpa only [ResetsApart, hAgent, hPc] using hOk)
      · exact h.load hWithin hOther hPc hNext hPrep hOffset hLoaded
      · obtain ⟨_, give, ret⟩ := plan
        obtain rfl := hPrep
        simp only [ResetsApart, hAgent, hPc] at hOk
        exact h.fetchSub hWithin hOther hPc hNext rfl hOffset (hOk hPast)
      · apply h.frame hWithin hOffset hOther
        rw [hNext]
        exact hReads.tail hPrep hLoaded
  | @callback t req job hPc =>
      apply h.frame hWithin rfl hOther
      rw [Sys.goto_pc_self]
      exact .begin (job.cb_readPrep _ _ _ _)
  | mount | decoded =>
      apply h.frame hWithin rfl hOther
      rw [Sys.goto_pc_self]
      simp [Agent.Reads, mountPlan, mountedPlan]
  | alloc =>
      apply h.frame hWithin rfl hOther
      rw [Sys.goto_pc_self]
      exact cfg.job.start_fetchSub
  | cantDecode | nullSlot | xidMismatch | mountFailed | sendCheck =>
      exact h.frame hWithin rfl hOther (h.reads _)
  | settle =>
      apply h.frame hWithin rfl hOther
      rw [Sys.goto_pc_self]
      split <;> trivial
  | refuse | free | send | checked =>
      apply h.frame hWithin rfl hOther
      rw [Sys.goto_pc_self]
      cases a <;> trivial
  | _ =>
      apply h.frame hWithin rfl hOther
      rw [Sys.goto_pc_self]
      trivial

theorem OffsetKept.atBoot (cfg : Cfg) : OffsetKept cfg Sys.boot where
  within _ _ := rfl
  bound := by decide
  multiple := Nat.dvd_zero _
  reads a := by cases a <;> trivial

/-- As long as resets keep apart, the offset is a multiple of the read's length
and not negative. -/
theorem prOffset_multiple (cfg : Cfg) (s : Sys)
    (run : Run (step cfg) (ResetsApart cfg) Sys.boot s) :
    0 ≤ offT s.prOffset ∧ (cfg.prLength.toNat : Int) ∣ offT s.prOffset := by
  have h : OffsetKept cfg s := run.invariant (OffsetKept.atBoot cfg) fun _ _ _ hKept hOk hStep =>
    hKept.step hOk hStep
  rw [offT_of_lt h.bound]
  exact ⟨Int.natCast_nonneg _, Int.natCast_dvd_natCast.mpr h.multiple⟩

def twoReaders : Cfg := ⟨.read, 2, 2, 4096, 1000, fun _ => 100, rfcInts⟩

/-- Both jobs of a file of 8192 bytes are sent, and get as far as to add to the
offset in their callbacks. -/
def bothAddSteps : List Act :=
  mountSteps 2 fileBody ++ (Agent.recv 0).steps 2 ++ Agent.main.steps 25 ++
    (Agent.recv 0).hears 11 RPC_SUCCESS [] :: (Agent.recv 0).steps 5 ++
    (Agent.recv 1).hears 22 RPC_SUCCESS [] :: (Agent.recv 1).steps 5

/-- One callback resets the offset to zero, and the other one too. -/
theorem prOffset_multiple_apart : ∃ s : Sys, s.prOffset = 0 ∧
    0 ≤ offT s.prOffset ∧ (4096 : Int) ∣ offT s.prOffset := by
  obtain ⟨s, hRun, hOffset⟩ : ∃ s, Run (step twoReaders) (ResetsApart twoReaders) Sys.boot s ∧
      s.prOffset = 0 :=
    Run.of_exec_any (bothAddSteps ++ (Agent.recv 0).steps 2 ++ (Agent.recv 1).steps 2)
      (by decide +kernel)
  exact ⟨s, hOffset, prOffset_multiple twoReaders s hRun⟩

/-- Both callbacks load the offset, and then both subtract it. -/
theorem prOffset_multiple_overlap :
    ¬ ∀ (cfg : Cfg) (s : Sys), Run (step cfg) (fun _ _ => True) Sys.boot s →
      cfg.prLength ≤ s.mnt.fattrSize →
      0 ≤ offT s.prOffset ∧ (cfg.prLength.toNat : Int) ∣ offT s.prOffset := by
  intro h
  obtain ⟨s, hRun, hSize, hNegative⟩ : ∃ s, Run (step twoReaders) (fun _ _ => True) Sys.boot s ∧
      twoReaders.prLength ≤ s.mnt.fattrSize ∧ offT s.prOffset = -16384 :=
    Run.of_exec_any (bothAddSteps ++ (Agent.recv 0).steps 1 ++ (Agent.recv 1).steps 1 ++
      (Agent.recv 0).steps 1 ++ (Agent.recv 1).steps 1) (by decide +kernel)
  have hNonneg := (h twoReaders s hRun hSize).1
  rw [hNegative] at hNonneg
  exact absurd hNonneg (by decide)

end Nct
