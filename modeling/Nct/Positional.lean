import Nct.Clp
import Mathlib.Algebra.Ring.Int.Defs

/-! How the positional arguments of a command line are shared out. The greedy
loop keeps what is still needed for mandatory parameters and hands out the rest
from left to right. -/
namespace Nct

open Function (update)

/-- The name of a mandatory parameter has no bracket in front. -/
def Posparam.Mandatory (param : Posparam) : Prop := (clpUnbracket param.name 128).1 = 0

/-- The parameter takes one argument: its name has no dots at the end, and it
is no subcommand. -/
def Posparam.Single (param : Posparam) : Prop :=
  endsInDots (clpUnbracket param.name 128).2 = false ∧ clpSubcmd param = false

/-- The arguments are cut into consecutive slices, one for each parameter in
order. A parameter up to and including a subcommand gets what it must have. -/
structure Slices (params : List Posparam) (args : List CString) : Prop where
  nonneg : ∀ p ∈ params, 0 ≤ p.argc
  covers : (params.map Posparam.args).flatten = args
  total : (params.map Posparam.argc).sum = args.length
  starts : ∀ before p after, params = before ++ p :: after → 0 < p.argc →
    p.argv = args.drop (before.map Posparam.argc).sum.toNat
  mandatory : ∀ before p after, params = before ++ p :: after →
    (∀ q ∈ before, clpSubcmd q = false) → p.Mandatory → 1 ≤ p.argc
  single : ∀ p ∈ params, p.Single → p.argc ≤ 1
  later : ∀ before p after, params = before ++ p :: after →
    (∃ q ∈ before, clpSubcmd q = true) → p.argc = 0

theorem Posparam.args_of_zero {p : Posparam} (h : p.argc = 0) : p.args = [] := by
  simp [Posparam.args, h]

/-- What a parameter is assigned starts where its `argv` does. -/
theorem Posparam.args_of_argv {p : Posparam} {args : List CString} (hNonneg : 0 ≤ p.argc)
    (hArgv : 0 < p.argc → p.argv = args) : p.args = args.take p.argc.toNat := by
  by_cases hPos : 0 < p.argc
  · rw [Posparam.args, hArgv hPos]
  · have hZero : p.argc = 0 := by omega
    simp [Posparam.args, hZero]

theorem sum_argc_of_zero {params : List Posparam} (h : ∀ p ∈ params, p.argc = 0) :
    (params.map Posparam.argc).sum = 0 := by
  induction params with
  | nil => rfl
  | cons p params ih =>
      rw [List.map_cons, List.sum_cons, h p List.mem_cons_self,
        ih fun q hq => h q (List.mem_cons_of_mem _ hq), Int.add_zero]

theorem sum_argc_nonneg {params : List Posparam} (h : ∀ p ∈ params, 0 ≤ p.argc) :
    0 ≤ (params.map Posparam.argc).sum := by
  induction params with
  | nil => exact Int.le_refl 0
  | cons p params ih =>
      have hRest := ih fun q hq => h q (List.mem_cons_of_mem _ hq)
      have hHead := h p List.mem_cons_self
      rw [List.map_cons, List.sum_cons]
      omega

/-- Parameters that get nothing share out no arguments. -/
theorem Slices.of_zero {params : List Posparam} (hZero : ∀ p ∈ params, p.argc = 0)
    (hMandatory : ∀ before p after, params = before ++ p :: after →
      (∀ q ∈ before, clpSubcmd q = false) → ¬ p.Mandatory) : Slices params [] where
  nonneg p hp := (hZero p hp).ge
  covers := by
    rw [List.flatten_eq_nil_iff]
    intro l hl
    obtain ⟨p, hp, rfl⟩ := List.mem_map.mp hl
    exact Posparam.args_of_zero (hZero p hp)
  total := sum_argc_of_zero hZero
  starts before p after hSplit hPos := by
    have := hZero p (by simp [hSplit])
    omega
  mandatory before p after hSplit hBefore hMust :=
    absurd hMust (hMandatory before p after hSplit hBefore)
  single p hp _ := by
    have := hZero p hp
    omega
  later before p after hSplit _ := hZero p (by simp [hSplit])

/-- A parameter in front takes its arguments off the front. -/
theorem Slices.cons {p : Posparam} {params : List Posparam} {args : List CString}
    (hNonneg : 0 ≤ p.argc) (hFits : p.argc ≤ args.length) (hArgv : 0 < p.argc → p.argv = args)
    (hMandatory : p.Mandatory → 1 ≤ p.argc) (hSingle : p.Single → p.argc ≤ 1)
    (hSub : clpSubcmd p = false) (hRest : Slices params (args.drop p.argc.toNat)) :
    Slices (p :: params) args where
  nonneg := by simpa using ⟨hNonneg, hRest.nonneg⟩
  covers := by
    rw [List.map_cons, List.flatten_cons, hRest.covers, Posparam.args_of_argv hNonneg hArgv,
      List.take_append_drop]
  total := by
    have hTotal := hRest.total
    rw [List.length_drop] at hTotal
    rw [List.map_cons, List.sum_cons, hTotal]
    omega
  starts before q after hSplit hPos := by
    cases before with
    | nil =>
        obtain ⟨rfl, -⟩ := List.cons.inj hSplit
        simpa using hArgv hPos
    | cons b before =>
        obtain ⟨rfl, hTail⟩ := List.cons.inj hSplit
        have hSum : 0 ≤ (before.map Posparam.argc).sum :=
          sum_argc_nonneg fun r hr => hRest.nonneg r (by simp [hTail, hr])
        rw [hRest.starts before q after hTail hPos, List.drop_drop, List.map_cons, List.sum_cons,
          Int.toNat_add hNonneg hSum]
  mandatory before q after hSplit hBefore hMust := by
    cases before with
    | nil =>
        obtain ⟨rfl, -⟩ := List.cons.inj hSplit
        exact hMandatory hMust
    | cons b before =>
        obtain ⟨rfl, hTail⟩ := List.cons.inj hSplit
        exact hRest.mandatory before q after hTail
          (fun r hr => hBefore r (List.mem_cons_of_mem _ hr)) hMust
  single q hq := by
    rcases List.mem_cons.mp hq with rfl | hMem
    · exact hSingle
    · exact hRest.single q hMem
  later before q after hSplit hSome := by
    obtain ⟨r, hr, hSubcmd⟩ := hSome
    cases before with
    | nil => cases hr
    | cons b before =>
        obtain ⟨rfl, hTail⟩ := List.cons.inj hSplit
        rcases List.mem_cons.mp hr with rfl | hMem
        · exact absurd (hSub.symm.trans hSubcmd) Bool.false_ne_true
        · exact hRest.later before q after hTail ⟨r, hMem, hSubcmd⟩

/-- A subcommand takes all arguments, and the parameters after it get none. -/
theorem Slices.subcommand {p : Posparam} {params : List Posparam} {args : List CString}
    (hAll : p.argc = args.length) (hArgv : 0 < p.argc → p.argv = args)
    (hMandatory : p.Mandatory → 1 ≤ p.argc) (hSub : clpSubcmd p = true)
    (hZero : ∀ q ∈ params, q.argc = 0) : Slices (p :: params) args where
  nonneg q hq := by
    rcases List.mem_cons.mp hq with rfl | hMem
    · omega
    · exact (hZero q hMem).ge
  covers := by
    have hNone : (params.map Posparam.args).flatten = [] := by
      rw [List.flatten_eq_nil_iff]
      intro l hl
      obtain ⟨q, hq, rfl⟩ := List.mem_map.mp hl
      exact Posparam.args_of_zero (hZero q hq)
    rw [List.map_cons, List.flatten_cons, hNone, List.append_nil,
      Posparam.args_of_argv (by omega) hArgv, hAll, Int.toNat_natCast, List.take_length]
  total := by
    rw [List.map_cons, List.sum_cons, sum_argc_of_zero hZero, hAll, Int.add_zero]
  starts before q after hSplit hPos := by
    cases before with
    | nil =>
        obtain ⟨rfl, -⟩ := List.cons.inj hSplit
        simpa using hArgv hPos
    | cons b before =>
        obtain ⟨rfl, hTail⟩ := List.cons.inj hSplit
        have := hZero q (by simp [hTail])
        omega
  mandatory before q after hSplit hBefore hMust := by
    cases before with
    | nil =>
        obtain ⟨rfl, -⟩ := List.cons.inj hSplit
        exact hMandatory hMust
    | cons b before =>
        obtain ⟨rfl, -⟩ := List.cons.inj hSplit
        exact absurd (hSub.symm.trans (hBefore p List.mem_cons_self)) (by simp)
  single q hq hSingle := by
    rcases List.mem_cons.mp hq with rfl | hMem
    · exact absurd (hSub.symm.trans hSingle.2) (by simp)
    · have := hZero q hMem
      omega
  later before q after hSplit hSome := by
    obtain ⟨r, hr, -⟩ := hSome
    cases before with
    | nil => cases hr
    | cons b before =>
        obtain ⟨rfl, hTail⟩ := List.cons.inj hSplit
        exact hZero q (by simp [hTail])

/-- The brackets decide whether an argument must be there. -/
theorem setMinmax_posmin (p : Posparam) :
    ((setMinmax p).posmin = 1 ∧ p.Mandatory) ∨ ((setMinmax p).posmin = 0 ∧ ¬ p.Mandatory) := by
  by_cases h : (clpUnbracket p.name 128).1 = 0
  · exact Or.inl ⟨by simp [setMinmax, h], h⟩
  · exact Or.inr ⟨by simp [setMinmax, h], h⟩

/-- The dots decide whether there may be more than one. -/
theorem setMinmax_posmax (p : Posparam) :
    ((setMinmax p).posmax = 1 ∧ p.Single) ∨ ((setMinmax p).posmax = 1024 ∧ ¬ p.Single) := by
  unfold Posparam.Single
  by_cases hDots : endsInDots (clpUnbracket p.name 128).2 = true
  · exact Or.inr ⟨by simp [setMinmax, hDots], by simp [hDots]⟩
  · by_cases hSub : clpSubcmd p = true
    · exact Or.inr ⟨by simp [setMinmax, hDots, hSub], by simp [hSub]⟩
    · exact Or.inl ⟨by simp [setMinmax, hDots, hSub], by simpa using And.intro hDots hSub⟩

/-- A subcommand ends the vector. -/
theorem minmax_subcommand {p : Posparam} (paramv : List Posparam) (h : clpSubcmd p = true) :
    clpPosparamMinmax (p :: paramv) =
      ((setMinmax p).posmin, (setMinmax p).posmax, setMinmax p :: paramv) := by
  simp [clpPosparamMinmax, h]

theorem minmax_cons {p : Posparam} (paramv : List Posparam) (h : clpSubcmd p = false) :
    clpPosparamMinmax (p :: paramv) =
      ((setMinmax p).posmin + (clpPosparamMinmax paramv).1,
        (setMinmax p).posmax + (clpPosparamMinmax paramv).2.1,
        setMinmax p :: (clpPosparamMinmax paramv).2.2) := by
  simp [clpPosparamMinmax, h]

/-- The least number of arguments is no more than the greatest. -/
theorem minmax_le (paramv : List Posparam) :
    0 ≤ (clpPosparamMinmax paramv).1 ∧
      (clpPosparamMinmax paramv).1 ≤ (clpPosparamMinmax paramv).2.1 := by
  induction paramv with
  | nil => simp [clpPosparamMinmax]
  | cons p paramv ih =>
      have hMin := setMinmax_posmin p
      have hMax := setMinmax_posmax p
      by_cases hSub : clpSubcmd p = true
      · simp only [minmax_subcommand paramv hSub]
        omega
      · simp only [minmax_cons paramv (Bool.eq_false_of_not_eq_true hSub)]
        omega

/-- What a parameter is assigned leaves enough for the others and no more than
they can take. -/
theorem share_spec (p : Posparam) (rest restMax : Int) {argc posmin : Int} (hPos : 0 < argc)
    (hSum : posmin = (setMinmax p).posmin + rest) (hRest : 0 ≤ rest ∧ rest ≤ restMax)
    (hMin : posmin ≤ argc) (hMax : argc ≤ (setMinmax p).posmax + restMax) :
    let n := share (setMinmax p) argc posmin
    (0 ≤ n ∧ n ≤ argc ∧ rest ≤ argc - n ∧ argc - n ≤ restMax) ∧ (p.Mandatory → 1 ≤ n) ∧
      (p.Single → n ≤ 1) ∧ (¬ p.Single → rest = 0 → n = argc) := by
  rcases setMinmax_posmin p with ⟨hPosmin, hMust⟩ | ⟨hPosmin, hMust⟩ <;>
    rcases setMinmax_posmax p with ⟨hPosmax, hSingle⟩ | ⟨hPosmax, hSingle⟩
  · have hShare : share (setMinmax p) argc posmin = 1 := by simp [share, hPosmin, hPosmax]
    simp only [hShare]
    exact ⟨by omega, fun _ => by omega, fun _ => by omega, fun h => absurd hSingle h⟩
  · have hShare : share (setMinmax p) argc posmin = 1 + (argc - posmin) := by
      simp [share, hPosmin, hPosmax]
    simp only [hShare]
    exact ⟨by omega, fun _ => by omega, fun h => absurd h hSingle, fun _ _ => by omega⟩
  · have hShare : share (setMinmax p) argc posmin = if argc > posmin then 1 else 0 := by
      simp [share, hPosmin, hPosmax]
    simp only [hShare]
    split <;>
      exact ⟨by omega, fun h => absurd h hMust, fun _ => by omega, fun h => absurd hSingle h⟩
  · have hShare : share (setMinmax p) argc posmin = argc - posmin := by
      have hNot : ¬ (0 : Int) = 1 := by decide
      simp only [share, hPosmin, hPosmax, hNot, if_false]
      split
      · simp
      · omega
    simp only [hShare]
    exact ⟨by omega, fun h => absurd h hMust, fun h => absurd h hSingle, fun _ _ => by omega⟩

/-- The parameters of a vector have been given nothing yet. -/
def Unassigned (paramv : List Posparam) : Prop := ∀ p ∈ paramv, p.argc = 0

theorem Unassigned.minmax {paramv : List Posparam} (h : Unassigned paramv) :
    Unassigned (clpPosparamMinmax paramv).2.2 := by
  induction paramv with
  | nil => exact h
  | cons p paramv ih =>
      have hHead : (setMinmax p).argc = 0 := h p List.mem_cons_self
      have hTail : Unassigned paramv := fun q hq => h q (List.mem_cons_of_mem _ hq)
      by_cases hSub : clpSubcmd p = true
      · rw [minmax_subcommand paramv hSub]
        exact fun q hq => (List.mem_cons.mp hq).elim (fun he => he ▸ hHead) (hTail q)
      · rw [minmax_cons paramv (Bool.eq_false_of_not_eq_true hSub)]
        exact fun q hq => (List.mem_cons.mp hq).elim (fun he => he ▸ hHead) (ih hTail q)

/-- When nothing is needed, no parameter up to a subcommand is mandatory. -/
theorem not_mandatory_of_minmax_zero {paramv : List Posparam}
    (hZero : (clpPosparamMinmax paramv).1 = 0) {before after : List Posparam} {p : Posparam}
    (hSplit : (clpPosparamMinmax paramv).2.2 = before ++ p :: after)
    (hBefore : ∀ q ∈ before, clpSubcmd q = false) : ¬ p.Mandatory := by
  induction paramv generalizing before with
  | nil => simp [clpPosparamMinmax] at hSplit
  | cons q paramv ih =>
      have hPosmin := setMinmax_posmin q
      have hNonneg := (minmax_le paramv).1
      have hNot (hHead : (setMinmax q).posmin = 0) : ¬ (setMinmax q).Mandatory := by
        rcases setMinmax_posmin q with ⟨hOne, -⟩ | ⟨-, hNot⟩
        · omega
        · exact hNot
      by_cases hSub : clpSubcmd q = true
      · rw [minmax_subcommand paramv hSub] at hSplit hZero
        cases before with
        | nil => exact (List.cons.inj hSplit).1 ▸ hNot hZero
        | cons b before =>
            have hb := hBefore b List.mem_cons_self
            rw [← (List.cons.inj hSplit).1] at hb
            exact absurd (hSub.symm.trans hb) (by simp)
      · rw [minmax_cons paramv (Bool.eq_false_of_not_eq_true hSub)] at hSplit hZero
        simp only at hZero
        cases before with
        | nil => exact (List.cons.inj hSplit).1 ▸ hNot (by omega)
        | cons b before =>
            refine ih (by omega) (List.cons.inj hSplit).2 fun r hr => ?_
            exact hBefore r (List.mem_cons_of_mem _ hr)

theorem distribute_nil (params : List Posparam) (posmin : Int) :
    distribute params 0 posmin [] = params := by
  cases params <;> simp [distribute]

/-- With no arguments the loop leaves every parameter alone. -/
theorem distribute_none {paramv : List Posparam} (hNone : Unassigned paramv)
    (hMin : (clpPosparamMinmax paramv).1 ≤ 0) :
    Slices (distribute (clpPosparamMinmax paramv).2.2 0 (clpPosparamMinmax paramv).1 []) [] := by
  have hZero : (clpPosparamMinmax paramv).1 = 0 := Int.le_antisymm hMin (minmax_le paramv).1
  rw [distribute_nil]
  exact Slices.of_zero hNone.minmax fun before q after hSplit hBefore =>
    not_mandatory_of_minmax_zero hZero hSplit hBefore

/-- One pass of the loop. What it leaves is again enough for the parameters that
follow, and no more than they take. -/
theorem distribute_cons {p : Posparam} (paramv : List Posparam) (hSub : clpSubcmd p = false)
    {args : List CString} (hArgs : args ≠ [])
    (hMin : (clpPosparamMinmax (p :: paramv)).1 ≤ args.length)
    (hMax : args.length ≤ (clpPosparamMinmax (p :: paramv)).2.1) :
    let n := share (setMinmax p) args.length (clpPosparamMinmax (p :: paramv)).1
    let left := args.drop n.toNat
    distribute (clpPosparamMinmax (p :: paramv)).2.2 args.length
        (clpPosparamMinmax (p :: paramv)).1 args =
      { setMinmax p with argv := args, argc := n } ::
        distribute (clpPosparamMinmax paramv).2.2 left.length (clpPosparamMinmax paramv).1 left ∧
    (0 ≤ n ∧ n ≤ args.length) ∧ (p.Mandatory → 1 ≤ n) ∧ (p.Single → n ≤ 1) ∧
    (clpPosparamMinmax paramv).1 ≤ left.length ∧ left.length ≤ (clpPosparamMinmax paramv).2.1 := by
  intro n left
  have hPos : (args.length : Int) > 0 := by
    have := List.length_pos_iff.mpr hArgs
    omega
  have hShape : clpSubcmd (setMinmax p) = false := hSub
  have hn : n = share (setMinmax p) args.length
      ((setMinmax p).posmin + (clpPosparamMinmax paramv).1) := by
    simp only [n, minmax_cons paramv hSub]
  rw [minmax_cons paramv hSub] at hMin hMax ⊢
  obtain ⟨hBounds, hMust, hOne, -⟩ := share_spec p _ _ hPos rfl (minmax_le paramv) hMin hMax
  rw [← hn] at hBounds hMust hOne
  have hLeft : (left.length : Int) = args.length - n := by
    rw [List.length_drop]
    omega
  have hNeed : (if (setMinmax p).posmin = 1
        then (setMinmax p).posmin + (clpPosparamMinmax paramv).1 - 1
        else (setMinmax p).posmin + (clpPosparamMinmax paramv).1) =
      (clpPosparamMinmax paramv).1 := by
    rcases setMinmax_posmin p with ⟨hPosmin, -⟩ | ⟨hPosmin, -⟩ <;>
      rw [hPosmin] <;> split <;> omega
  refine ⟨?_, by omega, hMust, hOne, by omega, by omega⟩
  simp only [distribute, hPos, if_true, hShape, Bool.false_eq_true, if_false, hNeed, hLeft, ← hn]
  rfl

/-- The pass for a subcommand is the last. -/
theorem distribute_subcommand {p : Posparam} (paramv : List Posparam) (hSub : clpSubcmd p = true)
    {args : List CString} (hArgs : args ≠ [])
    (hMin : (clpPosparamMinmax (p :: paramv)).1 ≤ args.length)
    (hMax : args.length ≤ (clpPosparamMinmax (p :: paramv)).2.1) :
    distribute (clpPosparamMinmax (p :: paramv)).2.2 args.length
        (clpPosparamMinmax (p :: paramv)).1 args =
      { setMinmax p with argv := args, argc := args.length } :: paramv := by
  have hPos : (args.length : Int) > 0 := by
    have := List.length_pos_iff.mpr hArgs
    omega
  have hShape : clpSubcmd (setMinmax p) = true := hSub
  have hNotSingle : ¬ p.Single := fun h => absurd (hSub.symm.trans h.2) (by simp)
  rw [minmax_subcommand paramv hSub] at hMin hMax ⊢
  obtain ⟨-, -, -, hMany⟩ := share_spec p 0 0 hPos
    (Int.add_zero _).symm (by omega) hMin (by simpa using hMax)
  simp only [distribute, hPos, if_true, hShape, hMany hNotSingle rfl]

/-- The greedy loop cuts the arguments into slices, when there are as many as the
parameters need and no more than they take. -/
theorem distribute_slices (paramv : List Posparam) (hNone : Unassigned paramv)
    (args : List CString) (hMin : (clpPosparamMinmax paramv).1 ≤ args.length)
    (hMax : args.length ≤ (clpPosparamMinmax paramv).2.1) :
    Slices (distribute (clpPosparamMinmax paramv).2.2 args.length (clpPosparamMinmax paramv).1 args)
      args := by
  induction paramv generalizing args with
  | nil =>
      have hArgs : args = [] := by
        rw [← List.length_eq_zero_iff]
        simp only [clpPosparamMinmax] at hMax
        omega
      subst hArgs
      exact distribute_none hNone hMin
  | cons p paramv ih =>
      by_cases hArgs : args = []
      · subst hArgs
        exact distribute_none hNone hMin
      have hTail : Unassigned paramv := fun q hq => hNone q (List.mem_cons_of_mem _ hq)
      by_cases hSub : clpSubcmd p = true
      · rw [distribute_subcommand paramv hSub hArgs hMin hMax]
        apply Slices.subcommand
        · rfl
        · exact fun _ => rfl
        · intro _
          have := List.length_pos_iff.mpr hArgs
          simp only
          omega
        · exact hSub
        · exact hTail
      · have hNotSub := Bool.eq_false_of_not_eq_true hSub
        obtain ⟨hPass, hBounds, hMust, hOne, hMinLeft, hMaxLeft⟩ :=
          distribute_cons paramv hNotSub hArgs hMin hMax
        rw [hPass]
        apply Slices.cons
        · exact hBounds.1
        · exact hBounds.2
        · exact fun _ => rfl
        · exact hMust
        · exact hOne
        · exact hNotSub
        · exact ih hTail _ hMinLeft hMaxLeft

/-- The parser changes only its own fields of a parameter. -/
@[simp] theorem setMinmax_reset (p : Posparam) : (setMinmax p).reset = p.reset := rfl

/-- Of a parameter only the two bounds change. -/
theorem minmax_reset (paramv : List Posparam) :
    (clpPosparamMinmax paramv).2.2.map Posparam.reset = paramv.map Posparam.reset := by
  induction paramv with
  | nil => rfl
  | cons p paramv ih =>
      by_cases hSub : clpSubcmd p = true
      · rw [minmax_subcommand paramv hSub, List.map_cons, List.map_cons, setMinmax_reset]
      · rw [minmax_cons paramv (Bool.eq_false_of_not_eq_true hSub), List.map_cons, List.map_cons,
          setMinmax_reset, ih]

/-- Only the arguments change. -/
theorem distribute_reset (params : List Posparam) (argc posmin : Int) (argv : List CString) :
    (distribute params argc posmin argv).map Posparam.reset = params.map Posparam.reset := by
  induction params generalizing argc posmin argv with
  | nil => rfl
  | cons p params ih =>
      simp only [distribute]
      split
      · split
        · rfl
        · rw [List.map_cons, ih]
          rfl
      · rfl

/-- The counts depend on what the caller gives of a parameter. -/
theorem minmax_of_reset (paramv : List Posparam) :
    (clpPosparamMinmax (paramv.map Posparam.reset)).1 = (clpPosparamMinmax paramv).1 ∧
      (clpPosparamMinmax (paramv.map Posparam.reset)).2.1 = (clpPosparamMinmax paramv).2.1 := by
  induction paramv with
  | nil => exact ⟨rfl, rfl⟩
  | cons p paramv ih =>
      have hMin : (setMinmax p.reset).posmin = (setMinmax p).posmin := rfl
      have hMax : (setMinmax p.reset).posmax = (setMinmax p).posmax := rfl
      have hSame : clpSubcmd p.reset = clpSubcmd p := rfl
      rw [List.map_cons]
      by_cases hSub : clpSubcmd p = true
      · rw [minmax_subcommand _ hSub, minmax_subcommand _ (hSame.trans hSub)]
        exact ⟨hMin, hMax⟩
      · have hNotSub := Bool.eq_false_of_not_eq_true hSub
        rw [minmax_cons _ hNotSub, minmax_cons _ (hSame.trans hNotSub), hMin, hMax, ih.1, ih.2]
        exact ⟨rfl, rfl⟩

/-- So a parse starts. -/
theorem unassigned_reset (paramv : List Posparam) : Unassigned (paramv.map Posparam.reset) := by
  intro p hp
  obtain ⟨q, -, rfl⟩ := List.mem_map.mp hp
  rfl

/-- The two ways past the option loop with a positional vector. -/
theorem parsePositional_some (mem : VecId → List Posparam) (v : VecId) (afterRcs : List Int)
    (argv : List CString) :
    let counts := clpPosparamMinmax (mem v)
    let parse := parsePositional mem (some v) afterRcs argv
    (¬ (counts.1 ≤ argv.length ∧ argv.length ≤ counts.2.1) →
      parse = ⟨EX_USAGE, update mem v counts.2.2, none, []⟩) ∧
    (counts.1 ≤ argv.length ∧ argv.length ≤ counts.2.1 → ∀ rc, stopAt afterRcs = some rc →
      parse = ⟨rc, update mem v counts.2.2, none, []⟩) ∧
    (counts.1 ≤ argv.length ∧ argv.length ≤ counts.2.1 → stopAt afterRcs = none →
      let params := distribute counts.2.2 argv.length counts.1 argv
      parse.assigned = some params ∧ parse.mem = update mem v params ∧
        parse.calls = (convertAll 0 params).1) := by
  refine ⟨fun hNot => ?_, fun hIn rc hStop => ?_, fun hIn hStop => ?_⟩
  · have hOut : (argv.length : Int) < (clpPosparamMinmax (mem v)).1 ∨
        (argv.length : Int) > (clpPosparamMinmax (mem v)).2.1 := by omega
    simp only [parsePositional, hOut, if_true]
  · have hNot : ¬ ((argv.length : Int) < (clpPosparamMinmax (mem v)).1 ∨
        (argv.length : Int) > (clpPosparamMinmax (mem v)).2.1) := by omega
    simp only [parsePositional, hNot, if_false, hStop]
  · have hNot : ¬ ((argv.length : Int) < (clpPosparamMinmax (mem v)).1 ∨
        (argv.length : Int) > (clpPosparamMinmax (mem v)).2.1) := by omega
    simp [parsePositional, hNot, hStop]

section
variable (getopt : List ClpOption → List CString → Scan) (mem : VecId → List Posparam)
  (argv : List CString) (optionv : List ClpOption)

/-- Past the option loop only the positional arguments are left. -/
theorem clpParsev_of_ok (hArgv : argv ≠ []) {paramv : Option VecId}
    {st : OptState (trimOptions optionv)}
    (hLoop : optionLoop (trimOptions optionv) (OptState.start _ paramv)
      (getopt (trimOptions optionv) argv).events = .ok st) :
    clpParsev getopt mem argv optionv paramv =
      parsePositional (resetMain paramv mem) st.paramv st.afterRcs
        (getopt (trimOptions optionv) argv).rest := by
  have hNotEmpty : argv.isEmpty = false := by simpa using hArgv
  simp only [clpParsev, hNotEmpty, Bool.false_eq_true, if_false, hLoop]

/-- A parse that does not get past it leaves the parameters alone. -/
theorem clpParsev_of_error (hArgv : argv ≠ []) {paramv : Option VecId}
    {stop : Stop (trimOptions optionv)}
    (hLoop : optionLoop (trimOptions optionv) (OptState.start _ paramv)
      (getopt (trimOptions optionv) argv).events = .error stop) :
    clpParsev getopt mem argv optionv paramv = ⟨stop.rc, resetMain paramv mem, none, []⟩ := by
  have hNotEmpty : argv.isEmpty = false := by simpa using hArgv
  simp only [clpParsev, hNotEmpty, Bool.false_eq_true, if_false, hLoop]

/-- Whatever parameters are passed as `paramv` and however many arguments remain
for them: if there are neither too few nor too many, the arguments are cut into
slices, one for each parameter. Otherwise the parse fails with EX_USAGE, and no
argument is converted. -/
theorem positional_arguments (hArgv : argv ≠ []) (v : VecId) (st : OptState (trimOptions optionv))
    (hLoop : optionLoop (trimOptions optionv) (OptState.start _ (some v))
      (getopt (trimOptions optionv) argv).events = .ok st)
    (hSame : st.paramv = some v) :
    let args := (getopt (trimOptions optionv) argv).rest
    let parse := clpParsev getopt mem argv optionv (some v)
    if (clpPosparamMinmax (mem v)).1 ≤ args.length ∧ args.length ≤ (clpPosparamMinmax (mem v)).2.1 then
      (stopAt st.afterRcs = none → parse.assigned ≠ none) ∧
        ∀ params, parse.assigned = some params →
          params.map Posparam.reset = (mem v).map Posparam.reset ∧ Slices params args
    else parse.rc = EX_USAGE ∧ parse.assigned = none ∧ parse.calls = [] := by
  intro args parse
  have hParse : parse = parsePositional (update mem v ((mem v).map Posparam.reset)) (some v)
      st.afterRcs args := hSame ▸ clpParsev_of_ok getopt mem argv optionv hArgv hLoop
  obtain ⟨hMin, hMax⟩ := minmax_of_reset (mem v)
  obtain ⟨hUsage, hAfter, hAssign⟩ := parsePositional_some
    (update mem v ((mem v).map Posparam.reset)) v st.afterRcs args
  rw [← hParse, Function.update_self, hMin, hMax] at hUsage hAfter hAssign
  split
  · next hIn =>
      refine ⟨fun hNone => by simp [(hAssign hIn hNone).1], fun params hParams => ?_⟩
      cases hStop : stopAt st.afterRcs with
      | some rc =>
          rw [hAfter hIn rc hStop] at hParams
          cases hParams
      | none =>
          rw [(hAssign hIn hStop).1] at hParams
          obtain rfl := Option.some.inj hParams
          refine ⟨?_, ?_⟩
          · rw [distribute_reset, minmax_reset]
            simp [Posparam.reset]
          · have hSlices := distribute_slices ((mem v).map Posparam.reset) (unassigned_reset _) args
            rw [hMin, hMax] at hSlices
            exact hSlices hIn.1 hIn.2
  · next hOut =>
      rw [hUsage hOut]
      exact ⟨rfl, rfl, rfl⟩

end

/-- A parameter as a caller writes it, with a conversion that succeeds. -/
def posparam (name : CString) : Posparam :=
  ⟨name, some fun _ => 0, false, [], none, none, 0, 0, 0, []⟩

/-- `rhostpath` and `[length]`, the parameters of the READ test. -/
def readParams : List Posparam := [posparam "rhostpath".toList, posparam "[length]".toList]

def noOptions (_ : List ClpOption) (argv : List CString) : Scan := ⟨[], argv.tail⟩

/-- A host and a length. -/
theorem positional_arguments_readParams :
    ∃ params, (clpParsev noOptions (fun _ => readParams) [['r'], ['h'], ['8']] [] (some 0)).assigned =
      some params ∧ Slices params [['h'], ['8']] := by
  have h := positional_arguments noOptions (fun _ => readParams) [['r'], ['h'], ['8']] []
    (by simp) 0 (OptState.start _ (some 0)) rfl rfl
  rw [if_pos (by decide)] at h
  obtain ⟨hSome, hSlices⟩ := h
  obtain ⟨params, hParams⟩ := Option.ne_none_iff_exists'.mp (hSome rfl)
  exact ⟨params, hParams, (hSlices params hParams).2⟩

end Nct
