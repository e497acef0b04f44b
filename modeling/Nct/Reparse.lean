import Nct.Positional

/-! What one parse leaves behind for the next. The vector passed as `paramv` is
reset by `clp_parsev`; an option's own vector is not, and the loop that shares
out the arguments stops at the last parameter that gets one. -/
namespace Nct

open Function (update)

instance (param : Posparam) : Decidable param.Mandatory :=
  inferInstanceAs (Decidable (_ = _))

instance (param : Posparam) : Decidable param.Single :=
  inferInstanceAs (Decidable (_ ∧ _))

/-- What a parameter leaves of the arguments that no mandatory one needs. -/
def Posparam.leaves (param : Posparam) (surplus : Int) : Int :=
  if param.Single then if param.Mandatory then surplus else max (surplus - 1) 0 else 0

/-- How many parameters there are up to the last one that gets an argument, when
there are `surplus` more arguments than the mandatory ones need. -/
def reach : List Posparam → Int → Nat
  | [], _ => 0
  | param :: paramv, surplus =>
      let rest := if clpSubcmd param then 0 else reach paramv (param.leaves surplus)
      if 0 < rest then rest + 1
      else if param.Mandatory ∨ 0 < surplus then 1 else 0

/-- The arguments beyond those that the mandatory parameters need. -/
def surplus (paramv : List Posparam) (args : List CString) : Int :=
  args.length - (clpPosparamMinmax paramv).1

def InRange (paramv : List Posparam) (args : List CString) : Prop :=
  (clpPosparamMinmax paramv).1 ≤ args.length ∧ args.length ≤ (clpPosparamMinmax paramv).2.1

instance (paramv : List Posparam) (args : List CString) : Decidable (InRange paramv args) :=
  inferInstanceAs (Decidable (_ ∧ _))

/-- The slices that the loop makes. -/
def slicesOf (paramv : List Posparam) (args : List CString) : List (List CString) :=
  (distribute (clpPosparamMinmax paramv).2.2 args.length (clpPosparamMinmax paramv).1 args).map
    Posparam.args

/-- What a parameter takes of the surplus. -/
theorem share_leaves (p : Posparam) (argc rest : Int)
    (hMin : (setMinmax p).posmin + rest ≤ argc) :
    argc - share (setMinmax p) argc ((setMinmax p).posmin + rest) - rest =
      p.leaves (argc - ((setMinmax p).posmin + rest)) := by
  rcases setMinmax_posmin p with ⟨hPosmin, hMust⟩ | ⟨hPosmin, hMust⟩ <;>
    rcases setMinmax_posmax p with ⟨hPosmax, hSingle⟩ | ⟨hPosmax, hSingle⟩ <;>
    simp only [hPosmin] at hMin ⊢
  · simp [share, hPosmin, hPosmax, Posparam.leaves, hSingle, hMust]
    omega
  · simp [share, hPosmin, hPosmax, Posparam.leaves, hSingle]
    omega
  · simp [share, hPosmin, hPosmax, Posparam.leaves, hSingle, hMust]
    split <;> omega
  · simp [share, hPosmin, hPosmax, Posparam.leaves, hSingle]
    split <;> omega

theorem minmax_args (paramv : List Posparam) :
    (clpPosparamMinmax paramv).2.2.map Posparam.args = paramv.map Posparam.args := by
  induction paramv with
  | nil => rfl
  | cons p paramv ih =>
      have hHead : (setMinmax p).args = p.args := rfl
      by_cases hSub : clpSubcmd p = true
      · rw [minmax_subcommand paramv hSub, List.map_cons, List.map_cons, hHead]
      · rw [minmax_cons paramv (Bool.eq_false_of_not_eq_true hSub), List.map_cons, List.map_cons,
          hHead, ih]

/-- Vectors that differ only in what the parser has written to them. -/
def SameParams (paramv paramv' : List Posparam) : Prop :=
  paramv.map Posparam.reset = paramv'.map Posparam.reset

theorem length_of_same {paramv paramv' : List Posparam} (h : SameParams paramv paramv') :
    paramv.length = paramv'.length := by
  simpa only [List.length_map] using congrArg List.length h

/-- How many arguments a vector takes does not depend on those it was given. -/
theorem SameParams.minmax {paramv paramv' : List Posparam} (h : SameParams paramv paramv') :
    (clpPosparamMinmax paramv).1 = (clpPosparamMinmax paramv').1 ∧
      (clpPosparamMinmax paramv).2.1 = (clpPosparamMinmax paramv').2.1 := by
  rw [← (minmax_of_reset paramv).1, ← (minmax_of_reset paramv).2, h,
    (minmax_of_reset paramv').1, (minmax_of_reset paramv').2]
  exact ⟨rfl, rfl⟩

/-- Nothing is left over when there are no arguments. -/
theorem reach_of_le {paramv : List Posparam} (hZero : (clpPosparamMinmax paramv).1 = 0)
    {n : Int} (hn : n ≤ 0) : reach paramv n = 0 := by
  induction paramv generalizing n with
  | nil => rfl
  | cons p paramv ih =>
      have hNonneg := (minmax_le paramv).1
      have hLeaves : p.leaves n ≤ 0 := by
        unfold Posparam.leaves
        split
        · split <;> omega
        · omega
      by_cases hSub : clpSubcmd p = true
      · rw [minmax_subcommand paramv hSub] at hZero
        rcases setMinmax_posmin p with ⟨hPosmin, -⟩ | ⟨-, hMust⟩
        · exact absurd (hPosmin.symm.trans hZero) (by decide)
        · simp [reach, hSub, hMust, hn]
      · rw [minmax_cons paramv (Bool.eq_false_of_not_eq_true hSub)] at hZero
        simp only at hZero
        rcases setMinmax_posmin p with ⟨hPosmin, -⟩ | ⟨hPosmin, hMust⟩
        · omega
        · simp [reach, hSub, hMust, hn, ih (by omega) hLeaves]

theorem reach_le (paramv : List Posparam) (n : Int) : reach paramv n ≤ paramv.length := by
  induction paramv generalizing n with
  | nil => exact Nat.le_refl 0
  | cons p paramv ih =>
      have hRest := ih (p.leaves n)
      simp only [reach, List.length_cons]
      split_ifs <;> omega

/-- With no arguments the loop keeps what every parameter had. -/
theorem slicesOf_nil (paramv : List Posparam) : slicesOf paramv [] = paramv.map Posparam.args := by
  rw [slicesOf, List.length_nil, Int.natCast_zero, distribute_nil, minmax_args]

/-- An optional parameter gets nothing when all arguments are needed elsewhere. -/
theorem share_optional {p : Posparam} (hOptional : ¬ p.Mandatory) (argc posmin : Int)
    (hNone : ¬ argc > posmin) : share (setMinmax p) argc posmin = 0 := by
  rcases setMinmax_posmin p with ⟨-, hMust⟩ | ⟨hPosmin, -⟩
  · exact absurd hMust hOptional
  · simp [share, hPosmin, hNone]

/-- A parameter that the parser has written to is as before for `share`. -/
theorem share_of_reset {p q : Posparam} (h : q.reset = p.reset) (argc posmin : Int) :
    share (setMinmax q) argc posmin = share (setMinmax p) argc posmin ∧
      clpSubcmd q = clpSubcmd p := by
  have hShare : ∀ r : Posparam,
      share (setMinmax r) argc posmin = share (setMinmax r.reset) argc posmin := fun _ => rfl
  have hSub : ∀ r : Posparam, clpSubcmd r = clpSubcmd r.reset := fun _ => rfl
  rw [hShare q, hShare p, hSub q, hSub p, h]
  exact ⟨rfl, rfl⟩

theorem slicesOf_cons {p : Posparam} {paramv : List Posparam} (hSub : clpSubcmd p = false)
    {args : List CString} (hArgs : args ≠ []) (hRange : InRange (p :: paramv) args) :
    let n := share (setMinmax p) args.length (clpPosparamMinmax (p :: paramv)).1
    slicesOf (p :: paramv) args = args.take n.toNat :: slicesOf paramv (args.drop n.toNat) := by
  intro n
  rw [slicesOf, (distribute_cons paramv hSub hArgs hRange.1 hRange.2).1]
  rfl

theorem slicesOf_subcommand {p : Posparam} {paramv : List Posparam} (hSub : clpSubcmd p = true)
    {args : List CString} (hArgs : args ≠ []) (hRange : InRange (p :: paramv) args) :
    slicesOf (p :: paramv) args = args :: paramv.map Posparam.args := by
  rw [slicesOf, distribute_subcommand paramv hSub hArgs hRange.1 hRange.2]
  simp [Posparam.args]

/-- Whether arguments are in range does not depend on those given before. -/
theorem SameParams.inRange {paramv paramv' : List Posparam} (h : SameParams paramv' paramv)
    {args : List CString} : InRange paramv' args ↔ InRange paramv args := by
  rw [InRange, InRange, h.minmax.1, h.minmax.2]

/-- The loop makes the slices `front`, as far as the arguments reach, the last of
them not empty. The parameters after that keep what they had. -/
structure Fills (paramv : List Posparam) (args : List CString) (front : List (List CString)) :
    Prop where
  length : front.length = reach paramv (surplus paramv args)
  last : ∀ slice, front.getLast? = some slice → slice ≠ []
  none : front = [] → args = []
  slices : ∀ paramv', SameParams paramv' paramv →
    slicesOf paramv' args = front ++ (paramv'.map Posparam.args).drop front.length

/-- Without arguments nothing is filled. -/
theorem Fills.nil {paramv : List Posparam} (hRange : InRange paramv []) : Fills paramv [] [] where
  length := by
    have hZero : (clpPosparamMinmax paramv).1 = 0 := Int.le_antisymm hRange.1 (minmax_le paramv).1
    exact (reach_of_le hZero (by simp [surplus, hZero])).symm
  last := by simp
  none _ := rfl
  slices paramv' _ := slicesOf_nil paramv'

/-- A subcommand gets all that is left. -/
theorem Fills.subcommand {p : Posparam} {paramv : List Posparam} {args : List CString}
    (hSub : clpSubcmd p = true) (hArgs : args ≠ []) (hRange : InRange (p :: paramv) args) :
    Fills (p :: paramv) args [args] where
  length := by
    have hPos := List.length_pos_iff.mpr hArgs
    have hSome : p.Mandatory ∨ 0 < surplus (p :: paramv) args := by
      rcases setMinmax_posmin p with ⟨-, hMust⟩ | ⟨hPosmin, -⟩
      · exact Or.inl hMust
      · right
        rw [surplus, minmax_subcommand paramv hSub, hPosmin]
        omega
    simp [reach, hSub, hSome]
  last := by simpa using hArgs
  none := by simp
  slices paramv' hSame := by
    cases paramv' with
    | nil => simp [SameParams] at hSame
    | cons q paramv' =>
        obtain ⟨hHead, -⟩ := List.cons.inj hSame
        have hSubq := (share_of_reset hHead 0 0).2.trans hSub
        rw [slicesOf_subcommand hSubq hArgs (hSame.inRange.mpr hRange)]
        rfl

/-- What a parameter leaves of the surplus is the surplus of those after it. -/
theorem surplus_drop {p : Posparam} {paramv : List Posparam} {args : List CString} {n : Int}
    (hSub : clpSubcmd p = false) (hMin : (clpPosparamMinmax (p :: paramv)).1 ≤ args.length)
    (hn : share (setMinmax p) args.length (clpPosparamMinmax (p :: paramv)).1 = n)
    (hBounds : 0 ≤ n ∧ n ≤ args.length) :
    surplus paramv (args.drop n.toNat) = p.leaves (surplus (p :: paramv) args) := by
  have hHead : (clpPosparamMinmax (p :: paramv)).1 =
      (setMinmax p).posmin + (clpPosparamMinmax paramv).1 := by rw [minmax_cons paramv hSub]
  have hLeaves := share_leaves p args.length (clpPosparamMinmax paramv).1 (hHead ▸ hMin)
  rw [← hHead, hn] at hLeaves
  rw [surplus, surplus, ← hLeaves, List.length_drop]
  omega

/-- A parameter gets its share, and those after it get the rest. -/
theorem Fills.cons {p : Posparam} {paramv : List Posparam} {args : List CString} {n : Int}
    {front : List (List CString)} (hSub : clpSubcmd p = false) (hArgs : args ≠ [])
    (hRange : InRange (p :: paramv) args)
    (hn : share (setMinmax p) args.length (clpPosparamMinmax (p :: paramv)).1 = n)
    (hBounds : 0 ≤ n ∧ n ≤ args.length) (h : Fills paramv (args.drop n.toNat) front) :
    Fills (p :: paramv) args (args.take n.toNat :: front) := by
  have hLength := h.length
  rw [surplus_drop hSub hRange.1 hn hBounds] at hLength
  have hAll (hFront : front = []) : args.take n.toNat = args := by
    rw [← List.append_nil (args.take n.toNat), ← h.none hFront, List.take_append_drop]
  have hSome (hFront : front = []) : p.Mandatory ∨ 0 < surplus (p :: paramv) args := by
    by_contra hNeither
    have hOptional := share_optional (fun h => hNeither (Or.inl h)) args.length
      (clpPosparamMinmax (p :: paramv)).1 (fun h => hNeither (Or.inr (by rw [surplus]; omega)))
    rw [hn] at hOptional
    exact hArgs (by simpa [hOptional] using (hAll hFront).symm)
  constructor
  · rw [List.length_cons, hLength]
    by_cases hFront : front = []
    · have hZero : reach paramv (p.leaves (surplus (p :: paramv) args)) = 0 := by
        rw [← hLength, hFront, List.length_nil]
      simp [reach, hSub, hZero, hSome hFront]
    · have hPositive : 0 < reach paramv (p.leaves (surplus (p :: paramv) args)) := by
        rw [← hLength]
        exact List.length_pos_iff.mpr hFront
      simp [reach, hSub, hPositive]
  · intro slice hSlice
    by_cases hFront : front = []
    · rw [hFront, hAll hFront] at hSlice
      obtain rfl : args = slice := by simpa using hSlice
      exact hArgs
    · obtain ⟨x, rest, rfl⟩ := List.exists_cons_of_ne_nil hFront
      exact h.last slice (by simpa [List.getLast?_cons_cons] using hSlice)
  · simp
  · intro paramv' hSame
    cases paramv' with
    | nil => simp [SameParams] at hSame
    | cons q paramv' =>
        obtain ⟨hHead, hTail⟩ := List.cons.inj hSame
        have hRange' := hSame.inRange.mpr hRange
        have hShare := share_of_reset hHead args.length (clpPosparamMinmax (q :: paramv')).1
        rw [slicesOf_cons (hShare.2.trans hSub) hArgs hRange', hShare.1, hSame.minmax.1, hn,
          h.slices paramv' hTail]
        rfl

/-- Arguments in range are distributed so. -/
theorem exists_fills (paramv : List Posparam) (args : List CString) (hRange : InRange paramv args) :
    ∃ front, Fills paramv args front := by
  induction paramv generalizing args with
  | nil =>
      have hArgs : args = [] := by
        obtain ⟨-, hMax⟩ := hRange
        rw [← List.length_eq_zero_iff]
        simp only [clpPosparamMinmax] at hMax
        omega
      subst hArgs
      exact ⟨[], Fills.nil hRange⟩
  | cons p paramv ih =>
      by_cases hArgs : args = []
      · subst hArgs
        exact ⟨[], Fills.nil hRange⟩
      by_cases hSub : clpSubcmd p = true
      · exact ⟨[args], Fills.subcommand hSub hArgs hRange⟩
      · have hNotSub := Bool.eq_false_of_not_eq_true hSub
        obtain ⟨-, hBounds, -, -, hLeft⟩ :=
          distribute_cons paramv hNotSub hArgs hRange.1 hRange.2
        obtain ⟨front, hFront⟩ := ih _ hLeft
        exact ⟨_, Fills.cons hNotSub hArgs hRange rfl hBounds hFront⟩

/-- No parameter has arguments. -/
def Idle (paramv : List Posparam) : Prop := ∀ p ∈ paramv, p.args = []

theorem idle_reset (paramv : List Posparam) : Idle (paramv.map Posparam.reset) := by
  intro p hp
  obtain ⟨q, -, rfl⟩ := List.mem_map.mp hp
  rfl

/-- A vector that is idle shows no arguments. -/
theorem Idle.args {paramv : List Posparam} (h : Idle paramv) :
    paramv.map Posparam.args = List.replicate paramv.length [] := by
  rw [List.eq_replicate_iff, List.length_map]
  refine ⟨rfl, fun slice hSlice => ?_⟩
  obtain ⟨p, hp, rfl⟩ := List.mem_map.mp hSlice
  exact h p hp

theorem Idle.minmax {paramv : List Posparam} (h : Idle paramv) :
    Idle (clpPosparamMinmax paramv).2.2 := by
  intro p hp
  have hArgs : p.args ∈ (clpPosparamMinmax paramv).2.2.map Posparam.args := List.mem_map_of_mem hp
  rw [minmax_args] at hArgs
  obtain ⟨q, hq, he⟩ := List.mem_map.mp hArgs
  rw [← he, h q hq]

/-- Slices left in idle parameters are seen past `k` just if they go past `k`. -/
theorem drop_stale_iff {front : List (List CString)} {n k : Nat} (hLength : front.length ≤ n)
    (hLast : ∀ slice, front.getLast? = some slice → slice ≠ []) :
    (front ++ (List.replicate n []).drop front.length).drop k = (List.replicate n []).drop k ↔
      front.length ≤ k := by
  constructor
  · intro hSame
    by_contra hLt
    have hIndex : front.length - 1 < front.length := by omega
    have hStale : (front ++ (List.replicate n []).drop front.length)[front.length - 1]? =
        (List.replicate n [])[front.length - 1]? := by
      have hAt := congrArg (·[front.length - 1 - k]?) hSame
      simp only [List.getElem?_drop] at hAt
      rwa [show k + (front.length - 1 - k) = front.length - 1 by omega] at hAt
    rw [List.getElem?_append_left hIndex, ← List.getLast?_eq_getElem?,
      List.getElem?_replicate_of_lt (by omega)] at hStale
    exact hLast [] hStale rfl
  · intro hLe
    rw [List.drop_append, List.drop_eq_nil_of_le hLe, List.nil_append, List.drop_drop,
      Nat.add_sub_cancel' hLe]

/-- The calls made depend on what the caller gives of the parameters and on the slices. -/
theorem convertAll_congr {params params' : List Posparam} (hSame : SameParams params params')
    (hArgs : params.map Posparam.args = params'.map Posparam.args) (k : Nat) :
    convertAll k params = convertAll k params' := by
  induction params generalizing params' k with
  | nil =>
      have hNil : params' = [] := List.map_eq_nil_iff.mp hSame.symm
      rw [hNil]
  | cons p params ih =>
      cases params' with
      | nil => simp [SameParams] at hSame
      | cons q params' =>
          obtain ⟨hHead, hTail⟩ := List.cons.inj hSame
          obtain ⟨hHeadArgs, hTailArgs⟩ := List.cons.inj hArgs
          have hCalls (args : List CString) : convertArgs k p args = convertArgs k q args := by
            obtain ⟨hCvt, hAction⟩ : p.reset.cvtfunc = q.reset.cvtfunc ∧
                p.reset.action = q.reset.action := by simp [hHead]
            simp only [Posparam.reset] at hCvt hAction
            induction args with
            | nil => rfl
            | cons arg args ihArgs => simp only [convertArgs, hCvt, hAction, hHeadArgs, ihArgs]
          simp only [convertAll, hHeadArgs, hCalls, ih hTail hTailArgs]

section
variable (getopt : List ClpOption → List CString → Scan) (optionv : List ClpOption)
  (paramv : Option VecId)

/-- The vector to which a command line's arguments are assigned, if it gets that
far, and these arguments. -/
def assignsTo (mem : VecId → List Posparam) (argv : List CString) :
    Option (VecId × List CString) :=
  let scan := getopt (trimOptions optionv) argv
  if argv.isEmpty then none
  else
    match optionLoop (trimOptions optionv) (OptState.start _ paramv) scan.events with
    | .error _ => none
    | .ok st =>
        match st.paramv with
        | none => none
        | some v =>
            if InRange (mem v) scan.rest ∧ stopAt st.afterRcs = none then some (v, scan.rest)
            else none

/-- Resetting changes nothing but arguments. -/
theorem resetMain_same (mem : VecId → List Posparam) (v : VecId) :
    SameParams (resetMain paramv mem v) (mem v) := by
  cases paramv with
  | none => rfl
  | some u =>
      by_cases hv : v = u
      · subst hv
        simp [resetMain, SameParams, Posparam.reset]
      · simp [resetMain, SameParams, Function.update_of_ne hv]

theorem resetMain_idle {mem : VecId → List Posparam} {v : VecId} (h : Idle (mem v)) :
    Idle (resetMain paramv mem v) := by
  cases paramv with
  | none => exact h
  | some u =>
      by_cases hv : v = u
      · subst hv
        simpa [resetMain] using idle_reset (mem v)
      · simpa [resetMain, Function.update_of_ne hv] using h

/-- To which vector a parse assigns does not depend on what was assigned before. -/
theorem assignsTo_congr {mem mem' : VecId → List Posparam}
    (hSame : ∀ v, SameParams (mem' v) (mem v)) (argv : List CString) :
    assignsTo getopt optionv paramv mem' argv = assignsTo getopt optionv paramv mem argv := by
  simp only [assignsTo, (hSame _).inRange]

/-- The vectors are the caller's in all but what the parser writes to them. -/
theorem sameParams_update {mem mem' : VecId → List Posparam} {v : VecId} {params : List Posparam}
    (hSame : ∀ w, SameParams (mem' w) (mem w)) (hParams : SameParams params (mem v)) (w : VecId) :
    SameParams (update mem' v params w) (mem w) := by
  by_cases hw : w = v
  · subst hw
    simpa using hParams
  · simpa [Function.update_of_ne hw] using hSame w

/-- A parse that assigns no arguments converts none either, and puts nothing in
a vector. -/
theorem parse_of_none {mem : VecId → List Posparam} {argv : List CString}
    (h : assignsTo getopt optionv paramv mem argv = none) :
    let parse := clpParsev getopt mem argv optionv paramv
    parse.assigned = none ∧ parse.calls = [] ∧
      ∀ v, SameParams (parse.mem v) (mem v) ∧ (Idle (mem v) → Idle (parse.mem v)) := by
  have hReset : ∀ v, SameParams (resetMain paramv mem v) (mem v) ∧
      (Idle (mem v) → Idle (resetMain paramv mem v)) :=
    fun v => ⟨resetMain_same paramv mem v, resetMain_idle paramv⟩
  intro parse
  by_cases hArgv : argv = []
  · subst hArgv
    exact ⟨rfl, rfl, fun v => ⟨rfl, id⟩⟩
  have hNotEmpty : argv.isEmpty = false := by simpa using hArgv
  simp only [assignsTo, hNotEmpty, Bool.false_eq_true, if_false] at h
  cases hLoop : optionLoop (trimOptions optionv) (OptState.start _ paramv)
      (getopt (trimOptions optionv) argv).events with
  | error stop =>
      rw [show parse = _ from clpParsev_of_error getopt mem argv optionv hArgv hLoop]
      exact ⟨rfl, rfl, hReset⟩
  | ok st =>
      rw [show parse = _ from clpParsev_of_ok getopt mem argv optionv hArgv hLoop]
      cases hVec : st.paramv with
      | none => exact ⟨rfl, rfl, hReset⟩
      | some v =>
          simp only [hLoop, hVec] at h
          obtain ⟨hUsage, hAfter, -⟩ := parsePositional_some (resetMain paramv mem) v st.afterRcs
            (getopt (trimOptions optionv) argv).rest
          have hMem (w : VecId) :
              SameParams (update (resetMain paramv mem) v
                (clpPosparamMinmax (resetMain paramv mem v)).2.2 w) (mem w) ∧
              (Idle (mem w) → Idle (update (resetMain paramv mem) v
                (clpPosparamMinmax (resetMain paramv mem v)).2.2 w)) := by
            refine ⟨sameParams_update (resetMain_same paramv mem) ?_ w, fun hIdle => ?_⟩
            · exact (minmax_reset _).trans (resetMain_same paramv mem v)
            · by_cases hw : w = v
              · subst hw
                simpa using (resetMain_idle paramv hIdle).minmax
              · simpa [Function.update_of_ne hw] using resetMain_idle paramv hIdle
          by_cases hRange : InRange (mem v) (getopt (trimOptions optionv) argv).rest
          · cases hStop : stopAt st.afterRcs with
            | none => simp [hRange, hStop] at h
            | some rc =>
                rw [hAfter ((resetMain_same paramv mem v).inRange.mpr hRange) rc hStop]
                exact ⟨rfl, rfl, hMem⟩
          · rw [hUsage fun hIn => hRange ((resetMain_same paramv mem v).inRange.mp hIn)]
            exact ⟨rfl, rfl, hMem⟩

/-- A parse that assigns arguments cuts them into slices of the selected vector. -/
theorem parse_of_some {mem : VecId → List Posparam} {argv : List CString} {v : VecId}
    {args : List CString} (h : assignsTo getopt optionv paramv mem argv = some (v, args)) :
    let parse := clpParsev getopt mem argv optionv paramv
    InRange (mem v) args ∧ ∃ params, parse.assigned = some params ∧ SameParams params (mem v) ∧
      params.map Posparam.args = slicesOf (resetMain paramv mem v) args ∧
      parse.calls = (convertAll 0 params).1 ∧
      parse.mem = update (resetMain paramv mem) v params := by
  intro parse
  by_cases hArgv : argv = []
  · subst hArgv
    cases h
  have hNotEmpty : argv.isEmpty = false := by simpa using hArgv
  simp only [assignsTo, hNotEmpty, Bool.false_eq_true, if_false] at h
  cases hLoop : optionLoop (trimOptions optionv) (OptState.start _ paramv)
      (getopt (trimOptions optionv) argv).events with
  | error stop => simp only [hLoop, reduceCtorEq] at h
  | ok st =>
      rw [show parse = _ from clpParsev_of_ok getopt mem argv optionv hArgv hLoop]
      cases hVec : st.paramv with
      | none => simp only [hLoop, hVec, reduceCtorEq] at h
      | some u =>
          simp only [hLoop, hVec, Option.ite_none_right_eq_some, Option.some.injEq,
            Prod.mk.injEq] at h
          obtain ⟨⟨hRange, hStop⟩, rfl, rfl⟩ := h
          obtain ⟨-, -, hAssign⟩ := parsePositional_some (resetMain paramv mem) u st.afterRcs
            (getopt (trimOptions optionv) argv).rest
          obtain ⟨hAssigned, hMem, hCalls⟩ :=
            hAssign ((resetMain_same paramv mem u).inRange.mpr hRange) hStop
          refine ⟨hRange, _, hAssigned, ?_, rfl, hCalls, hMem⟩
          exact ((distribute_reset _ _ _ _).trans (minmax_reset _)).trans
            (resetMain_same paramv mem u)

def freshMem (mem : VecId → List Posparam) (v : VecId) : List Posparam := (mem v).map Posparam.reset

/-- Fresh memory has the same parameters. -/
theorem freshMem_same (mem : VecId → List Posparam) (v : VecId) :
    SameParams (freshMem mem v) (mem v) := by
  simp [SameParams, freshMem, Posparam.reset]

/-- No parameter of fresh memory has arguments. -/
theorem freshMem_idle (mem : VecId → List Posparam) (v : VecId) : Idle (freshMem mem v) :=
  idle_reset (mem v)

theorem resetMain_main (mem : VecId → List Posparam) (v : VecId) :
    resetMain (some v) mem v = (mem v).map Posparam.reset := by
  simp [resetMain]

/-- No vector is reset but the one that is passed in. -/
theorem resetMain_of_ne {v : VecId} (hOwn : paramv ≠ some v) (mem : VecId → List Posparam) :
    resetMain paramv mem v = mem v := by
  cases paramv with
  | none => rfl
  | some u =>
      have hv : v ≠ u := fun h => hOwn (by rw [h])
      simp [resetMain, Function.update_of_ne hv]

/-- After any parse the vectors are the caller's in all but what was written to them. -/
theorem parse_same {mem mem' : VecId → List Posparam} (hSame : ∀ v, SameParams (mem' v) (mem v))
    (argv : List CString) (v : VecId) :
    SameParams ((clpParsev getopt mem' argv optionv paramv).mem v) (mem v) := by
  cases hAssigns : assignsTo getopt optionv paramv mem' argv with
  | none =>
      obtain ⟨-, -, hMem⟩ := parse_of_none getopt optionv paramv hAssigns
      exact (hMem v).1.trans (hSame v)
  | some assigned =>
      obtain ⟨-, params, -, hParams, -, -, hMem⟩ := parse_of_some getopt optionv paramv hAssigns
      rw [hMem]
      exact sameParams_update (fun w => (resetMain_same paramv mem' w).trans (hSame w))
        (hParams.trans (hSame _)) v

/-- What a first parse leaves in a vector that the next one does not reset is
seen past the first `k` parameters just if its arguments reach further. -/
theorem kept_iff {mem : VecId → List Posparam} {v : VecId} (hOwn : paramv ≠ some v)
    (earlier : List CString) (k : Nat) :
    (((clpParsev getopt (freshMem mem) earlier optionv paramv).mem v).map Posparam.args).drop k =
        (List.replicate (mem v).length []).drop k ↔
      ∀ args, assignsTo getopt optionv paramv mem earlier = some (v, args) →
        reach (mem v) (surplus (mem v) args) ≤ k := by
  have hLength : (freshMem mem v).length = (mem v).length := List.length_map _
  have hKept : resetMain paramv (freshMem mem) v = freshMem mem v := resetMain_of_ne _ hOwn _
  have hAssigns := assignsTo_congr getopt optionv paramv (freshMem_same mem) earlier
  cases hEarlier : assignsTo getopt optionv paramv mem earlier with
  | none =>
      obtain ⟨-, -, hMem⟩ := parse_of_none getopt optionv paramv (hAssigns.trans hEarlier)
      rw [((hMem v).2 (freshMem_idle mem v)).args,
        length_of_same ((hMem v).1.trans (freshMem_same mem v))]
      simp
  | some assigned =>
      obtain ⟨u, a⟩ := assigned
      obtain ⟨hRange, params, -, -, hSlices, -, hMem⟩ :=
        parse_of_some getopt optionv paramv (hAssigns.trans hEarlier)
      rw [hMem]
      by_cases hv : v = u
      · subst hv
        rw [Function.update_self, hSlices, hKept]
        obtain ⟨front, hFront, hLast, -, hSame⟩ :=
          exists_fills (mem v) a ((freshMem_same mem v).inRange.mp hRange)
        have hCut := hSame _ (freshMem_same mem v)
        rw [(freshMem_idle mem v).args, hLength] at hCut
        rw [hCut, drop_stale_iff (hFront.trans_le (reach_le _ _)) hLast, hFront]
        simp
      · rw [Function.update_of_ne hv, hKept, (freshMem_idle mem v).args, hLength]
        simp [Ne.symm hv]

end

/-- An option with the vector `["[a]", "[b]"]` of its own is given `1 2`, then `1`. -/
def optionX : ClpOption where
  optopt := 'x'
  excludes := none
  cvtfunc := none
  action := none
  after := none
  paramv := some 1

/-- The scan of `-x` followed by arguments that are not options. -/
def getoptX (_ : List ClpOption) (argv : List CString) : Scan where
  events := [.opt 'x' none]
  rest := argv.drop 2

end Nct
