import Nct.Support.Calls
import Nct.Reparse

/-! The procedures that a caller of `clp_parsev` gives, and when they are called.
Nothing is known of them here: what one returns may depend on all calls before it.
The calls to be made do not, so that a parse is one script, cut off where a
procedure does not return zero. -/
namespace Nct

open Calls (Prog World give all call)
open Function (update)

/-- A call of a procedure. Options and parameters are their places in their vectors. -/
inductive Callback where
  | optCvt (o : Nat) (optarg : Option CString)
  | optAction (o : Nat) (optarg : Option CString)
  | optAfter (o : Nat) (optarg : Option CString)
  | cvt (v : VecId) (k : Nat) (arg : CString)
  | action (v : VecId) (k : Nat) (args : List CString)
  | after (v : VecId) (k : Nat) (args : List CString)
  deriving DecidableEq, Repr

/-- `if (rc) return (rc > 0) ? rc : 0` -/
def clpStop (rc : Int) : Option Int := if rc ≠ 0 then some (clpStatus rc) else none

/-- A parse and what it returns, with the procedures it calls. -/
abbrev ParseProg (α : Type) := Prog Callback Int Int α

def callIf (given : Bool) (c : Callback) : ParseProg PUnit := if given then call clpStop c else pure ⟨⟩

section
variable (optionv : List ClpOption)

/-- The variables of the option loop once an option has been given. -/
def OptState.took (st : OptState optionv) (o : Fin optionv.length) (optarg : Option CString) :
    OptState optionv where
  given := update st.given o (st.given o + 1)
  optarg := update st.optarg o optarg
  paramv := (optionv.get o).paramv.or st.paramv
  afters :=
    if (optionv.get o).after.isSome && st.given o == 0 then st.afters ++ [o] else st.afters

def takeOptionCalls (st : OptState optionv) (c : Char) (optarg : Option CString) :
    ParseProg (OptState optionv) :=
  match clpFind optionv c with
  | none => give (.error EX_SOFTWARE)
  | some o =>
      match clpExcludes optionv st.given o 1 with
      | some _ => give (.error EX_USAGE)
      | none => do
          callIf (optionv.get o).cvtfunc.isSome (.optCvt o optarg)
          callIf (optionv.get o).action.isSome (.optAction o optarg)
          pure (st.took optionv o optarg)

def optionLoopCalls : OptState optionv → List Getopt → ParseProg (OptState optionv)
  | st, [] => pure st
  | _, .invalid :: _ => give (.error EX_USAGE)
  | _, .missing :: _ => give (.error EX_USAGE)
  | st, .opt c optarg :: events => do
      let st' ← takeOptionCalls optionv st c optarg
      optionLoopCalls st' events

/-- The `after` procedures of the options at `options_head`. -/
def OptState.afterCalls (st : OptState optionv) : List Callback :=
  st.afters.map fun (o : Fin optionv.length) => .optAfter o (st.optarg o)

end

/-- The calls for the arguments of the parameter at place `k`. -/
def convertArgsCalls (v : VecId) (k : Nat) (param : Posparam) : List CString → ParseProg PUnit
  | [] => pure ⟨⟩
  | arg :: args => do
      callIf param.cvtfunc.isSome (.cvt v k arg)
      callIf param.action.isSome (.action v k param.args)
      convertArgsCalls v k param args

/-- The calls for the arguments of all parameters. -/
def convertAllCalls (v : VecId) : Nat → List Posparam → ParseProg PUnit
  | _, [] => pure ⟨⟩
  | k, param :: paramv => do
      convertArgsCalls v k param param.args
      convertAllCalls v (k + 1) paramv

/-- The calls of the filled parameters' `after` procedures. -/
def afterParamsCalls (v : VecId) : Nat → List Posparam → ParseProg PUnit
  | _, [] => pure ⟨⟩
  | k, param :: paramv => do
      callIf (param.after.isSome && param.argc > 0) (.after v k param.args)
      afterParamsCalls v (k + 1) paramv

/-- `clp_parsev_impl` from the end of its option loop, with its calls. -/
def parsePositionalCalls (mem : VecId → List Posparam) (paramv : Option VecId)
    (afters : List Callback) (argv : List CString) : ParseProg PUnit :=
  match paramv with
  | none => all clpStop afters
  | some v =>
      let (posmin, posmax, params) := clpPosparamMinmax (mem v)
      if argv.length < posmin ∨ argv.length > posmax then give (.error EX_USAGE)
      else do
        all clpStop afters
        let params := distribute params argv.length posmin argv
        convertAllCalls v 0 params
        afterParamsCalls v 0 params

/-- `clp_parsev` with its calls; where it returns early, it ends with the value returned. -/
def clpParsevCalls (getopt : List ClpOption → List CString → Scan) (mem : VecId → List Posparam)
    (argv : List CString) (optionv : List ClpOption) (paramv : Option VecId) :
    ParseProg PUnit :=
  if argv.isEmpty then pure ⟨⟩
  else do
    let optionv := trimOptions optionv
    let scan := getopt optionv argv
    let st ← optionLoopCalls optionv (OptState.start optionv paramv) scan.events
    parsePositionalCalls (resetMain paramv mem) st.paramv (st.afterCalls optionv) scan.rest

section
variable (optionv : List ClpOption)

/-- An option as it was given, with its argument. -/
abbrev GivenOpt := Fin optionv.length × Option CString

/-- The options that are taken after those given before, and how the parse ends if not
all are. -/
def takes : List (Fin optionv.length) → List Getopt → List (GivenOpt optionv) × Option Int
  | _, [] => ([], none)
  | _, .invalid :: _ => ([], some EX_USAGE)
  | _, .missing :: _ => ([], some EX_USAGE)
  | before, .opt c optarg :: events =>
      match clpFind optionv c with
      | none => ([], some EX_SOFTWARE)
      | some o =>
          if before.any (clpExcludes2 optionv o) then ([], some EX_USAGE)
          else ((o, optarg) :: (takes (before ++ [o]) events).1, (takes (before ++ [o]) events).2)

/-- The calls for an option that is given. -/
def optionCalls (g : GivenOpt optionv) : List Callback :=
  (if (optionv.get g.1).cvtfunc.isSome then [.optCvt g.1 g.2] else []) ++
    if (optionv.get g.1).action.isSome then [.optAction g.1 g.2] else []

def lastVector (paramv : Option VecId) (taken : List (GivenOpt optionv)) : Option VecId :=
  (taken.filterMap fun g => (optionv.get g.1).paramv).getLast?.or paramv

def lastArg (taken : List (GivenOpt optionv)) (o : Fin optionv.length) : Option CString :=
  (taken.reverse.find? fun g => g.1 == o).bind Prod.snd

/-- The options with an `after` procedure, each once, in the order in which they were
first given. -/
def firstGiven (taken : List (GivenOpt optionv)) : List (Fin optionv.length) :=
  (taken.map Prod.fst).eraseDups.filter fun o => (optionv.get o).after.isSome

def optAfters (taken : List (GivenOpt optionv)) : List Callback :=
  (firstGiven optionv taken).map fun (o : Fin optionv.length) => .optAfter o (lastArg optionv taken o)

end

/-- The calls for the arguments of a parameter. -/
def paramCalls (v : VecId) (k : Nat) (param : Posparam) : List Callback :=
  param.args.flatMap fun arg =>
    (if param.cvtfunc.isSome then [.cvt v k arg] else []) ++
      if param.action.isSome then [.action v k param.args] else []

/-- Its `after` procedure, if it is filled. -/
def paramAfter (v : VecId) (k : Nat) (param : Posparam) : List Callback :=
  if param.after.isSome && param.argc > 0 then [.after v k param.args] else []

/-- The calls for a vector: all conversions first. -/
def vectorCalls (v : VecId) (params : List Posparam) : List Callback :=
  (params.zipIdx.flatMap fun p => paramCalls v p.2 p.1) ++
    params.zipIdx.flatMap fun p => paramAfter v p.2 p.1

/-- The calls once all options have been taken, and how the parse ends then. None are made
if there are too few arguments or too many. -/
def positionalScript (mem : VecId → List Posparam) (paramv : Option VecId) (afters : List Callback)
    (args : List CString) : List Callback × Except Int PUnit :=
  match paramv with
  | none => (afters, .ok ⟨⟩)
  | some v =>
      if InRange (mem v) args then
        (afters ++ vectorCalls v
          (distribute (clpPosparamMinmax (mem v)).2.2 args.length (clpPosparamMinmax (mem v)).1 args),
          .ok ⟨⟩)
      else ([], .error EX_USAGE)

/-- The calls that a parse makes if all return zero, and how it ends then. -/
def parseScript (getopt : List ClpOption → List CString → Scan) (mem : VecId → List Posparam)
    (argv : List CString) (optionv : List ClpOption) (paramv : Option VecId) :
    List Callback × Except Int PUnit :=
  let optionv := trimOptions optionv
  let scan := getopt optionv argv
  if argv.isEmpty then ([], .ok ⟨⟩)
  else
    match takes optionv [] scan.events with
    | (taken, some rc) => (taken.flatMap (optionCalls optionv), .error rc)
    | (taken, none) =>
        let script := positionalScript (resetMain paramv mem) (lastVector optionv paramv taken)
          (optAfters optionv taken) scan.rest
        (taken.flatMap (optionCalls optionv) ++ script.1, script.2)

/-- A procedure that is missing is passed over. -/
theorem callIf_follows (given : Bool) (c : Callback) :
    (callIf given c).Follows clpStop (if given then [c] else []) (.ok ⟨⟩) := by
  cases given with
  | false => exact Calls.follows_give _
  | true => exact Calls.follows_call c

section
variable {optionv : List ClpOption} {paramv : Option VecId} {taken : List (GivenOpt optionv)}

/-- The variables of the option loop tell of the options that have been taken. -/
structure OptState.Since (st : OptState optionv) (paramv : Option VecId)
    (taken : List (GivenOpt optionv)) : Prop where
  given : ∀ o, 1 ≤ st.given o ↔ o ∈ taken.map Prod.fst
  optarg : ∀ o, st.optarg o = lastArg optionv taken o
  paramv : st.paramv = lastVector optionv paramv taken
  afters : st.afters = firstGiven optionv taken

theorem OptState.Since.start (optionv : List ClpOption) (paramv : Option VecId) :
    (OptState.start optionv paramv).Since paramv [] where
  given o := by simp [OptState.start]
  optarg o := rfl
  paramv := rfl
  afters := rfl

/-- An option more has been taken. -/
theorem OptState.Since.took {st : OptState optionv} (h : st.Since paramv taken)
    (o : Fin optionv.length) (optarg : Option CString) :
    (st.took optionv o optarg).Since paramv (taken ++ [(o, optarg)]) where
  given x := by
    have hx := h.given x
    by_cases hSame : x = o
    · subst hSame
      simp [OptState.took]
    · simp [OptState.took, hSame, hx]
  optarg x := by
    by_cases hSame : x = o
    · subst hSame
      simp [OptState.took, lastArg]
    · have hNot : (o == x) = false := beq_false_of_ne (Ne.symm hSame)
      simp [OptState.took, lastArg, hSame, hNot, h.optarg x]
  paramv := by
    change (optionv.get o).paramv.or st.paramv = _
    rw [h.paramv]
    cases hOwn : (optionv.get o).paramv with
    | none => simp only [lastVector, List.filterMap_append, hOwn, List.filterMap_cons,
        List.filterMap_nil, List.append_nil, Option.none_or]
    | some v => simp only [lastVector, List.filterMap_append, hOwn, List.filterMap_cons,
        List.filterMap_nil, List.getLast?_concat, Option.some_or]
  afters := by
    change (if (optionv.get o).after.isSome && st.given o == 0 then st.afters ++ [o] else st.afters) = _
    have hGiven := h.given o
    rw [h.afters, firstGiven, firstGiven, List.map_append, List.eraseDups_append,
      List.filter_append]
    have hOnly : [o].eraseDups = [o] := by simp [List.eraseDups_cons]
    by_cases hMem : o ∈ taken.map Prod.fst
    · have hCount : (st.given o == 0) = false :=
        beq_false_of_ne (Nat.ne_of_gt (hGiven.mpr hMem))
      simp [hCount, List.removeAll, hMem]
    · have hZero : st.given o = 0 := Nat.eq_zero_of_not_pos fun hPos => hMem (hGiven.mp hPos)
      have hNew : ([(o, optarg)].map Prod.fst).removeAll (taken.map Prod.fst) = [o] := by
        simp [List.removeAll, hMem]
      rw [hNew, hOnly, hZero]
      cases hAfter : (optionv.get o).after.isSome <;> simp only [List.filter_cons, hAfter] <;> simp

/-- The exclusion check looks at the options that have been taken. -/
theorem OptState.Since.excludes {st : OptState optionv} (h : st.Since paramv taken)
    (o : Fin optionv.length) :
    (clpExcludes optionv st.given o 1).isSome = (taken.map Prod.fst).any (clpExcludes2 optionv o) := by
  rw [clpExcludes, Bool.eq_iff_iff, List.find?_isSome, List.any_eq_true]
  constructor
  · rintro ⟨x, -, hx⟩
    rw [Bool.and_eq_true, decide_eq_true_eq] at hx
    exact ⟨x, (h.given x).mp hx.1, hx.2⟩
  · rintro ⟨x, hMem, hx⟩
    refine ⟨x, List.mem_finRange x, ?_⟩
    rw [Bool.and_eq_true, decide_eq_true_eq]
    exact ⟨(h.given x).mpr hMem, hx⟩

/-- An option that is taken makes its calls. -/
theorem optionCalls_follow (st : OptState optionv) (o : Fin optionv.length) (optarg : Option CString) :
    Prog.Follows (do
      callIf (optionv.get o).cvtfunc.isSome (.optCvt o optarg)
      callIf (optionv.get o).action.isSome (.optAction o optarg)
      pure (st.took optionv o optarg)) clpStop (optionCalls optionv (o, optarg))
      (.ok (st.took optionv o optarg)) := by
  have hTook := @Calls.follows_give Callback Int Int _ clpStop (.ok (st.took optionv o optarg))
  have hAction := (callIf_follows (optionv.get o).action.isSome (.optAction o optarg)).next hTook
  have hAll := (callIf_follows (optionv.get o).cvtfunc.isSome (.optCvt o optarg)).next hAction
  rwa [List.append_nil] at hAll

/-- An event of the option loop is taken, or ends the parse without a call. -/
theorem takeOptionCalls_follow {st : OptState optionv} (h : st.Since paramv taken) (c : Char)
    (optarg : Option CString) :
    (∃ o, clpFind optionv c = some o ∧ (taken.map Prod.fst).any (clpExcludes2 optionv o) = false ∧
      (takeOptionCalls optionv st c optarg).Follows clpStop (optionCalls optionv (o, optarg))
        (.ok (st.took optionv o optarg))) ∨
    (∃ o, clpFind optionv c = some o ∧ (taken.map Prod.fst).any (clpExcludes2 optionv o) = true ∧
      (takeOptionCalls optionv st c optarg).Follows clpStop [] (.error EX_USAGE)) ∨
    (clpFind optionv c = none ∧
      (takeOptionCalls optionv st c optarg).Follows clpStop [] (.error EX_SOFTWARE)) := by
  unfold takeOptionCalls
  cases hFind : clpFind optionv c with
  | none => exact Or.inr (Or.inr ⟨rfl, Calls.follows_give _⟩)
  | some o =>
      have hAny := h.excludes o
      cases hExcludes : clpExcludes optionv st.given o 1 with
      | some x =>
          rw [hExcludes] at hAny
          exact Or.inr (Or.inl ⟨o, rfl, hAny.symm, by simpa only [hExcludes] using Calls.follows_give _⟩)
      | none =>
          rw [hExcludes] at hAny
          exact Or.inl ⟨o, rfl, hAny.symm, by
            simpa only [hExcludes] using optionCalls_follow st o optarg⟩

/-- The option loop makes the calls of the options that are taken. -/
theorem optionLoopCalls_follow {st : OptState optionv} (h : st.Since paramv taken)
    (events : List Getopt) :
    ∃ res, (optionLoopCalls optionv st events).Follows clpStop
        ((takes optionv (taken.map Prod.fst) events).1.flatMap (optionCalls optionv)) res ∧
      match (takes optionv (taken.map Prod.fst) events).2 with
      | some rc => res = .error rc
      | none => ∃ st', res = .ok st' ∧
          st'.Since paramv (taken ++ (takes optionv (taken.map Prod.fst) events).1) := by
  induction events generalizing taken st with
  | nil => exact ⟨.ok st, Calls.follows_give _, st, rfl, by simpa [takes] using h⟩
  | cons event events ih =>
      cases event with
      | invalid | missing => exact ⟨.error EX_USAGE, Calls.follows_give _, rfl⟩
      | opt c optarg =>
          rw [optionLoopCalls, Calls.bind_eq]
          rcases takeOptionCalls_follow h c optarg with
            ⟨o, hFind, hNone, hTook⟩ | ⟨o, hFind, hSome, hStop⟩ | ⟨hFind, hStop⟩
          · obtain ⟨res, hFollows, hRes⟩ := ih (h.took o optarg)
            rw [List.map_append] at hFollows hRes
            refine ⟨res, ?_, ?_⟩
            · simpa [takes, hFind, hNone] using hTook.andThen hFollows
            · simpa [takes, hFind, hNone] using hRes
          · refine ⟨.error EX_USAGE, ?_, ?_⟩
            · simpa [takes, hFind, hSome] using hStop.stop
            · simp [takes, hFind, hSome]
          · refine ⟨.error EX_SOFTWARE, ?_, ?_⟩
            · simpa [takes, hFind] using hStop.stop
            · simp [takes, hFind]

/-- The list at `options_head` has each option with an `after` procedure once. -/
theorem OptState.Since.afterCalls {st : OptState optionv} (h : st.Since paramv taken) :
    st.afterCalls optionv = optAfters optionv taken := by
  rw [OptState.afterCalls, optAfters, h.afters]
  exact List.map_congr_left fun o _ => congrArg _ (h.optarg o)

end

section
variable (v : VecId)

/-- Each argument is converted, and the action follows. -/
theorem convertArgsCalls_follow (k : Nat) (param : Posparam) (args : List CString) :
    (convertArgsCalls v k param args).Follows clpStop (args.flatMap fun arg =>
      (if param.cvtfunc.isSome then [.cvt v k arg] else []) ++
        if param.action.isSome then [.action v k param.args] else []) (.ok ⟨⟩) := by
  induction args with
  | nil => exact Calls.follows_give _
  | cons arg args ih =>
      rw [List.flatMap_cons, List.append_assoc]
      have hAction := (callIf_follows param.action.isSome (.action v k param.args)).next ih
      exact (callIf_follows param.cvtfunc.isSome (.cvt v k arg)).next hAction

/-- The parameters come one after another. -/
theorem convertAllCalls_follow (k : Nat) (params : List Posparam) :
    (convertAllCalls v k params).Follows clpStop
      ((params.zipIdx k).flatMap fun p => paramCalls v p.2 p.1) (.ok ⟨⟩) := by
  induction params generalizing k with
  | nil => exact Calls.follows_give _
  | cons param params ih =>
      rw [List.zipIdx_cons, List.flatMap_cons]
      exact (convertArgsCalls_follow v k param param.args).next (ih (k + 1))

theorem afterParamsCalls_follow (k : Nat) (params : List Posparam) :
    (afterParamsCalls v k params).Follows clpStop
      ((params.zipIdx k).flatMap fun p => paramAfter v p.2 p.1) (.ok ⟨⟩) := by
  induction params generalizing k with
  | nil => exact Calls.follows_give _
  | cons param params ih =>
      rw [List.zipIdx_cons, List.flatMap_cons]
      exact (callIf_follows _ (.after v k param.args)).next (ih (k + 1))

end

/-- The two checks of the number of arguments. -/
theorem inRange_iff {params : List Posparam} {args : List CString} :
    InRange params args ↔
      ¬ (args.length < (clpPosparamMinmax params).1 ∨ args.length > (clpPosparamMinmax params).2.1) := by
  rw [not_or, Int.not_lt, gt_iff_lt, Int.not_lt, InRange]

/-- After the options it is the turn of the parameters. -/
theorem parsePositionalCalls_follow (mem : VecId → List Posparam) (paramv : Option VecId)
    (afters : List Callback) (args : List CString) :
    (parsePositionalCalls mem paramv afters args).Follows clpStop
      (positionalScript mem paramv afters args).1 (positionalScript mem paramv afters args).2 := by
  cases paramv with
  | none => exact Calls.follows_all afters
  | some v =>
      by_cases hRange : InRange (mem v) args
      · have hOut := inRange_iff.mp hRange
        simp only [parsePositionalCalls, positionalScript, if_neg hOut, if_pos hRange]
        exact (Calls.follows_all afters).next
          ((convertAllCalls_follow v 0 _).next (afterParamsCalls_follow v 0 _))
      · have hOut := not_not.mp (inRange_iff.not.mp hRange)
        simp only [parsePositionalCalls, positionalScript, if_pos hOut, if_neg hRange]
        exact Calls.follows_give _

/-- A parse makes the calls of its script in order, up to the first that does not return
zero: options as they come, then each given option's `after` procedure once, if the number
of arguments is in range, and then those of the parameters. -/
theorem parse_scripted (getopt : List ClpOption → List CString → Scan) (mem : VecId → List Posparam)
    (argv : List CString) (optionv : List ClpOption) (paramv : Option VecId) :
    (clpParsevCalls getopt mem argv optionv paramv).Follows clpStop
      (parseScript getopt mem argv optionv paramv).1 (parseScript getopt mem argv optionv paramv).2 := by
  unfold clpParsevCalls parseScript
  split
  · exact Calls.follows_give _
  · obtain ⟨res, hFollows, hRes⟩ := optionLoopCalls_follow
      (OptState.Since.start (trimOptions optionv) paramv)
      (getopt (trimOptions optionv) argv).events
    rw [List.map_nil] at hFollows hRes
    cases hTakes : takes (trimOptions optionv) [] (getopt (trimOptions optionv) argv).events with
    | mk taken stop =>
        rw [hTakes] at hFollows hRes
        cases stop with
        | some rc =>
            obtain rfl := hRes
            simp only [hTakes]
            exact hFollows.stop
        | none =>
            obtain ⟨st, rfl, hSt⟩ := hRes
            rw [List.nil_append] at hSt
            simp only [hTakes]
            refine hFollows.andThen ?_
            rw [hSt.paramv, hSt.afterCalls]
            exact parsePositionalCalls_follow _ _ _ _

/-- What the procedures of the vectors return, when it depends on their arguments only. -/
def procs (optionv : List ClpOption) (mem : VecId → List Posparam) : Callback → Int
  | .optCvt o optarg => (optionv[o]?.bind ClpOption.cvtfunc).elim 0 (· optarg)
  | .optAction o optarg => (optionv[o]?.bind ClpOption.action).elim 0 (· optarg)
  | .optAfter o optarg => (optionv[o]?.bind ClpOption.after).elim 0 (· optarg)
  | .cvt v k arg => ((mem v)[k]?.bind Posparam.cvtfunc).elim 0 (· arg)
  | .action v k args => ((mem v)[k]?.bind Posparam.action).elim 0 (· args)
  | .after v k args => ((mem v)[k]?.bind Posparam.after).elim 0 (· args)

/-- The procedures return so, whatever has been called before. -/
def returning (ret : Callback → Int) : World Callback Int :=
  fun _ c => ret c

def endOf (stop : Option Int) : Except Int PUnit :=
  match stop with
  | none => .ok ⟨⟩
  | some rc => .error rc

/-- The first that is not zero stops. -/
theorem stopAt_cons (rc : Int) (rcs : List Int) :
    stopAt (rc :: rcs) = if rc = 0 then stopAt rcs else some (clpStatus rc) := by
  by_cases hZero : rc = 0 <;> simp [stopAt, hZero]

section
variable (ret : Callback → Int)

/-- A call ends the parse just if it does not return zero. -/
theorem yields_call (c : Callback) :
    (call clpStop c).Yields (returning ret) (if ret c = 0 then .ok ⟨⟩ else .error (clpStatus (ret c))) := by
  intro log
  by_cases hZero : ret c = 0 <;> simp [call, returning, clpStop, hZero]

/-- A procedure that is missing counts as one that returns zero. -/
theorem yields_callIf (given : Bool) (c : Callback) (h : given = false → ret c = 0) :
    (callIf given c).Yields (returning ret)
      (if ret c = 0 then .ok ⟨⟩ else .error (clpStatus (ret c))) := by
  cases given with
  | true => exact yields_call ret c
  | false =>
      rw [h rfl, if_pos rfl]
      exact Calls.yields_give _

/-- A row of calls ends with the first that does not return zero. -/
theorem yields_all (calls : List Callback) :
    (all clpStop calls).Yields (returning ret) (endOf (stopAt (calls.map ret))) := by
  induction calls with
  | nil => exact Calls.yields_give _
  | cons c calls ih =>
      have hCall := yields_call ret c
      rw [List.map_cons, stopAt_cons]
      by_cases hZero : ret c = 0
      · rw [if_pos hZero] at hCall ⊢
        exact hCall.andThen ih
      · rw [if_neg hZero] at hCall ⊢
        exact hCall.stop

end

section
variable {optionv : List ClpOption} (mem : VecId → List Posparam)

/-- An option is taken, or ends the parse, as it does in `takeOption`. -/
theorem takeOptionCalls_yields (st : OptState optionv) (c : Char) (optarg : Option CString) :
    (takeOptionCalls optionv st c optarg).Yields (returning (procs optionv mem))
      ((takeOption optionv st c optarg).mapError (Stop.rc optionv)) := by
  unfold takeOptionCalls takeOption
  cases clpFind optionv c with
  | none => exact Calls.yields_give _
  | some o =>
      cases hExcludes : clpExcludes optionv st.given o 1 with
      | some x =>
          simp only [hExcludes]
          exact Calls.yields_give _
      | none =>
          simp only [hExcludes]
          have hCvt : procs optionv mem (.optCvt o optarg) =
              (optionv.get o).cvtfunc.elim 0 (· optarg) := by simp [procs]
          have hAction : procs optionv mem (.optAction o optarg) =
              (optionv.get o).action.elim 0 (· optarg) := by simp [procs]
          have hFirst := yields_callIf (procs optionv mem) (optionv.get o).cvtfunc.isSome
            (.optCvt o optarg) (by rw [hCvt]; cases (optionv.get o).cvtfunc <;> simp)
          have hSecond := yields_callIf (procs optionv mem) (optionv.get o).action.isSome
            (.optAction o optarg) (by rw [hAction]; cases (optionv.get o).action <;> simp)
          rw [hCvt] at hFirst
          rw [hAction] at hSecond
          split
          · next hStop =>
              rw [if_neg hStop] at hFirst
              exact hFirst.stop
          · next hGo =>
              rw [if_pos (not_ne_iff.mp hGo)] at hFirst
              refine hFirst.andThen ?_
              split
              · next hStop =>
                  rw [if_neg hStop] at hSecond
                  exact hSecond.stop
              · next hGo =>
                  rw [if_pos (not_ne_iff.mp hGo)] at hSecond
                  exact hSecond.andThen (Calls.yields_give _)

/-- The loop ends as `optionLoop` does. -/
theorem optionLoopCalls_yields (st : OptState optionv) (events : List Getopt) :
    (optionLoopCalls optionv st events).Yields (returning (procs optionv mem))
      ((optionLoop optionv st events).mapError (Stop.rc optionv)) := by
  induction events generalizing st with
  | nil => exact Calls.yields_give _
  | cons event events ih =>
      cases event with
      | invalid | missing => exact Calls.yields_give _
      | opt c optarg =>
          have hTake := takeOptionCalls_yields mem st c optarg
          rw [optionLoopCalls, optionLoop]
          cases hRes : takeOption optionv st c optarg with
          | error stop =>
              rw [hRes] at hTake
              exact hTake.stop
          | ok st' =>
              rw [hRes] at hTake
              exact hTake.andThen (ih st')

end

section
variable {ret : Callback → Int} {v : VecId}

/-- The parameter's procedures return so when they are called for place `k`. -/
structure Posparam.Returns (param : Posparam) (ret : Callback → Int) (v : VecId) (k : Nat) : Prop where
  cvt : ∀ arg, ret (.cvt v k arg) = param.cvtfunc.elim 0 (· arg)
  action : ∀ args, ret (.action v k args) = param.action.elim 0 (· args)
  after : ∀ args, ret (.after v k args) = param.after.elim 0 (· args)

/-- The arguments of a parameter are converted as by `convertArgs`. -/
theorem convertArgsCalls_yields {k : Nat} {param : Posparam} (h : param.Returns ret v k)
    (args : List CString) :
    (convertArgsCalls v k param args).Yields (returning ret) (endOf (convertArgs k param args).2) := by
  induction args with
  | nil => exact Calls.yields_give _
  | cons arg args ih =>
      have hFirst := yields_callIf ret param.cvtfunc.isSome (.cvt v k arg)
        (by rw [h.cvt]; cases param.cvtfunc <;> simp)
      have hSecond := yields_callIf ret param.action.isSome (.action v k param.args)
        (by rw [h.action]; cases param.action <;> simp)
      rw [h.cvt] at hFirst
      rw [h.action] at hSecond
      simp only [convertArgsCalls, convertArgs, Calls.bind_eq]
      by_cases hCvt : param.cvtfunc.elim 0 (· arg) = 0
      · rw [if_pos hCvt] at hFirst
        refine hFirst.andThen ?_
        by_cases hAction : param.action.elim 0 (· param.args) = 0
        · rw [if_pos hAction] at hSecond
          simpa [stopAt_cons, stopAt, hCvt, hAction] using hSecond.andThen ih
        · rw [if_neg hAction] at hSecond
          simpa [stopAt, hCvt, hAction, endOf] using hSecond.stop
      · rw [if_neg hCvt] at hFirst
        simpa [stopAt, hCvt, endOf] using hFirst.stop

/-- Those of all parameters are converted as by `convertAll`. -/
theorem convertAllCalls_yields {k : Nat} {params : List Posparam}
    (h : ∀ (j : Nat) (param : Posparam), params[j]? = some param → param.Returns ret v (k + j)) :
    (convertAllCalls v k params).Yields (returning ret) (endOf (convertAll k params).2) := by
  induction params generalizing k with
  | nil => exact Calls.yields_give _
  | cons param params ih =>
      have hHead := convertArgsCalls_yields (h 0 param rfl) param.args
      have hTail := ih (k := k + 1) fun j p hp => by
        have hNext := h (j + 1) p hp
        rwa [Nat.add_comm j, ← Nat.add_assoc] at hNext
      rw [convertAllCalls, convertAll]
      rcases hArgs : convertArgs k param param.args with ⟨calls, stop⟩
      rw [Nat.add_zero, hArgs] at hHead
      cases stop with
      | none => exact hHead.andThen hTail
      | some rc => exact hHead.stop

theorem afterParamsCalls_yields {k : Nat} {params : List Posparam}
    (h : ∀ (j : Nat) (param : Posparam), params[j]? = some param → param.Returns ret v (k + j)) :
    (afterParamsCalls v k params).Yields (returning ret) (endOf (stopAt (afterParams params))) := by
  induction params generalizing k with
  | nil => exact Calls.yields_give _
  | cons param params ih =>
      have hTail := ih (k := k + 1) fun j p hp => by
        have hNext := h (j + 1) p hp
        rwa [Nat.add_comm j, ← Nat.add_assoc] at hNext
      have hAfter := (h 0 param rfl).after param.args
      rw [Nat.add_zero] at hAfter
      rw [afterParamsCalls, Calls.bind_eq]
      by_cases hFilled : param.argc > 0
      · have hHead := yields_callIf ret (param.after.isSome && param.argc > 0)
          (.after v k param.args) (by rw [hAfter]; cases param.after <;> simp [hFilled])
        rw [hAfter] at hHead
        have hRcs : afterParams (param :: params) =
            param.after.elim 0 (· param.args) :: afterParams params := by
          simp [afterParams, hFilled]
        rw [hRcs, stopAt_cons]
        by_cases hZero : param.after.elim 0 (· param.args) = 0
        · rw [if_pos hZero] at hHead ⊢
          exact hHead.andThen hTail
        · rw [if_neg hZero] at hHead ⊢
          exact hHead.stop
      · have hHead : (callIf (param.after.isSome && param.argc > 0) (.after v k param.args)).Yields
            (returning ret) (.ok ⟨⟩) := by
          rw [decide_eq_false hFilled, Bool.and_false]
          exact Calls.yields_give _
        have hRcs : afterParams (param :: params) = afterParams params := by
          simp [afterParams, hFilled]
        rw [hRcs]
        exact hHead.andThen hTail

end

/-- The value that `clp_parsev` returns. -/
def statusOf : Except Int PUnit → Int
  | .ok _ => 0
  | .error rc => rc

theorem statusOf_endOf (stop : Option Int) : statusOf (endOf stop) = stop.getD 0 := by
  cases stop <;> rfl

/-- The parameters of a vector return what its procedures do, whatever the parser has
written to them. -/
theorem returns_of_same {optionv : List ClpOption} {mem : VecId → List Posparam} {v : VecId}
    {params : List Posparam} (hSame : SameParams params (mem v)) (k : Nat) (param : Posparam)
    (hParam : params[k]? = some param) : param.Returns (procs optionv mem) v k := by
  have hReset : ((mem v)[k]?).map Posparam.reset = some param.reset := by
    rw [← List.getElem?_map, ← hSame, List.getElem?_map, hParam]
    rfl
  obtain ⟨p, hp, hEq⟩ := Option.map_eq_some_iff.mp hReset
  have hCvt : p.cvtfunc = param.cvtfunc := (congrArg Posparam.cvtfunc hEq :)
  have hAction : p.action = param.action := (congrArg Posparam.action hEq :)
  have hAfter : p.after = param.after := (congrArg Posparam.after hEq :)
  constructor <;> intro arg <;> simp [procs, hp, hCvt, hAction, hAfter]

/-- The value returned is that of `parsePositional`. -/
theorem parsePositionalCalls_yields (optionv : List ClpOption) {mem mem' : VecId → List Posparam}
    (hSame : ∀ v, SameParams (mem' v) (mem v)) (paramv : Option VecId) (afters : List Callback)
    (args : List CString) :
    ∃ res, (parsePositionalCalls mem' paramv afters args).Yields (returning (procs optionv mem)) res ∧
      statusOf res = (parsePositional mem' paramv (afters.map (procs optionv mem)) args).rc := by
  have hAfters := yields_all (procs optionv mem) afters
  cases paramv with
  | none => exact ⟨_, hAfters, statusOf_endOf _⟩
  | some v =>
      simp only [parsePositionalCalls, parsePositional, Calls.bind_eq]
      by_cases hOut : args.length < (clpPosparamMinmax (mem' v)).1 ∨
          args.length > (clpPosparamMinmax (mem' v)).2.1
      · rw [if_pos hOut, if_pos hOut]
        exact ⟨_, Calls.yields_give _, rfl⟩
      · rw [if_neg hOut, if_neg hOut]
        cases hStop : stopAt (afters.map (procs optionv mem)) with
        | some rc =>
            rw [hStop] at hAfters
            exact ⟨_, hAfters.stop, rfl⟩
        | none =>
            rw [hStop] at hAfters
            have hParams : SameParams (distribute (clpPosparamMinmax (mem' v)).2.2 args.length
                (clpPosparamMinmax (mem' v)).1 args) (mem v) := by
              rw [SameParams, distribute_reset, minmax_reset]
              exact hSame v
            generalize distribute (clpPosparamMinmax (mem' v)).2.2 args.length
              (clpPosparamMinmax (mem' v)).1 args = params at hParams ⊢
            have hReturns : ∀ (k : Nat) (param : Posparam), params[k]? = some param →
                param.Returns (procs optionv mem) v (0 + k) := fun k param hParam => by
              rw [Nat.zero_add]
              exact returns_of_same hParams k param hParam
            have hConvert := convertAllCalls_yields hReturns
            have hAfter := afterParamsCalls_yields hReturns
            rcases hAll : convertAll 0 params with ⟨calls, stop⟩
            rw [hAll] at hConvert
            cases stop with
            | some rc => exact ⟨.error rc, hAfters.andThen hConvert.stop, rfl⟩
            | none => exact ⟨_, hAfters.andThen (hConvert.andThen hAfter), statusOf_endOf _⟩

/-- The value returned is that of `clpParsev`, where the procedures depend on their
arguments only. -/
theorem clpParsevCalls_rc (getopt : List ClpOption → List CString → Scan)
    (mem : VecId → List Posparam) (argv : List CString) (optionv : List ClpOption)
    (paramv : Option VecId) :
    statusOf ((clpParsevCalls getopt mem argv optionv paramv)
      (returning (procs (trimOptions optionv) mem)) []).2 =
      (clpParsev getopt mem argv optionv paramv).rc := by
  unfold clpParsevCalls clpParsev
  by_cases hEmpty : argv.isEmpty = true
  · rw [if_pos hEmpty, if_pos hEmpty]
    rfl
  · simp only [if_neg hEmpty, Calls.bind_eq]
    have hLoop := optionLoopCalls_yields mem (OptState.start (trimOptions optionv) paramv)
      (getopt (trimOptions optionv) argv).events
    cases hRes : optionLoop (trimOptions optionv) (OptState.start (trimOptions optionv) paramv)
        (getopt (trimOptions optionv) argv).events with
    | error stop =>
        rw [hRes] at hLoop
        exact congrArg statusOf (hLoop.stop [])
    | ok st =>
        rw [hRes] at hLoop
        have hRcs : (st.afterCalls (trimOptions optionv)).map (procs (trimOptions optionv) mem) =
            st.afterRcs := by
          simp [OptState.afterCalls, OptState.afterRcs, procs]
        obtain ⟨res, hYields, hStatus⟩ := parsePositionalCalls_yields (trimOptions optionv)
          (resetMain_same paramv mem) st.paramv (st.afterCalls (trimOptions optionv))
          (getopt (trimOptions optionv) argv).rest
        rw [hRcs] at hStatus
        rw [← hStatus]
        exact congrArg statusOf ((hLoop.andThen hYields) [])

end Nct
