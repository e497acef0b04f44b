import Nct.Reparse
import Nct.Usage

/-! The brackets around positional parameters in the usage line, and which parameters
a parse fills. -/
namespace Nct

/-- What is shown of the parameters, each name with the brackets open around it; `none`
if a bracket is closed that is not open, or left open. -/
def shownDepths : Nat → List UsagePiece → Option (List (Nat × CString))
  | 0, [] => some []
  | _ + 1, [] => none
  | d, .param true namebuf :: pieces => (shownDepths (d + 1) pieces).map ((d + 1, namebuf) :: ·)
  | d, .param false namebuf :: pieces => (shownDepths d pieces).map ((d, namebuf) :: ·)
  | 0, .close :: _ => none
  | d + 1, .close :: pieces => shownDepths d pieces

instance (param : Posparam) : Decidable param.Mandatory := inferInstanceAs (Decidable (_ = 0))

/-- A mandatory parameter belongs in no brackets, and an optional one in one pair more
than the optional one before it. -/
def bracketDepths : Nat → List Posparam → List (Nat × CString)
  | _, [] => []
  | d, param :: paramv =>
      let depth := if param.Mandatory then 0 else d + 1
      (depth, (clpUnbracket param.name 128).2) :: bracketDepths depth paramv

theorem shownDepths_close (d : Nat) (pieces : List UsagePiece) :
    shownDepths d (List.replicate d .close ++ pieces) = shownDepths 0 pieces := by
  induction d with
  | zero => rfl
  | succ d ih => exact ih

section
variable {param next : Posparam} (paramv : List Posparam) (d : Nat)

theorem posPieces_mandatory (h : param.Mandatory) : posPieces 0 (param :: paramv) =
    .param false (clpUnbracket param.name 128).2 :: posPieces 0 paramv := by
  rw [Posparam.Mandatory] at h
  cases paramv with
  | nil => simp [posPieces, h]
  | cons next paramv =>
      rw [posPieces]
      simp only [h, ne_eq, not_true, if_false, decide_false, List.replicate_zero, List.cons_append,
        List.nil_append, ite_self]

/-- Brackets stay open in front of another optional parameter. -/
theorem posPieces_inner (h : ¬ param.Mandatory) (hNext : ¬ next.Mandatory) :
    posPieces d (param :: next :: paramv) =
      .param true (clpUnbracket param.name 128).2 :: posPieces (d + 1) (next :: paramv) := by
  rw [Posparam.Mandatory] at h hNext
  rw [posPieces]
  simp only [h, hNext, ne_eq, not_false_eq_true, if_true, decide_true, List.isEmpty_cons,
    Bool.false_eq_true, or_false, if_false]

/-- They are closed in front of a mandatory one and at the end. -/
theorem posPieces_last (h : ¬ param.Mandatory) (hEnd : ∀ next ∈ paramv.head?, next.Mandatory) :
    posPieces d (param :: paramv) = .param true (clpUnbracket param.name 128).2 ::
      (List.replicate (d + 1) .close ++ posPieces 0 paramv) := by
  rw [Posparam.Mandatory] at h
  cases paramv with
  | nil => simp [posPieces, h]
  | cons next paramv =>
      have hNext : (clpUnbracket next.name 128).1 = 0 := hEnd next rfl
      rw [posPieces]
      simp only [h, hNext, ne_eq, not_false_eq_true, if_true, decide_true, or_true, List.cons_append]

/-- Where no bracket is to stay open, none is open. -/
theorem bracketDepths_last (hEnd : ∀ next ∈ paramv.head?, next.Mandatory) :
    bracketDepths d paramv = bracketDepths 0 paramv := by
  cases paramv with
  | nil => rfl
  | cons next paramv =>
      have hNext : next.Mandatory := hEnd next rfl
      simp only [bracketDepths, hNext, if_true]

end

/-- The names are shown where they belong, and all brackets are closed. Brackets are
open at the start of the rest of a vector only if this is optional. -/
theorem posPieces_depths (paramv : List Posparam) (d : Nat)
    (h : d = 0 ∨ ¬ ∀ param ∈ paramv.head?, param.Mandatory) :
    shownDepths d (posPieces d paramv) = some (bracketDepths d paramv) := by
  induction paramv generalizing d with
  | nil =>
      obtain rfl := h.resolve_right (by simp)
      rfl
  | cons param paramv ih =>
      simp only [bracketDepths]
      by_cases hMust : param.Mandatory
      · obtain rfl : d = 0 := h.resolve_right (by simpa using hMust)
        rw [posPieces_mandatory paramv hMust, if_pos hMust, shownDepths, ih 0 (Or.inl rfl)]
        rfl
      · rw [if_neg hMust]
        by_cases hEnd : ∀ next ∈ paramv.head?, next.Mandatory
        · rw [posPieces_last paramv d hMust hEnd, shownDepths, shownDepths_close,
            ih 0 (Or.inl rfl), bracketDepths_last paramv (d + 1) hEnd]
          rfl
        · have hRest := ih (d + 1) (Or.inr hEnd)
          cases paramv with
          | nil => exact absurd (by simp) hEnd
          | cons next paramv =>
              rw [posPieces_inner paramv d hMust (by simpa using hEnd), shownDepths, hRest]
              rfl

/-- Where just enough arguments are left, a parameter gets what it must have. -/
theorem share_exact (p : Posparam) (argc : Int) :
    share (setMinmax p) argc argc = (setMinmax p).posmin := by
  rcases setMinmax_posmin p with ⟨hPosmin, -⟩ | ⟨hPosmin, -⟩
  · simp [share, hPosmin]
  · simp [share, hPosmin]

/-- An optional parameter gets nothing only if no more are left. -/
theorem le_of_share_zero {p : Posparam} (h : ¬ p.Mandatory) {argc posmin : Int}
    (hZero : share (setMinmax p) argc posmin = 0) : argc ≤ posmin := by
  have hPosmin : (setMinmax p).posmin = 0 :=
    (setMinmax_posmin p).elim (fun hOne => absurd hOne.2 h) And.left
  simp only [share, hPosmin] at hZero
  split at hZero
  · next hOne => cases hOne
  · split at hZero
    · split at hZero <;> omega
    · omega

theorem distribute_exact (paramv : List Posparam) (hNone : Unassigned paramv) (args : List CString)
    (hMin : (clpPosparamMinmax paramv).1 = args.length) :
    ∀ q ∈ distribute (clpPosparamMinmax paramv).2.2 args.length (clpPosparamMinmax paramv).1 args,
      ¬ q.Mandatory → q.argc = 0 := by
  induction paramv generalizing args with
  | nil =>
      intro q hq
      cases args <;> simp [clpPosparamMinmax, distribute] at hq
  | cons p paramv ih =>
      have hTail : Unassigned paramv := fun q hq => hNone q (List.mem_cons_of_mem _ hq)
      have hMax : args.length ≤ (clpPosparamMinmax (p :: paramv)).2.1 :=
        hMin ▸ (minmax_le (p :: paramv)).2
      by_cases hArgs : args = []
      · subst hArgs
        intro q hq _
        rw [show (([] : List CString).length : Int) = 0 from rfl, distribute_nil] at hq
        exact hNone.minmax q hq
      have hPos := List.length_pos_iff.mpr hArgs
      by_cases hSub : clpSubcmd p = true
      · rw [distribute_subcommand paramv hSub hArgs hMin.le hMax]
        rw [minmax_subcommand paramv hSub] at hMin
        intro q hq hOptional
        rcases List.mem_cons.mp hq with rfl | hq
        · rcases setMinmax_posmin p with ⟨-, hMust⟩ | ⟨hPosmin, -⟩
          · exact absurd hMust hOptional
          · simp only at hMin ⊢
            omega
        · exact hTail q hq
      · have hNotSub := Bool.eq_false_of_not_eq_true hSub
        obtain ⟨hPass, hBounds, -, -, -, -⟩ := distribute_cons paramv hNotSub hArgs hMin.le hMax
        rw [hMin, share_exact] at hPass hBounds
        rw [hMin, hPass]
        rw [minmax_cons paramv hNotSub] at hMin
        intro q hq hOptional
        rcases List.mem_cons.mp hq with rfl | hq
        · exact (setMinmax_posmin p).elim (fun hOne => absurd hOne.2 hOptional) And.left
        · apply ih hTail (args.drop (setMinmax p).posmin.toNat) ?_ q hq hOptional
          rw [List.length_drop]
          simp only at hMin
          omega

/-- An optional parameter that gets no argument leaves none to those after it. -/
def LeftToRight (p q : Posparam) : Prop := ¬ p.Mandatory → ¬ q.Mandatory → p.argc = 0 → q.argc = 0

theorem distribute_leftToRight (paramv : List Posparam) (hNone : Unassigned paramv)
    (args : List CString) (hMin : (clpPosparamMinmax paramv).1 ≤ args.length)
    (hMax : args.length ≤ (clpPosparamMinmax paramv).2.1) :
    (distribute (clpPosparamMinmax paramv).2.2 args.length
      (clpPosparamMinmax paramv).1 args).Pairwise LeftToRight := by
  induction paramv generalizing args with
  | nil => cases args <;> exact List.Pairwise.nil
  | cons p paramv ih =>
      have hTail : Unassigned paramv := fun q hq => hNone q (List.mem_cons_of_mem _ hq)
      by_cases hArgs : args = []
      · subst hArgs
        rw [show (([] : List CString).length : Int) = 0 from rfl, distribute_nil]
        exact List.pairwise_of_forall_mem_list fun _ _ q hq _ _ _ => hNone.minmax q hq
      have hPos := List.length_pos_iff.mpr hArgs
      by_cases hSub : clpSubcmd p = true
      · rw [distribute_subcommand paramv hSub hArgs hMin hMax]
        apply List.Pairwise.cons
        · intro q hq _ _ _
          exact hTail q hq
        · exact List.pairwise_of_forall_mem_list fun _ _ q hq _ _ _ => hTail q hq
      · have hNotSub := Bool.eq_false_of_not_eq_true hSub
        obtain ⟨hPass, -, -, -, hMinLeft, hMaxLeft⟩ :=
          distribute_cons paramv hNotSub hArgs hMin hMax
        have hExact := distribute_exact (p :: paramv) hNone args
        rw [hPass] at hExact ⊢
        apply List.Pairwise.cons
        · intro q hq hOptional hOther hZero
          have hFew := le_of_share_zero (p := p) hOptional hZero
          exact hExact (le_antisymm hMin hFew) q (List.mem_cons_of_mem _ hq) hOther
        · exact ih hTail _ hMinLeft hMaxLeft

theorem bracketDepths_reset (paramv : List Posparam) (d : Nat) :
    bracketDepths d (paramv.map Posparam.reset) = bracketDepths d paramv := by
  induction paramv generalizing d with
  | nil => rfl
  | cons param paramv ih =>
      rw [List.map_cons, bracketDepths, bracketDepths, ih]
      rfl

theorem resetMain_unassigned {mem : VecId → List Posparam} {v : VecId} (h : Unassigned (mem v))
    (paramv : Option VecId) : Unassigned (resetMain paramv mem v) := by
  cases paramv with
  | none => exact h
  | some w =>
      by_cases hw : v = w
      · subst hw
        rw [resetMain, Function.update_self]
        exact unassigned_reset _
      · rw [resetMain, Function.update_of_ne hw]
        exact h

/-- The usage line shows each parameter of a vector in as many brackets as there are
optional ones in a row up to it, and a parse that selects the vector fills the
parameters in brackets from left to right: none of them gets an argument when one
before it gets none. -/
theorem usage_brackets (getopt : List ClpOption → List CString → Scan)
    (mem : VecId → List Posparam) (argv : List CString) (hArgv : argv ≠ [])
    (optionv : List ClpOption) (paramv : Option VecId) (st : OptState (trimOptions optionv))
    (hLoop : optionLoop (trimOptions optionv) (OptState.start _ paramv)
      (getopt (trimOptions optionv) argv).events = .ok st)
    (v : VecId) (hSelected : st.paramv = some v) (hFresh : Unassigned (mem v))
    {params : List Posparam}
    (hAssigned : (clpParsev getopt mem argv optionv paramv).assigned = some params) :
    shownDepths 0 (posPieces 0 (mem v)) = some (bracketDepths 0 params) ∧
      params.Pairwise LeftToRight := by
  have hNone := resetMain_unassigned hFresh paramv
  have hReset := resetMain_same paramv mem v
  rw [clpParsev_of_ok getopt mem argv optionv hArgv hLoop, hSelected] at hAssigned
  obtain ⟨hUsage, hAfter, hAssign⟩ := parsePositional_some (resetMain paramv mem) v st.afterRcs
    (getopt (trimOptions optionv) argv).rest
  by_cases hIn : (clpPosparamMinmax (resetMain paramv mem v)).1 ≤
        (getopt (trimOptions optionv) argv).rest.length ∧
      (getopt (trimOptions optionv) argv).rest.length ≤
        (clpPosparamMinmax (resetMain paramv mem v)).2.1
  · cases hStop : stopAt st.afterRcs with
    | some rc =>
        rw [hAfter hIn rc hStop] at hAssigned
        cases hAssigned
    | none =>
        rw [(hAssign hIn hStop).1] at hAssigned
        obtain rfl := Option.some.inj hAssigned
        refine ⟨?_, distribute_leftToRight _ hNone _ hIn.1 hIn.2⟩
        rw [posPieces_depths _ 0 (Or.inl rfl), ← bracketDepths_reset (mem v), ← hReset,
          ← minmax_reset, ← distribute_reset, bracketDepths_reset]
  · rw [hUsage hIn] at hAssigned
    cases hAssigned

/-- `rhostpath [length]` with one argument. -/
theorem usage_brackets_readParams : ∃ params,
    (clpParsev noOptions (fun _ => readParams) [['r'], ['h']] [] (some 0)).assigned = some params ∧
      shownDepths 0 (posPieces 0 readParams) = some (bracketDepths 0 params) ∧
      params.Pairwise LeftToRight := by
  have hSome : (clpParsev noOptions (fun _ => readParams) [['r'], ['h']] [] (some 0)).assigned.isSome :=
    by decide
  obtain ⟨params, hAssigned⟩ := Option.isSome_iff_exists.mp hSome
  have hFresh : Unassigned readParams := by simp [Unassigned, readParams, posparam]
  exact ⟨params, hAssigned, usage_brackets noOptions (fun _ => readParams) [['r'], ['h']] (by simp) []
    (some 0) (OptState.start _ (some 0)) rfl 0 rfl hFresh hAssigned⟩

end Nct
