import Mathlib.Data.List.ReduceOption
import Mathlib.Data.List.Sort
import Nct.Exclusion
import Nct.LongOpts
import Nct.Support.Cliques

/-! The usage line that `clp_usage` prints: which options it shows in which brackets,
and what the option loop makes of them. -/
namespace Nct

open Cliques (around IsGroup CliqueIn)

def clpStringCmp (lhs rhs : Char) : Int :=
  let lc : Int := lhs.toLower.toNat
  let rc : Int := rhs.toLower.toNat
  if lc = rc then if lhs.isUpper then -1 else 1 else lc - rc

def sortLetters (buf : CString) : CString := buf.insertionSort fun l r => clpStringCmp l r ≤ 0

structure UsageBufs where
  excludes : CString
  optarg : CString
  opt : CString
  deriving DecidableEq, Repr

/-- What is printed for the positional parameters, in one call each. -/
inductive UsagePiece where
  | param (bracket : Bool) (namebuf : CString)
  | close
  deriving DecidableEq, Repr

def UsagePiece.text : UsagePiece → CString
  | param true namebuf => ' ' :: '[' :: namebuf
  | param false namebuf => ' ' :: namebuf
  | close => [']']

/-- The loop over the positional parameters. At the end of the vector, and in front of
a parameter that is not optional, all brackets are closed. -/
def posPieces : Nat → List Posparam → List UsagePiece
  | _, [] => []
  | noptional, param :: paramv =>
      let (isopt, namebuf) := clpUnbracket param.name 128
      let noptional := if isopt ≠ 0 then noptional + 1 else noptional
      let isopt' := match paramv with
        | [] => isopt
        | next :: _ => (clpUnbracket next.name 128).1
      let piece := UsagePiece.param (isopt ≠ 0) namebuf
      if paramv.isEmpty ∨ isopt' = 0 then
        piece :: List.replicate noptional .close ++ posPieces 0 paramv
      else piece :: posPieces noptional paramv

/-- Eliminate duplicate strings: the outer loop, with as many turns left. -/
def dropRepeats : Nat → List (Option CString) → List (Option CString)
  | n + 1, l :: listv => l :: dropRepeats n (listv.map fun r => if l.isSome ∧ r = l then none else r)
  | _, listv => listv

section
variable (optionv : List ClpOption)

def letter (o : Fin optionv.length) : Char := (optionv.get o).optopt

/-- `clp_excludes2` of the options that two letters stand for. -/
def lettersExclude (c d : Char) : Bool :=
  match clpFind optionv c, clpFind optionv d with
  | some l, some r => clpExcludes2 optionv l r
  | _, _ => false

/-- The string of a letter: itself, and what its option excludes. -/
def exclusiveWith (buf : CString) (c : Char) (i : Nat) : CString :=
  (buf.zipIdx.filter fun (d, j) => i == j || lettersExclude optionv c d).map Prod.fst

/-- All options within a list are mutually exclusive. -/
def allExclusive (l : CString) : Bool :=
  l.zipIdx.all fun (c, i) => l.zipIdx.all fun (d, j) => i == j || lettersExclude optionv c d

/-- The strings of mutually exclusive options that are left in `listv`. -/
def usageGroups (buf : CString) : List CString :=
  let listv := buf.zipIdx.map fun (c, i) => some (exclusiveWith optionv buf c i)
  (dropRepeats listv.length listv).reduceOption.filter (allExclusive optionv)

section
variable (argname help : Fin optionv.length → Option CString) (given : Fin optionv.length → Nat)
  (limit : Option (Fin optionv.length))

/-- The option may appear in one of the lists. -/
def usageShows (o : Fin optionv.length) : Bool :=
  clpOptoptValid (letter optionv o) &&
    !(match limit with
      | some limit => clpExcludes2 optionv limit o
      | none => (optionv.get o).paramv.isSome) &&
    some o != limit && (clpTrim (help o)).isSome

/-- The option might exclude or be excluded by another. -/
def usageExcludes (o : Fin optionv.length) : Bool :=
  (optionv.get o).excludes.isSome ||
    (clpExcludes optionv given o 0).any fun x => (optionv.get x).paramv == (optionv.get o).paramv

def UsageBufs.add (bufs : UsageBufs) (o : Fin optionv.length) : UsageBufs :=
  if !usageShows optionv help limit o then bufs
  else if usageExcludes optionv given o then
    { bufs with excludes := bufs.excludes ++ [letter optionv o] }
  else if (argname o).isSome then { bufs with optarg := bufs.optarg ++ [letter optionv o] }
  else { bufs with opt := bufs.opt ++ [letter optionv o] }

def usageBufs : UsageBufs :=
  let bufs := (List.finRange optionv.length).foldl
    (UsageBufs.add optionv argname help given limit) ⟨[], [], []⟩
  ⟨sortLetters bufs.excludes, sortLetters bufs.optarg, sortLetters bufs.opt⟩

/-- A string of mutually exclusive options, in brackets. -/
def groupText : CString → CString → CString
  | _, [] => [']']
  | bar, c :: l =>
      bar ++ ['-', c] ++ (((clpFind optionv c).bind argname).map (' ' :: ·)).getD [] ++
        groupText [' ', '|', ' '] l

/-- An option in `optarg_buf`. -/
def optargText (c : Char) : CString :=
  match clpFind optionv c with
  | none => []
  | some o =>
      [' ', '[', '-', letter optionv o, ' '] ++ (argname o).getD "(null)".toList ++ [']']

/-- `clp_usage`: what it prints, if it prints anything. -/
def clpUsage (basename : CString) (mem : VecId → List Posparam) (paramv : Option VecId) :
    Option CString :=
  let own := limit.bind fun limit => (optionv.get limit).paramv
  -- `strchr` finds the terminating NUL too
  let exclAll := limit.any fun limit =>
    (optionv.get limit).excludes.any fun list => list.head?.all fun c => ['*', '^'].contains c
  if limit.isSome && !exclAll && own.isNone then none
  else
    let paramv := own.or paramv
    let bufs := usageBufs optionv argname help given limit
    some <| "usage: ".toList ++ basename ++
      (limit.map fun limit => [' ', '-', letter optionv limit]).getD [] ++
      (if bufs.opt.isEmpty then [] else [' ', '[', '-'] ++ bufs.opt ++ [']']) ++
      bufs.optarg.flatMap (optargText optionv argname) ++
      (usageGroups optionv bufs.excludes).flatMap (groupText optionv argname [' ', '[']) ++
      (paramv.map fun v => (posPieces 0 (mem v)).flatMap UsagePiece.text).getD [] ++
      (if paramv.isSome then [] else " [args...]".toList) ++ ['\n']

end

end

/-- No string is lost. -/
theorem some_mem_dropRepeats {g : CString} {n : Nat} {listv : List (Option CString)} :
    some g ∈ dropRepeats n listv ↔ some g ∈ listv := by
  induction n generalizing listv with
  | zero => rfl
  | succ n ih =>
      cases listv with
      | nil => rfl
      | cons l listv =>
          rw [dropRepeats, List.mem_cons, List.mem_cons, ih, List.mem_map]
          apply or_congr_right'
          intro hne
          constructor
          · rintro ⟨r, hr, hKept⟩
            split at hKept
            · cases hKept
            · exact hKept ▸ hr
          · intro hg
            exact ⟨some g, hg, if_neg fun hSame => hne hSame.2⟩

theorem dropRepeats_nodup {n : Nat} {listv : List (Option CString)} (h : listv.length ≤ n) :
    (dropRepeats n listv).reduceOption.Nodup := by
  induction n generalizing listv with
  | zero =>
      rw [List.eq_nil_of_length_eq_zero (Nat.le_zero.mp h)]
      exact List.nodup_nil
  | succ n ih =>
      cases listv with
      | nil => exact List.nodup_nil
      | cons l listv =>
          rw [dropRepeats]
          have hRest : (dropRepeats n (listv.map fun r =>
              if l.isSome ∧ r = l then none else r)).reduceOption.Nodup := ih (by simpa using h)
          cases l with
          | none => rwa [List.reduceOption_cons_of_none]
          | some g =>
              rw [List.reduceOption_cons_of_some]
              refine List.nodup_cons.mpr ⟨fun hMem => ?_, hRest⟩
              rw [List.reduceOption_mem_iff, some_mem_dropRepeats, List.mem_map] at hMem
              obtain ⟨r, -, hKept⟩ := hMem
              split at hKept
              · cases hKept
              · next hOther => exact hOther ⟨rfl, hKept⟩

section
variable {optionv : List ClpOption}

/-- Letters exclude each other as their options do. -/
theorem lettersExclude_iff {c d : Char} : lettersExclude optionv c d = true ↔
    ∃ l r, clpFind optionv c = some l ∧ clpFind optionv d = some r ∧
      MutuallyExclusive optionv l r := by
  unfold lettersExclude
  split
  · next l r hl hr =>
      rw [clpExcludes2_iff]
      constructor
      · exact fun h => ⟨l, r, hl, hr, h⟩
      · rintro ⟨l', r', hl', hr', h⟩
        obtain rfl := Option.some.inj (hl.symm.trans hl')
        obtain rfl := Option.some.inj (hr.symm.trans hr')
        exact h
  · next hNone =>
      refine iff_of_false (by simp) ?_
      rintro ⟨l, r, hl, hr, -⟩
      exact hNone l r hl hr

/-- Which letters stand for options that exclude each other. -/
def exclusionGraph (optionv : List ClpOption) : SimpleGraph Char where
  Adj c d := lettersExclude optionv c d = true
  symm := ⟨fun c d h => by
    obtain ⟨l, r, hl, hr, hExcl⟩ := lettersExclude_iff.mp h
    exact lettersExclude_iff.mpr ⟨r, l, hr, hl, hExcl.symm⟩⟩
  loopless := ⟨fun c h => by
    obtain ⟨l, r, hl, hr, hExcl⟩ := lettersExclude_iff.mp h
    exact hExcl.1 (Option.some.inj (hl.symm.trans hr))⟩

instance : DecidableRel (exclusionGraph optionv).Adj :=
  fun c d => inferInstanceAs (Decidable (lettersExclude optionv c d = true))

theorem zipIdx_fst_eq {l : CString} (hNodup : l.Nodup) {c d : Char} {i j : Nat}
    (hi : (c, i) ∈ l.zipIdx) (hj : (d, j) ∈ l.zipIdx) : i = j ↔ c = d := by
  rw [List.mk_mem_zipIdx_iff_getElem?] at hi hj
  constructor
  · rintro rfl
    exact Option.some.inj (hi.symm.trans hj)
  · rintro rfl
    exact (List.getElem?_inj (List.getElem?_eq_some_iff.mp hi).1 hNodup).mp (hi.trans hj.symm)

theorem exists_index {l : CString} {c : Char} (h : c ∈ l) : ∃ i, (c, i) ∈ l.zipIdx := by
  obtain ⟨i, hi⟩ := List.mem_iff_getElem?.mp h
  exact ⟨i, List.mk_mem_zipIdx_iff_getElem?.mpr hi⟩

/-- The string of a letter is its closed neighbourhood. -/
theorem exclusiveWith_eq {buf : CString} (hNodup : buf.Nodup) {c : Char} {i : Nat}
    (hc : (c, i) ∈ buf.zipIdx) :
    exclusiveWith optionv buf c i = around (exclusionGraph optionv) buf c := by
  have hFilter : buf.zipIdx.filter (fun (d, j) => i == j || lettersExclude optionv c d) =
      buf.zipIdx.filter ((fun d => decide (c = d ∨ (exclusionGraph optionv).Adj c d)) ∘ Prod.fst) := by
    apply List.filter_congr
    rintro ⟨d, j⟩ hd
    rw [Bool.eq_iff_iff, Function.comp_apply, decide_eq_true_iff, Bool.or_eq_true, beq_iff_eq,
      zipIdx_fst_eq hNodup hc hd]
    rfl
  rw [exclusiveWith, hFilter, ← List.filter_map, List.zipIdx_map_fst]
  rfl

/-- A list of letters that all exclude each other is a clique. -/
theorem allExclusive_iff {l : CString} (hNodup : l.Nodup) :
    allExclusive optionv l = true ↔ (exclusionGraph optionv).IsClique {c | c ∈ l} := by
  simp only [allExclusive, List.all_eq_true, Bool.or_eq_true, beq_iff_eq, Prod.forall]
  constructor
  · intro hAll c hc d hd hcd
    obtain ⟨i, hi⟩ := exists_index hc
    obtain ⟨j, hj⟩ := exists_index hd
    exact (hAll c i hi d j hj).resolve_left fun hij => hcd ((zipIdx_fst_eq hNodup hi hj).mp hij)
  · intro hClique c i hi d j hj
    by_cases hcd : c = d
    · exact Or.inl ((zipIdx_fst_eq hNodup hi hj).mpr hcd)
    · exact Or.inr (hClique (List.fst_mem_of_mem_zipIdx hi) (List.fst_mem_of_mem_zipIdx hj) hcd)

/-- The strings that are left are the closed neighbourhoods that are cliques. -/
theorem mem_usageGroups {buf g : CString} (hNodup : buf.Nodup) :
    g ∈ usageGroups optionv buf ↔ IsGroup (exclusionGraph optionv) buf g := by
  have hAround : ∀ c, (around (exclusionGraph optionv) buf c).Nodup := fun c => hNodup.filter _
  rw [usageGroups, List.mem_filter, List.reduceOption_mem_iff, some_mem_dropRepeats, List.mem_map]
  constructor
  · rintro ⟨⟨⟨c, i⟩, hc, hg⟩, hAll⟩
    obtain rfl := Option.some.inj hg
    rw [exclusiveWith_eq hNodup hc] at hAll ⊢
    exact ⟨c, List.fst_mem_of_mem_zipIdx hc, rfl, (allExclusive_iff (hAround c)).mp hAll⟩
  · rintro ⟨c, hc, rfl, hClique⟩
    obtain ⟨i, hi⟩ := exists_index hc
    exact ⟨⟨(c, i), hi, congrArg some (exclusiveWith_eq hNodup hi)⟩,
      (allExclusive_iff (hAround c)).mpr hClique⟩

theorem usageGroups_nodup (buf : CString) : (usageGroups optionv buf).Nodup :=
  (dropRepeats_nodup le_rfl).filter _

section
variable {argname help : Fin optionv.length → Option CString} {given : Fin optionv.length → Nat}
  {limit : Option (Fin optionv.length)}

/-- The three lists are filters of the options shown. -/
theorem foldl_add (os : List (Fin optionv.length)) (bufs : UsageBufs) :
    os.foldl (UsageBufs.add optionv argname help given limit) bufs =
      let shown := os.filter (usageShows optionv help limit)
      let rest := shown.filter (!usageExcludes optionv given ·)
      ⟨bufs.excludes ++ (shown.filter (usageExcludes optionv given)).map (letter optionv),
        bufs.optarg ++ (rest.filter fun o => (argname o).isSome).map (letter optionv),
        bufs.opt ++ (rest.filter fun o => (argname o).isNone).map (letter optionv)⟩ := by
  induction os generalizing bufs with
  | nil => simp
  | cons o os ih =>
      rw [List.foldl_cons, ih, UsageBufs.add]
      cases hShows : usageShows optionv help limit o with
      | false => simp [hShows]
      | true =>
          cases hExcludes : usageExcludes optionv given o with
          | true => simp [hShows, hExcludes]
          | false => cases hArg : argname o <;> simp [hShows, hExcludes, hArg]

/-- Sorting keeps the letters. -/
theorem sortLetters_perm (buf : CString) : (sortLetters buf).Perm buf := List.perm_insertionSort _ _

/-- The letters that are not excluded. -/
theorem mem_others {c : Char} : c ∈ (usageBufs optionv argname help given limit).optarg ∨
      c ∈ (usageBufs optionv argname help given limit).opt ↔
    ∃ o, usageShows optionv help limit o = true ∧ usageExcludes optionv given o = false ∧
      letter optionv o = c := by
  simp only [usageBufs, foldl_add, (sortLetters_perm _).mem_iff, List.nil_append, List.mem_map,
    List.mem_filter, List.mem_finRange, true_and, and_assoc, Bool.not_eq_true', ← exists_or]
  apply exists_congr
  intro o
  cases argname o <;> simp

/-- Options with distinct letters have one letter each. -/
theorem letter_injective (h : (optionv.map (·.optopt)).Nodup) :
    Function.Injective (letter optionv) := by
  intro o x hSame
  have hOption : optionv.get o = optionv.get x :=
    List.inj_on_of_nodup_map h (List.get_mem ..) (List.get_mem ..) hSame
  exact (List.Nodup.of_map _ h).get_inj_iff.mp hOption

/-- No letter comes twice in a list. -/
theorem excludes_nodup (h : (optionv.map (·.optopt)).Nodup) :
    (usageBufs optionv argname help given limit).excludes.Nodup := by
  simp only [usageBufs, foldl_add, (sortLetters_perm _).nodup_iff, List.nil_append]
  exact (((List.nodup_finRange _).filter _).filter _).map (letter_injective h)

end

/-- Letters that exclude each other stand for options that do, wherever they are given. -/
theorem lettersExclude_given {g h : Given optionv}
    (hExcl : lettersExclude optionv (letter optionv g.opt) (letter optionv h.opt) = true) :
    MutuallyExclusive optionv g.opt h.opt := by
  obtain ⟨l, r, hl, hr, hBoth⟩ := lettersExclude_iff.mp hExcl
  obtain rfl := Option.some.inj (g.finds.symm.trans hl)
  obtain rfl := Option.some.inj (h.finds.symm.trans hr)
  exact hBoth

/-- Options that exclude none and have no positional vector do not exclude each other. -/
theorem not_exclusive_of_none {o x : Fin optionv.length}
    (hDeclares : (optionv.get o).excludes = none ∧ (optionv.get x).excludes = none)
    (hParamv : (optionv.get o).paramv = none) : ¬ MutuallyExclusive optionv o x := by
  rintro ⟨-, ⟨list, hSome, -⟩ | ⟨list, hSome, -⟩ | ⟨v, w, hSome, -, -⟩⟩
  · rw [hDeclares.1] at hSome
    cases hSome
  · rw [hDeclares.2] at hSome
    cases hSome
  · rw [hParamv] at hSome
    cases hSome

end

/-- What a usage line shows agrees with the option loop. Of the options that may
exclude others, each pair of brackets shows a largest set of mutually exclusive ones,
no set twice, so that no command line with two of them is accepted; where they fall
into such sets, each is shown in just one. In the usage line of the program, options in
the other lists can be given together. -/
theorem usage_groups (optionv : List ClpOption)
    (argname help : Fin optionv.length → Option CString) (given : Fin optionv.length → Nat)
    (limit : Option (Fin optionv.length)) (hDistinct : (optionv.map (·.optopt)).Nodup) :
    let bufs := usageBufs optionv argname help given limit
    let groups := usageGroups optionv bufs.excludes
    let parse := fun paramv (seq : List (Given optionv)) =>
      optionLoop optionv (OptState.start optionv paramv) (seq.map Given.event)
    groups.Nodup ∧
    (∀ group ∈ groups,
      Maximal (CliqueIn (exclusionGraph optionv) bufs.excludes) {c | c ∈ group} ∧
      ∀ paramv (seq : List (Given optionv)), ∀ g ∈ seq, ∀ h ∈ seq, g.opt ≠ h.opt →
        letter optionv g.opt ∈ group → letter optionv h.opt ∈ group →
        ∃ x, parse paramv seq = .error (.excluded x)) ∧
    ((∀ c ∈ bufs.excludes, ∀ d ∈ bufs.excludes, ∀ e ∈ bufs.excludes,
        lettersExclude optionv c d → lettersExclude optionv d e → c ≠ e →
        lettersExclude optionv c e) →
      ∀ c ∈ bufs.excludes, ∃! group, group ∈ groups ∧ c ∈ group) ∧
    (limit = none → ∀ paramv (seq : List (Given optionv)),
      (∀ g ∈ seq, letter optionv g.opt ∈ bufs.optarg ∨ letter optionv g.opt ∈ bufs.opt) →
      ∃ st, parse paramv seq = .ok st) := by
  intro bufs groups parse
  have hNodup : bufs.excludes.Nodup := excludes_nodup hDistinct
  have hMem : ∀ {group}, group ∈ groups ↔ IsGroup (exclusionGraph optionv) bufs.excludes group :=
    mem_usageGroups hNodup
  refine ⟨usageGroups_nodup _, fun group hGroup => ⟨(hMem.mp hGroup).maximal, ?_⟩, ?_, ?_⟩
  · intro paramv seq g hg h hh hne hgIn hhIn
    obtain ⟨hAccept, -, hReject⟩ := optionLoop_start paramv seq
    apply hReject.mpr
    rw [hAccept]
    intro hNone
    have hLetters := (letter_injective hDistinct).ne hne
    exact hNone g hg h hh (lettersExclude_given ((hMem.mp hGroup).maximal.1.1 hgIn hhIn hLetters))
  · intro hTrans c hc
    simp only [hMem]
    exact Cliques.existsUnique_group hTrans hc
  · rintro rfl paramv seq hOthers
    obtain ⟨hAccept, -, -⟩ := optionLoop_start paramv seq
    apply hAccept.mpr
    have hPlain : ∀ g ∈ seq, (optionv.get g.opt).excludes = none ∧
        (optionv.get g.opt).paramv = none := by
      intro g hg
      obtain ⟨o, hShows, hExcludes, hLetter⟩ := mem_others.mp (hOthers g hg)
      obtain rfl := letter_injective hDistinct hLetter
      simp only [usageShows, usageExcludes, Bool.and_eq_true, Bool.not_eq_true', Bool.or_eq_false_iff,
        Option.isSome_eq_false_iff, Option.isNone_iff_eq_none] at hShows hExcludes
      exact ⟨hExcludes.1, hShows.1.1.2⟩
    intro g hg h hh
    exact not_exclusive_of_none ⟨(hPlain g hg).1, (hPlain h hh).1⟩ (hPlain g hg).2

def flag (optopt : Char) (excludes : Option CString) : ClpOption :=
  ⟨optopt, excludes, none, none, none, none⟩

/-- Options of which the first and the last two exclude each other. -/
def pairedOptions : List ClpOption :=
  [flag 'b' (some ['a']), flag 'a' none, flag 'v' none, flag 'd' none, flag 'c' (some ['d'])]

example : clpUsage pairedOptions (fun _ => none) (fun _ => some ['x']) (fun _ => 0) none ['n', 'c', 't']
    (fun _ => []) (some 0) = some "usage: nct [-v] [-a | -b] [-c | -d]\n".toList := by decide

/-- `a` and `b` exclude each other, and neither excludes `c` or `d`. -/
theorem usage_groups_paired :
    Maximal (CliqueIn (exclusionGraph pairedOptions) ['a', 'b', 'c', 'd']) {c | c ∈ ['a', 'b']} := by
  have hGroups := usage_groups pairedOptions (fun _ => none) (fun _ => some ['x']) (fun _ => 0) none
    (by decide)
  exact (hGroups.2.1 ['a', 'b'] (by decide)).1

end Nct
