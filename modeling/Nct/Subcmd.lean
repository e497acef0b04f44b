import Nct.Convert
import Nct.LongOpts

/-! Subcommands: `clp_cvt_subcmd` finds the entry of a vector that an argument
abbreviates, and `clp_action_subcmd` parses what follows by the entry's own vectors. -/
namespace Nct

structure ClpSubcmd where
  name : CString
  optionv : List ClpOption
  posparamv : Option VecId

/-- `strstr`, as the offset of what it finds. -/
def strstr (haystack needle : CString) : Option Nat :=
  (List.range (haystack.length + 1)).find? fun off => needle.isPrefixOf (haystack.drop off)

def ispunct (c : Char) : Bool := isgraph c && !c.isAlphanum

/-- `clp_eprint` of a message: what it leaves in `clp->errbuf`. What was there before
is kept, or comes after the message if it starts with a punctuation mark. -/
def clpEprint (strerror : Nat → CString) (errno : Nat) (errbuf message : CString) : CString :=
  if errbuf.head?.any (!ispunct ·) then errbuf
  else
    let suffix := errbuf.take 119
    let suffix := if errno ≠ 0 ∧ suffix = [] then ':' :: ' ' :: strerror errno else suffix
    (message ++ suffix).take 127

/-- What `clp_cvt_subcmd` returns and leaves. `dst` is the place of the entry that
`*dst` points to. -/
structure SubcmdCvt where
  rc : Int
  errno : Nat
  errbuf : CString
  dst : Option Nat
  deriving DecidableEq

/-- The loop, with the first match so far; it ends early at a second one. -/
def matchSubcmd (str : CString) : List ClpSubcmd → Nat → Option Nat → Except Unit (Option Nat)
  | [], _, found => .ok found
  | subcmd :: subcmdv, i, found =>
      if strstr subcmd.name str ≠ some 0 then matchSubcmd str subcmdv (i + 1) found
      else if found.isSome then .error ()
      else matchSubcmd str subcmdv (i + 1) (some i)

/-- `clp_cvt_subcmd`; `parms` is `none` for NULL. -/
def clpCvtSubcmd (strerror : Nat → CString) (errno : Nat) (errbuf str : CString)
    (parms : Option (List ClpSubcmd)) (dst : Option Nat) : SubcmdCvt :=
  let usage (problem : String) : SubcmdCvt :=
    ⟨EX_USAGE, Errno.EINVAL, clpEprint strerror errno errbuf
      (problem.toList ++ str ++ "', use -h for help".toList), dst⟩
  match matchSubcmd str (parms.getD []) 0 none with
  | .error () => usage "ambiguous subcommand '"
  | .ok none => usage "invalid subcommand '"
  | .ok (some i) => ⟨0, errno, errbuf, some i⟩

/-- `clp_action_subcmd` for the entry that was selected, with the arguments from its
name on. It never returns zero, so that nothing is left of them for the caller. -/
def clpActionSubcmd (getopt : List ClpOption → List CString → Scan) (mem : VecId → List Posparam)
    (subcmd : ClpSubcmd) (argv : List CString) : Parse :=
  let parse := clpParsev getopt mem argv subcmd.optionv subcmd.posparamv
  { parse with rc := if parse.rc = 0 then -1 else parse.rc }

def Starts (subcmdv : List ClpSubcmd) (str : CString) (i : Nat) : Prop :=
  ∃ subcmd, subcmdv[i]? = some subcmd ∧ str <+: subcmd.name

/-- The string is an entry's whole name. -/
def Named (subcmdv : List ClpSubcmd) (str : CString) (i : Nat) : Prop :=
  ∃ subcmd, subcmdv[i]? = some subcmd ∧ subcmd.name = str

/-- The conversion has selected the entry. -/
def SubcmdCvt.Selects (r : SubcmdCvt) (i : Nat) : Prop := r.rc = 0 ∧ r.dst = some i

/-- A whole name selects its entry. Any other string selects the only entry whose name
starts with it, and is an error if there is no such entry or more than one. -/
def SubcmdRight (subcmdv : List ClpSubcmd) (str : CString) : Prop :=
  ∀ (strerror : Nat → CString) (errno : Nat) (errbuf : CString) (dst : Option Nat),
    let r := clpCvtSubcmd strerror errno errbuf str (some subcmdv) dst
    (∀ i, Named subcmdv str i → r.Selects i) ∧
      ((¬ ∃ i, Named subcmdv str i) →
        (∀ i, r.Selects i ↔ Starts subcmdv str i ∧ ∀ j, Starts subcmdv str j → j = i) ∧
          ((¬ ∃! i, Starts subcmdv str i) → r.rc = EX_USAGE ∧ r.dst = dst))

/-- The places of the entries whose names start with the string. -/
def starters (str : CString) : List ClpSubcmd → Nat → List Nat
  | [], _ => []
  | subcmd :: subcmdv, i =>
      if strstr subcmd.name str = some 0 then i :: starters str subcmdv (i + 1)
      else starters str subcmdv (i + 1)

/-- The only element of a list, if there is no more than one. -/
def onlyOne : List Nat → Except Unit (Option Nat)
  | [] => .ok none
  | [i] => .ok (some i)
  | _ => .error ()

/-- What is found at the start of a string is a prefix. -/
theorem strstr_eq_zero_iff (haystack needle : CString) :
    strstr haystack needle = some 0 ↔ needle <+: haystack := by
  rw [strstr, List.range_succ_eq_map, List.find?_cons, List.drop_zero, ← List.isPrefixOf_iff_prefix]
  cases needle.isPrefixOf haystack with
  | true => simp
  | false => simp [List.find?_map, Option.map_eq_some_iff]

section
variable {str : CString} {subcmdv : List ClpSubcmd} {i j : Nat}

theorem matchSubcmd_eq (str : CString) (subcmdv : List ClpSubcmd) (i : Nat) (found : Option Nat) :
    matchSubcmd str subcmdv i found = onlyOne (found.toList ++ starters str subcmdv i) := by
  induction subcmdv generalizing i found with
  | nil => cases found <;> rfl
  | cons subcmd subcmdv ih =>
      rw [matchSubcmd, starters]
      by_cases hStarts : strstr subcmd.name str = some 0
      · simp only [hStarts, ne_eq, not_true, if_false, if_true]
        cases found with
        | none => exact ih (i + 1) (some i)
        | some k => rfl
      · simp only [ne_eq, hStarts, not_false_eq_true, if_true, if_false]
        exact ih (i + 1) found

theorem mem_starters : j ∈ starters str subcmdv i ↔ i ≤ j ∧ Starts subcmdv str (j - i) := by
  induction subcmdv generalizing i with
  | nil => simp [starters, Starts]
  | cons subcmd subcmdv ih =>
      have hHead : Starts (subcmd :: subcmdv) str 0 ↔ strstr subcmd.name str = some 0 := by
        simp [Starts, strstr_eq_zero_iff]
      have hTail : ∀ k, Starts (subcmd :: subcmdv) str (k + 1) ↔ Starts subcmdv str k := by
        simp [Starts]
      have hMem : j ∈ starters str (subcmd :: subcmdv) i ↔
          (j = i ∧ strstr subcmd.name str = some 0) ∨ j ∈ starters str subcmdv (i + 1) := by
        rw [starters]
        split
        · next hStarts => simp [hStarts]
        · next hNot => simp [hNot]
      rw [hMem, ih, ← hHead]
      rcases Nat.lt_trichotomy i j with hLt | rfl | hGt
      · obtain ⟨k, rfl⟩ := Nat.exists_eq_add_of_lt hLt
        have hPlace : i + k + 1 - i = k + 1 := by omega
        have hNext : i + k + 1 - (i + 1) = k := by omega
        rw [hPlace, hNext, hTail]
        simp [hLt.ne', hLt.le, Nat.succ_le_of_lt hLt]
      · simp
      · have hPast : ¬ i + 1 ≤ j := fun h => hGt.not_ge (Nat.le_of_succ_le h)
        simp only [hGt.ne, hGt.not_ge, hPast, false_and, or_self]

theorem starters_nodup (str : CString) (subcmdv : List ClpSubcmd) (i : Nat) :
    (starters str subcmdv i).Nodup := by
  induction subcmdv generalizing i with
  | nil => exact List.nodup_nil
  | cons subcmd subcmdv ih =>
      rw [starters]
      split
      · exact List.nodup_cons.mpr ⟨fun hMem => (mem_starters.mp hMem).1.not_gt i.lt_succ_self, ih (i + 1)⟩
      · exact ih (i + 1)

/-- There is a single match just if one entry's name starts with the string, and no
other's does. -/
theorem starters_eq_singleton_iff :
    starters str subcmdv 0 = [i] ↔ Starts subcmdv str i ∧ ∀ j, Starts subcmdv str j → j = i := by
  have hMem : ∀ j, j ∈ starters str subcmdv 0 ↔ Starts subcmdv str j := by
    simp [mem_starters]
  rw [← List.perm_singleton,
    List.perm_ext_iff_of_nodup (starters_nodup str subcmdv 0) (List.nodup_singleton i)]
  simp only [hMem, List.mem_singleton]
  constructor
  · intro hOnly
    exact ⟨(hOnly i).mpr rfl, fun j => (hOnly j).mp⟩
  · rintro ⟨hStarts, hOnly⟩ j
    refine ⟨hOnly j, ?_⟩
    rintro rfl
    exact hStarts

/-- The single match is selected. If there is none, or more than one, that is an
error, and `*dst` is what it was. -/
theorem clpCvtSubcmd_spec (strerror : Nat → CString) (errno : Nat) (errbuf str : CString)
    (subcmdv : List ClpSubcmd) (dst : Option Nat) :
    let r := clpCvtSubcmd strerror errno errbuf str (some subcmdv) dst
    (∀ i, r.Selects i ↔ starters str subcmdv 0 = [i]) ∧
      ((¬ ∃ i, starters str subcmdv 0 = [i]) → r.rc = EX_USAGE ∧ r.dst = dst) := by
  have hUsage : EX_USAGE ≠ 0 := by decide
  simp only [clpCvtSubcmd, Option.getD_some, matchSubcmd_eq, Option.toList_none, List.nil_append]
  rcases hMatches : starters str subcmdv 0 with _ | ⟨k, _ | ⟨l, rest⟩⟩
  · simp [onlyOne, SubcmdCvt.Selects, hUsage]
  · simp [onlyOne, SubcmdCvt.Selects]
  · simp [onlyOne, SubcmdCvt.Selects, hUsage]

theorem Named.starts (h : Named subcmdv str i) : Starts subcmdv str i := by
  obtain ⟨subcmd, hPlace, rfl⟩ := h
  exact ⟨subcmd, hPlace, List.prefix_rfl⟩

end

/-- A string is treated right unless it is the name of one entry and begins that of
another. -/
theorem subcmd_right_iff (subcmdv : List ClpSubcmd) (str : CString) :
    SubcmdRight subcmdv str ↔ ∀ i j, Named subcmdv str i → Starts subcmdv str j → j = i := by
  constructor
  · intro hRight i j hNamed hStarts
    obtain ⟨hName, -⟩ := hRight (fun _ => []) 0 [] none
    have hSelects := hName i hNamed
    rw [(clpCvtSubcmd_spec _ _ _ _ _ _).1 i, starters_eq_singleton_iff] at hSelects
    exact hSelects.2 j hStarts
  · intro hOnly strerror errno errbuf dst
    obtain ⟨hSelects, hError⟩ := clpCvtSubcmd_spec strerror errno errbuf str subcmdv dst
    simp only [starters_eq_singleton_iff] at hSelects hError
    refine ⟨fun i hNamed => ?_, fun _ => ⟨hSelects, fun hNot => hError ?_⟩⟩
    · exact (hSelects i).mpr ⟨hNamed.starts, fun j => hOnly i j hNamed⟩
    · rintro ⟨i, hStarts, hUnique⟩
      exact hNot ⟨i, hStarts, hUnique⟩

def rmRmdir : List ClpSubcmd := [⟨['r', 'm'], [], none⟩, ⟨['r', 'm', 'd', 'i', 'r'], [], none⟩]

/-- The entry `rm` cannot be selected beside `rmdir`. -/
theorem subcmd_ambiguousName :
    ¬ ∀ (subcmdv : List ClpSubcmd) (str : CString), (subcmdv.map ClpSubcmd.name).Nodup →
      SubcmdRight subcmdv str := by
  intro h
  obtain ⟨hName, -⟩ := h rmRmdir ['r', 'm'] (by decide) (fun _ => []) 0 [] none
  have hSelects := (hName 0 ⟨_, rfl, rfl⟩).1
  exact absurd hSelects (by decide)

/-- Once the action of a subcommand has returned, the caller's parse ends with what
the subcommand's parse returned. -/
theorem clpActionSubcmd_stops (getopt : List ClpOption → List CString → Scan)
    (mem : VecId → List Posparam) (subcmd : ClpSubcmd) (argv : List CString) :
    stopAt [(clpActionSubcmd getopt mem subcmd argv).rc] =
      some (clpStatus (clpParsev getopt mem argv subcmd.optionv subcmd.posparamv).rc) := by
  simp only [clpActionSubcmd]
  split
  · next hZero =>
      rw [hZero]
      rfl
  · next hNonzero => simp [stopAt, hNonzero]

end Nct
