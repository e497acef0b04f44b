import Mathlib.Data.List.Infix
import Mathlib.Data.List.ReduceOption
import Nct.Breakargs

/-! The shell: how it reads lines, and which command it runs for the first word of one. -/
namespace Nct

inductive ShellFunc where
  | nyi
  | help
  | ls
  | mount
  deriving DecidableEq, Repr

structure ShellCmd where
  name : CString
  func : ShellFunc
  deriving DecidableEq, Repr

def cmdv : List ShellCmd :=
  [⟨"cd".toList, .nyi⟩,
    ⟨"getattr".toList, .nyi⟩,
    ⟨"help".toList, .help⟩,
    ⟨"ls".toList, .ls⟩,
    ⟨"mkdir".toList, .nyi⟩,
    ⟨"mount".toList, .mount⟩,
    ⟨"rm".toList, .nyi⟩,
    ⟨"rmdir".toList, .nyi⟩,
    ⟨"umount".toList, .nyi⟩]

/-- `strncasecmp(line, name, len) == 0`, where `word` is the first `len` characters of
`line`, none of them NUL. -/
def sameLetters (word name : CString) : Bool :=
  (name.take word.length).map Char.toLower == word.map Char.toLower

/-- What the loop over `cmdv` ends with. -/
inductive Lookup where
  | found (cmd : ShellCmd)
  | invalid
  | ambiguous
  deriving DecidableEq, Repr

/-- The loop over `cmdv`. -/
def findCmd (word : CString) : Option ShellCmd → List ShellCmd → Lookup
  | none, [] => .invalid
  | some cmd, [] => .found cmd
  | cmd, c :: cmdv =>
      if !sameLetters word c.name then findCmd word cmd cmdv
      else if cmd.isSome then .ambiguous
      else if c.name.length = word.length then .found c
      else findCmd word (some c) cmdv

def ENOTSUP : Int := 95

/-- `errbuf` after `nyi` -/
def notYet : CString := "command not yet implemented\n".toList

/-- What `fgets` puts into the buffer, in which there is room for `n` characters, and
the input after it. -/
def fgets : Nat → List Char → CString × List Char
  | 0, stdin => ([], stdin)
  | _, [] => ([], [])
  | n + 1, c :: stdin =>
      if c = '\n' then ([c], stdin) else (c :: (fgets n stdin).1, (fgets n stdin).2)

/-- What the shell prints between two prompts. -/
inductive ShellEvent where
  | refused (errmsg : CString) (word : CString)
  /-- a command returns `rc`, and `errbuf` is printed if that is not zero -/
  | ran (cmd : ShellCmd) (rc : Int) (printed : Option CString)
  deriving DecidableEq, Repr

section
variable (mountArgs : CString → Option Int)

/-- `cmd->func(cmd)`: `errbuf`, and the value returned. `mountArgs` stands for the parse
of the line by `mount`, which returns there, or calls `nyi` in the end. -/
def ShellFunc.call (errbuf line : CString) : ShellFunc → CString × Int
  | nyi | ls => (notYet, ENOTSUP)
  | help => (errbuf, 0)
  | mount => ((mountArgs line).map fun rc => (errbuf, rc)).getD (notYet, ENOTSUP)

/-- The first word of a line, and the line from there on. -/
def firstWord (linebuf : CString) : CString × CString :=
  let line := (linebuf.takeWhile (· != NUL)).dropWhile isspace
  (line.takeWhile (!isspace ·), line)

/-- The body of the loop of `nct_shell` for a line: `errbuf`, and what is printed. -/
def shellLine (errbuf linebuf : CString) : CString × Option ShellEvent :=
  let (word, line) := firstWord linebuf
  if word.length < 1 then (errbuf, none)
  else
    match findCmd word none cmdv with
    | .invalid => (errbuf, some (.refused "invalid".toList word))
    | .ambiguous => (errbuf, some (.refused "ambiguous".toList word))
    | .found cmd =>
        let (errbuf, rc) := cmd.func.call mountArgs errbuf line
        (errbuf, some (.ran cmd rc (if rc ≠ 0 then some errbuf else none)))

/-- The loop of `nct_shell`, with as many turns left. -/
def shellLoop : Nat → CString → List Char → List ShellEvent
  | 0, _, _ => []
  | n + 1, errbuf, stdin =>
      if stdin.isEmpty then []
      else
        let (linebuf, stdin) := fgets 1023 stdin
        let (errbuf, event) := shellLine mountArgs errbuf linebuf
        event.toList ++ shellLoop n errbuf stdin

def nctShell (stdin : List Char) : List ShellEvent := shellLoop mountArgs stdin.length [] stdin

end

/-- The word is an abbreviation of the command's name, or the name. -/
def Abbreviates (word : CString) (c : ShellCmd) : Prop :=
  word.map Char.toLower <+: c.name.map Char.toLower

/-- The word is the command's name. -/
def Spells (word : CString) (c : ShellCmd) : Prop :=
  word.map Char.toLower = c.name.map Char.toLower

/-- What a word stands for: the command of that name, or else the only one that it
abbreviates. -/
inductive Resolves (word : CString) (cmdv : List ShellCmd) : Lookup → Prop where
  | spelled {c : ShellCmd} (hMem : c ∈ cmdv) (h : Spells word c) : Resolves word cmdv (.found c)
  | only {c : ShellCmd} (hMem : c ∈ cmdv) (h : Abbreviates word c)
      (hOnly : ∀ d ∈ cmdv, Abbreviates word d → d = c) : Resolves word cmdv (.found c)
  | invalid (h : ∀ c ∈ cmdv, ¬ Abbreviates word c) : Resolves word cmdv .invalid
  | ambiguous {c d : ShellCmd} (hc : c ∈ cmdv) (hd : d ∈ cmdv) (hne : c ≠ d)
      (h : Abbreviates word c ∧ Abbreviates word d) (hNone : ∀ e ∈ cmdv, ¬ Spells word e) :
      Resolves word cmdv .ambiguous

/-- No name comes after one that it abbreviates. -/
def ShortFirst (c d : ShellCmd) : Prop := ¬ d.name.map Char.toLower <+: c.name.map Char.toLower

section
variable {word : CString} {c d : ShellCmd} {cmds : List ShellCmd}

/-- The loop compares without regard to case. -/
theorem sameLetters_iff : sameLetters word c.name = true ↔ Abbreviates word c := by
  rw [sameLetters, beq_iff_eq, Abbreviates, List.prefix_iff_eq_take, List.length_map, List.map_take,
    eq_comm]

theorem Spells.abbreviates (h : Spells word c) : Abbreviates word c := by
  rw [Abbreviates, show word.map Char.toLower = _ from h]

theorem Abbreviates.spells (h : Abbreviates word c) (hLength : c.name.length = word.length) :
    Spells word c := h.eq_of_length (by rw [List.length_map, List.length_map, hLength])

/-- A second command that the word abbreviates makes it ambiguous. -/
theorem findCmd_some (word : CString) (c : ShellCmd) (cmds : List ShellCmd) :
    findCmd word (some c) cmds =
      if cmds.any (sameLetters word ·.name) then .ambiguous else .found c := by
  induction cmds with
  | nil => rfl
  | cons d cmds ih =>
      rw [findCmd, List.any_cons]
      cases hSame : sameLetters word d.name with
      | false => simpa using ih
      | true => rfl

/-- The first that the word abbreviates is taken, unless a later one has just this name.
-/
theorem findCmd_cons (h : Abbreviates word c) :
    findCmd word none (c :: cmds) =
      if c.name.length = word.length then .found c else findCmd word (some c) cmds := by
  simp [findCmd, sameLetters_iff.mpr h]

/-- A command that the word does not abbreviate is passed over. -/
theorem findCmd_cons_other (h : ¬ Abbreviates word c) :
    findCmd word none (c :: cmds) = findCmd word none cmds := by
  rw [← sameLetters_iff, Bool.not_eq_true] at h
  simp [findCmd, h]

/-- If an earlier command is not spelled, a later one is not either. -/
theorem not_spells_later (h : Abbreviates word c) (hFirst : ShortFirst c d) : ¬ Spells word d :=
  fun hd => hFirst (hd ▸ h)

/-- The loop resolves the word. -/
theorem findCmd_resolves (word : CString) (h : cmds.Pairwise ShortFirst) :
    Resolves word cmds (findCmd word none cmds) := by
  induction cmds with
  | nil => exact .invalid (by simp)
  | cons c cmds ih =>
      obtain ⟨hHead, hTail⟩ := List.pairwise_cons.mp h
      by_cases hc : Abbreviates word c
      · rw [findCmd_cons hc]
        split
        · next hLength => exact .spelled List.mem_cons_self (hc.spells hLength)
        · next hLonger =>
            have hNot : ¬ Spells word c := fun hSpells => hLonger <| by
              simpa using (congrArg List.length hSpells).symm
            rw [findCmd_some]
            split
            · next hAny =>
                obtain ⟨d, hd, hSame⟩ := List.any_eq_true.mp hAny
                have hne : c ≠ d := fun he => hHead d hd (he ▸ List.prefix_refl _)
                refine .ambiguous List.mem_cons_self (List.mem_cons_of_mem _ hd) hne
                  ⟨hc, sameLetters_iff.mp hSame⟩ fun e he => ?_
                rcases List.mem_cons.mp he with rfl | he
                · exact hNot
                · exact not_spells_later hc (hHead e he)
            · next hNone =>
                refine .only List.mem_cons_self hc fun d hd hAbbr => ?_
                rcases List.mem_cons.mp hd with rfl | hd
                · rfl
                · exact absurd (List.any_eq_true.mpr ⟨d, hd, sameLetters_iff.mpr hAbbr⟩) hNone
      · rw [findCmd_cons_other hc]
        have hNot : ¬ Spells word c := fun hSpells => hc hSpells.abbreviates
        have hRest := ih hTail
        generalize findCmd word none cmds = lookup at hRest ⊢
        cases hRest with
        | spelled hMem hSpells => exact .spelled (List.mem_cons_of_mem _ hMem) hSpells
        | only hMem hAbbr hOnly =>
            refine .only (List.mem_cons_of_mem _ hMem) hAbbr fun d hd hd' => ?_
            rcases List.mem_cons.mp hd with rfl | hd
            · exact absurd hd' hc
            · exact hOnly d hd hd'
        | invalid hNone => exact .invalid (List.forall_mem_cons.mpr ⟨hc, hNone⟩)
        | ambiguous hd he hne hAbbr hNone =>
            exact .ambiguous (List.mem_cons_of_mem _ hd) (List.mem_cons_of_mem _ he) hne hAbbr
              (List.forall_mem_cons.mpr ⟨hNot, hNone⟩)

end

/-- `cmdv` has no name after one that it abbreviates. -/
theorem cmdv_shortFirst : cmdv.Pairwise ShortFirst := by
  unfold ShortFirst
  decide

/-- A line that fits into the buffer is read as a whole. -/
theorem fgets_line {line rest : List Char} {n : Nat} (hFits : line.length < n) (hLine : '\n' ∉ line) :
    fgets n (line ++ '\n' :: rest) = (line ++ ['\n'], rest) := by
  induction line generalizing n with
  | nil =>
      obtain ⟨n, rfl⟩ := Nat.exists_eq_succ_of_ne_zero (Nat.ne_of_gt hFits)
      simp [fgets]
  | cons c line ih =>
      obtain ⟨n, rfl⟩ := Nat.exists_eq_succ_of_ne_zero (Nat.ne_of_gt (Nat.zero_lt_of_lt hFits))
      obtain ⟨hc, hLine⟩ := not_or.mp (mt List.mem_cons.mpr hLine)
      rw [List.cons_append, fgets, if_neg (Ne.symm hc), ih (Nat.lt_of_succ_lt_succ hFits) hLine,
        List.cons_append]

theorem takeWhile_newline (line : CString) :
    (line ++ ['\n']).takeWhile (!isspace ·) = line.takeWhile (!isspace ·) := by
  induction line with
  | nil => decide
  | cons c line ih => rw [List.cons_append, List.takeWhile_cons, List.takeWhile_cons, ih]

/-- The first word of a line does not depend on its newline. -/
theorem firstWord_newline {line : CString} (hLine : NUL ∉ line) :
    (firstWord (line ++ ['\n'])).1 = (line.dropWhile isspace).takeWhile (!isspace ·) := by
  have hWhole : (line ++ ['\n']).takeWhile (· != NUL) = line ++ ['\n'] := by
    apply List.takeWhile_eq_self_iff.mpr
    intro c hc
    rcases List.mem_append.mp hc with hc | hc
    · exact bne_iff_ne.mpr fun he => hLine (he ▸ hc)
    · rw [List.mem_singleton.mp hc]
      decide
  simp only [firstWord, hWhole]
  clear hLine hWhole
  induction line with
  | nil => decide
  | cons c line ih =>
      rw [List.cons_append, List.dropWhile_cons, List.dropWhile_cons]
      split
      · exact ih
      · exact takeWhile_newline (c :: line)

section
variable (mountArgs : CString → Option Int)

def typed (lines : List CString) : List Char := lines.flatMap (· ++ ['\n'])

theorem typed_cons (line : CString) (lines : List CString) :
    typed (line :: lines) = line ++ '\n' :: typed lines := by simp [typed]

/-- How the shell answers a line: it says nothing to an empty one, and otherwise runs
the command that the first word stands for, or refuses the word. What is printed after
a command that fails is what `nyi` wrote, or nothing after `mount`. -/
def AnswersLine (line : CString) (event : Option ShellEvent) : Prop :=
  let word := (line.dropWhile isspace).takeWhile (!isspace ·)
  match event with
  | none => word = []
  | some (.refused errmsg w) => word ≠ [] ∧ w = word ∧
      (Resolves word cmdv .invalid ∧ errmsg = "invalid".toList ∨
        Resolves word cmdv .ambiguous ∧ errmsg = "ambiguous".toList)
  | some (.ran cmd rc printed) => word ≠ [] ∧ Resolves word cmdv (.found cmd) ∧
      (printed = none ↔ rc = 0) ∧
      ∀ text ∈ printed, text = notYet ∨ cmd.func = .mount ∧ text = []

/-- `errbuf` is as it was at the start, or as `nyi` leaves it. -/
def ErrbufPlain (errbuf : CString) : Prop := errbuf = [] ∨ errbuf = notYet

/-- A command that fails has called `nyi`, or is `mount`. -/
theorem call_plain {errbuf : CString} (h : ErrbufPlain errbuf) (line : CString) (func : ShellFunc) :
    ErrbufPlain (func.call mountArgs errbuf line).1 ∧ ((func.call mountArgs errbuf line).2 ≠ 0 →
      (func.call mountArgs errbuf line).1 = notYet ∨
        func = .mount ∧ (func.call mountArgs errbuf line).1 = []) := by
  cases func with
  | nyi | ls => exact ⟨Or.inr rfl, fun _ => Or.inl rfl⟩
  | help => exact ⟨h, fun hRc => absurd rfl hRc⟩
  | mount =>
      rw [ShellFunc.call]
      cases mountArgs line with
      | none => exact ⟨Or.inr rfl, fun _ => Or.inl rfl⟩
      | some rc => exact ⟨h, fun _ => h.symm.imp id (⟨rfl, ·⟩)⟩

/-- A line is answered as its first word says. -/
theorem shellLine_answers {errbuf line : CString} (hErrbuf : ErrbufPlain errbuf) (hLine : NUL ∉ line) :
    ErrbufPlain (shellLine mountArgs errbuf (line ++ ['\n'])).1 ∧
      AnswersLine line (shellLine mountArgs errbuf (line ++ ['\n'])).2 := by
  have hResolves := findCmd_resolves (firstWord (line ++ ['\n'])).1 cmdv_shortFirst
  simp only [shellLine, AnswersLine, ← firstWord_newline hLine]
  split
  · next hNone => exact ⟨hErrbuf, List.eq_nil_of_length_eq_zero (Nat.lt_one_iff.mp hNone)⟩
  · next hSome =>
      have hWord : (firstWord (line ++ ['\n'])).1 ≠ [] := fun hNil => hSome (by rw [hNil]; decide)
      generalize findCmd _ none cmdv = lookup at hResolves ⊢
      cases lookup with
      | invalid => exact ⟨hErrbuf, hWord, rfl, Or.inl ⟨hResolves, rfl⟩⟩
      | ambiguous => exact ⟨hErrbuf, hWord, rfl, Or.inr ⟨hResolves, rfl⟩⟩
      | found cmd =>
          obtain ⟨hPlain, hFails⟩ := call_plain mountArgs hErrbuf
            (firstWord (line ++ ['\n'])).2 cmd.func
          refine ⟨hPlain, hWord, hResolves, by simp, fun text hText => ?_⟩
          split at hText
          · next hRc => exact Option.mem_some_iff.mp hText ▸ hFails hRc
          · cases hText

/-- Each turn takes one line, by induction on the lines. -/
theorem shellLoop_answers (lines : List CString) {n : Nat} {errbuf : CString}
    (hFuel : (typed lines).length ≤ n) (hErrbuf : ErrbufPlain errbuf)
    (hLines : ∀ line ∈ lines, line.length < 1023 ∧ '\n' ∉ line ∧ NUL ∉ line) :
    ∃ events, shellLoop mountArgs n errbuf (typed lines) = events.reduceOption ∧
      List.Forall₂ AnswersLine lines events := by
  induction lines generalizing n errbuf with
  | nil =>
      refine ⟨[], ?_, .nil⟩
      cases n <;> rfl
  | cons line lines ih =>
      obtain ⟨⟨hFits, hNewline, hNul⟩, hRest⟩ := List.forall_mem_cons.mp hLines
      rw [typed_cons] at hFuel ⊢
      rw [List.length_append, List.length_cons] at hFuel
      obtain ⟨n, rfl⟩ := Nat.exists_eq_succ_of_ne_zero (n := n) (by omega)
      obtain ⟨hNext, hAnswer⟩ := shellLine_answers mountArgs hErrbuf hNul
      obtain ⟨events, hLoop, hAll⟩ := ih (n := n) (by omega) hNext hRest
      refine ⟨_, ?_, .cons hAnswer hAll⟩
      rw [shellLoop, if_neg (by simp), fgets_line hFits hNewline]
      simp only [hLoop]
      cases (shellLine mountArgs errbuf (line ++ ['\n'])).2 with
      | none => exact (List.reduceOption_cons_of_none _).symm
      | some event => exact (List.reduceOption_cons_of_some _ _).symm

/-- Whatever lines are typed, as long as they fit into the buffer, the shell answers
each of them, in order. -/
theorem shell_session (lines : List CString)
    (hLines : ∀ line ∈ lines, line.length < 1023 ∧ '\n' ∉ line ∧ NUL ∉ line) :
    ∃ events, nctShell mountArgs (typed lines) = events.reduceOption ∧
      List.Forall₂ AnswersLine lines events :=
  shellLoop_answers mountArgs lines le_rfl (Or.inl rfl) hLines

end

example : (nctShell (fun _ => some 64) "RM x\nm\n\nmo -z\nquit\nh".toList).map (fun
    | .refused errmsg _ => errmsg
    | .ran cmd _ _ => cmd.name) =
      ["rm".toList, "ambiguous".toList, "mount".toList, "invalid".toList, "help".toList] := by decide

theorem shell_session_abbreviated : ∃ events,
    nctShell (fun _ => some EX_USAGE) (typed ["RM x".toList, "mo".toList, "m".toList]) =
        events.reduceOption ∧
      List.Forall₂ AnswersLine ["RM x".toList, "mo".toList, "m".toList] events :=
  shell_session (fun _ => some EX_USAGE) _ (by decide)

end Nct
