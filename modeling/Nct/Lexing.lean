import Mathlib.Data.List.ReduceOption
import Nct.Joined

/-! `clp_breakargs` in two passes. The first resolves quotation marks and escapes, and
marks the characters at which words end; the second splits there. The one loop of the
source, with its flags and its copy of the string, does both at once. -/
namespace Nct

/-- The character that an escape stands for, by what follows the backslash. -/
def escapedChar : CString → Char
  | [] => NUL
  | c :: src => if c.isDigit then (strtoul8 (c :: src)).1 else escapeOf c

/-- A character at which a word ends, unless it is quoted. -/
def isGap (delim : Option CString) (c : Char) : Bool :=
  match delim with
  | none => isspace c
  | some delim => delim.contains c

/-- The characters of the words, with `none` where a word ends; nothing if a quotation
mark is left open. -/
def lex (delim : Option CString) (dquote squote : Bool) : CString → Option (List (Option Char))
  | [] => if dquote || squote then none else some []
  | c :: src =>
      if c = '\\' then (lex delim dquote squote (afterEscape src)).map (some (escapedChar src) :: ·)
      else if c = '"' && !squote then lex delim (!dquote) squote src
      else if c = '\'' && !dquote then lex delim dquote (!squote) src
      else if !dquote && !squote && isGap delim c then (lex delim dquote squote src).map (none :: ·)
      else (lex delim dquote squote src).map (some c :: ·)
termination_by src => src.length
decreasing_by
  · have := afterEscape_length src
    simp only [List.length_cons]
    omega
  all_goals simp

/-- The words between the marks. Without a `delim` those with nothing in them are left out. -/
def splitWords (delim : Option CString) (toks : List (Option Char)) : List CString :=
  ((toks.splitOnP Option.isNone).map List.reduceOption).filter fun word =>
    delim.isSome || !word.isEmpty

def cstr (word : CString) : CString := word.takeWhile (· != NUL)

/-- The words that a string is to be broken into. -/
def brokenWords (delim : Option CString) (src : CString) : Option (List CString) :=
  (lex delim false false src).map fun toks => (splitWords delim toks).map cstr

/-- A string ends at its NUL. -/
theorem cstr_end (word more : CString) : cstr (word ++ ([NUL] ++ more)) = cstr word := by
  induction word with
  | nil => rfl
  | cons c word ih =>
      by_cases hNul : c = NUL
      · simp [cstr, hNul]
      · have hKept : (c != NUL) = true := by simpa using hNul
        simp only [cstr, List.cons_append, List.takeWhile_cons, hKept, if_true] at ih ⊢
        rw [ih]

namespace BreakState

variable {s : BreakState} {c : Char} {delim : Option CString} {done : List CString} {word : CString}

/-- The loop has put these words in the vector, and has come so far with the next one. -/
structure Reads (s : BreakState) (done : List CString) (word : CString) : Prop where
  done : ∀ more, s.argv.map (stringAt (s.area ++ more)) = done.map cstr
  prev : s.prev ≤ s.area.length
  word : s.area.drop s.prev = word

theorem start_reads : start.Reads [] [] := ⟨fun _ => rfl, le_rfl, rfl⟩

/-- The word grows by a character. -/
theorem Reads.put (h : s.Reads done word) (c : Char) : (s.put c).Reads done (word ++ [c]) where
  done more := by
    change s.argv.map (stringAt (s.area ++ [c] ++ more)) = _
    rw [List.append_assoc]
    exact h.done _
  prev := by
    have := h.prev
    simp only [BreakState.put, List.length_append]
    omega
  word := by
    change (s.area ++ [c]).drop s.prev = _
    rw [List.drop_append_of_le_length h.prev, h.word]

/-- A word that is closed comes after those that are there. -/
theorem Reads.close (h : s.Reads done word) : s.close.Reads (done ++ [word]) [] where
  done more := by
    have hLast : stringAt (s.area ++ [NUL] ++ more) s.prev = cstr word := by
      rw [stringAt, List.append_assoc, List.drop_append_of_le_length h.prev, h.word]
      exact cstr_end word more
    simp only [BreakState.close, List.map_append, List.map_cons, List.map_nil, hLast]
    rw [List.append_assoc, h.done]
  prev := by simp [BreakState.close]
  word := by simp [BreakState.close]

/-- What a gap does: without a `delim` an empty word is not closed. -/
def gap (delim : Option CString) (s : BreakState) : BreakState :=
  match delim with
  | none => s.finish
  | some _ => s.close

/-- The word is empty as long as nothing has been stored for it. -/
theorem Reads.word_nonempty (h : s.Reads done word) : s.prev < s.area.length ↔ word ≠ [] := by
  rw [← h.word, ne_eq, List.drop_eq_nil_iff, not_le]

/-- A word that is not empty is done. -/
theorem Reads.finish (h : s.Reads done word) :
    s.finish.Reads (done ++ if word = [] then [] else [word]) [] := by
  unfold BreakState.finish
  by_cases hWord : word = []
  · rw [if_neg (by simp [h.word_nonempty, hWord]), if_pos hWord, List.append_nil]
    exact hWord ▸ h
  · rw [if_pos (h.word_nonempty.mpr hWord), if_neg hWord]
    exact h.close

/-- At a delimiter the word is done, with a delim even if it is empty. -/
theorem Reads.gap (delim : Option CString) (h : s.Reads done word) :
    (s.gap delim).Reads (done ++ [word].filter fun word => delim.isSome || !word.isEmpty) [] := by
  cases delim with
  | none =>
      have hFinish := h.finish
      cases word with
      | nil => exact hFinish
      | cons c word => exact hFinish
  | some delim => exact h.close

end BreakState

section
variable {s : BreakState} {c : Char} {src : CString} {delim : Option CString} {done : List CString}
  {word : CString}

/-- An escape puts the character that it stands for. -/
theorem breakLoop_escaped (hBackslash : s.backslash = false) (hNul : NUL ∉ src) :
    breakLoop delim ('\\' :: src ++ [NUL]) s =
      if src = [] then some (s.put (escapedChar src))
      else breakLoop delim (afterEscape src ++ [NUL]) (s.put (escapedChar src)) := by
  let s' : BreakState := { s with backslash := true }
  have hOpen : breakChar delim s '\\' = s' := by simp [breakChar, hBackslash, s']
  have hPut : ∀ c, breakChar delim s' c = s.put (escapeOf c) := by
    intro c
    have hShut : ({ s' with backslash := false } : BreakState) = s := by
      simp only [s', ← hBackslash]
    rw [← hShut]
    rfl
  rw [List.cons_append, breakLoop_cons (by simp [hBackslash]) (by decide), hOpen]
  cases src with
  | nil =>
      rw [if_pos rfl, List.nil_append, breakLoop, hPut]
      simp [show NUL.isDigit = false from rfl, escapedChar, show escapeOf NUL = NUL from rfl]
  | cons d src =>
      have hHead : d ≠ NUL := Ne.symm (not_or.mp (List.mem_cons.not.mp hNul)).1
      rw [if_neg (List.cons_ne_nil _ _)]
      by_cases hDigit : d.isDigit
      · have hValue := strtoul8_end (d :: src)
        rw [List.cons_append] at hValue ⊢
        rw [breakLoop, hValue]
        simp only [hDigit, afterEscape, escapedChar, if_true]
        simp only [s', BreakState.put, ← hBackslash]
        rfl
      · rw [List.cons_append, breakLoop_cons (by simp [hDigit]) hHead, hPut]
        simp [afterEscape, escapedChar, hDigit]

/-- A character that is neither a backslash nor a quotation mark here. -/
theorem breakChar_plain (delim : Option CString) (hBackslash : s.backslash = false) (hc : c ≠ '\\')
    (hDquote : ¬ (c = '"' ∧ s.squote = false)) (hSquote : ¬ (c = '\'' ∧ s.dquote = false)) :
    breakChar delim s c =
      if !s.dquote && !s.squote && (c = NUL || isGap delim c) then s.gap delim else s.put c := by
  cases delim with
  | none =>
      rw [breakChar_other hBackslash hc hDquote hSquote]
      cases s.dquote <;> cases s.squote <;> simp [isGap, BreakState.gap]
  | some delim =>
      simp only [breakChar, hBackslash, hc, isGap, BreakState.gap]
      by_cases hDouble : c = '"'
      · have hIn : s.squote = true := by simpa [hDouble] using hDquote
        simp [hDouble, hIn]
      · by_cases hSingle : c = '\''
        · have hIn : s.dquote = true := by simpa [hSingle] using hSquote
          simp [hSingle, hIn]
        · cases s.dquote <;> cases s.squote <;> simp [hDouble, hSingle]

/-- The last word ends with the string. -/
theorem splitWords_last (delim : Option CString) (word : CString) :
    splitWords delim (word.map some) = [word].filter fun word => delim.isSome || !word.isEmpty := by
  rw [splitWords, List.splitOnP_eq_singleton (by simp)]
  simp [List.reduceOption]

/-- The words are split where the atoms are. -/
theorem splitWords_gap (delim : Option CString) (word : CString) (toks : List (Option Char)) :
    splitWords delim (word.map some ++ none :: toks) =
      ([word].filter fun word => delim.isSome || !word.isEmpty) ++ splitWords delim toks := by
  rw [splitWords, List.splitOnP_append_cons_of_forall_mem (by simp) none rfl, List.map_cons]
  simp [splitWords, List.reduceOption, List.filter_cons]
  split <;> rfl

/-- The state at the loop's end, after the given words, by what the first pass gives. -/
def BreakState.EndsAs (s' : BreakState) (delim : Option CString) (done : List CString)
    (toks : Option (List (Option Char))) : Prop :=
  match toks with
  | none => (s'.dquote || s'.squote) = true
  | some toks => s'.dquote = false ∧ s'.squote = false ∧
      s'.finish.Reads (done ++ splitWords delim toks) []

/-- A character of a word comes before the others. -/
theorem map_char (toks : Option (List (Option Char))) (word : CString) (c : Char) :
    (toks.map (some c :: ·)).map (word.map some ++ ·) = toks.map ((word ++ [c]).map some ++ ·) := by
  rw [Option.map_map]
  congr 1
  funext toks
  simp

/-- So does a word that ends. -/
theorem BreakState.EndsAs.gap {s' : BreakState} {toks : Option (List (Option Char))} {word : CString}
    (h : s'.EndsAs delim
      (done ++ [word].filter fun word => delim.isSome || !word.isEmpty) (toks.map ([].map some ++ ·))) :
    s'.EndsAs delim done ((toks.map (none :: ·)).map (word.map some ++ ·)) := by
  cases toks with
  | none => exact h
  | some toks =>
      obtain ⟨hDquote, hSquote, hReads⟩ := h
      refine ⟨hDquote, hSquote, ?_⟩
      rw [splitWords_gap, ← List.append_assoc]
      exact hReads

theorem BreakState.gap_flags (delim : Option CString) (s : BreakState) :
    (s.gap delim).backslash = s.backslash ∧ (s.gap delim).dquote = s.dquote ∧
      (s.gap delim).squote = s.squote := by
  cases delim with
  | none => exact s.finish_flags
  | some delim => exact ⟨rfl, rfl, rfl⟩

/-- The loop reads what the first pass gives, and splits it as the second does. -/
theorem breakLoop_lex {dquote squote : Bool} (h : s.Reads done word) (hBackslash : s.backslash = false)
    (hDquote : s.dquote = dquote) (hSquote : s.squote = squote) (hNul : NUL ∉ src) :
    ∃ s', breakLoop delim (src ++ [NUL]) s = some s' ∧
      s'.EndsAs delim done ((lex delim dquote squote src).map (word.map some ++ ·)) := by
  fun_induction lex delim dquote squote src generalizing s done word with
  | case1 dquote squote hOpen =>
      refine ⟨s.put NUL, ?_, by simpa [BreakState.EndsAs, BreakState.put, hDquote, hSquote] using hOpen⟩
      rw [List.nil_append, breakLoop, breakChar_nul hBackslash]
      cases dquote <;> cases squote <;> simp_all
  | case2 dquote squote hShut =>
      obtain ⟨hOutD, hOutS⟩ : dquote = false ∧ squote = false := by simpa using hShut
      refine ⟨s.gap delim, ?_, ?_⟩
      · rw [List.nil_append, breakLoop, breakChar_nul hBackslash]
        cases delim <;> simp [hBackslash, hDquote, hSquote, hOutD, hOutS, BreakState.gap]
      · obtain ⟨-, hD, hS⟩ := s.gap_flags delim
        refine ⟨hD.trans (hDquote.trans hOutD), hS.trans (hSquote.trans hOutS), ?_⟩
        have hFinish := (h.gap delim).finish
        rw [if_pos rfl, List.append_nil] at hFinish
        simp only [List.append_nil, splitWords_last]
        exact hFinish
  | case3 dquote squote src ih =>
      have hRest : NUL ∉ src := (not_or.mp (List.mem_cons.not.mp hNul)).2
      have hPut := h.put (escapedChar src)
      rw [breakLoop_escaped hBackslash hRest, map_char]
      by_cases hEnd : src = []
      · subst hEnd
        refine ⟨s.put (escapedChar []), if_pos rfl, ?_⟩
        rw [afterEscape, lex]
        by_cases hOpen : (dquote || squote) = true
        · rw [if_pos hOpen]
          simpa [BreakState.EndsAs, BreakState.put, hDquote, hSquote] using hOpen
        · rw [if_neg hOpen]
          obtain ⟨hOutD, hOutS⟩ : dquote = false ∧ squote = false := by simpa using hOpen
          refine ⟨hDquote.trans hOutD, hSquote.trans hOutS, ?_⟩
          have hFinish := hPut.finish
          rw [if_neg (by simp)] at hFinish
          simp only [List.append_nil, splitWords_last]
          simpa using hFinish
      · rw [if_neg hEnd]
        exact ih hPut hBackslash hDquote hSquote fun hMem => hRest (mem_afterEscape hMem)
  | case4 dquote squote c src hc hQuote ih =>
      obtain ⟨hHead, hRest⟩ := not_or.mp (List.mem_cons.not.mp hNul)
      obtain ⟨rfl, hOut⟩ : c = '"' ∧ squote = false := by simpa using hQuote
      have hToggle : breakChar delim s '"' = { s with dquote := !s.dquote } := by
        simp [breakChar, hBackslash, hSquote, hOut]
      rw [List.cons_append, breakLoop_cons (by simp [hBackslash]) (Ne.symm hHead), hToggle]
      exact ih (s := { s with dquote := !s.dquote }) ⟨h.done, h.prev, h.word⟩ hBackslash
        (by simp [hDquote]) hSquote hRest
  | case5 dquote squote c src hc hDouble hSingle ih =>
      obtain ⟨hHead, hRest⟩ := not_or.mp (List.mem_cons.not.mp hNul)
      obtain ⟨rfl, hOut⟩ : c = '\'' ∧ dquote = false := by simpa using hSingle
      have hToggle : breakChar delim s '\'' = { s with squote := !s.squote } := by
        simp [breakChar, hBackslash, hDquote, hOut]
      rw [List.cons_append, breakLoop_cons (by simp [hBackslash]) (Ne.symm hHead), hToggle]
      exact ih (s := { s with squote := !s.squote }) ⟨h.done, h.prev, h.word⟩ hBackslash hDquote
        (by simp [hSquote]) hRest
  | case6 dquote squote c src hc hDouble hSingle hGap ih =>
      obtain ⟨hHead, hRest⟩ := not_or.mp (List.mem_cons.not.mp hNul)
      have hPlain := breakChar_plain delim hBackslash hc
        (by simpa [hSquote] using hDouble) (by simpa [hDquote] using hSingle)
      rw [if_pos (by simp_all)] at hPlain
      obtain ⟨hB, hD, hS⟩ := s.gap_flags delim
      rw [List.cons_append, breakLoop_cons (by simp [hBackslash]) (Ne.symm hHead), hPlain]
      obtain ⟨s', hLoop, hEnds⟩ := ih (h.gap delim) (hB.trans hBackslash) (hD.trans hDquote)
        (hS.trans hSquote) hRest
      exact ⟨s', hLoop, hEnds.gap⟩
  | case7 dquote squote c src hc hDouble hSingle hGap ih =>
      obtain ⟨hHead, hRest⟩ := not_or.mp (List.mem_cons.not.mp hNul)
      have hPlain := breakChar_plain delim hBackslash hc
        (by simpa [hSquote] using hDouble) (by simpa [hDquote] using hSingle)
      rw [if_neg (by simp_all [Ne.symm hHead])] at hPlain
      rw [List.cons_append, breakLoop_cons (by simp [hBackslash]) (Ne.symm hHead), hPlain, map_char]
      exact ih (h.put c) hBackslash hDquote hSquote hRest

end

/-- `clp_parsel`; `none` if `clp_breakargs` goes out of bounds. -/
def clpParsel (malloc : UInt64 → Bool) (getopt : List ClpOption → List CString → Scan)
    (mem : VecId → List Posparam) (line delim : Option CString) (optionv : List ClpOption)
    (paramv : Option VecId) : Option Parse :=
  (clpBreakargsIn malloc line delim).map fun
    | (_, some b) => clpParsev getopt mem (b.strings.take b.argc).reduceOption optionv paramv
    | (rc, none) => ⟨rc, mem, none, []⟩

/-- The vector holds the words that have been read. -/
theorem clpBreakargs_of_reads {s' : BreakState} {src : CString} {delim : Option CString}
    {words : List CString} (hLoop : breakLoop delim (src ++ [NUL]) .start = some s')
    (hDquote : s'.dquote = false) (hSquote : s'.squote = false) (h : s'.finish.Reads words []) :
    ∃ b, clpBreakargs (some src) delim = some (0, some b) ∧ b.argc = words.length ∧
      b.strings = words.map (some ∘ cstr) ++ [none] := by
  let s := s'.finish
  have hWords : s.argv.map (stringAt s.area) = words.map cstr := by
    have hDone := h.done []
    rwa [List.append_nil] at hDone
  refine ⟨⟨s.argv.length, s.argv.map some ++ [none], s.area⟩, ?_, ?_, ?_⟩
  · simp [clpBreakargs, hLoop, hDquote, hSquote, s, BreakState.finish]
  · simpa using congrArg List.length hWords
  · rw [Broken.strings, List.map_append, List.map_map, ← List.map_map (f := cstr), ← hWords,
      List.map_map]
    rfl

/-- For every string whose length is well within an `int` and every `delim`,
`clp_breakargs` gives the words of the two passes, or fails where the first leaves a
quotation mark open, and `clp_parsel` parses these words, if there is memory for them. -/
theorem breakargs_lexed (malloc : UInt64 → Bool) (src : CString) (delim : Option CString)
    (hNul : NUL ∉ src) (hLength : src.length + 2 < 2 ^ 31)
    (hMalloc : malloc (.ofNat (9 * src.length + 17)) = true) :
    (∀ words, brokenWords delim src = some words →
      Gives (clpBreakargsIn malloc (some src) delim) words) ∧
    (brokenWords delim src = none →
      clpBreakargsIn malloc (some src) delim = some (EX_DATAERR, none)) ∧
    ∀ getopt mem optionv paramv, clpParsel malloc getopt mem (some src) delim optionv paramv =
      some (match brokenWords delim src with
        | some words => clpParsev getopt mem words optionv paramv
        | none => ⟨EX_DATAERR, mem, none, []⟩) := by
  obtain ⟨s', hLoop, hEnds⟩ : ∃ s', breakLoop delim (src ++ [NUL]) .start = some s' ∧
      s'.EndsAs delim [] ((lex delim false false src).map ([].map some ++ ·)) :=
    breakLoop_lex BreakState.start_reads rfl rfl rfl hNul
  have hBlock := clpBreakargsIn_eq delim hMalloc hLength
  have hSome : ∀ words, brokenWords delim src = some words →
      Gives (clpBreakargsIn malloc (some src) delim) words := by
    intro words hWords
    obtain ⟨toks, hLex, rfl⟩ := Option.map_eq_some_iff.mp hWords
    rw [hLex] at hEnds
    obtain ⟨hDquote, hSquote, hReads⟩ := hEnds
    rw [Gives, hBlock]
    simpa using clpBreakargs_of_reads hLoop hDquote hSquote hReads
  have hNone : brokenWords delim src = none →
      clpBreakargsIn malloc (some src) delim = some (EX_DATAERR, none) := by
    intro hWords
    have hLex : lex delim false false src = none := Option.map_eq_none_iff.mp hWords
    rw [hLex] at hEnds
    have hOpen : (s'.dquote || s'.squote) = true := hEnds
    simp only [hBlock, clpBreakargs, hLoop, Option.map_some, hOpen, if_true]
  refine ⟨hSome, hNone, fun getopt mem optionv paramv => ?_⟩
  cases hWords : brokenWords delim src with
  | none => simp [clpParsel, hNone hWords]
  | some words =>
      obtain ⟨b, hBreak, hArgc, hStrings⟩ := hSome words hWords
      have hArgv : (b.strings.take b.argc).reduceOption = words := by
        rw [hStrings, hArgc, List.take_append_of_le_length (by simp),
          List.take_of_length_le (by simp)]
        simp [List.reduceOption]
      simp [clpParsel, hBreak, hArgv]

/-- The example of its documentation, `:one\, two,, , "four,five" :`. -/
def documentedLine : CString :=
  [':', 'o', 'n', 'e', '\\', ',', ' ', 't', 'w', 'o', ',', ',', ' ', ',', ' ', '"', 'f', 'o',
    'u', 'r', ',', 'f', 'i', 'v', 'e', '"', ' ', ':']

def documentedWords : List CString :=
  [[], ['o', 'n', 'e', ',', ' ', 't', 'w', 'o'], [], [' '], [' ', 'f', 'o', 'u', 'r', ',', 'f',
    'i', 'v', 'e', ' '], []]

/-- The line of the comment on `clp_breakargs`, and its words. -/
theorem breakargs_lexed_documented :
    Gives (clpBreakargsIn addressable (some documentedLine) (some [',', ':'])) documentedWords :=
  (breakargs_lexed addressable documentedLine (some [',', ':']) (by decide) (by decide)
    (by decide)).1 documentedWords (by
      simp [brokenWords, documentedLine, documentedWords, lex, splitWords, afterEscape, escapedChar,
        escapeOf, isGap, List.splitOnP_cons_eq_if_modifyHead, List.reduceOption, cstr, NUL])

end Nct
