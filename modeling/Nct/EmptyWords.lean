import Nct.Breakargs

/-! When `clp_breakargs` without a `delim` gives an empty word: an escape that
stands for a NUL can be the first thing in a word. -/
namespace Nct

/-- What follows a backslash makes it a NUL: the end of the string, or digits
whose octal value is zero as a character, where 8 and 9 are no octal digits. -/
def escapesNul : CString → Bool
  | [] => true
  | c :: src => c.isDigit && (strtoul8 (c :: src)).1 == NUL

/-- What is left once what follows a backslash has been read. -/
def afterEscape : CString → CString
  | [] => []
  | c :: src => if c.isDigit then (strtoul8 (c :: src)).2 else src

theorem afterEscape_length (src : CString) : (afterEscape src).length ≤ src.length := by
  cases src with
  | nil => exact le_rfl
  | cons c src =>
      simp only [afterEscape]
      split
      · exact (List.drop_sublist ..).length_le
      · exact Nat.le_succ _

theorem mem_afterEscape {c : Char} {src : CString} (h : c ∈ afterEscape src) : c ∈ src := by
  cases src with
  | nil => exact h
  | cons d src =>
      simp only [afterEscape] at h
      split at h
      · exact List.mem_of_mem_drop h
      · exact List.mem_cons_of_mem _ h

/-- Such an escape begins a word. At the start of the string the loop is between
the given quotation marks, and nothing of a word has come yet if `fresh`. -/
def nulBegins (dquote squote fresh : Bool) : CString → Bool
  | [] => false
  | c :: src =>
      if c = '\\' then (fresh && escapesNul src) || nulBegins dquote squote false (afterEscape src)
      else if c = '"' && !squote then nulBegins (!dquote) squote fresh src
      else if c = '\'' && !dquote then nulBegins dquote (!squote) fresh src
      else nulBegins dquote squote (!dquote && !squote && isspace c) src
termination_by src => src.length
decreasing_by
  · have := afterEscape_length src
    simp only [List.length_cons]
    omega
  all_goals simp

namespace BreakState

/-- The words lie within the copy. -/
structure Fits (s : BreakState) : Prop where
  argv : ∀ off ∈ s.argv, off < s.area.length
  prev : s.prev ≤ s.area.length

/-- A NUL is first in a word, or in what may become one. -/
def HasNul (s : BreakState) : Prop := ∃ off ∈ s.argv ++ [s.prev], s.area[off]? = some NUL

variable {s : BreakState} {c : Char}

theorem start_fits : start.Fits := ⟨by simp [start], le_rfl⟩

theorem start_hasNul : ¬ start.HasNul := by simp [start, HasNul]

/-- A character is stored within the word. -/
theorem Fits.put (h : s.Fits) : (s.put c).Fits where
  argv off hOff := by
    have := h.argv off hOff
    simp only [BreakState.put, List.length_append]
    omega
  prev := by
    have := h.prev
    simp only [BreakState.put, List.length_append]
    omega

/-- A word is closed after its last character. -/
theorem Fits.close (h : s.Fits) (hWord : s.prev < s.area.length) : s.close.Fits where
  argv off hOff := by
    simp only [BreakState.close, List.length_append]
    rcases List.mem_append.mp hOff with hOld | hNew
    · have := h.argv off hOld
      omega
    · obtain rfl := List.mem_singleton.mp hNew
      omega
  prev := by simp [BreakState.close]

/-- Only a NUL that comes first makes a difference. -/
theorem Fits.put_hasNul (h : s.Fits) :
    (s.put c).HasNul ↔ s.HasNul ∨ (s.prev = s.area.length ∧ c = NUL) := by
  have hOld : ∀ off, off < s.area.length → (s.area ++ [c])[off]? = s.area[off]? :=
    fun off hOff => List.getElem?_append_left hOff
  simp only [HasNul, BreakState.put, List.mem_append, List.mem_singleton, or_and_right, exists_or,
    exists_eq_left]
  have hArgv : (∃ off ∈ s.argv, (s.area ++ [c])[off]? = some NUL) ↔
      ∃ off ∈ s.argv, s.area[off]? = some NUL := by
    refine exists_congr fun off => and_congr_right fun hOff => ?_
    rw [hOld off (h.argv off hOff)]
  rw [hArgv, or_assoc]
  apply or_congr_right
  rcases h.prev.lt_or_eq with hLt | hEq
  · simp [hOld _ hLt, hLt.ne]
  · simp [hEq]

/-- The NUL at the end of a word is not one of its characters. -/
theorem Fits.close_hasNul (h : s.Fits) (hWord : s.prev < s.area.length) :
    s.close.HasNul ↔ s.HasNul := by
  have hOld : ∀ off ∈ s.argv ++ [s.prev], (s.area ++ [NUL])[off]? = s.area[off]? := by
    intro off hOff
    refine List.getElem?_append_left ?_
    rcases List.mem_append.mp hOff with hArgv | hPrev
    · exact h.argv off hArgv
    · obtain rfl := List.mem_singleton.mp hPrev
      exact hWord
  have hNext : (s.area ++ [NUL])[s.area.length + 1]? = none := by simp
  constructor
  · rintro ⟨off, hOff, hNul⟩
    rcases List.mem_append.mp hOff with hArgv | hPrev
    · exact ⟨off, hArgv, (hOld off hArgv).symm.trans hNul⟩
    · obtain rfl := List.mem_singleton.mp hPrev
      exact absurd (hNext.symm.trans hNul) (by simp)
  · rintro ⟨off, hOff, hNul⟩
    exact ⟨off, List.mem_append_left _ hOff, (hOld off hOff).trans hNul⟩

def finish (s : BreakState) : BreakState := if s.prev < s.area.length then s.close else s

/-- After a word the next one starts. -/
theorem Fits.finish_prev (h : s.Fits) : s.finish.prev = s.finish.area.length := by
  unfold BreakState.finish
  split
  · simp [BreakState.close]
  · next hWord => exact le_antisymm h.prev (not_lt.mp hWord)

theorem finish_flags : s.finish.backslash = s.backslash ∧ s.finish.dquote = s.dquote ∧
    s.finish.squote = s.squote := by
  unfold BreakState.finish
  split
  · exact ⟨rfl, rfl, rfl⟩
  · exact ⟨rfl, rfl, rfl⟩

theorem Fits.put_prev (h : s.Fits) : (s.put c).prev ≠ (s.put c).area.length := by
  have := h.prev
  simp only [BreakState.put, List.length_append, List.length_singleton]
  omega

/-- The end of a word keeps the offsets in order. -/
theorem Fits.finish (h : s.Fits) : s.finish.Fits := by
  unfold BreakState.finish
  split
  · next hWord => exact h.close hWord
  · exact h

theorem Fits.finish_hasNul (h : s.Fits) : s.finish.HasNul ↔ s.HasNul := by
  unfold BreakState.finish
  split
  · next hWord => exact h.close_hasNul hWord
  · exact Iff.rfl

end BreakState

section
variable {s s' : BreakState} {c : Char} {src : CString}

/-- The NUL at the end is no octal digit. -/
theorem strtoul8_end (src : CString) :
    strtoul8 (src ++ [NUL]) = ((strtoul8 src).1, (strtoul8 src).2 ++ [NUL]) := by
  have hDigits : (src ++ [NUL]).takeWhile (fun c => '0' ≤ c && c ≤ '7') =
      src.takeWhile fun c => '0' ≤ c && c ≤ '7' := by
    induction src with
    | nil => rfl
    | cons c src ih => simp only [List.cons_append, List.takeWhile_cons, ih]
  have hLength : (src.takeWhile fun c => '0' ≤ c && c ≤ '7').length ≤ src.length :=
    (List.takeWhile_sublist _).length_le
  simp only [strtoul8, hDigits, List.drop_append_of_le_length hLength]

theorem escapeOf_ne (hNul : c ≠ NUL) : escapeOf c ≠ NUL := by
  unfold escapeOf
  split
  all_goals first | decide | exact hNul

/-- An escape puts one character, which is a NUL just if it stands for one. -/
theorem breakLoop_escape (delim : Option CString) (hBackslash : s.backslash = false)
    (hNul : NUL ∉ src) :
    ∃ c, (c = NUL ↔ escapesNul src = true) ∧
      breakLoop delim ('\\' :: src ++ [NUL]) s =
        if src = [] then some (s.put c) else breakLoop delim (afterEscape src ++ [NUL]) (s.put c) := by
  let s' : BreakState := { s with backslash := true }
  have hOpen : breakChar delim s '\\' = s' := by
    simp [breakChar, hBackslash, s']
  have hShut : ({ s' with backslash := false } : BreakState) = s := by
    simp only [s', ← hBackslash]
  rw [List.cons_append, breakLoop_cons (by simp [hBackslash]) (by decide), hOpen]
  cases src with
  | nil =>
      refine ⟨NUL, by simp [escapesNul], ?_⟩
      have hPut : breakChar delim s' NUL = s.put NUL := by
        rw [← hShut]
        rfl
      rw [if_pos rfl, List.nil_append, breakLoop, hPut]
      simp [show NUL.isDigit = false from rfl]
  | cons d src =>
      obtain ⟨hHead, -⟩ := not_or.mp (List.mem_cons.not.mp hNul)
      by_cases hDigit : d.isDigit
      · refine ⟨(strtoul8 (d :: src)).1, by simp [escapesNul, hDigit], ?_⟩
        have hValue := strtoul8_end (d :: src)
        rw [List.cons_append] at hValue
        rw [if_neg (List.cons_ne_nil _ _), List.cons_append, breakLoop, hValue]
        simp only [hDigit, Bool.and_true, afterEscape, if_true, hShut]
        rfl
      · refine ⟨escapeOf d, ?_, ?_⟩
        · simp [escapesNul, hDigit, escapeOf_ne (Ne.symm hHead)]
        · have hPut : breakChar delim s' d = s.put (escapeOf d) := by
            rw [← hShut]
            rfl
          rw [if_neg (List.cons_ne_nil _ _), List.cons_append,
            breakLoop_cons (by simp [hDigit]) (Ne.symm hHead), hPut]
          simp [afterEscape, hDigit]

/-- A character that is neither a backslash nor a quotation mark here. -/
theorem breakChar_other (hBackslash : s.backslash = false) (hc : c ≠ '\\')
    (hDquote : ¬ (c = '"' ∧ s.squote = false)) (hSquote : ¬ (c = '\'' ∧ s.dquote = false)) :
    breakChar none s c =
      if s.dquote || s.squote then s.put c
      else if c = NUL || isspace c then s.finish else s.put c := by
  simp only [breakChar, hBackslash, hc, BreakState.finish]
  by_cases hDouble : c = '"'
  · have hIn : s.squote = true := by simpa [hDouble] using hDquote
    simp [hDouble, hIn]
  · by_cases hSingle : c = '\''
    · have hIn : s.dquote = true := by simpa [hSingle] using hSquote
      simp [hSingle, hIn]
    · simp [hDouble, hSingle]

/-- Outside of quotation marks, the end of the string closes the last word. -/
theorem breakLoop_last (hBackslash : s.backslash = false)
    (hLoop : breakLoop none [NUL] s = some s') (hDquote : s'.dquote = false)
    (hSquote : s'.squote = false) : s' = s.finish := by
  have hChar : breakChar none s NUL = s' := by
    rw [breakLoop] at hLoop
    simpa [hBackslash] using hLoop
  rw [breakChar_other hBackslash (by decide) (by simp [NUL]) (by simp [NUL])] at hChar
  split at hChar
  · next hQuoted =>
      subst hChar
      simp only [BreakState.put] at hDquote hSquote
      simp [hDquote, hSquote] at hQuoted
  · simpa using hChar.symm

/-- The loop makes a word that starts with NUL just where such an escape begins one. -/
theorem breakLoop_hasNul {dquote squote fresh : Bool} (hFits : s.Fits)
    (hBackslash : s.backslash = false) (hDquote : s.dquote = dquote) (hSquote : s.squote = squote)
    (hFresh : fresh = decide (s.prev = s.area.length)) (hNul : NUL ∉ src)
    (hLoop : breakLoop none (src ++ [NUL]) s = some s') (hDquote' : s'.dquote = false)
    (hSquote' : s'.squote = false) :
    s'.Fits ∧ (s'.HasNul ↔ s.HasNul ∨ nulBegins dquote squote fresh src = true) := by
  fun_induction nulBegins dquote squote fresh src generalizing s with
  | case1 =>
      rw [List.nil_append] at hLoop
      rw [breakLoop_last hBackslash hLoop hDquote' hSquote']
      exact ⟨hFits.finish, by simp [hFits.finish_hasNul]⟩
  | case2 dquote squote fresh src ih =>
      have hRest : NUL ∉ src := (not_or.mp (List.mem_cons.not.mp hNul)).2
      obtain ⟨v, hValue, hEscape⟩ := breakLoop_escape none hBackslash hRest
      rw [hEscape] at hLoop
      have hPut := hFits.put_hasNul (c := v)
      have hFirst : (fresh && escapesNul src) = true ↔ s.prev = s.area.length ∧ v = NUL := by
        rw [hFresh, Bool.and_eq_true, decide_eq_true_eq, hValue]
      split at hLoop
      · next hEnd =>
          obtain rfl := Option.some.inj hLoop
          subst hEnd
          refine ⟨hFits.put, ?_⟩
          rw [hPut, Bool.or_eq_true, hFirst]
          simp [afterEscape, nulBegins]
      · obtain ⟨hFits', hHas⟩ := ih hFits.put hBackslash hDquote hSquote
          (by simp [hFits.put_prev]) (fun h => hRest (mem_afterEscape h)) hLoop
        refine ⟨hFits', ?_⟩
        rw [hHas, hPut, Bool.or_eq_true, hFirst, or_assoc]
  | case3 dquote squote fresh c src hc hQuote ih =>
      obtain ⟨hHead, hRest⟩ := not_or.mp (List.mem_cons.not.mp hNul)
      obtain ⟨rfl, hOut⟩ : c = '"' ∧ squote = false := by simpa using hQuote
      have hToggle : breakChar none s '"' = { s with dquote := !s.dquote } := by
        simp [breakChar, hBackslash, hSquote, hOut]
      rw [List.cons_append, breakLoop_cons (by simp [hBackslash]) (Ne.symm hHead), hToggle] at hLoop
      exact ih (s := { s with dquote := !s.dquote }) ⟨hFits.argv, hFits.prev⟩ hBackslash
        (by simp [hDquote]) hSquote hFresh hRest hLoop
  | case4 dquote squote fresh c src hc hDouble hSingle ih =>
      obtain ⟨hHead, hRest⟩ := not_or.mp (List.mem_cons.not.mp hNul)
      obtain ⟨rfl, hOut⟩ : c = '\'' ∧ dquote = false := by simpa using hSingle
      have hToggle : breakChar none s '\'' = { s with squote := !s.squote } := by
        simp [breakChar, hBackslash, hDquote, hOut]
      rw [List.cons_append, breakLoop_cons (by simp [hBackslash]) (Ne.symm hHead), hToggle] at hLoop
      exact ih (s := { s with squote := !s.squote }) ⟨hFits.argv, hFits.prev⟩ hBackslash hDquote
        (by simp [hSquote]) hFresh hRest hLoop
  | case5 dquote squote fresh c src hc hDouble hSingle ih =>
      obtain ⟨hHead, hRest⟩ := not_or.mp (List.mem_cons.not.mp hNul)
      have hChar := breakChar_other (s := s) hBackslash hc (by simpa [hSquote] using hDouble)
        (by simpa [hDquote] using hSingle)
      have hSame : (s.put c).HasNul ↔ s.HasNul := by
        rw [hFits.put_hasNul]
        simp [Ne.symm hHead]
      rw [List.cons_append, breakLoop_cons (by simp [hBackslash]) (Ne.symm hHead), hChar,
        hDquote, hSquote] at hLoop
      split at hLoop
      · next hQuoted =>
          rw [← hSame]
          refine ih hFits.put hBackslash hDquote hSquote ?_ hRest hLoop
          rw [decide_eq_false hFits.put_prev]
          cases dquote <;> simp_all
      · next hPlain =>
          have hOut : dquote = false ∧ squote = false := by simpa using hPlain
          split at hLoop
          · next hSpace =>
              have hBlank : isspace c = true := by simpa [Ne.symm hHead] using hSpace
              obtain ⟨hFlag, hD, hS⟩ := s.finish_flags
              rw [← hFits.finish_hasNul]
              refine ih hFits.finish (hFlag.trans hBackslash) (hD.trans hDquote) (hS.trans hSquote) ?_
                hRest hLoop
              simp [hOut, hBlank, hFits.finish_prev]
          · next hWord =>
              have hBlank : isspace c = false := by simpa [Ne.symm hHead] using hWord
              rw [← hSame]
              refine ih hFits.put hBackslash hDquote hSquote ?_ hRest hLoop
              simp [hBlank, hFits.put_prev]

end

/-- A word is empty just if it starts with its NUL. -/
theorem stringAt_eq_nil {area : List Char} {off : Nat} (hOff : off < area.length) :
    stringAt area off = [] ↔ area[off]? = some NUL := by
  rw [stringAt, List.drop_eq_getElem_cons hOff, List.getElem?_eq_getElem hOff]
  by_cases hNul : area[off] = NUL
  · simp [hNul]
  · rw [List.takeWhile_cons_of_pos (by simpa using hNul)]
    simp [hNul]

/-- The strings of a vector that ends with its only NULL. -/
theorem strings_forall {argv : List Nat} {area : List Char} {p : CString → Prop} :
    (∀ i < argv.length, ∃ word,
      (Broken.strings ⟨argv.length, argv.map some ++ [none], area⟩)[i]? = some (some word) ∧ p word) ↔
      ∀ off ∈ argv, p (stringAt area off) := by
  rw [List.forall_mem_iff_getElem]
  refine forall_congr' fun i => forall_congr' fun hi => ?_
  have hWord : (Broken.strings ⟨argv.length, argv.map some ++ [none], area⟩)[i]? =
      some (some (stringAt area argv[i])) := by
    simp only [Broken.strings, List.map_append, List.map_map]
    rw [List.getElem?_append_left (by simpa using hi)]
    simp [hi]
  rw [hWord]
  simp

/-- When it succeeds without a `delim`, the words are not empty just if no escape
for a NUL begins one. -/
theorem words_nonempty_iff (src : CString) (hNul : NUL ∉ src) (b : Broken)
    (h : clpBreakargs (some src) none = some (0, some b)) :
    (∀ i < b.argc, ∃ word, b.strings[i]? = some (some word) ∧ word ≠ []) ↔
      nulBegins false false true src = false := by
  simp only [clpBreakargs, Option.map_eq_some_iff] at h
  obtain ⟨s, hLoop, hEnd⟩ := h
  split at hEnd
  · cases hEnd
  · next hQuotes =>
      obtain ⟨hDquote, hSquote⟩ : s.dquote = false ∧ s.squote = false := by simpa using hQuotes
      obtain ⟨hFits, hHas⟩ : s.Fits ∧
          (s.HasNul ↔ BreakState.start.HasNul ∨ nulBegins false false true src = true) :=
        breakLoop_hasNul BreakState.start_fits rfl rfl rfl rfl hNul hLoop hDquote hSquote
      obtain rfl : ⟨s.finish.argv.length, s.finish.argv.map some ++ [none], s.finish.area⟩ = b :=
        Option.some.inj (congrArg Prod.snd hEnd)
      have hPrev : s.finish.area[s.finish.prev]? = none := by
        rw [hFits.finish_prev]
        exact List.getElem?_eq_none le_rfl
      have hNone : s.finish.HasNul ↔ ∃ off ∈ s.finish.argv, s.finish.area[off]? = some NUL := by
        simp [BreakState.HasNul, or_and_right, exists_or, hPrev]
      rw [hFits.finish_hasNul, hHas, or_iff_right BreakState.start_hasNul] at hNone
      rw [strings_forall, ← Bool.not_eq_true, hNone, not_exists]
      refine forall_congr' fun off => ?_
      rw [not_and]
      refine forall_congr' fun hOff => ?_
      rw [ne_eq, stringAt_eq_nil (hFits.finish.argv off hOff)]

/-- `a\0` -/
theorem words_nonempty_iff_inside :
    ∃ word, (Broken.strings ⟨1, [some 0, none], ['a', NUL, NUL]⟩)[0]? = some (some word) ∧
      word ≠ [] := by
  have hWords : clpBreakargs (some ['a', '\\', '0']) none =
      some (0, some ⟨1, [some 0, none], ['a', NUL, NUL]⟩) := by
    simp [clpBreakargs, breakLoop, breakChar, BreakState.start, BreakState.put, BreakState.close,
      strtoul8, isspace, NUL]
  refine (words_nonempty_iff ['a', '\\', '0'] (by decide) _ hWords).mpr ?_ 0 (by decide)
  simp [nulBegins, afterEscape, isspace, strtoul8]

/-- A backslash at the end of the string makes an empty word. -/
theorem words_emptyEscape :
    ¬ ∀ (src : CString) (b : Broken), NUL ∉ src → clpBreakargs (some src) none = some (0, some b) →
      ∀ i < b.argc, ∃ word, b.strings[i]? = some (some word) ∧ word ≠ [] := by
  intro h
  have hWords : clpBreakargs (some ['\\']) none = some (0, some ⟨1, [some 0, none], [NUL, NUL]⟩) := by
    simp [clpBreakargs, breakLoop, breakChar, BreakState.start, BreakState.put, BreakState.close,
      escapeOf, NUL]
  obtain ⟨word, hString, hWord⟩ := h ['\\'] _ (by decide) hWords 0 (by decide)
  have hEmpty : (Broken.strings ⟨1, [some 0, none], [NUL, NUL]⟩)[0]? = some (some []) := by decide
  exact hWord (Option.some.inj (Option.some.inj (hString.symm.trans hEmpty)))

end Nct
