import Nct.Clp

/-! `clp_breakargs`: a string is broken into a vector of words. The vector and
the copy of the string are one block of memory, taken here to be given and large
enough; a word is its offset in the copy. -/
namespace Nct

def EX_DATAERR : Int := 65

def NUL : Char := '\x00'

/-- The variables of the loop. `area` is the copy up to `dst`. -/
structure BreakState where
  backslash : Bool
  dquote : Bool
  squote : Bool
  area : List Char
  prev : Nat
  argv : List Nat

def BreakState.start : BreakState where
  backslash := false
  dquote := false
  squote := false
  area := []
  prev := 0
  argv := []

namespace BreakState

/-- `*dst++ = c` -/
def put (s : BreakState) (c : Char) : BreakState := { s with area := s.area ++ [c] }

/-- `argv[argc++] = prev; *dst++ = '\0'; prev = dst` -/
def close (s : BreakState) : BreakState :=
  { s with area := s.area ++ [NUL], prev := s.area.length + 1, argv := s.argv ++ [s.prev] }

end BreakState

/-- The character put for one that follows a backslash and is not a digit. -/
def escapeOf : Char → Char
  | 'a' => '\x07'
  | 'b' => '\x08'
  | 'f' => '\x0c'
  | 'n' => '\n'
  | 'r' => '\r'
  | 't' => '\t'
  | 'v' => '\x0b'
  | c => c

/-- `strtoul(src, &end, 8)` of a string that starts with a digit, cast to a
character, and `end`. -/
def strtoul8 (src : List Char) : Char × List Char :=
  let digits := src.takeWhile fun c => '0' ≤ c && c ≤ '7'
  let value := digits.foldl (fun n c => 8 * n + (c.toNat - '0'.toNat)) 0
  (Char.ofNat (min value (UInt64.size - 1) % 256), src.drop digits.length)

/-- The body of the loop for a character, but for a backslash followed by a
digit. -/
def breakChar (delim : Option CString) (s : BreakState) (c : Char) : BreakState :=
  if s.backslash then ({ s with backslash := false } : BreakState).put (escapeOf c)
  else if c = '\\' then { s with backslash := true }
  else if c = '"' then
    if s.squote then s.put c else { s with dquote := !s.dquote }
  else if c = '\'' then
    if s.dquote then s.put c else { s with squote := !s.squote }
  else if s.dquote || s.squote then s.put c
  else
    match delim with
    | none =>
        if c = NUL || isspace c then
          if s.prev < s.area.length then s.close else s
        else s.put c
    -- `strchr` finds the terminating NUL of `delim` too
    | some delim => if c = NUL || delim.contains c then s.close else s.put c

/-- The loop over what is left of the string in memory; `none` if it reads past
the string's end. -/
def breakLoop (delim : Option CString) : List Char → BreakState → Option BreakState
  | [], _ => none
  | c :: src, s =>
      if s.backslash && c.isDigit then
        let value := strtoul8 (c :: src)
        breakLoop delim value.2 (({ s with backslash := false } : BreakState).put value.1)
      else
        let s' := breakChar delim s c
        if c = NUL then some s' else breakLoop delim src s'
termination_by src s => 2 * src.length + s.backslash.toNat
decreasing_by
  · have hBackslash : s.backslash = true := by simp_all
    have hShorter : (strtoul8 (c :: src)).2.length ≤ (c :: src).length :=
      (List.drop_sublist ..).length_le
    simp only [BreakState.put, hBackslash, Bool.toNat_true, Bool.toNat_false]
    omega
  · have hFlag := Bool.toNat_le (breakChar delim s c).backslash
    simp only [List.length_cons]
    omega

/-- What is returned in `*argcp` and `*argvp`, with the copy that the words
point into; an entry `none` of the vector is NULL. -/
structure Broken where
  argc : Nat
  argv : List (Option Nat)
  area : List Char

/-- The string at an offset of the copy. -/
def stringAt (area : List Char) (off : Nat) : CString := (area.drop off).takeWhile (· != NUL)

def Broken.strings (b : Broken) : List (Option CString) := b.argv.map (Option.map (stringAt b.area))

/-- `clp_breakargs` with as much memory as it writes to: the value returned, and
`*argvp` with `*argcp` unless it is NULL. The outer `none` stands for reading past the
string. What it does in the block that it takes for an `int srclen` is
`clpBreakargsIn`. -/
def clpBreakargs (src delim : Option CString) : Option (Int × Option Broken) :=
  match src with
  | none => some (EX_SOFTWARE, none)
  | some src =>
      (breakLoop delim (src ++ [NUL]) .start).map fun s =>
        if s.dquote || s.squote then (EX_DATAERR, none)
        else
          let s := if s.prev < s.area.length then s.close else s
          (0, some ⟨s.argv.length, s.argv.map some ++ [none], s.area⟩)

/-- A word in double quotes, with `\"` and `\\` for the quotes and backslashes in
it. -/
def quoted (word : CString) : CString :=
  '"' :: word.flatMap (fun c => if c = '"' ∨ c = '\\' then ['\\', c] else [c]) ++ ['"']

/-- Quoted words, each but the first after its separator. -/
def joined : List CString → List CString → CString
  | [], _ => []
  | word :: words, seps =>
      quoted word ++ (List.zipWith (fun sep word => sep ++ quoted word) seps words).flatten

def wordsLength : List CString → Nat
  | [] => 0
  | word :: words => word.length + 1 + wordsLength words

/-- What `clp_breakargs` separates words by: white space, or one character of
`delim`. -/
def Separates (delim : Option CString) (sep : CString) : Prop :=
  match delim with
  | none => sep ≠ [] ∧ ∀ c ∈ sep, isspace c
  | some delim => ∃ c ∈ delim, sep = [c]

namespace BreakState

structure Plain (s : BreakState) : Prop where
  backslash : s.backslash = false
  dquote : s.dquote = false
  squote : s.squote = false

/-- The loop between two words, with these ones in the vector. They stay as they
are whatever is put next. -/
structure Between (s : BreakState) (words : List CString) : Prop extends s.Plain where
  prev : s.prev = s.area.length
  words : ∀ more, s.argv.map (stringAt (s.area ++ more)) = words

theorem start_between : start.Between [] := ⟨⟨rfl, rfl, rfl⟩, rfl, fun _ => rfl⟩

/-- `*dst++` for every character of a word. -/
def puts (s : BreakState) (word : CString) : BreakState := { s with area := s.area ++ word }

variable {s : BreakState} {words : List CString} {word : CString}

theorem Plain.puts (h : s.Plain) : (s.puts word).Plain := ⟨h.backslash, h.dquote, h.squote⟩

theorem Between.prev_lt_puts (h : s.Between words) (hWord : word ≠ []) :
    (s.puts word).prev < (s.puts word).area.length := by
  have := List.length_pos_iff.mpr hWord
  simp only [BreakState.puts, h.prev, List.length_append]
  omega

/-- A word that is put and closed comes after those that are there. -/
theorem Between.close_puts (h : s.Between words) (hWord : NUL ∉ word) :
    (s.puts word).close.Between (words ++ [word]) where
  toPlain := ⟨h.backslash, h.dquote, h.squote⟩
  prev := by simp [close, puts, Nat.add_assoc]
  words more := by
    have hBefore : s.argv.map (stringAt (s.area ++ (word ++ NUL :: more))) = words := h.words _
    have hLast : stringAt (s.area ++ (word ++ NUL :: more)) s.prev = word := by
      rw [stringAt, h.prev, List.drop_left, List.takeWhile_append_of_pos]
      · simp
      · intro c hc
        simpa using ne_of_mem_of_not_mem hc hWord
    simp [close, puts, hBefore, hLast]

end BreakState

section
variable {delim : Option CString} {s : BreakState} {c : Char} {src : List Char}
  {words : List CString} {word sep : CString}

theorem breakLoop_cons (hDigit : (s.backslash && c.isDigit) = false) (hNul : c ≠ NUL) :
    breakLoop delim (c :: src) s = breakLoop delim src (breakChar delim s c) := by
  rw [breakLoop]
  simp [hDigit, hNul]

/-- Between double quotes a character is put, in whichever way it is written. -/
theorem breakLoop_quotedChar (hBackslash : s.backslash = false) (hDquote : s.dquote = true)
    (hNul : c ≠ NUL) :
    breakLoop delim ((if c = '"' ∨ c = '\\' then ['\\', c] else [c]) ++ src) s =
      breakLoop delim src (s.put c) := by
  by_cases hSpecial : c = '"' ∨ c = '\\'
  · have hEscape : breakChar delim (breakChar delim s '\\') c = s.put c := by
      obtain rfl | rfl := hSpecial <;> cases s <;> simp_all [breakChar, BreakState.put, escapeOf]
    have hDigit : c.isDigit = false := by obtain rfl | rfl := hSpecial <;> decide
    rw [if_pos hSpecial, List.cons_append, breakLoop_cons (by simp [hBackslash]) (by decide),
      List.cons_append, breakLoop_cons (by simp [hDigit]) hNul, hEscape, List.nil_append]
  · have hPut : breakChar delim s c = s.put c := by
      simp_all [breakChar]
    rw [if_neg hSpecial, List.cons_append, breakLoop_cons (by simp [hBackslash]) hNul, hPut,
      List.nil_append]

theorem breakLoop_quotedChars (hBackslash : s.backslash = false) (hDquote : s.dquote = true)
    (hNul : NUL ∉ word) :
    breakLoop delim
        (word.flatMap (fun c => if c = '"' ∨ c = '\\' then ['\\', c] else [c]) ++ src) s =
      breakLoop delim src (s.puts word) := by
  induction word generalizing s with
  | nil => simp [BreakState.puts]
  | cons c word ih =>
      obtain ⟨hHead, hTail⟩ := not_or.mp (List.mem_cons.not.mp hNul)
      have hPuts : (s.put c).puts word = s.puts (c :: word) := by
        simp [BreakState.put, BreakState.puts]
      rw [List.flatMap_cons, List.append_assoc,
        breakLoop_quotedChar hBackslash hDquote (Ne.symm hHead),
        ih (s := s.put c) hBackslash hDquote hTail, hPuts]

/-- A quoted word is put as it was, with nothing else changed. -/
theorem breakLoop_quoted (h : s.Plain) (hNul : NUL ∉ word) :
    breakLoop delim (quoted word ++ src) s = breakLoop delim src (s.puts word) := by
  let inQuotes : BreakState := { s with dquote := true }
  have hOpen : breakChar delim s '"' = inQuotes := by
    simp [breakChar, inQuotes, h.backslash, h.dquote, h.squote]
  have hShut : breakChar delim (inQuotes.puts word) '"' = s.puts word := by
    simp [breakChar, BreakState.puts, inQuotes, h.backslash, h.dquote, h.squote]
  rw [quoted, List.cons_append, List.cons_append,
    breakLoop_cons (by simp [h.backslash]) (by decide), hOpen, List.append_assoc,
    breakLoop_quotedChars (s := inQuotes) h.backslash rfl hNul, List.singleton_append,
    breakLoop_cons (by simp [BreakState.puts, inQuotes, h.backslash]) (by decide), hShut]

theorem isspace_ne (h : isspace c) : c ≠ '\\' ∧ c ≠ '"' ∧ c ≠ '\'' ∧ c ≠ NUL := by
  simp only [isspace, List.mem_cons, List.not_mem_nil, or_false, decide_eq_true_eq] at h
  obtain rfl | rfl | rfl | rfl | rfl | rfl := h <;> decide

/-- White space between words is skipped. -/
theorem breakLoop_skip (h : s.Between words) (hSpace : ∀ c ∈ sep, isspace c) :
    breakLoop none (sep ++ src) s = breakLoop none src s := by
  induction sep with
  | nil => rfl
  | cons c sep ih =>
      have hc : isspace c := hSpace c (List.mem_cons_self ..)
      obtain ⟨hBackslash, hDquote, hSquote, hNul⟩ := isspace_ne hc
      have hStay : breakChar none s c = s := by
        simp [breakChar, h.backslash, h.dquote, h.squote, h.prev, hBackslash, hDquote, hSquote, hc]
      rw [List.cons_append, breakLoop_cons (by simp [h.backslash]) hNul, hStay,
        ih fun c hc => hSpace c (List.mem_cons_of_mem _ hc)]

/-- The word before a NUL or a separating character is closed, but not an empty
one before white space. -/
theorem breakChar_close (h : s.Plain) (hWord : delim = none → s.prev < s.area.length)
    (hBackslash : c ≠ '\\') (hDquote : c ≠ '"') (hSquote : c ≠ '\'')
    (hEnds : c = NUL ∨ Separates delim [c]) : breakChar delim s c = s.close := by
  cases delim with
  | none =>
      have hSpace : c = NUL ∨ isspace c := by simpa [Separates] using hEnds
      simp [breakChar, h.backslash, h.dquote, h.squote, hBackslash, hDquote, hSquote, hWord rfl,
        hSpace]
  | some delim =>
      have hDelim : c = NUL ∨ c ∈ delim := by simpa [Separates] using hEnds
      simp [breakChar, h.backslash, h.dquote, h.squote, hBackslash, hDquote, hSquote, hDelim]

/-- The end of the string ends its last word. -/
theorem breakLoop_end (h : s.Plain) (hWord : delim = none → s.prev < s.area.length) :
    breakLoop delim [NUL] s = some s.close := by
  have hClose : breakChar delim s NUL = s.close :=
    breakChar_close h hWord (by decide) (by decide) (by decide) (.inl rfl)
  rw [breakLoop, hClose]
  simp [h.backslash]

/-- A separator ends the word before it. -/
theorem breakLoop_separator (hBetween : s.close.Between words) (h : s.Plain)
    (hWord : delim = none → s.prev < s.area.length)
    (hDelim : ∀ chars ∈ delim, ∀ c ∈ chars, c ≠ '\\' ∧ c ≠ '"' ∧ c ≠ '\'' ∧ c ≠ NUL)
    (hSep : Separates delim sep) :
    breakLoop delim (sep ++ src) s = breakLoop delim src s.close := by
  cases delim with
  | none =>
      obtain ⟨hNe, hSpace⟩ := hSep
      obtain ⟨c, sep, rfl⟩ := List.exists_cons_of_ne_nil hNe
      obtain ⟨hc, hRest⟩ := List.forall_mem_cons.mp hSpace
      obtain ⟨hBackslash, hDquote, hSquote, hNul⟩ := isspace_ne hc
      have hClose : breakChar none s c = s.close :=
        breakChar_close h hWord hBackslash hDquote hSquote (.inr ⟨by simp, by simpa using hc⟩)
      rw [List.cons_append, breakLoop_cons (by simp [h.backslash]) hNul, hClose,
        breakLoop_skip hBetween hRest]
  | some chars =>
      obtain ⟨c, hc, rfl⟩ := hSep
      obtain ⟨hBackslash, hDquote, hSquote, hNul⟩ := hDelim chars rfl c hc
      have hClose : breakChar (some chars) s c = s.close :=
        breakChar_close h hWord hBackslash hDquote hSquote (.inr ⟨c, hc, rfl⟩)
      rw [List.singleton_append, breakLoop_cons (by simp [h.backslash]) hNul, hClose]

theorem puts_close_length :
    (s.puts word).close.area.length = s.area.length + wordsLength [word] := by
  simp [BreakState.close, BreakState.puts, wordsLength, Nat.add_assoc]

/-- From between two words the loop takes the words that are written next, and
the end of the string. -/
theorem breakLoop_joined {seps : List CString}
    (hDelim : ∀ chars ∈ delim, ∀ c ∈ chars, c ≠ '\\' ∧ c ≠ '"' ∧ c ≠ '\'' ∧ c ≠ NUL)
    (hWord : ∀ word' ∈ word :: words, NUL ∉ word' ∧ (delim = none → word' ≠ []))
    (hSep : ∀ sep ∈ seps, Separates delim sep) (hLength : seps.length = words.length)
    {before : List CString} (h : s.Between before) :
    ∃ s', breakLoop delim (joined (word :: words) seps ++ [NUL]) s = some s' ∧
      s'.Between (before ++ word :: words) ∧
      s'.area.length = s.area.length + wordsLength (word :: words) := by
  induction words generalizing word seps s before with
  | nil =>
      obtain ⟨hNul, hNe⟩ := hWord word (List.mem_singleton_self word)
      obtain rfl := List.eq_nil_of_length_eq_zero hLength
      refine ⟨(s.puts word).close, ?_, h.close_puts hNul, puts_close_length⟩
      rw [joined, List.append_assoc, breakLoop_quoted h.toPlain hNul]
      exact breakLoop_end h.toPlain.puts fun hNone => h.prev_lt_puts (hNe hNone)
  | cons word' words ih =>
      obtain ⟨⟨hNul, hNe⟩, hWords⟩ := List.forall_mem_cons.mp hWord
      obtain ⟨sep, seps, rfl⟩ := List.exists_cons_of_length_eq_add_one hLength
      obtain ⟨hHere, hSeps⟩ := List.forall_mem_cons.mp hSep
      have hJoined : joined (word :: word' :: words) (sep :: seps) ++ [NUL] =
          quoted word ++ (sep ++ (joined (word' :: words) seps ++ [NUL])) := by
        simp [joined]
      obtain ⟨s', hLoop, hBetween, hArea⟩ :=
        ih hWords hSeps (Nat.succ.inj hLength) (h.close_puts hNul)
      refine ⟨s', ?_, by simpa using hBetween, ?_⟩
      · rw [hJoined, breakLoop_quoted h.toPlain hNul,
          breakLoop_separator (h.close_puts hNul) h.toPlain.puts
            (fun hNone => h.prev_lt_puts (hNe hNone)) hDelim hHere, hLoop]
      · rw [hArea, puts_close_length]
        simp only [wordsLength]
        omega

end

/-- The loop takes words that are quoted and joined. Empty words are for a `delim`
only, which has no quotes and no backslash in it. -/
theorem breakLoop_words {delim : Option CString} {words seps : List CString}
    (hDelim : ∀ chars ∈ delim, ∀ c ∈ chars, c ≠ '\\' ∧ c ≠ '"' ∧ c ≠ '\'' ∧ c ≠ NUL)
    (hWord : ∀ word ∈ words, NUL ∉ word ∧ (delim = none → word ≠ []))
    (hNone : words = [] → delim = none) (hSep : ∀ sep ∈ seps, Separates delim sep)
    (hLength : seps.length = words.length - 1) :
    ∃ s, breakLoop delim (joined words seps ++ [NUL]) .start = some s ∧ s.Between words ∧
      s.area.length = wordsLength words := by
  cases words with
  | nil =>
      obtain rfl := hNone rfl
      refine ⟨.start, ?_, BreakState.start_between, rfl⟩
      simp [joined, breakLoop, breakChar, BreakState.start, NUL]
  | cons word words =>
      obtain ⟨s, hLoop, hBetween, hArea⟩ :=
        breakLoop_joined hDelim hWord hSep hLength BreakState.start_between
      exact ⟨s, hLoop, hBetween, by simpa [BreakState.start] using hArea⟩

end Nct
