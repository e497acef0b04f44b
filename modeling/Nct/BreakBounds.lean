import Nct.EmptyWords
import Nct.Support.Signed

/-! The block of memory in which `clp_breakargs` breaks a string: whether what it
stores stays within the block. -/
namespace Nct

def EX_OSERR : Int := 71

structure BreakSizes where
  argcmax : Int
  argvsz : UInt64
  deriving DecidableEq

/-- `srclen`: the string's length as an `int`. -/
def srclen (len : Nat) : Int := (Int32.ofNat len).toInt

/-- `none` if `srclen + 2` is too large for an `int`. -/
def breakSizes (len : Nat) : Option BreakSizes :=
  if srclen len + 2 > Int32.maxValue.toInt then none
  else some ⟨srclen len + 2, UInt64.ofInt (8 * (srclen len + 2) + (srclen len + 1))⟩

/-- A block of memory for so many pointers and, behind them, so many characters. -/
structure Block where
  argcmax : Nat
  room : Nat

/-- `dst = (char *)(argv + argcmax)`; `none` if that is before the block. -/
def BreakSizes.block (sizes : BreakSizes) : Option Block :=
  if sizes.argcmax < 0 then none
  else some ⟨sizes.argcmax.toNat, sizes.argvsz.toNat - 8 * sizes.argcmax.toNat⟩

/-- All that has been stored is within the block. -/
def Block.Holds (b : Block) (s : BreakState) : Prop :=
  s.argv.length ≤ b.argcmax ∧ s.area.length ≤ b.room

instance (b : Block) (s : BreakState) : Decidable (b.Holds s) := by
  unfold Block.Holds
  infer_instance

/-- The loop; `none` also if it stores past what the block has room for. -/
def Block.loop (b : Block) (delim : Option CString) : List Char → BreakState → Option BreakState
  | [], _ => none
  | c :: src, s =>
      if s.backslash && c.isDigit then
        let value := strtoul8 (c :: src)
        let s' := ({ s with backslash := false } : BreakState).put value.1
        if b.Holds s' then b.loop delim value.2 s' else none
      else
        let s' := breakChar delim s c
        if b.Holds s' then
          if c = NUL then some s' else b.loop delim src s'
        else none
termination_by src s => 2 * src.length + s.backslash.toNat
decreasing_by
  · have hBackslash : s.backslash = true := by simp_all
    have hShorter : (strtoul8 (c :: src)).2.length ≤ (c :: src).length :=
      (List.drop_sublist ..).length_le
    simp only [BreakState.put, hBackslash, Bool.toNat_true, Bool.toNat_false]
    omega
  · have hFlag := Bool.toNat_le (breakChar delim s c).backslash
    simp only [List.length_cons]
    omega

/-- What follows the loop; the vector takes a NULL behind its words. -/
def Block.result (b : Block) (s : BreakState) : Option (Int × Option Broken) :=
  if s.dquote || s.squote then some (EX_DATAERR, none)
  else if b.Holds s.finish ∧ s.finish.argv.length < b.argcmax then
    some (0, some ⟨s.finish.argv.length, s.finish.argv.map some ++ [none], s.finish.area⟩)
  else none

/-- `clp_breakargs` with its block of memory, which `malloc` gives or not. The
outer `none` stands for an access out of bounds or a sum that is no `int`. -/
def clpBreakargsIn (malloc : UInt64 → Bool) (src delim : Option CString) :
    Option (Int × Option Broken) :=
  match src with
  | none => some (EX_SOFTWARE, none)
  | some src =>
      match breakSizes src.length with
      | none => none
      | some sizes =>
          if malloc sizes.argvsz then
            sizes.block.bind fun b => (b.loop delim (src ++ [NUL]) .start).bind b.result
          else some (EX_OSERR, none)

/-- A quotation mark is open at the end of the string, which starts between the
given ones. A mark that follows a backslash or is between the other ones is none. -/
def openQuote (dquote squote : Bool) : CString → Bool
  | [] => dquote || squote
  | c :: src =>
      if c = '\\' then openQuote dquote squote (afterEscape src)
      else if c = '"' && !squote then openQuote (!dquote) squote src
      else if c = '\'' && !dquote then openQuote dquote (!squote) src
      else openQuote dquote squote src
termination_by src => src.length
decreasing_by
  · have := afterEscape_length src
    simp only [List.length_cons]
    omega
  all_goals simp

namespace BreakState

/-- The characters that a state and what is left of the string leave room for. -/
def budget (s : BreakState) (src : List Char) : Nat :=
  s.area.length + src.length + s.backslash.toNat

variable {delim : Option CString} {s : BreakState} {c : Char} {src : List Char}

@[simp] theorem put_area_length : (s.put c).area.length = s.area.length + 1 := by
  simp [put]

@[simp] theorem put_backslash : (s.put c).backslash = s.backslash := rfl

@[simp] theorem put_argv : (s.put c).argv = s.argv := rfl

@[simp] theorem close_backslash : s.close.backslash = s.backslash := rfl

@[simp] theorem close_area_length : s.close.area.length = s.area.length + 1 := by
  simp [close]

@[simp] theorem close_argv_length : s.close.argv.length = s.argv.length + 1 := by
  simp [close]

theorem finish_area_length (s : BreakState) : s.finish.area.length ≤ s.area.length + 1 := by
  unfold finish
  split
  · exact close_area_length.le
  · exact Nat.le_succ _

/-- Every word that is stored has its NUL stored too. -/
theorem finish_words (s : BreakState) :
    s.finish.argv.length + s.area.length ≤ s.argv.length + s.finish.area.length := by
  unfold finish
  split
  · simp only [close_argv_length, close_area_length]
    omega
  · exact le_rfl

/-- The last word is closed once. -/
theorem close_finish : s.close.finish = s.close :=
  if_neg (by simp [close])

theorem finish_finish : s.finish.finish = s.finish := by
  by_cases hWord : s.prev < s.area.length
  · rw [show s.finish = s.close from if_pos hWord, close_finish]
  · rw [show s.finish = s from if_neg hWord]
    exact if_neg hWord

end BreakState

section
variable {delim : Option CString} {s s' : BreakState} {src : List Char} {b : Block}

/-- What the loop's body does with a character: put the one that it stands for after
a backslash, open or close an escape or quotation marks, or else put it, close a
word, or skip it. -/
theorem breakChar_cases (delim : Option CString) (s : BreakState) (c : Char) :
    (s.backslash = true ∧
      breakChar delim s c = ({ s with backslash := false } : BreakState).put (escapeOf c)) ∨
    s.backslash = false ∧
      ((c = '\\' ∧ breakChar delim s c = { s with backslash := true }) ∨
      (c = '"' ∧ s.squote = false ∧ breakChar delim s c = { s with dquote := !s.dquote }) ∨
      (c = '\'' ∧ s.dquote = false ∧ breakChar delim s c = { s with squote := !s.squote }) ∨
      (¬ (c = '"' ∧ s.squote = false) ∧ ¬ (c = '\'' ∧ s.dquote = false) ∧
        (breakChar delim s c = s.put c ∨ breakChar delim s c = s.close ∨ breakChar delim s c = s))) := by
  by_cases hBackslash : s.backslash = true
  · exact Or.inl ⟨hBackslash, by simp only [breakChar, hBackslash, if_true]⟩
  · have hFlag : s.backslash = false := by simpa using hBackslash
    refine Or.inr ⟨hFlag, ?_⟩
    by_cases hSlash : c = '\\'
    · exact Or.inl ⟨hSlash, by simp [breakChar, hFlag, hSlash]⟩
    · right
      by_cases hDouble : c = '"' ∧ s.squote = false
      · exact Or.inl ⟨hDouble.1, hDouble.2, by simp [breakChar, hFlag, hDouble]⟩
      · right
        by_cases hSingle : c = '\'' ∧ s.dquote = false
        · exact Or.inl ⟨hSingle.1, hSingle.2, by simp [breakChar, hFlag, hSingle]⟩
        · refine Or.inr ⟨hDouble, hSingle, ?_⟩
          by_cases hQuoted : c = '"' ∨ c = '\'' ∨ s.dquote = true ∨ s.squote = true
          · left
            rcases hQuoted with rfl | rfl | hIn | hIn
            · simp_all [breakChar]
            · simp_all [breakChar]
            · by_cases hMark : c = '"' <;> simp_all [breakChar]
            · by_cases hMark : c = '\'' <;> simp_all [breakChar]
          · obtain ⟨hNoDouble, hNoSingle, hOut⟩ : c ≠ '"' ∧ c ≠ '\'' ∧
                (s.dquote || s.squote) = false := by simpa using hQuoted
            simp only [breakChar, hFlag, hSlash, hNoDouble, hNoSingle, hOut, Bool.false_eq_true, if_false]
            cases delim <;> simp only <;> split_ifs <;> simp

/-- A character of the string stores at most one, and one less if it is a
backslash that escapes. -/
theorem breakChar_budget (delim : Option CString) (s : BreakState) (c : Char) (src : List Char) :
    (breakChar delim s c).budget src ≤ s.budget (c :: src) ∧
      (breakChar delim s c).argv.length + s.area.length ≤
        s.argv.length + (breakChar delim s c).area.length := by
  rcases breakChar_cases delim s c with ⟨hFlag, hChar⟩ | ⟨hFlag, ⟨-, hChar⟩ | ⟨-, -, hChar⟩ | ⟨-, -, hChar⟩ |
    ⟨-, -, hChar | hChar | hChar⟩⟩
  all_goals
    rw [hChar]
    simp only [BreakState.budget, BreakState.put_backslash, BreakState.put_argv, BreakState.put_area_length,
      BreakState.close_backslash, BreakState.close_argv_length, BreakState.close_area_length, hFlag,
      List.length_cons, Bool.toNat_true, Bool.toNat_false]
    omega

/-- So does a run of digits, even if none of them is octal. -/
theorem strtoul8_budget (c : Char) (src : List Char) (hBackslash : s.backslash = true) :
    (({ s with backslash := false } : BreakState).put (strtoul8 (c :: src)).1).budget
      (strtoul8 (c :: src)).2 ≤ s.budget (c :: src) := by
  have hShorter : (strtoul8 (c :: src)).2.length ≤ (c :: src).length :=
    (List.drop_sublist ..).length_le
  simp only [BreakState.budget, BreakState.put_area_length, BreakState.put_backslash, hBackslash,
    Bool.toNat_true, Bool.toNat_false]
  omega

/-- The digits that are read as a number end before a NUL. -/
theorem mem_strtoul8 (hNul : NUL ∈ src) : NUL ∈ (strtoul8 src).2 := by
  let isOctal : Char → Bool := fun c => '0' ≤ c && c ≤ '7'
  have hDigits : src.takeWhile isOctal = src.take (src.takeWhile isOctal).length :=
    List.prefix_iff_eq_take.mp (List.takeWhile_prefix _)
  rw [← List.take_append_drop (src.takeWhile isOctal).length src, ← hDigits] at hNul
  rcases List.mem_append.mp hNul with hDigit | hRest
  · exact absurd (List.mem_takeWhile_imp hDigit) (by decide)
  · exact hRest

/-- The loop does not read past a NUL. -/
theorem breakLoop_isSome (delim : Option CString) (s : BreakState) (hNul : NUL ∈ src) :
    (breakLoop delim src s).isSome := by
  fun_induction breakLoop delim src s with
  | case1 => cases hNul
  | case2 c src s hDigit value ih => exact ih (mem_strtoul8 hNul)
  | case3 => rfl
  | case4 c src s hDigit s' hc ih => exact ih (List.mem_of_ne_of_mem (Ne.symm hc) hNul)

/-- A NUL ends a word, unless a quote is open. -/
theorem breakChar_nul (hBackslash : s.backslash = false) :
    breakChar delim s NUL =
      if s.dquote || s.squote then s.put NUL
      else if delim = none then s.finish
      else s.close := by
  cases delim <;> simp [breakChar, hBackslash, BreakState.finish, NUL]

/-- At the end of the string, the NUL may be stored for a backslash and then
again for the last word, or for one of these. -/
theorem breakChar_end
    (h : (breakChar delim s NUL).dquote = false ∧ (breakChar delim s NUL).squote = false) :
    (breakChar delim s NUL).finish.area.length ≤ s.budget (NUL :: src) := by
  simp only [BreakState.budget, List.length_cons]
  by_cases hBackslash : s.backslash = true
  · have hChar : breakChar delim s NUL = ({ s with backslash := false } : BreakState).put NUL := by
      simp only [breakChar, hBackslash, if_true]
      rfl
    have hFinish := (breakChar delim s NUL).finish_area_length
    have hPut : (breakChar delim s NUL).area.length = s.area.length + 1 := by
      rw [hChar, BreakState.put_area_length]
    rw [hBackslash, Bool.toNat_true]
    omega
  · have hFinish := s.finish_area_length
    rw [breakChar_nul (by simpa using hBackslash)] at h ⊢
    by_cases hQuoted : (s.dquote || s.squote) = true
    · rw [if_pos hQuoted] at h
      simp only [BreakState.put] at h
      simp [h] at hQuoted
    · rw [if_neg hQuoted]
      by_cases hDelim : delim = none
      · rw [if_pos hDelim, BreakState.finish_finish]
        omega
      · rw [if_neg hDelim, BreakState.close_finish, BreakState.close_area_length]
        omega

/-- The characters that the loop stores are no more than those it reads, also
with the NUL of the last word, and the words are no more than the characters. -/
theorem breakLoop_bounds (h : breakLoop delim src s = some s') :
    s'.area.length ≤ s.budget src ∧
      (s'.dquote = false ∧ s'.squote = false → s'.finish.area.length ≤ s.budget src) ∧
      s'.argv.length + s.area.length ≤ s.argv.length + s'.area.length := by
  fun_induction breakLoop delim src s with
  | case1 => cases h
  | case2 c src s hDigit value ih =>
      obtain ⟨hArea, hFinish, hArgv⟩ := ih h
      have hBudget := strtoul8_budget (s := s) c src (by simp_all)
      simp only [BreakState.put_argv, BreakState.put_area_length] at hArgv
      exact ⟨hArea.trans hBudget, fun hQuotes => (hFinish hQuotes).trans hBudget, by omega⟩
  | case3 src s hDigit s'' =>
      obtain rfl : breakChar delim s NUL = s' := Option.some.inj h
      obtain ⟨hBudget, hWords⟩ := breakChar_budget delim s NUL src
      refine ⟨?_, breakChar_end, by omega⟩
      rw [BreakState.budget] at hBudget
      omega
  | case4 c src s hDigit s'' hc ih =>
      obtain ⟨hArea, hFinish, hArgv⟩ := ih h
      obtain ⟨hBudget, hWords⟩ := breakChar_budget delim s c src
      refine ⟨hArea.trans hBudget, fun hQuotes => (hFinish hQuotes).trans hBudget, ?_⟩
      change _ + (breakChar delim s c).area.length ≤ (breakChar delim s c).argv.length + _ at hArgv
      omega

/-- What has been stored stays stored. -/
theorem breakLoop_grows (h : breakLoop delim src s = some s') :
    s.argv.length ≤ s'.argv.length ∧ s.area.length ≤ s'.area.length := by
  have hChar : ∀ (s : BreakState) (c : Char), s.argv.length ≤ (breakChar delim s c).argv.length ∧
      s.area.length ≤ (breakChar delim s c).area.length := by
    intro s c
    rcases breakChar_cases delim s c with ⟨-, hChar⟩ | ⟨-, ⟨-, hChar⟩ | ⟨-, -, hChar⟩ | ⟨-, -, hChar⟩ |
      ⟨-, -, hChar | hChar | hChar⟩⟩
    all_goals
      rw [hChar]
      simp [BreakState.put, BreakState.close]
  fun_induction breakLoop delim src s with
  | case1 => cases h
  | case2 c src s hDigit value ih =>
      obtain ⟨hArgv, hArea⟩ := ih h
      exact ⟨hArgv, (Nat.le_succ _).trans (by simpa using hArea)⟩
  | case3 src s hDigit s'' =>
      obtain rfl : s'' = s' := Option.some.inj h
      exact hChar s NUL
  | case4 c src s hDigit s'' hc ih =>
      obtain ⟨hArgv, hArea⟩ := ih h
      exact ⟨(hChar s c).1.trans hArgv, (hChar s c).2.trans hArea⟩

/-- A block with room for all that the loop stores in the end has room all the time. -/
theorem Block.loop_of_holds (h : breakLoop delim src s = some s') (hEnd : b.Holds s') :
    b.loop delim src s = some s' := by
  have hHolds : ∀ {s : BreakState} {src : List Char}, breakLoop delim src s = some s' → b.Holds s :=
    fun hRest => ⟨(breakLoop_grows hRest).1.trans hEnd.1, (breakLoop_grows hRest).2.trans hEnd.2⟩
  fun_induction breakLoop delim src s with
  | case1 => cases h
  | case2 c src s hDigit value ih =>
      rw [Block.loop, if_pos hDigit]
      exact (if_pos (hHolds h)).trans (ih h)
  | case3 src s hDigit s'' =>
      obtain rfl : s'' = s' := Option.some.inj h
      rw [Block.loop, if_neg hDigit]
      exact (if_pos hEnd).trans (if_pos rfl)
  | case4 c src s hDigit s'' hc ih =>
      rw [Block.loop, if_neg hDigit]
      exact (if_pos (hHolds h)).trans ((if_neg hc).trans (ih h))

/-- What is stored in a block is what the loop stores, and it has room for that. -/
theorem Block.loop_some (h : b.loop delim src s = some s') :
    breakLoop delim src s = some s' ∧ b.Holds s' := by
  fun_induction Block.loop b delim src s with
  | case1 => cases h
  | case2 c src s hDigit value s'' hHolds ih =>
      rw [breakLoop, if_pos hDigit]
      exact ih h
  | case3 => cases h
  | case4 src s hDigit s'' hHolds =>
      obtain rfl : s'' = s' := Option.some.inj h
      rw [breakLoop, if_neg hDigit]
      exact ⟨if_pos rfl, hHolds⟩
  | case5 c src s hDigit s'' hHolds hc ih =>
      obtain ⟨hLoop, hEnd⟩ := ih h
      rw [breakLoop, if_neg hDigit]
      exact ⟨(if_neg hc).trans hLoop, hEnd⟩
  | case6 => cases h

/-- A quotation mark opens or closes, unless the other kind is open. -/
theorem breakChar_flags (delim : Option CString) {c : Char} (hBackslash : s.backslash = false)
    (hc : c ≠ '\\') :
    (breakChar delim s c).backslash = false ∧
      (breakChar delim s c).dquote = (s.dquote ^^ (c = '"' && !s.squote)) ∧
      (breakChar delim s c).squote = (s.squote ^^ (c = '\'' && !s.dquote)) := by
  rcases breakChar_cases delim s c with ⟨hFlag, -⟩ | ⟨-, ⟨hSlash, -⟩ | ⟨rfl, hOut, hChar⟩ |
    ⟨rfl, hOut, hChar⟩ | ⟨hDouble, hSingle, hChar⟩⟩
  · rw [hBackslash] at hFlag
    cases hFlag
  · exact absurd hSlash hc
  · rw [hChar]
    simp [hBackslash, hOut]
  · rw [hChar]
    simp [hBackslash, hOut]
  · have hNoDouble : (decide (c = '"') && !s.squote) = false := by simpa using hDouble
    have hNoSingle : (decide (c = '\'') && !s.dquote) = false := by simpa using hSingle
    rw [hNoDouble, hNoSingle, Bool.xor_false, Bool.xor_false]
    rcases hChar with hChar | hChar | hChar
    all_goals
      rw [hChar]
      exact ⟨hBackslash, rfl, rfl⟩

/-- The loop ends between quotation marks just if one is open. -/
theorem breakLoop_quotes {dquote squote : Bool} (hBackslash : s.backslash = false)
    (hDquote : s.dquote = dquote) (hSquote : s.squote = squote) (hNul : NUL ∉ src)
    (h : breakLoop delim (src ++ [NUL]) s = some s') :
    (s'.dquote || s'.squote) = openQuote dquote squote src := by
  fun_induction openQuote dquote squote src generalizing s with
  | case1 dquote squote =>
      have hChar : breakChar delim s NUL = s' := by
        rw [List.nil_append, breakLoop] at h
        simpa [hBackslash] using h
      obtain ⟨-, hD, hS⟩ := breakChar_flags delim (c := NUL) hBackslash (by decide)
      rw [← hChar, hD, hS, hDquote, hSquote]
      simp [NUL]
  | case2 dquote squote src ih =>
      have hRest : NUL ∉ src := (not_or.mp (List.mem_cons.not.mp hNul)).2
      obtain ⟨v, -, hEscape⟩ := breakLoop_escape delim hBackslash hRest
      rw [hEscape] at h
      split at h
      · next hEnd =>
          obtain rfl := Option.some.inj h
          subst hEnd
          simp [afterEscape, openQuote, BreakState.put, hDquote, hSquote]
      · exact ih (s := s.put v) hBackslash hDquote hSquote
          (fun hMem => hRest (mem_afterEscape hMem)) h
  | case3 dquote squote c src hc hDouble ih | case4 dquote squote c src hc hDouble hSingle ih =>
      obtain ⟨hHead, hRest⟩ := not_or.mp (List.mem_cons.not.mp hNul)
      obtain ⟨hFlag, hD, hS⟩ := breakChar_flags delim hBackslash hc
      rw [List.cons_append, breakLoop_cons (by simp [hBackslash]) (Ne.symm hHead)] at h
      exact ih hFlag (hD.trans (by simp_all)) (hS.trans (by simp_all)) hRest h
  | case5 dquote squote c src hc hDouble hSingle ih =>
      obtain ⟨hHead, hRest⟩ := not_or.mp (List.mem_cons.not.mp hNul)
      obtain ⟨hFlag, hD, hS⟩ := breakChar_flags delim hBackslash hc
      rw [hDquote, hSquote, eq_false_of_ne_true hDouble, Bool.xor_false] at hD
      rw [hDquote, hSquote, eq_false_of_ne_true hSingle, Bool.xor_false] at hS
      rw [List.cons_append, breakLoop_cons (by simp [hBackslash]) (Ne.symm hHead)] at h
      exact ih hFlag hD hS hRest h

end

/-- What a string is given whose length is well within an `int`: a pointer for
every character, one for the NUL and one for the NULL, and the copy. -/
theorem breakSizes_of_lt {n : Nat} (hn : n + 2 < 2 ^ 31) :
    breakSizes n = some ⟨n + 2, .ofNat (9 * n + 17)⟩ ∧
      BreakSizes.block ⟨n + 2, .ofNat (9 * n + 17)⟩ = some ⟨n + 2, n + 1⟩ := by
  have hInt : srclen n = n := Int32.toInt_ofNat_of_lt (by omega)
  have hMax : Int32.maxValue.toInt = 2 ^ 31 - 1 := by decide
  constructor
  · have hFits : ¬ (n : Int) + 2 > Int32.maxValue.toInt := by omega
    have hBytes : UInt64.ofInt (8 * ((n : Int) + 2) + (n + 1)) = .ofNat (9 * n + 17) := by
      have hSum : (8 * ((n : Int) + 2) + (n + 1)) % 2 ^ 64 = (9 * n + 17 : Nat) := by omega
      rw [UInt64.ofInt, hSum, Int.toNat_natCast]
    rw [breakSizes, hInt, if_neg hFits, hBytes]
  · have hInside : ¬ (n : Int) + 2 < 0 := by omega
    have hBytes : (UInt64.ofNat (9 * n + 17)).toNat = 9 * n + 17 :=
      UInt64.toNat_ofNat_of_lt (show 9 * n + 17 < 2 ^ 64 by omega)
    simp only [BreakSizes.block, if_neg hInside, Option.some.injEq, Block.mk.injEq, hBytes]
    omega

/-- A longer string's copy does not fit, or its word has no pointer. -/
theorem breakSizes_of_le {n : Nat} {sizes : BreakSizes} {b : Block} (hn : 2 ^ 31 ≤ n + 2)
    (hSizes : breakSizes n = some sizes) (hBlock : sizes.block = some b) :
    b.argcmax = 0 ∨ b.room ≤ n := by
  have hInt : srclen n ≤ n ∧ (srclen n < 2 ^ 31 - 2 → srclen n < n) := by
    have hMod : srclen n = (n : Int).bmod (2 ^ 32) := Int32.toInt_ofNat'
    rw [hMod, Int.bmod_def]
    split <;> omega
  have hMax : Int32.maxValue.toInt = 2 ^ 31 - 1 := by decide
  rw [breakSizes] at hSizes
  generalize srclen n = len at hInt hSizes
  split at hSizes
  · cases hSizes
  · next hFits =>
      obtain rfl := Option.some.inj hSizes
      rw [BreakSizes.block] at hBlock
      split at hBlock
      · cases hBlock
      · next hInside =>
          obtain rfl := Option.some.inj hBlock
          have hBytes := Signed.ofInt_toNat (8 * (len + 2) + (len + 1))
          simp only at hInside ⊢
          omega

/-- The loop gets to the end of the string. With the last word, the characters
and the words are no more than those of the string and its NUL. -/
theorem breakLoop_scan (src : CString) (delim : Option CString) :
    ∃ s, breakLoop delim (src ++ [NUL]) .start = some s ∧
      s.area.length ≤ src.length + 1 ∧ s.argv.length ≤ src.length + 1 ∧
      (s.dquote = false ∧ s.squote = false →
        s.finish.area.length ≤ src.length + 1 ∧ s.finish.argv.length ≤ src.length + 1) := by
  have hNul : NUL ∈ src ++ [NUL] := List.mem_append_right src (List.mem_singleton_self NUL)
  obtain ⟨s, hScan⟩ := Option.isSome_iff_exists.mp (breakLoop_isSome delim .start hNul)
  obtain ⟨hArea, hFinish, hWords⟩ := breakLoop_bounds hScan
  have hStart : BreakState.start.budget (src ++ [NUL]) = src.length + 1 := by
    simp [BreakState.budget, BreakState.start]
  have hNone : BreakState.start.argv.length = 0 ∧ BreakState.start.area.length = 0 := ⟨rfl, rfl⟩
  have hLast := s.finish_words
  rw [hStart] at hArea hFinish
  refine ⟨s, hScan, hArea, by omega, fun hQuotes => ⟨hFinish hQuotes, ?_⟩⟩
  have := hFinish hQuotes
  omega

/-- If `malloc` gives what a string of such a length takes, `clp_breakargs` does
as it would without regard to its block. -/
theorem clpBreakargsIn_eq {malloc : UInt64 → Bool} {src : CString} (delim : Option CString)
    (hMalloc : malloc (.ofNat (9 * src.length + 17)) = true) (hLength : src.length + 2 < 2 ^ 31) :
    clpBreakargsIn malloc (some src) delim = clpBreakargs (some src) delim := by
  obtain ⟨hSizes, hBlock⟩ := breakSizes_of_lt hLength
  obtain ⟨s, hScan, hArea, hWords, hFinish⟩ := breakLoop_scan src delim
  let b : Block := ⟨src.length + 2, src.length + 1⟩
  have hLoop : b.loop delim (src ++ [NUL]) .start = some s :=
    Block.loop_of_holds hScan ⟨Nat.le_succ_of_le hWords, hArea⟩
  have hResult : b.result s = if s.dquote || s.squote then some (EX_DATAERR, none) else
      some (0, some ⟨s.finish.argv.length, s.finish.argv.map some ++ [none], s.finish.area⟩) := by
    rw [Block.result]
    split
    · rfl
    · next hQuotes =>
        obtain ⟨hArea, hWords⟩ := hFinish (by simpa using hQuotes)
        exact if_pos ⟨⟨Nat.le_succ_of_le hWords, hArea⟩, Nat.lt_succ_of_le hWords⟩
  simp only [clpBreakargsIn, hSizes, hMalloc, if_true, hBlock, Option.bind_some]
  rw [show (b.loop delim (src ++ [NUL]) .start) = some s from hLoop, Option.bind_some, hResult]
  rw [clpBreakargs, hScan, Option.map_some]
  split <;> rfl

/-- The scan ends, and stores no more characters and words than the string and
its NUL have, all of them in the block. The result is EX_DATAERR with a NULL
just if a quotation mark is open at the end. -/
def BreakBounded (malloc : UInt64 → Bool) (src : CString) (delim : Option CString) : Prop :=
  ∃ s rc out, breakLoop delim (src ++ [NUL]) .start = some s ∧
    s.area.length ≤ src.length + 1 ∧ s.argv.length ≤ src.length + 1 ∧
    clpBreakargsIn malloc (some src) delim = some (rc, out) ∧
    (∀ b ∈ out, b.area.length ≤ src.length + 1 ∧ b.argc ≤ src.length + 1) ∧
    ((rc = EX_DATAERR ∧ out = none) ↔ openQuote false false src = true)

/-- Well within an `int`, all parts of the scan keep to the block. -/
theorem breakBounded_of_lt {malloc : UInt64 → Bool} {src : CString} (delim : Option CString)
    (hMalloc : malloc (.ofNat (9 * src.length + 17)) = true) (hLength : src.length + 2 < 2 ^ 31)
    (hNul : NUL ∉ src) : BreakBounded malloc src delim := by
  obtain ⟨s, hScan, hArea, hWords, hFinish⟩ := breakLoop_scan src delim
  have hQuotes : (s.dquote || s.squote) = openQuote false false src :=
    breakLoop_quotes rfl rfl rfl hNul hScan
  have hResult := clpBreakargsIn_eq delim hMalloc hLength
  rw [clpBreakargs, hScan, Option.map_some, hQuotes] at hResult
  by_cases hOpen : openQuote false false src = true
  · rw [if_pos hOpen] at hResult
    exact ⟨s, EX_DATAERR, none, hScan, hArea, hWords, hResult, by simp, by simp [hOpen]⟩
  · rw [if_neg hOpen] at hResult
    refine ⟨s, 0, _, hScan, hArea, hWords, hResult, ?_, by simp [hOpen]⟩
    rintro b hb
    obtain rfl := Option.some.inj hb
    exact hFinish (by simpa [hOpen] using hQuotes)

/-- So many letters make one word. -/
theorem breakLoop_letters (n : Nat) {s : BreakState} (h : s.Plain)
    (hWord : s.prev < s.area.length + n) :
    breakLoop none (List.replicate n 'a' ++ [NUL]) s = some (s.puts (List.replicate n 'a')).close := by
  induction n generalizing s with
  | zero =>
      have hPuts : s.puts [] = s := by simp [BreakState.puts]
      rw [List.replicate_zero, List.nil_append, hPuts]
      exact breakLoop_end h fun _ => hWord
  | succ n ih =>
      have hPut : breakChar none s 'a' = s.put 'a' := by
        simp [breakChar, h.backslash, h.dquote, h.squote, NUL, isspace]
      have hNext : (s.put 'a').puts (List.replicate n 'a') = s.puts (List.replicate (n + 1) 'a') := by
        simp [BreakState.put, BreakState.puts, List.replicate_succ]
      rw [List.replicate_succ, List.cons_append, breakLoop_cons (by simp [h.backslash]) (by decide),
        hPut, ih (s := s.put 'a') h.puts, hNext, List.replicate_succ]
      simp only [BreakState.put_area_length]
      exact hWord.trans_le (by omega)

theorem nul_notMem_letters (n : Nat) : NUL ∉ List.replicate n 'a' := by
  simp [NUL]

theorem openQuote_letters (n : Nat) : openQuote true false (List.replicate n 'a') = true := by
  induction n with
  | zero => simp [openQuote]
  | succ n ih => simpa [List.replicate_succ, openQuote] using ih

/-- If `malloc` gives what is asked for a longer string, its only word is stored
out of bounds. -/
theorem letters_overrun {malloc : UInt64 → Bool} {n : Nat} (hn : 2 ^ 31 ≤ n + 2)
    (hMalloc : ∀ sizes, breakSizes n = some sizes → malloc sizes.argvsz = true) :
    ¬ BreakBounded malloc (List.replicate n 'a') none := by
  rintro ⟨-, rc, out, -, -, -, hResult, -, -⟩
  simp only [clpBreakargsIn, List.length_replicate] at hResult
  cases hSizes : breakSizes n with
  | none =>
      rw [hSizes] at hResult
      cases hResult
  | some sizes =>
      simp only [hSizes, hMalloc sizes hSizes, if_true, Option.bind_eq_some_iff] at hResult
      obtain ⟨b, hBlock, s, hLoop, -⟩ := hResult
      obtain ⟨hScan, hWords, hArea⟩ := Block.loop_some hLoop
      have hPos : 0 < n := by omega
      rw [breakLoop_letters n ⟨rfl, rfl, rfl⟩ (by simpa [BreakState.start] using hPos)] at hScan
      obtain rfl := Option.some.inj hScan
      have hOne : 1 ≤ b.argcmax := by simpa [BreakState.puts, BreakState.start] using hWords
      have hMore : n + 1 ≤ b.room := by simpa [BreakState.puts, BreakState.start] using hArea
      rcases breakSizes_of_le hn hSizes hBlock with hNone | hSmall
      · omega
      · omega

/-- For a string of a length outside the range, `clp_breakargs` stores out of
bounds or fails for lack of memory that it does not take. -/
theorem breakBounded_fails (malloc : UInt64 → Bool) {n : Nat} (hn : 2 ^ 31 ≤ n + 2) :
    ∃ src : CString, NUL ∉ src ∧ src.length = n ∧ ¬ BreakBounded malloc src none := by
  by_cases hMalloc : ∀ sizes, breakSizes n = some sizes → malloc sizes.argvsz = true
  · exact ⟨List.replicate n 'a', nul_notMem_letters n, List.length_replicate,
      letters_overrun hn hMalloc⟩
  · obtain ⟨sizes, hSizes, hRefused⟩ : ∃ sizes, breakSizes n = some sizes ∧
        malloc sizes.argvsz = false := by simpa using hMalloc
    have hLength : ('"' :: List.replicate (n - 1) 'a').length = n := by
      rw [List.length_cons, List.length_replicate]
      omega
    have hOpen : openQuote false false ('"' :: List.replicate (n - 1) 'a') = true := by
      rw [openQuote]
      simpa using openQuote_letters (n - 1)
    refine ⟨'"' :: List.replicate (n - 1) 'a', by simp [NUL], hLength, ?_⟩
    rintro ⟨-, rc, out, -, -, -, hResult, -, hQuote⟩
    simp only [clpBreakargsIn, hLength, hSizes, hRefused] at hResult
    obtain ⟨rfl, -⟩ := Prod.mk.inj (Option.some.inj hResult)
    exact absurd (hQuote.mpr hOpen).1 (by decide)

/-- With the memory that they take, all strings of one length are broken within
bounds just if `srclen + 2` is an `int` for that length. -/
theorem breakargs_bounded_iff (malloc : UInt64 → Bool) (n : Nat)
    (hMalloc : malloc (.ofNat (9 * n + 17)) = true) :
    (∀ src delim, NUL ∉ src → src.length = n → BreakBounded malloc src delim) ↔
      n + 2 < 2 ^ 31 := by
  constructor
  · intro hAll
    by_contra hLong
    obtain ⟨src, hNul, hLength, hFails⟩ := breakBounded_fails malloc (Nat.le_of_not_lt hLong)
    exact hFails (hAll src none hNul hLength)
  · rintro hShort src delim hNul rfl
    exact breakBounded_of_lt delim hMalloc hShort hNul

/-- A `malloc` that has memory for requests of less than 2 ^ 47 bytes. -/
def addressable (size : UInt64) : Bool := size < 2 ^ 47

theorem breakargs_bounded_iff_quoted : BreakBounded addressable ['"', 'a'] (some [',']) :=
  (breakargs_bounded_iff addressable 2 (by decide)).mpr (by decide) ['"', 'a'] (some [','])
    (by decide) rfl

/-- The length of 2 ^ 32 letters is zero as an `int`: the block that is asked for
has room for two pointers and one character. -/
theorem breakargs_overrun :
    ¬ ∀ src delim, NUL ∉ src → BreakBounded addressable src delim := by
  intro hAll
  have hSizes : breakSizes (2 ^ 32) = some ⟨2, 17⟩ := by decide
  have hGiven : ∀ sizes, breakSizes (2 ^ 32) = some sizes → addressable sizes.argvsz = true := by
    intro sizes h
    obtain rfl := Option.some.inj (hSizes.symm.trans h)
    decide
  have hLong : 2 ^ 31 ≤ 2 ^ 32 + 2 := by omega
  exact letters_overrun hLong hGiven (hAll (List.replicate (2 ^ 32) 'a') none (nul_notMem_letters _))

end Nct
