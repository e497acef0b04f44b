import Nct.BreakBounds

/-! Words that are quoted, joined and broken again, in the block of memory that
`clp_breakargs` takes for a string of that length. -/
namespace Nct

/-- For a string of `n` characters, the length as an `int` is one for which there is
a block, the words fit into it with their NULs, and `malloc` gives it. -/
def RoomFor (malloc : UInt64 → Bool) (words : List CString) (n : Nat) : Prop :=
  n % 2 ^ 32 + 2 < 2 ^ 31 ∧ wordsLength words ≤ n % 2 ^ 32 + 1 ∧
    malloc (.ofNat (9 * (n % 2 ^ 32) + 17)) = true

instance (malloc : UInt64 → Bool) (words : List CString) (n : Nat) :
    Decidable (RoomFor malloc words n) := by
  unfold RoomFor
  infer_instance

/-- `clp_breakargs` returns 0 and these words. -/
def Gives (res : Option (Int × Option Broken)) (words : List CString) : Prop :=
  ∃ b, res = some (0, some b) ∧ b.argc = words.length ∧ b.strings = words.map some ++ [none]

/-- Only the length as an `int` matters. -/
theorem breakSizes_mod (n : Nat) : breakSizes n = breakSizes (n % 2 ^ 32) := by
  have hSame : Int32.ofNat n = Int32.ofNat (n % 2 ^ 32) := by
    rw [← Int32.toBitVec_inj]
    apply BitVec.eq_of_toNat_eq
    simp
  rw [breakSizes, breakSizes, srclen, srclen, hSame]

/-- A length that is negative as an `int` leaves no pointer for a word. -/
theorem argcmax_le_one {n : Nat} {sizes : BreakSizes} {b : Block} (hn : 2 ^ 31 ≤ n + 2)
    (hMod : n < 2 ^ 32) (hSizes : breakSizes n = some sizes) (hBlock : sizes.block = some b) :
    b.argcmax ≤ 1 := by
  have hInt : srclen n = n - 2 ^ 32 ∨ 2 ^ 31 - 2 ≤ srclen n := by
    have hBmod : srclen n = (n : Int).bmod (2 ^ 32) := Int32.toInt_ofNat'
    rw [hBmod, Int.bmod_def]
    split <;> omega
  have hMax : Int32.maxValue.toInt = 2 ^ 31 - 1 := by decide
  rw [breakSizes] at hSizes
  split at hSizes
  · cases hSizes
  · obtain rfl := Option.some.inj hSizes
    rw [BreakSizes.block] at hBlock
    split at hBlock
    · cases hBlock
    · obtain rfl := Option.some.inj hBlock
      simp only
      omega

/-- A word is no longer than what is between its quotes. -/
theorem quoted_length (word : CString) : word.length + 2 ≤ (quoted word).length := by
  have hChars : word.length ≤
      (word.flatMap fun c => if c = '"' ∨ c = '\\' then ['\\', c] else [c]).length := by
    induction word with
    | nil => exact le_rfl
    | cons c word ih =>
        rw [List.flatMap_cons, List.length_append, List.length_cons]
        split <;> simp only [List.length_cons, List.length_nil] <;> omega
  simp only [quoted, List.length_cons, List.length_append, List.length_nil]
  omega

/-- Each word has its NUL. -/
theorem length_le_wordsLength (words : List CString) : words.length ≤ wordsLength words := by
  induction words with
  | nil => exact Nat.le_refl 0
  | cons word words ih =>
      rw [List.length_cons, wordsLength]
      omega

/-- The words and their NULs are no longer than what they are written as. -/
theorem wordsLength_le (words seps : List CString) (hLength : seps.length = words.length - 1) :
    wordsLength words ≤ (joined words seps).length := by
  cases words with
  | nil => exact Nat.zero_le _
  | cons word words =>
      have hRest : wordsLength words ≤
          (List.zipWith (fun sep word => sep ++ quoted word) seps words).flatten.length := by
        replace hLength : seps.length = words.length := hLength
        induction words generalizing seps with
        | nil => exact Nat.zero_le _
        | cons word words ih =>
            obtain ⟨sep, seps, rfl⟩ := List.exists_cons_of_length_eq_add_one hLength
            have hMore := ih seps (Nat.succ.inj hLength)
            have hWord := quoted_length word
            simp only [wordsLength, List.zipWith_cons_cons, List.flatten_cons, List.length_append]
              at hMore ⊢
            omega
      have hWord := quoted_length word
      simp only [wordsLength, joined, List.length_append] at hRest ⊢
      omega

section
variable {malloc : UInt64 → Bool} {delim : Option CString} {words seps : List CString}
  {s : BreakState} {src : CString}

/-- Where there is room, the words come out. -/
theorem gives_of_room (hLoop : breakLoop delim (src ++ [NUL]) .start = some s)
    (h : s.Between words) (hArea : s.area.length = wordsLength words)
    (hRoom : RoomFor malloc words src.length) :
    Gives (clpBreakargsIn malloc (some src) delim) words := by
  obtain ⟨hFits, hWords, hMalloc⟩ := hRoom
  have hMod := breakSizes_mod src.length
  generalize src.length % 2 ^ 32 = n at hFits hWords hMalloc hMod
  obtain ⟨hSizes, hBlock⟩ := breakSizes_of_lt hFits
  have hArgc : s.argv.length = words.length := by simpa using congrArg List.length (h.words [])
  have hCount := length_le_wordsLength words
  have hFinish : s.finish = s := if_neg (by simp [h.prev])
  let b : Block := ⟨n + 2, n + 1⟩
  have hHolds : b.Holds s := ⟨by simp only [b]; omega, by simp only [b]; omega⟩
  refine ⟨⟨s.argv.length, s.argv.map some ++ [none], s.area⟩, ?_, hArgc, ?_⟩
  · simp only [clpBreakargsIn, hMod, hSizes, hMalloc, if_true, hBlock, Option.bind_some]
    rw [show (b.loop delim (src ++ [NUL]) .start) = some s from Block.loop_of_holds hLoop hHolds]
    have hVector : b.Holds s ∧ s.argv.length < b.argcmax := ⟨hHolds, by simp only [b]; omega⟩
    simp only [Option.bind_some, Block.result, h.dquote, h.squote, hFinish, Bool.or_self,
      Bool.false_eq_true, if_false]
    exact if_pos hVector
  · have hStrings := h.words []
    rw [List.append_nil] at hStrings
    simp [Broken.strings, ← hStrings, Function.comp_def]

/-- Words that come out have had room. -/
theorem room_of_gives (hLoop : breakLoop delim (src ++ [NUL]) .start = some s)
    (h : s.Between words) (hArea : s.area.length = wordsLength words)
    (hWords : words = [] → src = [])
    (hGives : Gives (clpBreakargsIn malloc (some src) delim) words) :
    RoomFor malloc words src.length := by
  obtain ⟨out, hOut, -⟩ := hGives
  have hMod : src.length % 2 ^ 32 < 2 ^ 32 := Nat.mod_lt _ (by decide)
  have hEmpty : words = [] → src.length % 2 ^ 32 = 0 := fun hNone => by simp [hWords hNone]
  simp only [clpBreakargsIn] at hOut
  rw [breakSizes_mod src.length] at hOut
  rw [RoomFor]
  generalize src.length % 2 ^ 32 = n at hMod hEmpty hOut ⊢
  cases hSizes : breakSizes n with
  | none => simp [hSizes] at hOut
  | some sizes =>
      simp only [hSizes] at hOut
      split at hOut
      · next hMalloc =>
          obtain ⟨b, hBlock, hOut⟩ := Option.bind_eq_some_iff.mp hOut
          obtain ⟨s', hScan, hResult⟩ := Option.bind_eq_some_iff.mp hOut
          obtain ⟨hLoop', hHolds⟩ := Block.loop_some hScan
          obtain rfl : s = s' := Option.some.inj (hLoop.symm.trans hLoop')
          have hFinish : s.finish = s := if_neg (by simp [h.prev])
          have hArgc : s.argv.length = words.length := by
            simpa using congrArg List.length (h.words [])
          simp only [Block.result, h.dquote, h.squote, hFinish, Bool.or_self, Bool.false_eq_true,
            if_false, Option.ite_none_right_eq_some] at hResult
          obtain ⟨⟨-, hVector⟩, -⟩ := hResult
          have hFits : n + 2 < 2 ^ 31 := by
            by_contra hLong
            have hOne := argcmax_le_one (Nat.le_of_not_lt hLong) hMod hSizes hBlock
            have hNone : words = [] := List.eq_nil_of_length_eq_zero (by omega)
            have hZero := hEmpty hNone
            omega
          obtain ⟨hSizes', hBlock'⟩ := breakSizes_of_lt hFits
          obtain rfl := Option.some.inj (hSizes.symm.trans hSizes')
          obtain rfl := Option.some.inj (hBlock.symm.trans hBlock')
          exact ⟨hFits, hArea ▸ hHolds.2, hMalloc⟩
      · cases hOut

end

/-- Words that are quoted and joined are what `clp_breakargs` gives just if it has
room for them, as it has for every string whose length is well within an `int`. Empty
words are for a `delim` only, which has no quotes and no backslash in it. -/
theorem breakargsIn_joined_iff (malloc : UInt64 → Bool) (delim : Option CString)
    (words seps : List CString)
    (hDelim : ∀ chars ∈ delim, ∀ c ∈ chars, c ≠ '\\' ∧ c ≠ '"' ∧ c ≠ '\'' ∧ c ≠ NUL)
    (hWord : ∀ word ∈ words, NUL ∉ word ∧ (delim = none → word ≠ []))
    (hNone : words = [] → delim = none) (hSep : ∀ sep ∈ seps, Separates delim sep)
    (hLength : seps.length = words.length - 1) :
    (Gives (clpBreakargsIn malloc (some (joined words seps)) delim) words ↔
      RoomFor malloc words (joined words seps).length) ∧
    ((joined words seps).length + 2 < 2 ^ 31 →
      malloc (.ofNat (9 * (joined words seps).length + 17)) = true →
      RoomFor malloc words (joined words seps).length) := by
  obtain ⟨s, hLoop, hBetween, hArea⟩ := breakLoop_words hDelim hWord hNone hSep hLength
  refine ⟨⟨room_of_gives hLoop hBetween hArea ?_, gives_of_room hLoop hBetween hArea⟩, ?_⟩
  · rintro rfl
    rfl
  · intro hShort hMalloc
    have hSame : (joined words seps).length % 2 ^ 32 = (joined words seps).length :=
      Nat.mod_eq_of_lt (by omega)
    have hWords := wordsLength_le words seps hLength
    rw [RoomFor, hSame]
    exact ⟨hShort, by omega, hMalloc⟩

/-- Two words, with a blank, a quote and a backslash in them. -/
theorem breakargsIn_joined_iff_two :
    Gives (clpBreakargsIn addressable (some (joined [['a', ' '], ['"', '\\']] [[' ', '\t']])) none)
      [['a', ' '], ['"', '\\']] :=
  (breakargsIn_joined_iff addressable none [['a', ' '], ['"', '\\']] [[' ', '\t']] (by simp)
    (by decide) (by simp) (by simp [Separates, isspace]) rfl).1.mpr (by decide)

theorem joined_letters (n : Nat) : (joined [List.replicate n 'a'] []).length = n + 2 := by
  have hPlain : ((List.replicate n 'a').flatMap
      fun c => if c = '"' ∨ c = '\\' then ['\\', c] else [c]) = List.replicate n 'a' := by
    induction n with
    | zero => rfl
    | succ n ih => simp [List.replicate_succ, ih]
  simp [joined, quoted, hPlain]

/-- So long a word has no room, with or without what it is written with. -/
theorem not_roomFor_letters {malloc : UInt64 → Bool} {n : Nat} (hn : 2 ^ 32 ≤ n) :
    ¬ RoomFor malloc [List.replicate n 'a'] (n + 2) := by
  rintro ⟨-, hFits, -⟩
  simp only [wordsLength, List.length_replicate] at hFits
  omega

/-- A word of 2 ^ 32 letters is written as a string whose length is 2 as an `int`. -/
theorem breakargsIn_joined_letters :
    ¬ ∀ (delim : Option CString) (words seps : List CString),
      (∀ chars ∈ delim, ∀ c ∈ chars, c ≠ '\\' ∧ c ≠ '"' ∧ c ≠ '\'' ∧ c ≠ NUL) →
      (∀ word ∈ words, NUL ∉ word ∧ (delim = none → word ≠ [])) →
      (words = [] → delim = none) → (∀ sep ∈ seps, Separates delim sep) →
      seps.length = words.length - 1 →
      Gives (clpBreakargsIn addressable (some (joined words seps)) delim) words := by
  intro h
  obtain ⟨n, hn⟩ : ∃ n : Nat, n = 2 ^ 32 := ⟨_, rfl⟩
  have hNe : List.replicate n 'a' ≠ [] := List.ne_nil_of_length_pos (by simp; omega)
  have hDelim : ∀ chars ∈ (none : Option CString), ∀ c ∈ chars,
      c ≠ '\\' ∧ c ≠ '"' ∧ c ≠ '\'' ∧ c ≠ NUL := by simp
  have hWord : ∀ word ∈ [List.replicate n 'a'],
      NUL ∉ word ∧ ((none : Option CString) = none → word ≠ []) := by
    intro word hMem
    obtain rfl := List.mem_singleton.mp hMem
    exact ⟨nul_notMem_letters n, fun _ => hNe⟩
  have hSep : ∀ sep ∈ ([] : List CString), Separates none sep := by simp
  obtain ⟨s, hLoop, hBetween, hArea⟩ := breakLoop_words hDelim hWord (by simp) hSep rfl
  have hGives := h none [List.replicate n 'a'] [] hDelim hWord (by simp) hSep rfl
  have hRoom := room_of_gives hLoop hBetween hArea (by simp) hGives
  rw [joined_letters] at hRoom
  exact not_roomFor_letters hn.ge hRoom

end Nct
