import Nct.Convert

/-! Which arguments a conversion accepts, and the numbers that it stores for them. -/
namespace Nct

section
variable (tmpl : CvtTmpl) (libc : Libc)

/-- A numeral, and after it nothing or one suffix. -/
def CvtTmpl.WellFormed (tok : CString) : Prop :=
  ∃ val rest, numeral libc tok = some (val, rest) ∧
    (rest = [] ∨ ∃ c, rest = [c] ∧ (tmpl.suftab.lookup c).isSome)

/-- A numeral, a suffix, and more text after it. -/
def CvtTmpl.Trails (tok : CString) : Prop :=
  ∃ val c rest, numeral libc tok = some (val, c :: rest) ∧ (tmpl.suftab.lookup c).isSome ∧ rest ≠ []

/-- A numeral is finite, and its product within the limits. -/
def CvtTmpl.InRange (tok : CString) : Prop :=
  (strtold libc.ld tok).2.2 = 0 ∧
    ∀ val, tmpl.product libc tok = some val → ∃ q, val = .finite q ∧ tmpl.Within (.finite q)

def CvtTmpl.Holds (tok : CString) (x : Int) : Prop :=
  (tok = [] ∧ x = 0) ∨ ∃ q, tmpl.product libc tok = some (.finite q) ∧ x = truncate q

variable {tmpl libc} {tok : CString}

/-- There is a product for a token that is well formed, and for one with more text
after its suffix. -/
theorem product_isSome :
    (tmpl.product libc tok).isSome ↔ tmpl.WellFormed libc tok ∨ tmpl.Trails libc tok := by
  simp only [CvtTmpl.product, CvtTmpl.WellFormed, CvtTmpl.Trails]
  cases hNumeral : numeral libc tok with
  | none => simp
  | some read =>
      obtain ⟨val, rest⟩ := read
      rw [Option.bind_some]
      cases rest with
      | nil => simp
      | cons c rest =>
          by_cases hRest : rest = [] <;> simp [hRest]

theorem not_wellFormed_and_trails (hWell : tmpl.WellFormed libc tok) : ¬ tmpl.Trails libc tok := by
  rintro ⟨val, c, rest, hNumeral, -, hRest⟩
  obtain ⟨val', rest', hNumeral', hEnd⟩ := hWell
  rw [hNumeral] at hNumeral'
  obtain ⟨rfl, rfl⟩ := Prod.mk.inj (Option.some.inj hNumeral')
  rcases hEnd with hNil | ⟨c', hOne, -⟩
  · cases hNil
  · exact hRest (List.cons.inj hOne).2

theorem accepts_iff (hRange : tmpl.InRange libc tok) :
    tmpl.Accepts libc tok ↔ (tmpl.product libc tok).isSome := by
  rw [CvtTmpl.Accepts, Option.isSome_iff_exists]
  constructor
  · rintro ⟨-, val, hProduct, -⟩
    exact ⟨val, hProduct⟩
  · rintro ⟨val, hProduct⟩
    obtain ⟨q, rfl, hWithin⟩ := hRange.2 val hProduct
    exact ⟨hRange.1, .finite q, hProduct, hWithin⟩

theorem element_holds {q : ℚ} (hProduct : tmpl.product libc tok = some (.finite q)) :
    tmpl.element libc tok = truncate q := by
  rw [CvtTmpl.element, hProduct]
  rfl

end

section
variable (tmpl : CvtTmpl) (libc : Libc) (parms : Option ClpVector) (optarg : CString) (dst : Nat → Int)

/-- A conversion succeeds just for at most as many well formed tokens as there is room
for, among which delimiters may leave empty ones, and then stores the number of each. -/
def GrammarRight : Prop :=
  ((clpCvt tmpl libc (some optarg) parms dst).rc = 0 ↔
    ((vectorOf parms).tokens optarg).length ≤ (vectorOf parms).size ∧
      ∀ tok ∈ (vectorOf parms).tokens optarg,
        ((vectorOf parms).Splits optarg ∧ tok = []) ∨ tmpl.WellFormed libc tok) ∧
  ((clpCvt tmpl libc (some optarg) parms dst).rc = 0 →
    (clpCvt tmpl libc (some optarg) parms dst).len = some ((vectorOf parms).tokens optarg).length ∧
      ∀ i tok, ((vectorOf parms).tokens optarg)[i]? = some tok →
        tmpl.Holds libc tok ((clpCvt tmpl libc (some optarg) parms dst).data i))

/-- There is room for all tokens, and each of them is empty or starts with a well
formed one, which in some of them is not the whole token. -/
def TrailsOnly : Prop :=
  ((vectorOf parms).tokens optarg).length ≤ (vectorOf parms).size ∧
    (∀ tok ∈ (vectorOf parms).tokens optarg, ((vectorOf parms).Splits optarg ∧ tok = []) ∨
      tmpl.WellFormed libc tok ∨ tmpl.Trails libc tok) ∧
    ∃ tok ∈ (vectorOf parms).tokens optarg, tmpl.Trails libc tok

/-- Where all numerals are in range, the grammar is right just if no token has text
after its suffix, or the argument is rejected for something else. -/
theorem grammar_right_iff (h : ∀ tok ∈ (vectorOf parms).tokens optarg, tmpl.InRange libc tok) :
    GrammarRight tmpl libc parms optarg dst ↔ ¬ TrailsOnly tmpl libc parms optarg := by
  obtain ⟨hRc, hStored⟩ := clpCvt_spec tmpl libc parms optarg dst
  have hPasses : (∀ tok ∈ (vectorOf parms).tokens optarg,
      ((vectorOf parms).Splits optarg ∧ tok = []) ∨ tmpl.Accepts libc tok) ↔
      ∀ tok ∈ (vectorOf parms).tokens optarg, ((vectorOf parms).Splits optarg ∧ tok = []) ∨
        tmpl.WellFormed libc tok ∨ tmpl.Trails libc tok := by
    refine forall_congr' fun tok => forall_congr' fun hTok => ?_
    rw [accepts_iff (h tok hTok), product_isSome]
  rw [hPasses] at hRc
  constructor
  · rintro ⟨hGrammar, -⟩ ⟨hRoom, hTokens, tok, hTok, hTrails⟩
    rcases (hGrammar.mp (hRc.mpr ⟨hRoom, hTokens⟩)).2 tok hTok with ⟨-, rfl⟩ | hWell
    · obtain ⟨val, c, rest, hNumeral, -⟩ := hTrails
      cases hNumeral
    · exact not_wellFormed_and_trails hWell hTrails
  · intro hNot
    refine ⟨?_, fun hDone => ⟨(hStored hDone).1, fun i tok hTok => ?_⟩⟩
    · rw [hRc]
      constructor
      · rintro ⟨hRoom, hTokens⟩
        refine ⟨hRoom, fun tok hTok => ?_⟩
        rcases hTokens tok hTok with hEmpty | hWell | hTrails
        · exact Or.inl hEmpty
        · exact Or.inr hWell
        · exact absurd ⟨hRoom, hTokens, tok, hTok, hTrails⟩ hNot
      · rintro ⟨hRoom, hTokens⟩
        exact ⟨hRoom, fun tok hTok => (hTokens tok hTok).imp_right Or.inl⟩
    · have hMem := List.mem_of_getElem? hTok
      rw [(hStored hDone).2 i tok hTok]
      rcases (hRc.mp hDone).2 tok hMem with ⟨-, rfl⟩ | hSome
      · exact Or.inl ⟨rfl, rfl⟩
      · obtain ⟨val, hProduct⟩ := Option.isSome_iff_exists.mp (product_isSome.mpr hSome)
        obtain ⟨q, rfl, -⟩ := (h tok hMem).2 val hProduct
        exact Or.inr ⟨q, hProduct, element_holds hProduct⟩

end

/-- The C library on x86-64, without the texts of its errors. What is not finite
becomes the lowest `int`. -/
def Libc.gnu : Libc := ⟨.x87, fun _ => -2 ^ 31, fun _ => []⟩

theorem inRange_of_product {tmpl : CvtTmpl} {libc : Libc} {tok : CString} {q : ℚ}
    (hErrno : (strtold libc.ld tok).2.2 = 0) (hProduct : tmpl.product libc tok = some (.finite q))
    (hWithin : tmpl.Within (.finite q)) : tmpl.InRange libc tok := by
  refine ⟨hErrno, fun val hVal => ?_⟩
  rw [hProduct] at hVal
  exact ⟨q, (Option.some.inj hVal).symm, hWithin⟩

/-- `1k,,2` with commas -/
theorem grammar_right_iff_list :
    GrammarRight cvtInt .gnu (some ⟨3, [',']⟩) ['1', 'k', ',', ',', '2'] (fun _ => 0) := by
  have hTokens : (vectorOf (some ⟨3, [',']⟩)).tokens ['1', 'k', ',', ',', '2'] =
      [['1', 'k'], [], ['2']] := by decide
  have hNumerals : ∀ tok ∈ [['1', 'k'], [], ['2']],
      ((numeral .gnu tok).map fun read => read.2.tail) = none ∨
        ((numeral .gnu tok).map fun read => read.2.tail) = some [] := by
    decide +kernel
  apply (grammar_right_iff cvtInt .gnu (some ⟨3, [',']⟩) ['1', 'k', ',', ',', '2'] (fun _ => 0) ?_).mpr
  · rintro ⟨-, -, tok, hTok, val, c, rest, hNumeral, -, hRest⟩
    rw [hTokens] at hTok
    have hTail := hNumerals tok hTok
    rw [hNumeral] at hTail
    simp [hRest] at hTail
  · rw [hTokens, List.forall_mem_cons, List.forall_mem_cons, List.forall_mem_singleton]
    refine ⟨inRange_of_product (q := 1024) (by decide +kernel) (by decide +kernel)
      ⟨by decide +kernel, by decide +kernel⟩,
      ⟨rfl, fun val hVal => ?_⟩,
      inRange_of_product (q := 2) (by decide +kernel) (by decide +kernel)
      ⟨by decide +kernel, by decide +kernel⟩⟩
    cases hVal

/-- `10kxyz` -/
theorem grammar_textAfterSuffix :
    ¬ ∀ (tmpl : CvtTmpl) (libc : Libc) (parms : Option ClpVector) (optarg : CString) (dst : Nat → Int),
      (∀ tok ∈ (vectorOf parms).tokens optarg, tmpl.InRange libc tok) →
      GrammarRight tmpl libc parms optarg dst := by
  intro h
  have hDone : (clpCvt cvtInt .gnu (some ['1', '0', 'k', 'x', 'y', 'z']) none fun _ => 0).rc = 0 := by
    decide +kernel
  have hTokens : (vectorOf none).tokens ['1', '0', 'k', 'x', 'y', 'z'] =
      [['1', '0', 'k', 'x', 'y', 'z']] := by decide
  have hNumeral : numeral .gnu ['1', '0', 'k', 'x', 'y', 'z'] =
      some (.finite 10, ['k', 'x', 'y', 'z']) := by decide +kernel
  have hRange : ∀ tok ∈ (vectorOf none).tokens ['1', '0', 'k', 'x', 'y', 'z'],
      cvtInt.InRange .gnu tok := by
    rw [hTokens, List.forall_mem_singleton]
    exact inRange_of_product (q := 10240) (by decide +kernel) (by decide +kernel)
      ⟨by decide +kernel, by decide +kernel⟩
  have hGrammar := (h cvtInt .gnu none ['1', '0', 'k', 'x', 'y', 'z'] (fun _ => 0) hRange).1
  have hTok := (hGrammar.mp hDone).2
  rw [hTokens, List.forall_mem_singleton] at hTok
  rcases hTok with ⟨-, hEmpty⟩ | ⟨val, rest, hRead, hEnd⟩
  · cases hEmpty
  · rw [hNumeral] at hRead
    obtain ⟨rfl, rfl⟩ := Prod.mk.inj (Option.some.inj hRead)
    simp at hEnd

section
variable (tmpl : CvtTmpl) (libc : Libc) (parms : Option ClpVector) (optarg : CString) (dst : Nat → Int)

/-- When a conversion succeeds, the product of each token that is not empty is a
finite number within the limits, and what is stored for it is the product. -/
def RangeRight : Prop :=
  (clpCvt tmpl libc (some optarg) parms dst).rc = 0 →
    ∀ i tok, ((vectorOf parms).tokens optarg)[i]? = some tok → tok ≠ [] →
      ∃ q, tmpl.product libc tok = some (.finite q) ∧ tmpl.xmin ≤ q ∧ q ≤ tmpl.xmax ∧
        (clpCvt tmpl libc (some optarg) parms dst).data i = truncate q

/-- A token is a numeral for an infinity or no number, perhaps with a suffix. -/
def CvtTmpl.Special (tok : CString) : Prop :=
  ∃ val, tmpl.product libc tok = some val ∧ ∀ q, val ≠ .finite q

/-- The range is right just if no token is infinite or no number, or the argument is
rejected for something else. -/
theorem range_right_iff :
    RangeRight tmpl libc parms optarg dst ↔
      ¬ (((vectorOf parms).tokens optarg).length ≤ (vectorOf parms).size ∧
        (∀ tok ∈ (vectorOf parms).tokens optarg,
          ((vectorOf parms).Splits optarg ∧ tok = []) ∨ tmpl.Accepts libc tok) ∧
        ∃ tok ∈ (vectorOf parms).tokens optarg, tmpl.Special libc tok) := by
  obtain ⟨hRc, hStored⟩ := clpCvt_spec tmpl libc parms optarg dst
  constructor
  · rintro hRange ⟨hRoom, hTokens, tok, hTok, val, hProduct, hSpecial⟩
    obtain ⟨i, hAt⟩ := List.mem_iff_getElem?.mp hTok
    have hFull : tok ≠ [] := by
      rintro rfl
      cases hProduct
    obtain ⟨q, hFinite, -⟩ := hRange (hRc.mpr ⟨hRoom, hTokens⟩) i tok hAt hFull
    rw [hProduct] at hFinite
    exact hSpecial q (Option.some.inj hFinite)
  · intro hNot hDone i tok hAt hFull
    have hTok := List.mem_of_getElem? hAt
    obtain ⟨hRoom, hTokens⟩ := hRc.mp hDone
    rcases hTokens tok hTok with ⟨-, hEmpty⟩ | ⟨-, val, hProduct, hWithin⟩
    · exact absurd hEmpty hFull
    · cases val with
      | finite q =>
          refine ⟨q, hProduct, hWithin.1, hWithin.2, ?_⟩
          rw [(hStored hDone).2 i tok hAt, element_holds hProduct]
      | inf negative =>
          exact absurd ⟨hRoom, hTokens, tok, hTok, .inf negative, hProduct, by simp⟩ hNot
      | nan => exact absurd ⟨hRoom, hTokens, tok, hTok, .nan, hProduct, by simp⟩ hNot

end

/-- `inf` -/
theorem range_infinite :
    ¬ ∀ (tmpl : CvtTmpl) (libc : Libc) (parms : Option ClpVector) (optarg : CString) (dst : Nat → Int),
      RangeRight tmpl libc parms optarg dst := by
  intro h
  have hDone : (clpCvt cvtInt .gnu (some ['i', 'n', 'f']) none fun _ => 0).rc = 0 := by
    decide +kernel
  have hTok : ((vectorOf none).tokens ['i', 'n', 'f'])[0]? = some ['i', 'n', 'f'] := by decide
  have hProduct : cvtInt.product .gnu ['i', 'n', 'f'] = some (.inf false) := by decide +kernel
  obtain ⟨q, hFinite, -⟩ := h cvtInt .gnu none ['i', 'n', 'f'] (fun _ => 0) hDone 0 _ hTok (by decide)
  rw [hProduct] at hFinite
  cases hFinite

end Nct
