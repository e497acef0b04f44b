import Nct.Breakargs
import Nct.Strtold

/-! The conversions of strings to integers that `CLP_CVT_TMPL` makes. -/
namespace Nct

open Function (update)

def Errno.EINVAL : Nat := 22

def Errno.EDOM : Nat := 33

def Errno.E2BIG : Nat := 7

/-- `clp_suftab_combo`: each suffix with its multiplier, a double. -/
def clpSuftabCombo : List (Char × ℚ) :=
  [('k', 2 ^ 10), ('m', 2 ^ 20), ('g', 2 ^ 30), ('t', 2 ^ 40), ('p', 2 ^ 50), ('e', 2 ^ 60), ('z', 2 ^ 70),
    ('y', 2 ^ 80), ('K', 10 ^ 3), ('M', 10 ^ 6), ('G', 10 ^ 9), ('T', 10 ^ 12), ('P', 10 ^ 15),
    ('E', 10 ^ 18), ('Z', 10 ^ 21),
    -- the double nearest to 1e24
    ('Y', 10 ^ 24 - 2 ^ 24), ('b', 512), ('w', 4)]

def clpSuftabTime : List (Char × ℚ) :=
  [('s', 1), ('m', 60), ('h', 3600), ('d', 86400), ('w', 86400 * 7), ('y', 86400 * 365),
    ('c', 86400 * 365 * 100)]

/-- What `CLP_CVT_TMPL` is instantiated with for an integer type, and its limits
as they are written there. -/
structure CvtTmpl where
  xmin : Int
  xmax : Int
  suftab : List (Char × ℚ)
  minText : String
  maxText : String
  ordered : xmin < xmax

/-- The fields of a `clp_vector_t` that are read. -/
structure ClpVector where
  size : Nat
  delim : CString

/-- What is used of the C library, and what a cast to an integer makes of a value
that is not finite, which C leaves undefined. -/
structure Libc where
  ld : LongDouble.Format
  undef : LongDouble → Int
  strerror : Nat → CString

/-- `strsep(&str, delim)`: the token, and `str` after it. -/
def strsep (delim str : CString) : CString × Option CString :=
  (str.takeWhile fun c => !delim.contains c,
    match str.dropWhile fun c => !delim.contains c with
    | [] => none
    | _ :: rest => some rest)

def truncate (q : ℚ) : Int := q.num.tdiv q.den

/-- `(_xtype)val`, where a finite `val` is within the type's limits. -/
def Libc.cast (libc : Libc) : LongDouble → Int
  | .finite q => truncate q
  | val => libc.undef val

/-- The variables of the loop, and `dst`. -/
structure CvtState where
  data : Nat → Int
  n : Nat
  ndomain : Nat
  nrange : Nat
  xerrno : Nat

def CvtState.store (st : CvtState) (x : Int) : CvtState := { st with data := update st.data st.n x }

section
variable (tmpl : CvtTmpl) (libc : Libc)

/-- A value is put within the limits and stored. -/
def CvtState.storeValue (st : CvtState) (val : LongDouble) : CvtState :=
  let domainchk := decide (tmpl.xmin < tmpl.xmax)
  match val with
  | .finite q =>
      if domainchk ∧ q < tmpl.xmin then
        { st with ndomain := st.ndomain + 1 }.store (libc.cast (.finite tmpl.xmin))
      else if domainchk ∧ q > tmpl.xmax then
        { st with ndomain := st.ndomain + 1 }.store (libc.cast (.finite tmpl.xmax))
      else st.store (libc.cast (.finite q))
  | val => st.store (libc.cast val)

/-- The loop's body for a token, and whether the loop goes on. -/
def cvtToken (st : CvtState) (tok : CString) : CvtState × Bool :=
  let (val, rest, errno) := strtold libc.ld tok
  if errno ≠ 0 ∧ errno ≠ Errno.ERANGE then (st.store (libc.cast val), false)
  else
    let st := if errno ≠ 0 then { st with nrange := st.nrange + 1 } else st
    if rest = tok then ({ st.store 0 with xerrno := Errno.EINVAL }, false)
    else
      match rest with
      | [] => (st.storeValue tmpl libc val, true)
      | c :: _ =>
          match tmpl.suftab.lookup c with
          | none => ({ st.store 0 with xerrno := Errno.EINVAL }, false)
          | some mult => (st.storeValue tmpl libc (val.scale mult), true)

/-- The loop, for as many tokens as there is room for. `split` says that there are
delimiters in the string. -/
def cvtLoop (split : Bool) (delim : CString) :
    Nat → Option CString → CvtState → Option CString × CvtState
  | 0, str, st => (str, st)
  | _ + 1, none, st => (none, st)
  | room + 1, some str, st =>
      let (tok, str) := if split then strsep delim str else (str, none)
      if split ∧ tok = [] then
        let st := st.store 0
        cvtLoop split delim room str { st with n := st.n + 1 }
      else
        match cvtToken tmpl libc st tok with
        | (st, false) => (str, st)
        | (st, true) => cvtLoop split delim room str { st with n := st.n + 1 }

/-- What a conversion leaves: the value returned, `errno`, the length of the
vector, the numbers stored, and `clp->errbuf` if it is set. -/
structure Cvt where
  rc : Int
  errno : Nat
  len : Option Nat
  data : Nat → Int
  errbuf : Option CString

/-- The error of a conversion, and its text. -/
def cvtError (ndomain nrange xerrno : Nat) : Nat × Option CString :=
  if ndomain > 0 ∧ xerrno = 0 then
    (Errno.EDOM, some (": argument not within the interval [".toList ++ tmpl.minText.toList ++ [',', ' '] ++
      tmpl.maxText.toList ++ [']']))
  else if nrange > 0 ∧ xerrno = 0 then (Errno.ERANGE, some ([':', ' '] ++ libc.strerror Errno.ERANGE))
  else if xerrno ≠ 0 then (xerrno, some ([':', ' '] ++ libc.strerror xerrno))
  else (0, none)

/-- The function that an instance defines. Without `parms` the vector has room for
one number and no delimiters. The copy of the string is taken to be allocated. -/
def clpCvt (optarg : Option CString) (parms : Option ClpVector) (dst : Nat → Int) : Cvt :=
  match optarg with
  | none => ⟨EX_DATAERR, Errno.EINVAL, none, dst, none⟩
  | some optarg =>
      let vector := parms.getD ⟨1, []⟩
      let split := optarg.any fun c => vector.delim.contains c
      let (str, st) := cvtLoop tmpl libc split vector.delim vector.size (some optarg) ⟨dst, 0, 0, 0, 0⟩
      let xerrno := if str.isSome ∧ st.n ≥ vector.size then Errno.E2BIG else st.xerrno
      let (xerrno, errbuf) := cvtError tmpl libc st.ndomain st.nrange xerrno
      ⟨if xerrno ≠ 0 then EX_DATAERR else 0, xerrno, some st.n, st.data, errbuf.map (·.take 127)⟩

end

def cvtChar : CvtTmpl := ⟨-2 ^ 7, 2 ^ 7 - 1, clpSuftabCombo, "CHAR_MIN", "CHAR_MAX", by decide⟩

def cvtUChar : CvtTmpl := ⟨0, 2 ^ 8 - 1, clpSuftabCombo, "0", "UCHAR_MAX", by decide⟩

def cvtShort : CvtTmpl := ⟨-2 ^ 15, 2 ^ 15 - 1, clpSuftabCombo, "SHRT_MIN", "SHRT_MAX", by decide⟩

def cvtUShort : CvtTmpl := ⟨0, 2 ^ 16 - 1, clpSuftabCombo, "0", "USHRT_MAX", by decide⟩

def cvtInt : CvtTmpl := ⟨-2 ^ 31, 2 ^ 31 - 1, clpSuftabCombo, "INT_MIN", "INT_MAX", by decide⟩

def cvtUInt : CvtTmpl := ⟨0, 2 ^ 32 - 1, clpSuftabCombo, "0", "UINT_MAX", by decide⟩

def cvtLong : CvtTmpl := ⟨-2 ^ 63, 2 ^ 63 - 1, clpSuftabCombo, "LONG_MIN", "LONG_MAX", by decide⟩

def cvtULong : CvtTmpl := ⟨0, 2 ^ 64 - 1, clpSuftabCombo, "0", "ULONG_MAX", by decide⟩

def cvtInt8 : CvtTmpl := ⟨-2 ^ 7, 2 ^ 7 - 1, clpSuftabCombo, "INT8_MIN", "INT8_MAX", by decide⟩

def cvtUint8 : CvtTmpl := ⟨0, 2 ^ 8 - 1, clpSuftabCombo, "0", "UINT8_MAX", by decide⟩

def cvtInt16 : CvtTmpl := ⟨-2 ^ 15, 2 ^ 15 - 1, clpSuftabCombo, "INT16_MIN", "INT16_MAX", by decide⟩

def cvtUint16 : CvtTmpl := ⟨0, 2 ^ 16 - 1, clpSuftabCombo, "0", "UINT16_MAX", by decide⟩

def cvtInt32 : CvtTmpl := ⟨-2 ^ 31, 2 ^ 31 - 1, clpSuftabCombo, "INT32_MIN", "INT32_MAX", by decide⟩

def cvtUint32 : CvtTmpl := ⟨0, 2 ^ 32 - 1, clpSuftabCombo, "0", "UINT32_MAX", by decide⟩

def cvtInt64 : CvtTmpl := ⟨-2 ^ 63, 2 ^ 63 - 1, clpSuftabCombo, "INT64_MIN", "INT64_MAX", by decide⟩

def cvtUint64 : CvtTmpl := ⟨0, 2 ^ 64 - 1, clpSuftabCombo, "0", "UINT64_MAX", by decide⟩

def cvtIntmax : CvtTmpl := ⟨-2 ^ 63, 2 ^ 63 - 1, clpSuftabCombo, "INTMAX_MIN", "INTMAX_MAX", by decide⟩

def cvtUintmax : CvtTmpl := ⟨0, 2 ^ 64 - 1, clpSuftabCombo, "0", "UINTMAX_MAX", by decide⟩

def cvtIntptr : CvtTmpl := ⟨-2 ^ 63, 2 ^ 63 - 1, clpSuftabCombo, "INTPTR_MIN", "INTPTR_MAX", by decide⟩

def cvtUintptr : CvtTmpl := ⟨0, 2 ^ 64 - 1, clpSuftabCombo, "0", "UINTPTR_MAX", by decide⟩

def cvtSize : CvtTmpl := ⟨0, 2 ^ 64 - 1, clpSuftabCombo, "0", "SIZE_MAX", by decide⟩

def cvtTime : CvtTmpl := ⟨0, 2 ^ 63 - 1, clpSuftabTime, "0", "LONG_MAX", by decide⟩

/-- The numeral that a token starts with, and what follows it. -/
def numeral (libc : Libc) (tok : CString) : Option (LongDouble × CString) :=
  let (val, rest, _) := strtold libc.ld tok
  if rest = tok then none else some (val, rest)

/-- The numeral times the multiplier of the suffix after it, if nothing or a suffix
comes there. -/
def CvtTmpl.product (tmpl : CvtTmpl) (libc : Libc) (tok : CString) : Option LongDouble :=
  (numeral libc tok).bind fun (val, rest) =>
    match rest with
    | [] => some val
    | c :: _ => (tmpl.suftab.lookup c).map val.scale

/-- The limits, which only a finite value can exceed. -/
def CvtTmpl.Within (tmpl : CvtTmpl) : LongDouble → Prop
  | .finite q => tmpl.xmin ≤ q ∧ q ≤ tmpl.xmax
  | _ => True

/-- A token for which a number is stored and no error counted. -/
def CvtTmpl.Accepts (tmpl : CvtTmpl) (libc : Libc) (tok : CString) : Prop :=
  (strtold libc.ld tok).2.2 = 0 ∧ ∃ val, tmpl.product libc tok = some val ∧ tmpl.Within val

/-- The number that is stored for a token. -/
def CvtTmpl.element (tmpl : CvtTmpl) (libc : Libc) (tok : CString) : Int :=
  ((tmpl.product libc tok).map libc.cast).getD 0

def tokensOf (split : Bool) (delim : CString) : Option CString → List CString
  | none => []
  | some str => if split then str.splitOnP delim.contains else [str]

/-- The loop has counted no error, and has come to the end of the string. -/
def Succeeds (size : Nat) (r : Option CString × CvtState) : Prop :=
  r.2.xerrno = 0 ∧ r.2.ndomain = 0 ∧ r.2.nrange = 0 ∧ ¬ (r.1.isSome ∧ r.2.n ≥ size)

theorem strsep_tokens (delim str : CString) :
    str.splitOnP delim.contains = (strsep delim str).1 :: tokensOf true delim (strsep delim str).2 := by
  have hTok : ∀ c ∈ str.takeWhile fun c => !delim.contains c, delim.contains c = false := by
    intro c hc
    simpa using List.mem_takeWhile_imp hc
  have hString : (str.takeWhile fun c => !delim.contains c) ++
      (str.dropWhile fun c => !delim.contains c) = str := List.takeWhile_append_dropWhile
  simp only [strsep]
  split
  · next hRest =>
      rw [hRest, List.append_nil] at hString
      rw [hString] at hTok ⊢
      exact List.splitOnP_eq_singleton hTok
  · next c rest hRest =>
      have hDelim : delim.contains c = true := by
        have hHead := List.head?_dropWhile_not (fun c => !delim.contains c) str
        rw [hRest] at hHead
        simpa using hHead
      rw [hRest] at hString
      simp only [tokensOf, if_true]
      conv_lhs => rw [← hString]
      exact List.splitOnP_append_cons_of_forall_mem hTok c hDelim rest

section
variable {tmpl : CvtTmpl} {libc : Libc} {st : CvtState} {tok : CString} {val : LongDouble}

/-- What storing a value does: one more error if it is not within the limits, and
otherwise the number is what it is cast to. -/
theorem storeValue_spec (tmpl : CvtTmpl) (libc : Libc) (st : CvtState) (val : LongDouble) :
    (st.storeValue tmpl libc val).n = st.n ∧ (st.storeValue tmpl libc val).xerrno = st.xerrno ∧
      (st.storeValue tmpl libc val).nrange = st.nrange ∧
      ((st.storeValue tmpl libc val).ndomain = 0 ↔ st.ndomain = 0 ∧ tmpl.Within val) ∧
      (tmpl.Within val → (st.storeValue tmpl libc val).data = update st.data st.n (libc.cast val)) := by
  cases val with
  | finite q =>
      simp only [CvtState.storeValue, decide_eq_true tmpl.ordered, CvtTmpl.Within, true_and]
      split
      · next hLow => simp [CvtState.store, hLow]
      · next hLow =>
          split
          · next hHigh => simp [CvtState.store, not_le.mpr hHigh]
          · next hHigh => simp [CvtState.store, not_lt.mp hLow, not_lt.mp hHigh]
  | inf negative => simp [CvtState.storeValue, CvtState.store, CvtTmpl.Within]
  | nan => simp [CvtState.storeValue, CvtState.store, CvtTmpl.Within]

/-- `strtold` reports no error but that of the range. -/
theorem strtold_known (libc : Libc) (tok : CString) :
    ¬ ((strtold libc.ld tok).2.2 ≠ 0 ∧ (strtold libc.ld tok).2.2 ≠ Errno.ERANGE) := by
  rintro ⟨hSome, hOther⟩
  exact (strtold_errno libc.ld tok).elim hSome hOther

/-- A token without a product ends the loop. -/
theorem cvtToken_none (h : tmpl.product libc tok = none) (st : CvtState) :
    (cvtToken tmpl libc st tok).2 = false ∧ (cvtToken tmpl libc st tok).1.xerrno ≠ 0 := by
  have hInval : Errno.EINVAL ≠ 0 := by decide
  simp only [CvtTmpl.product, numeral] at h
  simp only [cvtToken, if_neg (strtold_known libc tok)]
  split
  · exact ⟨rfl, hInval⟩
  · next hMoved =>
      rw [if_neg hMoved, Option.bind_some] at h
      split at h
      · cases h
      · next c rest hRest =>
          simp only at hRest
          rw [Option.map_eq_none_iff] at h
          simp only [hRest, h]
          exact ⟨trivial, hInval⟩

/-- One with a product is stored, and the loop goes on. -/
theorem cvtToken_some (h : tmpl.product libc tok = some val) (st : CvtState) :
    cvtToken tmpl libc st tok =
      (CvtState.storeValue tmpl libc
        (if (strtold libc.ld tok).2.2 ≠ 0 then { st with nrange := st.nrange + 1 } else st) val, true) := by
  simp only [CvtTmpl.product, numeral] at h
  simp only [cvtToken, if_neg (strtold_known libc tok)]
  split
  · next hSame =>
      rw [if_pos hSame] at h
      cases h
  · next hMoved =>
      rw [if_neg hMoved, Option.bind_some] at h
      split at h
      · next hRest =>
          simp only at hRest
          obtain rfl := Option.some.inj h
          simp only [hRest]
      · next c rest hRest =>
          simp only at hRest
          obtain ⟨mult, hLookup, rfl⟩ := Option.map_eq_some_iff.mp h
          simp only [hRest, hLookup]

theorem element_nil (tmpl : CvtTmpl) (libc : Libc) : tmpl.element libc [] = 0 := rfl

def CvtState.Clean (st : CvtState) : Prop := st.xerrno = 0 ∧ st.ndomain = 0 ∧ st.nrange = 0

/-- An empty token, where there are delimiters, or one that is accepted. -/
def CvtTmpl.Fine (tmpl : CvtTmpl) (libc : Libc) (split : Bool) (tok : CString) : Prop :=
  (split ∧ tok = []) ∨ tmpl.Accepts libc tok

/-- What the loop makes of these tokens, from `st` and with room for `room` of them. -/
structure Converts (tmpl : CvtTmpl) (libc : Libc) (split : Bool) (toks : List CString) (room : Nat)
    (st : CvtState) (r : Option CString × CvtState) : Prop where
  succeeds : Succeeds (st.n + room) r ↔
    st.Clean ∧ toks.length ≤ room ∧ ∀ tok ∈ toks, tmpl.Fine libc split tok
  count : Succeeds (st.n + room) r → r.2.n = st.n + toks.length
  before : Succeeds (st.n + room) r → ∀ i < st.n, r.2.data i = st.data i
  stored : Succeeds (st.n + room) r →
    ∀ i tok, toks[i]? = some tok → r.2.data (st.n + i) = tmpl.element libc tok

/-- One more token before the others. -/
theorem Converts.cons {split : Bool} {toks : List CString} {room : Nat} {st' : CvtState}
    {r : Option CString × CvtState} (h : Converts tmpl libc split toks room st' r) (hn : st'.n = st.n + 1)
    (hClean : st'.Clean ↔ st.Clean ∧ tmpl.Fine libc split tok)
    (hData : tmpl.Fine libc split tok → st'.data = update st.data st.n (tmpl.element libc tok)) :
    Converts tmpl libc split (tok :: toks) (room + 1) st r := by
  have hSize : st.n + (room + 1) = st'.n + room := by omega
  have hSucceeds : Succeeds (st.n + (room + 1)) r ↔
      st.Clean ∧ (tok :: toks).length ≤ room + 1 ∧ ∀ tok' ∈ tok :: toks, tmpl.Fine libc split tok' := by
    rw [hSize, h.succeeds, hClean, List.forall_mem_cons, List.length_cons, Nat.add_le_add_iff_right]
    tauto
  refine ⟨hSucceeds, fun hDone => ?_, fun hDone i hi => ?_, fun hDone i tok' hTok => ?_⟩
  · rw [hSize] at hDone
    rw [h.count hDone, List.length_cons]
    omega
  · have hFine := (hSucceeds.mp hDone).2.2 tok (List.mem_cons_self ..)
    rw [hSize] at hDone
    rw [h.before hDone i (by omega), hData hFine, Function.update_of_ne hi.ne]
  · have hFine := (hSucceeds.mp hDone).2.2 tok (List.mem_cons_self ..)
    rw [hSize] at hDone
    cases i with
    | zero =>
        obtain rfl : tok = tok' := by simpa using hTok
        rw [Nat.add_zero, h.before hDone st.n (by omega), hData hFine, Function.update_self]
    | succ i =>
        have hNext := h.stored hDone i tok' (by simpa using hTok)
        rwa [hn, Nat.add_assoc, Nat.add_comm 1 i] at hNext

/-- A token that is not fine, and at which the loop stops. -/
theorem Converts.stop {split : Bool} {toks : List CString} {room : Nat} {r : Option CString × CvtState}
    (hError : r.2.xerrno ≠ 0) (hTok : tok ∈ toks) (hNot : ¬ tmpl.Fine libc split tok) :
    Converts tmpl libc split toks room st r := by
  have hFails : ¬ Succeeds (st.n + room) r := fun hDone => hError hDone.1
  refine ⟨iff_of_false hFails fun hAll => hNot (hAll.2.2 tok hTok), ?_, ?_, ?_⟩
  all_goals exact fun hDone => absurd hDone hFails

theorem tokensOf_cons (delim str : CString) (split : Bool) :
    tokensOf split delim (some str) =
      (if split then strsep delim str else (str, none)).1 ::
        tokensOf split delim (if split then strsep delim str else (str, none)).2 := by
  cases split with
  | false => rfl
  | true => exact strsep_tokens delim str

/-- The loop takes all tokens, from `st` and with room for `room` of them. -/
theorem cvtLoop_converts (tmpl : CvtTmpl) (libc : Libc) (split : Bool) (delim : CString) (room : Nat)
    (str : Option CString) (st : CvtState) :
    Converts tmpl libc split (tokensOf split delim str) room st
      (cvtLoop tmpl libc split delim room str st) := by
  have hNone : ∀ room st, Converts tmpl libc split [] room st (none, st) := by
    intro room st
    constructor <;> simp [Succeeds, CvtState.Clean]
  induction room generalizing str st with
  | zero =>
      cases str with
      | none => exact hNone 0 st
      | some str =>
          have hFails : ¬ Succeeds (st.n + 0) (some str, st) := fun hDone => hDone.2.2.2 ⟨rfl, le_rfl⟩
          rw [tokensOf_cons, cvtLoop]
          refine ⟨iff_of_false hFails fun hAll => ?_, ?_, ?_, ?_⟩
          · exact absurd hAll.2.1 (by simp)
          all_goals exact fun hDone => absurd hDone hFails
  | succ room ih =>
      cases str with
      | none => exact hNone (room + 1) st
      | some str =>
          rw [tokensOf_cons, cvtLoop]
          generalize (if split then strsep delim str else (str, none)) = next
          obtain ⟨tok, str⟩ := next
          simp only
          split
          · next hEmpty =>
              obtain ⟨hSplit, rfl⟩ := hEmpty
              have hFine : tmpl.Fine libc split [] := Or.inl ⟨hSplit, rfl⟩
              apply (ih str _).cons rfl
              · exact (and_iff_left hFine).symm
              · intro _
                rw [element_nil]
                rfl
          · next hToken =>
              have hFine : tmpl.Fine libc split tok ↔ tmpl.Accepts libc tok := or_iff_right hToken
              cases hProduct : tmpl.product libc tok with
              | none =>
                  obtain ⟨hStop, hError⟩ := cvtToken_none hProduct st
                  have hNot : ¬ tmpl.Fine libc split tok := by
                    rw [hFine]
                    rintro ⟨_, val, hSome, _⟩
                    rw [hProduct] at hSome
                    cases hSome
                  split
                  · next stopped hBody =>
                      rw [hBody] at hError
                      exact Converts.stop hError (List.mem_cons_self ..) hNot
                  · next goes hBody =>
                      rw [hBody] at hStop
                      cases hStop
              | some val =>
                  rw [cvtToken_some hProduct st]
                  have hAccepts : tmpl.Fine libc split tok ↔
                      (strtold libc.ld tok).2.2 = 0 ∧ tmpl.Within val := by
                    simp [hFine, CvtTmpl.Accepts, hProduct]
                  have hElement : tmpl.element libc tok = libc.cast val := by simp [CvtTmpl.element, hProduct]
                  have hStored := storeValue_spec tmpl libc
                    (if (strtold libc.ld tok).2.2 ≠ 0 then { st with nrange := st.nrange + 1 } else st) val
                  obtain ⟨hCount, hError, hRange, hDomain, hData⟩ := hStored
                  apply (ih str _).cons
                  · rw [hCount]
                    split <;> rfl
                  · simp only [CvtState.Clean, hError, hRange, hDomain, hAccepts]
                    split <;> simp_all
                    tauto
                  · intro hAll
                    obtain ⟨hErrno, hWithin⟩ := hAccepts.mp hAll
                    rw [hElement]
                    exact (hData hWithin).trans (by simp [hErrno])

theorem cvtError_eq_zero (tmpl : CvtTmpl) (libc : Libc) (ndomain nrange xerrno : Nat) :
    (cvtError tmpl libc ndomain nrange xerrno).1 = 0 ↔ xerrno = 0 ∧ ndomain = 0 ∧ nrange = 0 := by
  have hDomain : Errno.EDOM ≠ 0 := by decide
  have hRange : Errno.ERANGE ≠ 0 := by decide
  simp only [cvtError]
  split
  · next hMany => simp [hDomain, hMany.2, hMany.1.ne']
  · next hNone =>
      split
      · next hMany => simp [hRange, hMany.2, hMany.1.ne']
      · next hNoRange =>
          split
          · next hError => simp [hError]
          · next hClean =>
              rw [not_not] at hClean
              simp_all

def ClpVector.tokens (vector : ClpVector) (optarg : CString) : List CString :=
  optarg.splitOnP vector.delim.contains

/-- There are delimiters in the argument. -/
def ClpVector.Splits (vector : ClpVector) (optarg : CString) : Prop := ∃ c ∈ optarg, c ∈ vector.delim

theorem any_delim (vector : ClpVector) (optarg : CString) :
    (optarg.any fun c => vector.delim.contains c) = true ↔ vector.Splits optarg := by
  simp [ClpVector.Splits]

theorem tokensOf_tokens (vector : ClpVector) (optarg : CString) :
    tokensOf (optarg.any fun c => vector.delim.contains c) vector.delim (some optarg) =
      vector.tokens optarg := by
  cases hSplit : optarg.any fun c => vector.delim.contains c with
  | true => rfl
  | false => exact (List.splitOnP_eq_singleton (by simpa using hSplit)).symm

def vectorOf (parms : Option ClpVector) : ClpVector := parms.getD ⟨1, []⟩

/-- What a conversion does: it has no error if there is room for all tokens and
each of them is fine, and then stores the number of each. -/
theorem clpCvt_spec (tmpl : CvtTmpl) (libc : Libc) (parms : Option ClpVector) (optarg : CString)
    (dst : Nat → Int) :
    ((clpCvt tmpl libc (some optarg) parms dst).rc = 0 ↔
      ((vectorOf parms).tokens optarg).length ≤ (vectorOf parms).size ∧
        ∀ tok ∈ (vectorOf parms).tokens optarg,
          ((vectorOf parms).Splits optarg ∧ tok = []) ∨ tmpl.Accepts libc tok) ∧
    ((clpCvt tmpl libc (some optarg) parms dst).rc = 0 →
      (clpCvt tmpl libc (some optarg) parms dst).len = some ((vectorOf parms).tokens optarg).length ∧
        ∀ i tok, ((vectorOf parms).tokens optarg)[i]? = some tok →
          (clpCvt tmpl libc (some optarg) parms dst).data i = tmpl.element libc tok) := by
  generalize hVector : vectorOf parms = vector
  have hLoop := cvtLoop_converts tmpl libc (optarg.any fun c => vector.delim.contains c) vector.delim
    vector.size (some optarg) ⟨dst, 0, 0, 0, 0⟩
  rw [tokensOf_tokens] at hLoop
  simp only [vectorOf] at hVector
  simp only [clpCvt, hVector]
  generalize cvtLoop tmpl libc (optarg.any fun c => vector.delim.contains c) vector.delim vector.size
    (some optarg) ⟨dst, 0, 0, 0, 0⟩ = r at hLoop ⊢
  have hData : EX_DATAERR ≠ 0 := by decide
  have hBig : Errno.E2BIG ≠ 0 := by decide
  have hRc : (if (cvtError tmpl libc r.2.ndomain r.2.nrange
      (if r.1.isSome ∧ r.2.n ≥ vector.size then Errno.E2BIG else r.2.xerrno)).1 ≠ 0 then EX_DATAERR else (0 : Int)) = 0 ↔
      Succeeds (0 + vector.size) r := by
    have hRoom : (if r.1.isSome ∧ r.2.n ≥ vector.size then Errno.E2BIG else r.2.xerrno) = 0 ↔
        r.2.xerrno = 0 ∧ ¬ (r.1.isSome ∧ r.2.n ≥ vector.size) := by
      split
      · next hMore => simp [hBig, hMore]
      · next hAll => simp [hAll]
    simp only [ite_eq_right_iff, hData, imp_false, not_not, cvtError_eq_zero, hRoom, Succeeds, Nat.zero_add]
    tauto
  simp only [hRc]
  refine ⟨?_, fun hDone => ⟨?_, fun i tok hTok => ?_⟩⟩
  · rw [hLoop.succeeds]
    simp only [CvtState.Clean, CvtTmpl.Fine, any_delim, true_and, and_self]
  · rw [hLoop.count hDone, Nat.zero_add]
  · simpa using hLoop.stored hDone i tok hTok

end

end Nct
