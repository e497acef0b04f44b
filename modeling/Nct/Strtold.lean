import Mathlib.Algebra.Field.Rat
import Nct.Clp

/-! `strtold` of the C library, in the C locale. A long double that is finite is an
exact number here. -/
namespace Nct

def Errno.ERANGE : Nat := 34

inductive LongDouble where
  | finite (q : ℚ)
  | inf (negative : Bool)
  | nan
  deriving DecidableEq

/-- The numbers for which `strtold` reports no range error, and what it returns
for the others. -/
structure LongDouble.Format where
  fits : ℚ → Bool
  clip : ℚ → LongDouble

/-- The long double of x86-64. -/
def LongDouble.Format.x87 : LongDouble.Format where
  fits q := q = 0 ∨ q.den ≤ 2 ^ 16382 * q.num.natAbs ∧ q.num.natAbs < 2 ^ 16384 * q.den
  clip q := if q.num.natAbs < q.den then .finite 0 else .inf (q < 0)

def LongDouble.neg : LongDouble → LongDouble
  | finite q => finite (-q)
  | inf negative => inf !negative
  | nan => nan

/-- The product with a positive number. -/
def LongDouble.scale (mult : ℚ) : LongDouble → LongDouble
  | finite q => finite (q * mult)
  | inf negative => inf negative
  | nan => nan

def isxdigit (c : Char) : Bool := c.isDigit || ('a' ≤ c && c ≤ 'f') || ('A' ≤ c && c ≤ 'F')

def digitValue (c : Char) : Nat :=
  if c.isDigit then c.toNat - '0'.toNat else c.toLower.toNat - 'a'.toNat + 10

def digitsValue (base : Nat) (digits : CString) : Nat :=
  digits.foldl (fun n c => base * n + digitValue c) 0

def takeSign : CString → Bool × CString
  | '-' :: s => (true, s)
  | '+' :: s => (false, s)
  | s => (false, s)

/-- What follows a word, which is in lower case. -/
def dropWord (word s : CString) : Option CString :=
  if (s.take word.length).map Char.toLower = word then some (s.drop word.length) else none

/-- Digits with a point before, among or after them, or with none. -/
def takeDigits (isdig : Char → Bool) (base : Nat) (s : CString) : Option (ℚ × CString) :=
  let whole := s.takeWhile isdig
  let (frac, rest) :=
    match s.dropWhile isdig with
    | '.' :: rest => (rest.takeWhile isdig, rest.dropWhile isdig)
    | rest => ([], rest)
  if whole ++ frac = [] then none
  else some (digitsValue base (whole ++ frac) / (base : ℚ) ^ frac.length, rest)

/-- An exponent, if there is one. -/
def takeExponent (mark : Char) (s : CString) : Int × CString :=
  match s with
  | [] => (0, [])
  | c :: rest =>
      let (negative, rest) := takeSign rest
      let digits := rest.takeWhile Char.isDigit
      if c.toLower = mark ∧ digits ≠ [] then
        let e := digitsValue 10 digits
        (if negative then -e else e, rest.dropWhile Char.isDigit)
      else (0, s)

/-- Digits and an exponent to a base. -/
def takeNumber (isdig : Char → Bool) (base : Nat) (mark : Char) (radix : ℚ) (s : CString) :
    Option (LongDouble × CString) :=
  (takeDigits isdig base s).map fun (m, rest) =>
    let (e, rest) := takeExponent mark rest
    (.finite (m * radix ^ e), rest)

def takeHex : CString → Option (LongDouble × CString)
  | '0' :: x :: s => if x.toLower = 'x' then takeNumber isxdigit 16 'p' 2 s else none
  | _ => none

/-- `nan`, with what may be in parentheses after it. -/
def takeNan (s : CString) : Option (LongDouble × CString) :=
  (dropWord ['n', 'a', 'n'] s).map fun rest =>
    match rest with
    | '(' :: chars =>
        match chars.dropWhile fun c => c.isAlphanum || c = '_' with
        | ')' :: after => (.nan, after)
        | _ => (.nan, rest)
    | _ => (.nan, rest)

def takeInf (s : CString) : Option (LongDouble × CString) :=
  ((dropWord ['i', 'n', 'f', 'i', 'n', 'i', 't', 'y'] s).or (dropWord ['i', 'n', 'f'] s)).map fun rest =>
    (.inf false, rest)

/-- The longest numeral without a sign that a string starts with. -/
def takeNumeral (s : CString) : Option (LongDouble × CString) :=
  (takeHex s).or ((takeNumber Char.isDigit 10 'e' 10 s).or ((takeInf s).or (takeNan s)))

/-- `strtold(s, &end)`: the value, `end`, and `errno` if it was zero before. -/
def strtold (fmt : LongDouble.Format) (s : CString) : LongDouble × CString × Nat :=
  let (negative, digits) := takeSign (s.dropWhile isspace)
  match takeNumeral digits with
  | none => (.finite 0, s, 0)
  | some (val, rest) =>
      match if negative then val.neg else val with
      | .finite q => if fmt.fits q then (.finite q, rest, 0) else (fmt.clip q, rest, Errno.ERANGE)
      | val => (val, rest, 0)

theorem strtold_errno (fmt : LongDouble.Format) (s : CString) :
    (strtold fmt s).2.2 = 0 ∨ (strtold fmt s).2.2 = Errno.ERANGE := by
  simp only [strtold]
  split
  · exact Or.inl rfl
  · split
    · split
      · exact Or.inl rfl
      · exact Or.inr rfl
    · exact Or.inl rfl

end Nct
