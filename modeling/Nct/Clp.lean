import Mathlib.Data.List.DropRight
import Mathlib.Data.List.FinRange

/-! The command line parser of `clp.c`: option vectors, positional parameter
vectors, and one call of `clp_parsev` over the memory that holds the latter. -/
namespace Nct

open Function (update)

/-- A C string, without its terminating NUL. -/
abbrev CString := List Char

def EX_USAGE : Int := 64

def EX_SOFTWARE : Int := 70

/-- White space of the C locale. -/
def isspace (c : Char) : Bool := c ∈ [' ', '\t', '\n', '\x0b', '\x0c', '\r']

/-- `clp_trim`; `none` is NULL. -/
def clpTrim (str : Option CString) : Option CString :=
  match str.map (List.dropWhile isspace) with
  | some (c :: rest) => some (c :: rest)
  | _ => none

/-- The first loop of `clp_unbracket`: the count of open brackets and what
follows them. -/
def skipOpen : CString → Nat × CString
  | [] => (0, [])
  | c :: name =>
      if c = '[' then ((skipOpen name).1 + 1, (skipOpen name).2)
      else if isspace c then skipOpen name
      else (0, c :: name)

def clpUnbracket (name : CString) (bufsz : Nat) : Nat × CString :=
  let (obrackets, name) := skipOpen name
  (obrackets,
    ((name.take (bufsz - 1)).takeWhile fun c => c != ']' && c != '[').rdropWhile isspace)

/-- `struct clp_posparam`. A conversion or callback is what it returns, and
`cvtparms` holds the names of a subcommand vector. The last four fields are the
parser's own. -/
structure Posparam where
  name : CString
  cvtfunc : Option (CString → Int)
  cvtsubcmd : Bool
  cvtparms : List CString
  action : Option (List CString → Int)
  after : Option (List CString → Int)
  posmin : Int
  posmax : Int
  argc : Int
  argv : List CString

def Posparam.args (param : Posparam) : List CString := param.argv.take param.argc.toNat

/-- `clp_subcmd(param) != NULL` -/
def clpSubcmd (param : Posparam) : Bool := param.cvtsubcmd && !param.cvtparms.isEmpty

/-- `struct clp_posparam *`, the start of a vector. -/
abbrev VecId := Nat

/-- `struct clp_option`; its callbacks are given the option's argument. -/
structure ClpOption where
  optopt : Char
  excludes : Option CString
  cvtfunc : Option (Option CString → Int)
  action : Option (Option CString → Int)
  after : Option (Option CString → Int)
  paramv : Option VecId

/-- The excludes list of one option names another. -/
def excludesOpt (excludes : Option CString) (optopt : Char) : Bool :=
  match excludes with
  | none => false
  | some list =>
      if list.head? = some '^' then !list.contains optopt
      else list.head? = some '*' || list.contains optopt

section
variable (optionv : List ClpOption)

def clpFind (c : Char) : Option (Fin optionv.length) :=
  optionv.findFinIdx? fun o => o.optopt == c

def clpExcludes2 (l r : Fin optionv.length) : Bool :=
  l != r &&
    (excludesOpt (optionv.get l).excludes (optionv.get r).optopt ||
      excludesOpt (optionv.get r).excludes (optionv.get l).optopt ||
      ((optionv.get l).paramv.isSome && (optionv.get r).paramv.isSome &&
        (optionv.get l).paramv != (optionv.get r).paramv))

def clpExcludes (count : Fin optionv.length → Nat) (option : Fin optionv.length) (given : Nat) :
    Option (Fin optionv.length) :=
  (List.finRange optionv.length).find? fun o => given ≤ count o && clpExcludes2 optionv option o

/-- What a call of `getopt_long` gives, as long as it gives anything. -/
inductive Getopt where
  | opt (c : Char) (optarg : Option CString)
  /-- `'?'` -/
  | invalid
  /-- `':'` -/
  | missing

/-- Where the option loop of `clp_parsev_impl` returns. -/
inductive Stop where
  | invalid
  | missing
  | unexpected
  | excluded (x : Fin optionv.length)
  | convert (rc : Int)
  | action (rc : Int)

/-- `(rc > 0) ? rc : 0` -/
def clpStatus (rc : Int) : Int := if rc > 0 then rc else 0

def Stop.rc : Stop optionv → Int
  | .invalid | .missing | .excluded _ => EX_USAGE
  | .unexpected => EX_SOFTWARE
  | .convert rc | .action rc => clpStatus rc

/-- The variables of the option loop: `given` of each option, `paramv`, and the
list at `options_head`, each with its `optarg`. -/
structure OptState where
  given : Fin optionv.length → Nat
  optarg : Fin optionv.length → Option CString
  paramv : Option VecId
  afters : List (Fin optionv.length)

/-- The body of the option loop for an option letter. -/
def takeOption (st : OptState optionv) (c : Char) (optarg : Option CString) :
    Except (Stop optionv) (OptState optionv) :=
  match clpFind optionv c with
  | none => .error .unexpected
  | some o =>
      match clpExcludes optionv st.given o 1 with
      | some x => .error (.excluded x)
      | none =>
          let st' : OptState optionv :=
            { given := update st.given o (st.given o + 1)
              optarg := update st.optarg o optarg
              paramv := (optionv.get o).paramv.or st.paramv
              afters := if (optionv.get o).after.isSome && st.given o == 0 then st.afters ++ [o]
                else st.afters }
          let rc := (optionv.get o).cvtfunc.elim 0 (· optarg)
          if rc ≠ 0 then .error (.convert rc)
          else
            let rc := (optionv.get o).action.elim 0 (· optarg)
            if rc ≠ 0 then .error (.action rc) else .ok st'

def optionLoop : OptState optionv → List Getopt → Except (Stop optionv) (OptState optionv)
  | st, [] => .ok st
  | _, .invalid :: _ => .error .invalid
  | _, .missing :: _ => .error .missing
  | st, .opt c optarg :: events =>
      match takeOption optionv st c optarg with
      | .error stop => .error stop
      | .ok st' => optionLoop st' events

def OptState.start (paramv : Option VecId) : OptState optionv where
  given := fun _ => 0
  optarg := fun _ => none
  paramv := paramv
  afters := []

/-- What the `after` procedures of the given options return. -/
def OptState.afterRcs (st : OptState optionv) : List Int :=
  st.afters.map fun o => (optionv.get o).after.elim 0 (· (st.optarg o))

end

/-- Where a row of callbacks stops, and what is returned then. -/
def stopAt (rcs : List Int) : Option Int := (rcs.find? (· != 0)).map clpStatus

/-- `len >= 3 && 0 == strncmp(namebuf + len - 3, "...", 3)` -/
def endsInDots (namebuf : CString) : Bool :=
  3 ≤ namebuf.length && namebuf.drop (namebuf.length - 3) == ['.', '.', '.']

/-- `clp_posparam_minmax` sets these two of a parameter. -/
def setMinmax (param : Posparam) : Posparam :=
  let (isoptional, namebuf) := clpUnbracket param.name 128
  { param with
    posmin := if isoptional ≠ 0 then 0 else 1
    posmax := if endsInDots namebuf then 1024 else if clpSubcmd param then 1024 else 1 }

/-- `clp_posparam_minmax`: `*posminp`, `*posmaxp`, and the vector after it. -/
def clpPosparamMinmax : List Posparam → Int × Int × List Posparam
  | [] => (0, 0, [])
  | param :: paramv =>
      let param' := setMinmax param
      if clpSubcmd param then (param'.posmin, param'.posmax, param' :: paramv)
      else
        let (posmin, posmax, paramv') := clpPosparamMinmax paramv
        (param'.posmin + posmin, param'.posmax + posmax, param' :: paramv')

/-- How many of the `argc` remaining arguments a parameter is assigned, when
`posmin` are still needed for it and those after it. -/
def share (param : Posparam) (argc posmin : Int) : Int :=
  if param.posmin = 1 then
    if param.posmax > 1 then 1 + (argc - posmin) else 1
  else if argc > posmin then
    if param.posmax > 1 then argc - posmin else 1
  else 0

/-- The loop that distributes the remaining arguments to the parameters. -/
def distribute : List Posparam → Int → Int → List CString → List Posparam
  | [], _, _, _ => []
  | param :: paramv, argc, posmin, argv =>
      if argc > 0 then
        let n := share param argc posmin
        let posmin' := if param.posmin = 1 then posmin - 1 else posmin
        let param' := { param with argv, argc := n }
        if clpSubcmd param then param' :: paramv
        else param' :: distribute paramv (argc - n) posmin' (argv.drop n.toNat)
      else param :: paramv

/-- The calls made for the arguments of the parameter at place `k`, and where
they stop. -/
def convertArgs (k : Nat) (param : Posparam) : List CString → List (Nat × CString) × Option Int
  | [] => ([], none)
  | arg :: args =>
      let call := if param.cvtfunc.isSome then [(k, arg)] else []
      match stopAt [param.cvtfunc.elim 0 (· arg), param.action.elim 0 (· param.args)] with
      | some rc => (call, some rc)
      | none => ((call ++ (convertArgs k param args).1), (convertArgs k param args).2)

/-- The calls of all conversion procedures, in order, and where they stop. -/
def convertAll : Nat → List Posparam → List (Nat × CString) × Option Int
  | _, [] => ([], none)
  | k, param :: paramv =>
      match convertArgs k param param.args with
      | (calls, some rc) => (calls, some rc)
      | (calls, none) => ((calls ++ (convertAll (k + 1) paramv).1), (convertAll (k + 1) paramv).2)

/-- What the `after` procedures of the filled parameters return. -/
def afterParams (paramv : List Posparam) : List Int :=
  (paramv.filter fun param => param.argc > 0).map fun param => param.after.elim 0 (· param.args)

/-- What a parse leaves: the value returned, the positional vectors, the
assignment that was made, and the conversions called for it. -/
structure Parse where
  rc : Int
  mem : VecId → List Posparam
  assigned : Option (List Posparam)
  calls : List (Nat × CString)

/-- `clp_parsev_impl` from the end of its option loop. -/
def parsePositional (mem : VecId → List Posparam) (paramv : Option VecId) (afterRcs : List Int)
    (argv : List CString) : Parse :=
  match paramv with
  | none => ⟨(stopAt afterRcs).getD 0, mem, none, []⟩
  | some v =>
      let (posmin, posmax, params) := clpPosparamMinmax (mem v)
      let mem := update mem v params
      if argv.length < posmin ∨ argv.length > posmax then ⟨EX_USAGE, mem, none, []⟩
      else
        match stopAt afterRcs with
        | some rc => ⟨rc, mem, none, []⟩
        | none =>
            let params := distribute params argv.length posmin argv
            let (calls, stop) := convertAll 0 params
            ⟨(stop.or (stopAt (afterParams params))).getD 0, update mem v params, some params, calls⟩

/-- What `getopt_long` makes of a command line: the options, and the arguments
that remain. -/
structure Scan where
  events : List Getopt
  rest : List CString

/-- The parser's fields of a parameter at the start of a parse. -/
def Posparam.reset (param : Posparam) : Posparam :=
  { param with posmin := 0, posmax := 0, argc := 0, argv := [] }

/-- The vectors once `clp_parsev` has reset the one that it is passed. -/
def resetMain (paramv : Option VecId) (mem : VecId → List Posparam) : VecId → List Posparam :=
  match paramv with
  | none => mem
  | some v => update mem v ((mem v).map Posparam.reset)

/-- `clp_parsev` trims the excludes lists. -/
def trimOptions (optionv : List ClpOption) : List ClpOption :=
  optionv.map fun o => { o with excludes := clpTrim o.excludes }

/-- `clp_parsev`. The vectors in memory are those of the caller, and `getopt`
stands for the scan by `getopt_long` with the tables made from the options. -/
def clpParsev (getopt : List ClpOption → List CString → Scan) (mem : VecId → List Posparam)
    (argv : List CString) (optionv : List ClpOption) (paramv : Option VecId) : Parse :=
  if argv.isEmpty then ⟨0, mem, none, []⟩
  else
    let optionv := trimOptions optionv
    let mem := resetMain paramv mem
    let scan := getopt optionv argv
    match optionLoop optionv (OptState.start optionv paramv) scan.events with
    | .error stop => ⟨stop.rc, mem, none, []⟩
    | .ok st => parsePositional mem st.paramv st.afterRcs scan.rest

end Nct
