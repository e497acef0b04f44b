import Nct.Clp

/-! The table of long options that `clp_parsev_impl` makes for `getopt_long`, in
memory that `clp_parsev` has allocated and not cleared. -/
namespace Nct

open Function (update)

/-- `struct option`. `flag` is an address, and `none` if it is NULL. -/
structure LongOption where
  name : Option CString
  hasArg : Int
  flag : Option Nat
  val : Char
  deriving DecidableEq

def LongOption.zero : LongOption := ⟨none, 0, none, '\x00'⟩

/-- The other fields of `struct clp_option` that the table is made from. `toggles`
says that its `cvtfunc` is `clp_cvt_bool` or `clp_cvt_incr`. -/
structure NamedOption extends ClpOption where
  argname : Option CString
  longopt : Option CString
  toggles : Bool

/-- What `clp_parsev` makes of these fields. -/
def NamedOption.prepare (o : NamedOption) : NamedOption :=
  let argname := clpTrim o.argname
  if o.toggles then { o with argname := none }
  else if o.longopt.isNone ∧ argname.any (1 < ·.length) then { o with argname, longopt := argname }
  else { o with argname }

def isgraph (c : Char) : Bool := '!' ≤ c && c ≤ '~'

def clpOptoptValid (c : Char) : Bool := isgraph c && !([':', '?', '-'].contains c)

/-- The memory at `clp->longopts`, by entry, where the next entry goes, and
`clp->optstring`. -/
structure Tables where
  longopts : Nat → LongOption
  longopt : Nat
  optstring : CString

def Tables.start (old : Nat → LongOption) : Tables := ⟨update old 0 .zero, 0, ['+', ':']⟩

def Tables.add (t : Tables) (o : NamedOption) : Tables :=
  if !clpOptoptValid o.optopt then t
  else if (t.optstring.drop 2).contains o.optopt then t
  else
    let optstring := t.optstring ++ o.optopt :: if o.argname.isSome then [':'] else []
    match o.longopt with
    | none => { t with optstring }
    | some name =>
        let entry :=
          { t.longopts t.longopt with
            name := some name
            val := o.optopt
            hasArg := if o.argname.isSome then 1 else 0 }
        { longopts := update t.longopts t.longopt entry, longopt := t.longopt + 1, optstring }

def Tables.close (t : Tables) : Tables :=
  if t.longopt > 0 then
    { t with
      longopts := update t.longopts t.longopt .zero
      optstring := t.optstring ++ ['W', ';'] }
  else t

/-- The tables that `getopt_long` is called with. -/
def getoptTables (old : Nat → LongOption) (optionv : List NamedOption) : Tables :=
  ((optionv.map NamedOption.prepare).foldl Tables.add (.start old)).close

/-- The entries up to the one that ends the table. -/
def Tables.handed (t : Tables) : List LongOption := (List.range (t.longopt + 1)).map t.longopts

/-- The options whose letter is valid and not that of a kept one before. -/
def keptOptions (seen : List Char) : List NamedOption → List NamedOption
  | [] => []
  | o :: optionv =>
      if clpOptoptValid o.optopt ∧ o.optopt ∉ seen then
        o :: keptOptions (o.optopt :: seen) optionv
      else keptOptions seen optionv

/-- The entry that an option asks for. -/
def NamedOption.entry (o : NamedOption) : Option LongOption :=
  o.longopt.map fun name => ⟨some name, if o.argname.isSome then 1 else 0, none, o.optopt⟩

def longEntries (optionv : List NamedOption) : List LongOption :=
  (keptOptions [] (optionv.map NamedOption.prepare)).filterMap NamedOption.entry

/-- Whatever was in memory before, the table has the entries of the long options,
each with no `flag`, and then one of zeros. Table and option string fit their
parts of the memory: `optionc + 1` entries and `optionc * 2 + 8` bytes. -/
def TablesRight (optionv : List NamedOption) : Prop :=
  ∀ old, (getoptTables old optionv).handed = longEntries optionv ++ [.zero] ∧
    (getoptTables old optionv).handed.length ≤ optionv.length + 1 ∧
    (getoptTables old optionv).optstring.length + 1 ≤ optionv.length * 2 + 8

/-- The memory once the first entry has been cleared. -/
def cleared (old : Nat → LongOption) : Nat → LongOption := update old 0 .zero

/-- The tables after `n` options: these entries are filled, but for `flag`, and
the letters of the kept options are in the option string. -/
structure Tables.Holds (t : Tables) (old : Nat → LongOption) (entries : List LongOption)
    (seen : List Char) (n : Nat) : Prop where
  count : t.longopt = entries.length
  memory : ∀ i, t.longopts i =
    (entries[i]?.map fun entry => { entry with flag := (cleared old i).flag }).getD (cleared old i)
  letters : ∀ c, clpOptoptValid c → (c ∈ t.optstring.drop 2 ↔ c ∈ seen)
  opened : 2 ≤ t.optstring.length
  short : t.optstring.length ≤ 2 + n * 2
  few : entries.length ≤ n

section
variable {t : Tables} {old : Nat → LongOption} {entries : List LongOption} {seen : List Char}
  {n : Nat} {o : NamedOption}

theorem Tables.start_holds (old : Nat → LongOption) : (Tables.start old).Holds old [] [] 0 where
  count := rfl
  memory := by simp [Tables.start, cleared]
  letters := by simp [Tables.start]
  opened := by simp [Tables.start]
  short := by simp [Tables.start]
  few := le_rfl

theorem clpOptoptValid_ne {c : Char} (h : clpOptoptValid c) : c ≠ ':' := by
  rintro rfl
  exact absurd h (by decide)

/-- An option that is not kept leaves the tables as they are. -/
theorem Tables.Holds.skip (h : t.Holds old entries seen n) : t.Holds old entries seen (n + 1) where
  count := h.count
  memory := h.memory
  letters := h.letters
  opened := h.opened
  short := by
    have := h.short
    omega
  few := by
    have := h.few
    omega

/-- The letter of a kept option is put into the option string. -/
theorem Tables.Holds.keepLetter (h : t.Holds old entries seen n) (letter : Char)
    (argname : Option CString) :
    ({ t with
      optstring := t.optstring ++ letter :: if argname.isSome then [':'] else [] } : Tables).Holds
        old entries (letter :: seen) (n + 1) where
  count := h.count
  memory := h.memory
  letters c hc := by
    have hColon : c ∉ if argname.isSome then [':'] else [] := by
      split
      · simpa using clpOptoptValid_ne hc
      · exact List.not_mem_nil
    rw [List.drop_append_of_le_length h.opened, List.mem_append, h.letters c hc, List.mem_cons,
      List.mem_cons, or_iff_left hColon, or_comm]
  opened := by
    have := h.opened
    simp only [List.length_append]
    omega
  short := by
    have := h.short
    simp only [List.length_append, List.length_cons]
    split <;> simp only [List.length_singleton, List.length_nil] <;> omega
  few := by
    have := h.few
    omega

/-- A long option fills the next entry, with what was in memory as its `flag`. -/
theorem Tables.Holds.fill (h : t.Holds old entries seen (n + 1)) (hRoom : entries.length ≤ n)
    (entry : LongOption) :
    ({ t with
      longopts := update t.longopts t.longopt
        { entry with flag := (t.longopts t.longopt).flag }
      longopt := t.longopt + 1 } : Tables).Holds old (entries ++ [entry]) seen (n + 1) where
  count := by simp [h.count]
  memory i := by
    have hNext := h.memory entries.length
    rw [List.getElem?_eq_none le_rfl, Option.map_none, Option.getD_none] at hNext
    rw [h.count]
    by_cases hi : i = entries.length
    · subst hi
      simp [hNext]
    · simp only [Function.update_of_ne hi, h.memory i]
      rcases Nat.lt_or_gt_of_ne hi with hLt | hGt
      · rw [List.getElem?_append_left hLt]
      · have hBeyond : (entries ++ [entry]).length ≤ i := by
          rw [List.length_append, List.length_singleton]
          exact hGt
        rw [List.getElem?_eq_none hGt.le, List.getElem?_eq_none hBeyond]
  letters := h.letters
  opened := h.opened
  short := h.short
  few := by simpa using hRoom

/-- One that is kept is appended. -/
theorem Tables.Holds.keep (h : t.Holds old entries seen n) (hValid : clpOptoptValid o.optopt)
    (hNew : o.optopt ∉ seen) :
    (t.add o).Holds old (entries ++ o.entry.toList) (o.optopt :: seen) (n + 1) := by
  have hAbsent : (t.optstring.drop 2).contains o.optopt = false := by
    simpa using (h.letters _ hValid).not.mpr hNew
  have hLetter := h.keepLetter o.optopt o.argname
  simp only [Tables.add, hValid, hAbsent, Bool.not_true, Bool.false_eq_true, if_false]
  cases hLong : o.longopt with
  | none => simpa [NamedOption.entry, hLong] using hLetter
  | some name =>
      have hFill := hLetter.fill h.few
        ⟨some name, if o.argname.isSome then 1 else 0, none, o.optopt⟩
      simpa [NamedOption.entry, hLong] using hFill

/-- An option with an invalid letter or one that is there is ignored. -/
theorem Tables.Holds.ignore (h : t.Holds old entries seen n)
    (hNot : ¬ (clpOptoptValid o.optopt ∧ o.optopt ∉ seen)) :
    (t.add o).Holds old entries seen (n + 1) := by
  have hSame : t.add o = t := by
    by_cases hValid : clpOptoptValid o.optopt
    · have hSeen : o.optopt ∈ seen := by simpa [hValid] using hNot
      have hThere := (h.letters _ hValid).mpr hSeen
      simp only [Tables.add, hValid, List.contains_iff_mem, hThere, Bool.not_true,
        Bool.false_eq_true, if_false, if_true]
    · simp [Tables.add, hValid]
  rw [hSame]
  exact h.skip

/-- By induction on the options. -/
theorem Tables.Holds.foldl (h : t.Holds old entries seen n) (optionv : List NamedOption) :
    ∃ seen', (optionv.foldl Tables.add t).Holds old
      (entries ++ (keptOptions seen optionv).filterMap NamedOption.entry) seen'
      (n + optionv.length) := by
  induction optionv generalizing t entries seen n with
  | nil => exact ⟨seen, by simpa [keptOptions] using h⟩
  | cons o optionv ih =>
      rw [List.foldl_cons, List.length_cons, keptOptions, Nat.add_comm optionv.length, ← Nat.add_assoc]
      split
      · next hKeep =>
          obtain ⟨seen', hRest⟩ := ih (h.keep hKeep.1 hKeep.2)
          refine ⟨seen', ?_⟩
          rw [List.filterMap_cons]
          cases hEntry : o.entry <;> simpa [hEntry] using hRest
      · next hNot => exact ih (h.ignore hNot)

/-- Closed, the table is the filled entries and one of zeros. -/
theorem Tables.Holds.handed (h : t.Holds old entries seen n) :
    t.close.handed =
      entries.mapIdx (fun i entry => { entry with flag := (cleared old i).flag }) ++ [.zero] := by
  have hLongopt : t.close.longopt = entries.length := by
    unfold Tables.close
    split <;> exact h.count
  have hBefore : ∀ i < entries.length, t.close.longopts i = t.longopts i := by
    intro i hi
    unfold Tables.close
    split
    · rw [h.count]
      exact Function.update_of_ne hi.ne _ _
    · rfl
  have hLast : t.close.longopts entries.length = .zero := by
    unfold Tables.close
    split
    · rw [← h.count]
      exact Function.update_self _ _ _
    · next hNone =>
        have hEmpty : entries.length = 0 := by
          have := h.count
          omega
        have hFirst := h.memory 0
        rw [List.getElem?_eq_none hEmpty.le] at hFirst
        rw [hEmpty, hFirst]
        rfl
  rw [Tables.handed, hLongopt, List.range_succ, List.map_append, List.map_singleton, hLast]
  congr 1
  apply List.ext_getElem
  · simp
  · intro i hi _
    have hIn : i < entries.length := by simpa using hi
    simp [hBefore i hIn, h.memory i, hIn]

/-- Each option takes at most two characters of `optstring`. -/
theorem Tables.Holds.close_short (h : t.Holds old entries seen n) :
    t.close.optstring.length + 1 ≤ n * 2 + 8 := by
  have hShort := h.short
  unfold Tables.close
  split
  · simp only [List.length_append, List.length_cons, List.length_nil]
    omega
  · omega

end

theorem longEntries_flag {optionv : List NamedOption} {entry : LongOption}
    (h : entry ∈ longEntries optionv) : entry.flag = none := by
  obtain ⟨o, -, hEntry⟩ := List.mem_filterMap.mp h
  obtain ⟨name, -, rfl⟩ := Option.map_eq_some_iff.mp hEntry
  rfl

/-- In every entry but the first, `flag` is what was in memory. -/
theorem getoptTables_handed (old : Nat → LongOption) (optionv : List NamedOption) :
    (getoptTables old optionv).handed =
        (longEntries optionv).mapIdx (fun i entry => { entry with flag := (cleared old i).flag }) ++
          [.zero] ∧
      (longEntries optionv).length ≤ optionv.length ∧
      (getoptTables old optionv).optstring.length + 1 ≤ optionv.length * 2 + 8 := by
  obtain ⟨seen, hHolds⟩ := (Tables.start_holds old).foldl (optionv.map NamedOption.prepare)
  rw [List.nil_append, List.length_map, Nat.zero_add] at hHolds
  exact ⟨hHolds.handed, hHolds.few, hHolds.close_short⟩

/-- The table is right for every memory just if at most one kept option is long. -/
theorem tables_right_iff (optionv : List NamedOption) :
    TablesRight optionv ↔ (longEntries optionv).length ≤ 1 := by
  constructor
  · intro hRight
    by_contra hMany
    have hTwo : 1 < (longEntries optionv).length := not_le.mp hMany
    let old : Nat → LongOption := fun _ => { LongOption.zero with flag := some 1 }
    have hSame := (getoptTables_handed old optionv).1.symm.trans (hRight old).1
    have hEntries := List.append_cancel_right hSame
    have hSecond := congrArg (fun entries => (entries[1]?).map LongOption.flag) hEntries
    have hFlag := longEntries_flag (List.getElem_mem hTwo)
    simp [hTwo, hFlag, cleared, old] at hSecond
  · intro hFew old
    obtain ⟨hHanded, hRoom, hShort⟩ := getoptTables_handed old optionv
    have hEntries : (longEntries optionv).mapIdx
        (fun i entry => { entry with flag := (cleared old i).flag }) = longEntries optionv := by
      apply List.ext_getElem
      · simp
      · intro i hi _
        have hIn : i < (longEntries optionv).length := by simpa using hi
        obtain rfl : i = 0 := by omega
        have hFlag := longEntries_flag (List.getElem_mem hIn)
        simp only [List.getElem_mapIdx]
        generalize (longEntries optionv)[0] = entry at hFlag ⊢
        cases entry
        simp_all [cleared, LongOption.zero]
    rw [hEntries] at hHanded
    exact ⟨hHanded, by simpa [hHanded] using hRoom, hShort⟩

/-- The options `-d` and `-j` of main. -/
def durationJobs : List NamedOption :=
  [⟨⟨'d', none, none, none, none, none⟩, some ['d', 'u', 'r', 'a', 't', 'i', 'o', 'n'], none, false⟩,
    ⟨⟨'j', none, none, none, none, none⟩, some ['j', 'o', 'b', 's', '_', 'm', 'a', 'x'], none, false⟩]

/-- The second has an address in `flag` where the memory had one. -/
theorem tables_staleFlag : ¬ ∀ optionv : List NamedOption, TablesRight optionv := by
  intro h
  have hHanded := (h durationJobs fun _ => { LongOption.zero with flag := some 4096 }).1
  have hSecond := congrArg (fun entries => (entries[1]?).map LongOption.flag) hHanded
  exact absurd hSecond (by decide)

end Nct
