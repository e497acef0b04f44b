import Nct.LongOpts
import Nct.Support.Linked
import Nct.Support.Run
import Nct.Support.Trails

/-! The list of positional vectors that `clp_parsev_impl` makes and `clp_help` goes
through. Its links are in the vectors, which options may share. -/
namespace Nct

open Function (update)
open Linked (Chain Ends)
open Transition (Run)

/-- Where `params_tail` points: to `clp->params`, or to the `next` of a vector's first
parameter. -/
inductive ParamsTail where
  | params
  | next (v : VecId)
  deriving DecidableEq, Repr

/-- `clp->params`, `params_tail`, and the `next` of each vector's first parameter. -/
structure Params where
  params : Option VecId
  tail : ParamsTail
  next : VecId → Option VecId

namespace Params

/-- `*params_tail = p` -/
def write (l : Params) (p : Option VecId) : Params :=
  match l.tail with
  | .params => { l with params := p }
  | .next v => { l with next := update l.next v p }

/-- `*params_tail = v; params_tail = &v->next; *params_tail = NULL` -/
def append (l : Params) (v : VecId) : Params := ({ l.write (some v) with tail := .next v }).write none

/-- The main vector, if there is one, is the start of the list. -/
def start (paramv : Option VecId) (next : VecId → Option VecId) : Params :=
  ⟨paramv, paramv.elim .params .next, next⟩

end Params

/-- `clp_parsev` resets the links of the main vector's parameters, of which there may
be none. -/
def resetNext (mem : VecId → List Posparam) (paramv : Option VecId) (next : VecId → Option VecId) :
    VecId → Option VecId :=
  match paramv with
  | none => next
  | some v => if (mem v).isEmpty then next else update next v none

/-- What the loop over the options makes. -/
structure OptTables where
  tables : Tables
  list : Params

def OptTables.add (t : OptTables) (o : NamedOption) : OptTables :=
  if !clpOptoptValid o.optopt then t
  else if (t.tables.optstring.drop 2).contains o.optopt then t
  else { tables := t.tables.add o, list := o.paramv.elim t.list t.list.append }

/-- A call of `clp_parsev`, with the memory it finds. -/
structure ParseCall where
  old : Nat → LongOption
  mem : VecId → List Posparam
  optionv : List NamedOption
  paramv : Option VecId

/-- The tables and the list of vectors that the call makes. -/
def ParseCall.tables (call : ParseCall) (next : VecId → Option VecId) : OptTables :=
  let t := (call.optionv.map NamedOption.prepare).foldl OptTables.add
    ⟨.start call.old, .start call.paramv (resetNext call.mem call.paramv next)⟩
  { t with tables := t.tables.close }

/-- The list, whose links stay in memory. -/
def ParseCall.params (call : ParseCall) (next : VecId → Option VecId) : Params := (call.tables next).list

def parseLinks (next : VecId → Option VecId) (call : ParseCall) : Option (VecId → Option VecId) :=
  some (call.params next).next

/-- The main vector and those of the options with a valid letter that is not that of
an option before, in their order. -/
def ParseCall.vectors (call : ParseCall) : List VecId :=
  call.paramv.toList ++ (keptOptions [] (call.optionv.map NamedOption.prepare)).filterMap (·.paramv)

/-- The list ends and has each of the vectors once. -/
def Params.Complete (l : Params) (vectors : List VecId) : Prop :=
  ∃ nodes, Chain l.next l.params nodes ∧ ∀ v ∈ vectors, nodes.count v = 1

/-- The list is this path, from its start to the vector that `params_tail` is in, and
then what its `next` still links to it. -/
structure Params.Lists (l : Params) (path rest : List VecId) : Prop where
  chain : Chain l.next l.params (path ++ rest)
  tail : l.tail = path.getLast?.elim .params .next

section
variable {l : Params} {path rest : List VecId} {v : VecId} {t : OptTables} {old : Nat → LongOption}
  {entries : List LongOption} {seen : List Char} {n : Nat} {next : VecId → Option VecId}

/-- A vector is put at the end of the list, and taken from where it was before with
all that came after it. -/
theorem Params.Lists.append (h : l.Lists path rest) (v : VecId) :
    (l.append v).Lists (Trails.visit path v) [] := by
  have hLast : (Trails.visit path v).getLast? = some v := List.getLast?_concat
  rcases List.eq_nil_or_concat path with rfl | ⟨before, u, rfl⟩
  · have hTail : l.tail = .params := h.tail
    refine ⟨?_, ?_⟩
    · simp [Params.append, Params.write, hTail, Trails.visit, Chain]
    · rw [hLast]
      simp [Params.append, Params.write, hTail]
  · have hTail : l.tail = .next u := by simpa using h.tail
    have hChain := h.chain
    rw [List.concat_eq_append, List.append_assoc, List.singleton_append] at hChain
    refine ⟨?_, ?_⟩
    · simp only [Params.append, Params.write, hTail, List.append_nil]
      rw [List.concat_eq_append]
      exact hChain.link
    · rw [hLast]
      simp [Params.append, Params.write, hTail]

theorem Params.Lists.foldl (h : l.Lists path rest) (vectors : List VecId) :
    (vectors.foldl Params.append l).Lists (vectors.foldl Trails.visit path)
      (if vectors = [] then rest else []) := by
  induction vectors generalizing l path rest with
  | nil => simpa using h
  | cons v vectors ih => simpa using ih (h.append v)

/-- The tables of long options are made as without the vectors. -/
theorem OptTables.add_tables (t : OptTables) (o : NamedOption) : (t.add o).tables = t.tables.add o := by
  unfold OptTables.add
  split
  · next hInvalid => rw [Tables.add, if_pos hInvalid]
  · next hValid =>
      split
      · next hThere => rw [Tables.add, if_neg hValid, if_pos hThere]
      · rfl

/-- The loop appends the vectors of the kept options. -/
theorem foldl_add_list (hHolds : t.tables.Holds old entries seen n) (optionv : List NamedOption) :
    (optionv.foldl OptTables.add t).list =
      ((keptOptions seen optionv).filterMap (·.paramv)).foldl Params.append t.list := by
  induction optionv generalizing t entries seen n with
  | nil => rfl
  | cons o optionv ih =>
      rw [List.foldl_cons, keptOptions]
      by_cases hKeep : clpOptoptValid o.optopt ∧ o.optopt ∉ seen
      · obtain ⟨hValid, hNew⟩ := hKeep
        have hAbsent : (t.tables.optstring.drop 2).contains o.optopt = false := by
          simpa using (hHolds.letters _ hValid).not.mpr hNew
        have hNext := hHolds.keep hValid hNew
        rw [← t.add_tables o] at hNext
        have hList : (t.add o).list = o.paramv.elim t.list t.list.append := by
          simp only [OptTables.add, hValid, hAbsent, Bool.not_true, Bool.false_eq_true, if_false]
        rw [ih hNext, if_pos ⟨hValid, hNew⟩, hList, List.filterMap_cons]
        cases o.paramv <;> rfl
      · have hNext := hHolds.ignore hKeep
        rw [← t.add_tables o] at hNext
        have hList : (t.add o).list = t.list := by
          by_cases hValid : clpOptoptValid o.optopt
          · have hSeen : o.optopt ∈ seen := by simpa [hValid] using hKeep
            have hThere := (hHolds.letters _ hValid).mpr hSeen
            simp [OptTables.add, hValid, hThere]
          · simp [OptTables.add, hValid]
        rw [ih hNext, if_neg hKeep, hList]

/-- A vector at the tail of the list ends it. -/
theorem Params.write_ends (h : Ends l.next) : Ends (l.append v).next := by
  cases hTail : l.tail with
  | params => simpa [Params.append, Params.write, hTail] using h.cut v
  | next u => simpa [Params.append, Params.write, hTail] using h.link u v

theorem Params.foldl_ends (h : Ends l.next) (vectors : List VecId) :
    Ends (vectors.foldl Params.append l).next := by
  induction vectors generalizing l with
  | nil => exact h
  | cons v vectors ih => exact ih (Params.write_ends h)

theorem resetNext_ends (h : Ends next) (mem : VecId → List Posparam) (paramv : Option VecId) :
    Ends (resetNext mem paramv next) := by
  unfold resetNext
  split
  · exact h
  · split
    · exact h
    · exact h.cut _

end

section
variable (call : ParseCall) {next : VecId → Option VecId}

/-- The list is the main vector, then those of the options that are kept, in order. -/
theorem ParseCall.params_eq (next : VecId → Option VecId) :
    call.params next =
      ((keptOptions [] (call.optionv.map NamedOption.prepare)).filterMap (·.paramv)).foldl Params.append
        (.start call.paramv (resetNext call.mem call.paramv next)) :=
  foldl_add_list (Tables.start_holds call.old) _

theorem ParseCall.params_ends (h : Ends next) : Ends (call.params next).next := by
  rw [call.params_eq]
  exact Params.foldl_ends (resetNext_ends h _ _) _

/-- Whatever was parsed before, no list is without an end. -/
theorem run_ends (run : Run parseLinks (fun _ _ => True) (fun _ => none) next) : Ends next := by
  refine run.invariant (P := Ends) ?_ ?_
  · rintro (_ | v)
    · exact ⟨[], rfl⟩
    · exact ⟨[v], rfl, rfl⟩
  · rintro next call next' hEnds - hParse
    cases hParse
    exact call.params_ends hEnds

/-- It starts with the main vector and what an earlier parse has linked to it, if this
has no parameters. -/
theorem Params.start_lists (h : Ends next) (paramv : Option VecId) :
    ∃ rest, (Params.start paramv next).Lists paramv.toList rest := by
  cases paramv with
  | none => exact ⟨[], rfl, rfl⟩
  | some v =>
      obtain ⟨nodes, hChain⟩ := h (some v)
      obtain ⟨rest, rfl, hRest⟩ := hChain.pop
      exact ⟨rest, ⟨rfl, hRest⟩, rfl⟩

/-- The list is the path through the vectors, on which a vector that is given again
cuts off what was given after it. -/
theorem ParseCall.params_lists (h : Ends next) :
    ∃ rest, (call.params next).Lists (Trails.trail call.vectors) rest ∧
      (rest ≠ [] → call.vectors = call.paramv.toList) := by
  obtain ⟨rest, hStart⟩ := Params.start_lists (resetNext_ends h call.mem call.paramv) call.paramv
  have hTrail : Trails.trail call.vectors =
      ((keptOptions [] (call.optionv.map NamedOption.prepare)).filterMap (·.paramv)).foldl Trails.visit
        call.paramv.toList := by
    rw [Trails.trail, ParseCall.vectors, List.foldl_append]
    cases call.paramv <;> rfl
  have hLists := hStart.foldl
    ((keptOptions [] (call.optionv.map NamedOption.prepare)).filterMap (·.paramv))
  rw [← hTrail, ← call.params_eq] at hLists
  refine ⟨_, hLists, fun hRest => ?_⟩
  split at hRest
  · next hNone => rw [ParseCall.vectors, hNone, List.append_nil]
  · exact absurd rfl hRest

/-- The list is complete just if no vector is lost when another comes back. -/
theorem ParseCall.complete_iff (h : Ends next) :
    (call.params next).Complete call.vectors ↔ Trails.Kept call.vectors := by
  obtain ⟨rest, hLists, hRest⟩ := call.params_lists h
  have hChain := hLists.chain
  rw [← Trails.forall_mem_trail_iff]
  constructor
  · rintro ⟨nodes, hNodes, hOnce⟩ v hv
    obtain rfl := hNodes.unique hChain
    have hMem : v ∈ Trails.trail call.vectors ++ rest := by
      rw [← List.count_pos_iff, hOnce v hv]
      exact Nat.one_pos
    rcases List.mem_append.mp hMem with hTrail | hOld
    · exact hTrail
    · -- the main vector is the only one
      rw [hRest (List.ne_nil_of_mem hOld)] at hv ⊢
      cases hMain : call.paramv with
      | none =>
          rw [hMain] at hv
          cases hv
      | some m =>
          rw [hMain] at hv
          exact hv
  · intro hAll
    exact ⟨_, hChain, fun v hv =>
      List.count_eq_one_of_mem hChain.nodup (List.mem_append_left _ (hAll v hv))⟩

/-- After any earlier parses, the list ends. It is complete just if each vector that is
given between two uses of another is given again after the last of them. -/
theorem params_complete_iff (run : Run parseLinks (fun _ _ => True) (fun _ => none) next) :
    (∃ nodes, Chain (call.params next).next (call.params next).params nodes ∧ nodes.Nodup) ∧
      ((call.params next).Complete call.vectors ↔ Trails.Kept call.vectors) := by
  have hEnds := run_ends run
  obtain ⟨rest, hLists, -⟩ := call.params_lists hEnds
  exact ⟨⟨_, hLists.chain, hLists.chain.nodup⟩, call.complete_iff hEnds⟩

end

def vectorOption (optopt : Char) (v : VecId) : NamedOption :=
  ⟨⟨optopt, none, none, none, none, some v⟩, none, none, false⟩

/-- `-V` and `-h` share the vector 1, which has no parameters. -/
def versionHelp (optionv : List NamedOption) : ParseCall :=
  ⟨fun _ => .zero, fun _ => [], optionv, some 0⟩

/-- Two options next to each other may share a vector. -/
theorem params_complete_iff_adjacent :
    ((versionHelp [vectorOption 'V' 1, vectorOption 'h' 1, vectorOption 'x' 2]).params fun _ => none).Complete
      [0, 1, 1, 2] :=
  (params_complete_iff (versionHelp [vectorOption 'V' 1, vectorOption 'h' 1, vectorOption 'x' 2])
    .nil).2.mpr (by decide)

/-- Between the two, `-x` loses its vector. -/
theorem params_lostVector :
    ¬ ∀ (call : ParseCall) (next : VecId → Option VecId),
      Run parseLinks (fun _ _ => True) (fun _ => none) next →
      (call.params next).Complete call.vectors := by
  intro h
  have hComplete := h (versionHelp [vectorOption 'V' 1, vectorOption 'x' 2, vectorOption 'h' 1])
    (fun _ => none) .nil
  have hKept := (ParseCall.complete_iff _ (run_ends .nil)).mp hComplete
  exact absurd hKept (by decide)

end Nct
