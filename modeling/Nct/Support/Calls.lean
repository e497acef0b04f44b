import Mathlib.Logic.Basic

/-! Programs that call procedures they know nothing of, and end at the first answer
that stops them. The answers may depend on all calls made before. A program follows
a script when the calls it is to make do not depend on them. -/
namespace Calls

universe u v w x

variable {Call : Type u} {Answer : Type x} {Stop : Type v} {α : Type w} {β : Type w}

/-- What is answered to a call after others. -/
abbrev World (Call : Type u) (Answer : Type x) := List Call → Call → Answer

/-- What a program does in a world, after the calls that have been made. -/
def Prog (Call : Type u) (Answer : Type x) (Stop : Type v) (α : Type w) :=
  World Call Answer → List Call → List Call × Except Stop α

/-- Do the first program and, if it gets through, the second. -/
def Prog.andThen (p : Prog Call Answer Stop α) (f : α → Prog Call Answer Stop β) : Prog Call Answer Stop β :=
  fun world log =>
    match p world log with
    | (log, .ok a) => f a world log
    | (log, .error e) => (log, .error e)

/-- End with a result. -/
def give (res : Except Stop α) : Prog Call Answer Stop α := fun _ log => (log, res)

instance : Monad (Prog Call Answer Stop) where
  pure a := give (.ok a)
  bind := Prog.andThen

/-- Make a call, and end if the answer says so. -/
def call (stops : Answer → Option Stop) (c : Call) : Prog Call Answer Stop PUnit := fun world log =>
  (log ++ [c], match stops (world log c) with
    | none => .ok ⟨⟩
    | some e => .error e)

/-- Make the calls one after another. -/
def all (stops : Answer → Option Stop) : List Call → Prog Call Answer Stop PUnit
  | [] => give (.ok ⟨⟩)
  | c :: calls => (call stops c).andThen fun _ => all stops calls

/-- The program makes these calls, as far as the answers let it, and ends so. -/
def Prog.Follows (p : Prog Call Answer Stop α) (stops : Answer → Option Stop) (calls : List Call)
    (res : Except Stop α) : Prop :=
  p = (all stops calls).andThen fun _ => give res

section
variable {stops : Answer → Option Stop} {p : Prog Call Answer Stop α} {f : α → Prog Call Answer Stop β} {calls more : List Call}

theorem bind_eq (p : Prog Call Answer Stop α) (f : α → Prog Call Answer Stop β) : p >>= f = p.andThen f := rfl

theorem give_andThen (a : α) (f : α → Prog Call Answer Stop β) : (give (.ok a)).andThen f = f a := rfl

theorem stop_andThen (e : Stop) (f : α → Prog Call Answer Stop β) :
    (give (.error e) : Prog Call Answer Stop α).andThen f = give (.error e) := rfl

/-- Programs compose in whatever brackets. -/
theorem andThen_assoc {γ : Type w} (p : Prog Call Answer Stop α) (f : α → Prog Call Answer Stop β)
    (g : β → Prog Call Answer Stop γ) :
    (p.andThen f).andThen g = p.andThen fun a => (f a).andThen g := by
  funext world log
  simp only [Prog.andThen]
  rcases p world log with ⟨log', e | a⟩ <;> rfl

/-- The calls of two rows are made one row after the other. -/
theorem all_append (calls more : List Call) :
    all stops (calls ++ more) = (all stops calls).andThen fun _ => all stops more := by
  induction calls with
  | nil => rfl
  | cons c calls ih => rw [List.cons_append, all, ih, all, andThen_assoc]

theorem follows_give (res : Except Stop α) : (give res : Prog Call Answer Stop α).Follows stops [] res := rfl

/-- Each call of the row is made, if none stops it. -/
theorem follows_all (calls : List Call) :
    (all stops calls : Prog Call Answer Stop PUnit).Follows stops calls (.ok ⟨⟩) := by
  unfold Prog.Follows
  induction calls with
  | nil => rfl
  | cons c calls ih => rw [all, andThen_assoc, ← ih]

theorem follows_call (c : Call) : (call stops c : Prog Call Answer Stop PUnit).Follows stops [c] (.ok ⟨⟩) := by
  funext world log
  simp only [all, Prog.andThen, call, give]
  cases stops (world log c) <;> rfl

/-- Two scripts one after the other are a script. -/
theorem Prog.Follows.andThen {a : α} {res : Except Stop β} (h : p.Follows stops calls (.ok a))
    (hNext : (f a).Follows stops more res) : (p.andThen f).Follows stops (calls ++ more) res := by
  unfold Prog.Follows at *
  rw [h, andThen_assoc, all_append, andThen_assoc]
  simp only [give_andThen, hNext]

/-- The second program makes its calls after those of the first. -/
theorem Prog.Follows.next {p : Prog Call Answer Stop PUnit} {q : Prog Call Answer Stop β} {res : Except Stop β}
    (h : p.Follows stops calls (.ok ⟨⟩)) (hNext : q.Follows stops more res) :
    (p.andThen fun _ => q).Follows stops (calls ++ more) res :=
  h.andThen (f := fun _ => q) hNext

/-- What comes after the end is not done. -/
theorem Prog.Follows.stop {e : Stop} (h : p.Follows stops calls (.error e)) :
    (p.andThen f).Follows stops calls (.error e) := by
  unfold Prog.Follows at *
  rw [h, andThen_assoc]
  simp only [stop_andThen]

end

/-- In this world the program ends so, whatever has been called before. -/
def Prog.Yields (world : World Call Answer) (p : Prog Call Answer Stop α) (res : Except Stop α) : Prop :=
  ∀ log, (p world log).2 = res

section
variable {world : World Call Answer} {p : Prog Call Answer Stop α} {f : α → Prog Call Answer Stop β}

theorem yields_give (res : Except Stop α) : Prog.Yields world (give res) res := fun _ => rfl

/-- Once the first has got through, the second decides. -/
theorem Prog.Yields.andThen {a : α} {res : Except Stop β} (h : p.Yields world (.ok a))
    (hNext : (f a).Yields world res) : (p.andThen f).Yields world res := by
  intro log
  have hEnd := h log
  rcases hRun : p world log with ⟨log', res'⟩
  rw [hRun] at hEnd
  obtain rfl := hEnd
  simp only [Prog.andThen, hRun]
  exact hNext log'

/-- A program that ends early ends the whole. -/
theorem Prog.Yields.stop {e : Stop} (h : p.Yields world (.error e)) :
    (p.andThen f).Yields world (.error e) := by
  intro log
  have hEnd := h log
  rcases hRun : p world log with ⟨log', res'⟩
  rw [hRun] at hEnd
  obtain rfl := hEnd
  simp only [Prog.andThen, hRun]

end

end Calls
