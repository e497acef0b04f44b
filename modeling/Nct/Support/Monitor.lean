import Mathlib.Data.Finset.Card
import Mathlib.Logic.Function.Basic

/-! A mutex with a condition variable. A wait lets go of the mutex and falls
asleep in one step; a thread that has been woken takes the mutex again before it
returns. -/
namespace Monitor

open Function (update)

universe u v

variable {Tid : Type u}

/-- Who holds the mutex, and which of the waiting threads have not been woken. -/
structure State (Tid : Type u) where
  owner : Option Tid
  asleep : Tid → Bool

def State.idle : State Tid := ⟨none, fun _ => false⟩

def State.lock (m : State Tid) (t : Tid) : Option (State Tid) :=
  if m.owner = none then some { m with owner := some t } else none

def State.unlock (m : State Tid) : State Tid := { m with owner := none }

def State.broadcast (m : State Tid) : State Tid := { m with asleep := fun _ => false }

/-- A thread that has been woken takes the mutex again. -/
def State.relock (m : State Tid) (t : Tid) : Option (State Tid) :=
  if m.asleep t then none else m.lock t

theorem State.lock_eq_some {m m' : State Tid} {t : Tid} :
    m.lock t = some m' ↔ m.owner = none ∧ { m with owner := some t } = m' := by
  simp [State.lock]

theorem State.relock_eq_some {m m' : State Tid} {t : Tid} :
    m.relock t = some m' ↔
      m.asleep t = false ∧ m.owner = none ∧ { m with owner := some t } = m' := by
  simp [State.relock, State.lock]

section
variable [DecidableEq Tid]

/-- A thread that holds the mutex begins to wait. -/
def State.sleep (m : State Tid) (t : Tid) : State Tid := ⟨none, update m.asleep t true⟩

/-- One thread is woken, which may happen at any time. -/
def State.rouse (m : State Tid) (t : Tid) : State Tid := { m with asleep := update m.asleep t false }

theorem State.rouse_awake {m : State Tid} {t u : Tid} (h : m.asleep u = false) :
    (m.rouse t).asleep u = false := by
  by_cases hu : u = t
  · subst hu
    exact Function.update_self _ _ _
  · exact (Function.update_of_ne hu _ _).trans h

theorem State.asleep_of_rouse {m : State Tid} {t u : Tid} (h : (m.rouse t).asleep u = true) :
    m.asleep u = true := by
  by_contra hNot
  exact absurd ((State.rouse_awake (by simpa using hNot)).symm.trans h) (by simp)

end

section
variable {Pc : Type v} {pc : Tid → Pc} {m : State Tid} {t : Tid}

/-- The threads at places where they hold the mutex are those that own it. -/
def Guarded (holds : Pc → Prop) (pc : Tid → Pc) (m : State Tid) : Prop :=
  ∀ t, holds (pc t) ↔ m.owner = some t

variable {holds : Pc → Prop}

/-- One thread at most is where the mutex is held. -/
theorem Guarded.exclusive (h : Guarded holds pc m) {u : Tid} (ht : holds (pc t))
    (hu : holds (pc u)) : t = u :=
  Option.some.inj (((h t).mp ht).symm.trans ((h u).mp hu))

/-- A variable counts the threads at certain places. -/
def Tally (counted : Pc → Prop) (pc : Tid → Pc) (n : Int) : Prop :=
  ∃ threads : Finset Tid, (∀ t, t ∈ threads ↔ counted (pc t)) ∧ n = threads.card

variable {counted : Pc → Prop} {n : Int}

/-- A thread that is counted makes the count positive. -/
theorem Tally.pos (h : Tally counted pc n) (ht : counted (pc t)) : 0 < n := by
  obtain ⟨threads, hMem, rfl⟩ := h
  exact_mod_cast Finset.card_pos.mpr ⟨t, (hMem t).mpr ht⟩

variable [DecidableEq Tid]

/-- The owner goes on to a place where it holds the mutex still. -/
theorem Guarded.stay (h : Guarded holds pc m) {p : Pc} (hp : holds p ↔ holds (pc t))
    {m' : State Tid} (hOwner : m'.owner = m.owner) : Guarded holds (update pc t p) m' := by
  intro u
  rw [hOwner, ← h u]
  by_cases hu : u = t
  · subst hu
    rw [Function.update_self, hp]
  · rw [Function.update_of_ne hu]

/-- A thread takes the free mutex. -/
theorem Guarded.take (h : Guarded holds pc m) (hFree : m.owner = none) {p : Pc} (hp : holds p)
    {m' : State Tid} (hOwner : m'.owner = some t) : Guarded holds (update pc t p) m' := by
  intro u
  rw [hOwner]
  by_cases hu : u = t
  · subst hu
    simpa using hp
  · rw [Function.update_of_ne hu, h u, hFree]
    simp [Ne.symm hu]

/-- The owner lets go of the mutex. -/
theorem Guarded.release (h : Guarded holds pc m) (ht : holds (pc t)) {p : Pc} (hp : ¬ holds p)
    {m' : State Tid} (hOwner : m'.owner = none) : Guarded holds (update pc t p) m' := by
  intro u
  rw [hOwner]
  by_cases hu : u = t
  · subst hu
    simpa using hp
  · rw [Function.update_of_ne hu]
    simpa using fun hHolds => hu (h.exclusive hHolds ht)

theorem Tally.stay (h : Tally counted pc n) {p : Pc} (hp : counted p ↔ counted (pc t)) :
    Tally counted (update pc t p) n := by
  obtain ⟨threads, hMem, hCard⟩ := h
  refine ⟨threads, fun u => ?_, hCard⟩
  rw [hMem u]
  by_cases hu : u = t
  · subst hu
    rw [Function.update_self, hp]
  · rw [Function.update_of_ne hu]

/-- A thread comes to a place that is counted. -/
theorem Tally.enter (h : Tally counted pc n) (ht : ¬ counted (pc t)) {p : Pc} (hp : counted p) :
    Tally counted (update pc t p) (n + 1) := by
  obtain ⟨threads, hMem, rfl⟩ := h
  refine ⟨insert t threads, fun u => ?_, ?_⟩
  · by_cases hu : u = t
    · subst hu
      simpa using hp
    · rw [Function.update_of_ne hu, Finset.mem_insert, hMem u]
      simp [hu]
  · rw [Finset.card_insert_of_notMem fun hIn => ht ((hMem t).mp hIn)]
    push_cast
    rfl

/-- A thread leaves such a place. -/
theorem Tally.leave (h : Tally counted pc n) (ht : counted (pc t)) {p : Pc} (hp : ¬ counted p) :
    Tally counted (update pc t p) (n - 1) := by
  obtain ⟨threads, hMem, rfl⟩ := h
  have hIn := (hMem t).mpr ht
  refine ⟨threads.erase t, fun u => ?_, ?_⟩
  · by_cases hu : u = t
    · subst hu
      simpa using hp
    · rw [Function.update_of_ne hu, Finset.mem_erase, hMem u]
      simp [hu]
  · have hPos := Finset.card_pos.mpr ⟨t, hIn⟩
    rw [Finset.card_erase_of_mem hIn]
    omega

end

end Monitor
