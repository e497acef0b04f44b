import Nct.Reconnect

/-! The running program on a connection that can be lost. A receive thread that
gets a short record connects again and goes through the table, one slot a step,
while the other threads go on. -/
namespace Nct

open Function (update)

/-- The state of a run. `last` is the latest value of the clock, and `scan` the
slot that each thread's resend loop is at. -/
structure Link where
  sys : Sys
  last : UInt64
  scan : Nat → Option Nat

def Link.boot : Link where
  sys := Sys.boot
  last := 0
  scan := fun _ => none

inductive LinkAct where
  /-- a step of the program -/
  | go (act : Act)
  /-- receive thread `t` gets a short record and connects again -/
  | drop (t : Nat)
  /-- its resend loop makes a pass, and a send in it is complete or not -/
  | scan (t : Nat) (now : UInt64) (complete : Bool)
  deriving DecidableEq, Repr

/-- The agent is not in a resend loop. -/
def Link.Out (s : Link) : Agent → Prop
  | .main => True
  | .recv t => s.scan t = none

instance (s : Link) (a : Agent) : Decidable (s.Out a) := by
  unfold Link.Out
  induction a using Agent.casesOn <;> infer_instance

/-- The connection is lost, with all that was on it. -/
def Sys.drop (s : Sys) : Sys := { s with mnt := { s.mnt with recvMark := 0 }, net := [] }

/-- What a pass of the resend loop has done. -/
def Sys.resent (s : Sys) (r : Resend) : Sys :=
  { s with
    mnt := r.mnt
    net := r.sends.map Prod.snd ++ s.net
    inFlight := s.inFlight ∪ (r.sends.map Prod.fst).toFinset }

def linkStep (cfg : Cfg) (s : Link) : LinkAct → Option Link
  | .go act =>
      if s.Out act.agent ∧ s.last ≤ act.input.now then
        (step cfg s.sys act).map fun sys => { s with sys, last := act.input.now }
      else none
  | .drop t =>
      if t < cfg.tdsMax ∧ s.sys.halted = none ∧ s.sys.pc (.recv t) = .idle ∧ s.scan t = none then
        some { s with sys := s.sys.drop, scan := update s.scan t (some 0) }
      else none
  | .scan t now complete =>
      match s.scan t with
      | none => none
      | some i =>
          if s.sys.halted.isSome ∨ now < s.last then none
          else if i < NCT_REQ_MAX then
            match resendSlot (fun _ => now) (fun _ => complete) i ⟨s.sys.mnt, 0, []⟩ with
            | .error c => some { s with sys := s.sys.crash c, last := now }
            | .ok r =>
                some { sys := s.sys.resent r, last := now, scan := update s.scan t (some (i + 1)) }
          else some { s with scan := update s.scan t none }

end Nct
