namespace SignalBroker

/-- The next turn of a member, in milliseconds from now. -/
structure Timer where
  owner : Nat
  left : Nat
  deriving DecidableEq, Repr

/-- The turns of a member that are due. `steps` are left over from its last shift, and `left` is the
time to the turn after these. -/
structure Backlog where
  owner : Nat
  turns : Nat
  steps : Nat
  left : Nat
  deriving DecidableEq, Repr

def shiftSteps : Nat := 128

/-- The steps of a turn: two, and a third one if it has something to send. -/
def turnSteps (sends : Bool) : Nat := if sends then 3 else 2

namespace Timer

def isDue (t : Timer) (ms : Nat) : Bool := t.left ≤ ms

def elapse (t : Timer) (ms : Nat) : Timer := { t with left := t.left - ms }

def backlog (t : Timer) (ms period : Nat) : Backlog :=
  let period := max period 1
  let late := ms - t.left
  ⟨t.owner, late / period + 1, 0, period - late % period⟩

end Timer

namespace Backlog

/-- A backlog is worked off when no turn is left and a step is left to set the timer anew. -/
def isDone (l : Backlog) : Bool := l.turns = 0 && 0 < l.steps

def timer (l : Backlog) : Timer := ⟨l.owner, l.left⟩

end Backlog

end SignalBroker
