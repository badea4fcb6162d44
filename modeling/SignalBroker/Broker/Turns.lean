import SignalBroker.Broker.Basic

/-!
The passing of time in a broker. Members that work by themselves take a turn at the end of each of
their periods. Of several that are due, the one that is due first starts, and of those due at the same
time the one whose timer was set first; then they take shifts, in opposite order from one round to the
next. What a member sends in a shift is heard before the next shift.
-/

namespace SignalBroker.Broker

variable {σ : Type} [SignalSource σ]

/-- Let a source take some turns, as far as the steps allow. With the source come the steps and the
turns that are left. -/
def takeTurns (source : σ) (steps : Nat) : Nat → σ × Nat × Nat
  | 0 => (source, steps, 0)
  | turns + 1 =>
    let next := SignalSource.tick source
    let cost := turnSteps (SignalSource.queued source < SignalSource.queued next)
    if cost ≤ steps then takeTurns next (steps - cost) turns
    else (source, steps, turns + 1)

def workShift (b : Broker σ) (l : Backlog) : Broker σ × Backlog :=
  match b.registry.members[l.owner]? with
  | none => (b, { l with turns := 0, steps := shiftSteps })
  | some m =>
    let (source, steps, turns) := takeTurns m.source (l.steps + shiftSteps) l.turns
    let b := { b with registry := b.registry.setSource l.owner source }
    (b.feedTimes l.owner (SignalSource.queued source), { l with turns, steps })

def workRound (b : Broker σ) : List Backlog → Broker σ × List Backlog
  | [] => (b, [])
  | l :: ls =>
    let (b, l) := b.workShift l
    let (b, ls) := workRound b ls
    (b, l :: ls)

def workOff (b : Broker σ) (timers : List Timer) : Nat → List Backlog → Broker σ
  | 0, _ => { b with registry := { b.registry with timers } }
  | rounds + 1, backlogs =>
    if backlogs.isEmpty then { b with registry := { b.registry with timers } }
    else
      let (b, backlogs) := b.workRound backlogs
      let (done, rest) := backlogs.partition (·.isDone)
      workOff b (timers ++ done.map (·.timer)) rounds rest.reverse

def periodOf (b : Broker σ) (owner : Nat) : Nat :=
  ((b.registry.members[owner]?).bind fun m => SignalSource.period m.source).getD 1

/-- The backlogs after a time, those that have been due for longer first. -/
def backlogs (b : Broker σ) (ms : Nat) : List Backlog :=
  let due := b.registry.timers.filter (·.isDue ms)
  let due := due.mergeSort fun s t => s.left ≤ t.left
  due.map fun t => t.backlog ms (b.periodOf t.owner)

/-- Let time pass. Each round takes a turn off every backlog, and the last one only sets timers. -/
def advance (b : Broker σ) (ms : Nat) : Broker σ :=
  let backlogs := b.backlogs ms
  let waiting := (b.registry.timers.filter (!·.isDue ms)).map (·.elapse ms)
  b.workOff waiting (backlogs.foldl (fun n l => max n l.turns) 0 + 1) backlogs

end SignalBroker.Broker
