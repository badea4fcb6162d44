namespace SignalBroker

structure Backoff where
  base : Nat
  max : Nat
  current : Nat
  deriving DecidableEq, Repr

namespace Backoff

/-- The delays from `base` to `max` in milliseconds, of which the second is never below the first. -/
def between (base max : Nat) : Backoff :=
  ⟨base, Nat.max max base, base⟩

def fail (b : Backoff) : Backoff :=
  { b with current := Nat.min (b.current * 2) b.max }

def succeed (b : Backoff) : Backoff :=
  { b with current := b.base }

end Backoff

end SignalBroker
