namespace SignalBroker

def earliestMillis : Int := -8334601228800000
def latestMillis : Int := 8210266876799999

/-- A clock that does not move, in milliseconds since the start of 1970. -/
structure Clock where
  millis : Int
  deriving DecidableEq, Repr

namespace Clock

def ofMillis (ms : Int) : Clock :=
  ⟨if earliestMillis ≤ ms && ms ≤ latestMillis then ms else 0⟩

def name (_ : Clock) : String := "FixedClock"

def systemName : String := "SystemClock"

end Clock

end SignalBroker
