import SignalBroker.Adapter.Spec
import SignalBroker.Adapter.Store
import SignalBroker.Vin

namespace SignalBroker

inductive SimulatedKind where
  | bool
  | number (min max : Float)
  | fixed

structure SimulatedSignal where
  path : String
  kind : SimulatedKind
  initial : Option SignalValue
  isPublic : Bool
  isReadOnly : Bool

structure SimulationSettings where
  seed : Nat
  period : Nat
  vinPath : Option String
  signals : List SimulatedSignal

namespace SimulatedKind

def initial : SimulatedKind → SignalValue
  | .bool => .bool false
  | .number min _ => .ofFloat min
  | .fixed => .null

/-- A number in hundredths, a half going away from zero. -/
def toHundredths (raw : Float) : Float :=
  Double.roundHalfAway (raw * 100.0) / 100.0

/-- The next value, unless the signal is fixed; a fixed signal draws nothing. -/
def draw (kind : SimulatedKind) (d : Random.Draws) : Option SignalValue × Random.Draws :=
  match kind with
  | .bool =>
    let (b, d) := d.coin
    (some (.bool b), d)
  | .number min max =>
    let (raw, d) := d.between min max
    (some (.ofFloat (toHundredths raw)), d)
  | .fixed => (none, d)

def isFixed : SimulatedKind → Bool
  | .fixed => true
  | _ => false

open Json

def choice : Choice where
  title := "internally tagged enum SignalKind"
  tag := "kind"
  variants := ["bool", "number", "fixed"]

def numberRecord : Record where
  title := "struct variant SignalKind::Number"
  fields := [.needed "min" readFloat, .needed "max" readFloat]

def read (r : Reading) : Except Json.Error SimulatedKind := do
  let (variant, rest) ← choice.split .choice r
  match variant with
  | "bool" => return .bool
  | "number" =>
    let fields ← numberRecord.fieldsOf .choice rest
    return .number (← fields.get "min" readFloat) (← fields.get "max" readFloat)
  | _ => return .fixed

end SimulatedKind

namespace SimulatedSignal

open Json

def record : Record where
  title := "struct SimulatedSignal"
  fields := [
    .needed "path" readString,
    .optional "initial" (readOption SignalValue.read),
    .optional "public" readBool,
    .optional "readOnly" readBool]

/-- A signal is read from an object only. The members that are not fields of its own tell its
kind. -/
def read : Reading → Except Json.Error SimulatedSignal
  | .object members closing => do
    let fields ← record.fieldsOf .value (.object members closing)
    let others := members.filter fun m => !record.fields.any (·.name == m.1)
    return {
      path := ← fields.get "path" readString
      kind := ← SimulatedKind.read (.object others .closed)
      initial := ← fields.getD "initial" (readOption SignalValue.read) none
      isPublic := ← fields.getD "public" readBool false
      isReadOnly := ← fields.getD "readOnly" readBool false }
  | r => r.refuse record.title

def spec (s : SimulatedSignal) : SignalSpec :=
  ⟨s.initial.getD s.kind.initial, s.isPublic, s.isReadOnly⟩

def fault? (s : SimulatedSignal) (name : String) : Option AdapterError :=
  match s.kind with
  | .number min max =>
    if min ≤ max then none
    else some (.invalidConfig (name ++ ": " ++ s.path ++ ": min must not exceed max"))
  | _ => none

end SimulatedSignal

namespace SimulationSettings

open Json

def record : Record where
  title := "struct SimulatorConfig"
  fields := [
    .optional "seed" readU64,
    .optional "period" readU64,
    .optional "vinPath" (readOption readString),
    .optional "signals" (readList SimulatedSignal.read)]

def read (r : Reading) : Except Json.Error SimulationSettings := do
  let fields ← record.fieldsOf .value r
  return {
    seed := ← fields.getD "seed" readU64 0
    period := ← fields.getD "period" readU64 1000
    vinPath := ← fields.getD "vinPath" (readOption readString) none
    signals := ← fields.getD "signals" (readList SimulatedSignal.read) [] }

end SimulationSettings

structure Simulation where
  settings : SimulationSettings
  draws : Random.Draws
  vin : Option String

namespace Simulation

def declareSignals (name : String) (store : Store) :
    List SimulatedSignal → Except AdapterError Store
  | [] => .ok store
  | s :: rest =>
    match s.fault? name with
    | some e => .error e
    | none => declareSignals name (store.declare s.path s.spec) rest

/-- The vehicle number is drawn before any signal, and only if it has a path. -/
def drawVin (s : SimulationSettings) (store : Store) :
    Store × Option String × Random.Draws :=
  let draws := Random.Draws.ofSeed (UInt64.ofNat s.seed)
  match s.vinPath with
  | none => (store, none, draws)
  | some path =>
    let (vin, draws) := Vin.draw draws
    (store.declare path ⟨.text vin, true, true⟩, some vin, draws)

def build (name : String) (s : SimulationSettings) : Except AdapterError (Store × Simulation) :=
  if s.period = 0 then .error (.invalidConfig (name ++ ": period must be positive"))
  else do
    let (store, vin, draws) := drawVin s (.ofName name)
    let store ← declareSignals name store s.signals
    return (store, ⟨s, draws, vin⟩)

/-- The next values in the order of the settings. Of several signals at one path the last stays. -/
def drawValues (d : Random.Draws) (values : Values) :
    List SimulatedSignal → Values × Random.Draws
  | [] => (values, d)
  | s :: rest =>
    match s.kind.draw d with
    | (some value, d) => drawValues d (values.insert s.path value) rest
    | (none, d) => drawValues d values rest

def nextValues (s : Simulation) : Values × Simulation :=
  let (values, draws) := drawValues s.draws .empty s.settings.signals
  (values, { s with draws })

/-- Draw and write the next values. The draws are used up even where the write is refused. -/
def tick (s : Simulation) (store : Store) :
    Simulation × Except AdapterError (Store × Delivery) :=
  let (values, s) := s.nextValues
  (s, store.update values)

def isActive (s : Simulation) : Bool :=
  !s.settings.signals.all (·.kind.isFixed)

end Simulation

end SignalBroker
