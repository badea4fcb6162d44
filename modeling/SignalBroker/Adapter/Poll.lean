import SignalBroker.Adapter.Backoff
import SignalBroker.Adapter.Spec
import SignalBroker.Adapter.Store
import SignalBroker.Path.Segments

namespace SignalBroker

structure PollSettings where
  url : String
  root : String
  signals : List String
  period : Nat
  maxBackoff : Nat
  timeout : Nat
  isPublic : Bool

namespace PollSettings

open Json

def record : Record where
  title := "struct HttpAdapterConfig"
  fields := [
    .needed "url" readString,
    .needed "vssPath" readString,
    .needed "signals" (readList readString),
    .optional "period" readU64,
    .optional "maxBackoff" readU64,
    .optional "timeoutMs" readU64,
    .optional "public" readBool]

def read (r : Reading) : Except Json.Error PollSettings := do
  let fields ← record.fieldsOf .value r
  return {
    url := ← fields.get "url" readString
    root := ← fields.get "vssPath" readString
    signals := ← fields.get "signals" (readList readString)
    period := ← fields.getD "period" readU64 1000
    maxBackoff := ← fields.getD "maxBackoff" readU64 30000
    timeout := ← fields.getD "timeoutMs" readU64 5000
    isPublic := ← fields.getD "public" readBool false }

def pathOf (s : PollSettings) (field : String) : String :=
  Path.under s.root field

def fault? (s : PollSettings) (name : String) : Option AdapterError :=
  if s.signals.isEmpty then some (.invalidConfig (name ++ ": no signals configured"))
  else if s.period = 0 then some (.invalidConfig (name ++ ": period must be positive"))
  else if s.timeout = 0 then some (.invalidConfig (name ++ ": timeoutMs must be positive"))
  else none

/-- A store with one read-only signal for each field, none of them known yet. -/
def store (s : PollSettings) (name : String) : Store :=
  s.signals.foldl (fun store field => store.declare (s.pathOf field) ⟨.null, s.isPublic, true⟩)
    (.ofName name)

/-- The values that a body gives. A field that the body does not have, or that holds an object, gives
none. -/
def valuesOf (s : PollSettings) (body : Table String Json) : Values :=
  .ofList (s.signals.filterMap fun field => do
    let j ← body.find? field
    let value ← SignalValue.ofJson? j
    return (s.pathOf field, value))

end PollSettings

/-- What comes of a request: the object in its response, or what is said of its failure. -/
abbrev PollOutcome := Except String (Table String Json)

structure PollSource where
  settings : PollSettings
  backoff : Backoff

namespace PollSource

def ofSettings (s : PollSettings) : PollSource :=
  ⟨s, .between s.period s.maxBackoff⟩

def build (name : String) (s : PollSettings) : Except AdapterError (Store × PollSource) :=
  match s.fault? name with
  | some e => .error e
  | none => .ok (s.store name, ofSettings s)

def poll (source : PollSource) (store : Store) : PollOutcome → Except AdapterError (Store × Delivery)
  | .error text => .error (.unavailable text)
  | .ok body => store.update (source.settings.valuesOf body)

def round (source : PollSource) (store : Store) (outcome : PollOutcome) :
    PollSource × Store × Option Delivery :=
  match source.poll store outcome with
  | .ok (store, delivery) => ({ source with backoff := source.backoff.succeed }, store, some delivery)
  | .error _ => ({ source with backoff := source.backoff.fail }, store, none)

end PollSource

end SignalBroker
