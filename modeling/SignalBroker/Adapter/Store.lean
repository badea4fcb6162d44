import SignalBroker.Adapter.Error
import SignalBroker.Adapter.Stream

namespace SignalBroker

structure SignalSpec where
  value : SignalValue
  isPublic : Bool
  isReadOnly : Bool

structure Signal where
  spec : SignalSpec
  subscribed : Bool

structure Store where
  name : String
  signals : Table String Signal
  /-- The number of changes. A word of 64 bits holds it, since no run comes to `2 ^ 64` changes. -/
  seq : Nat
  stream : ChangeStream

/-- How a write ended: it landed at a sequence number, or it waits for room in the stream. -/
inductive Delivery where
  | landed (seq : Nat)
  | waiting
  deriving DecidableEq, Repr

namespace Store

def ofCapacity (name : String) (capacity : Nat) : Store :=
  ⟨name, .empty, 0, .ofCapacity capacity⟩

def ofName (name : String) : Store :=
  ofCapacity name ChangeStream.defaultCapacity

def declare (s : Store) (path : String) (spec : SignalSpec) : Store :=
  { s with signals := s.signals.insert path ⟨spec, false⟩ }

def paths (s : Store) : List String := s.signals.keys

def value? (s : Store) (path : String) : Option SignalValue :=
  (s.signals.find? path).map (·.spec.value)

def snapshot (s : Store) : Values :=
  s.signals.map fun _ signal => signal.spec.value

def specs (s : Store) : Table String SignalSpec :=
  s.signals.map fun _ signal => signal.spec

def spec? (s : Store) (path : String) : Except AdapterError SignalSpec :=
  match s.signals.find? path with
  | some signal => .ok signal.spec
  | none => .error (.pathNotFound path)

def isPublic (s : Store) (path : String) : Except AdapterError Bool :=
  (·.isPublic) <$> s.spec? path

def isReadOnly (s : Store) (path : String) : Except AdapterError Bool :=
  (·.isReadOnly) <$> s.spec? path

/-- The values at some paths, given in ascending order; the first unknown one is the fault. -/
def get (s : Store) (paths : List String) : Except AdapterError Values := do
  let rows ← paths.mapM fun path => do return (path, (← s.spec? path).value)
  return .ofList rows

/-- Why a path cannot be written. Only writes of clients respect the read-only flag. -/
def refusal? (s : Store) (byClient : Bool) (path : String) : Option AdapterError :=
  match s.signals.find? path with
  | none => some (.pathNotFound path)
  | some signal => if byClient && signal.spec.isReadOnly then some (.readOnly path) else none

def changes (s : Store) (values : Values) : Values :=
  values.filter fun path value =>
    match s.signals.find? path with
    | some signal => !(signal.spec.value == value)
    | none => false

def setValues (s : Store) (values : Values) : Table String Signal :=
  s.signals.map fun path signal =>
    match values.find? path with
    | some value => { signal with spec.value := value }
    | none => signal

def isSubscribed (s : Store) (path : String) : Bool :=
  (s.signals.find? path).any (·.subscribed)

/-- Take over the values that differ. The batch holds those of them that are subscribed. -/
def commit (s : Store) (values : Values) : Store × Option Batch :=
  let changed := s.changes values
  if changed.isEmpty then (s, none)
  else
    let seq := s.seq + 1
    let pushed := changed.filter fun path _ => s.isSubscribed path
    ({ s with signals := s.setValues changed, seq },
      if pushed.isEmpty then none else some ⟨seq, pushed⟩)

/-- Hand a batch to the stream. Where the writer has to wait, nothing has entered the stream. -/
def deliver (s : Store) : Option Batch → Store × Delivery
  | none => (s, .landed s.seq)
  | some batch =>
    match s.stream.offer batch with
    | some stream => ({ s with stream }, .landed s.seq)
    | none => (s, .waiting)

/-- A write: every path is checked before any value changes. A writer that has to wait for room
leaves the values changed. -/
def write (s : Store) (byClient : Bool) (values : Values) : Except AdapterError (Store × Delivery) :=
  match values.keys.findSome? (s.refusal? byClient) with
  | some e => .error e
  | none =>
    let (s, batch) := s.commit values
    .ok (s.deliver batch)

/-- A write of a client. -/
def set (s : Store) (values : Values) : Except AdapterError (Store × Delivery) :=
  s.write true values

/-- A write of the adapter itself. -/
def update (s : Store) (values : Values) : Except AdapterError (Store × Delivery) :=
  s.write false values

/-- Mark some paths as subscribed or not, all or none of them. -/
def setSubscribed (s : Store) (subscribed : Bool) (paths : List String) :
    Except AdapterError Store :=
  match paths.find? fun path => !s.signals.contains path with
  | some path => .error (.pathNotFound path)
  | none =>
    .ok { s with signals := s.signals.map fun path signal =>
      if paths.contains path then { signal with subscribed } else signal }

def subscribe (s : Store) (paths : List String) : Except AdapterError Store :=
  s.setSubscribed true paths

def unsubscribe (s : Store) (paths : List String) : Except AdapterError Store :=
  s.setSubscribed false paths

def unsubscribeAll (s : Store) : Store :=
  { s with signals := s.signals.map fun _ signal => { signal with subscribed := false } }

theorem find?_changes (s : Store) (values : Values) (path : String) :
    (s.changes values).find? path = (values.find? path).filter fun value =>
      match s.signals.find? path with
      | some signal => !(signal.spec.value == value)
      | none => false :=
  Table.find?_filter _ _ _

end Store

end SignalBroker
