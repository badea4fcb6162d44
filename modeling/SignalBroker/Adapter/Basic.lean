import SignalBroker.Adapter.Document
import SignalBroker.Adapter.Poll
import SignalBroker.Adapter.Simulation

namespace SignalBroker

/-- The contract between the broker and a source of signals. Lists of paths are ascending. A write of
a client may also change files. -/
class SignalSource (σ : Type) where
  name : σ → String
  paths : σ → List String
  isPublic : σ → String → Except AdapterError Bool
  isReadOnly : σ → String → Except AdapterError Bool
  get : σ → List String → Except AdapterError Values
  set : σ → Files → Values → Except AdapterError (σ × Files × Delivery)
  subscribe : σ → List String → Except AdapterError σ
  unsubscribeAll : σ → σ
  /-- Ask for the receiving end of the change stream. -/
  takeStream : σ → Bool × σ
  /-- The receiving end goes away. -/
  closeStream : σ → σ
  /-- Take the oldest batch of the stream. -/
  receive : σ → Option (Batch × σ)
  /-- The number of batches in the stream. -/
  queued : σ → Nat
  /-- The period of the background work, in milliseconds, if there is any. -/
  period : σ → Option Nat
  /-- One turn of the background work. -/
  tick : σ → σ

inductive Backing where
  | memory
  | document (source : DocumentSource)
  | polled (source : PollSource)
  | simulated (simulation : Simulation)

structure Adapter where
  store : Store
  backing : Backing

namespace Adapter

def name (a : Adapter) : String := a.store.name

def paths (a : Adapter) : List String := a.store.paths

def isPublic (a : Adapter) (path : String) : Except AdapterError Bool :=
  a.store.isPublic path

def isReadOnly (a : Adapter) (path : String) : Except AdapterError Bool :=
  a.store.isReadOnly path

def get (a : Adapter) (paths : List String) : Except AdapterError Values :=
  a.store.get paths

def persist (backing : Backing) (store : Store) (files : Files) : Files :=
  match backing with
  | .document source => source.save store files
  | _ => files

/-- A write of a client. A writer that waits has not come to saving a document. -/
def set (a : Adapter) (files : Files) (values : Values) :
    Except AdapterError (Adapter × Files × Delivery) := do
  let (store, delivery) ← a.store.set values
  match delivery with
  | .landed _ => return (⟨store, a.backing⟩, persist a.backing store files, delivery)
  | .waiting => return (⟨store, a.backing⟩, files, delivery)

def update (a : Adapter) (values : Values) : Except AdapterError (Adapter × Delivery) := do
  let (store, delivery) ← a.store.update values
  return (⟨store, a.backing⟩, delivery)

def subscribe (a : Adapter) (paths : List String) : Except AdapterError Adapter := do
  return { a with store := ← a.store.subscribe paths }

def unsubscribe (a : Adapter) (paths : List String) : Except AdapterError Adapter := do
  return { a with store := ← a.store.unsubscribe paths }

def unsubscribeAll (a : Adapter) : Adapter :=
  { a with store := a.store.unsubscribeAll }

def withStream (a : Adapter) (stream : ChangeStream) : Adapter :=
  { a with store := { a.store with stream } }

def takeStream (a : Adapter) : Bool × Adapter :=
  let (given, stream) := a.store.stream.take
  (given, a.withStream stream)

def closeStream (a : Adapter) : Adapter :=
  a.withStream a.store.stream.close

def receive (a : Adapter) : Option (Batch × Adapter) :=
  a.store.stream.pop.map fun (batch, stream) => (batch, a.withStream stream)

def queued (a : Adapter) : Nat :=
  a.store.stream.queue.length

/-- Only a simulation that draws something works by itself. Polling depends on what its service
answers, and is driven through `PollSource.round`. -/
def period (a : Adapter) : Option Nat :=
  match a.backing with
  | .simulated s => if s.isActive then some s.settings.period else none
  | _ => none

def tick (a : Adapter) : Adapter × Option (Except AdapterError Delivery) :=
  match a.backing with
  | .simulated s =>
    match s.tick a.store with
    | (s, .ok (store, delivery)) => (⟨store, .simulated s⟩, some (.ok delivery))
    | (s, .error e) => ({ a with backing := .simulated s }, some (.error e))
  | _ => (a, none)

/-- Let time pass with nobody waiting for the turns: as many turns as the time has full periods,
unless one has to wait for room in the stream. -/
def turns (a : Adapter) : Nat → Adapter
  | 0 => a
  | n + 1 =>
    match a.tick with
    | (a, some (.ok .waiting)) => a
    | (a, _) => a.turns n

/-- The adapter after its background work has had some milliseconds, if it has any such work. The
service of a polled adapter is taken not to answer in that time. -/
def run (a : Adapter) (ms : Nat) : Option Adapter :=
  match a.backing with
  | .simulated s => if s.isActive then some (a.turns (ms / s.settings.period)) else none
  | .polled _ => some a
  | _ => none

instance : SignalSource Adapter where
  name := name
  paths := paths
  isPublic := isPublic
  isReadOnly := isReadOnly
  get := get
  set := set
  subscribe := subscribe
  unsubscribeAll := unsubscribeAll
  takeStream := takeStream
  closeStream := closeStream
  receive := receive
  queued := queued
  period := period
  tick := fun a => a.tick.1

end Adapter

structure Description where
  name : String
  signals : Table String SignalSpec

def Adapter.describe (a : Adapter) : Description :=
  ⟨a.name, a.store.specs⟩

def Description.toJson (d : Description) : Json :=
  .object [("name", .text d.name),
    ("signals", .array (d.signals.toList.map fun (path, spec) =>
      .object [("path", .text path), ("public", .bool spec.isPublic),
        ("readOnly", .bool spec.isReadOnly), ("value", spec.value.toJson)]))]

end SignalBroker
