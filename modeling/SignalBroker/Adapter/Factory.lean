import SignalBroker.Adapter.Basic

namespace SignalBroker

abbrev AdapterBuilder := Files → AdapterSpec → Except AdapterError Adapter

structure AdapterTypes where
  builders : Table String AdapterBuilder

namespace AdapterTypes

def buildDocument : AdapterBuilder := fun files spec => do
  let settings ← spec.readSettings DocumentSettings.read
  let (store, source) ← DocumentSource.load files spec.name settings
  return ⟨store, .document source⟩

def buildPolled : AdapterBuilder := fun _ spec => do
  let settings ← spec.readSettings PollSettings.read
  let (store, source) ← PollSource.build spec.name settings
  return ⟨store, .polled source⟩

def buildSimulated : AdapterBuilder := fun _ spec => do
  let settings ← spec.readSettings SimulationSettings.read
  let (store, simulation) ← Simulation.build spec.name settings
  return ⟨store, .simulated simulation⟩

def empty : AdapterTypes := ⟨.empty⟩

def register (t : AdapterTypes) (kind : String) (builder : AdapterBuilder) : AdapterTypes :=
  ⟨t.builders.insert kind builder⟩

def builtin : AdapterTypes :=
  ((empty.register "file" buildDocument).register "http" buildPolled).register
    "simulator" buildSimulated

def kinds (t : AdapterTypes) : List String := t.builders.keys

def knows (t : AdapterTypes) (kind : String) : Bool := t.builders.contains kind

def build (t : AdapterTypes) (files : Files) (spec : AdapterSpec) : Except AdapterError Adapter :=
  match t.builders.find? spec.kind with
  | some builder => builder files spec
  | none =>
    .error (.invalidConfig (spec.name ++ ": unknown adapter type '" ++ spec.kind ++ "'"))

end AdapterTypes

end SignalBroker
