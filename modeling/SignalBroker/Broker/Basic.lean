import SignalBroker.Broker.Registry
import SignalBroker.Broker.Subscriptions
import SignalBroker.Clock

namespace SignalBroker

structure Broker (σ : Type) where
  registry : Registry σ
  subscriptions : Subscriptions
  resolver : Resolver
  clock : Clock
  /-- The number of notifications that wait for a session at most. -/
  outboxCapacity : Nat
  nextConnection : ConnectionId
  files : Files

/-- How a write ended. A write that waits has found the change stream of a source full. -/
inductive WriteOutcome where
  | done
  | refused (e : BrokerError)
  | waiting

namespace Broker

variable {σ : Type}

def ofResolver (resolver : Resolver) (clock : Clock) (outboxCapacity : Nat) (files : Files) :
    Broker σ :=
  ⟨.empty, .empty, resolver, clock, outboxCapacity, 0, files⟩

/-- Apply changes of a source and tell the subscribers what is new. The number counts the paths that
changed. -/
def apply (b : Broker σ) (owner seq : Nat) (values : Values) : Nat × Broker σ :=
  let news := b.registry.news owner seq values
  (news.size,
    { b with
      registry := b.registry.apply owner seq values
      subscriptions := (b.subscriptions.dispatch b.clock.millis news).2 })

variable [SignalSource σ]

/-- Write the values of each source and apply them, up to the first source that does not take
them. -/
def writeGroups (b : Broker σ) : List (Nat × Values) → WriteOutcome × Broker σ
  | [] => (.done, b)
  | (owner, values) :: rest =>
    match b.registry.members[owner]? with
    | none => (.refused (.adapterUnavailable ("adapter #" ++ toString owner)), b)
    | some m =>
      match SignalSource.set m.source b.files values with
      | .error e => (.refused (.ofAdapter e), b)
      | .ok (source, files, delivery) =>
        let b := { b with registry := b.registry.setSource owner source, files }
        match delivery with
        | .waiting => (.waiting, b)
        | .landed seq => writeGroups (b.apply owner seq values).2 rest

/-- A write of a client. All targets are checked before anything is written. -/
def set (b : Broker σ) (pattern : String) (request : WriteRequest) (rights : Rights) :
    WriteOutcome × Broker σ :=
  match b.registry.targets pattern request rights with
  | .error e => (.refused e, b)
  | .ok targets => b.writeGroups (Registry.groups targets).toList

def register (b : Broker σ) (source : σ) : Except (BrokerError × σ) (Broker σ) :=
  match b.registry.register source with
  | .accepted registry => .ok { b with registry }
  | .refused e source => .error (e, source)

def feed (b : Broker σ) (owner : Nat) : Broker σ :=
  match b.registry.members[owner]? with
  | some ⟨source, true⟩ =>
    match SignalSource.receive source with
    | some (batch, source) =>
      ({ b with registry := b.registry.setSource owner source }.apply owner batch.seq batch.values).2
    | none => b
  | _ => b

def feedTimes (b : Broker σ) (owner : Nat) : Nat → Broker σ
  | 0 => b
  | n + 1 => (b.feed owner).feedTimes owner n

def settle (b : Broker σ) : Broker σ :=
  (List.range b.registry.members.length).foldl (fun b owner =>
    match b.registry.members[owner]? with
    | some m => b.feedTimes owner (SignalSource.queued m.source)
    | none => b) b

def shutdown (b : Broker σ) : Broker σ :=
  { b with registry := { b.registry with
      stopped := true
      timers := []
      members := b.registry.members.map fun m =>
        let source := if m.fed then SignalSource.closeStream m.source else m.source
        ⟨SignalSource.unsubscribeAll source, false⟩ } }

end Broker

end SignalBroker
