import SignalBroker.Protocol.Session
import SignalBroker.Service.Config

namespace SignalBroker

inductive ServiceError where
  | config (e : ConfigError)
  | adapter (e : AdapterError)
  | registry (e : BrokerError)

def ServiceError.message : ServiceError → String
  | .config e => "Configuration error: " ++ e.message
  | .adapter e => "Adapter error: " ++ e.message
  | .registry e => "Registry error: " ++ e.message

structure Service where
  config : Config
  broker : Broker Adapter

namespace Service

def emptyBroker {σ : Type} (config : Config) (ask : String → String → HttpOutcome) (clock : Clock)
    (files : Files) : Broker σ :=
  .ofResolver (config.permissions.resolver ask) clock config.server.outboundCapacity files

def registerAll (types : AdapterTypes) (broker : Broker Adapter) :
    List AdapterSpec → Except ServiceError (Broker Adapter)
  | [] => .ok broker
  | spec :: rest => do
    let adapter ← (types.build broker.files spec).mapError .adapter
    let broker ← (broker.register adapter).mapError fun (e, _) => .registry e
    registerAll types broker rest

def ofConfig (types : AdapterTypes) (ask : String → String → HttpOutcome) (clock : Clock)
    (files : Files) (config : Config) : Except ServiceError Service := do
  (config.check types).mapError .config
  let broker ← registerAll types (emptyBroker config ask clock files) config.adapters
  return ⟨config, broker⟩

end Service

end SignalBroker
