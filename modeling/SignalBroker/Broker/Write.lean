import SignalBroker.Broker.Error
import SignalBroker.Path.Segments
import SignalBroker.Signal.Value

namespace SignalBroker

inductive WriteRequest where
  | broadcast (value : SignalValue)
  | suffixes (pairs : List (String × SignalValue))

namespace WriteRequest

def suffixItem? : Json → Option (String × Json)
  | .object [member] => some member
  | _ => none

def suffixItems? : List Json → Option (List (String × Json))
  | [] => none
  | items => items.mapM suffixItem?

def readPair (pair : String × Json) : Except BrokerError (String × SignalValue) :=
  if pair.1.isEmpty then .error (.badRequest "empty path suffix")
  else
    match SignalValue.ofJson? pair.2 with
    | some value => .ok (pair.1, value)
    | none => .error (.badRequest (pair.1 ++ ": " ++ Json.objectInValueText))

def ofValue (j : Json) : Except BrokerError WriteRequest :=
  match SignalValue.ofJson? j with
  | some value => .ok (.broadcast value)
  | none => .error (.badRequest Json.objectInValueText)

def ofJson (j : Json) : Except BrokerError WriteRequest :=
  match j.items?.bind suffixItems? with
  | some pairs => .suffixes <$> pairs.mapM readPair
  | none => ofValue j

end WriteRequest

end SignalBroker
