import SignalBroker.Broker.Subscriptions
import SignalBroker.Json.Printer
import SignalBroker.Protocol.Request

namespace SignalBroker

structure ErrorBody where
  number : Nat
  reason : String
  message : String

def ErrorBody.ofError (e : BrokerError) : ErrorBody :=
  ⟨e.number, e.reason, e.message⟩

inductive Response where
  | authorized (requestId : Json) (ttl : Nat) (permissions : Table String AccessLevel)
      (timestamp : Int)
  | value (requestId : Json) (value : Json) (timestamp : Int)
  | subscription (action : String) (requestId : Json) (id : SubscriptionId) (timestamp : Int)
  | done (action : String) (requestId : Json) (timestamp : Int)
  | notification (n : Notification)
  | error (action : String) (requestId : Json) (body : ErrorBody) (timestamp : Int)

namespace Response

def isError : Response → Bool
  | .error .. => true
  | _ => false

def action : Response → String
  | .authorized _ _ _ _ => "authorize"
  | .value _ _ _ => "get"
  | .subscription action _ _ _ => action
  | .done action _ _ => action
  | .error action _ _ _ => action
  | .notification _ => "subscription"

def requestId? : Response → Option Json
  | .authorized id _ _ _ => some id
  | .value id _ _ => some id
  | .subscription _ id _ _ => some id
  | .done _ id _ => some id
  | .error _ id _ _ => some id
  | .notification _ => none

def timeJson (timestamp : Int) : Json :=
  .number (if 0 ≤ timestamp then .natural (UInt64.ofNat timestamp.toNat)
    else .negative (Int64.ofInt timestamp))

def members : Response → List (String × Json)
  | .authorized id ttl permissions timestamp =>
    [("action", .text "authorize"), ("requestId", id), ("TTL", .ofNat ttl),
      ("permissions", Json.ofTable permissions fun level => .text level.name),
      ("timestamp", timeJson timestamp)]
  | .value id v timestamp =>
    [("action", .text "get"), ("requestId", id), ("value", v),
      ("timestamp", timeJson timestamp)]
  | .subscription action id subscriptionId timestamp =>
    [("action", .text action), ("requestId", id),
      ("subscriptionId", .text (toString subscriptionId)), ("timestamp", timeJson timestamp)]
  | .done action id timestamp =>
    [("action", .text action), ("requestId", id), ("timestamp", timeJson timestamp)]
  | .notification n =>
    [("action", .text "subscription"), ("subscriptionId", .text (toString n.id)),
      ("value", n.values.toJson), ("timestamp", timeJson n.timestamp)]
  | .error action id body timestamp =>
    [("action", .text action), ("requestId", id),
      ("error", .object [("number", .ofNat body.number), ("reason", .text body.reason),
        ("message", .text body.message)]),
      ("timestamp", timeJson timestamp)]

def toJson (r : Response) : Json := .object r.members

def wire (r : Response) : String := r.toJson.compact

end Response

end SignalBroker
