import SignalBroker.Broker.Basic
import SignalBroker.Protocol.Response

namespace SignalBroker

structure Session where
  connection : ConnectionId
  rights : Rights
  isOpen : Bool

inductive Frame where
  | text (text : String)
  | binary
  | ping

/-- What became of a request: done with an answer, refused, or waiting for a source. -/
inductive Reply where
  | answer (r : Response)
  | refusal (e : BrokerError)
  | waiting

namespace Session

variable {σ : Type}

def start (b : Broker σ) : Session × Broker σ :=
  (⟨b.nextConnection, .none, true⟩,
    { b with
      subscriptions := b.subscriptions.connect b.nextConnection (max b.outboxCapacity 1)
      nextConnection := b.nextConnection + 1 })

/-- Drop all subscriptions and let go of the outbox. Closing again changes nothing. -/
def close (s : Session) (b : Broker σ) : Session × Broker σ :=
  if s.isOpen then
    ({ s with isOpen := false },
      { b with subscriptions :=
        ((b.subscriptions.adjustOutbox s.connection Outbox.dropSender).disconnect s.connection).2 })
  else (s, b)

/-- Take over the rights that a token gives. What existing subscriptions may show changes with
them. -/
def authorize (s : Session) (b : Broker σ) (token : String) :
    Except BrokerError (Session × Broker σ) := do
  let rights ← Rights.ofToken b.resolver token
  return ({ s with rights },
    { b with subscriptions := b.subscriptions.refresh s.connection fun p =>
        b.registry.visiblePaths p rights })

/-- The answer to a reading: the bare value of the path that was asked for, and otherwise the values
by their paths. -/
def valueAnswer (path : String) (values : Values) : Json :=
  match values.find? path with
  | some value => if values.size = 1 then value.toJson else values.toJson
  | none => values.toJson

def subscribe (s : Session) (b : Broker σ) (path : String) :
    Except BrokerError (SubscriptionId × Broker σ) := do
  let (pattern, visible) ← b.registry.readablePaths path s.rights
  let (id, subscriptions) := b.subscriptions.subscribeTo s.connection pattern visible
  return (id, { b with subscriptions })

def readSubscriptionId : Json → Except BrokerError SubscriptionId
  | .text s => SubscriptionId.ofText s
  | .number n =>
    match n.toUInt64? with
    | some id => .ok id.toNat
    | none => .error (.subscriptionNotFound (Json.number n).compact)
  | other => .error (.subscriptionNotFound other.compact)

def unsubscribe (s : Session) (b : Broker σ) (named : Json) :
    Except BrokerError (SubscriptionId × Broker σ) := do
  let id ← readSubscriptionId named
  let subscriptions ← b.subscriptions.unsubscribe s.connection id
  return (id, { b with subscriptions })

/-- A reply that cannot wait, together with the state after it. A refusal leaves the state alone. -/
def reply (s : Session) (b : Broker σ) :
    Except BrokerError (Response × Session × Broker σ) → Reply × Session × Broker σ
  | .ok (r, s, b) => (.answer r, s, b)
  | .error e => (.refusal e, s, b)

def execute [SignalSource σ] (s : Session) (b : Broker σ) (request : Request) :
    Reply × Session × Broker σ :=
  let id := request.requestId
  let now := b.clock.millis
  if !s.isOpen then (.refusal (.badRequest "session is closed"), s, b)
  else
    match request.action with
    | .authorize token => s.reply b do
      let (s, b) ← s.authorize b token
      return (.authorized id s.rights.ttl s.rights.grants.toTable now, s, b)
    | .get path => s.reply b do
      let values ← b.registry.get path s.rights
      return (.value id (valueAnswer path values) now, s, b)
    | .set path value =>
      match WriteRequest.ofJson value with
      | .error e => (.refusal e, s, b)
      | .ok write =>
        match b.set path write s.rights with
        | (.done, b) => (.answer (.done "set" id now), s, b)
        | (.refused e, b) => (.refusal e, s, b)
        | (.waiting, b) => (.waiting, s, b)
    | .subscribe path _ => s.reply b do
      let (n, b) ← s.subscribe b path
      return (.subscription "subscribe" id n now, s, b)
    | .unsubscribe named => s.reply b do
      let (n, b) ← s.unsubscribe b named
      return (.subscription "unsubscribe" id n now, s, b)
    | .unsubscribeAll =>
      (.answer (.done "unsubscribeAll" id now), s,
        { b with subscriptions := (b.subscriptions.unsubscribeAll s.connection).2 })

def handle [SignalSource σ] (s : Session) (b : Broker σ) (request : Request) :
    Option Response × Session × Broker σ :=
  match s.execute b request with
  | (.answer r, s, b) => (some r, s, b)
  | (.refusal e, s, b) =>
    (some (.error request.action.name request.requestId (.ofError e) b.clock.millis), s, b)
  | (.waiting, s, b) => (none, s, b)

def handleText [SignalSource σ] (s : Session) (b : Broker σ) (text : String) :
    Option Response × Session × Broker σ :=
  match Request.decode text with
  | .ok request => s.handle b request
  | .error u =>
    (some (.error u.action u.requestId (.ofError (.badRequest u.message)) b.clock.millis), s, b)

def binaryRefusal : BrokerError := .badRequest "binary frames are not supported"

/-- Answer whatever comes in. A ping gets no frame of its own. -/
def handleFrame [SignalSource σ] (s : Session) (b : Broker σ) :
    Frame → Option Response × Session × Broker σ
  | .text text => s.handleText b text
  | .binary => (some (.error "" .null (.ofError binaryRefusal) b.clock.millis), s, b)
  | .ping => (none, s, b)

def drain (s : Session) (b : Broker σ) : List Response × Broker σ :=
  let (ns, subscriptions) := b.subscriptions.drain s.connection
  (ns.map .notification, { b with subscriptions })

/-- Answer whatever comes in and let the broker settle: the frames that go out, the answer in front of
the notifications. -/
def exchange [SignalSource σ] (s : Session) (b : Broker σ) (frame : Frame) :
    List Response × Session × Broker σ :=
  let (r, s, b) := s.handleFrame b frame
  let (ns, b) := s.drain b.settle
  (r.toList ++ ns, s, b)

end Session

end SignalBroker
