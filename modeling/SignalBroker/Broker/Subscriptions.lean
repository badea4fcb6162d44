import SignalBroker.Broker.Error
import SignalBroker.Decimal.Natural
import SignalBroker.Signal.Value

namespace SignalBroker

/-- Subscriptions are numbered from one on, and no number is given twice. -/
abbrev SubscriptionId := Nat

abbrev ConnectionId := Nat

def SubscriptionId.ofText (text : String) : Except BrokerError SubscriptionId :=
  match Decimal.natural 0xffffffffffffffff (Text.trim text) with
  | .ok id => .ok id
  | .error _ => .error (.subscriptionNotFound text)

structure Notification where
  id : SubscriptionId
  values : Values
  timestamp : Int

structure Subscription where
  connection : ConnectionId
  pattern : Pattern
  /-- The paths that may be shown, or none if there is no limit. -/
  visible : Option (List String)

namespace Subscription

def accepts (s : Subscription) (path : String) : Bool :=
  s.pattern.matches path &&
    match s.visible with
    | none => true
    | some paths => paths.contains path

def accepted (s : Subscription) (changes : Values) : Values :=
  changes.filter fun path _ => s.accepts path

end Subscription

/-- The notifications that wait for a connection. The broker holds the sending end as long as it
knows the connection and the session keeps its end alive. -/
structure Outbox where
  capacity : Nat
  queue : List Notification
  known : Bool
  senderAlive : Bool
  receiverOpen : Bool

namespace Outbox

def ofCapacity (capacity : Nat) : Outbox :=
  ⟨capacity, [], true, true, true⟩

def takes (o : Outbox) : Bool :=
  o.known && o.senderAlive && o.receiverOpen && o.queue.length < o.capacity

def offer (o : Outbox) (n : Notification) : Option Outbox :=
  if o.takes then some { o with queue := o.queue ++ [n] } else none

/-- The session lets go of its end. What is in the outbox stays there. -/
def dropSender (o : Outbox) : Outbox := { o with senderAlive := false }

/-- The receiving end goes away, and the notifications with it. -/
def closeReceiver (o : Outbox) : Outbox := { o with receiverOpen := false, queue := [] }

def forget (o : Outbox) : Outbox := { o with known := false }

end Outbox

structure Subscriptions where
  rows : Table SubscriptionId Subscription
  outboxes : Table ConnectionId Outbox
  /-- A word of 64 bits holds it, since no run comes to `2 ^ 64` subscriptions. -/
  nextId : SubscriptionId

namespace Subscriptions

def empty : Subscriptions := ⟨.empty, .empty, 1⟩

instance : EmptyCollection Subscriptions := ⟨empty⟩
instance : Inhabited Subscriptions := ⟨empty⟩

def connect (s : Subscriptions) (c : ConnectionId) (capacity : Nat) : Subscriptions :=
  { s with outboxes := s.outboxes.insert c (.ofCapacity capacity) }

def adjustOutbox (s : Subscriptions) (c : ConnectionId) (f : Outbox → Outbox) : Subscriptions :=
  { s with outboxes := s.outboxes.adjust c f }

def add (s : Subscriptions) (sub : Subscription) : SubscriptionId × Subscriptions :=
  (s.nextId, { s with rows := s.rows.insert s.nextId sub, nextId := s.nextId + 1 })

def subscribe (s : Subscriptions) (c : ConnectionId) (pattern : String) :
    Except BrokerError (SubscriptionId × Subscriptions) :=
  match Pattern.ofText pattern with
  | .ok p => .ok (s.add ⟨c, p, none⟩)
  | .error e => .error (.invalidPattern e)

def subscribeTo (s : Subscriptions) (c : ConnectionId) (pattern : Pattern) (visible : List String) :
    SubscriptionId × Subscriptions :=
  s.add ⟨c, pattern, some visible⟩

def ofConnection (s : Subscriptions) (c : ConnectionId) : Table SubscriptionId Subscription :=
  s.rows.filter fun _ sub => sub.connection == c

def ids (s : Subscriptions) (c : ConnectionId) : List SubscriptionId :=
  (s.ofConnection c).keys

def patterns (s : Subscriptions) (c : ConnectionId) : List (SubscriptionId × Pattern) :=
  (s.ofConnection c).toList.map fun (id, sub) => (id, sub.pattern)

def count (s : Subscriptions) : Nat := s.rows.size

def owns (s : Subscriptions) (c : ConnectionId) (id : SubscriptionId) : Bool :=
  (s.rows.find? id).any (·.connection == c)

def unsubscribe (s : Subscriptions) (c : ConnectionId) (id : SubscriptionId) :
    Except BrokerError Subscriptions :=
  if s.owns c id then .ok { s with rows := s.rows.erase id }
  else .error (.subscriptionNotFound (toString id))

def unsubscribeAll (s : Subscriptions) (c : ConnectionId) : Nat × Subscriptions :=
  ((s.ofConnection c).size, { s with rows := s.rows.filter fun _ sub => sub.connection != c })

def disconnect (s : Subscriptions) (c : ConnectionId) : Nat × Subscriptions :=
  (s.adjustOutbox c Outbox.forget).unsubscribeAll c

def setVisible (s : Subscriptions) (c : ConnectionId) (id : SubscriptionId)
    (visible : List String) : Option Subscriptions :=
  if s.owns c id then
    some { s with rows := s.rows.adjust id fun sub => { sub with visible := some visible } }
  else none

def refresh (s : Subscriptions) (c : ConnectionId) (visible : Pattern → List String) :
    Subscriptions :=
  { s with rows := s.rows.map fun _ sub =>
      if sub.connection = c then { sub with visible := some (visible sub.pattern) } else sub }

def notification? (timestamp : Int) (changes : Values) (id : SubscriptionId) (sub : Subscription) :
    Option Notification :=
  let values := sub.accepted changes
  if values.isEmpty then none else some ⟨id, values, timestamp⟩

/-- Tell one subscription of some changes. A notification that finds no room is lost. The first part
counts the notifications put into outboxes. -/
def tell (timestamp : Int) (changes : Values) (state : Nat × Table ConnectionId Outbox)
    (row : SubscriptionId × Subscription) : Nat × Table ConnectionId Outbox :=
  match notification? timestamp changes row.1 row.2 with
  | none => state
  | some n =>
    match (state.2.find? row.2.connection).bind (·.offer n) with
    | some o => (state.1 + 1, state.2.insert row.2.connection o)
    | none => state

/-- Tell all subscriptions of some changes, and say how many notifications found room. -/
def dispatch (s : Subscriptions) (timestamp : Int) (changes : Values) : Nat × Subscriptions :=
  let (n, outboxes) := s.rows.toList.foldl (tell timestamp changes) (0, s.outboxes)
  (n, { s with outboxes })

def drain (s : Subscriptions) (c : ConnectionId) : List Notification × Subscriptions :=
  (((s.outboxes.find? c).map (·.queue)).getD [],
    s.adjustOutbox c fun o => { o with queue := [] })

end Subscriptions

end SignalBroker
