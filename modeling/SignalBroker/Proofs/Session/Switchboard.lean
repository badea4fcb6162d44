import SignalBroker.Proofs.Broker.Registration
import SignalBroker.Proofs.Broker.Telling
import SignalBroker.Proofs.Session.Handling

namespace SignalBroker

structure Switchboard (σ : Type) where
  broker : Broker σ
  sessions : Table ConnectionId Session

inductive Event (σ : Type) where
  | opened (c : ConnectionId)
  | asked (c : ConnectionId) (request : Request) (answer : Option Response)
  | closed (c : ConnectionId)
  | dropped (c : ConnectionId)
  | drained (c : ConnectionId)
  | applied (owner seq : Nat) (values : Values)
  | registered (source : σ)
  | moved

namespace Switchboard

variable {σ : Type}

def start (resolver : Resolver) (clock : Clock) (outboxCapacity : Nat) (files : Files) :
    Switchboard σ :=
  ⟨.ofResolver resolver clock outboxCapacity files, .empty⟩

def queue (w : Switchboard σ) (c : ConnectionId) : List Notification :=
  w.broker.subscriptions.queue c

variable [SignalSource σ]

/-- What each event does. A session that is dropped is closed first. The surroundings may become
anything: what the sources hold and when they work, what tokens mean, the time and the files. -/
inductive Step : Switchboard σ → Event σ → Switchboard σ → Prop where
  | opened (w : Switchboard σ) :
    Step w (.opened w.broker.nextConnection)
      ⟨(Session.start w.broker).2,
        w.sessions.insert w.broker.nextConnection (Session.start w.broker).1⟩
  | asked {w : Switchboard σ} {c s s' b' request answer} (hs : w.sessions.find? c = some s)
      (hh : s.handle w.broker request = (answer, s', b')) :
    Step w (.asked c request answer) ⟨b', w.sessions.insert c s'⟩
  | closed {w : Switchboard σ} {c s} (hs : w.sessions.find? c = some s) :
    Step w (.closed c) ⟨(s.close w.broker).2, w.sessions.insert c (s.close w.broker).1⟩
  | dropped {w : Switchboard σ} {c s} (hs : w.sessions.find? c = some s) :
    Step w (.dropped c) ⟨(s.close w.broker).2, w.sessions.erase c⟩
  | drained {w : Switchboard σ} {c s} (hs : w.sessions.find? c = some s) :
    Step w (.drained c) ⟨(s.drain w.broker).2, w.sessions⟩
  | applied (w : Switchboard σ) (owner seq : Nat) (values : Values) :
    Step w (.applied owner seq values) ⟨(w.broker.apply owner seq values).2, w.sessions⟩
  | registered {w : Switchboard σ} {source b'} (hr : w.broker.register source = .ok b') :
    Step w (.registered source) ⟨b', w.sessions⟩
  | moved (w : Switchboard σ) (members timers stopped resolver clock files) :
    Step w .moved
      ⟨{ w.broker with
          registry := { w.broker.registry with members, timers, stopped }
          resolver, clock, files }, w.sessions⟩

/-- What can be reached from a new broker, with the events on the way, the latest at the end. -/
inductive Run : List (Event σ) → Switchboard σ → Prop where
  | start (resolver : Resolver) (clock : Clock) (outboxCapacity : Nat) (files : Files) :
    Run [] (start resolver clock outboxCapacity files)
  | next {log w e w'} (h : Run log w) (hs : Step w e w') : Run (log ++ [e]) w'

end Switchboard

/-- An event after which a subscription shows what its session may read: it has been made, or the
session has been authorized. -/
inductive Event.Refreshes {σ : Type} (c : ConnectionId) (id : SubscriptionId) : Event σ → Prop where
  | authorized {request requestId ttl permissions now} :
    Refreshes c id (.asked c request (some (.authorized requestId ttl permissions now)))
  | subscribed {request requestId now} :
    Refreshes c id (.asked c request (some (.subscription "subscribe" requestId id now)))

theorem Event.Refreshes.action_eq {σ : Type} {c k : ConnectionId} {id n : SubscriptionId}
    {request : Request} {action : String} {requestId : Json} {now : Int}
    (h : Refreshes (σ := σ) k id
      (.asked c request (some (.subscription action requestId n now)))) : action = "subscribe" := by
  cases h
  rfl

/-- No source has been registered since the last event that refreshed a subscription. -/
def Settled {σ : Type} (log : List (Event σ)) (c : ConnectionId) (id : SubscriptionId) : Prop :=
  ∃ before e after, log = before ++ e :: after ∧ e.Refreshes c id ∧
    ∀ source, Event.registered source ∉ after

theorem settled_append {σ : Type} {log : List (Event σ)} {e : Event σ} {c : ConnectionId}
    {id : SubscriptionId} (he : ¬ e.Refreshes c id) (h : Settled (log ++ [e]) c id) :
    (∀ source, e ≠ .registered source) ∧ Settled log c id := by
  obtain ⟨before, x, after, hlog, hx, hr⟩ := h
  obtain rfl | ⟨rest, y, rfl⟩ := List.eq_nil_or_concat after
  · obtain ⟨-, hex⟩ := List.append_inj' hlog rfl
    cases hex
    exact absurd hx he
  · have hsplit : log ++ [e] = (before ++ x :: rest) ++ [y] := by simpa using hlog
    obtain ⟨hfront, hey⟩ := List.append_inj' hsplit rfl
    cases hey
    refine ⟨?_, before, x, rest, hfront, hx, ?_⟩
    · rintro source rfl
      exact hr source (by simp)
    · intro source hm
      exact hr source (by simp [hm])

end SignalBroker
