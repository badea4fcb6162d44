import SignalBroker.Broker.Basic
import SignalBroker.Proofs.Broker.Applying
import SignalBroker.Proofs.Broker.Fanout

namespace SignalBroker

namespace Subscription

variable (sub : Subscription) (values changes : Values)

theorem accepted_merge :
    sub.accepted (values.merge changes) = (sub.accepted values).merge (sub.accepted changes) := by
  ext path : 1
  rw [Table.find?_merge, find?_accepted, find?_accepted, find?_accepted, Table.find?_merge]
  cases changes.find? path <;> cases values.find? path <;> cases sub.accepts path <;> rfl

end Subscription

namespace Values

variable (base : Values)

theorem merge_of_isEmpty {changes : Values} (h : changes.isEmpty = true) :
    base.merge changes = base := by
  ext path : 1
  rw [Table.find?_merge, (Table.isEmpty_iff _).mp h, Option.none_or]

def replay (told : List Values) : Values := told.foldl Table.merge base

theorem replay_append (told more : List Values) :
    base.replay (told ++ more) = (base.replay told).replay more :=
  List.foldl_append

/-- Every value that is told differs from the one that the replay has by then. -/
def Novel (base : Values) : List Values → Prop
  | [] => True
  | values :: rest =>
    (∀ path v, values.find? path = some v → ∃ u, base.find? path = some u ∧ (u == v) = false) ∧
      Novel (base.merge values) rest

theorem novel_append {told more : List Values} (h : base.Novel told)
    (hmore : (base.replay told).Novel more) : base.Novel (told ++ more) := by
  induction told generalizing base with
  | nil => exact hmore
  | cons values told ih => exact ⟨h.1, ih _ h.2 hmore⟩

end Values

def Registry.Answered {σ : Type} (r : Registry σ) : Prop :=
  ∀ path e, r.entries.find? path = some e → e.initialized = true

namespace Broker

open Subscriptions (toldTo notices)

variable {σ : Type}

/-- A subscription is there, and the outbox of its connection has room. -/
def Receives (b : Broker σ) (id : SubscriptionId) (sub : Subscription) : Prop :=
  b.subscriptions.rows.find? id = some sub ∧
    ∃ o, b.subscriptions.outboxes.find? sub.connection = some o ∧ o.takes = true

def applied (b : Broker σ) (c : Change) : Broker σ := (b.apply c.owner c.seq c.values).2

def news (b : Broker σ) (c : Change) : Change :=
  { c with values := b.registry.news c.owner c.seq c.values }

def queuedBy (b : Broker σ) (c : Change) (k : ConnectionId) : List Notification :=
  ((b.applied c).subscriptions.queue k).drop (b.subscriptions.queue k).length

/-- Steps during which a subscription stays as it is and always has room, with the notifications that
are queued for its connection and with what is new. A step either applies changes or leaves the entries
alone: writes reach their sources, sources change by themselves, batches are taken out of their streams,
and whatever else sessions and sources do. -/
inductive Watched (id : SubscriptionId) (sub : Subscription) :
    Broker σ → List Notification → List Change → Broker σ → Prop where
  | refl {b : Broker σ} (hr : b.Receives id sub) : Watched id sub b [] [] b
  | applied {b₀ b : Broker σ} {notes changes} (hw : Watched id sub b₀ notes changes b) (c : Change)
    (hr : (b.applied c).Receives id sub) :
    Watched id sub b₀ (notes ++ b.queuedBy c sub.connection) (changes ++ [b.news c]) (b.applied c)
  | aside {b₀ b b' : Broker σ} {notes changes} (hw : Watched id sub b₀ notes changes b)
    (he : b'.registry.entries = b.registry.entries) (hr : b'.Receives id sub) :
    Watched id sub b₀ notes changes b'

variable {b b₀ : Broker σ} {id : SubscriptionId} {sub : Subscription} {c : Change}
  {notes : List Notification} {changes : List Change}

theorem receives_of_watched (h : Watched id sub b₀ notes changes b) : b.Receives id sub := by
  cases h with
  | refl hr => exact hr
  | applied _ _ hr => exact hr
  | aside _ _ hr => exact hr

theorem queuedBy_eq (h : b.Receives id sub) (h' : (b.applied c).Receives id sub) :
    b.queuedBy c sub.connection = notices b.clock.millis (b.news c).values sub.connection
      b.subscriptions.rows.toList := by
  obtain ⟨-, o, ho, -⟩ := h
  obtain ⟨-, o', ho', htakes⟩ := h'
  generalize hns : notices b.clock.millis (b.news c).values sub.connection
    b.subscriptions.rows.toList = ns
  have hdispatch : (b.applied c).subscriptions.outboxes.find? sub.connection = _ :=
    b.subscriptions.find?_dispatch b.clock.millis (b.news c).values sub.connection
  rw [ho', ho, hns, Option.map_some, Option.some.injEq] at hdispatch
  have hall : ns.take o.room = ns := by
    have hroom := o'.takes_iff.mp htakes
    rw [hdispatch, Outbox.room_append, List.length_take] at hroom
    apply List.take_of_length_le
    omega
  have hqueue : (b.applied c).subscriptions.queue sub.connection =
      b.subscriptions.queue sub.connection ++ ns := by
    rw [Subscriptions.queue, Subscriptions.queue, ho', ho, hdispatch, hall]
    rfl
  rw [queuedBy, hqueue, List.drop_left]

theorem toldTo_queuedBy (h : b.Receives id sub) (h' : (b.applied c).Receives id sub) :
    toldTo id (b.queuedBy c sub.connection) =
      [sub.accepted (b.news c).values].filter fun values => !values.isEmpty := by
  rw [queuedBy_eq h h']
  exact Subscriptions.toldTo_notices h.1 b.clock.millis (b.news c).values

theorem answered_applied (h : b.registry.Answered) : (b.applied c).registry.Answered := by
  intro path e' he'
  have hfind := b.registry.find?_apply c.owner c.seq c.values path
  obtain ⟨e, he, rfl⟩ := Option.map_eq_some_iff.mp (hfind.symm.trans he')
  exact e.initialized_hear c.owner c.seq _ (h path e he)

theorem ne_of_news (h : b.registry.Answered) {path : String} {v : SignalValue}
    (hv : (b.news c).values.find? path = some v) :
    ∃ u, b.registry.cached.find? path = some u ∧ (u == v) = false := by
  obtain ⟨-, e, he, -, hdiffers⟩ := (b.registry.find?_news c.owner c.seq c.values path v).mp hv
  refine ⟨e.value, ?_, ?_⟩
  · rw [Registry.cached, Table.find?_map, he]
    rfl
  · simpa [Entry.differs, h path e he] using hdiffers

/-- What a change tells a subscription makes the replay catch up with it. -/
theorem replay_news : (sub.accepted b.registry.cached).replay
      ([sub.accepted (b.news c).values].filter fun values => !values.isEmpty) =
    sub.accepted (b.applied c).registry.cached := by
  have hcached : (b.applied c).registry.cached = b.registry.cached.merge (b.news c).values :=
    b.registry.cached_apply c.owner c.seq c.values
  rw [hcached, sub.accepted_merge]
  cases hempty : (sub.accepted (b.news c).values).isEmpty with
  | true => simp [Values.replay, hempty, Values.merge_of_isEmpty]
  | false => simp [Values.replay, hempty]

theorem novel_news (h : b.registry.Answered) : (sub.accepted b.registry.cached).Novel
    ([sub.accepted (b.news c).values].filter fun values => !values.isEmpty) := by
  cases hempty : (sub.accepted (b.news c).values).isEmpty with
  | true => simp [hempty, Values.Novel]
  | false =>
    simp only [List.filter_cons, hempty, Bool.not_false, if_true, List.filter_nil, Values.Novel,
      and_true]
    intro path v hv
    rw [sub.find?_accepted] at hv
    obtain ⟨hv, haccepts⟩ := Option.filter_eq_some_iff.mp hv
    obtain ⟨u, hu, hne⟩ := ne_of_news h hv
    refine ⟨u, ?_, hne⟩
    rw [sub.find?_accepted, hu]
    simp [Option.filter, haccepts]

/-- What a subscription is told replays to the cache, is new each time, and is what it accepts of the
news. -/
structure Replayed (id : SubscriptionId) (sub : Subscription) (b₀ b : Broker σ)
    (notes : List Notification) (changes : List Change) : Prop where
  cached : (sub.accepted b₀.registry.cached).replay (toldTo id notes) =
    sub.accepted b.registry.cached
  novel : (sub.accepted b₀.registry.cached).Novel (toldTo id notes)
  told : toldTo id notes =
    (changes.map fun c => sub.accepted c.values).filter fun values => !values.isEmpty

theorem answered_of_watched (h : b₀.registry.Answered) (hw : Watched id sub b₀ notes changes b) :
    b.registry.Answered := by
  induction hw with
  | refl => exact h
  | applied _ c _ ih => exact answered_applied ih
  | aside _ he _ ih =>
    intro path e hf
    rw [he] at hf
    exact ih path e hf

theorem replayed_of_watched (h : b₀.registry.Answered) (hw : Watched id sub b₀ notes changes b) :
    Replayed id sub b₀ b notes changes := by
  induction hw with
  | refl => exact ⟨rfl, trivial, rfl⟩
  | @applied b notes changes hw c hr' ih =>
    have htold := toldTo_queuedBy (receives_of_watched hw) hr'
    refine ⟨?_, ?_, ?_⟩
    · rw [Subscriptions.toldTo_append, Values.replay_append, ih.cached, htold, replay_news]
    · rw [Subscriptions.toldTo_append]
      apply Values.novel_append _ ih.novel
      rw [ih.cached, htold]
      exact novel_news (answered_of_watched h hw)
    · rw [Subscriptions.toldTo_append, ih.told, htold, List.map_append, List.filter_append]
      rfl
  | aside _ he _ ih =>
    refine ⟨?_, ih.novel, ih.told⟩
    rw [ih.cached, Registry.cached, Registry.cached, he]

end Broker

end SignalBroker
