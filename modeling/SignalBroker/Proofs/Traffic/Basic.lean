import Mathlib.Logic.Function.Basic
import Mathlib.Logic.Relation
import SignalBroker.Proofs.Broker.Adapters
import SignalBroker.Proofs.Broker.Replay

namespace SignalBroker

/-- The history of a source and how many of its changes came before its registration. -/
structure Past where
  first : Nat
  history : History

/-- A broker with what is under way, and with records of what has been: the history of each source,
and what was new whenever changes were applied. -/
structure Traffic where
  broker : Broker Adapter
  /-- Writes that have landed and are still to be applied. -/
  landed : List Change
  past : Nat → Past
  news : List Change

namespace Traffic

def start (resolver : Resolver) (clock : Clock) (outboxCapacity : Nat) (files : Files) : Traffic :=
  ⟨.ofResolver resolver clock outboxCapacity files, [], fun _ => ⟨0, []⟩, []⟩

def put (t : Traffic) (owner : Nat) (source : Adapter) (files : Files) : Traffic :=
  { t with
    broker := { t.broker with registry := t.broker.registry.setSource owner source, files }
    past := Function.update t.past owner
      ⟨(t.past owner).first, (t.past owner).history.record source.store⟩ }

def apply (t : Traffic) (c : Change) : Traffic :=
  { t with broker := t.broker.applied c, news := t.news ++ [t.broker.news c] }

/-- One step. Only adapters of a certain kind are registered. An adapter that has room in its stream
is written to by itself or by a client, a write that has landed is applied, or the oldest batch of a
stream is. Sessions, subscriptions, time and files may become anything. -/
inductive Step (P : Adapter → Prop) : Traffic → Traffic → Prop where
  | registered {t : Traffic} {a history b'} (hp : P a) (hl : a.store.Lived history)
    (hr : t.broker.register a = .ok b') :
    Step P t { t with
      broker := b'
      past := Function.update t.past t.broker.registry.members.length ⟨a.store.seq, history⟩ }
  | updated {t : Traffic} {owner m values store seq} (backing : Backing)
    (hm : t.broker.registry.members[owner]? = some m)
    (hu : m.source.store.update values = .ok (store, .landed seq)) :
    Step P t (t.put owner ⟨store, backing⟩ t.broker.files)
  | wrote {t : Traffic} {owner m values source files seq}
    (hm : t.broker.registry.members[owner]? = some m)
    (hw : SignalSource.set m.source t.broker.files values = .ok (source, files, .landed seq)) :
    Step P t { t.put owner source files with landed := t.landed ++ [⟨owner, seq, values⟩] }
  | finished {t : Traffic} {before c after} (hl : t.landed = before ++ c :: after) :
    Step P t { t.apply c with landed := before ++ after }
  | fed {t : Traffic} {owner source batch source'}
    (hm : t.broker.registry.members[owner]? = some ⟨source, true⟩)
    (hr : SignalSource.receive source = some (batch, source')) :
    Step P t ((t.put owner source' t.broker.files).apply ⟨owner, batch.seq, batch.values⟩)
  | moved (t : Traffic) (subscriptions timers resolver clock outboxCapacity nextConnection files) :
    Step P t { t with broker := { t.broker with
      registry := { t.broker.registry with timers }
      subscriptions, resolver, clock, outboxCapacity, nextConnection, files } }

def Later (P : Adapter → Prop) : Traffic → Traffic → Prop := Relation.ReflTransGen (Step P)

def Reached (P : Adapter → Prop) (t : Traffic) : Prop :=
  ∃ resolver clock outboxCapacity files, Later P (start resolver clock outboxCapacity files) t

variable {t : Traffic}

theorem reached_start {P : Adapter → Prop} (resolver : Resolver) (clock : Clock)
    (outboxCapacity : Nat) (files : Files) :
    Reached P (start resolver clock outboxCapacity files) :=
  ⟨resolver, clock, outboxCapacity, files, .refl⟩

theorem members_put {owner : Nat} {source : Adapter} {files : Files} (k : Nat) :
    (t.put owner source files).broker.registry.members[k]? =
      (t.broker.registry.members[k]?).map fun m =>
        if k = owner then { m with source } else m :=
  Registry.members_setSource source k

theorem member_put {k : Nat} {m : Member Adapter} (hm : t.broker.registry.members[k]? = some m)
    (source : Adapter) (files : Files) :
    (t.put k source files).broker.registry.members[k]? = some { m with source } := by
  rw [members_put, hm]
  simp

theorem member_put_ne {j k : Nat} (hne : j ≠ k) (source : Adapter) (files : Files) :
    (t.put k source files).broker.registry.members[j]? = t.broker.registry.members[j]? := by
  rw [members_put]
  simp [hne]

theorem find?_apply {c : Change} (path : String) :
    (t.apply c).broker.registry.entries.find? path =
      (t.broker.registry.entries.find? path).map fun e => e.hear c.owner c.seq (c.values.find? path) :=
  t.broker.registry.find?_apply c.owner c.seq c.values path

theorem broker_fed {owner : Nat} {source source' : Adapter} {batch : Batch}
    (hm : t.broker.registry.members[owner]? = some ⟨source, true⟩)
    (hr : SignalSource.receive source = some (batch, source')) :
    ((t.put owner source' t.broker.files).apply ⟨owner, batch.seq, batch.values⟩).broker =
      t.broker.feed owner := by
  simp only [Broker.feed, hm, hr]
  rfl

/-- A write that a broker carries out without interruption is made of steps. -/
theorem later_of_writeGroups {P : Adapter → Prop} {groups : List (Nat × Values)}
    {b' : Broker Adapter} (h : t.broker.writeGroups groups = (.done, b')) :
    ∃ t', Later P t t' ∧ t'.broker = b' ∧ t'.landed = t.landed := by
  induction groups generalizing t with
  | nil =>
    cases h
    exact ⟨t, .refl, rfl, rfl⟩
  | cons group rest ih =>
    unfold Broker.writeGroups at h
    split at h
    · cases h
    · next m hm =>
      split at h
      · cases h
      · next source files delivery hset =>
        cases delivery with
        | waiting => cases h
        | landed seq =>
          let c : Change := ⟨group.1, seq, group.2⟩
          let wrote : Traffic :=
            { t.put group.1 source files with landed := t.landed ++ [c] }
          let done : Traffic := { wrote.apply c with landed := t.landed ++ [] }
          have hwrote : Step P t wrote := .wrote hm hset
          have hdone : Step P wrote done := .finished rfl
          have hrest : done.broker.writeGroups rest = (.done, b') := h
          obtain ⟨t', hl, hb, hlanded⟩ := ih hrest
          refine ⟨t', ?_, hb, hlanded.trans (List.append_nil _)⟩
          exact (Relation.ReflTransGen.single hwrote).tail hdone |>.trans hl

end Traffic

end SignalBroker
