import SignalBroker.Broker.Basic
import SignalBroker.Proofs.Broker.Applying
import SignalBroker.Proofs.Broker.Fanout

namespace SignalBroker.Broker

variable {σ : Type}

/-- A notification for a connection that tells only what one of its subscriptions accepts. -/
def Addressed (b : Broker σ) (c : ConnectionId) (n : Notification) : Prop :=
  ∃ sub, b.subscriptions.rows.find? n.id = some sub ∧ sub.connection = c ∧
    ∀ path v, n.values.find? path = some v →
      sub.accepts path = true ∧ ∃ isPublic, b.registry.publicity path = some isPublic

structure Told (b b' : Broker σ) : Prop where
  rows : b'.subscriptions.rows = b.subscriptions.rows
  nextId : b'.subscriptions.nextId = b.subscriptions.nextId
  nextConnection : b'.nextConnection = b.nextConnection
  publicity : ∀ path, b'.registry.publicity path = b.registry.publicity path
  queue : ∀ c, ∃ new, b'.subscriptions.queue c = b.subscriptions.queue c ++ new ∧
    ∀ n ∈ new, b.Addressed c n

theorem Addressed.congr {b b' : Broker σ} {c : ConnectionId} {n : Notification} (h : b.Told b')
    (hn : b'.Addressed c n) : b.Addressed c n := by
  obtain ⟨sub, hs, hc, hv⟩ := hn
  refine ⟨sub, by rw [← h.rows, hs], hc, ?_⟩
  intro path v hp
  rw [← h.publicity]
  exact hv path v hp

theorem Told.refl (b : Broker σ) : b.Told b where
  rows := rfl
  nextId := rfl
  nextConnection := rfl
  publicity _ := rfl
  queue _ := ⟨[], (List.append_nil _).symm, by simp⟩

theorem Told.trans {a b c : Broker σ} (hab : a.Told b) (hbc : b.Told c) : a.Told c where
  rows := hbc.rows.trans hab.rows
  nextId := hbc.nextId.trans hab.nextId
  nextConnection := hbc.nextConnection.trans hab.nextConnection
  publicity path := (hbc.publicity path).trans (hab.publicity path)
  queue k := by
    obtain ⟨first, hf, hfirst⟩ := hab.queue k
    obtain ⟨second, hs, hsecond⟩ := hbc.queue k
    refine ⟨first ++ second, by rw [hs, hf, List.append_assoc], ?_⟩
    intro n hn
    obtain hn | hn := List.mem_append.mp hn
    · exact hfirst n hn
    · exact (hsecond n hn).congr hab

theorem addressed_of_notices {b : Broker σ} {timestamp : Int} {owner seq : Nat} {values : Values}
    {c : ConnectionId} {n : Notification}
    (h : n ∈ Subscriptions.notices timestamp (b.registry.news owner seq values) c
      b.subscriptions.rows.toList) : b.Addressed c n := by
  obtain ⟨sub, hm, hc, hv⟩ := Subscriptions.mem_notices h
  refine ⟨sub, (Table.mem_toList_iff _ _ _).mp hm, hc, ?_⟩
  intro path v hp
  rw [hv, Subscription.accepted, Table.find?_filter] at hp
  obtain ⟨hn, ha⟩ := Option.filter_eq_some_iff.mp hp
  obtain ⟨-, e, he, -⟩ := (b.registry.find?_news owner seq values path v).mp hn
  exact ⟨ha, e.isPublic, by rw [Registry.publicity, he]; rfl⟩

theorem told_apply (b : Broker σ) (owner seq : Nat) (values : Values) :
    b.Told (b.apply owner seq values).2 where
  rows := rfl
  nextId := rfl
  nextConnection := rfl
  publicity path := b.registry.publicity_apply owner seq values path
  queue c := by
    refine ⟨_, b.subscriptions.queue_dispatch b.clock.millis _ c, ?_⟩
    intro n hn
    exact addressed_of_notices (List.mem_of_mem_take hn)

theorem told_setSource (b : Broker σ) (owner : Nat) (source : σ) (files : Files) :
    b.Told { b with registry := b.registry.setSource owner source, files } where
  rows := rfl
  nextId := rfl
  nextConnection := rfl
  publicity _ := rfl
  queue _ := ⟨[], (List.append_nil _).symm, by simp⟩

variable [SignalSource σ]

theorem told_writeGroups (b : Broker σ) (groups : List (Nat × Values)) :
    b.Told (b.writeGroups groups).2 := by
  induction groups generalizing b with
  | nil => exact .refl b
  | cons group rest ih =>
    unfold writeGroups
    split
    · exact .refl b
    · next m hm =>
      split
      · exact .refl b
      · next source files delivery hset =>
        have hsource := b.told_setSource group.1 source files
        cases delivery with
        | waiting => exact hsource
        | landed seq => exact (hsource.trans (told_apply _ group.1 seq group.2)).trans (ih _)

theorem told_set (b : Broker σ) (pattern : String) (request : WriteRequest) (rights : Rights) :
    b.Told (b.set pattern request rights).2 := by
  unfold set
  split
  · exact .refl b
  · exact b.told_writeGroups _

theorem told_of_set {b b' : Broker σ} {pattern : String} {request : WriteRequest} {rights : Rights}
    {outcome : WriteOutcome} (h : b.set pattern request rights = (outcome, b')) : b.Told b' := by
  have hb := b.told_set pattern request rights
  rwa [h] at hb

end SignalBroker.Broker
