import SignalBroker.Proofs.Broker.Adapters
import SignalBroker.Proofs.Broker.Replay

namespace SignalBroker

namespace Broker

open Subscriptions (toldTo)

inductive Stage where
  | free
  | waits (owner : Nat) (values : Values) (batch : Batch)
  | landed (c : Change)

def Stage.pending : Stage → List (Nat × Values)
  | .waits owner values _ => [(owner, values)]
  | _ => []

/-- What the application of a change has done: the cached values before and after, and what a
subscription has been told. -/
structure Telling where
  owner : Nat
  before : Values
  after : Values
  notes : List Values

/-- A subscription is told at most once, and of everything that has changed and that it accepts. -/
structure Telling.Faithful (x : Telling) (sub : Subscription) : Prop where
  once : x.notes.length ≤ 1
  whole : ∀ path v, sub.accepts path = true → x.after.find? path = some v →
    x.before.find? path ≠ some v → ∃ values ∈ x.notes, values.find? path = some v

structure Telling.Quiet (x : Telling) : Prop where
  same : x.after = x.before
  silent : x.notes = []

def notesOf (told : List Telling) (k : Nat) : List Values :=
  (told.filter fun x => x.owner == k).flatMap (·.notes)

variable {b b' b₀ : Broker Adapter} {id : SubscriptionId} {sub : Subscription} {c : Change}
  {told : List Telling} {k : Nat}

def put (b : Broker Adapter) (k : Nat) (source : Adapter) (files : Files) : Broker Adapter :=
  { b with registry := b.registry.setSource k source, files }

theorem put_applied (source : Adapter) (files : Files) :
    (b.put k source files).applied c = (b.applied c).put k source files := rfl

theorem put_put (b : Broker Adapter) (k : Nat) (source source' : Adapter) (files files' : Files) :
    (b.put k source files).put k source' files' = b.put k source' files' := by
  simp only [put, Registry.setSource, List.modify_modify_eq]
  rfl

theorem put_comm (b : Broker Adapter) {j : Nat} (hne : j ≠ k) (source source' : Adapter)
    (files files' : Files) :
    (b.put j source files).put k source' files' = (b.put k source' files').put j source files' := by
  simp only [put, Registry.setSource, List.modify_modify_ne _ _ _ hne]

def telling (b : Broker Adapter) (id : SubscriptionId) (sub : Subscription) (c : Change) : Telling :=
  ⟨c.owner, b.registry.cached, (b.applied c).registry.cached,
    toldTo id (b.queuedBy c sub.connection)⟩

def seqOf (b : Broker Adapter) (k : Nat) : Nat :=
  ((b.registry.members[k]?).map fun m => m.source.store.seq).getD 0

def queueOf (b : Broker Adapter) (k : Nat) : List Batch :=
  ((b.registry.members[k]?).map fun m => m.source.store.stream.queue).getD []

/-- The course of a write that starts with some groups of values, one for each source, and that no
other write disturbs: the broker and the groups that are left, the stage of the group in hand, and what
the applications of the write and of its echoes have told a subscription. An echo is a batch later than
all that its source had done before. The subscription stays as it is and always has room. -/
inductive Course (id : SubscriptionId) (sub : Subscription) (b₀ : Broker Adapter)
    (groups : List (Nat × Values)) :
    Broker Adapter → List (Nat × Values) → Stage → List Telling → Prop where
  | start (hr : b₀.Receives id sub) : Course id sub b₀ groups b₀ groups .free []
  | wrote {b owner values rest told m source files seq}
    (h : Course id sub b₀ groups b ((owner, values) :: rest) .free told)
    (hm : b.registry.members[owner]? = some m)
    (hset : SignalSource.set m.source b.files values = .ok (source, files, .landed seq)) :
    Course id sub b₀ groups (b.put owner source files) rest (.landed ⟨owner, seq, values⟩) told
  | stuck {b owner values rest told m source files batch}
    (h : Course id sub b₀ groups b ((owner, values) :: rest) .free told)
    (hm : b.registry.members[owner]? = some m)
    (hset : SignalSource.set m.source b.files values = .ok (source, files, .waiting))
    (hb : (m.source.store.commit values).2 = some batch) :
    Course id sub b₀ groups (b.put owner source files) rest (.waits owner values batch) told
  | resumed {b todo owner values batch told m stream}
    (h : Course id sub b₀ groups b todo (.waits owner values batch) told)
    (hm : b.registry.members[owner]? = some m)
    (ho : m.source.store.stream.offer batch = some stream) :
    Course id sub b₀ groups
      (b.put owner (m.source.withStream stream)
        (Adapter.persist m.source.backing (m.source.withStream stream).store b.files))
      todo (.landed ⟨owner, m.source.store.seq, values⟩) told
  | applied {b todo c told} (h : Course id sub b₀ groups b todo (.landed c) told)
    (hr : (b.applied c).Receives id sub) :
    Course id sub b₀ groups (b.applied c) todo .free (told ++ [b.telling id sub c])
  | fed {b todo stage told k source batch source'}
    (h : Course id sub b₀ groups b todo stage told)
    (hm : b.registry.members[k]? = some ⟨source, true⟩)
    (hrec : SignalSource.receive source = some (batch, source'))
    (hr : ((b.put k source' b.files).applied ⟨k, batch.seq, batch.values⟩).Receives id sub) :
    Course id sub b₀ groups ((b.put k source' b.files).applied ⟨k, batch.seq, batch.values⟩)
      todo stage
      (if b₀.seqOf k < batch.seq then
        told ++ [(b.put k source' b.files).telling id sub ⟨k, batch.seq, batch.values⟩]
      else told)
  | moved {b todo stage told} (h : Course id sub b₀ groups b todo stage told)
    (subscriptions timers resolver clock outboxCapacity nextConnection files)
    (hr : ({ b with
      registry := { b.registry with timers }
      subscriptions, resolver, clock, outboxCapacity, nextConnection,
      files } : Broker Adapter).Receives id sub) :
    Course id sub b₀ groups
      { b with
        registry := { b.registry with timers }
        subscriptions, resolver, clock, outboxCapacity, nextConnection, files } todo stage told

variable {groups todo : List (Nat × Values)} {stage : Stage}

theorem receives_of_course (h : Course id sub b₀ groups b todo stage told) : b.Receives id sub := by
  induction h with
  | start hr => exact hr
  | wrote _ _ _ ih => exact ih
  | stuck _ _ _ _ ih => exact ih
  | resumed _ _ _ ih => exact ih
  | applied _ hr => exact hr
  | fed _ _ _ hr => exact hr
  | moved _ _ _ _ _ _ _ _ hr => exact hr

theorem receives_of_applied {σ : Type} {b : Broker σ} (h : (b.applied c).Receives id sub) :
    b.Receives id sub := by
  obtain ⟨hrow, o', ho', htakes⟩ := h
  refine ⟨hrow, ?_⟩
  have hdispatch : (b.applied c).subscriptions.outboxes.find? sub.connection = _ :=
    b.subscriptions.find?_dispatch b.clock.millis (b.news c).values sub.connection
  rw [ho'] at hdispatch
  obtain ⟨o, ho, rfl⟩ := Option.map_eq_some_iff.mp hdispatch.symm
  have hroom := (Outbox.takes_iff _).mp htakes
  rw [Outbox.room_append] at hroom
  exact ⟨o, ho, o.takes_iff.mpr (by omega)⟩

theorem receives_of_writeGroups {outcome : WriteOutcome} (h : b.writeGroups groups = (outcome, b'))
    (hr : b'.Receives id sub) : b.Receives id sub := by
  induction groups generalizing b with
  | nil =>
    cases h
    exact hr
  | cons group rest ih =>
    unfold writeGroups at h
    split at h
    · cases h
      exact hr
    · split at h
      · cases h
        exact hr
      · next source files delivery hset =>
        cases delivery with
        | waiting =>
          cases h
          exact hr
        | landed seq =>
          let c : Change := ⟨group.1, seq, group.2⟩
          have hrest : ((b.put group.1 source files).applied c).writeGroups rest = (outcome, b') := h
          have happlied := ih hrest
          exact receives_of_applied (b := b.put group.1 source files) happlied

theorem course_of_writeGroups {rest : List (Nat × Values)}
    (hc : Course id sub b₀ groups b rest .free told) (h : b.writeGroups rest = (.done, b'))
    (hr : b'.Receives id sub) : ∃ told', Course id sub b₀ groups b' [] .free told' := by
  induction rest generalizing b told with
  | nil =>
    cases h
    exact ⟨told, hc⟩
  | cons group rest ih =>
    unfold writeGroups at h
    split at h
    · cases h
    · next m hm =>
      split at h
      · cases h
      · next source files delivery hset =>
        cases delivery with
        | waiting => cases h
        | landed seq =>
          let c : Change := ⟨group.1, seq, group.2⟩
          have hrest : ((b.put group.1 source files).applied c).writeGroups rest = (.done, b') := h
          exact ih ((hc.wrote hm hset).applied (receives_of_writeGroups hrest hr)) hrest

/-- A write of a client that nothing comes between has taken its course, with every group applied. -/
theorem course_of_set {pattern : String} {w : WriteRequest} {rights : Rights}
    {targets : Table String Target} (ht : b.registry.targets pattern w rights = .ok targets)
    (h : b.set pattern w rights = (.done, b')) (hr : b'.Receives id sub) :
    ∃ told, Course id sub b (Registry.groups targets).toList b' [] .free told := by
  have hwrite : b.writeGroups (Registry.groups targets).toList = (.done, b') := by
    rw [← h, set, ht]
  exact course_of_writeGroups (.start (receives_of_writeGroups hwrite hr)) hwrite hr

theorem find?_cached_applied (b : Broker Adapter) (c : Change) (path : String) :
    (b.applied c).registry.cached.find? path =
      ((b.news c).values.find? path).or (b.registry.cached.find? path) := by
  have hcached : (b.applied c).registry.cached = b.registry.cached.merge (b.news c).values :=
    b.registry.cached_apply c.owner c.seq c.values
  rw [hcached, Table.find?_merge]

theorem faithful_telling (h : b.Receives id sub) (h' : (b.applied c).Receives id sub) :
    (b.telling id sub c).Faithful sub := by
  have htold := toldTo_queuedBy h h'
  refine ⟨?_, ?_⟩
  · rw [telling, htold]
    exact List.length_filter_le _ _
  · intro path v haccepts hafter hbefore
    have hfind := (b.find?_cached_applied c path).symm.trans hafter
    obtain hnews | ⟨-, hold⟩ := Option.or_eq_some_iff.mp hfind
    · have haccepted : (sub.accepted (b.news c).values).find? path = some v := by
        rw [sub.find?_accepted, hnews]
        exact Option.filter_eq_some_iff.mpr ⟨rfl, haccepts⟩
      have hsome : (sub.accepted (b.news c).values).isEmpty = false := by
        apply Bool.eq_false_iff.mpr
        intro hempty
        rw [(Table.isEmpty_iff _).mp hempty] at haccepted
        cases haccepted
      refine ⟨_, ?_, haccepted⟩
      rw [telling, htold]
      simp [hsome]
    · exact absurd hold hbefore

theorem quiet_telling (h : b.Receives id sub) (h' : (b.applied c).Receives id sub)
    (hnews : ∀ path, (b.news c).values.find? path = none) : (b.telling id sub c).Quiet := by
  refine ⟨?_, ?_⟩
  · ext path : 1
    rw [telling, find?_cached_applied, hnews, Option.none_or]
  · have hempty : (sub.accepted (b.news c).values).isEmpty = true := by
      apply (Table.isEmpty_iff _).mpr
      intro path
      rw [sub.find?_accepted, hnews]
      rfl
    rw [telling, toldTo_queuedBy h h']
    simp [hempty]

theorem mem_notesOf {x : Telling} {values : Values} (hx : x ∈ told) (hv : values ∈ x.notes) :
    values ∈ notesOf told x.owner :=
  List.mem_flatMap.mpr ⟨x, List.mem_filter.mpr ⟨hx, beq_self_eq_true x.owner⟩, hv⟩

/-- Where only the first application for a source says something, the subscription is told once. -/
theorem length_notesOf_le (hquiet : told.Pairwise fun x y => x.owner = y.owner → y.Quiet)
    (hfaithful : ∀ x ∈ told, x.Faithful sub) : (notesOf told k).length ≤ 1 := by
  induction told with
  | nil => exact Nat.zero_le _
  | cons x rest ih =>
    obtain ⟨hx, hrest⟩ := List.forall_mem_cons.mp hfaithful
    obtain ⟨hlater, hquiet⟩ := List.pairwise_cons.mp hquiet
    by_cases howner : x.owner = k
    · have hsilent : notesOf rest k = [] := by
        apply List.flatMap_eq_nil_iff.mpr
        intro y hy
        obtain ⟨hy, hk⟩ := List.mem_filter.mp hy
        exact (hlater y hy (howner.trans (beq_iff_eq.mp hk).symm)).silent
      have hnotes : notesOf (x :: rest) k = x.notes ++ notesOf rest k := by
        simp [notesOf, howner]
      rw [hnotes, hsilent, List.append_nil]
      exact hx.once
    · have hnotes : notesOf (x :: rest) k = notesOf rest k := by
        simp [notesOf, howner]
      rw [hnotes]
      exact ih hquiet hrest

theorem notesOf_eq (h : ∀ x ∈ told, x.owner = k) : notesOf told k = told.flatMap (·.notes) := by
  rw [notesOf, List.filter_eq_self.mpr]
  intro x hx
  exact beq_iff_eq.mpr (h x hx)

end Broker

end SignalBroker
