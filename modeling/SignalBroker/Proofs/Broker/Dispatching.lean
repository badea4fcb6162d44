import SignalBroker.Proofs.Broker.Fanout

namespace SignalBroker.Subscriptions

variable (timestamp : Int) (changes : Values)

/-- What a connection is to be told of some changes, in the order of the numbers of its subscriptions:
each that accepts a changed path is told of all that it accepts, under its number and the time. -/
structure AreNotices (rows : Table SubscriptionId Subscription) (c : ConnectionId) (timestamp : Int)
    (changes : Values) (ns : List Notification) : Prop where
  ascending : ns.Pairwise fun n m => n.id < m.id
  mem_iff : ∀ n, n ∈ ns ↔ n.timestamp = timestamp ∧
    ∃ sub, rows.find? n.id = some sub ∧ sub.connection = c ∧
      (∃ path v, changes.find? path = some v ∧ sub.accepts path = true) ∧
      ∀ path v, n.values.find? path = some v ↔
        changes.find? path = some v ∧ sub.accepts path = true

theorem areNotices_notices (rows : Table SubscriptionId Subscription) (c : ConnectionId)
    (timestamp : Int) (changes : Values) :
    AreNotices rows c timestamp changes (notices timestamp changes c rows.toList) where
  ascending := by
    refine List.Pairwise.filterMap _ ?_ rows.ascending
    intro row row' hlt n hn n' hn'
    split at hn
    · split at hn'
      · obtain ⟨rfl, -⟩ := notification?_eq_some_iff.mp hn
        obtain ⟨rfl, -⟩ := notification?_eq_some_iff.mp hn'
        exact hlt
      · cases hn'
    · cases hn
  mem_iff n := by
    rw [mem_notices_iff]
    constructor
    · rintro ⟨sub, hm, hc, hn⟩
      obtain ⟨hn, hsome⟩ := notification?_eq_some_iff.mp hn
      refine ⟨congrArg Notification.timestamp hn, sub, (rows.mem_toList_iff _ _).mp hm, hc, hsome, ?_⟩
      intro path v
      rw [congrArg Notification.values hn, sub.find?_accepted, Option.filter_eq_some_iff]
    · rintro ⟨htime, sub, hs, hc, hsome, hvalues⟩
      refine ⟨sub, (rows.mem_toList_iff _ _).mpr hs, hc, notification?_eq_some_iff.mpr ⟨?_, hsome⟩⟩
      have haccepted : n.values = sub.accepted changes := by
        ext path : 1
        apply Option.ext
        intro v
        rw [hvalues, sub.find?_accepted, Option.filter_eq_some_iff]
      cases n
      cases htime
      cases haccepted
      rfl

/-- What a connection is told depends on its own subscriptions alone. -/
theorem notices_ofConnection (s : Subscriptions) (c : ConnectionId) (timestamp : Int)
    (changes : Values) : notices timestamp changes c (s.ofConnection c).toList =
      notices timestamp changes c s.rows.toList := by
  have hrows : (s.ofConnection c).toList = s.rows.toList.filter fun row => row.2.connection == c := rfl
  rw [hrows, notices, notices, List.filterMap_filter]
  congr 1
  funext row
  by_cases hc : row.2.connection = c <;> simp [hc]

def waiting (outboxes : Table ConnectionId Outbox) : Nat :=
  (outboxes.values.flatMap (·.queue)).length

theorem waiting_tell (state : Nat × Table ConnectionId Outbox)
    (row : SubscriptionId × Subscription) :
    waiting (tell timestamp changes state row).2 + state.1 =
      waiting state.2 + (tell timestamp changes state row).1 := by
  unfold tell
  split
  · rfl
  · next n hn =>
    split
    · next o' ho' =>
      obtain ⟨o, ho, hoffer⟩ := Option.bind_eq_some_iff.mp ho'
      have hqueue : o'.queue.length = o.queue.length + 1 := by
        unfold Outbox.offer at hoffer
        split at hoffer
        · cases hoffer
          exact List.length_append
        · cases hoffer
      have hsum := Table.length_flatMap_insert (·.queue) o' ho
      simp only [waiting]
      omega
    · rfl

theorem waiting_foldl_tell (rows : List (SubscriptionId × Subscription))
    (state : Nat × Table ConnectionId Outbox) :
    waiting (rows.foldl (tell timestamp changes) state).2 + state.1 =
      waiting state.2 + (rows.foldl (tell timestamp changes) state).1 := by
  induction rows generalizing state with
  | nil => rfl
  | cons row rows ih =>
    have hhead := waiting_tell timestamp changes state row
    have htail := ih (tell timestamp changes state row)
    rw [List.foldl_cons]
    omega

/-- Telling subscribers of some changes puts into each outbox the first of the notices for its
connection, as many as there is room for, and nothing else; it returns how many that are, and leaves the
subscriptions as they are. What a connection gets is the same whatever the outboxes and the
subscriptions of others are. -/
theorem dispatch_exact (s : Subscriptions) (timestamp : Int) (changes : Values) :
    (s.dispatch timestamp changes).2.rows = s.rows ∧
    (s.dispatch timestamp changes).2.nextId = s.nextId ∧
    waiting (s.dispatch timestamp changes).2.outboxes =
      waiting s.outboxes + (s.dispatch timestamp changes).1 ∧
    ∀ c, (∃ ns, AreNotices s.rows c timestamp changes ns ∧
        (s.dispatch timestamp changes).2.outboxes.find? c = (s.outboxes.find? c).map fun o =>
          { o with queue := o.queue ++ ns.take o.room }) ∧
      ∀ t : Subscriptions, t.outboxes.find? c = s.outboxes.find? c →
        t.ofConnection c = s.ofConnection c →
        (t.dispatch timestamp changes).2.outboxes.find? c =
          (s.dispatch timestamp changes).2.outboxes.find? c := by
  refine ⟨rfl, rfl, waiting_foldl_tell timestamp changes s.rows.toList (0, s.outboxes), ?_⟩
  intro c
  refine ⟨⟨_, areNotices_notices s.rows c timestamp changes, s.find?_dispatch _ _ c⟩, ?_⟩
  intro t houtbox hrows
  rw [t.find?_dispatch, s.find?_dispatch, houtbox, ← t.notices_ofConnection, hrows,
    s.notices_ofConnection]

def everything : Pattern := ⟨"*", [.wildcard], rfl⟩

/-- Two subscriptions of a connection that has room for one notification, and between them one of a
connection that nobody reads from any more. -/
def crowded : Subscriptions :=
  let s := (empty.connect 0 1).connect 1 8
  let s := (s.subscribeTo 0 everything ["Speed"]).2
  let s := (s.subscribeTo 1 everything ["Speed"]).2
  (s.subscribeTo 0 everything ["Speed", "Gear"]).2.adjustOutbox 1 .closeReceiver

def lonely : Subscriptions :=
  let s := empty.connect 0 1
  let s := (s.subscribeTo 0 everything ["Speed"]).2
  let s := ((s.subscribeTo 1 everything ["Gear"]).2.unsubscribeAll 1).2
  (s.subscribeTo 0 everything ["Speed", "Gear"]).2

theorem dispatch_exact_crowded :
    lonely.outboxes.find? 0 = crowded.outboxes.find? 0 ∧
    lonely.ofConnection 0 = crowded.ofConnection 0 ∧
    lonely.outboxes.find? 1 ≠ crowded.outboxes.find? 1 ∧
    (crowded.dispatch 7 (.ofList [("Speed", .number 3)])).1 = 1 ∧
    (lonely.dispatch 7 (.ofList [("Speed", .number 3)])).2.outboxes.find? 0 =
      (crowded.dispatch 7 (.ofList [("Speed", .number 3)])).2.outboxes.find? 0 :=
  ⟨rfl, rfl, nofun, rfl, ((dispatch_exact crowded 7 _).2.2.2 0).2 lonely rfl rfl⟩

end SignalBroker.Subscriptions
