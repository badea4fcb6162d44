import SignalBroker.Broker.Subscriptions
import SignalBroker.Proofs.Table

namespace SignalBroker

namespace Outbox

def room (o : Outbox) : Nat :=
  if o.known && o.senderAlive && o.receiverOpen then o.capacity - o.queue.length else 0

theorem takes_iff (o : Outbox) : o.takes = true ↔ 0 < o.room := by
  unfold takes room
  split
  · next h => simp only [h, Bool.true_and, decide_eq_true_eq]; omega
  · next h => simp [h]

theorem room_append (o : Outbox) (ns : List Notification) :
    ({ o with queue := o.queue ++ ns } : Outbox).room = o.room - ns.length := by
  unfold room
  split
  · simp only [List.length_append]
    omega
  · simp

end Outbox

theorem Subscription.find?_accepted (sub : Subscription) (values : Values) (path : String) :
    (sub.accepted values).find? path = (values.find? path).filter fun _ => sub.accepts path :=
  Table.find?_filter _ _ _

namespace Subscriptions

def notices (timestamp : Int) (changes : Values) (c : ConnectionId)
    (rows : List (SubscriptionId × Subscription)) : List Notification :=
  rows.filterMap fun row =>
    if row.2.connection = c then notification? timestamp changes row.1 row.2 else none

def queue (s : Subscriptions) (c : ConnectionId) : List Notification :=
  ((s.outboxes.find? c).map (·.queue)).getD []

theorem notices_cons (timestamp : Int) (changes : Values) (c : ConnectionId)
    (row : SubscriptionId × Subscription) (rows : List (SubscriptionId × Subscription)) :
    notices timestamp changes c (row :: rows) =
      (if row.2.connection = c then notification? timestamp changes row.1 row.2 else none).toList ++
        notices timestamp changes c rows := by
  unfold notices
  rw [List.filterMap_cons]
  cases (if row.2.connection = c then notification? timestamp changes row.1 row.2 else none) <;> rfl

theorem accepted_isEmpty_eq_false_iff {sub : Subscription} {changes : Values} :
    (sub.accepted changes).isEmpty = false ↔
    ∃ path v, changes.find? path = some v ∧ sub.accepts path = true := by
  rw [Table.isEmpty_eq_false_iff]
  refine exists_congr fun path => exists_congr fun v => ?_
  rw [sub.find?_accepted, Option.filter_eq_some_iff]

theorem notification?_eq_some_iff {timestamp : Int} {changes : Values} {id : SubscriptionId}
    {sub : Subscription} {n : Notification} :
    notification? timestamp changes id sub = some n ↔
      n = ⟨id, sub.accepted changes, timestamp⟩ ∧
        ∃ path v, changes.find? path = some v ∧ sub.accepts path = true := by
  rw [← accepted_isEmpty_eq_false_iff, notification?]
  cases (sub.accepted changes).isEmpty
  · simp only [Bool.false_eq_true, if_false, Option.some.injEq, and_true]
    exact eq_comm
  · simp

theorem mem_notices_iff {timestamp : Int} {changes : Values} {c : ConnectionId}
    {rows : List (SubscriptionId × Subscription)} {n : Notification} :
    n ∈ notices timestamp changes c rows ↔
      ∃ sub, (n.id, sub) ∈ rows ∧ sub.connection = c ∧
        notification? timestamp changes n.id sub = some n := by
  constructor
  · intro h
    obtain ⟨⟨id, sub⟩, hm, hn⟩ := List.mem_filterMap.mp h
    split at hn
    · next hc =>
      obtain ⟨rfl, -⟩ := notification?_eq_some_iff.mp hn
      exact ⟨sub, hm, hc, hn⟩
    · cases hn
  · rintro ⟨sub, hm, hc, hn⟩
    exact List.mem_filterMap.mpr ⟨(n.id, sub), hm, by rw [if_pos hc, hn]⟩

theorem mem_notices {timestamp : Int} {changes : Values} {c : ConnectionId}
    {rows : List (SubscriptionId × Subscription)} {n : Notification}
    (h : n ∈ notices timestamp changes c rows) :
    ∃ sub, (n.id, sub) ∈ rows ∧ sub.connection = c ∧ n.values = sub.accepted changes := by
  obtain ⟨sub, hm, hc, hn⟩ := mem_notices_iff.mp h
  exact ⟨sub, hm, hc, congrArg Notification.values (notification?_eq_some_iff.mp hn).1⟩

def toldTo (id : SubscriptionId) (ns : List Notification) : List Values :=
  (ns.filter fun n => n.id == id).map (·.values)

theorem toldTo_append (id : SubscriptionId) (ns ms : List Notification) :
    toldTo id (ns ++ ms) = toldTo id ns ++ toldTo id ms := by
  rw [toldTo, List.filter_append, List.map_append]
  rfl

theorem toldTo_eq_nil {id : SubscriptionId} {ns : List Notification} (h : ∀ n ∈ ns, n.id ≠ id) :
    toldTo id ns = [] := by
  rw [toldTo, List.map_eq_nil_iff, List.filter_eq_nil_iff]
  intro n hn
  simpa using h n hn

/-- Of some changes a subscription is told all that it accepts, at once, and nothing if it accepts
nothing. -/
theorem toldTo_notices {rows : Table SubscriptionId Subscription} {id : SubscriptionId}
    {sub : Subscription} (h : rows.find? id = some sub) (timestamp : Int) (changes : Values) :
    toldTo id (notices timestamp changes sub.connection rows.toList) =
      [sub.accepted changes].filter fun values => !values.isEmpty := by
  obtain ⟨before, after, hrows⟩ := List.append_of_mem ((rows.mem_toList_iff id sub).mpr h)
  have hascending := rows.ascending
  rw [show rows.rows = _ from hrows] at hascending
  obtain ⟨-, hafter, hbefore⟩ := List.pairwise_append.mp hascending
  have hsplit : notices timestamp changes sub.connection rows.toList =
      notices timestamp changes sub.connection before ++
        (notification? timestamp changes id sub).toList ++
        notices timestamp changes sub.connection after := by
    rw [hrows, notices, List.filterMap_append, ← notices, ← notices, notices_cons, if_pos rfl,
      List.append_assoc]
  have hfront : toldTo id (notices timestamp changes sub.connection before) = [] := by
    apply toldTo_eq_nil
    intro n hn
    obtain ⟨s, hm, -⟩ := mem_notices hn
    exact Nat.ne_of_lt (hbefore _ hm _ List.mem_cons_self)
  have hback : toldTo id (notices timestamp changes sub.connection after) = [] := by
    apply toldTo_eq_nil
    intro n hn
    obtain ⟨s, hm, -⟩ := mem_notices hn
    exact Nat.ne_of_gt ((List.pairwise_cons.mp hafter).1 _ hm)
  rw [hsplit, toldTo_append, toldTo_append, hfront, hback, List.nil_append, List.append_nil]
  unfold notification?
  cases hempty : (sub.accepted changes).isEmpty <;> simp [toldTo, hempty]

theorem find?_tell (timestamp : Int) (changes : Values) (state : Nat × Table ConnectionId Outbox)
    (row : SubscriptionId × Subscription) (c : ConnectionId) :
    (tell timestamp changes state row).2.find? c = (state.2.find? c).map fun o =>
      { o with queue := o.queue ++ (notices timestamp changes c [row]).take o.room } := by
  rw [notices_cons]
  simp only [notices, List.filterMap_nil, List.append_nil]
  unfold tell
  cases hn : notification? timestamp changes row.1 row.2 with
  | none => simp
  | some n =>
    simp only
    by_cases hc : row.2.connection = c
    · subst hc
      rw [if_pos rfl, Option.toList_some]
      cases ho : state.2.find? row.2.connection with
      | none => simp [ho]
      | some o =>
        simp only [Option.bind_some, Outbox.offer]
        by_cases ht : o.takes = true
        · obtain ⟨k, hk⟩ := Nat.exists_eq_succ_of_ne_zero (Nat.pos_iff_ne_zero.mp (o.takes_iff.mp ht))
          simp [ht, hk]
        · have hr : o.room = 0 := Nat.eq_zero_of_not_pos fun h => ht (o.takes_iff.mpr h)
          simp [ht, hr, ho]
    · rw [if_neg hc]
      have hk : ∀ o, (state.2.insert row.2.connection o).find? c = state.2.find? c := by
        intro o
        rw [Table.find?_insert, if_neg (Ne.symm hc)]
      split <;> simp [hk]

theorem find?_foldl_tell (timestamp : Int) (changes : Values)
    (rows : List (SubscriptionId × Subscription)) (state : Nat × Table ConnectionId Outbox)
    (c : ConnectionId) :
    (rows.foldl (tell timestamp changes) state).2.find? c = (state.2.find? c).map fun o =>
      { o with queue := o.queue ++ (notices timestamp changes c rows).take o.room } := by
  induction rows generalizing state with
  | nil => simp [notices]
  | cons row rows ih =>
    rw [List.foldl_cons, ih, find?_tell, Option.map_map]
    congr 1
    funext o
    have hcons : notices timestamp changes c (row :: rows) =
        notices timestamp changes c [row] ++ notices timestamp changes c rows := by
      rw [notices_cons, notices_cons _ _ _ _ []]
      simp [notices]
    simp only [Function.comp_apply, Outbox.room_append, hcons, List.take_append, List.append_assoc,
      List.length_take]
    congr 4
    omega

theorem find?_dispatch (s : Subscriptions) (timestamp : Int) (changes : Values) (c : ConnectionId) :
    (s.dispatch timestamp changes).2.outboxes.find? c = (s.outboxes.find? c).map fun o =>
      { o with queue := o.queue ++ (notices timestamp changes c s.rows.toList).take o.room } :=
  find?_foldl_tell timestamp changes s.rows.toList (0, s.outboxes) c

theorem queue_dispatch (s : Subscriptions) (timestamp : Int) (changes : Values) (c : ConnectionId) :
    (s.dispatch timestamp changes).2.queue c = s.queue c ++
      (notices timestamp changes c s.rows.toList).take
        (((s.outboxes.find? c).map Outbox.room).getD 0) := by
  rw [queue, queue, find?_dispatch]
  cases s.outboxes.find? c <;> simp

end Subscriptions

end SignalBroker
