import SignalBroker.Adapter.Store
import SignalBroker.Proofs.Signal.Equality
import SignalBroker.Proofs.Table

namespace SignalBroker

namespace Signal

def hear (signal : Signal) : Option SignalValue → Signal
  | some v => if signal.spec.value == v then signal else { signal with spec.value := v }
  | none => signal

variable (signal : Signal) (v : Option SignalValue)

theorem hear_eq : signal.hear v = { signal with spec.value := (signal.hear v).spec.value } := by
  unfold hear
  split
  · split <;> rfl
  · rfl

theorem value_hear (v : SignalValue) : ((signal.hear (some v)).spec.value == v) = true := by
  simp only [hear]
  split
  · next h => exact h
  · exact BEq.rfl

end Signal

namespace ChangeStream

variable {s t : ChangeStream} {b : Batch}

theorem eq_of_offer (h : s.offer b = some t) :
    ∃ queue, t = { s with queue } ∧ (queue = s.queue ∨ queue = s.queue ++ [b]) := by
  unfold offer at h
  split at h
  · cases h
    exact ⟨s.queue, rfl, .inl rfl⟩
  · split at h
    · cases h
      exact ⟨_, rfl, .inr rfl⟩
    · cases h

theorem offer_eq_some_iff (hopen : s.closed = false) : s.offer b = some t ↔
    s.queue.length < s.capacity ∧ t = { s with queue := s.queue ++ [b] } := by
  rw [offer, if_neg (by simp [hopen])]
  by_cases h : s.queue.length < s.capacity <;> simp [h, eq_comm]

theorem offer_eq_none_iff (hopen : s.closed = false) :
    s.offer b = none ↔ s.capacity ≤ s.queue.length := by
  rw [offer, if_neg (by simp [hopen])]
  by_cases h : s.queue.length < s.capacity <;> simp [h]
  omega

end ChangeStream

namespace Store

variable (s : Store) (values : Values)

theorem find?_snapshot (path : String) : s.snapshot.find? path = s.value? path :=
  Table.find?_map _ _ _

def pushed : Values := (s.changes values).filter fun path _ => s.isSubscribed path

def taken : Store :=
  { s with signals := s.setValues (s.changes values), seq := s.seq + 1 }

/-- How a write ends: nothing changes, or nothing of what changes is subscribed, or the stream takes
the batch, or it has no room. -/
inductive Written : Store → Delivery → Prop where
  | unchanged (h : (s.changes values).isEmpty = true) : Written s (.landed s.seq)
  | unheard (h : (s.changes values).isEmpty = false) (hp : (s.pushed values).isEmpty = true) :
    Written (s.taken values) (.landed (s.seq + 1))
  | sent {stream} (h : (s.changes values).isEmpty = false) (hp : (s.pushed values).isEmpty = false)
    (ho : s.stream.offer ⟨s.seq + 1, s.pushed values⟩ = some stream) :
    Written { s.taken values with stream } (.landed (s.seq + 1))
  | stuck (h : (s.changes values).isEmpty = false) (hp : (s.pushed values).isEmpty = false)
    (ho : s.stream.offer ⟨s.seq + 1, s.pushed values⟩ = none) :
    Written (s.taken values) .waiting

theorem commit_eq : s.commit values =
    if (s.changes values).isEmpty then (s, none)
    else (s.taken values,
      if (s.pushed values).isEmpty then none else some ⟨s.seq + 1, s.pushed values⟩) := rfl

theorem stream_commit : (s.commit values).1.stream = s.stream := by
  rw [commit_eq]
  split <;> rfl

theorem commit_withStream (stream : ChangeStream) : ({ s with stream } : Store).commit values =
    ({ (s.commit values).1 with stream }, (s.commit values).2) := by
  rw [commit_eq, commit_eq]
  have hchanges : ({ s with stream } : Store).changes values = s.changes values := rfl
  rw [hchanges]
  split <;> rfl

theorem deliver_waits {s s' : Store} {b : Option Batch} (h : s.deliver b = (s', .waiting)) :
    s' = s := by
  unfold deliver at h
  split at h
  · cases h
  · split at h
    · cases h
    · cases h
      rfl

theorem written_deliver_commit :
    s.Written values ((s.commit values).1.deliver (s.commit values).2).1
      ((s.commit values).1.deliver (s.commit values).2).2 := by
  rw [commit_eq]
  by_cases h : (s.changes values).isEmpty = true
  · rw [if_pos h]
    exact .unchanged h
  · rw [if_neg h]
    have h := Bool.eq_false_iff.mpr h
    by_cases hp : (s.pushed values).isEmpty = true
    · rw [if_pos hp]
      exact .unheard h hp
    · rw [if_neg hp]
      have hp := Bool.eq_false_iff.mpr hp
      have hstream : (s.taken values).stream = s.stream := rfl
      simp only [deliver, hstream]
      cases ho : s.stream.offer ⟨s.seq + 1, s.pushed values⟩ with
      | none => exact .stuck h hp ho
      | some stream => exact .sent h hp ho

theorem refusal?_eq_none_iff {byClient : Bool} {path : String} :
    s.refusal? byClient path = none ↔ ∃ signal, s.signals.find? path = some signal ∧
      (byClient = true → signal.spec.isReadOnly = false) := by
  unfold refusal?
  cases s.signals.find? path with
  | none => simp
  | some signal => cases byClient <;> simp

variable {s values} {byClient : Bool} {s' : Store} {d : Delivery}

theorem write_eq_ok_iff {r : Store × Delivery} : s.write byClient values = .ok r ↔
    (∀ path v, values.find? path = some v → s.refusal? byClient path = none) ∧
      r = (s.commit values).1.deliver (s.commit values).2 := by
  have hkeys : (values.keys.findSome? (s.refusal? byClient) = none) ↔
      ∀ path v, values.find? path = some v → s.refusal? byClient path = none := by
    rw [List.findSome?_eq_none_iff]
    constructor
    · intro h path v hv
      exact h path (Table.mem_keys_of_find? hv)
    · intro h path hp
      obtain ⟨v, hv⟩ := Table.exists_of_mem_keys hp
      exact h path v hv
  rw [← hkeys]
  unfold write
  cases values.keys.findSome? (s.refusal? byClient) with
  | some e => simp
  | none => simp [eq_comm]

theorem written_of_write (h : s.write byClient values = .ok (s', d)) : s.Written values s' d := by
  have hw := written_deliver_commit s values
  rw [← (write_eq_ok_iff.mp h).2] at hw
  exact hw

/-- A write that is not refused lands if the stream has room. -/
theorem write_lands (hroom : s.stream.hasRoom = true)
    (h : ∀ path v, values.find? path = some v → s.refusal? byClient path = none) :
    ∃ s' n, s.write byClient values = .ok (s', .landed n) := by
  obtain ⟨⟨s', d⟩, hwrite⟩ : ∃ r, s.write byClient values = .ok r :=
    ⟨_, write_eq_ok_iff.mpr ⟨h, rfl⟩⟩
  have hw := written_of_write hwrite
  cases hw with
  | unchanged => exact ⟨_, _, hwrite⟩
  | unheard => exact ⟨_, _, hwrite⟩
  | sent => exact ⟨_, _, hwrite⟩
  | stuck _ _ ho =>
    have hsome := s.stream.offer_isSome_iff ⟨s.seq + 1, s.pushed values⟩
    rw [ho, hroom] at hsome
    cases hsome

theorem known_of_write (h : s.write byClient values = .ok (s', d)) {path : String} {v : SignalValue}
    (hv : values.find? path = some v) : ∃ signal, s.signals.find? path = some signal := by
  obtain ⟨signal, hs, -⟩ := s.refusal?_eq_none_iff.mp ((write_eq_ok_iff.mp h).1 path v hv)
  exact ⟨signal, hs⟩

theorem find?_setValues_changes (path : String) : (s.setValues (s.changes values)).find? path =
    (s.signals.find? path).map fun signal => signal.hear (values.find? path) := by
  rw [setValues, Table.find?_map, find?_changes]
  cases s.signals.find? path with
  | none => rfl
  | some signal =>
    cases values.find? path with
    | none => rfl
    | some v =>
      cases hv : signal.spec.value == v <;> simp [Signal.hear, hv, Option.filter]

theorem hear_of_isEmpty (h : (s.changes values).isEmpty = true) {path : String} {signal : Signal}
    (hs : s.signals.find? path = some signal) : signal.hear (values.find? path) = signal := by
  have hn := (Table.isEmpty_iff _).mp h path
  rw [find?_changes, hs] at hn
  cases hv : values.find? path with
  | none => rfl
  | some v =>
    have hd := Option.filter_eq_none_iff.mp hn v hv
    have he : (signal.spec.value == v) = true := by simpa using hd
    exact if_pos he

namespace Written

theorem find? (h : s.Written values s' d) (path : String) : s'.signals.find? path =
    (s.signals.find? path).map fun signal => signal.hear (values.find? path) := by
  cases h with
  | unchanged h =>
    cases hs : s.signals.find? path with
    | none => rfl
    | some signal => rw [Option.map_some, hear_of_isEmpty h hs]
  | unheard => exact find?_setValues_changes path
  | sent => exact find?_setValues_changes path
  | stuck => exact find?_setValues_changes path

theorem name (h : s.Written values s' d) : s'.name = s.name := by
  cases h <;> rfl

theorem seq (h : s.Written values s' d) : s' = s ∨ s'.seq = s.seq + 1 := by
  cases h with
  | unchanged => exact .inl rfl
  | unheard => exact .inr rfl
  | sent => exact .inr rfl
  | stuck => exact .inr rfl

theorem commit (h : s.Written values s' .waiting) :
    (s.commit values).2 = some ⟨s.seq + 1, s.pushed values⟩ := by
  cases h with
  | stuck hc hp =>
    rw [commit_eq, hc, hp]
    rfl

theorem landed {n : Nat} (h : s.Written values s' (.landed n)) : n = s'.seq := by
  cases h <;> rfl

end Written

theorem Written.value (h : s.Written values s' d) {path : String} {signal : Signal} {v : SignalValue}
    (hs : s.signals.find? path = some signal) (hv : values.find? path = some v) :
    ∃ u, s'.value? path = some u ∧ (u == v) = true := by
  refine ⟨(signal.hear (some v)).spec.value, ?_, signal.value_hear v⟩
  rw [value?, h.find?, hs, hv]
  rfl

theorem pushed_isEmpty_of_changes (h : (s.changes values).isEmpty = true) :
    (s.pushed values).isEmpty = true := by
  refine (Table.isEmpty_iff _).mpr fun path => ?_
  rw [pushed, Table.find?_filter, (Table.isEmpty_iff _).mp h]
  rfl

theorem find?_pushed {path : String} {v : SignalValue} :
    (s.pushed values).find? path = some v ↔ values.find? path = some v ∧
      ∃ signal, s.signals.find? path = some signal ∧ signal.subscribed = true ∧
        (signal.spec.value == v) = false := by
  rw [pushed, Table.find?_filter, Option.filter_eq_some_iff, find?_changes, Option.filter_eq_some_iff,
    isSubscribed]
  cases s.signals.find? path with
  | none => simp
  | some signal => simp [and_comm, and_assoc]

end Store

end SignalBroker
