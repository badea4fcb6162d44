import Mathlib.Logic.Relation
import SignalBroker.Proofs.Broker.TakingOver

namespace SignalBroker

theorem SignalValue.exists_differs (v : SignalValue) : ∃ u, (v == u) = false := by
  cases v with
  | null => exact ⟨.bool true, rfl⟩
  | _ => exact ⟨.null, rfl⟩

namespace Store

variable {s s₁ s₂ : Store} {values : Values} {d : Delivery} {waiting : Option Batch}

theorem isSubscribed_iff (s : Store) {path : String} : s.isSubscribed path = true ↔
    ∃ signal, s.signals.find? path = some signal ∧ signal.subscribed = true := by
  unfold isSubscribed
  cases s.signals.find? path <;> simp

theorem Written.isSubscribed (hw : s.Written values s₁ d) (path : String) :
    s₁.isSubscribed path = s.isSubscribed path := by
  rw [Store.isSubscribed, Store.isSubscribed, hw.find?]
  cases s.signals.find? path with
  | none => rfl
  | some signal =>
    rw [Option.map_some, Signal.hear_eq]
    rfl

theorem Written.capacity (hw : s.Written values s₁ d) :
    s₁.stream.capacity = s.stream.capacity := by
  cases hw with
  | unchanged => rfl
  | unheard => rfl
  | stuck => rfl
  | sent _ _ ho =>
    obtain ⟨queue, rfl, -⟩ := ChangeStream.eq_of_offer ho
    rfl

/-- What has become of a store whose stream nobody reads, with the batch of a writer that waits. -/
structure Unread (s s₁ : Store) (waiting : Option Batch) : Prop where
  capacity : s₁.stream.capacity = s.stream.capacity
  isOpen : s₁.stream.closed = false
  paths : s₁.paths = s.paths
  count : s₁.stream.queue.length + waiting.toList.length + s.seq ≤ s.stream.queue.length + s₁.seq
  full : ∀ b, waiting = some b → s₁.stream.offer b = none
  heard : waiting.isSome = true → ∃ path, s₁.isSubscribed path = true

theorem unread_refl (hopen : s.stream.closed = false) : s.Unread s none :=
  ⟨rfl, hopen, rfl, Nat.le_refl _, nofun, nofun⟩

/-- A writer that waits has made more changes than the stream has room for. -/
theorem Unread.lt_seq (h : s.Unread s₁ waiting) (hw : waiting.isSome = true) :
    s.stream.capacity + s.seq < s₁.seq + s.stream.queue.length := by
  obtain ⟨b, rfl⟩ := Option.isSome_iff_exists.mp hw
  have hfull := (ChangeStream.offer_eq_none_iff h.isOpen).mp (h.full b rfl)
  have hcount := h.count
  have hcapacity := h.capacity
  simp only [Option.toList_some, List.length_singleton] at hcount
  omega

theorem Unread.wrote {n : Nat} (h : s.Unread s₁ none) (hw : s₁.Written values s₂ (.landed n)) :
    s.Unread s₂ none where
  capacity := hw.capacity.trans h.capacity
  isOpen := hw.closed.trans h.isOpen
  paths := hw.paths.trans h.paths
  count := by
    have hcount := h.count
    cases hw with
    | unchanged => exact hcount
    | unheard => exact Nat.le_succ_of_le hcount
    | sent _ _ ho =>
      obtain ⟨-, rfl⟩ := (ChangeStream.offer_eq_some_iff h.isOpen).mp ho
      simp only [taken, List.length_append, List.length_singleton]
      omega
  full := nofun
  heard := nofun

theorem Unread.stuck (h : s.Unread s₁ none) (hw : s₁.Written values s₂ .waiting) :
    s.Unread s₂ (s₁.commit values).2 := by
  have hsub := hw.isSubscribed
  have hpaths := hw.paths
  rw [hw.commit]
  cases hw with
  | stuck hc hp ho =>
    refine ⟨h.capacity, h.isOpen, hpaths.trans h.paths, ?_, ?_, ?_⟩
    · have hcount := h.count
      simp only [taken, Option.toList_some, List.length_singleton]
      simp only [Option.toList_none, List.length_nil] at hcount
      omega
    · rintro _ ⟨⟩
      exact ho
    · intro _
      obtain ⟨path, v, hv⟩ : ∃ path v, (s₁.pushed values).find? path = some v := by
        by_contra hnone
        simp only [not_exists] at hnone
        have hempty := (Table.isEmpty_iff (s₁.pushed values)).mpr fun path =>
          Option.eq_none_iff_forall_ne_some.mpr (hnone path)
        rw [hp] at hempty
        cases hempty
      obtain ⟨-, signal, hs, hsubscribed, -⟩ := find?_pushed.mp hv
      exact ⟨path, (hsub path).trans (s₁.isSubscribed_iff.mpr ⟨signal, hs, hsubscribed⟩)⟩

theorem Unread.marked {subscribed : Bool} {paths : List String} (h : s.Unread s₁ none)
    (hs : s₁.setSubscribed subscribed paths = .ok s₂) : s.Unread s₂ none := by
  obtain ⟨hseq, hstream, -⟩ := setSubscribed_eq_ok hs
  refine ⟨?_, ?_, (paths_of_setSubscribed hs).trans h.paths, ?_, nofun, nofun⟩
  · rw [hstream, h.capacity]
  · rw [hstream, h.isOpen]
  · rw [hstream, hseq]
    exact h.count

theorem Unread.withTaken (taken : Bool) (h : s.Unread s₁ waiting) :
    s.Unread (s₁.withTaken taken) waiting := by
  refine ⟨h.capacity, h.isOpen, h.paths, h.count, ?_, h.heard⟩
  intro b hb
  show ({ s₁.stream with taken } : ChangeStream).offer b = none
  rw [offer_withTaken, h.full b hb]
  rfl

def Lands (s s₁ : Store) : Prop :=
  ∃ byClient values n, s.write byClient values = .ok (s₁, .landed n)

theorem exists_write_pushed {path : String} (h : s.isSubscribed path = true) :
    ∃ values s₁ d, s.write false values = .ok (s₁, d) ∧ (s.pushed values).isEmpty = false := by
  obtain ⟨signal, hs, hsub⟩ := s.isSubscribed_iff.mp h
  obtain ⟨v, hv⟩ := signal.spec.value.exists_differs
  let values : Values := Table.empty.insert path v
  have hpushed : (s.pushed values).find? path = some v :=
    find?_pushed.mpr ⟨by simp [values], signal, hs, hsub, hv⟩
  refine ⟨values, _, _, write_eq_ok_iff.mpr ⟨?_, rfl⟩, ?_⟩
  · intro other u hother
    have hsame : other = path := by
      by_contra hne
      simp [values, hne] at hother
    rw [hsame]
    exact s.refusal?_eq_none_iff.mpr ⟨signal, hs, by simp⟩
  · exact (Table.isEmpty_eq_false_iff _).mpr ⟨path, v, hpushed⟩

/-- Writers fill a stream that nobody reads, until one of them has to wait. -/
theorem exists_waits {s : Store} {path : String} (hopen : s.stream.closed = false)
    (h : s.isSubscribed path = true) : ∃ full values late,
      Relation.ReflTransGen Lands s full ∧ full.write false values = .ok (late, .waiting) := by
  obtain ⟨values, s₁, d, hwrite, hpushed⟩ := exists_write_pushed h
  have hw := written_of_write hwrite
  have hsub := (hw.isSubscribed path).trans h
  have hstill := hw.closed.trans hopen
  cases hw with
  | unchanged hc => simp [pushed_isEmpty_of_changes hc] at hpushed
  | unheard _ hp => simp [hp] at hpushed
  | stuck => exact ⟨s, values, _, .refl, hwrite⟩
  | sent _ _ ho =>
    obtain ⟨hroom, rfl⟩ := (ChangeStream.offer_eq_some_iff hopen).mp ho
    obtain ⟨full, values', late, hrun, hlate⟩ := exists_waits hstill hsub
    exact ⟨full, values', late, .head ⟨false, values, _, hwrite⟩ hrun, hlate⟩
termination_by s.stream.capacity - s.stream.queue.length
decreasing_by
  simp only [List.length_append, List.length_singleton]
  omega

end Store

end SignalBroker
