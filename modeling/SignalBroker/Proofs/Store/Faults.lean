import SignalBroker.Proofs.Except
import SignalBroker.Proofs.Store.InPlace

namespace SignalBroker.Store

inductive Fault (s : Store) (byClient : Bool) : String → AdapterError → Prop where
  | unknown {path} (h : s.signals.find? path = none) : Fault s byClient path (.pathNotFound path)
  | readOnly {path signal} (hclient : byClient = true) (h : s.signals.find? path = some signal)
    (hlocked : signal.spec.isReadOnly = true) : Fault s byClient path (.readOnly path)

/-- A call fails exactly if one of its paths is at fault, and with the fault of the least of these. -/
structure Refuses {α : Type} (s : Store) (byClient : Bool) (paths : List String)
    (r : Except AdapterError α) : Prop where
  fails_iff : (∃ e, r = .error e) ↔ ∃ path ∈ paths, ∃ e, s.Fault byClient path e
  least : ∀ e, r = .error e → ∃ path ∈ paths, s.Fault byClient path e ∧
    ∀ other ∈ paths, ∀ e', s.Fault byClient other e' → path ≤ other

variable {α : Type} {s : Store} {byClient : Bool} {paths : List String} {values : Values}
  {e : AdapterError}

theorem refusal?_eq_some_iff {path : String} :
    s.refusal? byClient path = some e ↔ s.Fault byClient path e := by
  constructor
  · intro h
    unfold refusal? at h
    split at h
    · next hs =>
      cases h
      exact .unknown hs
    · next signal hs =>
      split at h
      · next hlocked =>
        cases h
        obtain ⟨hclient, hlocked⟩ := Bool.and_eq_true_iff.mp hlocked
        exact .readOnly hclient hs hlocked
      · cases h
  · rintro (hs | ⟨hclient, hs, hlocked⟩)
    · rw [refusal?, hs]
    · simp [refusal?, hs, hclient, hlocked]

theorem refuses_of_first {r : Except AdapterError α} (hpaths : paths.Pairwise (· < ·))
    (h : ∀ e, r = .error e ↔ paths.findSome? (s.refusal? byClient) = some e) :
    s.Refuses byClient paths r where
  fails_iff := by
    simp only [h, ← refusal?_eq_some_iff, ← Option.isSome_iff_exists]
    exact List.findSome?_isSome_iff
  least e he := by
    obtain ⟨before, path, after, rfl, hfault, hbefore⟩ :=
      List.findSome?_eq_some_iff.mp ((h e).mp he)
    refine ⟨path, by simp, refusal?_eq_some_iff.mp hfault, ?_⟩
    intro other hother e' hfault'
    have hafter := (List.pairwise_cons.mp (List.pairwise_append.mp hpaths).2.1).1
    obtain hm | hm := List.mem_append.mp hother
    · have hsome := refusal?_eq_some_iff.mpr hfault'
      rw [hbefore other hm] at hsome
      cases hsome
    · obtain rfl | hm := List.mem_cons.mp hm
      · exact Std.le_refl _
      · exact Std.le_of_lt (hafter other hm)

theorem write_eq_error_iff : s.write byClient values = .error e ↔
    values.keys.findSome? (s.refusal? byClient) = some e := by
  unfold write
  cases values.keys.findSome? (s.refusal? byClient) <;> simp

theorem setSubscribed_eq_error_iff {subscribed : Bool} :
    s.setSubscribed subscribed paths = .error e ↔
      paths.findSome? (s.refusal? false) = some e := by
  rw [findSome?_refusal?]
  unfold setSubscribed
  cases paths.find? fun path => !s.signals.contains path <;> simp

theorem get_eq_error_iff :
    s.get paths = .error e ↔ paths.findSome? (s.refusal? false) = some e := by
  have hrow : ∀ path e, (do return (path, (← s.spec? path).value) : Except _ (_ × _)) = .error e ↔
      s.refusal? false path = some e := by
    intro path e
    rw [spec?, refusal?]
    cases s.signals.find? path with
    | none =>
      constructor
      · intro h; cases h; rfl
      · intro h; cases h; rfl
    | some signal =>
      constructor
      · intro h; cases h
      · intro h; cases h
  rw [← mapM_eq_error_iff hrow, get]
  cases paths.mapM fun path => do return (path, (← s.spec? path).value) with
  | error e' =>
    constructor
    · intro h; cases h; rfl
    · intro h; cases h; rfl
  | ok rows =>
    constructor
    · intro h; cases h
    · intro h; cases h

theorem set_eq_update (h : ∀ path ∈ values.keys, ∀ signal, s.signals.find? path = some signal →
    signal.spec.isReadOnly = false) : s.set values = s.update values := by
  have hrefusal : ∀ path ∈ values.keys, s.refusal? true path = s.refusal? false path := by
    intro path hpath
    unfold refusal?
    cases hs : s.signals.find? path with
    | none => rfl
    | some signal => simp [h path hpath signal hs]
  have hfirst : values.keys.findSome? (s.refusal? true) =
      values.keys.findSome? (s.refusal? false) := by
    rw [← List.head?_filterMap, ← List.head?_filterMap, List.filterMap_congr hrefusal]
  rw [set, update, write, write, hfirst]

/-- Calls on a store fail exactly if one of their paths is unknown, or read-only where a client writes,
and then with the least of these; a call in place that fails leaves the store as it was. Where no signal
is read-only, a write of a client is a write of the adapter itself. -/
theorem refusals_leave_store (s : Store) :
    (∀ values, s.Refuses true values.keys (s.set values) ∧
      (InPlace.write true values).Performs s (s.set values)) ∧
    (∀ values, s.Refuses false values.keys (s.update values) ∧
      (InPlace.write false values).Performs s (s.update values)) ∧
    (∀ paths, paths.Pairwise (· < ·) →
      (s.Refuses false paths (s.get paths) ∧
        (InPlace.read paths).Performs s ((s.get paths).map fun values => (s, values))) ∧
      (s.Refuses false paths (s.subscribe paths) ∧
        (InPlace.setSubscribed true paths).Performs s ((s.subscribe paths).map fun s' => (s', ()))) ∧
      (s.Refuses false paths (s.unsubscribe paths) ∧
        (InPlace.setSubscribed false paths).Performs s
          ((s.unsubscribe paths).map fun s' => (s', ())))) ∧
    ∀ values : Values, (∀ path ∈ values.keys, ∀ signal, s.signals.find? path = some signal →
      signal.spec.isReadOnly = false) → s.set values = s.update values := by
  refine ⟨?_, ?_, ?_, fun values => set_eq_update⟩
  · intro values
    exact ⟨refuses_of_first values.keys_ascending fun e => write_eq_error_iff,
      InPlace.performs_write true values s⟩
  · intro values
    exact ⟨refuses_of_first values.keys_ascending fun e => write_eq_error_iff,
      InPlace.performs_write false values s⟩
  · intro paths hpaths
    refine ⟨⟨?_, InPlace.performs_read paths s⟩, ⟨?_, InPlace.performs_setSubscribed true paths s⟩,
      ⟨?_, InPlace.performs_setSubscribed false paths s⟩⟩
    · exact refuses_of_first hpaths fun e => get_eq_error_iff
    · exact refuses_of_first hpaths fun e => setSubscribed_eq_error_iff
    · exact refuses_of_first hpaths fun e => setSubscribed_eq_error_iff

def cabin : Store :=
  { name := "cabin"
    signals := .ofList [("Lid", ⟨⟨.bool false, true, false⟩, false⟩),
      ("Type", ⟨⟨.text "van", true, true⟩, true⟩)]
    seq := 3
    stream := .ofCapacity 1 }

theorem refusals_leave_store_cabin :
    ["Lid", "Mirror", "Roof"].Pairwise (· < ·) ∧
    cabin.Refuses false ["Lid", "Mirror", "Roof"] (cabin.subscribe ["Lid", "Mirror", "Roof"]) ∧
    (InPlace.setSubscribed true ["Lid", "Mirror", "Roof"]).perform cabin =
      (.error (.pathNotFound "Mirror"), cabin) ∧
    (InPlace.write true (.ofList [("Lid", .bool true), ("Type", .text "car")])).perform cabin =
      (.error (.readOnly "Type"), cabin) ∧
    (∀ path ∈ ["Lid"], ∀ signal, cabin.signals.find? path = some signal →
      signal.spec.isReadOnly = false) ∧
    cabin.set (.ofList [("Lid", .bool true)]) = cabin.update (.ofList [("Lid", .bool true)]) := by
  obtain ⟨hset, -, hpaths, hsame⟩ := refusals_leave_store cabin
  obtain ⟨-, ⟨hrefuses, hsubscribe⟩, -⟩ := hpaths ["Lid", "Mirror", "Roof"] (by decide)
  have hopen : ∀ path ∈ ["Lid"], ∀ signal, cabin.signals.find? path = some signal →
      signal.spec.isReadOnly = false := by
    rintro path hpath signal hs
    cases List.mem_singleton.mp hpath
    cases hs
    rfl
  exact ⟨by decide, hrefuses, hsubscribe.failed _ rfl, (hset _).2.failed _ rfl, hopen,
    hsame (.ofList [("Lid", .bool true)]) hopen⟩

end SignalBroker.Store
