import SignalBroker.Proofs.Store.History

namespace SignalBroker

def SignalSpec.hear (spec : SignalSpec) : Option SignalValue → SignalSpec
  | some v => if spec.value == v then spec else { spec with value := v }
  | none => spec

namespace SignalSpec

variable (spec : SignalSpec) (v : Option SignalValue)

@[simp] theorem hear_none : spec.hear none = spec := rfl

theorem hear_of_beq {v : SignalValue} (h : (spec.value == v) = true) : spec.hear (some v) = spec :=
  if_pos h

theorem value_hear (v : SignalValue) : ((spec.hear (some v)).value == v) = true := by
  simp only [hear]
  split
  · next h => exact h
  · exact BEq.rfl

@[simp] theorem isPublic_hear : (spec.hear v).isPublic = spec.isPublic := by
  unfold hear
  split
  · split <;> rfl
  · rfl

@[simp] theorem isReadOnly_hear : (spec.hear v).isReadOnly = spec.isReadOnly := by
  unfold hear
  split
  · split <;> rfl
  · rfl

end SignalSpec

theorem Signal.spec_hear (signal : Signal) (v : Option SignalValue) :
    (signal.hear v).spec = signal.spec.hear v := by
  cases v with
  | none => rfl
  | some v =>
    simp only [Signal.hear, SignalSpec.hear]
    split <;> rfl

namespace Store

theorem find?_specs (s : Store) (path : String) :
    s.specs.find? path = (s.signals.find? path).map (·.spec) :=
  Table.find?_map _ _ _

theorem value?_eq (s : Store) (path : String) :
    s.value? path = (s.specs.find? path).map (·.value) := by
  rw [value?, find?_specs, Option.map_map]
  rfl

theorem mem_paths_iff (s : Store) (path : String) :
    path ∈ s.paths ↔ ∃ spec, s.specs.find? path = some spec := by
  rw [paths, Table.mem_keys_iff, Option.isSome_iff_exists, find?_specs]
  simp

section Spec

variable {s : Store} {path : String} {spec : SignalSpec}

theorem spec?_of_specs (h : s.specs.find? path = some spec) : s.spec? path = .ok spec := by
  rw [find?_specs, Option.map_eq_some_iff] at h
  obtain ⟨signal, hsignal, rfl⟩ := h
  rw [spec?, hsignal]

theorem isPublic_of_specs (h : s.specs.find? path = some spec) :
    s.isPublic path = .ok spec.isPublic := by
  rw [isPublic, spec?_of_specs h]
  rfl

theorem isReadOnly_of_specs (h : s.specs.find? path = some spec) :
    s.isReadOnly path = .ok spec.isReadOnly := by
  rw [isReadOnly, spec?_of_specs h]
  rfl

theorem refusal?_eq_none_iff_specs {byClient : Bool} : s.refusal? byClient path = none ↔
    ∃ spec, s.specs.find? path = some spec ∧ (byClient = true → spec.isReadOnly = false) := by
  rw [refusal?_eq_none_iff, find?_specs]
  simp

end Spec

theorem specs_ofName (name : String) : (ofName name).specs = .empty := rfl

theorem specs_declare (s : Store) (path : String) (spec : SignalSpec) :
    (s.declare path spec).specs = s.specs.insert path spec := by
  ext other : 1
  rw [find?_specs, declare, Table.find?_insert, Table.find?_insert, find?_specs]
  split <;> rfl

theorem specs_foldl_declare {α : Type} (path : α → String) (spec : α → SignalSpec) (xs : List α)
    (s : Store) : (xs.foldl (fun s x => s.declare (path x) (spec x)) s).specs =
      xs.foldl (fun t x => t.insert (path x) (spec x)) s.specs := by
  induction xs generalizing s with
  | nil => rfl
  | cons x xs ih => rw [List.foldl_cons, ih, specs_declare, List.foldl_cons]

variable {s s' : Store} {values : Values} {d : Delivery}

theorem Written.find?_specs (h : s.Written values s' d) (path : String) : s'.specs.find? path =
    (s.specs.find? path).map fun spec => spec.hear (values.find? path) := by
  rw [Store.find?_specs, h.find?, Store.find?_specs, Option.map_map, Option.map_map]
  congr 1
  funext signal
  exact signal.spec_hear _

/-- What is done with a store but writing to it. -/
inductive Aside (s : Store) : Store → Prop where
  | marked {subscribed paths s'} (h : s.setSubscribed subscribed paths = .ok s') : s.Aside s'
  | released : s.Aside s.unsubscribeAll
  | streamed (stream) : s.Aside { s with stream }

theorem Aside.specs (h : s.Aside s') : s'.specs = s.specs := by
  ext path : 1
  rw [Store.find?_specs, Store.find?_specs]
  cases h with
  | marked h =>
    rw [(setSubscribed_eq_ok h).2.2, Option.map_map]
    congr 1
    funext signal
    simp only [Function.comp_apply]
    split <;> rfl
  | released =>
    rw [unsubscribeAll, Table.find?_map, Option.map_map]
    rfl
  | streamed => rfl

end Store

end SignalBroker
