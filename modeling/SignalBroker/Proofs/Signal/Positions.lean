import SignalBroker.Proofs.Signal.Conversion

namespace SignalBroker

namespace Json

/-- A value stands in another one, at any depth: it is that value, or it stands in one of its items or
members. -/
inductive Occurs (inner : Json) : Json → Prop
  | here : Occurs inner inner
  | item {items : List Json} {j : Json} (hj : j ∈ items) (h : Occurs inner j) :
      Occurs inner (.array items)
  | member {members : List (String × Json)} {name : String} {j : Json} (hj : (name, j) ∈ members)
      (h : Occurs inner j) : Occurs inner (.object members)

theorem objectFreeItems_iff {items : List Json} :
    ObjectFreeItems items ↔ ∀ j ∈ items, j.ObjectFree := by
  induction items with
  | nil => simp [ObjectFreeItems]
  | cons j items ih => simp [ObjectFreeItems, ih]

theorem not_occurs_of_objectFree {j : Json} {members : List (String × Json)} (h : j.ObjectFree) :
    ¬Occurs (.object members) j := by
  intro hoccurs
  induction hoccurs with
  | here => exact h
  | item hj _ ih => exact ih (objectFreeItems_iff.mp h _ hj)
  | member => exact h

mutual

theorem objectFree_of_not_occurs : ∀ (j : Json), (∀ members, ¬Occurs (.object members) j) →
    j.ObjectFree
  | .null, _ => trivial
  | .bool _, _ => trivial
  | .number _, _ => trivial
  | .text _, _ => trivial
  | .array items, h =>
    objectFreeItems_of_not_occurs items fun _ hj members hoccurs => h members (.item hj hoccurs)
  | .object members, h => h members .here

theorem objectFreeItems_of_not_occurs : ∀ (items : List Json),
    (∀ j ∈ items, ∀ members, ¬Occurs (.object members) j) → ObjectFreeItems items
  | [], _ => trivial
  | j :: items, h => by
    obtain ⟨hj, hitems⟩ := List.forall_mem_cons.mp h
    exact ⟨objectFree_of_not_occurs j hj, objectFreeItems_of_not_occurs items hitems⟩

end

theorem objectFree_iff {j : Json} : j.ObjectFree ↔ ∀ members, ¬Occurs (.object members) j :=
  ⟨fun h _ => not_occurs_of_objectFree h, objectFree_of_not_occurs j⟩

def at? (j : Json) : List Nat → Option Json
  | [] => some j
  | i :: p =>
    match j with
    | .array items => items[i]?.bind (·.at? p)
    | _ => none

end Json

namespace SignalValue

def at? (v : SignalValue) : List Nat → Option SignalValue
  | [] => some v
  | i :: p =>
    match v with
    | .list items => items[i]?.bind (·.at? p)
    | _ => none

theorem toJsonItems_eq_map (items : List SignalValue) : toJsonItems items = items.map toJson := by
  induction items with
  | nil => rfl
  | cons v items ih => rw [toJsonItems, ih, List.map_cons]

theorem at?_toJson (v : SignalValue) (p : List Nat) : v.toJson.at? p = (v.at? p).map toJson := by
  induction p generalizing v with
  | nil => rfl
  | cons i p ih =>
    cases v with
    | list items =>
      rw [toJson, Json.at?, at?, toJsonItems_eq_map, List.getElem?_map]
      cases items[i]? with
      | none => rfl
      | some v => exact ih v
    | _ => rfl

theorem toJson_eq_number_iff {v : SignalValue} {n : Number} :
    v.toJson = .number n ↔ v = .number n := by
  cases v <;> simp [toJson]

theorem toJson_eq_array_iff {v : SignalValue} {items : List Json} :
    v.toJson = .array items ↔ ∃ vs, v = .list vs ∧ vs.map toJson = items := by
  cases v <;> simp [toJson, toJsonItems_eq_map]

theorem exists_ofJson?_iff {j : Json} : (∃ v, ofJson? j = some v) ↔ j.ObjectFree := by
  constructor
  · rintro ⟨v, hv⟩
    exact toJson_of_ofJson? hv ▸ objectFree_toJson v
  · intro h
    obtain ⟨v, hv, -⟩ := exists_ofJson? h
    exact ⟨v, hv⟩

/-- A JSON value is that of a signal exactly if no object occurs in it, and either conversion undoes the
other. Neither changes a number, of whichever kind it is, nor how many items a list has or which of
them comes where. -/
theorem ofJson?_exact :
    (∀ j : Json, ((∃ v, ofJson? j = some v) ↔ ∀ members, ¬Json.Occurs (.object members) j) ∧
      ∀ v, ofJson? j = some v → v.toJson = j) ∧
    (∀ v : SignalValue, ofJson? v.toJson = some v) ∧
    ∀ (j : Json) (v : SignalValue), ofJson? j = some v ∨ v.toJson = j → ∀ p,
      j.at? p = (v.at? p).map toJson ∧
      (∀ n, j.at? p = some (.number n) ↔ v.at? p = some (.number n)) ∧
      ∀ k, (∃ items, j.at? p = some (.array items) ∧ items.length = k) ↔
        ∃ items, v.at? p = some (.list items) ∧ items.length = k := by
  refine ⟨fun j => ⟨exists_ofJson?_iff.trans Json.objectFree_iff, fun v => toJson_of_ofJson?⟩,
    ofJson?_toJson, fun j v h p => ?_⟩
  obtain rfl : v.toJson = j := h.elim toJson_of_ofJson? id
  rw [at?_toJson]
  refine ⟨rfl, fun n => ?_, fun k => ?_⟩
  · rw [Option.map_eq_some_iff]
    simp only [toJson_eq_number_iff, exists_eq_right]
  · simp only [Option.map_eq_some_iff, toJson_eq_array_iff]
    constructor
    · rintro ⟨_, ⟨_, hv, vs, rfl, rfl⟩, hk⟩
      exact ⟨vs, hv, by rwa [List.length_map] at hk⟩
    · rintro ⟨vs, hv, hk⟩
      exact ⟨_, ⟨_, hv, vs, rfl, rfl⟩, by rwa [List.length_map]⟩

def nested : SignalValue :=
  .list [.number 1, .list [.number (.negative (-1)), .number (.double ⟨1.5, by decide⟩), .list []], .null]

/-- The double stays a double where it stands, and an object deep down is refused. -/
theorem ofJson?_exact_nested : ofJson? nested.toJson = some nested ∧
    nested.toJson.at? [1, 1] = some (.number (.double ⟨1.5, by decide⟩)) ∧
    ¬∃ v, ofJson? (.array [.number 1, .array [.array [.object []]]]) = some v := by
  obtain ⟨hfree, hback, hsame⟩ := ofJson?_exact
  have hnested := hback nested
  refine ⟨hnested, ((hsame _ _ (.inl hnested) [1, 1]).2.1 _).mpr rfl, fun h => ?_⟩
  refine (hfree _).1.mp h [] (.item (j := .array [.array [.object []]]) (by simp) ?_)
  exact .item (List.mem_singleton_self _) (.item (List.mem_singleton_self _) .here)

end SignalValue

end SignalBroker
