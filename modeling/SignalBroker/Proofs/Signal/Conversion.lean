import SignalBroker.Broker.Write
import SignalBroker.Proofs.Json.Sorted

namespace SignalBroker

namespace Json

mutual

def ObjectFree : Json → Prop
  | .array items => ObjectFreeItems items
  | .object _ => False
  | _ => True

def ObjectFreeItems : List Json → Prop
  | [] => True
  | j :: js => ObjectFree j ∧ ObjectFreeItems js

end

end Json

namespace SignalValue

open Json

mutual

theorem ofJson?_toJson : ∀ v : SignalValue, ofJson? v.toJson = some v
  | .null => rfl
  | .bool _ => rfl
  | .number _ => rfl
  | .text _ => rfl
  | .list items => by rw [toJson, ofJson?, ofJsonItems?_toJsonItems items, Option.map_some]

theorem ofJsonItems?_toJsonItems : ∀ vs : List SignalValue, ofJsonItems? (toJsonItems vs) = some vs
  | [] => rfl
  | v :: vs => by
    rw [toJsonItems, ofJsonItems?, ofJson?_toJson v, ofJsonItems?_toJsonItems vs]
    rfl

end

mutual

theorem toJson_of_ofJson? : ∀ {j : Json} {v : SignalValue}, ofJson? j = some v → v.toJson = j
  | .null, _, h => by cases h; rfl
  | .bool _, _, h => by cases h; rfl
  | .number _, _, h => by cases h; rfl
  | .text _, _, h => by cases h; rfl
  | .array items, _, h => by
    obtain ⟨vs, hvs, rfl⟩ := Option.map_eq_some_iff.mp h
    rw [toJson, toJsonItems_of_ofJsonItems? hvs]
  | .object _, _, h => by cases h

theorem toJsonItems_of_ofJsonItems? : ∀ {js : List Json} {vs : List SignalValue},
    ofJsonItems? js = some vs → toJsonItems vs = js
  | [], _, h => by cases h; rfl
  | j :: js, _, h => by
    obtain ⟨v, hv, h⟩ := Option.bind_eq_some_iff.mp h
    obtain ⟨vs, hvs, h⟩ := Option.bind_eq_some_iff.mp h
    cases h
    rw [toJsonItems, toJson_of_ofJson? hv, toJsonItems_of_ofJsonItems? hvs]

end

theorem ofJson?_eq_some_iff {j : Json} {v : SignalValue} : ofJson? j = some v ↔ v.toJson = j := by
  constructor
  · exact toJson_of_ofJson?
  · rintro rfl
    exact ofJson?_toJson v

mutual

theorem exists_ofJson? : ∀ {j : Json}, j.ObjectFree → ∃ v, ofJson? j = some v ∧ v.toJson = j
  | .null, _ => ⟨.null, rfl, rfl⟩
  | .bool b, _ => ⟨.bool b, rfl, rfl⟩
  | .number n, _ => ⟨.number n, rfl, rfl⟩
  | .text s, _ => ⟨.text s, rfl, rfl⟩
  | .array items, h => by
    have hitems : ObjectFreeItems items := h
    obtain ⟨vs, hvs, hback⟩ := exists_ofJsonItems? hitems
    exact ⟨.list vs, by rw [ofJson?, hvs, Option.map_some], by rw [toJson, hback]⟩
  | .object _, h => h.elim

theorem exists_ofJsonItems? : ∀ {js : List Json}, ObjectFreeItems js →
    ∃ vs, ofJsonItems? js = some vs ∧ toJsonItems vs = js
  | [], _ => ⟨[], rfl, rfl⟩
  | _ :: _, ⟨hj, hjs⟩ => by
    obtain ⟨v, hv, hback⟩ := exists_ofJson? hj
    obtain ⟨vs, hvs, hbacks⟩ := exists_ofJsonItems? hjs
    exact ⟨v :: vs, by rw [ofJsonItems?, hv, hvs]; rfl, by rw [toJsonItems, hback, hbacks]⟩

end

mutual

theorem objectFree_toJson : ∀ v : SignalValue, v.toJson.ObjectFree
  | .null => trivial
  | .bool _ => trivial
  | .number _ => trivial
  | .text _ => trivial
  | .list items => objectFreeItems_toJson items

theorem objectFreeItems_toJson : ∀ vs : List SignalValue, ObjectFreeItems (toJsonItems vs)
  | [] => trivial
  | v :: vs => ⟨objectFree_toJson v, objectFreeItems_toJson vs⟩

end

mutual

theorem sorted_toJson : ∀ v : SignalValue, v.toJson.Sorted
  | .null => trivial
  | .bool _ => trivial
  | .number _ => trivial
  | .text _ => trivial
  | .list items => sortedItems_toJson items

theorem sortedItems_toJson : ∀ vs : List SignalValue, SortedItems (toJsonItems vs)
  | [] => trivial
  | v :: vs => ⟨sorted_toJson v, sortedItems_toJson vs⟩

end

end SignalValue

namespace WriteRequest

theorem suffixItem?_of_ofJson? {j : Json} {v : SignalValue} (h : SignalValue.ofJson? j = some v) :
    suffixItem? j = none := by
  cases j with
  | object members => cases h
  | _ => rfl

theorem suffixItems?_of_ofJson? {items : List Json} {v : SignalValue}
    (h : SignalValue.ofJson? (.array items) = some v) : suffixItems? items = none := by
  cases items with
  | nil => rfl
  | cons j js =>
    obtain ⟨vs, hvs, -⟩ := Option.map_eq_some_iff.mp h
    obtain ⟨first, hfirst, -⟩ := Option.bind_eq_some_iff.mp hvs
    show (j :: js).mapM suffixItem? = none
    rw [List.mapM_cons, suffixItem?_of_ofJson? hfirst]
    rfl

theorem ofJson_eq_broadcast {j : Json} {v : SignalValue} (h : SignalValue.ofJson? j = some v) :
    ofJson j = .ok (.broadcast v) := by
  have hnone : j.items?.bind suffixItems? = none := by
    cases j with
    | array items => exact suffixItems?_of_ofJson? h
    | _ => rfl
  rw [ofJson, hnone]
  simp only [ofValue, h]

end WriteRequest

end SignalBroker
