import SignalBroker.Json.Parser
import SignalBroker.Proofs.Except
import SignalBroker.Proofs.Table

namespace SignalBroker

namespace Json

mutual

/-- The members of every object in a value are in ascending order of their names. -/
def Sorted : Json → Prop
  | .array items => SortedItems items
  | .object members => members.Pairwise (fun a b => a.1 < b.1) ∧ SortedMembers members
  | _ => True

def SortedItems : List Json → Prop
  | [] => True
  | j :: js => Sorted j ∧ SortedItems js

def SortedMembers : List (String × Json) → Prop
  | [] => True
  | (_, j) :: js => Sorted j ∧ SortedMembers js

end

variable {j : Json} {members : List (String × Json)}

theorem sortedMembers_iff : SortedMembers members ↔ ∀ m ∈ members, m.2.Sorted := by
  induction members with
  | nil => simp [SortedMembers]
  | cons m members ih => simp [SortedMembers, ih]

theorem ofMembers_eq (h : members.Pairwise fun a b => a.1 < b.1) :
    ofMembers members = .object members :=
  congrArg (fun t : Table String Json => object t.rows) (Table.ofList_rows ⟨members, h⟩)

theorem sorted_ofMembers (h : ∀ m ∈ members, m.2.Sorted) : (ofMembers members).Sorted :=
  ⟨(Table.ofList members).ascending, sortedMembers_iff.mpr fun m hm => h m (Table.mem_of_mem_ofList hm)⟩

end Json

namespace Json.Reading

mutual

theorem sorted_of_toJson : ∀ {r : Reading} {j : Json}, r.toJson = .ok j → j.Sorted
  | .null, _, h => by cases h; trivial
  | .bool _, _, h => by cases h; trivial
  | .number _, _, h => by cases h; trivial
  | .text _, _, h => by cases h; trivial
  | .array items closing, _, h => by
    obtain ⟨js, hjs, h⟩ := bind_eq_ok_iff.mp h
    obtain ⟨_, -, h⟩ := bind_eq_ok_iff.mp h
    cases h
    exact sortedItems_of_toJson hjs
  | .object members closing, _, h => by
    obtain ⟨js, hjs, h⟩ := bind_eq_ok_iff.mp h
    obtain ⟨_, -, h⟩ := bind_eq_ok_iff.mp h
    cases h
    exact sorted_ofMembers (sortedMembers_iff.mp (sortedMembers_of_toJson hjs))
  | .unreadable _, _, h => by cases h
  | .placed _ r, _, h => sorted_of_toJson (r := r) h

theorem sortedItems_of_toJson : ∀ {rs : List Reading} {js : List Json},
    toJsonItems rs = .ok js → SortedItems js
  | [], _, h => by cases h; trivial
  | r :: rs, _, h => by
    obtain ⟨j, hj, h⟩ := bind_eq_ok_iff.mp h
    obtain ⟨js, hjs, h⟩ := bind_eq_ok_iff.mp h
    cases h
    exact ⟨sorted_of_toJson hj, sortedItems_of_toJson hjs⟩

theorem sortedMembers_of_toJson : ∀ {rs : List (String × Reading)} {js : List (String × Json)},
    toJsonMembers rs = .ok js → SortedMembers js
  | [], _, h => by cases h; trivial
  | (k, r) :: rs, _, h => by
    obtain ⟨j, hj, h⟩ := bind_eq_ok_iff.mp h
    obtain ⟨js, hjs, h⟩ := bind_eq_ok_iff.mp h
    cases h
    exact ⟨sorted_of_toJson hj, sortedMembers_of_toJson hjs⟩

end

mutual

theorem toJson_ofJson : ∀ {j : Json}, j.Sorted → (ofJson j).toJson = .ok j
  | .null, _ => rfl
  | .bool _, _ => rfl
  | .number _, _ => rfl
  | .text _, _ => rfl
  | .array items, h =>
    bind_eq_ok_iff.mpr ⟨items, toJsonItems_ofJson h, rfl⟩
  | .object members, h => by
    refine bind_eq_ok_iff.mpr ⟨members, toJsonMembers_ofJson h.2, ?_⟩
    rw [ofMembers_eq h.1]
    rfl

theorem toJsonItems_ofJson : ∀ {js : List Json}, SortedItems js →
    toJsonItems (ofJsonItems js) = .ok js
  | [], _ => rfl
  | j :: js, h =>
    bind_eq_ok_iff.mpr ⟨j, toJson_ofJson h.1, bind_eq_ok_iff.mpr ⟨js, toJsonItems_ofJson h.2, rfl⟩⟩

theorem toJsonMembers_ofJson : ∀ {js : List (String × Json)}, SortedMembers js →
    toJsonMembers (ofJsonMembers js) = .ok js
  | [], _ => rfl
  | (_, j) :: js, h =>
    bind_eq_ok_iff.mpr
      ⟨j, toJson_ofJson h.1, bind_eq_ok_iff.mpr ⟨js, toJsonMembers_ofJson h.2, rfl⟩⟩

end

mutual

theorem bare_ofJson : ∀ j : Json, (ofJson j).bare = ofJson j
  | .null => rfl
  | .bool _ => rfl
  | .number _ => rfl
  | .text _ => rfl
  | .array items => congrArg (Reading.array · .closed) (bareItems_ofJson items)
  | .object members => congrArg (Reading.object · .closed) (bareMembers_ofJson members)

theorem bareItems_ofJson : ∀ js : List Json, bareItems (ofJsonItems js) = ofJsonItems js
  | [] => rfl
  | j :: js => congrArg₂ List.cons (bare_ofJson j) (bareItems_ofJson js)

theorem bareMembers_ofJson : ∀ js : List (String × Json),
    bareMembers (ofJsonMembers js) = ofJsonMembers js
  | [] => rfl
  | (k, j) :: js =>
    congrArg₂ List.cons (congrArg (k, ·) (bare_ofJson j)) (bareMembers_ofJson js)

end

end Json.Reading

namespace Json

theorem sorted_of_ofText {text : String} {j : Json} (h : ofText text = .ok j) : j.Sorted := by
  obtain ⟨a, ha, h⟩ := bind_eq_ok_iff.mp h
  split at h
  · cases h
    exact Reading.sorted_of_toJson ha
  · cases h

end Json

end SignalBroker
