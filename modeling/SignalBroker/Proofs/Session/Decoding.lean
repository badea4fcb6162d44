import SignalBroker.Proofs.Json.Records
import SignalBroker.Protocol.Request

namespace SignalBroker

namespace Json

/-- The members of an object in the order in which a reader finds them, with their repetitions. -/
def Reading.written : Reading → Except Error (List (String × Json))
  | .object members closing => do
    let members ← toJsonMembers members
    closing.check
    return members
  | .placed _ r => written r
  | r => r.refuse "a map"

def writtenMembers (text : String) : Except Error (List (String × Json)) :=
  (Document.ofText text).read Reading.written

theorem Reading.written_of_toJson : ∀ {r : Reading} {members : List (String × Json)},
    r.toJson = .ok (.object members) →
      ∃ written, r.written = .ok written ∧ members = (Table.ofList written).rows
  | .null, _, h => by cases h
  | .bool _, _, h => by cases h
  | .number _, _, h => by cases h
  | .text _, _, h => by cases h
  | .array _ _, _, h => by
    obtain ⟨_, -, h⟩ := bind_eq_ok_iff.mp h
    obtain ⟨_, -, h⟩ := bind_eq_ok_iff.mp h
    cases h
  | .object _ _, _, h => by
    obtain ⟨js, hjs, h⟩ := bind_eq_ok_iff.mp h
    obtain ⟨_, hclosed, h⟩ := bind_eq_ok_iff.mp h
    cases h
    exact ⟨js, bind_eq_ok_iff.mpr ⟨js, hjs, bind_eq_ok_iff.mpr ⟨_, hclosed, rfl⟩⟩, rfl⟩
  | .unreadable _, _, h => by cases h
  | .placed _ r, _, h => written_of_toJson (r := r) h

/-- An object has what its text writes out, the last one of each name. -/
theorem lookup_of_ofText {text : String} {members : List (String × Json)}
    (h : ofText text = .ok (.object members)) :
    ∃ written, writtenMembers text = .ok written ∧
      ∀ name, members.lookup name = (written.reverse.find? (·.1 = name)).map (·.2) := by
  obtain ⟨j, hj, h⟩ := bind_eq_ok_iff.mp h
  split at h
  · rename_i hsurplus
    cases h
    obtain ⟨written, hwritten, rfl⟩ := Reading.written_of_toJson hj
    refine ⟨written, bind_eq_ok_iff.mpr ⟨written, hwritten, by rw [hsurplus]; rfl⟩, ?_⟩
    intro name
    show (Table.ofList written).find? name = _
    rw [Table.ofList, Table.find?_foldl_insert, Table.find?_empty, Option.or_none]
  · cases h

end Json

namespace Request

open Json Json.Reading

variable {members : List (String × Json)} {request : Request} {fields : Fields}

theorem has_id (name : String) : (recordOf name).has "requestId" = true := by
  unfold recordOf
  split <;> rfl

theorem name_of_readAction {name : String} {action : Action} (hname : name ∈ choice.variants)
    (h : readAction name fields = .ok action) : action.name = name := by
  unfold readAction at h
  split at h
  · obtain ⟨_, -, h⟩ := bind_eq_ok_iff.mp h
    cases h
    rfl
  · obtain ⟨_, -, h⟩ := bind_eq_ok_iff.mp h
    cases h
    rfl
  · obtain ⟨_, -, h⟩ := bind_eq_ok_iff.mp h
    obtain ⟨_, -, h⟩ := bind_eq_ok_iff.mp h
    cases h
    rfl
  · obtain ⟨_, -, h⟩ := bind_eq_ok_iff.mp h
    obtain ⟨_, -, h⟩ := bind_eq_ok_iff.mp h
    cases h
    rfl
  · obtain ⟨_, -, h⟩ := bind_eq_ok_iff.mp h
    cases h
    rfl
  · cases h
    simp_all [choice, Action.name]

theorem sorted_filter (p : String → Bool) (h : Sorted (.object members)) :
    Sorted (.object (members.filter fun m => p m.1)) :=
  ⟨h.1.filter _, sortedMembers_iff.mpr fun m hm =>
    sortedMembers_iff.mp h.2 m (List.mem_of_mem_filter hm)⟩

def rest (members : List (String × Json)) : List (String × Json) :=
  members.filter (·.1 != "action")

theorem lookup_rest {name : String} (h : name ≠ "action") :
    (rest members).lookup name = members.lookup name := by
  rw [rest, lookup_filter (· != "action"), if_pos (by simpa using h)]

theorem id_of_fields {name : String} (hsorted : Sorted (.object members))
    (h : (recordOf name).fieldsOf .choice (ofJson (.object (rest members))) = .ok fields) :
    fields.getD "requestId" Reading.toJson .null =
      .ok ((members.lookup "requestId").getD .null) := by
  have hrest := sorted_filter (· != "action") hsorted
  obtain ⟨-, rfl, -⟩ := (Record.fieldsOf_eq_ok_iff hrest).mp h
  rw [Fields.getD, Record.lookup_taken (has_id name), ← rest, lookup_rest (by decide)]
  cases hid : members.lookup "requestId" with
  | none => rfl
  | some j => exact toJson_ofJson (sorted_of_lookup hsorted hid)

theorem read_eq_ok_iff (hsorted : Sorted (.object members)) :
    read (ofJson (.object members)) = .ok request ↔
      ∃ name ∈ choice.variants, members.lookup "action" = some (.text name) ∧
        ∃ fields, (recordOf name).fieldsOf .choice (ofJson (.object (rest members))) = .ok fields ∧
          readAction name fields = .ok request.action ∧
          request.requestId = (members.lookup "requestId").getD .null := by
  constructor
  · intro h
    obtain ⟨⟨name, content⟩, hsplit, h⟩ := bind_eq_ok_iff.mp h
    obtain ⟨fields, hfields, h⟩ := bind_eq_ok_iff.mp h
    obtain ⟨id, hid, h⟩ := bind_eq_ok_iff.mp h
    obtain ⟨action, haction, h⟩ := bind_eq_ok_iff.mp h
    cases h
    obtain ⟨j, hj, hname, rfl⟩ := (Choice.split_eq_ok_iff hsorted).mp hsplit
    obtain ⟨rfl, hvariant⟩ := readVariant_eq_ok_iff.mp hname
    rw [id_of_fields hsorted hfields] at hid
    cases hid
    exact ⟨name, hvariant, hj, fields, hfields, haction, rfl⟩
  · rintro ⟨name, hname, hj, fields, hfields, haction, hid⟩
    refine bind_eq_ok_iff.mpr ⟨(name, ofJson (.object (rest members))),
      (Choice.split_eq_ok_iff hsorted).mpr
        ⟨.text name, hj, readVariant_eq_ok_iff.mpr ⟨rfl, hname⟩, rfl⟩, ?_⟩
    refine bind_eq_ok_iff.mpr ⟨fields, hfields, ?_⟩
    refine bind_eq_ok_iff.mpr ⟨_, id_of_fields hsorted hfields, ?_⟩
    refine bind_eq_ok_iff.mpr ⟨request.action, haction, ?_⟩
    rw [← hid]
    rfl

theorem decode_eq_ok_iff {text : String} {frame : Json} (h : Json.ofText text = .ok frame) :
    decode text = .ok request ↔ read (ofJson frame) = .ok request := by
  rw [decode, h]
  dsimp only
  cases read (ofJson frame) <;> simp

theorem check_id {j : Json} (h : j.Sorted) : idField.check (ofJson j) = .ok () := by
  show discard (Reading.toJson (ofJson j)) = .ok ()
  rw [toJson_ofJson h]
  rfl

def IsGet (text path : String) (id : Json) : Prop :=
  ∃ members, Json.ofText text = .ok (.object members) ∧
    members.lookup "action" = some (.text "get") ∧ members.lookup "path" = some (.text path) ∧
    (members.lookup "requestId").getD .null = id

def IsSet (text path : String) (value id : Json) : Prop :=
  ∃ members, Json.ofText text = .ok (.object members) ∧
    members.lookup "action" = some (.text "set") ∧ members.lookup "path" = some (.text path) ∧
    members.lookup "value" = some value ∧ (members.lookup "requestId").getD .null = id

variable {text path : String} {value id : Json}

theorem decode_get (h : IsGet text path id) : decode text = .ok ⟨id, .get path⟩ := by
  obtain ⟨members, h, ha, hp, hid⟩ := h
  have hsorted := Json.sorted_of_ofText h
  have hrest := sorted_filter (· != "action") hsorted
  have hpath : (rest members).lookup "path" = some (.text path) := by
    rw [lookup_rest (by decide), hp]
  refine (decode_eq_ok_iff h).mpr ((read_eq_ok_iff hsorted).mpr
    ⟨"get", by decide, ha, _, Record.fieldsOf_of_fields hrest ?_ ?_, ?_, hid.symm⟩)
  · intro field hf j hj
    obtain rfl | hf := List.mem_cons.mp hf
    · exact check_id (sorted_of_lookup hrest hj)
    · cases List.mem_singleton.mp hf
      cases hpath.symm.trans hj
      rfl
  · intro field hf hrequired
    obtain rfl | hf := List.mem_cons.mp hf
    · cases hrequired
    · cases List.mem_singleton.mp hf
      exact Option.isSome_of_eq_some hpath
  · refine bind_eq_ok_iff.mpr ⟨path, ?_, rfl⟩
    rw [Fields.get, Record.lookup_taken rfl, hpath]
    rfl

theorem decode_set (h : IsSet text path value id) : decode text = .ok ⟨id, .set path value⟩ := by
  obtain ⟨members, h, ha, hp, hv, hid⟩ := h
  have hsorted := Json.sorted_of_ofText h
  have hrest := sorted_filter (· != "action") hsorted
  have hpath : (rest members).lookup "path" = some (.text path) := by
    rw [lookup_rest (by decide), hp]
  have hvalue : (rest members).lookup "value" = some value := by
    rw [lookup_rest (by decide), hv]
  have hread : (ofJson value).toJson = .ok value := toJson_ofJson (sorted_of_lookup hsorted hv)
  refine (decode_eq_ok_iff h).mpr ((read_eq_ok_iff hsorted).mpr
    ⟨"set", by decide, ha, _, Record.fieldsOf_of_fields hrest ?_ ?_, ?_, hid.symm⟩)
  · intro field hf j hj
    obtain rfl | hf := List.mem_cons.mp hf
    · exact check_id (sorted_of_lookup hrest hj)
    · obtain rfl | hf := List.mem_cons.mp hf
      · cases hpath.symm.trans hj
        rfl
      · cases List.mem_singleton.mp hf
        cases hvalue.symm.trans hj
        show discard (Reading.toJson (ofJson value)) = .ok ()
        rw [hread]
        rfl
  · intro field hf hrequired
    obtain rfl | hf := List.mem_cons.mp hf
    · cases hrequired
    · obtain rfl | hf := List.mem_cons.mp hf
      · exact Option.isSome_of_eq_some hpath
      · cases List.mem_singleton.mp hf
        exact Option.isSome_of_eq_some hvalue
  · refine bind_eq_ok_iff.mpr ⟨path, ?_, bind_eq_ok_iff.mpr ⟨value, ?_, rfl⟩⟩
    · rw [Fields.get, Record.lookup_taken rfl, hpath]
      rfl
    · rw [Fields.get, Record.lookup_taken rfl, hvalue]
      exact hread

def actionIn (members : List (String × Json)) : String :=
  match members.lookup "action" with
  | some (.text name) => name
  | _ => ""

theorem actionOf_object : actionOf (.object members) = actionIn members := by
  show ((members.lookup "action").bind text?).getD "" = actionIn members
  unfold actionIn
  cases members.lookup "action" with
  | none => rfl
  | some j => cases j <;> rfl

theorem named_of_decode_eq_ok {text : String} (h : Json.ofText text = .ok (.object members))
    (hdecode : decode text = .ok request) : request.action.name = actionIn members ∧
      request.requestId = (members.lookup "requestId").getD .null := by
  obtain ⟨name, hname, hlookup, fields, -, haction, hid⟩ :=
    (read_eq_ok_iff (Json.sorted_of_ofText h)).mp ((decode_eq_ok_iff h).mp hdecode)
  rw [actionIn, hlookup]
  exact ⟨name_of_readAction hname haction, hid⟩

theorem named_of_decode_eq_error {text : String} {u : Undecodable}
    (h : Json.ofText text = .ok (.object members)) (hdecode : decode text = .error u) :
    u.action = actionIn members ∧ u.requestId = (members.lookup "requestId").getD .null := by
  rw [decode, h] at hdecode
  dsimp only at hdecode
  cases hread : read (ofJson (.object members)) with
  | ok r => rw [hread] at hdecode; cases hdecode
  | error e =>
    rw [hread] at hdecode
    cases hdecode
    exact ⟨actionOf_object, rfl⟩

end Request

end SignalBroker
