import SignalBroker.Json.Record
import SignalBroker.Proofs.Json.Sorted

namespace SignalBroker.Json

variable {members : List (String × Json)}

theorem nodup_of_sorted (h : Sorted (.object members)) : (members.map (·.1)).Nodup := by
  refine List.pairwise_map.mpr (h.1.imp ?_)
  intro a b hlt heq
  rw [heq] at hlt
  exact Std.lt_irrefl hlt

theorem nodup_members_cons {α : Type} {row : String × α} {rows : List (String × α)}
    (h : ((row :: rows).map (·.1)).Nodup) :
    (∀ other ∈ rows, other.1 ≠ row.1) ∧ (rows.map (·.1)).Nodup := by
  obtain ⟨hrow, hnodup⟩ := List.nodup_cons.mp h
  refine ⟨?_, hnodup⟩
  intro other hother heq
  have hmem : other.1 ∈ rows.map (·.1) := List.mem_map_of_mem hother
  rw [heq] at hmem
  exact hrow hmem

theorem lookup_eq_some_iff_mem {α : Type} {rows : List (String × α)} (h : (rows.map (·.1)).Nodup)
    {name : String} {a : α} : rows.lookup name = some a ↔ (name, a) ∈ rows := by
  induction rows with
  | nil => simp
  | cons row rows ih =>
    obtain ⟨hother, hnodup⟩ := nodup_members_cons h
    rw [Table.lookup_cons_eq_ite, List.mem_cons]
    split
    · next heq =>
      have hnot : (name, a) ∉ rows := fun hm => hother _ hm heq
      rw [Prod.ext_iff, Option.some.injEq]
      exact ⟨fun ha => .inl ⟨heq, ha.symm⟩, fun hm => (hm.resolve_right hnot).2.symm⟩
    · next hne =>
      rw [ih hnodup]
      exact ⟨.inr, fun hm => hm.resolve_left fun heq => hne (congrArg Prod.fst heq)⟩

theorem sorted_of_lookup {name : String} {j : Json} (h : Sorted (.object members))
    (hj : members.lookup name = some j) : j.Sorted :=
  sortedMembers_iff.mp h.2 (name, j) ((Table.mem_toList_iff ⟨members, h.1⟩ name j).mpr hj)

namespace Reading

theorem lookup_ofJsonMembers (name : String) :
    (ofJsonMembers members).lookup name = (members.lookup name).map ofJson := by
  induction members with
  | nil => rfl
  | cons m members ih =>
    obtain ⟨k, j⟩ := m
    rw [ofJsonMembers, Table.lookup_cons_eq_ite, Table.lookup_cons_eq_ite, ih]
    split <;> rfl

theorem ofJsonMembers_eq_map (members : List (String × Json)) :
    ofJsonMembers members = members.map fun m => (m.1, ofJson m.2) := by
  induction members with
  | nil => rfl
  | cons m members ih =>
    rw [ofJsonMembers, ih]
    rfl

theorem inside_eq_ok_iff {α : Type} {r : Reading} {x : Except Error α} {a : α} :
    r.inside x = .ok a ↔ x = .ok a :=
  mapError_eq_ok_iff

end Reading

open Reading

theorem lookup_filter {α : Type} (p : String → Bool) (name : String) (rows : List (String × α)) :
    (rows.filter fun m => p m.1).lookup name = if p name then rows.lookup name else none := by
  induction rows with
  | nil => simp
  | cons m rows ih =>
    obtain ⟨k, a⟩ := m
    rw [Table.lookup_cons_eq_ite]
    by_cases hp : p k = true
    · rw [List.filter_cons_of_pos (by exact hp), Table.lookup_cons_eq_ite, ih]
      by_cases h : name = k <;> simp [h, hp]
    · rw [List.filter_cons_of_neg (by exact hp), ih]
      by_cases h : name = k <;> simp [h, hp]

namespace Record

def has (s : Record) (name : String) : Bool :=
  (s.fields.find? (·.name == name)).isSome

/-- Whether a reading will do for the field of a name, if there is such a field. -/
def Accepts (s : Record) (name : String) (r : Reading) : Prop :=
  ∀ field, s.fields.find? (·.name == name) = some field → field.check r = .ok ()

variable {s : Record} {seen fields : Fields} {origin : Origin}

theorem takeMembers_eq_ok_iff {rs : Fields} (hnodup : (rs.map (·.1)).Nodup)
    (hnew : ∀ row ∈ rs, seen.lookup row.1 = none) :
    s.takeMembers seen rs = .ok fields ↔
      (∀ row ∈ rs, s.Accepts row.1 row.2) ∧ fields = seen ++ rs.filter fun row => s.has row.1 := by
  induction rs generalizing seen with
  | nil => simp [takeMembers, eq_comm]
  | cons row rs ih =>
    obtain ⟨name, r⟩ := row
    obtain ⟨hrow, hnodup⟩ := nodup_members_cons hnodup
    obtain ⟨hseen, hnew⟩ := List.forall_mem_cons.mp hnew
    rw [takeMembers, List.forall_mem_cons]
    cases hf : s.fields.find? (·.name == name) with
    | none =>
      have hhas : ¬s.has name = true := by simp [has, hf]
      have haccepts : s.Accepts name r := by simp [Accepts, hf]
      rw [List.filter_cons_of_neg (by exact hhas)]
      simp only [haccepts, true_and]
      exact ih hnodup hnew
    | some field =>
      have hhas : s.has name = true := by simp [has, hf]
      have haccepts : s.Accepts name r ↔ field.check r = .ok () := by simp [Accepts, hf]
      have hlater : ∀ other ∈ rs, (seen ++ [(name, r)]).lookup other.1 = none := by
        intro other hother
        have hne : (other.1 == name) = false := by simpa using hrow other hother
        simp [List.lookup_append, hnew other hother, List.lookup_cons, hne]
      dsimp only at hseen
      simp only [hseen, Option.isSome_none, Bool.false_eq_true, if_false]
      rw [List.filter_cons_of_pos (by exact hhas), bind_eq_ok_iff, haccepts, and_assoc]
      simp only [inside_eq_ok_iff, ih hnodup hlater, List.append_assoc, List.cons_append,
        List.nil_append]
      exact ⟨fun ⟨(), h⟩ => h, fun h => ⟨(), h⟩⟩

theorem fieldsOf_members_eq_ok_iff {r : Reading} {rs : Fields} (hshape : r.shape = .object rs .closed)
    (hnodup : (rs.map (·.1)).Nodup) : s.fieldsOf origin r = .ok fields ↔
      (∀ row ∈ rs, s.Accepts row.1 row.2) ∧ (fields = rs.filter fun row => s.has row.1) ∧
        s.missing? fields = none := by
  have hnew : ∀ row ∈ rs, ([] : Fields).lookup row.1 = none := fun _ _ => rfl
  rw [fieldsOf, hshape]
  simp only [bind_eq_ok_iff, takeMembers_eq_ok_iff hnodup hnew, List.nil_append]
  constructor
  · rintro ⟨seen, ⟨haccepts, hseen⟩, _, -, h⟩
    split at h
    · cases h
    · rename_i hmissing
      cases h
      exact ⟨haccepts, hseen, hmissing⟩
  · rintro ⟨haccepts, hfields, hmissing⟩
    refine ⟨fields, ⟨haccepts, hfields⟩, (), rfl, ?_⟩
    rw [hmissing]
    rfl

/-- What a record takes of an object: the members that are fields, if all of them will do and none is
missing. -/
theorem fieldsOf_eq_ok_iff (hsorted : Sorted (.object members)) :
    s.fieldsOf origin (ofJson (.object members)) = .ok fields ↔
      (∀ m ∈ members, s.Accepts m.1 (ofJson m.2)) ∧
        fields = ofJsonMembers (members.filter fun m => s.has m.1) ∧ s.missing? fields = none := by
  have hnodup : ((ofJsonMembers members).map (·.1)).Nodup := by
    rw [ofJsonMembers_eq_map, List.map_map]
    exact nodup_of_sorted hsorted
  rw [fieldsOf_members_eq_ok_iff rfl hnodup]
  simp only [ofJsonMembers_eq_map, List.forall_mem_map, List.filter_map]
  rfl

theorem accepts_of_fields (hsorted : Sorted (.object members))
    (h : ∀ field ∈ s.fields, ∀ j, members.lookup field.name = some j →
      field.check (ofJson j) = .ok ()) : ∀ m ∈ members, s.Accepts m.1 (ofJson m.2) := by
  intro m hm field hf
  have hname : field.name = m.1 := by simpa using List.find?_some hf
  have hlookup := (Table.mem_toList_iff ⟨members, hsorted.1⟩ m.1 m.2).mp hm
  exact h field (List.mem_of_find?_eq_some hf) m.2 (hname ▸ hlookup)

theorem missing?_eq_none_iff : s.missing? fields = none ↔
    ∀ field ∈ s.fields, field.required = true → (fields.lookup field.name).isSome = true := by
  simp [missing?, Option.isSome_iff_ne_none]

theorem lookup_taken {name : String} (h : s.has name = true) :
    (ofJsonMembers (members.filter fun m => s.has m.1)).lookup name =
      (members.lookup name).map ofJson := by
  rw [lookup_ofJsonMembers, lookup_filter (s.has ·), if_pos h]

theorem fieldsOf_of_fields (hsorted : Sorted (.object members))
    (hchecks : ∀ field ∈ s.fields, ∀ j, members.lookup field.name = some j →
      field.check (ofJson j) = .ok ())
    (hneeded : ∀ field ∈ s.fields, field.required = true →
      (members.lookup field.name).isSome = true) :
    s.fieldsOf origin (ofJson (.object members)) =
      .ok (ofJsonMembers (members.filter fun m => s.has m.1)) := by
  refine (fieldsOf_eq_ok_iff hsorted).mpr ⟨accepts_of_fields hsorted hchecks, rfl, ?_⟩
  refine missing?_eq_none_iff.mpr fun field hf hrequired => ?_
  have hhas : s.has field.name = true := by
    simp only [has, List.find?_isSome]
    exact ⟨field, hf, beq_self_eq_true _⟩
  rw [lookup_taken hhas, Option.isSome_map]
  exact hneeded field hf hrequired

end Record

namespace Choice

variable {c : Choice} {origin : Origin} {variant : Option String} {others : Fields}

theorem takeTag_of_lookup_eq_none {rs : Fields} (hread : ∀ row ∈ rs, ∃ j, row.2.toJson = .ok j)
    (h : rs.lookup c.tag = none) :
    c.takeTag origin variant others rs = .ok (variant, others ++ bareMembers rs) := by
  induction rs generalizing others with
  | nil => simp [bareMembers, takeTag]
  | cons row rs ih =>
    obtain ⟨name, r⟩ := row
    obtain ⟨⟨j, hj⟩, hread⟩ := List.forall_mem_cons.mp hread
    rw [Table.lookup_cons_eq_ite] at h
    split at h
    · cases h
    · next hne =>
      rw [takeTag, if_neg (Ne.symm hne), hj]
      exact (ih hread h).trans (by rw [List.append_assoc]; rfl)

theorem takeTag_of_lookup {rs : Fields} {r : Reading}
    (hread : ∀ row ∈ rs, ∃ j, row.2.toJson = .ok j) (hnodup : (rs.map (·.1)).Nodup)
    (h : rs.lookup c.tag = some r) :
    c.takeTag origin none others rs = (readVariant origin c.variants r).map fun v =>
      (some v, others ++ bareMembers (rs.filter (·.1 != c.tag))) := by
  induction rs generalizing others with
  | nil => cases h
  | cons row rs ih =>
    obtain ⟨name, r'⟩ := row
    obtain ⟨hrow, hnodup⟩ := nodup_members_cons hnodup
    obtain ⟨⟨j, hj⟩, hread⟩ := List.forall_mem_cons.mp hread
    rw [Table.lookup_cons_eq_ite] at h
    by_cases heq : c.tag = name
    · rw [if_pos heq, Option.some.injEq] at h
      have hlater : ∀ other ∈ rs, other.1 ≠ c.tag := fun other hother => heq ▸ hrow other hother
      have hothers : rs.filter (·.1 != c.tag) = rs :=
        List.filter_eq_self.mpr fun other hother => bne_iff_ne.mpr (hlater other hother)
      have hnone : rs.lookup c.tag = none :=
        List.lookup_eq_none_iff.mpr fun other hother => bne_iff_ne.mpr (hlater other hother).symm
      rw [takeTag, if_pos heq.symm, h, List.filter_cons_of_neg (by simp [heq]), hothers]
      cases readVariant origin c.variants r with
      | error e => rfl
      | ok v => exact takeTag_of_lookup_eq_none hread hnone
    · rw [if_neg heq] at h
      rw [takeTag, if_neg (Ne.symm heq), hj, List.filter_cons_of_pos (by simp [Ne.symm heq])]
      exact (ih hread hnodup h).trans (by rw [List.append_assoc]; rfl)

theorem split_members_eq_ok_iff {r : Reading} {rs : Fields} {v : String} {content : Reading}
    (hshape : r.shape = .object rs .closed) (hread : ∀ row ∈ rs, ∃ j, row.2.toJson = .ok j)
    (hnodup : (rs.map (·.1)).Nodup) : c.split origin r = .ok (v, content) ↔
      ∃ tag, rs.lookup c.tag = some tag ∧ readVariant origin c.variants tag = .ok v ∧
        content = .object (bareMembers (rs.filter (·.1 != c.tag))) .closed := by
  rw [split, hshape]
  show (c.takeTag origin none [] rs >>= fun found =>
    Closing.closed.check >>= fun _ => _) = _ ↔ _
  cases hlookup : rs.lookup c.tag with
  | none =>
    rw [takeTag_of_lookup_eq_none hread hlookup]
    constructor
    · intro h; cases h
    · rintro ⟨_, h, -⟩; cases h
  | some tag =>
    rw [takeTag_of_lookup hread hnodup hlookup]
    cases hv : readVariant origin c.variants tag with
    | error e =>
      constructor
      · intro h; cases h
      · rintro ⟨_, h, h', -⟩
        cases h
        rw [hv] at h'
        cases h'
    | ok w =>
      constructor
      · intro h
        cases h
        exact ⟨tag, rfl, hv, rfl⟩
      · rintro ⟨_, h, h', rfl⟩
        cases h
        rw [hv] at h'
        cases h'
        rfl

/-- The variant of an object is the one that its tag names, and all other members stay. -/
theorem split_eq_ok_iff {v : String} {content : Reading} (hsorted : Sorted (.object members)) :
    c.split origin (ofJson (.object members)) = .ok (v, content) ↔
      ∃ j, members.lookup c.tag = some j ∧ readVariant origin c.variants (ofJson j) = .ok v ∧
        content = ofJson (.object (members.filter (·.1 != c.tag))) := by
  have hread : ∀ row ∈ ofJsonMembers members, ∃ j, row.2.toJson = .ok j := by
    rw [ofJsonMembers_eq_map, List.forall_mem_map]
    exact fun m hm => ⟨m.2, toJson_ofJson (sortedMembers_iff.mp hsorted.2 m hm)⟩
  have hnodup : ((ofJsonMembers members).map (·.1)).Nodup := by
    rw [ofJsonMembers_eq_map, List.map_map]
    exact nodup_of_sorted hsorted
  have hothers : bareMembers ((ofJsonMembers members).filter (·.1 != c.tag)) =
      ofJsonMembers (members.filter (·.1 != c.tag)) := by
    rw [← bareMembers_ofJson (members.filter _), ofJsonMembers_eq_map, ofJsonMembers_eq_map,
      List.filter_map]
    rfl
  rw [split_members_eq_ok_iff rfl hread hnodup, hothers, lookup_ofJsonMembers]
  constructor
  · rintro ⟨_, htag, hv, hcontent⟩
    obtain ⟨j, hj, rfl⟩ := Option.map_eq_some_iff.mp htag
    exact ⟨j, hj, hv, hcontent⟩
  · rintro ⟨j, hj, hv, hcontent⟩
    exact ⟨ofJson j, by rw [hj]; rfl, hv, hcontent⟩

end Choice

theorem readVariant_eq_ok_iff {variants : List String} {j : Json} {v : String} :
    readVariant .value variants (ofJson j) = .ok v ↔ j = .text v ∧ v ∈ variants := by
  cases j <;> simp [readVariant, ofJson, shape, refuse, found, reject, bind, Except.bind]
  rename_i s
  by_cases h : s ∈ variants
  · simp only [h, if_true, Except.ok.injEq]
    constructor
    · rintro rfl; exact ⟨rfl, h⟩
    · rintro ⟨rfl, -⟩; rfl
  · simp only [h, if_false]
    constructor
    · intro h'; cases h'
    · rintro ⟨rfl, h'⟩; exact absurd h' h

end SignalBroker.Json
