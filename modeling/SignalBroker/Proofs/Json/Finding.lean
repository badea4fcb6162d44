import SignalBroker.Proofs.Json.Records
import SignalBroker.Proofs.Json.Telling

namespace SignalBroker.Json

open Reading

/-- A reader makes the same of every reading that tells a value. -/
def Finds {α : Type} (read : Reading → Except Error α) (a : α) (j : Json) : Prop :=
  ∀ r : Reading, r.Tells j → read r = .ok a

variable {α : Type} {read : Reading → Except Error α} {r : Reading} {members : List (String × Json)}

theorem finds_toJson {j : Json} (h : j.Sorted) : Finds Reading.toJson j j :=
  fun _ => toJson_of_tells h

theorem finds_string (s : String) : Finds readString s (.text s) := by
  intro r hr
  rw [readString, readTextAs, hr]
  rfl

theorem finds_natural {n largest : Nat} (wanted : String) (hn : n ≤ largest)
    (hsize : largest < 2 ^ 64) : Finds (readNatural largest wanted) n (.ofNat n) := by
  intro r hr
  have hback : (UInt64.ofNat n).toNat = n := UInt64.toNat_ofNat_of_lt (hn.trans_lt hsize)
  rw [readNatural, hr]
  show (if (UInt64.ofNat n).toNat ≤ largest then _ else _) = _
  rw [hback, if_pos hn]

theorem finds_list {as : List α} {f : α → Json} (h : ∀ a ∈ as, Finds read a (f a)) :
    Finds (readList read) as (.array (as.map f)) := by
  rintro r ⟨rs, hshape, hrs⟩
  have hitems : rs.mapM (fun item => item.inside (read item)) = .ok as := by
    rw [tellItems_iff, List.forall₂_map_right_iff] at hrs
    refine mapM_eq_ok_iff.mpr (forall₂_imp_of_mem hrs fun a ha r hr => ?_)
    exact inside_eq_ok_iff.mpr (h a ha r hr)
  rw [readList, hshape]
  exact bind_eq_ok_iff.mpr ⟨as, hitems, rfl⟩

theorem finds_table {t : Table String α} {f : α → Json}
    (h : ∀ row ∈ t.rows, Finds read row.2 (f row.2)) :
    Finds (readTable read) t (.ofTable t f) := by
  rintro r ⟨rs, rs', hshape, hp, hrs⟩
  have hfound : List.Forall₂ (fun row found : String × _ => row.1 = found.1 ∧ read row.2 = .ok found.2)
      rs' t.rows := by
    rw [tellMembers_iff, List.forall₂_map_right_iff] at hrs
    exact forall₂_imp_of_mem hrs fun found hfound row hrow => ⟨hrow.1, h found hfound _ hrow.2⟩
  obtain ⟨rows, hrows, hread⟩ := exists_perm_of_forall₂ hfound.flip hp.symm
  rw [readTable, hshape]
  refine bind_eq_ok_iff.mpr ⟨rows, mapM_eq_ok_iff.mpr (hread.flip.imp fun row found hrow => ?_), ?_⟩
  · obtain ⟨hname, hvalue⟩ := hrow
    exact bind_eq_ok_iff.mpr ⟨found.2, inside_eq_ok_iff.mpr hvalue, by rw [hname]; rfl⟩
  · show Except.ok (Table.ofList rows) = _
    rw [Table.ofList_of_perm hrows.symm]

/-- A table of values can be read only where all of the object can. -/
theorem exists_toJson_of_readTable {t : Table String Json} (h : readTable Reading.toJson r = .ok t) :
    ∃ j, r.toJson = .ok j := by
  rw [← toJson_shape]
  unfold readTable at h
  split at h
  · next members closing hshape =>
    rw [hshape]
    obtain ⟨rows, hrows, h⟩ := bind_eq_ok_iff.mp h
    obtain ⟨_, hclosing, -⟩ := bind_eq_ok_iff.mp h
    have hmembers : toJsonMembers members = .ok rows := by
      refine toJsonMembers_eq_ok_iff.mpr ((mapM_eq_ok_iff.mp hrows).imp fun row found hrow => ?_)
      obtain ⟨j, hj, hfound⟩ := bind_eq_ok_iff.mp hrow
      cases hfound
      exact ⟨rfl, inside_eq_ok_iff.mp hj⟩
    exact ⟨.ofMembers rows, bind_eq_ok_iff.mpr ⟨rows, hmembers, bind_eq_ok_iff.mpr ⟨_, hclosing, rfl⟩⟩⟩
  · obtain ⟨_, -, h⟩ := bind_eq_ok_iff.mp h
    cases h

theorem mem_of_tellMembers {rs : List (String × Reading)} (h : TellMembers rs members) {name : String}
    {j : Json} (hj : (name, j) ∈ members) : ∃ r, (name, r) ∈ rs ∧ r.Tells j := by
  induction tellMembers_iff.mp h with
  | nil => cases hj
  | @cons row m rs members hrow hrest ih =>
    obtain rfl | hj := List.mem_cons.mp hj
    · obtain ⟨rfl, hr⟩ := hrow
      exact ⟨row.2, List.mem_cons_self, hr⟩
    · obtain ⟨r, hr, htells⟩ := ih (tellMembers_iff.mpr hrest) hj
      exact ⟨r, List.mem_cons_of_mem _ hr, htells⟩

theorem exists_member_of_mem {rs : List (String × Reading)} (h : TellMembers rs members)
    {row : String × Reading} (hrow : row ∈ rs) : ∃ j, (row.1, j) ∈ members ∧ row.2.Tells j := by
  induction tellMembers_iff.mp h with
  | nil => cases hrow
  | @cons first m rs members hfirst hrest ih =>
    obtain rfl | hrow := List.mem_cons.mp hrow
    · exact ⟨m.2, by rw [hfirst.1]; exact List.mem_cons_self, hfirst.2⟩
    · obtain ⟨j, hj, htells⟩ := ih (tellMembers_iff.mpr hrest) hrow
      exact ⟨j, List.mem_cons_of_mem _ hj, htells⟩

theorem nodup_of_tells {rs rs' : List (String × Reading)} (hp : rs.Perm rs')
    (h : TellMembers rs' members) (hnodup : (members.map (·.1)).Nodup) : (rs.map (·.1)).Nodup := by
  have hnames : List.Forall₂ (· = ·) (rs'.map (·.1)) (members.map (·.1)) := by
    rw [List.forall₂_map_left_iff, List.forall₂_map_right_iff]
    exact (tellMembers_iff.mp h).imp fun _ _ hrow => hrow.1
  rw [List.forall₂_eq_eq_eq] at hnames
  rw [(hp.map _).nodup_iff, hnames]
  exact hnodup

namespace Record

variable {s : Record}

theorem accepts_of_finds {name : String} {required : Bool} {a : α} {j : Json}
    (hfield : s.fields.find? (·.name == name) = some ⟨name, required, fun r => discard (read r)⟩)
    (h : Finds read a j) (hr : r.Tells j) : s.Accepts name r := by
  intro field hfound
  cases hfield.symm.trans hfound
  show discard (read r) = _
  rw [h r hr]
  rfl

/-- A record takes its members out of every reading that tells an object of them, if all that are
fields will do. -/
theorem fieldsOf_of_tells (origin : Origin) (hr : r.Tells (.object members)) (hnodup : (members.map (·.1)).Nodup)
    (haccepts : ∀ m ∈ members, ∀ r : Reading, r.Tells m.2 → s.Accepts m.1 r)
    (hneeded : ∀ field ∈ s.fields, field.required = true → field.name ∈ members.map (·.1)) :
    ∃ fields, s.fieldsOf origin r = .ok fields ∧ ∀ name j, (name, j) ∈ members →
      s.has name = true → ∃ r, fields.lookup name = some r ∧ r.Tells j := by
  obtain ⟨rs, rs', hshape, hp, hrs⟩ := hr
  have hdistinct := nodup_of_tells hp hrs hnodup
  have hfound : ∀ name j, (name, j) ∈ members → s.has name = true →
      ∃ r, (rs.filter fun row => s.has row.1).lookup name = some r ∧ r.Tells j := by
    intro name j hj hhas
    obtain ⟨r, hr, htells⟩ := mem_of_tellMembers hrs hj
    refine ⟨r, ?_, htells⟩
    rw [lookup_filter (s.has ·), if_pos hhas, lookup_eq_some_iff_mem hdistinct]
    exact hp.mem_iff.mpr hr
  refine ⟨_, (fieldsOf_members_eq_ok_iff hshape hdistinct).mpr ⟨?_, rfl, ?_⟩, hfound⟩
  · intro row hrow
    obtain ⟨j, hj, htells⟩ := exists_member_of_mem hrs (hp.mem_iff.mp hrow)
    exact haccepts (row.1, j) hj row.2 htells
  · refine missing?_eq_none_iff.mpr fun field hf hrequired => ?_
    obtain ⟨m, hm, hname⟩ := List.mem_map.mp (hneeded field hf hrequired)
    have hhas : s.has field.name = true := by
      simp only [has, List.find?_isSome]
      exact ⟨field, hf, beq_self_eq_true _⟩
    obtain ⟨r, hr, -⟩ := hfound field.name m.2 (hname ▸ hm) hhas
    rw [hr]
    rfl

end Record

namespace Choice

variable {c : Choice}

theorem readVariant_of_tells {variants : List String} {v : String} (hv : v ∈ variants)
    (hr : r.Tells (.text v)) : readVariant origin variants r = .ok v := by
  have hcontains : variants.contains v = true := by simpa using hv
  unfold readVariant
  rw [hr]
  show (if variants.contains v = true then _ else _) = _
  rw [if_pos hcontains]

theorem split_of_tells (origin : Origin) {v : String} (hr : r.Tells (.object members))
    (hsorted : Sorted (.object members)) (htag : (c.tag, .text v) ∈ members) (hv : v ∈ c.variants) :
    ∃ content, c.split origin r = .ok (v, content) ∧
      content.Tells (.object (members.filter (·.1 != c.tag))) := by
  obtain ⟨rs, rs', hshape, hp, hrs⟩ := hr
  have hdistinct := nodup_of_tells hp hrs (nodup_of_sorted hsorted)
  have hread : ∀ row ∈ rs, ∃ j, row.2.toJson = .ok j := by
    intro row hrow
    obtain ⟨j, hj, htells⟩ := exists_member_of_mem hrs (hp.mem_iff.mp hrow)
    exact ⟨j, toJson_of_tells (sortedMembers_iff.mp hsorted.2 _ hj) htells⟩
  obtain ⟨tag, htags, htells⟩ := mem_of_tellMembers hrs htag
  have hlookup := (lookup_eq_some_iff_mem hdistinct).mpr (hp.mem_iff.mpr htags)
  have hothers : TellMembers (bareMembers (rs'.filter (·.1 != c.tag)))
      (members.filter (·.1 != c.tag)) := by
    refine bareMembers_tell (tellMembers_iff.mpr ?_)
    refine List.rel_filter (fun row m hrow => ?_) (tellMembers_iff.mp hrs)
    exact iff_of_eq (congrArg (fun name : String => (name != c.tag) = true) hrow.1)
  refine ⟨_, (split_members_eq_ok_iff hshape hread hdistinct).mpr
    ⟨tag, hlookup, readVariant_of_tells hv htells, rfl⟩, _, _, rfl, ?_, hothers⟩
  rw [bareMembers_eq_map, bareMembers_eq_map]
  exact (hp.filter _).map _

end Choice

end SignalBroker.Json
