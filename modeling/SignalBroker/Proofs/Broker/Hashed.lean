import Mathlib.Data.List.AList
import SignalBroker.Proofs.Broker.Applying
import SignalBroker.Proofs.Broker.Registration

namespace SignalBroker

structure Named where
  path : String
  entry : Entry

/-- Entries under their keys, in the order in which they happen to lie. -/
abbrev Hashed := AList fun _ : String => Named

namespace Hashed

variable {σ : Type}

def items (t : Hashed) : List Named := t.entries.map (·.2)

def matching (t : Hashed) (p : Pattern) : List Named :=
  if p.isLiteral then (t.lookup p.text).toList
  else t.items.filter fun x => p.matches x.path

def enter (t : Hashed) (flags : List PathFlags) (owner : Nat) (values : Values) : Hashed :=
  flags.foldl (fun t f =>
    t.insert f.path ⟨f.path, Registry.firstEntry f owner (values.find? f.path)⟩) t

def hear (t : Hashed) (owner seq : Nat) (row : String × SignalValue) : Hashed :=
  match t.lookup row.1 with
  | some x => t.insert row.1 { x with entry := x.entry.hear owner seq (some row.2) }
  | none => t

def apply (t : Hashed) (owner seq : Nat) (values : Values) : Hashed :=
  values.toList.foldl (fun t row => t.hear owner seq row) t

/-- A table has the entries of a registry, each under its own path. -/
def Holds (t : Hashed) (entries : Table String Entry) : Prop :=
  ∀ path, t.lookup path = (entries.find? path).map fun e => ⟨path, e⟩

/-- The tables that a registry may have its entries in after some registrations and changes. Whatever
else happens leaves the entries alone. At any time the table may be arranged anew. -/
inductive Follows : Hashed → Registry σ → Prop where
  | empty : Follows ∅ .empty
  | registered {t r} (flags values member timer) (h : Follows t r) :
    Follows (t.enter flags r.members.length values) (r.enroll flags values member timer)
  | applied {t r} (owner seq values) (h : Follows t r) :
    Follows (t.apply owner seq values) (r.apply owner seq values)
  | aside {t r r'} (h : Follows t r) (he : r'.entries = r.entries) : Follows t r'
  | arranged {t u r} (h : Follows t r) (hp : t.entries.Perm u.entries) : Follows u r

variable {t u : Hashed} {r r' : Registry σ}

theorem Follows.register [SignalSource σ] {source : σ} (h : Follows t r)
    (hr : r.register source = .accepted r') : ∃ flags subscribed,
      Registry.readFlags source (SignalSource.paths source) = .ok flags ∧
      SignalSource.subscribe (SignalSource.takeStream source).2 (SignalSource.paths source) =
        .ok subscribed ∧
      Follows (t.enter flags r.members.length
        (Registry.firstValues subscribed (SignalSource.paths source))) r' := by
  obtain ⟨flags, subscribed, -, hf, hs, rfl⟩ := Registry.register_eq_accepted hr
  exact ⟨flags, subscribed, hf, hs, h.registered flags _ _ _⟩

section Holding

variable {entries : Table String Entry}

theorem Holds.insert (h : t.Holds entries) (path : String) (e : Entry) :
    Holds (t.insert path ⟨path, e⟩) (entries.insert path e) := by
  intro other
  rw [Table.find?_insert]
  by_cases ho : other = path
  · rw [ho, AList.lookup_insert, if_pos rfl]
    rfl
  · rw [AList.lookup_insert_ne ho, if_neg ho, h]

theorem Holds.enter (h : t.Holds entries) (flags : List PathFlags) (owner : Nat) (values : Values) :
    Holds (t.enter flags owner values) (flags.foldl (fun entries f =>
      entries.insert f.path (Registry.firstEntry f owner (values.find? f.path))) entries) := by
  induction flags generalizing t entries with
  | nil => exact h
  | cons f flags ih => exact ih (h.insert f.path _)

theorem lookup_hear (t : Hashed) (owner seq : Nat) (row : String × SignalValue) (path : String) :
    (t.hear owner seq row).lookup path = if path = row.1 then
      (t.lookup path).map fun x => { x with entry := x.entry.hear owner seq (some row.2) }
      else t.lookup path := by
  unfold hear
  cases hx : t.lookup row.1 with
  | none =>
    by_cases hp : path = row.1
    · rw [if_pos hp, hp, hx]
      rfl
    · rw [if_neg hp]
  | some x =>
    by_cases hp : path = row.1
    · rw [if_pos hp, hp, hx]
      exact AList.lookup_insert t
    · rw [if_neg hp]
      exact AList.lookup_insert_ne hp

theorem lookup_foldl_hear (t : Hashed) (owner seq : Nat) {rows : List (String × SignalValue)}
    (hd : (rows.map (·.1)).Nodup) (path : String) :
    (rows.foldl (fun t row => t.hear owner seq row) t).lookup path =
      (t.lookup path).map fun x => { x with entry := x.entry.hear owner seq (rows.lookup path) } := by
  induction rows generalizing t with
  | nil => exact Option.map_id_apply.symm
  | cons row rows ih =>
    obtain ⟨hnew, hd⟩ := List.nodup_cons.mp hd
    rw [List.foldl_cons, ih _ hd, lookup_hear, Table.lookup_cons_eq_ite]
    by_cases hp : path = row.1
    · -- the rows after it do not tell of the path again
      have hnone : rows.lookup path = none := by
        rw [List.lookup_eq_none_iff]
        intro other hother
        have hne : path ≠ other.1 := by
          intro he
          have hm : other.1 ∈ rows.map (·.1) := List.mem_map_of_mem hother
          rw [← he, hp] at hm
          exact hnew hm
        simpa using hne
      rw [if_pos hp, if_pos hp, hnone, Option.map_map]
      rfl
    · rw [if_neg hp, if_neg hp]

theorem Holds.apply (h : t.Holds r.entries) (owner seq : Nat) (values : Values) :
    Holds (t.apply owner seq values) (r.apply owner seq values).entries := by
  intro path
  have hd : (values.toList.map (·.1)).Nodup := values.keys_nodup
  rw [Hashed.apply, lookup_foldl_hear t owner seq hd, Registry.find?_apply, h, Option.map_map,
    Option.map_map]
  rfl

theorem Holds.arranged (h : t.Holds entries) (hp : t.entries.Perm u.entries) : u.Holds entries := by
  intro path
  rw [← AList.perm_lookup hp, h]

def ofTable (entries : Table String Entry) : Hashed :=
  ⟨entries.toList.map fun row => ⟨row.1, row.1, row.2⟩, by
    rw [List.NodupKeys, List.keys, List.map_map]
    exact entries.keys_nodup⟩

theorem holds_ofTable (entries : Table String Entry) : (ofTable entries).Holds entries := by
  intro path
  cases he : entries.find? path with
  | some e =>
    refine AList.mem_lookup_iff.mpr (List.mem_map.mpr ⟨(path, e), ?_, rfl⟩)
    exact (entries.mem_toList_iff path e).mpr he
  | none =>
    refine Option.eq_none_iff_forall_ne_some.mpr fun x hx => ?_
    obtain ⟨row, hrow, heq⟩ := List.mem_map.mp (AList.mem_lookup_iff.mp hx)
    cases heq
    rw [(entries.mem_toList_iff _ _).mp hrow] at he
    cases he

end Holding

theorem Follows.holds (h : Follows t r) : t.Holds r.entries := by
  induction h with
  | empty => exact fun _ => rfl
  | registered flags values member timer _ ih => exact ih.enter flags _ values
  | applied owner seq values _ ih => exact ih.apply owner seq values
  | aside _ he ih => rwa [he]
  | arranged _ hp ih => exact ih.arranged hp

section Matching

variable {entries : Table String Entry} {p : Pattern}

def Lists (items : List Named) (entries : Table String Entry) : Prop :=
  ∀ x, x ∈ items ↔ entries.find? x.path = some x.entry

theorem Holds.lists_items (h : t.Holds entries) : Lists t.items entries := by
  intro x
  constructor
  · intro hx
    obtain ⟨row, hrow, rfl⟩ := List.mem_map.mp hx
    have hl : t.lookup row.1 = some row.2 := AList.mem_lookup_iff.mpr hrow
    rw [h] at hl
    obtain ⟨e, he, hnamed⟩ := Option.map_eq_some_iff.mp hl
    rw [← hnamed]
    exact he
  · intro he
    have hl : t.lookup x.path = some x := by rw [h, he]; rfl
    exact List.mem_map.mpr ⟨⟨x.path, x⟩, AList.mem_lookup_iff.mp hl, rfl⟩

theorem Holds.path_eq (h : t.Holds entries) {path : String} {x : Named}
    (hx : t.lookup path = some x) : x.path = path := by
  rw [h] at hx
  obtain ⟨e, -, rfl⟩ := Option.map_eq_some_iff.mp hx
  rfl

theorem Holds.paths_items (h : t.Holds entries) : t.items.map (·.path) = t.keys := by
  rw [items, List.map_map]
  refine List.map_congr_left fun row hrow => ?_
  exact h.path_eq (AList.mem_lookup_iff.mpr hrow)

theorem Holds.paths_nodup (h : t.Holds entries) : (t.items.map (·.path)).Nodup :=
  h.paths_items ▸ t.keys_nodup

theorem Holds.lookup_text (h : t.Holds entries) (hp : p.isLiteral = true) :
    (t.lookup p.text).toList = t.items.filter fun x => p.matches x.path := by
  have hfound : ∀ x, x ∈ (t.items.filter fun x => p.matches x.path) ↔ t.lookup p.text = some x := by
    intro x
    rw [List.mem_filter, Pattern.matches_iff_eq_text hp, h.lists_items, h]
    constructor
    · rintro ⟨hx, hpath⟩
      rw [← hpath, hx]
      rfl
    · intro hx
      obtain ⟨e, he, rfl⟩ := Option.map_eq_some_iff.mp hx
      exact ⟨he, rfl⟩
  cases hl : t.lookup p.text with
  | none =>
    refine (List.eq_nil_iff_forall_not_mem.mpr fun x hx => ?_).symm
    rw [hfound, hl] at hx
    cases hx
  | some x =>
    -- no item is there twice, so the one that is found is all there is
    have hnodup : (t.items.filter fun x => p.matches x.path).Nodup :=
      (List.Nodup.of_map _ h.paths_nodup).filter _
    have hperm := (List.perm_ext_iff_of_nodup hnodup (List.nodup_singleton x)).mpr fun y => by
      rw [hfound, hl, List.mem_singleton, Option.some.injEq, eq_comm]
    exact (List.perm_singleton.mp hperm).symm

theorem Holds.matching_eq (h : t.Holds entries) (p : Pattern) :
    t.matching p = t.items.filter fun x => p.matches x.path := by
  unfold matching
  split
  · next hp => exact h.lookup_text hp
  · rfl

theorem Lists.filter {items : List Named} (h : Lists items entries) (q : String → Entry → Bool) :
    Lists (items.filter fun x => q x.path x.entry) (entries.filter q) := by
  intro x
  rw [List.mem_filter, h, Table.find?_filter, Option.filter_eq_some_iff]

theorem Holds.lists_matching (h : t.Holds r.entries) (p : Pattern) :
    Lists (t.matching p) (r.matching p) := by
  rw [h.matching_eq, r.matching_eq_filter]
  exact h.lists_items.filter fun path _ => p.matches path

theorem Lists.perm_rows {items : List Named} (h : Lists items entries) (hd : (items.map (·.path)).Nodup) :
    (items.map fun x => (x.path, x.entry)).Perm entries.toList := by
  have hitems : (items.map fun x => (x.path, x.entry)).Nodup := by
    refine List.Nodup.of_map (·.1) ?_
    rwa [List.map_map]
  have hkeys : (entries.toList.map (·.1)).Nodup := entries.keys_nodup
  have hrows : entries.toList.Nodup := List.Nodup.of_map _ hkeys
  refine (List.perm_ext_iff_of_nodup hitems hrows).mpr fun row => ?_
  rw [Table.mem_toList_iff entries row.1 row.2, ← h ⟨row.1, row.2⟩, List.mem_map]
  constructor
  · rintro ⟨x, hx, rfl⟩
    exact hx
  · intro hx
    exact ⟨⟨row.1, row.2⟩, hx, rfl⟩

end Matching

/-- However the table lies after some registrations, every entry has been put under its own path, and a
pattern matches the entries whose paths it accepts, each of them once. For a pattern without wildcards
one look under its text finds them. -/
theorem matching_exact (h : Follows t r) {pattern : String} {p : Pattern}
    (hp : Pattern.ofText pattern = .ok p) :
    (∀ path x, t.lookup path = some x → x.path = path) ∧
    t.matching p = (t.items.filter fun x => p.matches x.path) ∧
    (p.isLiteral = true →
      (t.lookup pattern).toList = t.items.filter fun x => p.matches x.path) ∧
    r.matching p = (r.entries.filter fun path _ => p.matches path) ∧
    ((t.matching p).map fun x => (x.path, x.entry)).Perm (r.matching p).toList := by
  have hholds := h.holds
  obtain rfl := Pattern.text_of_ofText hp
  refine ⟨fun _ _ => hholds.path_eq, hholds.matching_eq p, hholds.lookup_text,
    r.matching_eq_filter p, (hholds.lists_matching p).perm_rows ?_⟩
  rw [hholds.matching_eq]
  exact hholds.paths_nodup.sublist (List.filter_sublist.map _)

def oddities : Adapter :=
  ⟨(((Store.ofName "oddities").declare "Trunk.Lid" ⟨.bool false, true, false⟩).declare
    "Trunk..Lid" ⟨.bool true, true, false⟩).declare "*" ⟨.null, true, false⟩, .memory⟩

theorem matching_exact_oddities : ∃ (t : Hashed) (r : Registry Adapter) (p : Pattern),
    Registry.empty.register oddities = .accepted r ∧ Follows t r ∧
    t.items.map (·.path) = ["Trunk.Lid", "Trunk..Lid", "*"] ∧
    Pattern.ofText "Trunk.Lid" = .ok p ∧ p.isLiteral = true ∧
    ((t.lookup "Trunk.Lid").toList = t.items.filter fun x => p.matches x.path) ∧
    (t.items.filter fun x => p.matches x.path).map (·.path) = ["Trunk.Lid"] := by
  let p : Pattern := ⟨"Trunk.Lid", [.literal "Trunk", .literal "Lid"], rfl⟩
  have hp : Pattern.ofText "Trunk.Lid" = .ok p := p.ofText_text
  have hr : Registry.empty.register oddities = .accepted _ := rfl
  obtain ⟨flags, subscribed, hf, hs, h⟩ := Follows.empty.register hr
  cases hf
  cases hs
  obtain ⟨-, -, hlookup, -⟩ := matching_exact h hp
  exact ⟨_, _, p, hr, h, rfl, hp, rfl, hlookup rfl, rfl⟩

end Hashed

end SignalBroker
