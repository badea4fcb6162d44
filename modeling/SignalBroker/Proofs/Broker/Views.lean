import Mathlib.Data.Finset.Dedup
import SignalBroker.Proofs.Broker.Hashed
import SignalBroker.Proofs.Broker.Targets

namespace SignalBroker

namespace Registry

variable {σ : Type}

inductive Unreadable (r : Registry σ) (rights : Rights) (pattern : String) : BrokerError → Prop where
  | malformed {e} (hp : Pattern.ofText pattern = .error e) :
    Unreadable r rights pattern (.invalidPattern e)
  | unmatched {p} (hp : Pattern.ofText pattern = .ok p) (hm : ∀ path, ¬ r.Matched p path) :
    Unreadable r rights pattern (.pathNotFound pattern)
  | hidden {p path} (hp : Pattern.ofText pattern = .ok p) (hm : r.Matched p path)
    (hr : ∀ path, ¬ r.Readable rights p path) :
    Unreadable r rights pattern
      (if rights.authorized then .forbidden pattern else .notAuthorized pattern)

variable {r : Registry σ} {p : Pattern} {rights : Rights} {pattern path : String} {e e' : BrokerError}

theorem Readable.matched (h : r.Readable rights p path) : r.Matched p path := by
  obtain ⟨entry, he, hm, -⟩ := h
  exact ⟨entry, he, hm⟩

theorem Unreadable.unique (h : r.Unreadable rights pattern e) (h' : r.Unreadable rights pattern e') :
    e = e' := by
  cases h with
  | malformed hp =>
    cases h' with
    | malformed hp' =>
      cases hp.symm.trans hp'
      rfl
    | unmatched hp' => cases hp.symm.trans hp'
    | hidden hp' => cases hp.symm.trans hp'
  | unmatched hp hm =>
    cases h' with
    | malformed hp' => cases hp.symm.trans hp'
    | unmatched => rfl
    | hidden hp' hm' =>
      cases hp.symm.trans hp'
      exact absurd hm' (hm _)
  | hidden hp hm =>
    cases h' with
    | malformed hp' => cases hp.symm.trans hp'
    | unmatched hp' hm' =>
      cases hp.symm.trans hp'
      exact absurd hm (hm' _)
    | hidden => rfl

theorem Unreadable.not_readable (h : r.Unreadable rights pattern e)
    (hp : Pattern.ofText pattern = .ok p) (path : String) : ¬ r.Readable rights p path := by
  intro hread
  cases h with
  | malformed hp' => cases hp.symm.trans hp'
  | unmatched hp' hm =>
    cases hp.symm.trans hp'
    exact hm path hread.matched
  | hidden hp' _ hr =>
    cases hp.symm.trans hp'
    exact hr path hread

theorem readable_cases (rights : Rights) (hp : Pattern.ofText pattern = .ok p) :
    (∃ e, r.Unreadable rights pattern e ∧ r.readable p rights = .error e) ∨
      (∃ path, r.Readable rights p path) ∧ r.readable p rights = .ok (r.visible p rights) := by
  obtain rfl := Pattern.text_of_ofText hp
  unfold readable
  by_cases hmatched : (r.matching p).isEmpty = true
  · rw [if_pos hmatched]
    exact .inl ⟨_, .unmatched hp (matching_isEmpty_iff.mp hmatched), rfl⟩
  · rw [if_neg hmatched]
    rw [matching_isEmpty_iff, not_forall_not] at hmatched
    obtain ⟨path, hm⟩ := hmatched
    by_cases hvisible : (r.visible p rights).isEmpty = true
    · rw [if_pos hvisible]
      exact .inl ⟨_, .hidden hp hm (visible_isEmpty_iff.mp hvisible), rfl⟩
    · rw [if_neg hvisible]
      rw [visible_isEmpty_iff, not_forall_not] at hvisible
      exact .inr ⟨hvisible, rfl⟩

section Reading

variable {α : Type}

def reading (r : Registry σ) (pattern : String) (rights : Rights)
    (f : Pattern → Table String Entry → α) : Except BrokerError α := do
  let p ← compile pattern
  let entries ← r.readable p rights
  return f p entries

variable {f : Pattern → Table String Entry → α}

theorem reading_eq_map (hp : Pattern.ofText pattern = .ok p) :
    r.reading pattern rights f = (r.readable p rights).map (f p) := by
  have hc : compile pattern = .ok p := compile_eq_ok_iff.mpr hp
  rw [reading, hc]
  show (r.readable p rights >>= fun entries => .ok (f p entries)) = _
  cases r.readable p rights <;> rfl

theorem reading_cases (r : Registry σ) (pattern : String) (rights : Rights)
    (f : Pattern → Table String Entry → α) :
    (∃ e, r.Unreadable rights pattern e ∧ r.reading pattern rights f = .error e) ∨
      ∃ p, Pattern.ofText pattern = .ok p ∧ (∃ path, r.Readable rights p path) ∧
        r.reading pattern rights f = .ok (f p (r.visible p rights)) := by
  cases hp : Pattern.ofText pattern with
  | error e =>
    have hc : compile pattern = .error (.invalidPattern e) := by rw [compile, hp]; rfl
    exact .inl ⟨_, .malformed hp, by rw [reading, hc]; rfl⟩
  | ok p =>
    rw [reading_eq_map hp]
    obtain ⟨e, he, hr⟩ | ⟨hsome, hr⟩ := readable_cases rights hp
    · exact .inl ⟨e, he, by rw [hr]; rfl⟩
    · exact .inr ⟨p, rfl, hsome, by rw [hr]; rfl⟩

theorem reading_eq_error_iff :
    r.reading pattern rights f = .error e ↔ r.Unreadable rights pattern e := by
  obtain ⟨e', he', hr⟩ | ⟨p, hp, ⟨path, hread⟩, hr⟩ := r.reading_cases pattern rights f
  · rw [hr, Except.error.injEq]
    constructor
    · rintro rfl
      exact he'
    · exact he'.unique
  · rw [hr]
    refine iff_of_false nofun fun he => ?_
    exact he.not_readable hp path hread

theorem map_reading {β : Type} (g : α → β) : (r.reading pattern rights f).map g =
    r.reading pattern rights fun p entries => g (f p entries) := by
  unfold reading
  cases compile pattern with
  | error e => rfl
  | ok p =>
    show (r.readable p rights >>= fun entries => .ok (f p entries)).map g =
      (r.readable p rights >>= fun entries => .ok (g (f p entries)))
    cases r.readable p rights <;> rfl

end Reading

end Registry

namespace Hashed

variable {σ : Type} {t : Hashed} {r : Registry σ} {items : List Named} {entries : Table String Entry}

def visible (t : Hashed) (p : Pattern) (rights : Rights) : List Named :=
  (t.matching p).filter fun x => rights.canRead x.path x.entry.isPublic

def readable (t : Hashed) (p : Pattern) (rights : Rights) : Except BrokerError (List Named) :=
  if (t.matching p).isEmpty then .error (.pathNotFound p.text)
  else if (t.visible p rights).isEmpty then .error (rights.denial p.text)
  else .ok (t.visible p rights)

def reading {α : Type} (t : Hashed) (pattern : String) (rights : Rights)
    (g : Pattern → List Named → α) : Except BrokerError α := do
  let p ← Registry.compile pattern
  let items ← t.readable p rights
  return g p items

def get (t : Hashed) (pattern : String) (rights : Rights) : Except BrokerError Values :=
  t.reading pattern rights fun _ items => .ofList (items.map fun x => (x.path, x.entry.value))

def readablePaths (t : Hashed) (pattern : String) (rights : Rights) :
    Except BrokerError (Pattern × Finset String) :=
  t.reading pattern rights fun p items => (p, (items.map (·.path)).toFinset)

def visiblePaths (t : Hashed) (p : Pattern) (rights : Rights) : Finset String :=
  ((t.visible p rights).map (·.path)).toFinset

theorem Lists.isEmpty (h : Lists items entries) : items.isEmpty = entries.isEmpty := by
  rw [Bool.eq_iff_iff, List.isEmpty_iff, List.eq_nil_iff_forall_not_mem, Table.isEmpty_iff]
  constructor
  · intro hnone path
    refine Option.eq_none_iff_forall_ne_some.mpr fun e he => ?_
    exact hnone ⟨path, e⟩ ((h _).mpr he)
  · intro hnone x hx
    have he := (h x).mp hx
    rw [hnone] at he
    cases he

theorem Lists.ofList (h : Lists items entries) :
    (.ofList (items.map fun x => (x.path, x.entry.value)) : Values) =
      entries.map fun _ e => e.value := by
  ext path : 1
  rw [Table.ofList, List.foldl_map, Table.find?_map]
  cases he : entries.find? path with
  | some e =>
    -- items of one path are one item, so it does not matter which of them comes last
    refine Table.find?_foldl_insert_of_mem _ _ items .empty ((h ⟨path, e⟩).mpr he) ?_
    intro x hx (hpath : x.path = path)
    have hentry := (h x).mp hx
    rw [hpath, he, Option.some.injEq] at hentry
    rw [hentry]
  | none =>
    refine Table.find?_foldl_insert_of_not_mem _ _ items .empty ?_
    intro hm
    obtain ⟨x, hx, rfl⟩ := List.mem_map.mp hm
    rw [(h x).mp hx] at he
    cases he

theorem Lists.paths (h : Lists items entries) :
    (items.map (·.path)).toFinset = entries.keys.toFinset := by
  ext path
  rw [List.mem_toFinset, List.mem_toFinset, Table.mem_keys_iff, Option.isSome_iff_exists,
    List.mem_map]
  constructor
  · rintro ⟨x, hx, rfl⟩
    exact ⟨x.entry, (h x).mp hx⟩
  · rintro ⟨e, he⟩
    exact ⟨⟨path, e⟩, (h _).mpr he, rfl⟩

theorem Holds.lists_visible (h : t.Holds r.entries) (p : Pattern) (rights : Rights) :
    Lists (t.visible p rights) (r.visible p rights) :=
  (h.lists_matching p).filter fun path e => rights.canRead path e.isPublic

theorem Holds.readable_cases (h : t.Holds r.entries) (p : Pattern) (rights : Rights) :
    (∃ e, t.readable p rights = .error e ∧ r.readable p rights = .error e) ∨
      t.readable p rights = .ok (t.visible p rights) ∧
        r.readable p rights = .ok (r.visible p rights) := by
  unfold readable Registry.readable
  rw [(h.lists_matching p).isEmpty, (h.lists_visible p rights).isEmpty]
  split
  · exact .inl ⟨_, rfl, rfl⟩
  · split
    · exact .inl ⟨_, rfl, rfl⟩
    · exact .inr ⟨rfl, rfl⟩

theorem Holds.reading_eq {α : Type} (h : t.Holds r.entries) (pattern : String) (rights : Rights)
    {g : Pattern → List Named → α} {f : Pattern → Table String Entry → α}
    (hfg : ∀ p items entries, Lists items entries → g p items = f p entries) :
    t.reading pattern rights g = r.reading pattern rights f := by
  unfold reading Registry.reading
  cases Registry.compile pattern with
  | error e => rfl
  | ok p =>
    show (t.readable p rights >>= _) = (r.readable p rights >>= _)
    obtain ⟨e, ht, hr⟩ | ⟨ht, hr⟩ := h.readable_cases p rights
    · rw [ht, hr]
      rfl
    · rw [ht, hr]
      exact congrArg Except.ok (hfg p _ _ (h.lists_visible p rights))

end Hashed

namespace Registry

variable {σ : Type}

/-- What the values, the paths of a new subscription and those of an authorized one have in common: they
are of the paths that can be read, and where the first two fail there are none of the third. -/
structure Shown (r : Registry σ) (rights : Rights) (pattern : String) (p : Pattern) : Prop where
  get : ∀ values, r.get pattern rights = .ok values → ∀ path v, values.find? path = some v ↔
    r.Readable rights p path ∧ (r.entries.find? path).map (·.value) = some v
  readablePaths : ∀ q paths, r.readablePaths pattern rights = .ok (q, paths) →
    q = p ∧ ∀ path, path ∈ paths ↔ r.Readable rights p path
  visiblePaths : ∀ path, path ∈ r.visiblePaths p rights ↔ r.Readable rights p path
  fails : r.visiblePaths p rights = [] ↔ ∃ e, r.Unreadable rights pattern e

variable {r : Registry σ} {p : Pattern} {rights : Rights} {pattern : String}

theorem shown (hp : Pattern.ofText pattern = .ok p) : r.Shown rights pattern p where
  get values h path v := by
    constructor
    · intro hv
      obtain ⟨q, hq, hread, hcached⟩ := readable_of_get h hv
      cases hp.symm.trans hq
      exact ⟨hread, hcached⟩
    · rintro ⟨hread, hcached⟩
      obtain ⟨q, hq, rfl⟩ := get_eq_ok h
      cases hp.symm.trans hq
      obtain ⟨e, he⟩ := (r.readable_iff_visible p rights path).mp hread
      rw [find?_of_visible he] at hcached
      rw [Table.find?_map, he]
      exact hcached
  readablePaths q paths h := by
    obtain ⟨hq, rfl⟩ := readablePaths_eq_ok h
    cases hp.symm.trans hq
    exact ⟨rfl, r.mem_visiblePaths_iff p rights⟩
  visiblePaths := r.mem_visiblePaths_iff p rights
  fails := by
    rw [visiblePaths_eq_nil_iff]
    constructor
    · intro hnone
      obtain ⟨e, he, -⟩ | ⟨⟨path, hread⟩, -⟩ := readable_cases rights hp
      · exact ⟨e, he⟩
      · exact absurd hread (hnone path)
    · rintro ⟨e, he⟩
      exact he.not_readable hp

/-- What each of the three ways to read a registry gives, and when it fails. However the entries lie in a
table, they give the same. -/
theorem views_agree (r : Registry σ) (pattern : String) (rights : Rights) :
    (∀ e, r.get pattern rights = .error e ↔ r.Unreadable rights pattern e) ∧
    (∀ e, r.readablePaths pattern rights = .error e ↔ r.Unreadable rights pattern e) ∧
    (∀ p, Pattern.ofText pattern = .ok p → r.Shown rights pattern p) ∧
    ∀ t : Hashed, t.Holds r.entries → t.get pattern rights = r.get pattern rights ∧
      t.readablePaths pattern rights =
        (r.readablePaths pattern rights).map (fun x => (x.1, x.2.toFinset)) ∧
      ∀ p, t.visiblePaths p rights = (r.visiblePaths p rights).toFinset := by
  refine ⟨fun e => reading_eq_error_iff, fun e => reading_eq_error_iff, fun p hp => shown hp, ?_⟩
  intro t h
  refine ⟨?_, ?_, ?_⟩
  · exact h.reading_eq pattern rights fun _ _ _ hl => hl.ofList
  · refine (h.reading_eq pattern rights fun p _ _ hl => ?_).trans (map_reading _).symm
    rw [hl.paths]
  · intro p
    exact (h.lists_visible p rights).paths

def keptTrunk : Registry Unit :=
  { empty with entries := .ofList [
      ("Trunk.IsLit", ⟨.bool true, true, false, true, 0, 1⟩),
      ("Trunk.IsLocked", ⟨.bool false, false, false, true, 0, 2⟩),
      ("Trunk.Weight", ⟨.null, false, true, false, 1, 0⟩)] }

def keeper : Rights := .ofGrants (.ofTable (.ofList [("Trunk.IsLocked", .read)])) 60

theorem views_agree_keptTrunk : ∃ (p q : Pattern) (t : Hashed), t.Holds keptTrunk.entries ∧
    t.items.map (·.path) = ["Trunk.Weight", "Trunk.IsLocked", "Trunk.IsLit"] ∧
    Pattern.ofText "Trunk.*" = .ok p ∧ keptTrunk.Shown keeper "Trunk.*" p ∧
    keptTrunk.visiblePaths p keeper = ["Trunk.IsLit", "Trunk.IsLocked"] ∧
    t.visiblePaths p keeper = ["Trunk.IsLit", "Trunk.IsLocked"].toFinset ∧
    t.get "Trunk.*" keeper = .ok (.ofList
      [("Trunk.IsLit", .bool true), ("Trunk.IsLocked", .bool false)]) ∧
    Pattern.ofText "Trunk.Weight" = .ok q ∧ keptTrunk.visiblePaths q keeper = [] ∧
    keptTrunk.Unreadable keeper "Trunk.Weight" (.forbidden "Trunk.Weight") ∧
    t.readablePaths "Trunk.Weight" .none = .error (.notAuthorized "Trunk.Weight") := by
  let p : Pattern := ⟨"Trunk.*", [.literal "Trunk", .wildcard], rfl⟩
  let q : Pattern := ⟨"Trunk.Weight", [.literal "Trunk", .literal "Weight"], rfl⟩
  let t : Hashed := ⟨(Hashed.ofTable keptTrunk.entries).entries.reverse,
    (List.perm_nodupKeys (List.reverse_perm _)).mpr (Hashed.ofTable keptTrunk.entries).nodupKeys⟩
  have ht : t.Holds keptTrunk.entries :=
    (Hashed.holds_ofTable keptTrunk.entries).arranged (List.reverse_perm _).symm
  have hp : Pattern.ofText "Trunk.*" = .ok p := p.ofText_text
  have hq : Pattern.ofText "Trunk.Weight" = .ok q := q.ofText_text
  obtain ⟨-, -, hshown, hsame⟩ := views_agree keptTrunk "Trunk.*" keeper
  obtain ⟨hget, -, hvisible⟩ := hsame t ht
  obtain ⟨herror, -, -, -⟩ := views_agree keptTrunk "Trunk.Weight" keeper
  obtain ⟨-, -, -, hnobody⟩ := views_agree keptTrunk "Trunk.Weight" .none
  refine ⟨p, q, t, ht, rfl, hp, hshown p hp, rfl, (hvisible p).trans rfl, hget.trans rfl, hq, by decide,
    (herror _).mp rfl, (hnobody t ht).2.1.trans rfl⟩

end Registry

end SignalBroker
