import SignalBroker.Proofs.Broker.Ownership
import SignalBroker.Proofs.Broker.TakingOver

namespace SignalBroker

namespace Registry

variable {r r' : Registry Adapter} {a a' : Adapter}

def Lists (r : Registry Adapter) (k : Nat) (path : String) : Prop :=
  ∃ m : Member Adapter, r.members[k]? = some m ∧ path ∈ SignalSource.paths m.source

/-- Entries and the lists of the members agree. -/
structure Divided (r : Registry Adapter) : Prop where
  owner : ∀ path e, r.entries.find? path = some e → ∃ m : Member Adapter,
    r.members[e.owner]? = some m ∧ path ∈ SignalSource.paths m.source ∧
      SignalSource.isPublic m.source path = .ok e.isPublic ∧
      SignalSource.isReadOnly m.source path = .ok e.isReadOnly
  union : ∀ path, (∃ e, r.entries.find? path = some e) ↔ ∃ k, r.Lists k path
  unique : ∀ path j k, r.Lists j path → r.Lists k path → j = k

/-- The first path that a source shares with those that are registered, and the name of its owner. -/
structure FirstShared (r : Registry Adapter) (a : Adapter) (path owner : String) : Prop where
  listed : path ∈ SignalSource.paths a
  owned : ∃ (k : Nat) (m : Member Adapter), r.members[k]? = some m ∧
    path ∈ SignalSource.paths m.source ∧ SignalSource.name m.source = owner
  least : ∀ other ∈ SignalSource.paths a, (∃ k, r.Lists k other) → path ≤ other

def Partitioned (r : Registry Adapter) : Prop :=
  ∀ path t, r.title? path = some t ↔
    ∃ p : Profile, r.profiles[t.owner]? = some p ∧ p.flags.find? path = some t.flags

theorem partitioned_empty : (empty : Registry Adapter).Partitioned := by
  intro path t
  refine ⟨nofun, ?_⟩
  rintro ⟨p, hp, -⟩
  cases hp

theorem Stays.partitioned (h : r.Stays r') (hr : r.Partitioned) : r'.Partitioned := by
  intro path t
  rw [h.title?, h.profiles]
  exact hr path t

section Profiles

variable {path : String}

theorem mem_paths_iff : path ∈ SignalSource.paths a ↔ ∃ f, a.profile.flags.find? path = some f := by
  show path ∈ a.store.signals.keys ↔ _
  rw [Table.mem_keys_iff, Option.isSome_iff_exists, Adapter.profile, Table.find?_map]
  constructor
  · rintro ⟨signal, hs⟩
    exact ⟨_, Option.map_eq_some_iff.mpr ⟨signal, hs, rfl⟩⟩
  · rintro ⟨f, hf⟩
    obtain ⟨signal, hs, -⟩ := Option.map_eq_some_iff.mp hf
    exact ⟨signal, hs⟩

theorem flags_of_profile {f : Flags} (h : a.profile.flags.find? path = some f) :
    SignalSource.isPublic a path = .ok f.isPublic ∧
      SignalSource.isReadOnly a path = .ok f.isReadOnly := by
  rw [Adapter.profile, Table.find?_map] at h
  obtain ⟨signal, hs, rfl⟩ := Option.map_eq_some_iff.mp h
  exact ⟨Adapter.isPublic_eq_ok_iff.mpr ⟨signal, hs, rfl⟩,
    Adapter.isReadOnly_eq_ok_iff.mpr ⟨signal, hs, rfl⟩⟩

theorem lists_iff {k : Nat} : r.Lists k path ↔
    ∃ p f, r.profiles[k]? = some p ∧ p.flags.find? path = some f := by
  constructor
  · rintro ⟨m, hm, hpath⟩
    obtain ⟨f, hf⟩ := mem_paths_iff.mp hpath
    exact ⟨_, f, getElem?_profiles_eq_some_iff.mpr ⟨m, hm, rfl⟩, hf⟩
  · rintro ⟨p, f, hp, hf⟩
    obtain ⟨m, hm, rfl⟩ := getElem?_profiles_eq_some_iff.mp hp
    exact ⟨m, hm, mem_paths_iff.mpr ⟨f, hf⟩⟩

theorem Partitioned.lists_iff (h : r.Partitioned) {k : Nat} :
    r.Lists k path ↔ ∃ t, r.title? path = some t ∧ t.owner = k := by
  rw [Registry.lists_iff]
  constructor
  · rintro ⟨p, f, hp, hf⟩
    exact ⟨⟨k, f⟩, (h path ⟨k, f⟩).mpr ⟨p, hp, hf⟩, rfl⟩
  · rintro ⟨t, ht, rfl⟩
    obtain ⟨p, hp, hf⟩ := (h path t).mp ht
    exact ⟨p, t.flags, hp, hf⟩

theorem Partitioned.exists_entry_iff (h : r.Partitioned) :
    (∃ e, r.entries.find? path = some e) ↔ ∃ k, r.Lists k path := by
  simp only [h.lists_iff, title?_eq_some_iff]
  constructor
  · rintro ⟨e, he⟩
    exact ⟨e.owner, e.title, ⟨e, he, rfl⟩, rfl⟩
  · rintro ⟨k, t, ⟨e, he, -⟩, -⟩
    exact ⟨e, he⟩

theorem Partitioned.divided (h : r.Partitioned) : r.Divided where
  owner path e he := by
    obtain ⟨p, hp, hf⟩ := (h path e.title).mp (title?_eq_some_iff.mpr ⟨e, he, rfl⟩)
    obtain ⟨m, hm, rfl⟩ := getElem?_profiles_eq_some_iff.mp hp
    exact ⟨m, hm, mem_paths_iff.mpr ⟨_, hf⟩, flags_of_profile hf⟩
  union path := h.exists_entry_iff
  unique path j k hj hk := by
    obtain ⟨t, ht, rfl⟩ := h.lists_iff.mp hj
    obtain ⟨u, hu, rfl⟩ := h.lists_iff.mp hk
    cases ht.symm.trans hu
    rfl

end Profiles

section Registering

theorem profiles_of_enrolled {m : Member Adapter} (h : r.Enrolled r' a m) :
    r'.profiles = r.profiles ++ [a.profile] := by
  have hprofile : m.source.profile = a.profile := by
    rw [Adapter.profile, Adapter.profile, h.name]
    congr 1
    ext path : 1
    rw [Table.find?_map, Table.find?_map, h.signals, Option.map_map]
    rfl
  rw [profiles, h.members, List.map_append, List.map_singleton, hprofile]
  rfl

theorem title?_of_enrolled {m : Member Adapter} (h : r.Enrolled r' a m) (path : String) :
    r'.title? path =
      ((a.profile.flags.find? path).map fun f => ⟨r.profiles.length, f⟩).or (r.title? path) := by
  rw [title?, title?, h.entries, Adapter.profile, Table.find?_map, profiles, List.length_map]
  cases a.store.signals.find? path <;> rfl

theorem title?_eq_none_of_enrolled {m : Member Adapter} (h : r.Enrolled r' a m) {path : String}
    (hpath : path ∈ SignalSource.paths a) : r.title? path = none := by
  obtain ⟨signal, hs⟩ := Table.exists_of_mem_keys hpath
  rw [title?, h.isNew path signal hs]
  rfl

theorem partitioned_of_enrolled {m : Member Adapter} (h : r.Enrolled r' a m) (hr : r.Partitioned) :
    r'.Partitioned := by
  intro path t
  rw [title?_of_enrolled h, profiles_of_enrolled h, Option.or_eq_some_iff]
  constructor
  · rintro (hnew | ⟨-, hold⟩)
    · obtain ⟨f, hf, rfl⟩ := Option.map_eq_some_iff.mp hnew
      exact ⟨a.profile, List.getElem?_concat_length, hf⟩
    · obtain ⟨p, hp, hf⟩ := (hr path t).mp hold
      have hlt := (List.getElem?_eq_some_iff.mp hp).1
      exact ⟨p, (List.getElem?_append_left hlt).trans hp, hf⟩
  · rintro ⟨p, hp, hf⟩
    obtain hlt | heq | hgt := Nat.lt_trichotomy t.owner r.profiles.length
    · rw [List.getElem?_append_left hlt] at hp
      have hold := (hr path t).mpr ⟨p, hp, hf⟩
      refine .inr ⟨?_, hold⟩
      rw [Option.map_eq_none_iff, Option.eq_none_iff_forall_ne_some]
      intro f hmine
      have hnone := title?_eq_none_of_enrolled h (mem_paths_iff.mpr ⟨f, hmine⟩)
      rw [hnone] at hold
      cases hold
    · rw [heq, List.getElem?_concat_length] at hp
      cases hp
      exact .inl (Option.map_eq_some_iff.mpr ⟨t.flags, hf, by rw [← heq]⟩)
    · rw [List.getElem?_eq_none (by simpa using hgt)] at hp
      cases hp

end Registering

section Refusing

theorem exists_readFlags (a : Adapter) : ∃ flags, readFlags a (SignalSource.paths a) = .ok flags := by
  apply exists_mapM_eq_ok
  intro path hpath
  obtain ⟨f, hf⟩ := mem_paths_iff.mp hpath
  obtain ⟨hpublic, hlocked⟩ := flags_of_profile hf
  exact ⟨_, bind_eq_ok_iff.mpr ⟨_, hpublic, bind_eq_ok_iff.mpr ⟨_, hlocked, rfl⟩⟩⟩

/-- An adapter is taken over unless one of its paths is registered, and it is given back as it was. -/
theorem register_cases (r : Registry Adapter) (a : Adapter) :
    (r.conflict? (SignalSource.paths a) = none ∧ ∃ r', r.register a = .accepted r') ∨
      ∃ e, r.conflict? (SignalSource.paths a) = some e ∧ r.register a = .refused e a := by
  cases hc : r.conflict? (SignalSource.paths a) with
  | some e =>
    refine .inr ⟨e, rfl, ?_⟩
    simp only [register, hc]
  | none =>
    obtain ⟨flags, hf⟩ := exists_readFlags a
    obtain ⟨store, hs⟩ := (a.store.withTaken true).exists_subscribe_paths
    have hsub : SignalSource.subscribe (SignalSource.takeStream a).2 (SignalSource.paths a) =
        .ok { (SignalSource.takeStream a).2 with store } := bind_eq_ok_iff.mpr ⟨store, hs, rfl⟩
    refine .inl ⟨rfl, ?_⟩
    simp only [register, hc, hf, hsub]
    exact ⟨_, rfl⟩

/-- The paths of an adapter come in ascending order, so the first conflict is at the least path. -/
theorem conflict?_eq_some {e : BrokerError} (h : r.conflict? (SignalSource.paths a) = some e) :
    ∃ path en, path ∈ SignalSource.paths a ∧ r.entries.find? path = some en ∧
      e = .duplicatePath path (r.nameOf en.owner) ∧
      ∀ other ∈ SignalSource.paths a, (∃ en, r.entries.find? other = some en) → path ≤ other := by
  obtain ⟨before, path, after, hsplit, hpath, hbefore⟩ := List.findSome?_eq_some_iff.mp h
  obtain ⟨en, hen, rfl⟩ := Option.map_eq_some_iff.mp hpath
  have hasc : (before ++ path :: after).Pairwise (· < ·) := by
    rw [← hsplit]
    exact List.pairwise_map.mpr a.store.signals.ascending
  have hlater := (List.pairwise_cons.mp (List.pairwise_append.mp hasc).2.1).1
  refine ⟨path, en, by simp [hsplit], hen, rfl, ?_⟩
  rintro other hother ⟨en', hen'⟩
  rw [hsplit] at hother
  obtain hfront | hback := List.mem_append.mp hother
  · have hnone := hbefore other hfront
    simp [hen'] at hnone
  · obtain rfl | hback := List.mem_cons.mp hback
    · exact Std.le_refl _
    · exact Std.le_of_lt (hlater other hback)

theorem firstShared_of_conflict? (hr : r.Partitioned) {e : BrokerError}
    (h : r.conflict? (SignalSource.paths a) = some e) :
    ∃ path owner, e = .duplicatePath path owner ∧ r.FirstShared a path owner := by
  obtain ⟨path, en, hpath, hen, rfl, hleast⟩ := conflict?_eq_some h
  obtain ⟨m, hm, hlisted, -⟩ := hr.divided.owner path en hen
  refine ⟨path, _, rfl, hpath, ⟨en.owner, m, hm, hlisted, ?_⟩, ?_⟩
  · rw [nameOf, hm]
    rfl
  · intro other hother hlists
    exact hleast other hother (hr.exists_entry_iff.mpr hlists)

theorem conflict?_eq_none_iff_unlisted (hr : r.Partitioned) :
    r.conflict? (SignalSource.paths a) = none ↔
      ∀ path ∈ SignalSource.paths a, ¬ ∃ k, r.Lists k path := by
  rw [conflict?_eq_none_iff]
  simp only [← hr.exists_entry_iff, not_exists, Option.eq_none_iff_forall_ne_some]

end Refusing

end Registry

end SignalBroker
