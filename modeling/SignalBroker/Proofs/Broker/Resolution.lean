import SignalBroker.Proofs.Broker.Targets
import SignalBroker.Proofs.Signal.Conversion

namespace SignalBroker

namespace WriteRequest

variable {path : String} {pairs : List (String × SignalValue)} {v : SignalValue}

def LastFor (pairs : List (String × SignalValue)) (path : String) (v : SignalValue) : Prop :=
  ∃ before suffix after, pairs = before ++ (suffix, v) :: after ∧
    Path.endsWith path suffix = true ∧ ∀ later ∈ after, Path.endsWith path later.1 = false

theorem suffixValue?_eq_none_iff :
    suffixValue? path pairs = none ↔ ∀ pair ∈ pairs, Path.endsWith path pair.1 = false := by
  induction pairs with
  | nil => simp [suffixValue?]
  | cons pair rest ih =>
    rw [suffixValue?, Option.or_eq_none_iff, ih, List.forall_mem_cons]
    cases Path.endsWith path pair.1 <;> simp

theorem suffixValue?_eq_some_iff : suffixValue? path pairs = some v ↔ LastFor pairs path v := by
  induction pairs with
  | nil => simp [suffixValue?, LastFor]
  | cons pair rest ih =>
    rw [suffixValue?, Option.or_eq_some_iff, ih, suffixValue?_eq_none_iff]
    constructor
    · rintro (⟨before, suffix, after, rfl, hends, hafter⟩ | ⟨hnone, hpair⟩)
      · exact ⟨pair :: before, suffix, after, rfl, hends, hafter⟩
      · split at hpair
        · next hends =>
          cases hpair
          exact ⟨[], pair.1, rest, rfl, hends, hnone⟩
        · cases hpair
    · rintro ⟨before, suffix, after, hsplit, hends, hafter⟩
      obtain ⟨rfl, hpair⟩ | ⟨before, rfl, rfl⟩ := List.cons_eq_append_iff.mp hsplit
      · cases hpair
        exact .inr ⟨hafter, if_pos hends⟩
      · exact .inl ⟨before, suffix, after, rfl, hends, hafter⟩

theorem exists_lastFor_iff :
    (∃ v, LastFor pairs path v) ↔ ∃ pair ∈ pairs, Path.endsWith path pair.1 = true := by
  simp only [← suffixValue?_eq_some_iff, ← Option.isSome_iff_exists, ← Option.ne_none_iff_isSome]
  rw [ne_eq, suffixValue?_eq_none_iff]
  simp

structure ReadsAs (member : String × Json) (pair : String × SignalValue) : Prop where
  suffix : pair.1 = member.1
  named : member.1 ≠ ""
  value : pair.2.toJson = member.2

theorem readPair_eq_ok_iff {member : String × Json} {pair : String × SignalValue} :
    readPair member = .ok pair ↔ ReadsAs member pair := by
  obtain ⟨suffix, v⟩ := pair
  unfold readPair
  constructor
  · intro h
    split at h
    · cases h
    · next hne =>
      split at h
      · next hv =>
        cases h
        exact ⟨rfl, by simpa using hne, SignalValue.ofJson?_eq_some_iff.mp hv⟩
      · cases h
  · rintro ⟨rfl, hne, hv⟩
    rw [if_neg (by simpa using hne), SignalValue.ofJson?_eq_some_iff.mpr hv]

theorem mapM_suffixItem?_objects (members : List (String × Json)) :
    (members.map fun member => .object [member]).mapM suffixItem? = some members := by
  induction members with
  | nil => rfl
  | cons member members ih =>
    rw [List.map_cons, List.mapM_cons, ih]
    rfl

theorem ofJson_objects {members : List (String × Json)} (h : members ≠ []) :
    ofJson (.array (members.map fun member => .object [member])) =
      .suffixes <$> members.mapM readPair := by
  have hitems : suffixItems? (members.map fun member => .object [member]) = some members := by
    cases members with
    | nil => exact absurd rfl h
    | cons member members => exact mapM_suffixItem?_objects (member :: members)
  simp only [ofJson, Json.items?, Option.bind_some, hitems]

theorem ofJson_objects_eq_ok_iff {members : List (String × Json)} (h : members ≠ [])
    {request : WriteRequest} :
    ofJson (.array (members.map fun member => .object [member])) = .ok request ↔
      ∃ pairs, request = .suffixes pairs ∧ List.Forall₂ ReadsAs members pairs := by
  have hpairs : ∀ pairs, members.mapM readPair = .ok pairs ↔ List.Forall₂ ReadsAs members pairs := by
    intro pairs
    rw [mapM_eq_ok_iff]
    simp only [readPair_eq_ok_iff]
  rw [ofJson_objects h]
  constructor
  · intro hr
    obtain ⟨pairs, hread, hr⟩ := bind_eq_ok_iff.mp hr
    cases hr
    exact ⟨pairs, rfl, (hpairs pairs).mp hread⟩
  · rintro ⟨pairs, rfl, hall⟩
    rw [(hpairs pairs).mpr hall]
    rfl

end WriteRequest

namespace Registry

variable {entries others : List (String × Entry)} {targets : Table String Target}
  {pairs : List (String × SignalValue)}

def Hits (entries : List (String × Entry)) (suffix : String) : Prop :=
  ∃ row ∈ entries, Path.endsWith row.1 suffix = true

instance (suffix : String) : Decidable (Hits entries suffix) :=
  inferInstanceAs (Decidable (∃ row ∈ entries, Path.endsWith row.1 suffix = true))

def Misses (entries : List (String × Entry)) (suffixes : List String) (suffix : String) : Prop :=
  ∃ before after, suffixes = before ++ suffix :: after ∧ (∀ s ∈ before, Hits entries s) ∧
    ¬ Hits entries suffix

/-- The targets of suffixes with values: the paths that some suffix ends, each with the value of the last
one that does and with the owner and the flag of its own entry. -/
structure Spreads (entries : List (String × Entry)) (pairs : List (String × SignalValue))
    (targets : Table String Target) : Prop where
  reached : ∀ path, path ∈ targets.keys ↔
    path ∈ entries.map (·.1) ∧ ∃ pair ∈ pairs, Path.endsWith path pair.1 = true
  target : ∀ path e v, (path, e) ∈ entries → WriteRequest.LastFor pairs path v →
    targets.find? path = some ⟨v, e.owner, e.isReadOnly⟩

theorem assign_perm (hd : (entries.map (·.1)).Nodup) (hp : entries.Perm others) (value : SignalValue)
    (targets : Table String Target) : assign targets entries value = assign targets others value := by
  refine hp.foldl_eq' (fun row hrow other hother targets => ?_) targets
  by_cases hkey : row.1 = other.1
  · rw [List.inj_on_of_nodup_map hd hrow hother hkey]
  · exact targets.insert_comm hkey _ _

theorem assignSuffixes_perm (hd : (entries.map (·.1)).Nodup) (hp : entries.Perm others)
    (targets : Table String Target) (pairs : List (String × SignalValue)) :
    assignSuffixes entries targets pairs = assignSuffixes others targets pairs := by
  induction pairs generalizing targets with
  | nil => rfl
  | cons pair rest ih =>
    have hhits := hp.filter fun row => Path.endsWith row.1 pair.1
    have hnodup := hd.sublist ((List.filter_sublist (p := fun row => Path.endsWith row.1 pair.1)).map _)
    simp only [assignSuffixes]
    rw [hhits.isEmpty_eq, assign_perm hnodup hhits, ih]

theorem resolveTargets_perm (hd : (entries.map (·.1)).Nodup) (hp : entries.Perm others)
    (request : WriteRequest) : resolveTargets entries request = resolveTargets others request := by
  cases request with
  | broadcast value => exact congrArg Except.ok (assign_perm hd hp value .empty)
  | suffixes pairs => exact assignSuffixes_perm hd hp .empty pairs

section Listed

variable (hd : (entries.map (·.1)).Nodup)
include hd

theorem resolveTargets_ofList (request : WriteRequest) :
    resolveTargets (Table.ofList entries).toList request = resolveTargets entries request :=
  (resolveTargets_perm hd (Table.perm_ofList hd).symm request).symm

theorem hits_iff {suffix : String} : Hits entries suffix ↔ ∃ path e,
    (Table.ofList entries).find? path = some e ∧ Path.endsWith path suffix = true := by
  simp only [Table.find?_ofList_iff hd, Hits, Prod.exists]

theorem misses_of_eq_error {request : WriteRequest} {error : BrokerError}
    (h : resolveTargets entries request = .error error) :
    ∃ suffix, error = .pathNotFound suffix ∧ Misses entries request.suffixNames suffix := by
  rw [← resolveTargets_ofList hd] at h
  obtain ⟨before, suffix, after, hsplit, rfl, hbefore, hsuffix⟩ := resolveTargets_eq_error h
  refine ⟨suffix, rfl, before, after, hsplit, fun s hs => (hits_iff hd).mpr (hbefore s hs), ?_⟩
  rw [hits_iff hd]
  rintro ⟨path, e, he, hends⟩
  rw [hsuffix path e he] at hends
  cases hends

/-- Resolving fails exactly if some suffix ends no path, and then it names the first of these. -/
theorem resolveTargets_eq_error_iff {request : WriteRequest} {error : BrokerError} :
    resolveTargets entries request = .error error ↔
      ∃ suffix, error = .pathNotFound suffix ∧ Misses entries request.suffixNames suffix := by
  constructor
  · exact misses_of_eq_error hd
  · rintro ⟨suffix, rfl, before, after, hsplit, hbefore, hsuffix⟩
    cases hr : resolveTargets entries request with
    | error e =>
      obtain ⟨suffix', rfl, before', after', hsplit', hbefore', hsuffix'⟩ := misses_of_eq_error hd hr
      rw [first_unique hsplit hsplit' hbefore hsuffix hbefore' hsuffix']
    | ok targets =>
      rw [← resolveTargets_ofList hd] at hr
      have hhit := (resolveTargets_eq_ok hr).1 suffix (by rw [hsplit]; simp)
      exact absurd ((hits_iff hd).mpr hhit) hsuffix

theorem find?_of_resolveTargets {request : WriteRequest}
    (h : resolveTargets entries request = .ok targets) (path : String) :
    targets.find? path = ((Table.ofList entries).find? path).bind fun e =>
      (request.valueFor? path).map (targetOf e) := by
  rw [← resolveTargets_ofList hd] at h
  exact (resolveTargets_eq_ok h).2 path

theorem find?_broadcast {value : SignalValue}
    (h : resolveTargets entries (.broadcast value) = .ok targets) {path : String} {target : Target} :
    targets.find? path = some target ↔
      ∃ e, (path, e) ∈ entries ∧ target = ⟨value, e.owner, e.isReadOnly⟩ := by
  rw [find?_of_resolveTargets hd h, Option.bind_eq_some_iff]
  simp only [Table.find?_ofList_iff hd, WriteRequest.valueFor?, Option.map_some, Option.some.injEq,
    targetOf, eq_comm]

theorem spreads_of_resolveTargets (h : resolveTargets entries (.suffixes pairs) = .ok targets) :
    Spreads entries pairs targets where
  reached path := by
    rw [Table.mem_keys_iff, find?_of_resolveTargets hd h, ← WriteRequest.exists_lastFor_iff]
    simp only [← WriteRequest.suffixValue?_eq_some_iff, ← Option.isSome_iff_exists,
      WriteRequest.valueFor?]
    cases he : (Table.ofList entries).find? path with
    | none =>
      refine iff_of_false (by simp) ?_
      rintro ⟨hpath, -⟩
      obtain ⟨row, hrow, rfl⟩ := List.mem_map.mp hpath
      rw [(Table.find?_ofList_iff hd).mpr hrow] at he
      cases he
    | some e =>
      have hpath : path ∈ entries.map (·.1) :=
        List.mem_map_of_mem (f := (·.1)) ((Table.find?_ofList_iff hd).mp he)
      simp [hpath]
  target path e v he hv := by
    rw [find?_of_resolveTargets hd h, (Table.find?_ofList_iff hd).mpr he, Option.bind_some,
      WriteRequest.valueFor?, WriteRequest.suffixValue?_eq_some_iff.mpr hv]
    rfl

end Listed

/-- What a write of one value and a write of suffixes with values make of entries with different paths.
Suffixes fail if one of them ends no path. The order of the entries does not matter, while that of the
suffixes is the order in which an array has them. -/
theorem resolveTargets_exact (hd : (entries.map (·.1)).Nodup) :
    (∀ value, ∃ targets, resolveTargets entries (.broadcast value) = .ok targets ∧
      ∀ path target, targets.find? path = some target ↔
        ∃ e, (path, e) ∈ entries ∧ target = ⟨value, e.owner, e.isReadOnly⟩) ∧
    (∀ pairs error, resolveTargets entries (.suffixes pairs) = .error error ↔
      ∃ suffix, error = .pathNotFound suffix ∧ Misses entries (pairs.map (·.1)) suffix) ∧
    (∀ pairs, (∀ pair ∈ pairs, Hits entries pair.1) → ∃ targets,
      resolveTargets entries (.suffixes pairs) = .ok targets ∧ Spreads entries pairs targets) ∧
    (∀ others, others.Perm entries → ∀ request,
      resolveTargets others request = resolveTargets entries request) ∧
    ∀ members : List (String × Json), members ≠ [] → ∀ request,
      WriteRequest.ofJson (.array (members.map fun member => .object [member])) = .ok request ↔
        ∃ pairs, request = .suffixes pairs ∧ List.Forall₂ WriteRequest.ReadsAs members pairs := by
  refine ⟨?_, ?_, ?_, ?_, fun members h request => WriteRequest.ofJson_objects_eq_ok_iff h⟩
  · exact fun value => ⟨_, rfl, fun path target => find?_broadcast hd rfl⟩
  · exact fun pairs error => resolveTargets_eq_error_iff hd
  · intro pairs hhits
    cases hr : resolveTargets entries (.suffixes pairs) with
    | ok targets => exact ⟨targets, rfl, spreads_of_resolveTargets hd hr⟩
    | error e =>
      obtain ⟨suffix, -, before, after, hsplit, -, hsuffix⟩ := misses_of_eq_error hd hr
      have hmem : suffix ∈ pairs.map (·.1) := by
        have hsplit : pairs.map (·.1) = before ++ suffix :: after := hsplit
        rw [hsplit]
        simp
      obtain ⟨pair, hpair, rfl⟩ := List.mem_map.mp hmem
      exact absurd (hhits pair hpair) hsuffix
  · exact fun others hp request => (resolveTargets_perm hd hp.symm request).symm

def doors : List (String × Entry) :=
  [("Row2.IsLocked", ⟨.bool false, false, false, true, 1, 3⟩),
    ("Row1.IsLocked", ⟨.bool false, false, true, true, 0, 2⟩),
    ("Row1.Position", ⟨.null, true, false, false, 0, 0⟩)]

/-- All doors are to be locked, but not those of the first row. -/
theorem resolveTargets_exact_doors : (doors.map (·.1)).Nodup ∧
    ∃ pairs targets, WriteRequest.ofJson
      (.array [.object [("IsLocked", .bool true)], .object [("Row1.IsLocked", .bool false)]]) =
        .ok (.suffixes pairs) ∧
    resolveTargets doors (.suffixes pairs) = .ok targets ∧ Spreads doors pairs targets ∧
    targets.find? "Row1.IsLocked" = some ⟨.bool false, 0, true⟩ ∧
    targets.find? "Row2.IsLocked" = some ⟨.bool true, 1, false⟩ ∧
    targets.keys = ["Row1.IsLocked", "Row2.IsLocked"] ∧
    resolveTargets doors.reverse (.suffixes pairs) = .ok targets ∧
    resolveTargets doors (.suffixes [("Position", .null), ("Lid", .null), ("Hood", .null)]) =
      .error (.pathNotFound "Lid") := by
  have hd : (doors.map (·.1)).Nodup := by decide
  obtain ⟨-, herror, hok, hperm, hjson⟩ := resolveTargets_exact hd
  let pairs : List (String × SignalValue) := [("IsLocked", .bool true), ("Row1.IsLocked", .bool false)]
  have hread := (hjson [("IsLocked", .bool true), ("Row1.IsLocked", .bool false)] (by simp)
    (.suffixes pairs)).mpr ⟨pairs, rfl, .cons ⟨rfl, by decide, rfl⟩ (.cons ⟨rfl, by decide, rfl⟩ .nil)⟩
  obtain ⟨targets, hresolved, hspreads⟩ := hok pairs (by decide)
  have hkeys : targets.keys = ["Row1.IsLocked", "Row2.IsLocked"] := by
    cases hresolved
    rfl
  have hmisses : Misses doors ["Position", "Lid", "Hood"] "Lid" :=
    ⟨["Position"], ["Hood"], rfl, by decide, by decide⟩
  refine ⟨hd, pairs, targets, hread, hresolved, hspreads, ?_, ?_, hkeys, ?_, ?_⟩
  · exact hspreads.target "Row1.IsLocked" _ _ (List.mem_cons_of_mem _ List.mem_cons_self)
      ⟨[("IsLocked", .bool true)], "Row1.IsLocked", [], rfl, by decide, by decide⟩
  · exact hspreads.target "Row2.IsLocked" _ _ List.mem_cons_self
      ⟨[], "IsLocked", _, rfl, by decide, by decide⟩
  · exact (hperm _ (List.reverse_perm doors) _).trans hresolved
  · exact (herror _ _).mpr ⟨"Lid", rfl, hmisses⟩

end Registry

end SignalBroker
