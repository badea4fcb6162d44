import SignalBroker.Proofs.Broker.Groups
import SignalBroker.Proofs.Traffic.Cache
import SignalBroker.Proofs.Traffic.Carrying

namespace SignalBroker

/-- A write has been carried out: its targets have their values in the stores of their owners and in
the cache, and everything else is what it was. -/
structure Broker.Assigned (b b' : Broker Adapter) (p : Pattern) (w : WriteRequest) : Prop where
  stored : ∀ path v, b.registry.assigned? p w path = some v → ∃ e signal,
    b.registry.entries.find? path = some e ∧ b'.signal? e.owner path = some signal ∧
      (signal.spec.value == v) = true
  cached : ∀ path v, b.registry.assigned? p w path = some v → ∃ e e',
    b.registry.entries.find? path = some e ∧ b'.registry.entries.find? path = some e' ∧
      e'.owner = e.owner ∧ e'.isPublic = e.isPublic ∧ e'.isReadOnly = e.isReadOnly ∧
      (e'.value == v) = true
  storeElse : ∀ k path, (∀ e, b.registry.entries.find? path = some e → e.owner = k →
    b.registry.assigned? p w path = none) → b'.signal? k path = b.signal? k path
  cacheElse : ∀ path, b.registry.assigned? p w path = none →
    b'.registry.entries.find? path = b.registry.entries.find? path

namespace Traffic

variable {P : Adapter → Prop} {t : Traffic} {p : Pattern} {w : WriteRequest} {rights : Rights}
  {targets : Table String Target}

def HasRoom (t : Traffic) : Prop :=
  ∀ m ∈ t.broker.registry.members, m.source.store.stream.hasRoom = true

theorem given_toList (groups : Table Nat Values) (k : Nat) (path : String) :
    given groups.toList k path = (Registry.share groups k).find? path := by
  unfold Registry.share
  cases hk : groups.find? k with
  | some values => exact given_of_mem groups.ascending ((groups.mem_toList_iff k values).mpr hk) path
  | none =>
    refine given_eq_none ?_ path
    rintro ⟨owner, values⟩ hm rfl
    rw [(groups.mem_toList_iff _ values).mp hm] at hk
    cases hk

theorem given_groups {r : Registry Adapter}
    (hres : Registry.Resolved targets (r.matching p) w.valueFor?) (k : Nat) (path : String) :
    given (Registry.groups targets).toList k path =
      (r.entries.find? path).bind fun e => if e.owner = k then r.assigned? p w path else none := by
  rw [given_toList, Registry.find?_share]
  have htarget : ∀ tg, targets.find? path = some tg ↔ _ :=
    fun _ => Registry.find?_eq_some_iff_of_resolved hres
  cases ht : targets.find? path with
  | some target =>
    obtain ⟨e, v, he, hv, rfl⟩ := (htarget target).mp ht
    rw [he, Option.bind_some, hv]
    by_cases howner : e.owner = k <;> simp [Option.filter, Registry.targetOf, howner]
  | none =>
    cases he : r.entries.find? path with
    | none => rfl
    | some e =>
      cases hv : r.assigned? p w path with
      | none => simp
      | some v =>
        rw [(htarget (Registry.targetOf e v)).mpr ⟨e, v, he, hv, rfl⟩] at ht
        cases ht

theorem ready_of_permits (h : t.Coherent) (hroom : t.HasRoom)
    (hp : t.broker.registry.Permits p w rights)
    (hres : Registry.Resolved targets (t.broker.registry.matching p) w.valueFor?)
    {owner : Nat} {values : Values} (hm : (owner, values) ∈ (Registry.groups targets).toList) :
    t.Ready owner values := by
  have htarget : ∀ path tg, targets.find? path = some tg ↔ _ :=
    fun _ _ => Registry.find?_eq_some_iff_of_resolved hres
  refine ⟨?_, ?_⟩
  · obtain ⟨path, target, ht, rfl⟩ := Registry.exists_target_of_mem_groups hm
    obtain ⟨e, v, he, -, rfl⟩ := (htarget path target).mp ht
    obtain ⟨m, hmember, -⟩ := h.entry path e he
    exact ⟨m, hmember, hroom m (List.mem_of_getElem? hmember)⟩
  · intro path v hv
    rw [Registry.find?_of_mem_groups hm] at hv
    obtain ⟨target, ht, rfl⟩ := Option.map_eq_some_iff.mp hv
    obtain ⟨ht, howner⟩ := Option.filter_eq_some_iff.mp ht
    obtain ⟨e, v, he, hassigned, rfl⟩ := (htarget path target).mp ht
    refine ⟨e, he, of_decide_eq_true howner, ?_⟩
    cases hlocked : e.isReadOnly with
    | false => rfl
    | true => exact absurd ⟨e, v, he, hassigned, hlocked⟩ (hp.unlocked path)

theorem assigned_of_carried (h : t.Coherent) {b' : Broker Adapter}
    (hres : Registry.Resolved targets (t.broker.registry.matching p) w.valueFor?)
    (hc : t.broker.Carried b' (given (Registry.groups targets).toList)) :
    t.broker.Assigned b' p w := by
  have hgiven := given_groups hres
  refine ⟨?_, ?_, ?_, ?_⟩
  · intro path v hv
    obtain ⟨e, he⟩ := Registry.exists_entry_of_assigned hv
    obtain ⟨m, hm, hmir⟩ := h.entry path e he
    obtain ⟨signal, hs, -⟩ := hmir.signal
    refine ⟨e, signal.hear (some v), he, ?_, signal.value_hear v⟩
    have hold : t.broker.signal? e.owner path = some signal := by
      rw [Broker.signal?, hm]
      exact hs
    rw [hc.signal, hgiven, he, hold, Option.bind_some, if_pos rfl, hv]
    rfl
  · intro path v hv
    obtain ⟨e, he⟩ := Registry.exists_entry_of_assigned hv
    obtain ⟨e', he', htakes⟩ := hc.entry path e he
    rw [hgiven, he, Option.bind_some, if_pos rfl] at htakes
    exact ⟨e, e', he, he', htakes.owner, htakes.isPublic, htakes.isReadOnly, htakes.value v hv⟩
  · intro k path helse
    have hnone : given (Registry.groups targets).toList k path = none := by
      rw [hgiven]
      cases he : t.broker.registry.entries.find? path with
      | none => rfl
      | some e =>
        by_cases howner : e.owner = k
        · rw [Option.bind_some, if_pos howner]
          exact helse e he howner
        · rw [Option.bind_some, if_neg howner]
    rw [hc.signal, hnone]
    cases t.broker.signal? k path <;> rfl
  · intro path helse
    cases he : t.broker.registry.entries.find? path with
    | none => exact hc.absent path he
    | some e =>
      obtain ⟨e', he', htakes⟩ := hc.entry path e he
      rw [hgiven, he, Option.bind_some, if_pos rfl] at htakes
      rw [he', htakes.same helse]

/-- A permitted write is carried out, and any other one is refused and changes nothing. -/
theorem set_cases (h : t.Coherent) (hroom : t.HasRoom) (pattern : String) (w : WriteRequest)
    (rights : Rights) :
    (∃ p b', Pattern.ofText pattern = .ok p ∧ t.broker.registry.Permits p w rights ∧
      t.broker.set pattern w rights = (.done, b') ∧ t.broker.Assigned b' p w) ∨
    ∃ e, t.broker.registry.Refusal w rights pattern e ∧
      t.broker.set pattern w rights = (.refused e, t.broker) := by
  unfold Broker.set
  cases ht : t.broker.registry.targets pattern w rights with
  | error e => exact .inr ⟨e, Registry.targets_eq_error ht, rfl⟩
  | ok targets =>
    obtain ⟨p, hp, hpermits, hres⟩ := Registry.targets_eq_ok ht
    have hready : ∀ group ∈ (Registry.groups targets).toList, t.Ready group.1 group.2 :=
      fun _ hm => ready_of_permits h hroom hpermits hres hm
    obtain ⟨b', hwrite, hcarried⟩ :=
      writeGroups_carried h (Registry.groups targets).ascending hready
    exact .inl ⟨p, b', hp, hpermits, hwrite, assigned_of_carried h hres hcarried⟩

/-- A write is done if and only if every check passes, and is refused for the first check that fails
if and only if one does. It never waits. -/
theorem set_exact (h : Reached P t) (hroom : t.HasRoom) (pattern : String) (w : WriteRequest)
    (rights : Rights) :
    ((t.broker.set pattern w rights).1 = .done ↔
      ∃ p, Pattern.ofText pattern = .ok p ∧ t.broker.registry.Permits p w rights) ∧
    (∀ e, (t.broker.set pattern w rights).1 = .refused e ↔
      t.broker.registry.Refusal w rights pattern e) ∧
    (t.broker.set pattern w rights).1 ≠ .waiting ∧
    (∀ p, Pattern.ofText pattern = .ok p → t.broker.registry.Permits p w rights →
      t.broker.Assigned (t.broker.set pattern w rights).2 p w) ∧
    ∀ e, t.broker.registry.Refusal w rights pattern e →
      (t.broker.set pattern w rights).2 = t.broker := by
  rcases set_cases (coherent_of_reached h) hroom pattern w rights with
    ⟨p, b', hp, hpermits, hset, hassigned⟩ | ⟨e, hrefusal, hset⟩
  · rw [hset]
    have hnot : ∀ e, ¬ t.broker.registry.Refusal w rights pattern e :=
      fun e he => Registry.not_permits_of_refusal he hp hpermits
    refine ⟨⟨fun _ => ⟨p, hp, hpermits⟩, fun _ => rfl⟩, ?_, nofun, ?_, ?_⟩
    · intro e
      exact ⟨nofun, fun he => absurd he (hnot e)⟩
    · intro q hq _
      cases hp.symm.trans hq
      exact hassigned
    · intro e he
      exact absurd he (hnot e)
  · rw [hset]
    have hnot : ∀ p, Pattern.ofText pattern = .ok p → ¬ t.broker.registry.Permits p w rights :=
      fun p hp => Registry.not_permits_of_refusal hrefusal hp
    refine ⟨⟨nofun, ?_⟩, ?_, nofun, ?_, fun _ _ => rfl⟩
    · rintro ⟨p, hp, hpermits⟩
      exact absurd hpermits (hnot p hp)
    · intro e'
      constructor
      · intro hrefused
        cases hrefused
        exact hrefusal
      · intro he'
        rw [hrefusal.unique he']
    · intro p hp hpermits
      exact absurd hpermits (hnot p hp)

def lid : Adapter :=
  ⟨(Store.ofName "lid").declare "Trunk.IsOpen" ⟨.bool false, true, false⟩, .memory⟩

def driver : Rights := .ofGrants (.ofTable (.ofList [("Trunk.*", .readWrite)])) 60

/-- One write opens the lid and unlocks the trunk. Without grants it is refused for the lock. -/
theorem set_exact_trunk : ∃ (t : Traffic) (p : Pattern) (w : WriteRequest),
    Reached Adapter.Idle t ∧ t.HasRoom ∧ Pattern.ofText "Trunk.*" = .ok p ∧
    w.suffixNames = ["IsOpen", "IsLocked"] ∧
    (t.broker.set "Trunk.*" w driver).1 = .done ∧
    t.broker.Assigned (t.broker.set "Trunk.*" w driver).2 p w ∧
    t.broker.registry.Refusal w .none "Trunk.*" (.notAuthorized "Trunk.IsLocked") := by
  have hstart : Reached Adapter.Idle (start (.ofTable .empty 0) ⟨0⟩ 8 .empty) :=
    ⟨_, _, _, _, .refl⟩
  have htrunk := reached_later hstart (.single
    (@Step.registered _ _ trunk _ _ ⟨rfl, rfl⟩ (.declared (.created _ _) _ _) rfl))
  have hlid := reached_later htrunk (.single
    (@Step.registered _ _ lid _ _ ⟨rfl, rfl⟩ (.declared (.created _ _) _ _) rfl))
  have hroom : ∀ {t : Traffic}, Reached Adapter.Idle t →
      (t.broker.registry.members.all fun m => m.source.store.stream.hasRoom) = true → t.HasRoom :=
    fun _ hall => List.all_eq_true.mp hall
  have hroom := hroom hlid rfl
  let w := WriteRequest.suffixes [("IsOpen", .bool true), ("IsLocked", .bool false)]
  obtain ⟨hdone, -, -, hassigned, -⟩ := set_exact hlid hroom "Trunk.*" w driver
  obtain ⟨-, hrefused, -⟩ := set_exact hlid hroom "Trunk.*" w .none
  obtain ⟨p, hp, hpermits⟩ := hdone.mp rfl
  exact ⟨_, p, w, hlid, hroom, hp, rfl, rfl, hassigned p hp hpermits, (hrefused _).mp rfl⟩

end Traffic

end SignalBroker
