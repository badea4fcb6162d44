import SignalBroker.Proofs.Broker.Targets

namespace SignalBroker.Registry

def share (groups : Table Nat Values) (owner : Nat) : Values := (groups.find? owner).getD .empty

def addTarget (groups : Table Nat Values) (row : String × Target) : Table Nat Values :=
  groups.insert row.2.owner ((share groups row.2.owner).insert row.1 row.2.value)

variable {targets : Table String Target} {groups : Table Nat Values} {rows : List (String × Target)}

theorem groups_eq_foldl (targets : Table String Target) :
    Registry.groups targets = targets.toList.foldl addTarget .empty := rfl

theorem share_addTarget (row : String × Target) (owner : Nat) :
    share (addTarget groups row) owner =
      if owner = row.2.owner then (share groups owner).insert row.1 row.2.value
      else share groups owner := by
  unfold addTarget
  rw [share, Table.find?_insert]
  by_cases howner : owner = row.2.owner
  · rw [if_pos howner, if_pos howner, howner]
    rfl
  · rw [if_neg howner, if_neg howner]
    rfl

theorem share_foldl (owner : Nat) : share (rows.foldl addTarget groups) owner =
    (rows.filter fun row => row.2.owner == owner).foldl
      (fun values row => values.insert row.1 row.2.value) (share groups owner) := by
  induction rows generalizing groups with
  | nil => rfl
  | cons row rows ih =>
    rw [List.foldl_cons, ih, share_addTarget, List.filter_cons]
    by_cases howner : owner = row.2.owner
    · have hmine : (row.2.owner == owner) = true := beq_iff_eq.mpr howner.symm
      rw [if_pos howner, if_pos hmine, List.foldl_cons]
    · have hother : ¬ (row.2.owner == owner) = true := fun h => howner (beq_iff_eq.mp h).symm
      rw [if_neg howner, if_neg hother]

theorem find?_share (owner : Nat) (path : String) :
    (share (Registry.groups targets) owner).find? path =
      ((targets.find? path).filter fun target => target.owner == owner).map (·.value) := by
  have hmerge : share (Registry.groups targets) owner = Table.empty.merge
      ((targets.filter fun _ target => target.owner == owner).map fun _ target => target.value) := by
    rw [groups_eq_foldl, share_foldl, Table.merge, Table.map, List.foldl_map]
    rfl
  rw [hmerge, Table.find?_merge, Table.find?_map, Table.find?_filter, Table.find?_empty,
    Option.or_none]

theorem exists_target_of_group {owner : Nat} {values : Values}
    (h : (rows.foldl addTarget groups).find? owner = some values) :
    (∃ row ∈ rows, row.2.owner = owner) ∨ ∃ old, groups.find? owner = some old := by
  induction rows generalizing groups with
  | nil => exact .inr ⟨values, h⟩
  | cons row rows ih =>
    obtain ⟨other, hm, howner⟩ | ⟨old, hold⟩ := ih h
    · exact .inl ⟨other, List.mem_cons_of_mem _ hm, howner⟩
    · by_cases howner : owner = row.2.owner
      · exact .inl ⟨row, List.mem_cons_self, howner.symm⟩
      · rw [addTarget, Table.find?_insert, if_neg howner] at hold
        exact .inr ⟨old, hold⟩

theorem exists_target_of_mem_groups {owner : Nat} {values : Values}
    (h : (owner, values) ∈ (Registry.groups targets).toList) :
    ∃ path target, targets.find? path = some target ∧ target.owner = owner := by
  have hfind := (Table.mem_toList_iff _ _ _).mp h
  obtain ⟨row, hm, howner⟩ | ⟨old, hold⟩ := exists_target_of_group hfind
  · exact ⟨row.1, row.2, (targets.mem_toList_iff _ _).mp hm, howner⟩
  · cases hold

theorem find?_of_mem_groups {owner : Nat} {values : Values}
    (h : (owner, values) ∈ (Registry.groups targets).toList) (path : String) :
    values.find? path =
      ((targets.find? path).filter fun target => target.owner == owner).map (·.value) := by
  have hfind := (Table.mem_toList_iff _ _ _).mp h
  have hshare : share (Registry.groups targets) owner = values := by rw [share, hfind]; rfl
  rw [← hshare, find?_share]

end SignalBroker.Registry
