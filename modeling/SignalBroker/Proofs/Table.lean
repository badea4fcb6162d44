import Mathlib.Data.List.Nodup
import SignalBroker.Table

namespace SignalBroker.Table

set_option linter.unusedSectionVars false

variable {κ α β : Type} [LT κ] [LE κ] [DecidableEq κ] [DecidableLT κ]
  [Std.IsLinearOrder κ] [Std.LawfulOrderLT κ]

theorem isEmpty_iff (t : Table κ α) : t.isEmpty = true ↔ ∀ k, t.find? k = none := by
  constructor
  · intro h k
    have hr : t.rows = [] := List.isEmpty_iff.mp h
    rw [find?, hr]
    rfl
  · intro h
    apply List.isEmpty_iff.mpr
    apply List.eq_nil_iff_forall_not_mem.mpr
    intro row hm
    have hf := (t.mem_toList_iff row.1 row.2).mp hm
    rw [h] at hf
    cases hf

theorem isEmpty_eq_false_iff (t : Table κ α) : t.isEmpty = false ↔ ∃ k v, t.find? k = some v := by
  rw [Bool.eq_false_iff, ne_eq, isEmpty_iff, Classical.not_forall]
  exact exists_congr fun k => Option.ne_none_iff_exists'

theorem mem_keys_of_find? {t : Table κ α} {k : κ} {v : α} (h : t.find? k = some v) : k ∈ t.keys :=
  (t.mem_keys_iff k).mpr (by rw [h]; rfl)

theorem exists_of_mem_keys {t : Table κ α} {k : κ} (h : k ∈ t.keys) : ∃ v, t.find? k = some v :=
  Option.isSome_iff_exists.mp ((t.mem_keys_iff k).mp h)

theorem keys_map (t : Table κ α) (f : κ → α → β) : (t.map f).keys = t.keys := by
  rw [keys, map, List.map_map]
  rfl

theorem isEmpty_map (t : Table κ α) (f : κ → α → β) : (t.map f).isEmpty = t.isEmpty :=
  List.isEmpty_map

theorem keys_ascending (t : Table κ α) : t.keys.Pairwise (· < ·) :=
  List.pairwise_map.mpr t.ascending

theorem keys_nodup (t : Table κ α) : t.keys.Nodup :=
  t.keys_ascending.imp fun h => Std.ne_of_lt h

theorem le_of_first {t : Table κ α} {before after : List (κ × α)} {row : κ × α}
    (hsplit : t.toList = before ++ row :: after) {k : κ} {v : α} (hv : t.find? k = some v)
    (hn : (k, v) ∉ before) : row.1 ≤ k := by
  have hm := (t.mem_toList_iff k v).mpr hv
  have hasc : (before ++ row :: after).Pairwise fun a b => a.1 < b.1 := hsplit ▸ t.ascending
  have hlater := (List.pairwise_cons.mp (List.pairwise_append.mp hasc).2.1).1
  rw [hsplit] at hm
  obtain hm | hm := List.mem_append.mp hm
  · exact absurd hm hn
  · obtain rfl | hm := List.mem_cons.mp hm
    · exact Std.le_refl _
    · exact Std.le_of_lt (hlater _ hm)

theorem length_flatMap_insertRow (f : α → List β) {k : κ} {v : α} (w : α) {rows : List (κ × α)}
    (h : rows.Pairwise fun a b => a.1 < b.1) (hv : rows.lookup k = some v) :
    ((insertRow k w rows).flatMap fun r => f r.2).length + (f v).length =
      (rows.flatMap fun r => f r.2).length + (f w).length := by
  induction rows with
  | nil => cases hv
  | cons head rest ih =>
    obtain ⟨hhead, hrest⟩ := List.pairwise_cons.mp h
    obtain ⟨hk, u⟩ := head
    rw [lookup_cons_eq_ite] at hv
    unfold insertRow
    by_cases heq : k = hk
    · subst heq
      rw [if_pos rfl, Option.some.injEq] at hv
      simp only [if_neg (Std.lt_irrefl (a := k)), if_pos, List.flatMap_cons, List.length_append, hv]
      omega
    · rw [if_neg heq] at hv
      have hlt : hk < k := hhead (k, v) (((⟨rest, hrest⟩ : Table κ α).mem_toList_iff k v).mpr hv)
      have hnext := ih hrest hv
      simp only [if_neg (Std.not_gt_of_lt hlt), if_neg heq, List.flatMap_cons, List.length_append]
      omega

/-- Putting another value under a key changes how much there is in all of them by what the two differ. -/
theorem length_flatMap_insert (f : α → List β) {t : Table κ α} {k : κ} {v : α} (w : α)
    (hv : t.find? k = some v) :
    ((t.insert k w).values.flatMap f).length + (f v).length =
      (t.values.flatMap f).length + (f w).length := by
  have h := length_flatMap_insertRow f w t.ascending hv
  simpa only [values, insert, List.flatMap_map] using h

theorem find?_foldl_insert (key : α → κ) (val : α → β) (xs : List α) (t : Table κ β) (k : κ) :
    (xs.foldl (fun t x => t.insert (key x) (val x)) t).find? k =
      ((xs.reverse.find? fun x => key x = k).map val).or (t.find? k) := by
  induction xs generalizing t with
  | nil => rfl
  | cons x xs ih =>
    rw [List.foldl_cons, ih, find?_insert, List.reverse_cons, List.find?_append]
    cases hx : xs.reverse.find? fun x => key x = k with
    | some y => simp
    | none =>
      by_cases hk : key x = k
      · simp [hk]
      · simp [hk, Ne.symm hk]

theorem find?_foldl_insert_of_not_mem (key : α → κ) (val : α → β) (xs : List α) (t : Table κ β)
    {k : κ} (h : k ∉ xs.map key) :
    (xs.foldl (fun t x => t.insert (key x) (val x)) t).find? k = t.find? k := by
  have hn : (xs.reverse.find? fun x => key x = k) = none := by
    apply List.find?_eq_none.mpr
    intro x hx hk
    exact h (List.mem_map.mpr ⟨x, List.mem_reverse.mp hx, of_decide_eq_true hk⟩)
  rw [find?_foldl_insert, hn]
  rfl

/-- Where the value is a function of the key, the order of the insertions does not matter. -/
theorem find?_foldl_insert_of_mem (key : α → κ) (val : α → β) (xs : List α) (t : Table κ β)
    {x : α} (hx : x ∈ xs) (h : ∀ y ∈ xs, key y = key x → val y = val x) :
    (xs.foldl (fun t x => t.insert (key x) (val x)) t).find? (key x) = some (val x) := by
  rw [find?_foldl_insert]
  cases hf : xs.reverse.find? fun y => key y = key x with
  | none =>
    have hn := List.find?_eq_none.mp hf x (List.mem_reverse.mpr hx)
    simp at hn
  | some y =>
    have hy := List.mem_reverse.mp (List.mem_of_find?_eq_some hf)
    have hk : key y = key x := by simpa using List.find?_some hf
    rw [Option.map_some, h y hy hk, Option.some_or]

theorem find?_merge (t u : Table κ α) (k : κ) :
    (t.merge u).find? k = (u.find? k).or (t.find? k) := by
  rw [merge, find?_foldl_insert]
  cases hu : u.find? k with
  | some v =>
    have hm := (u.mem_toList_iff k v).mpr hu
    cases hf : u.rows.reverse.find? fun r => r.1 = k with
    | none =>
      have hn := List.find?_eq_none.mp hf (k, v) (List.mem_reverse.mpr hm)
      simp at hn
    | some r =>
      have hr := List.mem_reverse.mp (List.mem_of_find?_eq_some hf)
      have hk : r.1 = k := by simpa using List.find?_some hf
      have hv := (u.mem_toList_iff r.1 r.2).mp hr
      rw [hk, hu] at hv
      cases hv
      rfl
  | none =>
    have hf : (u.rows.reverse.find? fun r => r.1 = k) = none := by
      apply List.find?_eq_none.mpr
      intro r hr hk
      have hv := (u.mem_toList_iff r.1 r.2).mp (List.mem_reverse.mp hr)
      rw [of_decide_eq_true hk, hu] at hv
      cases hv
    rw [hf]
    rfl

theorem mem_of_mem_ofList {rows : List (κ × α)} {row : κ × α} (h : row ∈ (ofList rows).rows) :
    row ∈ rows := by
  have hf := ((ofList rows).mem_toList_iff row.1 row.2).mp h
  rw [ofList, find?_foldl_insert, find?_empty, Option.or_none] at hf
  obtain ⟨found, hr, hv⟩ := Option.map_eq_some_iff.mp hf
  have hk : found.1 = row.1 := by simpa using List.find?_some hr
  have hrow : found = row := Prod.ext hk hv
  rw [← hrow]
  exact List.mem_reverse.mp (List.mem_of_find?_eq_some hr)

theorem ofList_rows (t : Table κ α) : ofList t.rows = t := by
  ext k : 1
  have hm := find?_merge .empty t k
  rw [find?_empty, Option.or_none] at hm
  exact hm

theorem insert_comm (t : Table κ α) {k l : κ} (h : k ≠ l) (v w : α) :
    (t.insert k v).insert l w = (t.insert l w).insert k v := by
  ext k' : 1
  simp only [find?_insert]
  by_cases hl : k' = l
  · rw [if_pos hl, if_pos hl, if_neg (hl ▸ h.symm)]
  · rw [if_neg hl, if_neg hl]

/-- A table holds just the rows that it is made of if no two of them differ at one key. -/
theorem find?_ofList_iff_of_agree {rows : List (κ × α)}
    (h : ∀ row ∈ rows, ∀ other ∈ rows, row.1 = other.1 → row.2 = other.2) {k : κ} {v : α} :
    (ofList rows).find? k = some v ↔ (k, v) ∈ rows := by
  constructor
  · intro hv
    exact mem_of_mem_ofList (((ofList rows).mem_toList_iff k v).mpr hv)
  · intro hm
    exact find?_foldl_insert_of_mem (·.1) (·.2) rows .empty hm fun row hrow hk => h row hrow _ hm hk

theorem find?_ofList_iff {rows : List (κ × α)} (hd : (rows.map (·.1)).Nodup) {k : κ} {v : α} :
    (ofList rows).find? k = some v ↔ (k, v) ∈ rows :=
  find?_ofList_iff_of_agree fun _ hrow _ hother hk =>
    congrArg Prod.snd (List.inj_on_of_nodup_map hd hrow hother hk)

theorem perm_ofList {rows : List (κ × α)} (hd : (rows.map (·.1)).Nodup) :
    (ofList rows).toList.Perm rows := by
  have hkeys : ((ofList rows).toList.map (·.1)).Nodup := (ofList rows).keys_nodup
  refine (List.perm_ext_iff_of_nodup (hkeys.of_map _) (hd.of_map _)).mpr fun row => ?_
  rw [(ofList rows).mem_toList_iff row.1 row.2, find?_ofList_iff hd]

theorem ofList_of_perm {t : Table κ α} {rows : List (κ × α)} (h : rows.Perm t.rows) :
    ofList rows = t := by
  have hkeys : (t.rows.map (·.1)).Nodup := t.keys_nodup
  have hd : (rows.map (·.1)).Nodup := (h.map _).nodup_iff.mpr hkeys
  ext k v : 2
  rw [find?_ofList_iff hd, h.mem_iff]
  exact t.mem_toList_iff k v

end SignalBroker.Table
