namespace SignalBroker

structure Table (κ α : Type) [LT κ] where
  rows : List (κ × α)
  ascending : rows.Pairwise (fun a b => a.1 < b.1)

namespace Table

set_option linter.unusedSectionVars false

variable {κ α β : Type} [LT κ] [LE κ] [DecidableEq κ] [DecidableLT κ]
  [Std.IsLinearOrder κ] [Std.LawfulOrderLT κ]

def insertRow (k : κ) (v : α) : List (κ × α) → List (κ × α)
  | [] => [(k, v)]
  | (k', v') :: rest =>
    if k < k' then (k, v) :: (k', v') :: rest
    else if k = k' then (k, v) :: rest
    else (k', v') :: insertRow k v rest

theorem mem_insertRow {k : κ} {v : α} {rows : List (κ × α)} {r : κ × α}
    (h : r ∈ insertRow k v rows) : r = (k, v) ∨ r ∈ rows := by
  induction rows with
  | nil => simpa [insertRow] using h
  | cons head rest ih =>
    unfold insertRow at h
    split at h
    · simpa using h
    · split at h
      · simp only [List.mem_cons] at h ⊢
        rcases h with h | h
        · exact .inl h
        · exact .inr (.inr h)
      · simp only [List.mem_cons] at h ⊢
        rcases h with h | h
        · exact .inr (.inl h)
        · exact (ih h).imp_right .inr

theorem insertRow_ascending {k : κ} {v : α} {rows : List (κ × α)}
    (h : rows.Pairwise (fun a b => a.1 < b.1)) :
    (insertRow k v rows).Pairwise (fun a b => a.1 < b.1) := by
  induction rows with
  | nil => simp [insertRow]
  | cons head rest ih =>
    obtain ⟨hhead, hrest⟩ := List.pairwise_cons.mp h
    unfold insertRow
    split
    · rename_i hlt
      refine List.pairwise_cons.mpr ⟨fun r hr => ?_, h⟩
      rcases List.mem_cons.mp hr with rfl | hr
      · exact hlt
      · exact Std.lt_trans hlt (hhead r hr)
    · split
      · rename_i _ heq
        exact List.pairwise_cons.mpr ⟨fun r hr => by subst heq; exact hhead r hr, hrest⟩
      · rename_i hnlt hne
        refine List.pairwise_cons.mpr ⟨fun r hr => ?_, ih hrest⟩
        rcases mem_insertRow hr with rfl | hr
        · exact Std.lt_of_le_of_ne (Std.not_lt.mp hnlt) (Ne.symm hne)
        · exact hhead r hr

def empty : Table κ α := ⟨[], .nil⟩

instance : EmptyCollection (Table κ α) := ⟨empty⟩
instance : Inhabited (Table κ α) := ⟨empty⟩

def insert (t : Table κ α) (k : κ) (v : α) : Table κ α :=
  ⟨insertRow k v t.rows, insertRow_ascending t.ascending⟩

def find? (t : Table κ α) (k : κ) : Option α :=
  t.rows.lookup k

def contains (t : Table κ α) (k : κ) : Bool :=
  (t.find? k).isSome

def toList (t : Table κ α) : List (κ × α) := t.rows

def keys (t : Table κ α) : List κ := t.rows.map (·.1)

def values (t : Table κ α) : List α := t.rows.map (·.2)

def size (t : Table κ α) : Nat := t.rows.length

def isEmpty (t : Table κ α) : Bool := t.rows.isEmpty

def filter (t : Table κ α) (p : κ → α → Bool) : Table κ α :=
  ⟨t.rows.filter fun r => p r.1 r.2, t.ascending.filter _⟩

def erase (t : Table κ α) (k : κ) : Table κ α :=
  t.filter fun k' _ => k' != k

def map (t : Table κ α) (f : κ → α → β) : Table κ β :=
  ⟨t.rows.map fun r => (r.1, f r.1 r.2), by
    rw [List.pairwise_map]; exact t.ascending⟩

/-- The table of the rows given, a later row winning over an earlier one with its key. -/
def ofList (rows : List (κ × α)) : Table κ α :=
  rows.foldl (fun t r => t.insert r.1 r.2) empty

def merge (t u : Table κ α) : Table κ α :=
  u.rows.foldl (fun t r => t.insert r.1 r.2) t

def adjust (t : Table κ α) (k : κ) (f : α → α) : Table κ α :=
  t.map fun k' v => if k' = k then f v else v

@[simp] theorem find?_empty (k : κ) : (empty : Table κ α).find? k = none := rfl

theorem lookup_cons_eq_ite (k k' : κ) (v : α) (rows : List (κ × α)) :
    ((k, v) :: rows).lookup k' = if k' = k then some v else rows.lookup k' := by
  by_cases h : k' = k
  · simp [h]
  · have : (k' == k) = false := by simp [h]
    simp [List.lookup_cons, h, this]

theorem lookup_insertRow (k k' : κ) (v : α) {rows : List (κ × α)}
    (h : rows.Pairwise (fun a b => a.1 < b.1)) :
    (insertRow k v rows).lookup k' = if k' = k then some v else rows.lookup k' := by
  induction rows with
  | nil => simp [insertRow, lookup_cons_eq_ite]
  | cons head rest ih =>
    obtain ⟨hhead, hrest⟩ := List.pairwise_cons.mp h
    obtain ⟨hk, hv⟩ := head
    unfold insertRow
    split
    · simp [lookup_cons_eq_ite]
    · split
      · rename_i _ heq
        subst heq
        simp only [lookup_cons_eq_ite]
        by_cases hq : k' = k <;> simp [hq]
      · rename_i _ hne
        simp only [lookup_cons_eq_ite, ih hrest]
        by_cases hq : k' = hk
        · subst hq
          simp [Ne.symm hne]
        · simp [hq]

@[simp] theorem find?_insert (t : Table κ α) (k k' : κ) (v : α) :
    (t.insert k v).find? k' = if k' = k then some v else t.find? k' :=
  lookup_insertRow k k' v t.ascending

theorem mem_toList_iff (t : Table κ α) (k : κ) (v : α) :
    (k, v) ∈ t.toList ↔ t.find? k = some v := by
  obtain ⟨rows, h⟩ := t
  simp only [toList, find?]
  induction rows with
  | nil => simp
  | cons head rest ih =>
    obtain ⟨hhead, hrest⟩ := List.pairwise_cons.mp h
    obtain ⟨hk, hv⟩ := head
    by_cases hq : k = hk
    · subst hq
      have hno : ∀ w, (k, w) ∉ rest := fun w hw => Std.lt_irrefl (hhead (k, w) hw)
      simp [hno, eq_comm]
    · simp [lookup_cons_eq_ite, hq, ih hrest]

theorem rows_eq_of_mem_iff {r s : List (κ × α)}
    (hr : r.Pairwise (fun a b => a.1 < b.1)) (hs : s.Pairwise (fun a b => a.1 < b.1))
    (h : ∀ x, x ∈ r ↔ x ∈ s) : r = s := by
  induction r generalizing s with
  | nil =>
    cases s with
    | nil => rfl
    | cons y ys => exact absurd ((h y).mpr List.mem_cons_self) List.not_mem_nil
  | cons x xs ih =>
    cases s with
    | nil => exact absurd ((h x).mp List.mem_cons_self) List.not_mem_nil
    | cons y ys =>
      obtain ⟨hx, hxs⟩ := List.pairwise_cons.mp hr
      obtain ⟨hy, hys⟩ := List.pairwise_cons.mp hs
      have hxy : x = y := by
        rcases List.mem_cons.mp ((h x).mp List.mem_cons_self) with rfl | hmx
        · rfl
        · rcases List.mem_cons.mp ((h y).mpr List.mem_cons_self) with rfl | hmy
          · rfl
          · exact absurd (Std.lt_trans (hx y hmy) (hy x hmx)) Std.lt_irrefl
      subst hxy
      congr 1
      refine ih hxs hys fun z => ⟨fun hz => ?_, fun hz => ?_⟩
      · rcases List.mem_cons.mp ((h z).mp (List.mem_cons_of_mem _ hz)) with rfl | hz'
        · exact absurd (hx z hz) (Std.lt_irrefl)
        · exact hz'
      · rcases List.mem_cons.mp ((h z).mpr (List.mem_cons_of_mem _ hz)) with rfl | hz'
        · exact absurd (hy z hz) (Std.lt_irrefl)
        · exact hz'

@[ext] theorem ext_find? {t u : Table κ α} (h : ∀ k, t.find? k = u.find? k) : t = u := by
  have hrows : t.rows = u.rows := rows_eq_of_mem_iff t.ascending u.ascending fun x => by
    have ht := t.mem_toList_iff x.1 x.2
    have hu := u.mem_toList_iff x.1 x.2
    rw [h x.1] at ht
    exact ht.trans hu.symm
  cases t; cases u; cases hrows; rfl

theorem mem_keys_iff (t : Table κ α) (k : κ) : k ∈ t.keys ↔ (t.find? k).isSome := by
  simp only [keys, List.mem_map, Option.isSome_iff_exists]
  constructor
  · rintro ⟨⟨k', v⟩, hm, rfl⟩; exact ⟨v, (t.mem_toList_iff k' v).mp hm⟩
  · rintro ⟨v, hv⟩; exact ⟨(k, v), (t.mem_toList_iff k v).mpr hv, rfl⟩

@[simp] theorem find?_map (t : Table κ α) (f : κ → α → β) (k : κ) :
    (t.map f).find? k = (t.find? k).map (f k) := by
  obtain ⟨rows, h⟩ := t
  simp only [find?, map]
  clear h
  induction rows with
  | nil => rfl
  | cons head rest ih =>
    obtain ⟨hk, hv⟩ := head
    simp only [List.map_cons, lookup_cons_eq_ite, ih]
    by_cases hq : k = hk <;> simp [hq]

theorem find?_filter (t : Table κ α) (p : κ → α → Bool) (k : κ) :
    (t.filter p).find? k = (t.find? k).filter (p k) := by
  cases hf : (t.find? k).filter (p k) with
  | some v =>
    obtain ⟨hv, hp⟩ := Option.filter_eq_some_iff.mp hf
    refine ((t.filter p).mem_toList_iff k v).mp (List.mem_filter.mpr ⟨?_, hp⟩)
    exact (t.mem_toList_iff k v).mpr hv
  | none =>
    cases hq : (t.filter p).find? k with
    | none => rfl
    | some v =>
      have hm := List.mem_filter.mp (((t.filter p).mem_toList_iff k v).mpr hq)
      have hv := (t.mem_toList_iff k v).mp hm.1
      rw [hv, Option.filter_some, if_pos hm.2] at hf
      exact absurd hf (by simp)

@[simp] theorem find?_erase (t : Table κ α) (k k' : κ) :
    (t.erase k).find? k' = if k' = k then none else t.find? k' := by
  rw [erase, find?_filter]
  by_cases h : k' = k
  · subst h; cases t.find? k' <;> simp [Option.filter]
  · cases t.find? k' <;> simp [Option.filter, h]

@[simp] theorem find?_adjust (t : Table κ α) (k k' : κ) (f : α → α) :
    (t.adjust k f).find? k' = if k' = k then (t.find? k').map f else t.find? k' := by
  rw [adjust, find?_map]
  by_cases h : k' = k <;> simp [h]

instance [BEq α] : BEq (Table κ α) := ⟨fun t u => t.rows == u.rows⟩

end Table

end SignalBroker
