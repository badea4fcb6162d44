import SignalBroker.Broker.Registry
import SignalBroker.Proofs.Path.Literal
import SignalBroker.Proofs.Table

namespace SignalBroker.Registry

variable {σ : Type}

/-- A registered path that a pattern matches and that is public or granted for reading. -/
def Readable (r : Registry σ) (rights : Rights) (p : Pattern) (path : String) : Prop :=
  ∃ e, r.entries.find? path = some e ∧ p.matches path = true ∧
    (e.isPublic = true ∨ rights.grants.canRead path = true)

def publicity (r : Registry σ) (path : String) : Option Bool :=
  (r.entries.find? path).map (·.isPublic)

theorem readable_iff (r : Registry σ) (rights : Rights) (p : Pattern) (path : String) :
    r.Readable rights p path ↔ ∃ isPublic, r.publicity path = some isPublic ∧
      p.matches path = true ∧ (isPublic = true ∨ rights.grants.canRead path = true) := by
  constructor
  · rintro ⟨e, he, h⟩
    exact ⟨e.isPublic, by rw [publicity, he]; rfl, h⟩
  · rintro ⟨isPublic, hp, h⟩
    obtain ⟨e, he, rfl⟩ := Option.map_eq_some_iff.mp hp
    exact ⟨e, he, h⟩

theorem find?_matching (r : Registry σ) (p : Pattern) (path : String) :
    (r.matching p).find? path = (r.entries.find? path).filter fun _ => p.matches path := by
  unfold matching
  split
  · next hl =>
    have hm := Pattern.matches_iff_eq_text hl path
    by_cases hp : path = p.text
    · subst hp
      have ht : p.matches p.text = true := hm.mpr rfl
      cases he : r.entries.find? p.text with
      | none => rfl
      | some e => simp [ht, Option.filter]
    · have hf : p.matches path = false := Bool.eq_false_iff.mpr fun h => hp (hm.mp h)
      have hn : (r.entries.find? path).filter (fun _ => p.matches path) = none := by simp [hf]
      rw [hn]
      split
      · rw [Table.find?_insert, if_neg hp, Table.find?_empty]
      · rfl
  · exact Table.find?_filter _ _ _

theorem matching_eq_filter (r : Registry σ) (p : Pattern) :
    r.matching p = r.entries.filter fun path _ => p.matches path := by
  ext path : 1
  rw [find?_matching, Table.find?_filter]

theorem find?_visible (r : Registry σ) (p : Pattern) (rights : Rights) (path : String) :
    (r.visible p rights).find? path =
      (r.entries.find? path).filter fun e => p.matches path && rights.canRead path e.isPublic := by
  rw [visible, Table.find?_filter, find?_matching, Option.filter_filter]

theorem find?_of_visible {r : Registry σ} {p : Pattern} {rights : Rights} {path : String} {e : Entry}
    (h : (r.visible p rights).find? path = some e) : r.entries.find? path = some e := by
  rw [find?_visible] at h
  exact (Option.filter_eq_some_iff.mp h).1

theorem readable_iff_visible (r : Registry σ) (p : Pattern) (rights : Rights) (path : String) :
    r.Readable rights p path ↔ ∃ e, (r.visible p rights).find? path = some e := by
  simp only [find?_visible, Option.filter_eq_some_iff, Bool.and_eq_true, Rights.canRead,
    Bool.or_eq_true, Readable]

theorem visible_isEmpty_iff {r : Registry σ} {p : Pattern} {rights : Rights} :
    (r.visible p rights).isEmpty = true ↔ ∀ path, ¬ r.Readable rights p path := by
  rw [Table.isEmpty_iff]
  refine forall_congr' fun path => ?_
  rw [readable_iff_visible, Option.eq_none_iff_forall_ne_some, not_exists]

theorem mem_visiblePaths_iff (r : Registry σ) (p : Pattern) (rights : Rights) (path : String) :
    path ∈ r.visiblePaths p rights ↔ r.Readable rights p path := by
  rw [visiblePaths, Table.mem_keys_iff, Option.isSome_iff_exists, readable_iff_visible]

theorem visiblePaths_eq_nil_iff {r : Registry σ} {p : Pattern} {rights : Rights} :
    r.visiblePaths p rights = [] ↔ ∀ path, ¬ r.Readable rights p path := by
  rw [List.eq_nil_iff_forall_not_mem]
  exact forall_congr' fun path => not_congr (r.mem_visiblePaths_iff p rights path)

theorem compile_eq_ok_iff {pattern : String} {p : Pattern} :
    compile pattern = .ok p ↔ Pattern.ofText pattern = .ok p := by
  unfold compile
  cases Pattern.ofText pattern <;> simp [Except.mapError]

theorem readable_eq_ok {r : Registry σ} {p : Pattern} {rights : Rights} {t : Table String Entry}
    (h : r.readable p rights = .ok t) : t = r.visible p rights := by
  unfold readable at h
  split at h
  · cases h
  · split at h
    · cases h
    · cases h; rfl

theorem readablePaths_eq_ok {r : Registry σ} {pattern : String} {rights : Rights} {p : Pattern}
    {paths : List String} (h : r.readablePaths pattern rights = .ok (p, paths)) :
    Pattern.ofText pattern = .ok p ∧ paths = r.visiblePaths p rights := by
  obtain ⟨q, hq, h⟩ := bind_eq_ok_iff.mp h
  obtain ⟨t, ht, h⟩ := bind_eq_ok_iff.mp h
  cases h
  exact ⟨compile_eq_ok_iff.mp hq, by rw [readable_eq_ok ht]; rfl⟩

theorem get_eq_ok {r : Registry σ} {pattern : String} {rights : Rights} {values : Values}
    (h : r.get pattern rights = .ok values) :
    ∃ p, Pattern.ofText pattern = .ok p ∧ values = (r.visible p rights).map fun _ e => e.value := by
  obtain ⟨p, hp, h⟩ := bind_eq_ok_iff.mp h
  obtain ⟨t, ht, h⟩ := bind_eq_ok_iff.mp h
  cases h
  exact ⟨p, compile_eq_ok_iff.mp hp, by rw [readable_eq_ok ht]⟩

theorem readable_of_get {r : Registry σ} {pattern path : String} {rights : Rights} {values : Values}
    {v : SignalValue} (h : r.get pattern rights = .ok values) (hv : values.find? path = some v) :
    ∃ p, Pattern.ofText pattern = .ok p ∧ r.Readable rights p path ∧
      (r.entries.find? path).map (·.value) = some v := by
  obtain ⟨p, hp, rfl⟩ := get_eq_ok h
  rw [Table.find?_map] at hv
  obtain ⟨e, he, rfl⟩ := Option.map_eq_some_iff.mp hv
  refine ⟨p, hp, (r.readable_iff_visible p rights path).mpr ⟨e, he⟩, ?_⟩
  rw [find?_of_visible he]
  rfl

end SignalBroker.Registry
