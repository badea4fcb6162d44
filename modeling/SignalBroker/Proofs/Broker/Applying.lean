import SignalBroker.Proofs.Broker.Reading

namespace SignalBroker

structure Change where
  owner : Nat
  seq : Nat
  values : Values

namespace Entry

def hear (e : Entry) (owner seq : Nat) : Option SignalValue → Entry
  | some value => if e.heeds owner seq then e.advance seq value else e
  | none => e

variable (e : Entry) (owner seq : Nat) (v : Option SignalValue)

theorem hear_of_heeds {e : Entry} {owner seq : Nat} (h : e.heeds owner seq = true)
    (value : SignalValue) : e.hear owner seq (some value) = e.advance seq value :=
  if_pos h

theorem hear_of_not_heeds {e : Entry} {owner seq : Nat} (h : e.heeds owner seq = false) :
    e.hear owner seq v = e := by
  cases v with
  | none => rfl
  | some value => exact if_neg (by simp [h])

theorem heeds_iff : e.heeds owner seq = true ↔ e.owner = owner ∧ e.seq ≤ seq := by
  simp [heeds]

theorem hear_fields :
    (e.hear owner seq v).isPublic = e.isPublic ∧ (e.hear owner seq v).isReadOnly = e.isReadOnly ∧
      (e.hear owner seq v).owner = e.owner := by
  unfold hear advance
  split
  · split
    · split <;> exact ⟨rfl, rfl, rfl⟩
    · exact ⟨rfl, rfl, rfl⟩
  · exact ⟨rfl, rfl, rfl⟩

theorem isPublic_hear : (e.hear owner seq v).isPublic = e.isPublic := (hear_fields e owner seq v).1

theorem isReadOnly_hear : (e.hear owner seq v).isReadOnly = e.isReadOnly :=
  (hear_fields e owner seq v).2.1

theorem owner_hear : (e.hear owner seq v).owner = e.owner := (hear_fields e owner seq v).2.2

theorem seq_advance (value : SignalValue) : (e.advance seq value).seq = seq := by
  unfold advance
  split <;> rfl

theorem initialized_advance (value : SignalValue) : (e.advance seq value).initialized = true := by
  unfold advance
  split
  · rfl
  · next h => simp_all [differs]

theorem value_advance (value : SignalValue) :
    (e.advance seq value).value = value ∨
      (e.advance seq value).value = e.value ∧ e.value == value := by
  unfold advance
  split
  · exact .inl rfl
  · next h => exact .inr ⟨rfl, by simp_all [differs]⟩

theorem seq_le_hear : e.seq ≤ (e.hear owner seq v).seq := by
  cases h : e.heeds owner seq with
  | false => exact Nat.le_of_eq (congrArg Entry.seq (hear_of_not_heeds v h)).symm
  | true =>
    cases v with
    | none => exact Nat.le_refl _
    | some value =>
      rw [hear_of_heeds h, seq_advance]
      exact ((e.heeds_iff owner seq).mp h).2

theorem le_seq_hear (value : SignalValue) : seq ≤ (e.hear e.owner seq (some value)).seq := by
  cases h : e.heeds e.owner seq with
  | true =>
    have hseq : (e.hear e.owner seq (some value)).seq = seq := by
      rw [hear_of_heeds h, seq_advance]
    exact Nat.le_of_eq hseq.symm
  | false =>
    rw [hear_of_not_heeds _ h]
    have hlt : ¬ e.seq ≤ seq := fun hle => by simp [heeds, hle] at h
    omega

theorem initialized_hear (h : e.initialized = true) : (e.hear owner seq v).initialized = true := by
  cases hh : e.heeds owner seq with
  | false => rw [hear_of_not_heeds v hh]; exact h
  | true =>
    cases v with
    | none => exact h
    | some value => rw [hear_of_heeds hh, initialized_advance]

end Entry

namespace Registry

variable {σ : Type} (r : Registry σ) (owner seq : Nat) (values : Values)

theorem find?_apply (path : String) :
    (r.apply owner seq values).entries.find? path =
      (r.entries.find? path).map fun e => e.hear owner seq (values.find? path) := by
  unfold apply
  rw [Table.find?_map]
  rfl

theorem publicity_apply (path : String) :
    (r.apply owner seq values).publicity path = r.publicity path := by
  rw [publicity, find?_apply, Option.map_map]
  congr 1
  funext e
  exact e.isPublic_hear owner seq _

theorem find?_news (path : String) (value : SignalValue) :
    (r.news owner seq values).find? path = some value ↔ values.find? path = some value ∧
      ∃ e, r.entries.find? path = some e ∧ e.heeds owner seq = true ∧ e.differs value = true := by
  rw [news, Table.find?_filter, Option.filter_eq_some_iff]
  cases r.entries.find? path <;> simp

def cached : Values := r.entries.map fun _ e => e.value

/-- The values of a registry are what they were, overwritten by the news. -/
theorem cached_apply :
    (r.apply owner seq values).cached = r.cached.merge (r.news owner seq values) := by
  ext path : 1
  rw [Table.find?_merge, cached, cached, Table.find?_map, Table.find?_map, find?_apply]
  cases he : r.entries.find? path with
  | none =>
    have hn : (r.news owner seq values).find? path = none := by
      apply Option.eq_none_iff_forall_ne_some.mpr
      intro v hv
      obtain ⟨_, e, he', _⟩ := (r.find?_news owner seq values path v).mp hv
      rw [he] at he'
      cases he'
    rw [hn]
    rfl
  | some e =>
    cases hn : (r.news owner seq values).find? path with
    | some v =>
      obtain ⟨hv, e', he', hh, hd⟩ := (r.find?_news owner seq values path v).mp hn
      rw [he] at he'
      cases he'
      simp [hv, Entry.hear_of_heeds hh, Entry.advance, hd]
    | none =>
      simp only [Option.map_some, Option.none_or, Option.some.injEq]
      cases hv : values.find? path with
      | none => rfl
      | some v =>
        cases hh : e.heeds owner seq with
        | false => rw [Entry.hear_of_not_heeds _ hh]
        | true =>
          have hd : e.differs v = false := by
            apply Bool.eq_false_iff.mpr
            intro hd
            rw [(r.find?_news owner seq values path v).mpr ⟨hv, e, he, hh, hd⟩] at hn
            cases hn
          simp [Entry.hear_of_heeds hh, Entry.advance, hd]

end Registry

end SignalBroker
