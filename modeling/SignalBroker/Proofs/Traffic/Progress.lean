import SignalBroker.Proofs.Traffic.Coherence

namespace SignalBroker.Traffic

variable {P : Adapter → Prop} {t t' : Traffic}

theorem member_step (h : t.Coherent) (hs : Step P t t') {k : Nat} {m : Member Adapter}
    (hk : t.broker.registry.members[k]? = some m) : ∃ m', t'.broker.registry.members[k]? = some m' ∧
      (t.past k).Continues m.source.store (t'.past k) m'.source.store := by
  have hsame := Past.Continues.refl (h.member k m hk).1
  cases hs with
  | registered _ _ hr =>
    obtain ⟨new, hnew, -⟩ := register_eq_ok hr
    have hne : k ≠ t.broker.registry.members.length := by
      rintro rfl
      simp at hk
    simp only [getElem?_enrolled hnew, Function.update_apply, if_neg hne]
    exact ⟨m, hk, hsame⟩
  | @updated owner mo values store seq backing hm hu =>
    have hw : mo.source.store.write false values = .ok (store, .landed seq) := hu
    have hc := Past.continues_written (h.member owner mo hm).1 (Store.written_of_write hw)
    exact continues_put _ h hm hc hk
  | @wrote owner mo values source files seq hm hw =>
    have hwritten := Store.written_of_write (Adapter.store_of_set hw)
    have hc := Past.continues_written (h.member owner mo hm).1 hwritten
    exact continues_put _ h hm hc hk
  | finished => exact ⟨m, hk, hsame⟩
  | @fed owner source batch source' hm hr =>
    obtain ⟨stream, hp, rfl⟩ := Adapter.pop_of_receive hr
    have ht : (t.past owner).history.Tells source.store := (h.member owner _ hm).1
    have hc := Past.continues_popped ht hp
    exact continues_put t.broker.files h hm hc hk
  | moved => exact ⟨m, hk, hsame⟩

theorem member_later (h : t.Coherent) (hl : Later P t t') {k : Nat} {m : Member Adapter}
    (hk : t.broker.registry.members[k]? = some m) : ∃ m', t'.broker.registry.members[k]? = some m' ∧
      (t.past k).Continues m.source.store (t'.past k) m'.source.store := by
  induction hl with
  | refl => exact ⟨m, hk, .refl (h.member k m hk).1⟩
  | tail hl hs ih =>
    obtain ⟨m₁, hk₁, hc₁⟩ := ih
    obtain ⟨m₂, hk₂, hc₂⟩ := member_step (coherent_later h hl) hs hk₁
    exact ⟨m₂, hk₂, hc₁.trans hc₂⟩

theorem entry_step (hs : Step P t t') {path : String} {e : Entry}
    (he : t.broker.registry.entries.find? path = some e) :
    ∃ e', t'.broker.registry.entries.find? path = some e' ∧ e'.owner = e.owner ∧ e.seq ≤ e'.seq := by
  cases hs with
  | registered _ _ hr =>
    obtain ⟨new, hnew, -⟩ := register_eq_ok hr
    exact ⟨e, find?_enrolled hnew he, rfl, Nat.le_refl _⟩
  | finished => exact entry_apply he
  | fed => exact entry_apply (t := t.put _ _ _) he
  | updated => exact ⟨e, he, rfl, Nat.le_refl _⟩
  | wrote => exact ⟨e, he, rfl, Nat.le_refl _⟩
  | moved => exact ⟨e, he, rfl, Nat.le_refl _⟩

theorem entry_later (hl : Later P t t') {path : String} {e : Entry}
    (he : t.broker.registry.entries.find? path = some e) :
    ∃ e', t'.broker.registry.entries.find? path = some e' ∧ e'.owner = e.owner ∧ e.seq ≤ e'.seq := by
  induction hl with
  | refl => exact ⟨e, he, rfl, Nat.le_refl _⟩
  | tail _ hs ih =>
    obtain ⟨e₁, he₁, howner₁, hle₁⟩ := ih
    obtain ⟨e₂, he₂, howner₂, hle₂⟩ := entry_step hs he₁
    exact ⟨e₂, he₂, howner₂.trans howner₁, Nat.le_trans hle₁ hle₂⟩

end SignalBroker.Traffic
