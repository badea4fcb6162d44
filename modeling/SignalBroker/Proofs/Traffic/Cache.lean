import SignalBroker.Proofs.Broker.Reading
import SignalBroker.Proofs.Traffic.Freshness

namespace SignalBroker.Traffic

/-- The value of a source at a path after that many changes, up to the equality of values. -/
def Had (t : Traffic) (owner n : Nat) (path : String) (v : SignalValue) : Prop :=
  ∃ u, (t.past owner).history.value? n path = some u ∧ (u == v) = true

variable {P : Adapter → Prop} {t t' : Traffic}

theorem reached_later (h : Reached P t) (hl : Later P t t') : Reached P t' := by
  obtain ⟨resolver, clock, outboxCapacity, files, h⟩ := h
  exact ⟨resolver, clock, outboxCapacity, files, h.trans hl⟩

theorem had_entry (h : Reached Adapter.Idle t) {path : String} {e : Entry}
    (he : t.broker.registry.entries.find? path = some e) :
    t.Had e.owner (max e.seq (t.past e.owner).first) path e.value := by
  obtain ⟨m, hm, hmir⟩ := (coherent_of_reached h).entry path e he
  obtain ⟨v, hv, heq⟩ := hmir.value
  have htracks := (fresh_of_reached h).entry path e m he hm
  rw [Past.value?, Past.stamp_eq_max htracks.recent] at hv
  exact ⟨v, hv, BEq.symm heq⟩

theorem caught_up (h : Reached Adapter.Idle t) {owner : Nat} {m : Member Adapter}
    (hm : t.broker.registry.members[owner]? = some m) (hq : m.source.store.stream.queue = [])
    {path : String} {v : SignalValue} (hv : m.source.store.value? path = some v) :
    ∃ e, t.broker.registry.entries.find? path = some e ∧ e.owner = owner ∧ (e.value == v) = true := by
  have hcoherent := coherent_of_reached h
  obtain ⟨signal, hs, -⟩ := Option.map_eq_some_iff.mp hv
  obtain ⟨e, he, rfl⟩ := hcoherent.owned owner m path signal hm hs
  obtain ⟨m', hm', hmir⟩ := hcoherent.entry path e he
  cases hm.symm.trans hm'
  obtain ⟨u, hu, heq⟩ := hmir.value
  have htracks := (fresh_of_reached h).entry path e m he hm
  have hfirst := (hcoherent.member e.owner m hm).2
  have hnow := htracks.complete _ (Nat.le_refl _) (Past.stamp_le hfirst hmir.seq_le) (by simp [hq])
  have huv : some u = some v := hu.symm.trans (hnow.trans hv)
  cases huv
  exact ⟨e, he, rfl, heq⟩

/-- A write that has been applied is in the cache from then on, or a later value is. -/
theorem written_later (h : Reached Adapter.Idle t) {before after : List Change} {c : Change}
    (hl : t.landed = before ++ c :: after)
    (hlater : Later Adapter.Idle { t.apply c with landed := before ++ after } t')
    {path : String} {v : SignalValue} (hv : c.values.find? path = some v) :
    t'.Had c.owner c.seq path v ∧ ∃ e, t'.broker.registry.entries.find? path = some e ∧
      e.owner = c.owner ∧ c.seq ≤ e.seq ∧ t'.Had c.owner e.seq path e.value := by
  have hcoherent := coherent_of_reached h
  obtain ⟨m, hm, hlow, ha⟩ := hcoherent.landed c (by rw [hl]; simp)
  obtain ⟨u, hu, huv⟩ := ha.value path v hv
  obtain ⟨ht, hfirst⟩ := hcoherent.member c.owner m hm
  have hnext := coherent_finished hcoherent hl
  obtain ⟨m', hm', hc⟩ := member_later hnext hlater hm
  have hhad : t'.Had c.owner c.seq path v := by
    refine ⟨u, ?_, huv⟩
    rw [hc.value c.seq ha.seq_le]
    rwa [Past.value?, Past.stamp_of_first_le hlow] at hu
  obtain ⟨e, he, howner⟩ := hcoherent.target c (by rw [hl]; simp) path v hv
  have he₁ : (t.apply c).broker.registry.entries.find? path =
      some (e.hear e.owner c.seq (some v)) := by
    rw [find?_apply, he, hv, howner]
    rfl
  obtain ⟨e', he', howner', hle⟩ := entry_later hlater he₁
  rw [Entry.owner_hear] at howner'
  have hseq : c.seq ≤ e'.seq := Nat.le_trans (e.le_seq_hear c.seq v) hle
  have hreached := reached_later (reached_later h (.single (.finished hl))) hlater
  have hnow := had_entry hreached he'
  have hfirst' : (t'.past c.owner).first ≤ e'.seq := by
    rw [hc.first]
    exact Nat.le_trans hlow hseq
  rw [howner', howner, Nat.max_eq_left hfirst'] at hnow
  exact ⟨hhad, e', he', howner'.trans howner, hseq, hnow⟩

/-- The cache follows the histories of its sources. It holds what they have had, entries never fall
back, a write is seen from its application on, and what is not on its way has arrived. -/
theorem cache_follows_sources (h : Reached Adapter.Idle t) :
    (∀ owner m, t.broker.registry.members[owner]? = some m →
      (t.past owner).history[m.source.store.seq]? = some m.source.store.snapshot) ∧
    (∀ path e, t.broker.registry.entries.find? path = some e →
      t.Had e.owner (max e.seq (t.past e.owner).first) path e.value) ∧
    (∀ t', Later Adapter.Idle t t' →
      ∀ path e, t.broker.registry.entries.find? path = some e →
        ∃ e', t'.broker.registry.entries.find? path = some e' ∧ e'.owner = e.owner ∧ e.seq ≤ e'.seq) ∧
    (∀ before c after, t.landed = before ++ c :: after →
      ∀ t', Later Adapter.Idle { t.apply c with landed := before ++ after } t' →
        ∀ path v, c.values.find? path = some v → t'.Had c.owner c.seq path v ∧
          (∃ e, t'.broker.registry.entries.find? path = some e ∧ c.seq ≤ e.seq) ∧
          ∀ pattern rights values u, t'.broker.registry.get pattern rights = .ok values →
            values.find? path = some u → ∃ n, c.seq ≤ n ∧ t'.Had c.owner n path u) ∧
    ∀ owner m, t.broker.registry.members[owner]? = some m → m.source.store.stream.queue = [] →
      ∀ path v, m.source.store.value? path = some v →
        ∃ e, t.broker.registry.entries.find? path = some e ∧ e.owner = owner ∧
          (e.value == v) = true := by
  refine ⟨?_, fun path e => had_entry h, fun t' hl path e => entry_later hl, ?_,
    fun owner m hm hq path v => caught_up h hm hq⟩
  · intro owner m hm
    exact ((coherent_of_reached h).member owner m hm).1.present
  · intro before c after hl t' hlater path v hv
    obtain ⟨hhad, e, he, -, hseq, hnow⟩ := written_later h hl hlater hv
    refine ⟨hhad, ⟨e, he, hseq⟩, ?_⟩
    intro pattern rights values u hget hu
    obtain ⟨p, -, -, hvalue⟩ := Registry.readable_of_get hget hu
    rw [he] at hvalue
    cases hvalue
    exact ⟨e.seq, hseq, hnow⟩

def trunk : Adapter :=
  ⟨(Store.ofName "trunk").declare "Trunk.IsLocked" ⟨.bool false, true, false⟩, .memory⟩

/-- The lock is turned twice before the first of the two writes is applied. -/
theorem cache_follows_trunk : ∃ t c, Reached Adapter.Idle t ∧ t.landed.head? = some c ∧
    c.values.find? "Trunk.IsLocked" = some (.bool true) ∧ c.seq = 1 ∧
    (t.apply c).Had 0 1 "Trunk.IsLocked" (.bool true) ∧
    ∃ e, (t.apply c).broker.registry.entries.find? "Trunk.IsLocked" = some e ∧ 1 ≤ e.seq := by
  have hstart : Reached Adapter.Idle (start (.ofTable .empty 0) ⟨0⟩ 8 .empty) :=
    ⟨_, _, _, _, .refl⟩
  have htrunk := reached_later hstart (.single
    (@Step.registered _ _ trunk _ _ ⟨rfl, rfl⟩ (.declared (.created _ _) _ _) rfl))
  have hlocked := reached_later htrunk (.single
    (@Step.wrote _ _ 0 _ (.ofList [("Trunk.IsLocked", .bool true)]) _ _ _ rfl rfl))
  have hunlocked := reached_later hlocked (.single
    (@Step.wrote _ _ 0 _ (.ofList [("Trunk.IsLocked", .bool false)]) _ _ _ rfl rfl))
  obtain ⟨-, -, -, hwritten, -⟩ := cache_follows_sources hunlocked
  obtain ⟨hhad, hentry, -⟩ := hwritten [] _ _ rfl _ .refl "Trunk.IsLocked" (.bool true) rfl
  exact ⟨_, _, hunlocked, rfl, rfl, rfl, hhad, hentry⟩

end SignalBroker.Traffic
