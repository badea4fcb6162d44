import SignalBroker.Proofs.Traffic.Progress

namespace SignalBroker

/-- The second change comes after the first one wherever both are about a path of one source. -/
def Change.Precedes (c d : Change) : Prop :=
  c.owner = d.owner → ∀ path v w, c.values.find? path = some v → d.values.find? path = some w →
    c.seq < d.seq

namespace Traffic

variable {P : Adapter → Prop} {t t' : Traffic} {c : Change}

theorem later_of_news (h : t.Coherent) {s : Store}
    (ha : (t.past c.owner).Admits s c.seq c.values) {path : String} {v : SignalValue}
    (hv : (t.broker.news c).values.find? path = some v) :
    ∃ e, t.broker.registry.entries.find? path = some e ∧ e.owner = c.owner ∧ e.seq < c.seq := by
  obtain ⟨hvalue, e, he, hheeds, hdiffers⟩ := (Registry.find?_news _ _ _ _ path v).mp hv
  obtain ⟨howner, hle⟩ := (e.heeds_iff c.owner c.seq).mp hheeds
  obtain ⟨me, hme, hmir⟩ := h.entry path e he
  have hne : (e.value == v) = false := by
    simpa [Entry.differs, hmir.initialized] using hdiffers
  refine ⟨e, he, howner, Nat.lt_of_le_of_ne hle ?_⟩
  intro hseq
  obtain ⟨u, hu, hue⟩ := hmir.value
  obtain ⟨w, hw, hwv⟩ := ha.value path v hvalue
  rw [howner, hseq, hw] at hu
  cases hu
  rw [BEq.trans hue hwv] at hne
  cases hne

structure Ordered (t : Traffic) : Prop where
  news : t.news.Pairwise Change.Precedes
  behind : ∀ d ∈ t.news, ∀ path v, d.values.find? path = some v →
    ∃ e, t.broker.registry.entries.find? path = some e ∧ d.seq ≤ e.seq

theorem ordered_apply (h : t.Ordered) (hcoherent : t.Coherent) {s : Store}
    (ha : (t.past c.owner).Admits s c.seq c.values) : (t.apply c).Ordered := by
  have hnews : (t.apply c).news = t.news ++ [t.broker.news c] := rfl
  refine ⟨?_, ?_⟩
  · rw [hnews]
    refine List.pairwise_append.mpr ⟨h.news, List.pairwise_singleton _ _, ?_⟩
    intro d hd _ hc _ path v w hv hw
    cases List.mem_singleton.mp hc
    obtain ⟨e, he, hle⟩ := h.behind d hd path v hv
    obtain ⟨e', he', -, hlt⟩ := later_of_news hcoherent ha hw
    cases he.symm.trans he'
    exact Nat.lt_of_le_of_lt hle hlt
  · intro d hd path v hv
    rw [hnews] at hd
    obtain hd | hd := List.mem_append.mp hd
    · obtain ⟨e, he, hle⟩ := h.behind d hd path v hv
      obtain ⟨e', he', -, hle'⟩ := entry_apply (c := c) he
      exact ⟨e', he', Nat.le_trans hle hle'⟩
    · cases List.mem_singleton.mp hd
      obtain ⟨e, he, howner, -⟩ := later_of_news hcoherent ha hv
      obtain ⟨hvalue, -⟩ := (Registry.find?_news _ _ _ _ path v).mp hv
      refine ⟨e.hear e.owner c.seq (some v), ?_, e.le_seq_hear c.seq v⟩
      rw [find?_apply, he, hvalue, howner]
      rfl

theorem ordered_step (h : t.Ordered) (hcoherent : t.Coherent) (hs : Step P t t') : t'.Ordered := by
  cases hs with
  | registered _ _ hr =>
    obtain ⟨new, hnew, -⟩ := register_eq_ok hr
    refine ⟨h.news, ?_⟩
    intro d hd path v hv
    obtain ⟨e, he, hle⟩ := h.behind d hd path v hv
    exact ⟨e, find?_enrolled hnew he, hle⟩
  | updated => exact ⟨h.news, h.behind⟩
  | wrote => exact ⟨h.news, h.behind⟩
  | @finished before c after hl =>
    obtain ⟨_, -, -, ha⟩ := hcoherent.landed c (by rw [hl]; simp)
    have happly := ordered_apply h hcoherent ha
    exact ⟨happly.news, happly.behind⟩
  | @fed owner source batch source' hm hr =>
    obtain ⟨hput, _, -, ha⟩ := admits_fed hcoherent hm hr
    have hordered : (t.put owner source' t.broker.files).Ordered := ⟨h.news, h.behind⟩
    exact ordered_apply hordered hput ha
  | moved => exact ⟨h.news, h.behind⟩

theorem ordered_later (h : t.Ordered) (hcoherent : t.Coherent) (hl : Later P t t') : t'.Ordered := by
  induction hl with
  | refl => exact h
  | tail hl hs ih => exact ordered_step ih (coherent_later hcoherent hl) hs

theorem ordered_of_reached (h : Reached P t) : t.Ordered := by
  obtain ⟨resolver, clock, outboxCapacity, files, hl⟩ := h
  refine ordered_later ⟨.nil, ?_⟩ (coherent_start resolver clock outboxCapacity files) hl
  intro d hd
  cases hd

end Traffic

end SignalBroker
