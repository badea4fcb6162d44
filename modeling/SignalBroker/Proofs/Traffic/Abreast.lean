import SignalBroker.Proofs.Broker.Telling
import SignalBroker.Proofs.Traffic.Setting

namespace SignalBroker

namespace Broker

variable {b b' : Broker Adapter} {path : String} {owner : Nat}

/-- The entry of a path has heard of every change of its owner. -/
def Abreast (b : Broker Adapter) (path : String) : Prop :=
  ∀ e m, b.registry.entries.find? path = some e → b.registry.members[e.owner]? = some m →
    m.source.store.seq ≤ e.seq

theorem Abreast.apply (h : b.Abreast path) (owner seq : Nat) (values : Values) :
    (b.apply owner seq values).2.Abreast path := by
  intro e' m he' hm
  obtain ⟨e, he, rfl⟩ := Option.map_eq_some_iff.mp
    ((b.registry.find?_apply owner seq values path).symm.trans he')
  rw [Entry.owner_hear] at hm
  exact Nat.le_trans (h e m he hm) (e.seq_le_hear owner seq _)

/-- A change of its owner that is told to an entry is the last one that the entry has to hear of. -/
theorem abreast_of_told {e : Entry} {v : SignalValue} {source : Adapter} {values : Values}
    (files : Files) (he : b.registry.entries.find? path = some e)
    (hv : values.find? path = some v) :
    ({ b with registry := b.registry.setSource e.owner source, files }.apply e.owner
      source.store.seq values).2.Abreast path := by
  intro e' m he' hm
  obtain ⟨old, hold, rfl⟩ := Option.map_eq_some_iff.mp
    (((b.registry.setSource e.owner source).find?_apply e.owner source.store.seq values
      path).symm.trans he')
  cases he.symm.trans hold
  have hm : (b.registry.setSource e.owner source).members[
      (e.hear e.owner source.store.seq (values.find? path)).owner]? = some m := hm
  rw [Entry.owner_hear, Registry.members_setSource] at hm
  obtain ⟨m', -, rfl⟩ := Option.map_eq_some_iff.mp hm
  rw [if_pos rfl, hv]
  exact e.le_seq_hear source.store.seq v

theorem Abreast.setSource (h : b.Abreast path) (source : Adapter) (files : Files)
    (hsame : ∀ e, b.registry.entries.find? path = some e → e.owner = owner →
      ∀ m, b.registry.members[owner]? = some m → source.store.seq = m.source.store.seq) :
    { b with registry := b.registry.setSource owner source, files : Broker Adapter }.Abreast
      path := by
  intro e m he hm
  have he : b.registry.entries.find? path = some e := he
  rw [Registry.members_setSource] at hm
  obtain ⟨old, hold, rfl⟩ := Option.map_eq_some_iff.mp hm
  have hle := h e old he hold
  split
  · next howner =>
    rw [howner] at hold
    rw [hsame e he howner old hold]
    exact hle
  · exact hle

/-- Writes that are carried out leave the entries abreast that they are given values for, and those
of sources that they leave alone. -/
theorem abreast_of_writeGroups {groups : List (Nat × Values)} {e : Entry}
    (hd : groups.Pairwise fun g g' => g.1 < g'.1) (h : b.writeGroups groups = (.done, b'))
    (he : b.registry.entries.find? path = some e)
    (hpath : (Traffic.given groups e.owner path).isSome = true ∨
      b.Abreast path ∧ ∀ g ∈ groups, e.owner ≠ g.1) : b'.Abreast path := by
  induction groups generalizing b e with
  | nil =>
    cases h
    obtain hgiven | ⟨habreast, -⟩ := hpath
    · cases hgiven
    · exact habreast
  | cons group rest ih =>
    obtain ⟨hhead, hrest⟩ := List.pairwise_cons.mp hd
    unfold writeGroups at h
    split at h
    · cases h
    · split at h
      · cases h
      · next m hm source files delivery hset =>
        cases delivery with
        | waiting => cases h
        | landed seq =>
          have hseq : seq = source.store.seq :=
            (Store.written_of_write (Adapter.store_of_set hset)).landed
          subst hseq
          have he' : ({ b with registry := b.registry.setSource group.1 source, files }.apply
              group.1 source.store.seq group.2).2.registry.entries.find? path =
              some (e.hear group.1 source.store.seq (group.2.find? path)) :=
            ((b.registry.setSource group.1 source).find?_apply group.1 source.store.seq group.2
              path).trans (by rw [show (b.registry.setSource group.1 source).entries.find? path =
                some e from he]; rfl)
          refine ih hrest h he' ?_
          rw [Entry.owner_hear]
          by_cases howner : e.owner = group.1
          · refine .inr ⟨?_, ?_⟩
            · obtain hgiven | ⟨-, hothers⟩ := hpath
              · rw [Traffic.given, if_pos howner] at hgiven
                obtain ⟨v, hv⟩ := Option.isSome_iff_exists.mp hgiven
                rw [← howner]
                exact abreast_of_told files he hv
              · exact absurd howner (hothers _ List.mem_cons_self)
            · intro g hg
              rw [howner]
              exact Nat.ne_of_lt (hhead g hg)
          · obtain hgiven | ⟨habreast, hothers⟩ := hpath
            · rw [Traffic.given, if_neg howner] at hgiven
              exact .inl hgiven
            · refine .inr ⟨?_, fun g hg => hothers g (List.mem_cons_of_mem _ hg)⟩
              refine (habreast.setSource source files ?_).apply _ _ _
              intro e₀ he₀ howner₀
              cases he.symm.trans he₀
              exact absurd howner₀ howner

theorem feed_cases (b : Broker Adapter) (owner : Nat) : b.feed owner = b ∨
    ∃ source batch stream, b.registry.members[owner]? = some ⟨source, true⟩ ∧
      SignalSource.receive source = some (batch, source.withStream stream) ∧
      b.feed owner = ({ b with
        registry := b.registry.setSource owner (source.withStream stream) }.apply owner
          batch.seq batch.values).2 := by
  unfold feed
  split
  · next source hm =>
    split
    · next batch source' hr =>
      obtain ⟨stream, -, rfl⟩ := Adapter.pop_of_receive hr
      exact .inr ⟨source, batch, stream, hm, hr, rfl⟩
    · exact .inl rfl
  · exact .inl rfl

theorem told_feed (b : Broker Adapter) (owner : Nat) : b.Told (b.feed owner) := by
  obtain hsame | ⟨source, batch, stream, -, -, hfed⟩ := b.feed_cases owner
  · rw [hsame]
    exact .refl b
  · rw [hfed]
    exact (b.told_setSource owner _ b.files).trans (told_apply _ owner batch.seq batch.values)

theorem Abreast.feed (h : b.Abreast path) (owner : Nat) : (b.feed owner).Abreast path := by
  obtain hsame | ⟨source, batch, stream, hm, -, hfed⟩ := b.feed_cases owner
  · rw [hsame]
    exact h
  · rw [hfed]
    refine (h.setSource (source.withStream stream) b.files ?_).apply owner batch.seq batch.values
    intro _ _ _ m hm'
    cases hm.symm.trans hm'
    rfl

theorem signal?_feed (owner k : Nat) (path : String) :
    (b.feed owner).signal? k path = b.signal? k path := by
  obtain hsame | ⟨source, batch, stream, hm, -, hfed⟩ := b.feed_cases owner
  · rw [hsame]
  · rw [hfed]
    show ((b.registry.setSource owner _).members[k]?).bind _ = (b.registry.members[k]?).bind _
    rw [Registry.members_setSource, Option.bind_map]
    by_cases hk : k = owner
    · subst hk
      rw [hm]
      simp [Adapter.withStream]
    · simp [hk]

def Fed : Broker Adapter → Broker Adapter → Prop :=
  Relation.ReflTransGen fun b b' => ∃ owner, b' = b.feed owner

theorem fed_feedTimes (b : Broker Adapter) (owner n : Nat) : b.Fed (b.feedTimes owner n) := by
  induction n generalizing b with
  | zero => exact .refl
  | succ n ih => exact (Relation.ReflTransGen.single ⟨owner, rfl⟩).trans (ih _)

theorem fed_settle (b : Broker Adapter) : b.Fed b.settle := by
  unfold settle
  generalize List.range b.registry.members.length = owners
  induction owners generalizing b with
  | nil => exact .refl
  | cons owner owners ih =>
    refine Relation.ReflTransGen.trans ?_ (ih _)
    dsimp only
    split
    · exact fed_feedTimes b owner _
    · exact .refl

theorem Fed.told (h : b.Fed b') : b.Told b' := by
  induction h with
  | refl => exact .refl b
  | tail _ hs ih =>
    obtain ⟨owner, rfl⟩ := hs
    exact ih.trans (told_feed _ owner)

theorem Abreast.fed (ha : b.Abreast path) (h : b.Fed b') : b'.Abreast path := by
  induction h with
  | refl => exact ha
  | tail _ hs ih =>
    obtain ⟨owner, rfl⟩ := hs
    exact ih.feed owner

theorem Fed.signal? (h : b.Fed b') (k : Nat) (path : String) :
    b'.signal? k path = b.signal? k path := by
  induction h with
  | refl => rfl
  | tail _ hs ih =>
    obtain ⟨owner, rfl⟩ := hs
    rw [signal?_feed, ih]

end Broker

namespace Traffic

variable {P : Adapter → Prop} {t : Traffic} {path : String}

/-- An entry that is abreast of its owner holds the value of its owner. -/
theorem value_of_abreast (h : t.Coherent) (ha : t.broker.Abreast path) {e : Entry} {signal : Signal}
    (he : t.broker.registry.entries.find? path = some e)
    (hs : t.broker.signal? e.owner path = some signal) :
    (e.value == signal.spec.value) = true := by
  obtain ⟨m, hm, hmir⟩ := h.entry path e he
  obtain ⟨htells, hfirst⟩ := h.member e.owner m hm
  have hlast : e.seq = m.source.store.seq := Nat.le_antisymm hmir.seq_le (ha e m he hm)
  obtain ⟨v, hv, hvalue⟩ := hmir.value
  have hsignal : m.source.store.signals.find? path = some signal := by
    rw [Broker.signal?, hm] at hs
    exact hs
  rw [Past.value?, hlast, Past.stamp_of_first_le hfirst, htells.value?, Store.value?,
    hsignal] at hv
  cases hv
  exact hvalue

theorem later_of_fed {b' : Broker Adapter} (h : t.broker.Fed b') :
    ∃ t', Later P t t' ∧ t'.broker = b' := by
  induction h with
  | refl => exact ⟨t, .refl, rfl⟩
  | tail _ hs ih =>
    obtain ⟨owner, rfl⟩ := hs
    obtain ⟨t', hl, rfl⟩ := ih
    obtain hsame | ⟨source, batch, stream, hm, hr, -⟩ := t'.broker.feed_cases owner
    · rw [hsame]
      exact ⟨t', hl, rfl⟩
    · exact ⟨_, hl.tail (.fed hm hr), broker_fed hm hr⟩

end Traffic

end SignalBroker
