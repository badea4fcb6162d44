import SignalBroker.Proofs.Traffic.Coherence

namespace SignalBroker

structure Entry.Takes (e : Entry) (v : Option SignalValue) (e' : Entry) : Prop where
  owner : e'.owner = e.owner
  isPublic : e'.isPublic = e.isPublic
  isReadOnly : e'.isReadOnly = e.isReadOnly
  same : v = none → e' = e
  value : ∀ u, v = some u → (e'.value == u) = true

namespace Entry

variable {e e' e'' : Entry} {v v' : Option SignalValue}

theorem Takes.refl (e : Entry) : e.Takes none e where
  owner := rfl
  isPublic := rfl
  isReadOnly := rfl
  same _ := rfl
  value _ h := by cases h

theorem Takes.trans (h : e.Takes v e') (h' : e'.Takes v' e'') (hone : v = none ∨ v' = none) :
    e.Takes (v.or v') e'' where
  owner := h'.owner.trans h.owner
  isPublic := h'.isPublic.trans h.isPublic
  isReadOnly := h'.isReadOnly.trans h.isReadOnly
  same hnone := by
    obtain ⟨hv, hv'⟩ := Option.or_eq_none_iff.mp hnone
    exact (h'.same hv').trans (h.same hv)
  value u hu := by
    obtain rfl | rfl := hone
    · rw [Option.none_or] at hu
      exact h'.value u hu
    · rw [Option.or_none] at hu
      rw [h'.same rfl]
      exact h.value u hu

theorem takes_hear {owner seq : Nat} (v : Option SignalValue) (h : e.owner = owner → e.seq ≤ seq) :
    e.Takes (if e.owner = owner then v else none) (e.hear owner seq v) := by
  refine ⟨e.owner_hear owner seq v, e.isPublic_hear owner seq v, e.isReadOnly_hear owner seq v, ?_, ?_⟩
  · intro hnone
    by_cases howner : e.owner = owner
    · rw [if_pos howner] at hnone
      rw [hnone]
      rfl
    · have hdeaf : e.heeds owner seq = false := by simp [heeds, howner]
      exact hear_of_not_heeds v hdeaf
  · intro u hu
    by_cases howner : e.owner = owner
    · rw [if_pos howner] at hu
      rw [hu, hear_of_heeds ((e.heeds_iff owner seq).mpr ⟨howner, h howner⟩)]
      obtain hvalue | ⟨hvalue, heq⟩ := e.value_advance seq u
      · rw [hvalue]
        exact BEq.rfl
      · rw [hvalue]
        exact heq
    · rw [if_neg howner] at hu
      cases hu

end Entry

namespace Broker

def signal? (b : Broker Adapter) (k : Nat) (path : String) : Option Signal :=
  (b.registry.members[k]?).bind fun m => m.source.store.signals.find? path

/-- The members have taken the values given to them, and the entries have followed. -/
structure Carried (b b' : Broker Adapter) (given : Nat → String → Option SignalValue) : Prop where
  signal : ∀ k path, b'.signal? k path =
    (b.signal? k path).map fun signal => signal.hear (given k path)
  absent : ∀ path, b.registry.entries.find? path = none → b'.registry.entries.find? path = none
  entry : ∀ path e, b.registry.entries.find? path = some e →
    ∃ e', b'.registry.entries.find? path = some e' ∧ e.Takes (given e.owner path) e'

variable {b b' b'' : Broker Adapter} {given given' : Nat → String → Option SignalValue}

theorem Carried.refl (b : Broker Adapter) : b.Carried b fun _ _ => none where
  signal k path := by
    cases b.signal? k path <;> rfl
  absent _ h := h
  entry _ e he := ⟨e, he, .refl e⟩

theorem Carried.trans (h : b.Carried b' given) (h' : b'.Carried b'' given')
    (hone : ∀ k path, given k path = none ∨ given' k path = none) :
    b.Carried b'' fun k path => (given k path).or (given' k path) where
  signal k path := by
    rw [h'.signal, h.signal, Option.map_map]
    congr 1
    funext signal
    obtain hnone | hnone := hone k path
    · rw [hnone, Option.none_or]
      rfl
    · rw [hnone, Option.or_none]
      rfl
  absent path hnone := h'.absent path (h.absent path hnone)
  entry path e he := by
    obtain ⟨e', he', htakes⟩ := h.entry path e he
    obtain ⟨e'', he'', htakes'⟩ := h'.entry path e' he'
    rw [htakes.owner] at htakes'
    exact ⟨e'', he'', htakes.trans htakes' (hone e.owner path)⟩

end Broker

namespace Traffic

variable {t : Traffic} {owner : Nat} {m : Member Adapter} {values : Values}

/-- Values for paths of one owner, none of them read-only, and room in its stream. -/
structure Ready (t : Traffic) (owner : Nat) (values : Values) : Prop where
  room : ∃ m, t.broker.registry.members[owner]? = some m ∧ m.source.store.stream.hasRoom = true
  entry : ∀ path v, values.find? path = some v → ∃ e,
    t.broker.registry.entries.find? path = some e ∧ e.owner = owner ∧ e.isReadOnly = false

theorem set_lands (h : t.Coherent) (hready : t.Ready owner values) : ∃ m source files n,
    t.broker.registry.members[owner]? = some m ∧
      SignalSource.set m.source t.broker.files values = .ok (source, files, .landed n) := by
  obtain ⟨m, hm, hroom⟩ := hready.room
  have hpassed : ∀ path v, values.find? path = some v →
      m.source.store.refusal? true path = none := by
    intro path v hv
    obtain ⟨e, he, howner, hopen⟩ := hready.entry path v hv
    obtain ⟨me, hme, hmir⟩ := h.entry path e he
    rw [howner, hm] at hme
    cases hme
    obtain ⟨signal, hs, -, hflag⟩ := hmir.signal
    exact m.source.store.refusal?_eq_none_iff.mpr ⟨signal, hs, fun _ => hflag.trans hopen⟩
  obtain ⟨store, n, hwrite⟩ := Store.write_lands hroom hpassed
  exact ⟨m, _, _, n, hm, Adapter.set_lands t.broker.files hwrite⟩

theorem carried_set (h : t.Coherent) {source : Adapter} {files : Files} {n : Nat}
    (hm : t.broker.registry.members[owner]? = some m)
    (hset : SignalSource.set m.source t.broker.files values = .ok (source, files, .landed n)) :
    Coherent ((t.put owner source files).apply ⟨owner, n, values⟩) ∧
      t.broker.Carried ((t.put owner source files).apply ⟨owner, n, values⟩).broker
        fun k path => if k = owner then values.find? path else none := by
  have hstore := Adapter.store_of_set hset
  have hwritten := Store.written_of_write hstore
  obtain ⟨hput, hlanded⟩ : (t.put owner source files).Coherent ∧ _ := coherent_wrote h hm hstore
  have hlast : t.landed ++ [⟨owner, n, values⟩] = t.landed ++ ⟨owner, n, values⟩ :: [] := rfl
  have happlied := coherent_finished hlanded hlast
  rw [List.append_nil] at happlied
  refine ⟨happlied, ?_, ?_, ?_⟩
  · intro k path
    show ((t.put owner source files).broker.registry.members[k]?).bind _ = _
    rw [members_put, Broker.signal?]
    by_cases howner : k = owner
    · subst howner
      rw [hm]
      simp only [Option.map_some, Option.bind_some, if_true]
      exact hwritten.find? path
    · cases t.broker.registry.members[k]? with
      | none => rfl
      | some mk =>
        simp only [Option.map_some, Option.bind_some, if_neg howner]
        cases mk.source.store.signals.find? path <;> rfl
  · intro path hnone
    rw [find?_apply]
    show (t.broker.registry.entries.find? path).map _ = none
    rw [hnone]
    rfl
  · intro path e he
    refine ⟨e.hear owner n (values.find? path), ?_, Entry.takes_hear _ ?_⟩
    · rw [find?_apply]
      show (t.broker.registry.entries.find? path).map _ = _
      rw [he]
      rfl
    · intro howner
      obtain ⟨me, hme, hmir⟩ := h.entry path e he
      rw [howner, hm] at hme
      cases hme
      have hle := (Past.continues_written (h.member owner m hm).1 hwritten).seq_le
      rw [hwritten.landed]
      exact Nat.le_trans hmir.seq_le hle

def given : List (Nat × Values) → Nat → String → Option SignalValue
  | [], _, _ => none
  | (owner, values) :: rest, k, path => if k = owner then values.find? path else given rest k path

theorem given_eq_none {groups : List (Nat × Values)} {k : Nat} (h : ∀ group ∈ groups, k ≠ group.1)
    (path : String) : given groups k path = none := by
  induction groups with
  | nil => rfl
  | cons group rest ih =>
    obtain ⟨hk, hrest⟩ := List.forall_mem_cons.mp h
    rw [given, if_neg hk]
    exact ih hrest

theorem given_cons {group : Nat × Values} {rest : List (Nat × Values)}
    (h : ∀ g ∈ rest, group.1 < g.1) : given (group :: rest) =
      fun k path => (if k = group.1 then group.2.find? path else none).or (given rest k path) := by
  funext k path
  by_cases hk : k = group.1
  · subst hk
    rw [if_pos rfl, given_eq_none (fun g hg => Nat.ne_of_lt (h g hg)), Option.or_none]
    exact if_pos rfl
  · rw [if_neg hk, Option.none_or]
    exact if_neg hk

theorem given_of_mem {groups : List (Nat × Values)} (hd : groups.Pairwise fun g g' => g.1 < g'.1)
    {k : Nat} {values : Values} (hm : (k, values) ∈ groups) (path : String) :
    given groups k path = values.find? path := by
  induction groups with
  | nil => cases hm
  | cons group rest ih =>
    obtain ⟨hhead, hrest⟩ := List.pairwise_cons.mp hd
    obtain rfl | hm := List.mem_cons.mp hm
    · exact if_pos rfl
    · have hk : k ≠ group.1 := Nat.ne_of_gt (hhead _ hm)
      rw [given, if_neg hk]
      exact ih hrest hm

/-- What has been carried out for one owner leaves the others ready. -/
theorem Ready.carried {t' : Traffic} {k : Nat} {values' : Values} (h : t.Ready k values')
    (hmember : t'.broker.registry.members[k]? = t.broker.registry.members[k]?)
    {given : Nat → String → Option SignalValue} (hc : t.broker.Carried t'.broker given) :
    t'.Ready k values' := by
  refine ⟨?_, ?_⟩
  · rw [hmember]
    exact h.room
  · intro path v hv
    obtain ⟨e, he, howner, hopen⟩ := h.entry path v hv
    obtain ⟨e', he', htakes⟩ := hc.entry path e he
    exact ⟨e', he', htakes.owner.trans howner, htakes.isReadOnly.trans hopen⟩

theorem writeGroups_carried {groups : List (Nat × Values)} (h : t.Coherent)
    (hd : groups.Pairwise fun g g' => g.1 < g'.1) (hready : ∀ g ∈ groups, t.Ready g.1 g.2) :
    ∃ b', t.broker.writeGroups groups = (.done, b') ∧ t.broker.Carried b' (given groups) := by
  induction groups generalizing t with
  | nil => exact ⟨t.broker, rfl, .refl t.broker⟩
  | cons group rest ih =>
    obtain ⟨hhead, hrest⟩ := List.pairwise_cons.mp hd
    obtain ⟨hgroup, hready⟩ := List.forall_mem_cons.mp hready
    obtain ⟨m, source, files, n, hm, hset⟩ := set_lands h hgroup
    obtain ⟨hcoherent, hcarried⟩ := carried_set h hm hset
    have hready' : ∀ g ∈ rest,
        ((t.put group.1 source files).apply ⟨group.1, n, group.2⟩).Ready g.1 g.2 := by
      intro g hg
      refine (hready g hg).carried ?_ hcarried
      exact member_put_ne (Nat.ne_of_gt (hhead g hg)) source files
    obtain ⟨b', hwrite, hcarried'⟩ := ih hcoherent hrest hready'
    refine ⟨b', ?_, ?_⟩
    · unfold Broker.writeGroups
      rw [hm]
      simp only [hset]
      exact hwrite
    · rw [given_cons hhead]
      refine hcarried.trans hcarried' ?_
      intro k path
      by_cases hk : k = group.1
      · subst hk
        exact .inr (given_eq_none (fun g hg => Nat.ne_of_lt (hhead g hg)) path)
      · exact .inl (if_neg hk)

end Traffic

end SignalBroker
