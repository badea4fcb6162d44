import SignalBroker.Proofs.Broker.Telling

namespace SignalBroker

def Entry.outline (e : Entry) : Entry := { e with value := .null }

/-- Values of the same paths, and the same values of all that are not hidden. -/
structure Values.Alike (hidden : String → Prop) (values values' : Values) : Prop where
  keys : values'.keys = values.keys
  shown : ∀ path, ¬ hidden path → values'.find? path = values.find? path

namespace Entry

variable (e : Entry) (owner seq : Nat)

theorem outline_advance (value : SignalValue) :
    (e.advance seq value).outline = { e.outline with seq, initialized := true } := by
  unfold advance
  split
  · rfl
  · next hd =>
    have hinit : e.initialized = true := by simp_all [differs]
    simp [outline, hinit]

def mark (told : Bool) : Entry :=
  if told && e.heeds owner seq then { e with seq, initialized := true } else e

theorem outline_hear (v : Option SignalValue) :
    (e.hear owner seq v).outline = e.outline.mark owner seq v.isSome := by
  cases v with
  | none => rfl
  | some value =>
    have hheeds : e.outline.heeds owner seq = e.heeds owner seq := rfl
    cases hh : e.heeds owner seq with
    | true => simp [hear_of_heeds hh, outline_advance, mark, hheeds, hh]
    | false => simp [hear_of_not_heeds _ hh, mark, hheeds, hh]

end Entry

namespace Registry

variable {σ : Type} {hidden : String → Prop} {r r' : Registry σ}

/-- Entries for the same paths that are the same but for hidden values. -/
structure Alike (hidden : String → Prop) (r r' : Registry σ) : Prop where
  outline : ∀ path,
    (r'.entries.find? path).map Entry.outline = (r.entries.find? path).map Entry.outline
  shown : ∀ path, ¬ hidden path → r'.entries.find? path = r.entries.find? path

/-- No hidden path is public or granted for reading. -/
def Withholds (r : Registry σ) (hidden : String → Prop) (rights : Rights) : Prop :=
  ∀ path, hidden path → r.publicity path ≠ some true ∧ rights.grants.canRead path = false

theorem Withholds.not_readable {rights : Rights} (h : r.Withholds hidden rights) {path : String}
    (hp : hidden path) (p : Pattern) : ¬ r.Readable rights p path := by
  rw [readable_iff]
  rintro ⟨isPublic, hpublic, -, hread⟩
  obtain ⟨hnot, hgrant⟩ := h path hp
  obtain rfl | hread := hread
  · exact hnot hpublic
  · rw [hgrant] at hread
    cases hread

section Reading

variable (h : r.Alike hidden r')

include h

theorem Alike.publicity (path : String) : r'.publicity path = r.publicity path := by
  have hmap : ∀ r : Registry σ, r.publicity path =
      ((r.entries.find? path).map Entry.outline).map (·.isPublic) := by
    intro r
    rw [Option.map_map]
    rfl
  rw [hmap, hmap, h.outline]

theorem Alike.withholds {rights : Rights} (hw : r.Withholds hidden rights) :
    r'.Withholds hidden rights := by
  intro path hp
  rw [h.publicity]
  exact hw path hp

theorem Alike.matching (p : Pattern) : (r'.matching p).map (fun _ e => e.outline) =
    (r.matching p).map fun _ e => e.outline := by
  ext path : 1
  rw [Table.find?_map, Table.find?_map, find?_matching, find?_matching]
  have hfilter : ∀ o : Option Entry, (o.filter fun _ => p.matches path).map Entry.outline =
      (o.map Entry.outline).filter fun _ => p.matches path := by
    intro o
    rw [Option.filter_map]
    rfl
  rw [hfilter, hfilter, h.outline]

theorem Alike.visible (p : Pattern) (rights : Rights) :
    (r'.visible p rights).map (fun _ e => e.outline) =
      (r.visible p rights).map fun _ e => e.outline := by
  ext path : 1
  rw [Table.find?_map, Table.find?_map, find?_visible, find?_visible]
  let readable (e : Entry) : Bool := p.matches path && rights.canRead path e.isPublic
  have hfilter : ∀ o : Option Entry, (o.filter readable).map Entry.outline =
      (o.map Entry.outline).filter readable := by
    intro o
    rw [Option.filter_map]
    rfl
  rw [hfilter, hfilter, h.outline]

theorem Alike.matching_isEmpty (p : Pattern) :
    (r'.matching p).isEmpty = (r.matching p).isEmpty := by
  rw [← Table.isEmpty_map _ fun _ e => e.outline, h.matching, Table.isEmpty_map]

theorem Alike.visible_isEmpty (p : Pattern) (rights : Rights) :
    (r'.visible p rights).isEmpty = (r.visible p rights).isEmpty := by
  rw [← Table.isEmpty_map _ fun _ e => e.outline, h.visible, Table.isEmpty_map]

theorem Alike.visiblePaths (p : Pattern) (rights : Rights) :
    r'.visiblePaths p rights = r.visiblePaths p rights := by
  rw [Registry.visiblePaths, ← Table.keys_map _ fun _ e => e.outline, h.visible, Table.keys_map]
  rfl

theorem Alike.visible_eq {rights : Rights} (hw : r.Withholds hidden rights) (p : Pattern) :
    r'.visible p rights = r.visible p rights := by
  have hnone : ∀ {r : Registry σ}, r.Withholds hidden rights → ∀ path, hidden path →
      (r.visible p rights).find? path = none := by
    intro r hw path hp
    rw [Option.eq_none_iff_forall_ne_some]
    intro e he
    exact hw.not_readable hp p ((r.readable_iff_visible p rights path).mpr ⟨e, he⟩)
  ext path : 1
  by_cases hp : hidden path
  · rw [hnone hw path hp, hnone (h.withholds hw) path hp]
  · rw [find?_visible, find?_visible, h.shown path hp]

theorem Alike.get {rights : Rights} (hw : r.Withholds hidden rights) (pattern : String) :
    r'.get pattern rights = r.get pattern rights := by
  simp only [Registry.get, readable, h.matching_isEmpty, h.visible_eq hw]

theorem Alike.readable_keys (p : Pattern) (rights : Rights) :
    (r'.readable p rights).map Table.keys = (r.readable p rights).map Table.keys := by
  rw [readable, readable, h.matching_isEmpty, h.visible_isEmpty]
  split
  · rfl
  · split
    · rfl
    · exact congrArg Except.ok (h.visiblePaths p rights)

theorem Alike.readablePaths (pattern : String) (rights : Rights) :
    r'.readablePaths pattern rights = r.readablePaths pattern rights := by
  unfold Registry.readablePaths
  cases compile pattern with
  | error e => rfl
  | ok p =>
    have hkeys : ∀ result : Except BrokerError (Table String Entry),
        (do let entries ← result; return (p, entries.keys)) =
          (result.map Table.keys).map fun keys => (p, keys) := by
      intro result
      cases result <;> rfl
    show (do let entries ← r'.readable p rights; return (p, entries.keys)) =
      do let entries ← r.readable p rights; return (p, entries.keys)
    rw [hkeys, hkeys, h.readable_keys]

end Reading

section Applying

variable (h : r.Alike hidden r') {values values' : Values} (hv : values.Alike hidden values')
  (owner seq : Nat)

include h hv

theorem Alike.apply :
    (r.apply owner seq values).Alike hidden (r'.apply owner seq values') := by
  refine ⟨?_, ?_⟩
  · intro path
    have hsome : (values'.find? path).isSome = (values.find? path).isSome := by
      rw [Bool.eq_iff_iff, ← Table.mem_keys_iff, ← Table.mem_keys_iff, hv.keys]
    have hmark : ∀ (o : Option Entry) (v : Option SignalValue),
        (o.map fun e => e.hear owner seq v).map Entry.outline =
          (o.map Entry.outline).map fun e => e.mark owner seq v.isSome := by
      intro o v
      rw [Option.map_map, Option.map_map]
      congr 1
      funext e
      exact e.outline_hear owner seq v
    rw [find?_apply, find?_apply, hmark, hmark, h.outline, hsome]
  · intro path hp
    rw [find?_apply, find?_apply, h.shown path hp, hv.shown path hp]

theorem Alike.news (path : String) (hp : ¬ hidden path) :
    (r'.news owner seq values').find? path = (r.news owner seq values).find? path := by
  rw [Registry.news, Registry.news, Table.find?_filter, Table.find?_filter, h.shown path hp,
    hv.shown path hp]

end Applying

end Registry

section Telling

variable {hidden : String → Prop} {values values' : Values}

theorem Subscription.accepted_congr {sub : Subscription}
    (hdeaf : ∀ path, hidden path → sub.accepts path = false)
    (hv : ∀ path, ¬ hidden path → values'.find? path = values.find? path) :
    sub.accepted values' = sub.accepted values := by
  ext path : 1
  rw [accepted, accepted, Table.find?_filter, Table.find?_filter]
  by_cases hp : hidden path
  · simp [hdeaf path hp]
  · rw [hv path hp]

theorem Subscriptions.notices_congr {c : ConnectionId}
    {rows : List (SubscriptionId × Subscription)}
    (hdeaf : ∀ row ∈ rows, row.2.connection = c → ∀ path, hidden path → row.2.accepts path = false)
    (hv : ∀ path, ¬ hidden path → values'.find? path = values.find? path) (timestamp : Int) :
    notices timestamp values' c rows = notices timestamp values c rows := by
  apply List.filterMap_congr
  intro row hrow
  split
  · next hc =>
    rw [notification?, notification?,
      Subscription.accepted_congr (hdeaf row hrow hc) hv]
  · rfl

end Telling

namespace Broker

variable {σ : Type} {hidden : String → Prop} {c : ConnectionId} {b b' : Broker σ}

/-- Brokers that a connection cannot tell apart if it may read no hidden path. What waits for other
connections may differ. -/
structure Alike (hidden : String → Prop) (c : ConnectionId) (b b' : Broker σ) : Prop where
  registry : b.registry.Alike hidden b'.registry
  clock : b'.clock = b.clock
  rows : b'.subscriptions.rows = b.subscriptions.rows
  nextId : b'.subscriptions.nextId = b.subscriptions.nextId
  outbox : b'.subscriptions.outboxes.find? c = b.subscriptions.outboxes.find? c

/-- No subscription of a connection accepts a hidden path. -/
def Deaf (b : Broker σ) (hidden : String → Prop) (c : ConnectionId) : Prop :=
  ∀ id sub, b.subscriptions.rows.find? id = some sub → sub.connection = c →
    ∀ path, hidden path → sub.accepts path = false

theorem Alike.apply (h : b.Alike hidden c b') (hdeaf : b.Deaf hidden c) {values values' : Values}
    (hv : values.Alike hidden values') (owner seq : Nat) :
    (b.apply owner seq values).2.Alike hidden c (b'.apply owner seq values').2 where
  registry := h.registry.apply hv owner seq
  clock := h.clock
  rows := h.rows
  nextId := h.nextId
  outbox := by
    have hrows : ∀ row ∈ b.subscriptions.rows.toList, row.2.connection = c →
        ∀ path, hidden path → row.2.accepts path = false := by
      intro row hrow hc
      exact hdeaf row.1 row.2 ((Table.mem_toList_iff _ _ _).mp hrow) hc
    show ((b'.subscriptions.dispatch _ _).2.outboxes.find? c) =
      (b.subscriptions.dispatch _ _).2.outboxes.find? c
    rw [Subscriptions.find?_dispatch, Subscriptions.find?_dispatch, h.outbox, h.rows, h.clock,
      Subscriptions.notices_congr hrows (h.registry.news hv owner seq)]

end Broker

end SignalBroker
