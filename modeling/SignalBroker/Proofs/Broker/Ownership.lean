import Mathlib.Logic.Relation
import SignalBroker.Broker.Turns
import SignalBroker.Proofs.Broker.Adapters
import SignalBroker.Proofs.Broker.Applying
import SignalBroker.Proofs.Broker.Groups

namespace SignalBroker

structure Flags where
  isPublic : Bool
  isReadOnly : Bool

/-- What never changes of an adapter: its name, and the flags of its signals. -/
structure Profile where
  name : String
  flags : Table String Flags

structure Title where
  owner : Nat
  flags : Flags

def Entry.title (e : Entry) : Title := ⟨e.owner, e.isPublic, e.isReadOnly⟩

namespace Adapter

/-- What can happen to an adapter once it is registered. -/
inductive Turn : Adapter → Adapter → Prop where
  | wrote {a : Adapter} {byClient values store d} (backing : Backing)
    (hw : a.store.write byClient values = .ok (store, d)) : Turn a ⟨store, backing⟩
  | marked {a : Adapter} {subscribed paths store}
    (hs : a.store.setSubscribed subscribed paths = .ok store) : Turn a { a with store }
  | released (a : Adapter) : Turn a a.unsubscribeAll
  | streamed (a : Adapter) (stream : ChangeStream) : Turn a (a.withStream stream)
  | worked (a : Adapter) (backing : Backing) : Turn a { a with backing }

def Becomes : Adapter → Adapter → Prop := Relation.ReflTransGen Turn

variable {a a' : Adapter} {path : String}

def profile (a : Adapter) : Profile :=
  ⟨a.store.name, a.store.signals.map fun _ signal => ⟨signal.spec.isPublic, signal.spec.isReadOnly⟩⟩

theorem profile_turn (h : Turn a a') : a'.profile = a.profile := by
  have hsame : ∀ f : String → Signal → Signal, a'.store.name = a.store.name →
      (∀ path, a'.store.signals.find? path = (a.store.signals.find? path).map (f path)) →
      (∀ path signal, (f path signal).spec.isPublic = signal.spec.isPublic ∧
        (f path signal).spec.isReadOnly = signal.spec.isReadOnly) → a'.profile = a.profile := by
    intro f hname hfind hflags
    rw [profile, profile, hname]
    congr 1
    ext path : 1
    rw [Table.find?_map, Table.find?_map, hfind, Option.map_map]
    congr 1
    funext signal
    simp only [Function.comp_apply, hflags]
  cases h with
  | @wrote byClient values store d backing hw =>
    have hwritten := Store.written_of_write hw
    refine hsame _ hwritten.name hwritten.find? ?_
    intro path signal
    rw [signal.hear_eq]
    exact ⟨rfl, rfl⟩
  | marked hs =>
    refine hsame _ (Store.name_of_setSubscribed hs) (Store.setSubscribed_eq_ok hs).2.2 ?_
    intro path signal
    split <;> exact ⟨rfl, rfl⟩
  | released =>
    exact hsame (fun _ signal => { signal with subscribed := false }) rfl
      (fun _ => Table.find?_map _ _ _) fun _ _ => ⟨rfl, rfl⟩
  | streamed => rfl
  | worked => rfl

theorem profile_becomes (h : a.Becomes a') : a'.profile = a.profile := by
  induction h with
  | refl => rfl
  | tail _ ht ih => exact (profile_turn ht).trans ih

def locked? (a : Adapter) (path : String) : Option Bool :=
  (a.store.signals.find? path).map (·.spec.isReadOnly)

theorem locked?_eq (a : Adapter) (path : String) :
    a.locked? path = (a.profile.flags.find? path).map (·.isReadOnly) := by
  rw [locked?, profile, Table.find?_map, Option.map_map]
  rfl

theorem set_eq_ok {values : Values} (files : Files)
    (h : ∀ path v, values.find? path = some v → a.locked? path = some false) :
    ∃ r, SignalSource.set a files values = .ok r := by
  have hwrite : ∃ r, a.store.set values = .ok r := by
    refine ⟨_, Store.write_eq_ok_iff.mpr ⟨?_, rfl⟩⟩
    intro path v hv
    obtain ⟨signal, hs, hopen⟩ := Option.map_eq_some_iff.mp (h path v hv)
    exact a.store.refusal?_eq_none_iff.mpr ⟨signal, hs, fun _ => hopen⟩
  obtain ⟨⟨store, d⟩, hwrite⟩ := hwrite
  cases d with
  | landed n => exact ⟨_, bind_eq_ok_iff.mpr ⟨_, hwrite, rfl⟩⟩
  | waiting => exact ⟨_, bind_eq_ok_iff.mpr ⟨_, hwrite, rfl⟩⟩

theorem turn_of_set {files files' : Files} {values : Values} {d : Delivery}
    (h : SignalSource.set a files values = .ok (a', files', d)) : Turn a a' :=
  .wrote a'.backing (store_of_set h)

theorem turn_of_receive {b : Batch} (h : SignalSource.receive a = some (b, a')) : Turn a a' := by
  obtain ⟨stream, -, rfl⟩ := pop_of_receive h
  exact .streamed a stream

theorem becomes_tick (a : Adapter) : a.Becomes (SignalSource.tick a) := by
  show a.Becomes a.tick.1
  unfold tick
  split
  · next s hb =>
    split
    · next s' store d ht =>
      exact .single (.wrote _ (congrArg Prod.snd ht))
    · exact .single (.worked a _)
  · exact .refl

end Adapter

namespace Registry

def Owned (r : Registry Adapter) : Prop :=
  ∀ path e, r.entries.find? path = some e → ∃ m : Member Adapter,
    r.members[e.owner]? = some m ∧ m.source.locked? path = some e.isReadOnly

/-- The members keep their places and their signals, and entries keep owners. -/
structure Keeps (r r' : Registry Adapter) : Prop where
  member : ∀ (k : Nat) (m : Member Adapter), r.members[k]? = some m →
    ∃ m' : Member Adapter, r'.members[k]? = some m' ∧ m'.source.locked? = m.source.locked?
  owned : r.Owned → r'.Owned

variable {r r' r'' : Registry Adapter}

theorem Keeps.refl (r : Registry Adapter) : r.Keeps r := ⟨fun _ m hm => ⟨m, hm, rfl⟩, id⟩

theorem Keeps.trans (h : r.Keeps r') (h' : r'.Keeps r'') : r.Keeps r'' where
  member k m hm := by
    obtain ⟨m', hm', hsame⟩ := h.member k m hm
    obtain ⟨m'', hm'', hsame'⟩ := h'.member k m' hm'
    exact ⟨m'', hm'', hsame'.trans hsame⟩
  owned := h'.owned ∘ h.owned

theorem Keeps.of_entries
    (hmember : ∀ (k : Nat) (m : Member Adapter), r.members[k]? = some m →
      ∃ m' : Member Adapter, r'.members[k]? = some m' ∧ m'.source.locked? = m.source.locked?)
    (hentry : ∀ path e', r'.entries.find? path = some e' → ∃ e, r.entries.find? path = some e ∧
      e'.owner = e.owner ∧ e'.isReadOnly = e.isReadOnly) : r.Keeps r' where
  member := hmember
  owned h path e' he' := by
    obtain ⟨e, he, howner, hflag⟩ := hentry path e' he'
    obtain ⟨m, hm, hlocked⟩ := h path e he
    obtain ⟨m', hm', hsame⟩ := hmember e.owner m hm
    rw [howner, hflag]
    exact ⟨m', hm', (congrFun hsame path).trans hlocked⟩

def title? (r : Registry Adapter) (path : String) : Option Title :=
  (r.entries.find? path).map Entry.title

def profiles (r : Registry Adapter) : List Profile := r.members.map fun m => m.source.profile

theorem title?_eq_some_iff {path : String} {t : Title} :
    r.title? path = some t ↔ ∃ e, r.entries.find? path = some e ∧ e.title = t :=
  Option.map_eq_some_iff

theorem getElem?_profiles_eq_some_iff {k : Nat} {p : Profile} :
    r.profiles[k]? = some p ↔ ∃ m : Member Adapter, r.members[k]? = some m ∧ m.source.profile = p := by
  rw [profiles, List.getElem?_map, Option.map_eq_some_iff]

structure Stays (r r' : Registry Adapter) : Prop where
  title? : ∀ path, r'.title? path = r.title? path
  profiles : r'.profiles = r.profiles

theorem Stays.refl (r : Registry Adapter) : r.Stays r := ⟨fun _ => rfl, rfl⟩

theorem Stays.trans (h : r.Stays r') (h' : r'.Stays r'') : r.Stays r'' :=
  ⟨fun path => (h'.title? path).trans (h.title? path), h'.profiles.trans h.profiles⟩

theorem Stays.keeps (h : r.Stays r') : r.Keeps r' := by
  refine .of_entries ?_ ?_
  · intro k m hm
    have hprofile := getElem?_profiles_eq_some_iff.mpr ⟨m, hm, rfl⟩
    rw [← h.profiles] at hprofile
    obtain ⟨m', hm', hsame⟩ := getElem?_profiles_eq_some_iff.mp hprofile
    refine ⟨m', hm', ?_⟩
    funext path
    rw [Adapter.locked?_eq, Adapter.locked?_eq, hsame]
  · intro path e' he'
    have htitle := title?_eq_some_iff.mpr ⟨e', he', rfl⟩
    rw [h.title?] at htitle
    obtain ⟨e, he, hsame⟩ := title?_eq_some_iff.mp htitle
    cases e
    cases e'
    cases hsame
    exact ⟨_, he, rfl, rfl⟩

theorem stays_apply (r : Registry Adapter) (owner seq : Nat) (values : Values) :
    r.Stays (r.apply owner seq values) := by
  refine ⟨?_, rfl⟩
  intro path
  rw [title?, title?, find?_apply, Option.map_map]
  congr 1
  funext e
  simp only [Function.comp_apply, Entry.title, e.owner_hear, e.isPublic_hear, e.isReadOnly_hear]

theorem stays_becomes {members : List (Member Adapter)} (timers : List Timer) (stopped : Bool)
    (h : List.Forall₂ (fun m m' => m.source.Becomes m'.source) r.members members) :
    r.Stays { r with members, timers, stopped } := by
  refine ⟨fun _ => rfl, ?_⟩
  show members.map _ = r.members.map _
  generalize r.members = old at h
  induction h with
  | nil => rfl
  | cons hm _ ih => rw [List.map_cons, List.map_cons, Adapter.profile_becomes hm, ih]

theorem becomes_setSource {k : Nat} {m : Member Adapter} {source : Adapter}
    (hm : r.members[k]? = some m) (h : m.source.Becomes source) :
    List.Forall₂ (fun m m' => m.source.Becomes m'.source) r.members
      (r.setSource k source).members := by
  rw [List.forall₂_iff_get]
  refine ⟨(List.length_modify _ _ _).symm, ?_⟩
  intro i hi hi'
  simp only [List.get_eq_getElem, setSource, List.getElem_modify]
  split
  · next heq =>
    subst heq
    obtain ⟨hk, rfl⟩ := List.getElem?_eq_some_iff.mp hm
    exact h
  · exact .refl

theorem keeps_register {a : Adapter} (h : r.register a = .accepted r') : r.Keeps r' := by
  obtain ⟨m, he⟩ := enrolled_of_register h
  have hmember : ∀ (k : Nat) (mk : Member Adapter), r.members[k]? = some mk →
      r'.members[k]? = some mk := by
    intro k mk hk
    rw [he.members, List.getElem?_append_left (List.getElem?_eq_some_iff.mp hk).1, hk]
  refine ⟨fun k mk hk => ⟨mk, hmember k mk hk, rfl⟩, ?_⟩
  intro howned path e hfind
  rw [he.entries] at hfind
  obtain hnew | ⟨-, hold⟩ := Option.or_eq_some_iff.mp hfind
  · obtain ⟨signal, hs, rfl⟩ := Option.map_eq_some_iff.mp hnew
    refine ⟨m, ?_, ?_⟩
    · rw [he.members]
      exact List.getElem?_concat_length
    · rw [Adapter.locked?, he.signals, hs]
      rfl
  · obtain ⟨mk, hmk, hlocked⟩ := howned path e hold
    exact ⟨mk, hmember _ mk hmk, hlocked⟩

end Registry

namespace Broker

open Registry (Keeps)

variable {b b' : Broker Adapter}

def Takes (b : Broker Adapter) (group : Nat × Values) : Prop :=
  ∃ m : Member Adapter, b.registry.members[group.1]? = some m ∧
    ∀ path v, group.2.find? path = some v → m.source.locked? path = some false

theorem Takes.keeps {group : Nat × Values} (h : b.Takes group) (hk : b.registry.Keeps b'.registry) :
    b'.Takes group := by
  obtain ⟨m, hm, hopen⟩ := h
  obtain ⟨m', hm', hsame⟩ := hk.member group.1 m hm
  refine ⟨m', hm', ?_⟩
  rw [hsame]
  exact hopen

theorem stays_set {k : Nat} {m : Member Adapter} {source : Adapter} {files : Files} {values : Values}
    {d : Delivery} (hm : b.registry.members[k]? = some m)
    (hset : SignalSource.set m.source b.files values = .ok (source, files, d)) :
    b.registry.Stays (b.registry.setSource k source) :=
  Registry.stays_becomes b.registry.timers b.registry.stopped
    (Registry.becomes_setSource hm (.single (Adapter.turn_of_set hset)))

theorem stays_writeGroups {groups : List (Nat × Values)} {outcome : WriteOutcome}
    (h : b.writeGroups groups = (outcome, b')) : b.registry.Stays b'.registry := by
  induction groups generalizing b with
  | nil =>
    cases h
    exact .refl _
  | cons group rest ih =>
    unfold writeGroups at h
    split at h
    · cases h
      exact .refl _
    · next m hm =>
      split at h
      · cases h
        exact .refl _
      · next source files d hset =>
        have hstays := stays_set hm hset
        cases d with
        | waiting =>
          cases h
          exact hstays
        | landed seq => exact (hstays.trans (Registry.stays_apply _ _ _ _)).trans (ih h)

/-- Groups that their owners take are not refused, neither the first nor, once it has been written, any
other. -/
theorem writeGroups_ne_refused {groups : List (Nat × Values)} (h : ∀ group ∈ groups, b.Takes group)
    (e : BrokerError) (b' : Broker Adapter) : b.writeGroups groups ≠ (.refused e, b') := by
  induction groups generalizing b with
  | nil => nofun
  | cons group rest ih =>
    obtain ⟨hgroup, hrest⟩ := List.forall_mem_cons.mp h
    obtain ⟨m, hm, hopen⟩ := hgroup
    obtain ⟨⟨source, files, d⟩, hset⟩ := m.source.set_eq_ok b.files hopen
    unfold writeGroups
    rw [hm]
    simp only [hset]
    cases d with
    | waiting => nofun
    | landed seq =>
      have hstays := (stays_set hm hset).trans (Registry.stays_apply _ group.1 seq group.2)
      exact ih fun g hg => (hrest g hg).keeps hstays.keeps

theorem takes_of_targets (h : b.registry.Owned) {pattern : String} {write : WriteRequest}
    {rights : Rights} {targets : Table String Target}
    (ht : b.registry.targets pattern write rights = .ok targets) :
    ∀ group ∈ (Registry.groups targets).toList, b.Takes group := by
  obtain ⟨p, -, hpermits, hres⟩ := Registry.targets_eq_ok ht
  have hopen : ∀ path target, targets.find? path = some target → ∃ m : Member Adapter,
      b.registry.members[target.owner]? = some m ∧ m.source.locked? path = some false := by
    intro path target hfind
    obtain ⟨e, v, he, hv, rfl⟩ := (Registry.find?_eq_some_iff_of_resolved hres).mp hfind
    obtain ⟨m, hm, hlocked⟩ := h path e he
    have hflag : e.isReadOnly = false := by
      by_contra hflag
      exact hpermits.unlocked path ⟨e, v, he, hv, by simpa using hflag⟩
    exact ⟨m, hm, hflag ▸ hlocked⟩
  rintro ⟨owner, values⟩ hgroup
  obtain ⟨path, target, hfind, rfl⟩ := Registry.exists_target_of_mem_groups hgroup
  obtain ⟨m, hm, -⟩ := hopen path target hfind
  refine ⟨m, hm, ?_⟩
  intro path' v hv
  rw [Registry.find?_of_mem_groups hgroup] at hv
  obtain ⟨target', hfind', -⟩ := Option.map_eq_some_iff.mp hv
  obtain ⟨hfind', howner⟩ := Option.filter_eq_some_iff.mp hfind'
  obtain ⟨m', hm', hlocked⟩ := hopen path' target' hfind'
  rw [beq_iff_eq.mp howner, hm] at hm'
  cases hm'
  exact hlocked

/-- A write that is refused has changed nothing. -/
theorem set_eq_refused (h : b.registry.Owned) {pattern : String} {write : WriteRequest}
    {rights : Rights} {e : BrokerError} (hs : b.set pattern write rights = (.refused e, b')) :
    b' = b := by
  unfold set at hs
  split at hs
  · cases hs
    rfl
  · next targets ht => exact absurd hs (writeGroups_ne_refused (takes_of_targets h ht) e b')

end Broker

end SignalBroker
