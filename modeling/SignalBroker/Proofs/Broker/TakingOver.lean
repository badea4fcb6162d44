import Mathlib.Logic.Relation
import SignalBroker.Proofs.Broker.Adapters

namespace SignalBroker

namespace Store

variable {s s' : Store} {values : Values} {d : Delivery}

def withTaken (s : Store) (taken : Bool) : Store :=
  { s with stream := { s.stream with taken } }

theorem offer_withTaken (stream : ChangeStream) (taken : Bool) (b : Batch) :
    ({ stream with taken } : ChangeStream).offer b =
      (stream.offer b).map fun stream => { stream with taken } := by
  simp only [ChangeStream.offer]
  split
  · rfl
  · split <;> rfl

theorem commit_withTaken (taken : Bool) : (s.withTaken taken).commit values =
    ((s.commit values).1.withTaken taken, (s.commit values).2) := by
  rw [withTaken, commit_withStream, withTaken, stream_commit]

theorem deliver_withTaken (taken : Bool) (b : Option Batch) :
    (s.withTaken taken).deliver b = ((s.deliver b).1.withTaken taken, (s.deliver b).2) := by
  cases b with
  | none => rfl
  | some b =>
    simp only [deliver, withTaken, offer_withTaken]
    cases s.stream.offer b <;> rfl

/-- Writers do not look at who has the receiving end. -/
theorem write_withTaken {byClient : Bool} (taken : Bool)
    (h : s.write byClient values = .ok (s', d)) :
    (s.withTaken taken).write byClient values = .ok (s'.withTaken taken, d) := by
  obtain ⟨hall, hr⟩ := write_eq_ok_iff.mp h
  refine write_eq_ok_iff.mpr ⟨hall, ?_⟩
  rw [commit_withTaken, deliver_withTaken, ← hr]

theorem setSubscribed_withTaken {subscribed : Bool} {paths : List String} (taken : Bool)
    (h : s.setSubscribed subscribed paths = .ok s') :
    (s.withTaken taken).setSubscribed subscribed paths = .ok (s'.withTaken taken) := by
  simp only [setSubscribed, withTaken] at h ⊢
  split at h
  · cases h
  · cases h
    rfl

theorem paths_of_setSubscribed {subscribed : Bool} {paths : List String}
    (h : s.setSubscribed subscribed paths = .ok s') : s'.paths = s.paths := by
  unfold setSubscribed at h
  split at h
  · cases h
  · cases h
    simp [Store.paths, Table.keys, Table.map]

theorem Written.paths (hw : s.Written values s' d) : s'.paths = s.paths := by
  have hset : (s.setValues (s.changes values)).keys = s.signals.keys := by
    simp [setValues, Table.keys, Table.map]
  cases hw with
  | unchanged => rfl
  | unheard => exact hset
  | sent => exact hset
  | stuck => exact hset

theorem Written.taken (hw : s.Written values s' d) : s'.stream.taken = s.stream.taken := by
  cases hw with
  | unchanged => rfl
  | unheard => rfl
  | stuck => rfl
  | sent _ _ ho =>
    obtain ⟨queue, rfl, -⟩ := ChangeStream.eq_of_offer ho
    rfl

theorem find?_unknown_paths (s : Store) :
    s.paths.find? (fun path => !s.signals.contains path) = none := by
  rw [List.find?_eq_none]
  intro path hm
  simpa [Table.contains, Option.isSome_iff_ne_none] using (s.signals.mem_keys_iff path).mp hm

theorem exists_subscribe_paths (s : Store) : ∃ s', s.subscribe s.paths = .ok s' := by
  rw [subscribe, setSubscribed, find?_unknown_paths]
  exact ⟨_, rfl⟩

theorem subscribe_of_subscribed {paths : List String} (hp : s.paths = paths)
    (h : ∀ path signal, s.signals.find? path = some signal → signal.subscribed = true) :
    s.subscribe paths = .ok s := by
  have hknown : paths.find? (fun path => !s.signals.contains path) = none :=
    hp ▸ s.find?_unknown_paths
  have hsame : (s.signals.map fun path signal =>
      if paths.contains path then { signal with subscribed := true } else signal) = s.signals := by
    ext path : 1
    rw [Table.find?_map]
    cases hs : s.signals.find? path with
    | none => rfl
    | some signal =>
      have hsub := h path signal hs
      simp only [Option.map_some, ← hsub]
      split <;> rfl
  rw [subscribe, setSubscribed, hknown]
  simp only [hsame]

end Store

namespace Adapter

def Writes : Adapter → Adapter → Prop :=
  Relation.ReflTransGen fun a a' => ∃ byClient values d, a.store.write byClient values = .ok (a'.store, d)

end Adapter

namespace Registry

/-- What registering a source comes to that has become another one by the time that it is read. -/
def TakesOver (r : Registry Adapter) (a late : Adapter) (r' : Registry Adapter) : Prop :=
  ∃ flags subscribed, r.conflict? (SignalSource.paths a) = none ∧
    readFlags a (SignalSource.paths a) = .ok flags ∧
    SignalSource.subscribe (SignalSource.takeStream a).2 (SignalSource.paths a) = .ok subscribed ∧
    subscribed.Writes late ∧
    r' = r.enroll flags (firstValues late (SignalSource.paths a))
      (r.memberOf late (SignalSource.takeStream a).1) (r.timerOf late)

/-- What is left of a source when its paths have been subscribed and it has gone on. -/
structure Remains (a late : Adapter) : Prop where
  paths : late.store.paths = a.store.paths
  taken : late.store.stream.taken = true
  signals : ∀ path, ∃ v : Signal → SignalValue, late.store.signals.find? path =
    (a.store.signals.find? path).map fun signal => ⟨{ signal.spec with value := v signal }, true⟩

variable {r r' : Registry Adapter} {a late subscribed : Adapter} {history : History}

theorem remains_of_subscribe
    (hs : SignalSource.subscribe (SignalSource.takeStream a).2 (SignalSource.paths a) =
      .ok subscribed) : Remains a subscribed := by
  obtain ⟨store, hsub, rfl⟩ := Adapter.subscribe_eq_ok hs
  have hstore : (a.store.withTaken true).subscribe a.store.paths = .ok store := hsub
  obtain ⟨-, hstream, -⟩ := Store.setSubscribed_eq_ok hstore
  refine ⟨(Store.paths_of_setSubscribed hstore).trans rfl, ?_, ?_⟩
  · show store.stream.taken = true
    rw [hstream]
    rfl
  · intro path
    exact ⟨fun signal => signal.spec.value, subscribe_paths hstore path⟩

theorem Remains.writes (h : Remains a subscribed) (hw : subscribed.Writes late) : Remains a late := by
  induction hw with
  | refl => exact h
  | tail _ hs ih =>
    obtain ⟨byClient, values, d, hwrite⟩ := hs
    have hwritten := Store.written_of_write hwrite
    refine ⟨hwritten.paths.trans ih.paths, hwritten.taken.trans ih.taken, ?_⟩
    intro path
    obtain ⟨v, hv⟩ := ih.signals path
    refine ⟨fun signal => ((⟨{ signal.spec with value := v signal }, true⟩ : Signal).hear
      (values.find? path)).spec.value, ?_⟩
    rw [hwritten.find?, hv, Option.map_map]
    congr 1
    funext signal
    exact Signal.hear_eq _ _

theorem Remains.readFlags_eq (h : Remains a late) (paths : List String) :
    readFlags late paths = readFlags a paths := by
  have hpublic : SignalSource.isPublic late = SignalSource.isPublic a := by
    funext path
    obtain ⟨v, hv⟩ := h.signals path
    show (·.isPublic) <$> late.store.spec? path = (·.isPublic) <$> a.store.spec? path
    rw [Store.spec?, Store.spec?, hv]
    cases a.store.signals.find? path <;> rfl
  have hlocked : SignalSource.isReadOnly late = SignalSource.isReadOnly a := by
    funext path
    obtain ⟨v, hv⟩ := h.signals path
    show (·.isReadOnly) <$> late.store.spec? path = (·.isReadOnly) <$> a.store.spec? path
    rw [Store.spec?, Store.spec?, hv]
    cases a.store.signals.find? path <;> rfl
  simp only [readFlags, hpublic, hlocked]

theorem Remains.subscribe (h : Remains a late) :
    SignalSource.subscribe late (SignalSource.paths a) = .ok late := by
  refine bind_eq_ok_iff.mpr ⟨late.store, Store.subscribe_of_subscribed h.paths ?_, rfl⟩
  intro path signal hs
  obtain ⟨v, hv⟩ := h.signals path
  rw [hs] at hv
  obtain ⟨old, -, rfl⟩ := Option.map_eq_some_iff.mp hv.symm
  rfl

/-- An interrupted registration is one at once, of what the source has become. -/
theorem register_late (h : r.TakesOver a late r') :
    r.register ⟨late.store.withTaken a.store.stream.taken, late.backing⟩ = .accepted r' := by
  obtain ⟨flags, subscribed, hc, hf, hs, hw, rfl⟩ := h
  have hrem := (remains_of_subscribe hs).writes hw
  let whole : Adapter := ⟨late.store.withTaken a.store.stream.taken, late.backing⟩
  have hpaths : SignalSource.paths whole = SignalSource.paths a := hrem.paths
  have hwhole : SignalSource.takeStream whole = ((SignalSource.takeStream a).1, late) := by
    have hstream : late.store.withTaken true = late.store := by
      rw [Store.withTaken, ← hrem.taken]
    show (_, (⟨late.store.withTaken true, late.backing⟩ : Adapter)) = _
    rw [hstream]
    rfl
  have hflags : readFlags whole (SignalSource.paths a) = .ok flags :=
    (hrem.readFlags_eq _).trans hf
  show r.register whole = _
  simp only [register, hpaths, hc, hflags, hwhole, hrem.subscribe]
  rfl

theorem lived_of_takesOver (hl : a.store.Lived history) (h : r.TakesOver a late r') :
    ∃ history', (late.store.withTaken a.store.stream.taken).Lived history' := by
  obtain ⟨flags, subscribed, -, -, hs, hw, -⟩ := h
  induction hw with
  | refl =>
    obtain ⟨store, hsub, rfl⟩ := Adapter.subscribe_eq_ok hs
    have hback := Store.setSubscribed_withTaken a.store.stream.taken hsub
    exact ⟨_, hl.marked hback⟩
  | tail _ hs ih =>
    obtain ⟨history', hlived⟩ := ih
    obtain ⟨byClient, values, d, hwrite⟩ := hs
    exact ⟨_, hlived.written (Store.write_withTaken _ hwrite)⟩

theorem register_of_takesOver (hl : a.store.Lived history) (h : r.TakesOver a late r') :
    ∃ history', (late.store.withTaken a.store.stream.taken).Lived history' ∧
      r.register ⟨late.store.withTaken a.store.stream.taken, late.backing⟩ = .accepted r' := by
  obtain ⟨history', hlived⟩ := lived_of_takesOver hl h
  exact ⟨history', hlived, register_late h⟩

end Registry

end SignalBroker
