import SignalBroker.Broker.Basic
import SignalBroker.Proofs.Broker.Registration
import SignalBroker.Proofs.Store.History

namespace SignalBroker

namespace Store

variable (s : Store)

theorem spec?_eq_ok_iff {path : String} {spec : SignalSpec} :
    s.spec? path = .ok spec ↔ ∃ signal, s.signals.find? path = some signal ∧ signal.spec = spec := by
  unfold spec?
  cases s.signals.find? path with
  | none => simp
  | some signal => simp

theorem get_paths : s.get s.paths = .ok s.snapshot := by
  have hrows : s.paths.mapM (fun path => do return (path, (← s.spec? path).value)) =
      .ok s.snapshot.rows := by
    apply mapM_eq_ok_iff.mpr
    simp only [paths, Table.keys, snapshot, Table.map]
    rw [List.forall₂_map_left_iff, List.forall₂_map_right_iff, List.forall₂_same]
    intro row hm
    have hf := (s.signals.mem_toList_iff row.1 row.2).mp hm
    exact bind_eq_ok_iff.mpr ⟨row.2.spec, s.spec?_eq_ok_iff.mpr ⟨row.2, hf, rfl⟩, rfl⟩
  refine bind_eq_ok_iff.mpr ⟨s.snapshot.rows, hrows, ?_⟩
  rw [Table.ofList_rows]
  rfl

end Store

namespace Adapter

variable {a a' : Adapter}

theorem store_of_set {files files' : Files} {values : Values} {d : Delivery}
    (h : SignalSource.set a files values = .ok (a', files', d)) :
    a.store.set values = .ok (a'.store, d) := by
  obtain ⟨⟨store, delivery⟩, hs, h⟩ := bind_eq_ok_iff.mp h
  cases delivery <;> cases h <;> exact hs

theorem set_lands {s : Store} {values : Values} {n : Nat} (files : Files)
    (h : a.store.set values = .ok (s, .landed n)) :
    SignalSource.set a files values =
      .ok (⟨s, a.backing⟩, persist a.backing s files, .landed n) :=
  bind_eq_ok_iff.mpr ⟨_, h, rfl⟩

theorem files_of_set {files files' : Files} {values : Values} {n : Nat}
    (h : SignalSource.set a files values = .ok (a', files', .landed n)) :
    files' = persist a.backing a'.store files := by
  rw [set_lands files (store_of_set h)] at h
  exact (congrArg (·.2.1) (Except.ok.inj h)).symm

theorem set_waits {files files' : Files} {values : Values}
    (h : SignalSource.set a files values = .ok (a', files', .waiting)) :
    a' = ⟨a'.store, a.backing⟩ ∧ files' = files := by
  obtain ⟨⟨store, delivery⟩, -, h⟩ := bind_eq_ok_iff.mp h
  cases delivery with
  | landed => cases h
  | waiting =>
    cases h
    exact ⟨rfl, rfl⟩

theorem pop_of_receive {b : Batch} (h : SignalSource.receive a = some (b, a')) :
    ∃ stream, a.store.stream.pop = some (b, stream) ∧ a' = a.withStream stream := by
  obtain ⟨⟨c, stream⟩, hp, hc⟩ := Option.map_eq_some_iff.mp h
  cases hc
  exact ⟨stream, hp, rfl⟩

theorem subscribe_eq_ok {paths : List String} (h : SignalSource.subscribe a paths = .ok a') :
    ∃ store, a.store.subscribe paths = .ok store ∧ a' = { a with store } := by
  obtain ⟨store, hs, h⟩ := bind_eq_ok_iff.mp h
  cases h
  exact ⟨store, hs, rfl⟩

theorem isPublic_eq_ok_iff {path : String} {isPublic : Bool} :
    SignalSource.isPublic a path = .ok isPublic ↔
      ∃ signal, a.store.signals.find? path = some signal ∧ signal.spec.isPublic = isPublic := by
  show (·.isPublic) <$> a.store.spec? path = .ok isPublic ↔ _
  unfold Store.spec?
  cases a.store.signals.find? path with
  | none => simp
  | some signal => simp

theorem isReadOnly_eq_ok_iff {path : String} {isReadOnly : Bool} :
    SignalSource.isReadOnly a path = .ok isReadOnly ↔
      ∃ signal, a.store.signals.find? path = some signal ∧ signal.spec.isReadOnly = isReadOnly := by
  show (·.isReadOnly) <$> a.store.spec? path = .ok isReadOnly ↔ _
  unfold Store.spec?
  cases a.store.signals.find? path with
  | none => simp
  | some signal => simp

end Adapter

def Signal.entry (signal : Signal) (owner : Nat) : Entry :=
  ⟨signal.spec.value, signal.spec.isPublic, signal.spec.isReadOnly, true, owner, 0⟩

namespace Registry

structure Enrolled (r r' : Registry Adapter) (a : Adapter) (m : Member Adapter) : Prop where
  members : r'.members = r.members ++ [m]
  stopped : r'.stopped = r.stopped
  fed : m.fed = (!r.stopped && !a.store.stream.taken)
  seq : m.source.store.seq = a.store.seq
  stream : m.source.store.stream = a.store.stream.take.2 ∨
    r.stopped = true ∧ m.source.store.stream = a.store.stream.take.2.close
  signals : ∀ path, m.source.store.signals.find? path =
    (a.store.signals.find? path).map fun signal => { signal with subscribed := true }
  isNew : ∀ path signal, a.store.signals.find? path = some signal → r.entries.find? path = none
  entries : ∀ path, r'.entries.find? path =
    ((a.store.signals.find? path).map fun signal => signal.entry r.members.length).or
      (r.entries.find? path)
  name : m.source.store.name = a.store.name

variable {r r' : Registry Adapter} {a : Adapter}

theorem name_memberOf (a : Adapter) (given : Bool) :
    (r.memberOf a given).source.store.name = a.store.name := by
  unfold memberOf
  cases r.stopped <;> cases given <;> rfl

theorem store_memberOf (a : Adapter) (given : Bool) :
    (r.memberOf a given).source.store.signals = a.store.signals ∧
      (r.memberOf a given).source.store.seq = a.store.seq ∧
      (r.memberOf a given).fed = (!r.stopped && given) ∧
      ((r.memberOf a given).source.store.stream = a.store.stream ∨
        r.stopped = true ∧ (r.memberOf a given).source.store.stream = a.store.stream.close) := by
  unfold memberOf
  cases r.stopped with
  | false => exact ⟨rfl, rfl, rfl, .inl rfl⟩
  | true =>
    cases given with
    | false => exact ⟨rfl, rfl, rfl, .inl rfl⟩
    | true => exact ⟨rfl, rfl, rfl, .inr ⟨rfl, rfl⟩⟩

theorem subscribe_paths {s s' : Store} (h : s.subscribe s.paths = .ok s') (path : String) :
    s'.signals.find? path =
      (s.signals.find? path).map fun signal => { signal with subscribed := true } := by
  have hsignals := (Store.setSubscribed_eq_ok h).2.2 path
  rw [hsignals]
  cases hs : s.signals.find? path with
  | none => rfl
  | some signal =>
    have hm : s.paths.contains path = true := by
      rw [List.contains_iff_mem]
      exact Table.mem_keys_of_find? hs
    simp only [Option.map_some, hm, if_true]

theorem firstValues_subscribed {s s' : Store} (backing : Backing)
    (h : s.subscribe s.paths = .ok s') (path : String) :
    (firstValues (⟨s', backing⟩ : Adapter) s.paths).find? path =
      (s.signals.find? path).map fun signal => signal.spec.value := by
  have hsig := subscribe_paths h
  have hsnap : s'.snapshot = s.snapshot := by
    ext k : 1
    rw [Store.find?_snapshot, Store.find?_snapshot, Store.value?, Store.value?, hsig, Option.map_map]
    rfl
  have hpaths : s'.paths = s.paths := by
    have hkeys := congrArg Table.keys hsnap
    simpa [Table.keys, Store.snapshot, Table.map, Store.paths, Function.comp_def] using hkeys
  have hget : SignalSource.get (⟨s', backing⟩ : Adapter) s.paths = .ok s.snapshot := by
    rw [← hpaths, ← hsnap]
    exact s'.get_paths
  rw [firstValues, hget]
  exact s.find?_snapshot path

theorem find?_flags {a : Adapter} {flags : List PathFlags} (r : Registry Adapter) (values : Values)
    (m : Member Adapter) (timer : Option Timer) (hf : readFlags a a.store.paths = .ok flags)
    {path : String} {signal : Signal} (hs : a.store.signals.find? path = some signal) :
    (r.enroll flags values m timer).entries.find? path =
      some ⟨(values.find? path).getD .null, signal.spec.isPublic, signal.spec.isReadOnly,
        (values.find? path).isSome, r.members.length, 0⟩ := by
  obtain ⟨hpaths, hflags⟩ := readFlags_eq_ok hf
  have hdetermined : ∀ f ∈ flags, f.path = path →
      f = ⟨path, signal.spec.isPublic, signal.spec.isReadOnly⟩ := by
    rintro ⟨_, isPublic, isReadOnly⟩ hm rfl
    obtain ⟨hp, hr⟩ := hflags _ hm
    obtain ⟨t, ht, rfl⟩ := Adapter.isPublic_eq_ok_iff.mp hp
    obtain ⟨u, hu, rfl⟩ := Adapter.isReadOnly_eq_ok_iff.mp hr
    cases hs.symm.trans ht
    cases hs.symm.trans hu
    rfl
  have hmem : path ∈ flags.map (·.path) := by
    rw [hpaths]
    exact Table.mem_keys_of_find? hs
  obtain ⟨f, hfm, hfp⟩ := List.mem_map.mp hmem
  have hf := hdetermined f hfm hfp
  subst hf
  refine r.find?_enroll_of_mem flags values m timer hfm ?_
  intro g hg hgp
  exact hdetermined g hg hgp

theorem enrolled_of_register (h : r.register a = .accepted r') : ∃ m, r.Enrolled r' a m := by
  obtain ⟨flags, subscribed, hc, hf, hs, rfl⟩ := register_eq_accepted h
  obtain ⟨store, hsub, rfl⟩ := Adapter.subscribe_eq_ok hs
  obtain ⟨hseq, hstream, -⟩ := Store.setSubscribed_eq_ok hsub
  have hsignals := subscribe_paths hsub
  have hname : store.name = a.store.name := (Store.name_of_setSubscribed hsub).trans rfl
  obtain ⟨hm, hmseq, hmfed, hmstream⟩ := r.store_memberOf
    { (SignalSource.takeStream a).2 with store } (SignalSource.takeStream a).1
  refine ⟨_, rfl, rfl, hmfed, hmseq.trans hseq, ?_, ?_, ?_, ?_,
    (name_memberOf _ _).trans hname⟩
  · rw [hstream] at hmstream
    exact hmstream
  · intro path
    rw [hm]
    exact hsignals path
  · intro path signal hs
    exact (r.conflict?_eq_none_iff _).mp hc path (Table.mem_keys_of_find? hs)
  · intro path
    cases hs : a.store.signals.find? path with
    | none =>
      rw [Option.map_none, Option.none_or]
      apply find?_enroll_of_not_mem
      rw [(readFlags_eq_ok hf).1]
      intro hmem
      obtain ⟨signal, hs'⟩ := Table.exists_of_mem_keys hmem
      rw [hs] at hs'
      cases hs'
    | some signal =>
      have hv : (firstValues { (SignalSource.takeStream a).2 with store }
          (SignalSource.paths a)).find? path = some signal.spec.value :=
        (firstValues_subscribed a.backing hsub path).trans (congrArg _ hs)
      rw [r.find?_flags _ _ _ hf hs, hv]
      rfl

end Registry

theorem Registry.members_setSource {r : Registry Adapter} {owner : Nat} (source : Adapter) (k : Nat) :
    (r.setSource owner source).members[k]? =
      (r.members[k]?).map fun m => if k = owner then { m with source } else m := by
  simp only [Registry.setSource, List.getElem?_modify, eq_comm (a := owner)]
  cases r.members[k]? with
  | none => rfl
  | some m => by_cases hk : k = owner <;> simp [hk]

end SignalBroker
