import SignalBroker.Proofs.Broker.Partition
import SignalBroker.Proofs.Session.Refusal

namespace SignalBroker.Switchboard

open Registry (Partitioned)

/-- Calls to register adapters, each with whether it has succeeded, and what has become of the broker.
A source that is taken over may be written to between the subscription of its paths and the reading of
their values. A call that fails ends at its first check. -/
inductive Calls (w₀ : Switchboard Adapter) : List (Adapter × Bool) → Switchboard Adapter → Prop where
  | start : Calls w₀ [] w₀
  | accepted {calls w a late r'} (h : Calls w₀ calls w)
    (ht : w.broker.registry.TakesOver a late r') :
    Calls w₀ (calls ++ [(a, true)]) ⟨{ w.broker with registry := r' }, w.sessions⟩
  | refused {calls w a e a'} (h : Calls w₀ calls w) (hr : w.broker.register a = .error (e, a')) :
    Calls w₀ (calls ++ [(a, false)]) w
  | aside {calls w w'} (h : Calls w₀ calls w) (hm : Move w w')
    (hn : ∀ a, ¬ Step w (.registered a) w') : Calls w₀ calls w'

variable {w₀ w w' : Switchboard Adapter} {calls more : List (Adapter × Bool)} {a late : Adapter}
  {r' : Registry Adapter}

theorem stays_aside (hm : Move w w') (hn : ∀ a, ¬ Step w (.registered a) w') :
    w.broker.registry.Stays w'.broker.registry := by
  obtain hstays | ⟨a, hs⟩ := stays_or_registers hm
  · exact hstays
  · exact absurd hs (hn a)

theorem register_eq_error_iff {e : BrokerError} {a' : Adapter} :
    w.broker.register a = .error (e, a') ↔
      w.broker.registry.conflict? (SignalSource.paths a) = some e ∧ a' = a := by
  unfold Broker.register
  obtain ⟨hc, r', hr⟩ | ⟨e', hc, hr⟩ := w.broker.registry.register_cases a
  · simp [hc, hr]
  · simp [hc, hr, eq_comm]

theorem enrolled_of_takesOver {r : Registry Adapter} (h : r.TakesOver a late r') :
    ∃ whole m, whole.profile = a.profile ∧ r.Enrolled r' whole m := by
  obtain ⟨m, hm⟩ := Registry.enrolled_of_register (Registry.register_late h)
  refine ⟨_, m, ?_, hm⟩
  obtain ⟨flags, subscribed, -, -, hs, hw, -⟩ := h
  obtain ⟨store, hsub, rfl⟩ := Adapter.subscribe_eq_ok hs
  have htaken : Adapter.Becomes a (SignalSource.takeStream a).2 := .single (.streamed a _)
  have hmarked : Adapter.Becomes a { (SignalSource.takeStream a).2 with store } :=
    htaken.tail (.marked hsub)
  have hlate : late.profile = a.profile := by
    refine Eq.trans ?_ (Adapter.profile_becomes hmarked)
    clear hm
    induction hw with
    | refl => rfl
    | @tail b c _ hs ih =>
      obtain ⟨byClient, values, d, hwrite⟩ := hs
      exact (Adapter.profile_turn (.wrote c.backing hwrite)).trans ih
  exact hlate

/-- What has been registered stays, and the paths of an adapter that is taken over come in addition. -/
theorem exists_entry_takesOver {r : Registry Adapter} (h : r.TakesOver a late r') (path : String) :
    (∃ t, r'.title? path = some t) ↔
      path ∈ SignalSource.paths a ∨ ∃ t, r.title? path = some t := by
  obtain ⟨whole, m, hprofile, hm⟩ := enrolled_of_takesOver h
  rw [Registry.title?_of_enrolled hm, Registry.mem_paths_iff, ← hprofile]
  cases whole.profile.flags.find? path <;> simp

theorem partitioned_of_calls (h₀ : w₀.broker.registry.Partitioned) (h : Calls w₀ calls w) :
    w.broker.registry.Partitioned := by
  induction h with
  | start => exact h₀
  | accepted _ ht ih =>
    obtain ⟨whole, m, -, hm⟩ := enrolled_of_takesOver ht
    exact Registry.partitioned_of_enrolled hm ih
  | refused _ _ ih => exact ih
  | aside _ hm hn ih => exact (stays_aside hm hn).partitioned ih

theorem title?_of_calls (h : Calls w more w') {path : String} {t : Title}
    (ht : w.broker.registry.title? path = some t) : w'.broker.registry.title? path = some t := by
  induction h with
  | start => exact ht
  | accepted _ htakes ih =>
    obtain ⟨whole, m, -, hm⟩ := enrolled_of_takesOver htakes
    have hnone : whole.profile.flags.find? path = none := by
      rw [Option.eq_none_iff_forall_ne_some]
      intro f hf
      have hnew := Registry.title?_eq_none_of_enrolled hm (Registry.mem_paths_iff.mpr ⟨f, hf⟩)
      rw [hnew] at ih
      cases ih
    rw [Registry.title?_of_enrolled hm, hnone]
    exact ih
  | refused _ _ ih => exact ih
  | aside _ hm hn ih => exact ((stays_aside hm hn).title? path).trans ih

theorem registered_iff (h₀ : w₀.broker.registry = .empty) (h : Calls w₀ calls w) (path : String) :
    (∃ t, w.broker.registry.title? path = some t) ↔
      ∃ call ∈ calls, call.2 = true ∧ path ∈ SignalSource.paths call.1 := by
  induction h with
  | start =>
    rw [h₀]
    constructor
    · rintro ⟨t, ht⟩
      cases ht
    · rintro ⟨call, hcall, -⟩
      cases hcall
  | @accepted calls w a late r' _ ht ih =>
    show (∃ t, r'.title? path = some t) ↔ _
    rw [exists_entry_takesOver ht, ih]
    simp only [List.mem_append, List.mem_singleton, or_and_right, exists_or, exists_eq_left,
      true_and]
    exact or_comm
  | refused _ _ ih =>
    rw [ih]
    simp [or_and_right, exists_or]
  | aside _ hm hn ih =>
    rw [(stays_aside hm hn).title? path]
    exact ih

theorem all_accepted_iff (h₀ : w₀.broker.registry = .empty) (h : Calls w₀ calls w) :
    (∀ call ∈ calls, call.2 = true) ↔
      calls.Pairwise fun c d => ∀ path ∈ SignalSource.paths c.1, path ∉ SignalSource.paths d.1 := by
  induction h with
  | start => simp
  | @accepted calls w a late r' h ht ih =>
    rw [List.forall_mem_append, List.forall_mem_singleton, List.pairwise_append, ← ih]
    refine ⟨fun hall => ⟨hall.1, List.pairwise_singleton _ _, ?_⟩, fun hall => ⟨hall.1, rfl⟩⟩
    -- what was taken over before is registered, so the new one does not list it
    intro c hc d hd path hpath hlisted
    cases List.mem_singleton.mp hd
    obtain ⟨t, htitle⟩ := (registered_iff h₀ h path).mpr ⟨c, hc, hall.1 c hc, hpath⟩
    obtain ⟨e, he, -⟩ := Registry.title?_eq_some_iff.mp htitle
    obtain ⟨flags, subscribed, hconflict, -⟩ := ht
    have hfree := (Registry.conflict?_eq_none_iff _ _).mp hconflict path hlisted
    rw [he] at hfree
    cases hfree
  | @refused calls w a e a' h hr ih =>
    constructor
    · intro hall
      have hlast := hall (a, false) (by simp)
      cases hlast
    · intro hpairs
      -- the path that has made it fail is one of an adapter that was taken over
      obtain ⟨hconflict, -⟩ := register_eq_error_iff.mp hr
      obtain ⟨path, en, hlisted, hen, -⟩ := Registry.conflict?_eq_some hconflict
      obtain ⟨c, hc, -, hpath⟩ := (registered_iff h₀ h path).mp
        ⟨en.title, Registry.title?_eq_some_iff.mpr ⟨en, hen, rfl⟩⟩
      have hdisjoint := (List.pairwise_append.mp hpairs).2.2 c hc (a, false) (by simp)
      exact absurd hlisted (hdisjoint path hpath)
  | aside _ _ _ ih => exact ih

/-- At any time the entries are divided among the members, and titles stay from then on. An adapter is
refused exactly if it shares a path with them. The error names the least such path and its owner, and
the adapter is given back as it was, with its subscriptions and its stream. So of several adapters all
are taken over if they share no path, and only then. -/
theorem paths_partitioned {resolver : Resolver} {clock : Clock} {outboxCapacity : Nat} {files : Files}
    (h : Calls (start resolver clock outboxCapacity files) calls w) :
    w.broker.registry.Divided ∧
    (∀ more w', Calls w more w' → ∀ path e, w.broker.registry.entries.find? path = some e →
      ∃ e', w'.broker.registry.entries.find? path = some e' ∧ e'.title = e.title) ∧
    (∀ a, ((∃ path owner, w.broker.register a = .error (.duplicatePath path owner, a)) ↔
        ∃ path ∈ SignalSource.paths a, ∃ k, w.broker.registry.Lists k path) ∧
      ∀ e a', w.broker.register a = .error (e, a') → a' = a ∧ ∃ path owner,
        e = .duplicatePath path owner ∧ w.broker.registry.FirstShared a path owner) ∧
    ((∀ call ∈ calls, call.2 = true) ↔ calls.Pairwise fun c d =>
      ∀ path ∈ SignalSource.paths c.1, path ∉ SignalSource.paths d.1) := by
  have hpart := partitioned_of_calls Registry.partitioned_empty h
  refine ⟨hpart.divided, ?_, ?_, all_accepted_iff rfl h⟩
  · intro more w' hmore path e he
    have htitle := title?_of_calls hmore (Registry.title?_eq_some_iff.mpr ⟨e, he, rfl⟩)
    exact Registry.title?_eq_some_iff.mp htitle
  · intro a
    refine ⟨⟨?_, ?_⟩, ?_⟩
    · rintro ⟨path, owner, hr⟩
      obtain ⟨hconflict, -⟩ := register_eq_error_iff.mp hr
      obtain ⟨path, en, hpath, hen, -⟩ := Registry.conflict?_eq_some hconflict
      exact ⟨path, hpath, hpart.exists_entry_iff.mp ⟨en, hen⟩⟩
    · rintro ⟨path, hpath, hlists⟩
      obtain ⟨hnone, -⟩ | ⟨e, hconflict, -⟩ := w.broker.registry.register_cases a
      · have hfree := (Registry.conflict?_eq_none_iff_unlisted hpart).mp hnone path hpath
        exact absurd hlists hfree
      · obtain ⟨path, owner, rfl, -⟩ := Registry.firstShared_of_conflict? hpart hconflict
        exact ⟨path, owner, register_eq_error_iff.mpr ⟨hconflict, rfl⟩⟩
    · intro e a' hr
      obtain ⟨hconflict, rfl⟩ := register_eq_error_iff.mp hr
      exact ⟨rfl, Registry.firstShared_of_conflict? hpart hconflict⟩

def spareLock : Adapter :=
  ⟨((Store.ofName "spare").declare "Trunk.IsOpen" ⟨.bool false, true, false⟩).declare
    "Trunk.IsLocked" ⟨.bool true, false, true⟩, .memory⟩

def locked : Switchboard Adapter :=
  ((start (.ofTable .empty 0) ⟨0⟩ 8 .empty).join lock).join lamp

theorem Calls.join (h : Calls w₀ calls w) (hr : w.broker.registry.register a = .accepted r') :
    Calls w₀ (calls ++ [(a, true)]) (w.join a) := by
  obtain ⟨flags, subscribed, hc, hf, hs, rfl⟩ := Registry.register_eq_accepted hr
  have hjoin : w.broker.register a = .ok { w.broker with registry := _ } :=
    Broker.register_eq_ok_iff.mpr ⟨_, hr, rfl⟩
  rw [Switchboard.join, hjoin]
  exact h.accepted ⟨flags, subscribed, hc, hf, hs, .refl, rfl⟩

/-- The spare lock is refused, and the scale is taken over after it. -/
theorem paths_partitioned_trunk :
    Calls (start (.ofTable .empty 0) ⟨0⟩ 8 .empty)
      [(lock, true), (lamp, true), (spareLock, false)] locked ∧
    locked.broker.registry.Divided ∧
    locked.broker.register spareLock =
      .error (.duplicatePath "Trunk.IsLocked" "lock", spareLock) ∧
    locked.broker.registry.FirstShared spareLock "Trunk.IsLocked" "lock" ∧
    Calls locked [(scale, true)] loaded ∧
    (∃ e, loaded.broker.registry.entries.find? "Trunk.IsLocked" = some e ∧
      e.title = ⟨0, true, false⟩) ∧
    ¬ [(lock, true), (lamp, true), (spareLock, false)].Pairwise (fun c d =>
      ∀ path ∈ SignalSource.paths c.1, path ∉ SignalSource.paths d.1) := by
  have herror : locked.broker.register spareLock =
      .error (.duplicatePath "Trunk.IsLocked" "lock", spareLock) := rfl
  have hlock : Calls (start (.ofTable .empty 0) ⟨0⟩ 8 .empty) [(lock, true)]
      (Switchboard.join _ lock) := Calls.start.join rfl
  have hlamp : Calls _ [(lock, true), (lamp, true)] locked := hlock.join rfl
  have hspare : Calls _ [(lock, true), (lamp, true), (spareLock, false)] locked :=
    hlamp.refused herror
  have hscale : Calls locked [(scale, true)] loaded := Calls.start.join rfl
  obtain ⟨hdivided, hkept, hrefused, hall⟩ := paths_partitioned hspare
  obtain ⟨-, path, owner, hshared, hfirst⟩ := (hrefused spareLock).2 _ _ herror
  cases hshared
  refine ⟨hspare, hdivided, herror, hfirst, hscale, ?_, ?_⟩
  · exact hkept _ _ hscale "Trunk.IsLocked" _ rfl
  · rw [← hall]
    decide

end SignalBroker.Switchboard
