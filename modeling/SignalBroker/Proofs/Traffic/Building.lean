import SignalBroker.Adapter.Factory
import SignalBroker.Proofs.Traffic.Cache

namespace SignalBroker

/-- A store with declarations only. -/
structure Store.Blank (s : Store) : Prop where
  lived : ∃ first, s.Lived [first]
  queue : s.stream.queue = []
  isOpen : s.stream.closed = false

namespace Store

theorem blank_ofName (name : String) : (ofName name).Blank where
  lived := ⟨.empty, .created name _⟩
  queue := rfl
  isOpen := rfl

variable {s s' : Store}

theorem Blank.declare (h : s.Blank) (path : String) (spec : SignalSpec) :
    (s.declare path spec).Blank where
  lived := by
    obtain ⟨first, hl⟩ := h.lived
    exact ⟨_, .declared hl path spec⟩
  queue := h.queue
  isOpen := h.isOpen

theorem blank_of_declareEntries {settings : DocumentSettings} {name : String}
    {keys keys' : List (String × String)} {rows : List (String × Json)} (h : s.Blank)
    (hd : DocumentSource.declareEntries settings name s keys rows = .ok (s', keys')) : s'.Blank := by
  induction rows generalizing s keys with
  | nil =>
    cases hd
    exact h
  | cons row rows ih =>
    unfold DocumentSource.declareEntries at hd
    split at hd
    · cases hd
    · exact ih (h.declare _ _) hd

theorem blank_of_load {files : Files} {name : String} {settings : DocumentSettings}
    {source : DocumentSource} (h : DocumentSource.load files name settings = .ok (s, source)) :
    s.Blank := by
  obtain ⟨content, -, h⟩ := bind_eq_ok_iff.mp h
  obtain ⟨entries, -, h⟩ := bind_eq_ok_iff.mp h
  obtain ⟨⟨store, keys⟩, hd, h⟩ := bind_eq_ok_iff.mp h
  cases h
  exact blank_of_declareEntries (blank_ofName name) hd

theorem blank_poll (settings : PollSettings) (name : String) : (settings.store name).Blank := by
  unfold PollSettings.store
  generalize ofName name = s, blank_ofName name = h
  induction settings.signals generalizing s with
  | nil => exact h
  | cons field fields ih => exact ih _ (h.declare _ _)

theorem blank_of_declareSignals {name : String} {signals : List SimulatedSignal} (h : s.Blank)
    (hd : Simulation.declareSignals name s signals = .ok s') : s'.Blank := by
  induction signals generalizing s with
  | nil =>
    cases hd
    exact h
  | cons signal signals ih =>
    unfold Simulation.declareSignals at hd
    split at hd
    · cases hd
    · exact ih (h.declare _ _) hd

theorem blank_drawVin (settings : SimulationSettings) (h : s.Blank) :
    (Simulation.drawVin settings s).1.Blank := by
  fun_cases Simulation.drawVin settings s with
  | case1 => exact h
  | case2 draws path hpath vin draws' hdraw => exact h.declare _ _

theorem blank_of_simulation {name : String} {settings : SimulationSettings} {simulation : Simulation}
    (h : Simulation.build name settings = .ok (s, simulation)) : s.Blank := by
  unfold Simulation.build at h
  split at h
  · cases h
  · obtain ⟨store, hd, h⟩ := bind_eq_ok_iff.mp h
    cases h
    exact blank_of_declareSignals (blank_drawVin settings (blank_ofName name)) hd

end Store

namespace AdapterTypes

variable {files : Files} {spec : AdapterSpec} {a : Adapter}

theorem blank_of_buildDocument (h : buildDocument files spec = .ok a) : a.store.Blank := by
  obtain ⟨settings, -, h⟩ := bind_eq_ok_iff.mp h
  obtain ⟨⟨store, source⟩, hload, h⟩ := bind_eq_ok_iff.mp h
  cases h
  exact Store.blank_of_load hload

theorem blank_of_buildPolled (h : buildPolled files spec = .ok a) : a.store.Blank := by
  obtain ⟨settings, -, h⟩ := bind_eq_ok_iff.mp h
  obtain ⟨⟨store, source⟩, hbuild, h⟩ := bind_eq_ok_iff.mp h
  cases h
  unfold PollSource.build at hbuild
  split at hbuild
  · cases hbuild
  · cases hbuild
    exact Store.blank_poll settings spec.name

theorem blank_of_buildSimulated (h : buildSimulated files spec = .ok a) : a.store.Blank := by
  obtain ⟨settings, -, h⟩ := bind_eq_ok_iff.mp h
  obtain ⟨⟨store, simulation⟩, hbuild, h⟩ := bind_eq_ok_iff.mp h
  cases h
  exact Store.blank_of_simulation hbuild

theorem blank_of_build (h : builtin.build files spec = .ok a) : a.store.Blank := by
  unfold build at h
  split at h
  · next builder hb =>
    simp only [builtin, register, empty, Table.find?_insert, Table.find?_empty] at hb
    split at hb
    · cases hb
      exact blank_of_buildSimulated h
    · split at hb
      · cases hb
        exact blank_of_buildPolled h
      · split at hb
        · cases hb
          exact blank_of_buildDocument h
        · cases hb
  · cases h

end AdapterTypes

namespace Traffic

/-- A broker that registers what a configuration asks for is reached. -/
theorem reached_of_build {t : Traffic} {files : Files} {spec : AdapterSpec} {a : Adapter}
    {b' : Broker Adapter} (h : Reached Adapter.Idle t)
    (hb : AdapterTypes.builtin.build files spec = .ok a)
    (hr : t.broker.register a = .ok b') : ∃ t', Reached Adapter.Idle t' ∧ t'.broker = b' := by
  have hblank := AdapterTypes.blank_of_build hb
  obtain ⟨first, hl⟩ := hblank.lived
  exact ⟨_, reached_later h (.single (.registered ⟨hblank.queue, hblank.isOpen⟩ hl hr)), rfl⟩

end Traffic

end SignalBroker
