import SignalBroker.Adapter.Simulation
import SignalBroker.Proofs.Except
import SignalBroker.Proofs.Store.InPlace
import SignalBroker.Proofs.Store.Specs

namespace SignalBroker

namespace SimulationSettings

variable (settings : SimulationSettings)

def lastAt? (path : String) : Option SimulatedSignal :=
  settings.signals.reverse.find? fun signal => signal.path = path

def Undrawn (path : String) : Prop :=
  ∀ signal ∈ settings.signals, signal.path = path → signal.kind.isFixed = true

variable {settings} {path : String}

theorem lastAt?_eq_none_iff :
    settings.lastAt? path = none ↔ ∀ signal ∈ settings.signals, signal.path ≠ path := by
  simp [lastAt?, List.find?_eq_none]

theorem undrawn_of_lastAt? (h : settings.lastAt? path = none) : settings.Undrawn path :=
  fun signal hsignal hpath => absurd hpath (lastAt?_eq_none_iff.mp h signal hsignal)

theorem Undrawn.isFixed_of_lastAt? (h : settings.Undrawn path) {signal : SimulatedSignal}
    (hlast : settings.lastAt? path = some signal) : signal.kind.isFixed = true := by
  refine h signal (List.mem_reverse.mp (List.mem_of_find?_eq_some hlast)) ?_
  simpa using List.find?_some hlast

theorem exists_lastAt? {signal : SimulatedSignal} (h : signal ∈ settings.signals) :
    ∃ last, settings.lastAt? signal.path = some last := by
  apply Option.ne_none_iff_exists'.mp
  intro hnone
  exact lastAt?_eq_none_iff.mp hnone signal h rfl

end SimulationSettings

namespace Simulation

structure ClientSet where
  before : Store
  values : Values

def ClientSet.Changes (set : ClientSet) (path : String) : Prop :=
  ∃ v, set.before.Alters set.values path v

/-- What has been done with a simulated adapter: ticks, writes of clients, of which those that were not
refused are kept, and whatever else is done with a store. -/
inductive Run (name : String) (settings : SimulationSettings) :
    List ClientSet → Simulation → Store → Prop where
  | built {sim s} (h : build name settings = .ok (s, sim)) : Run name settings [] sim s
  | ticked {sets sim s s' d} (h : Run name settings sets sim s) (ht : (sim.tick s).2 = .ok (s', d)) :
    Run name settings sets (sim.tick s).1 s'
  | set {sets sim s s' d values} (h : Run name settings sets sim s)
    (hset : s.set values = .ok (s', d)) : Run name settings (sets ++ [⟨s, values⟩]) sim s'
  | refused {sets sim s e values} (h : Run name settings sets sim s)
    (hset : s.set values = .error e) :
    Run name settings sets sim ((InPlace.write true values).perform s).2
  | aside {sets sim s s'} (h : Run name settings sets sim s) (ha : s.Aside s') :
    Run name settings sets sim s'

variable {name path : String} {settings : SimulationSettings} {s s' : Store} {sim : Simulation}
  {vin : Option String} {sets : List ClientSet} {values : Values} {d : Delivery}

theorem eq_of_declareSignals {signals : List SimulatedSignal}
    (h : declareSignals name s signals = .ok s') :
    s' = signals.foldl (fun s signal => s.declare signal.path signal.spec) s := by
  induction signals generalizing s with
  | nil =>
    cases h
    rfl
  | cons signal signals ih =>
    unfold declareSignals at h
    split at h
    · cases h
    · exact ih h

theorem drawVin_declares (h : settings.vinPath = some path) (s : Store) :
    ∃ vin, (drawVin settings s).2.1 = some vin ∧
      (drawVin settings s).1.specs.find? path = some ⟨.text vin, true, true⟩ := by
  fun_cases drawVin settings s with
  | case1 draws hnone =>
    rw [h] at hnone
    cases hnone
  | case2 draws vinPath hpath vin later hdraw =>
    obtain rfl := Option.some.inj (h.symm.trans hpath)
    refine ⟨vin, rfl, ?_⟩
    simp only [Store.specs_declare, Table.find?_insert, if_pos]

/-- A built simulation has declared the vehicle number first and the signals after it, so each path is
left with what was declared there last. -/
theorem specs_of_build (h : build name settings = .ok (s, sim)) : sim.settings = settings ∧
    (∀ path signal, settings.lastAt? path = some signal →
      s.specs.find? path = some signal.spec) ∧
    ∀ path, settings.vinPath = some path → ∃ vin, sim.vin = some vin ∧
      (settings.lastAt? path = none → s.specs.find? path = some ⟨.text vin, true, true⟩) := by
  have hfirst := fun path (hpath : settings.vinPath = some path) => drawVin_declares hpath (.ofName name)
  unfold build at h
  split at h
  · cases h
  · -- what is drawn does not matter here, and must not be computed
    generalize drawVin settings (.ofName name) = drawn at h hfirst
    obtain ⟨first, vin, draws⟩ := drawn
    obtain ⟨store, hdeclare, h⟩ := bind_eq_ok_iff.mp h
    cases h
    have hspecs : ∀ path, s.specs.find? path =
        ((settings.lastAt? path).map (·.spec)).or (first.specs.find? path) := by
      intro path
      rw [eq_of_declareSignals hdeclare,
        Store.specs_foldl_declare SimulatedSignal.path SimulatedSignal.spec,
        Table.find?_foldl_insert]
      rfl
    refine ⟨rfl, ?_, ?_⟩
    · intro path signal hlast
      rw [hspecs, hlast]
      rfl
    · intro path hpath
      obtain ⟨number, hnumber, hspec⟩ := hfirst path hpath
      refine ⟨number, hnumber, fun hlast => ?_⟩
      rw [hspecs, hlast]
      exact hspec

theorem fault?_of_declareSignals {signals : List SimulatedSignal}
    (h : declareSignals name s signals = .ok s') : ∀ signal ∈ signals, signal.fault? name = none := by
  induction signals generalizing s with
  | nil => exact fun _ hsignal => absurd hsignal List.not_mem_nil
  | cons signal signals ih =>
    unfold declareSignals at h
    split at h
    · cases h
    · next hsignal => exact List.forall_mem_cons.mpr ⟨hsignal, ih h⟩

theorem fault?_of_build (h : build name settings = .ok (s, sim)) {signal : SimulatedSignal}
    (hsignal : signal ∈ settings.signals) : signal.fault? name = none := by
  unfold build at h
  split at h
  · cases h
  · generalize drawVin settings (.ofName name) = drawn at h
    obtain ⟨first, vin, draws⟩ := drawn
    obtain ⟨store, hdeclare, -⟩ := bind_eq_ok_iff.mp h
    exact fault?_of_declareSignals hdeclare signal hsignal

theorem exists_declareSignals {signals : List SimulatedSignal}
    (h : ∀ signal ∈ signals, signal.fault? name = none) (s : Store) :
    ∃ s', declareSignals name s signals = .ok s' := by
  induction signals generalizing s with
  | nil => exact ⟨s, rfl⟩
  | cons signal signals ih =>
    obtain ⟨hsignal, hsignals⟩ := List.forall_mem_cons.mp h
    rw [declareSignals, hsignal]
    exact ih hsignals _

theorem exists_build (name : String) (settings : SimulationSettings) (hperiod : settings.period ≠ 0)
    (h : ∀ signal ∈ settings.signals, signal.fault? name = none) :
    ∃ s sim, build name settings = .ok (s, sim) := by
  rw [build, if_neg hperiod]
  generalize drawVin settings (.ofName name) = drawn
  obtain ⟨first, vin, draws⟩ := drawn
  obtain ⟨s, hs⟩ := exists_declareSignals h first
  exact ⟨s, _, bind_eq_ok_iff.mpr ⟨s, hs, rfl⟩⟩

theorem eq_fixed_of_isFixed {kind : SimulatedKind} (h : kind.isFixed = true) : kind = .fixed := by
  cases kind with
  | fixed => rfl
  | bool => cases h
  | number => cases h

theorem draw_of_isFixed {kind : SimulatedKind} (h : kind.isFixed = true) (d : Random.Draws) :
    kind.draw d = (none, d) := by
  rw [eq_fixed_of_isFixed h]
  rfl

theorem find?_drawValues_of_fixed {signals : List SimulatedSignal}
    (h : ∀ signal ∈ signals, signal.path = path → signal.kind.isFixed = true) (d : Random.Draws)
    (values : Values) : (drawValues d values signals).1.find? path = values.find? path := by
  induction signals generalizing d values with
  | nil => rfl
  | cons signal signals ih =>
    obtain ⟨hsignal, hsignals⟩ := List.forall_mem_cons.mp h
    unfold drawValues
    split
    · next value d' hdraw =>
      rw [ih hsignals, Table.find?_insert]
      split
      · next hpath =>
        rw [draw_of_isFixed (hsignal hpath.symm)] at hdraw
        cases hdraw
      · rfl
    · exact ih hsignals _ _

theorem written_of_tick (ht : (sim.tick s).2 = .ok (s', d)) : s.Written sim.nextValues.1 s' d :=
  Store.written_of_write ht

theorem find?_nextValues (h : sim.settings.Undrawn path) : sim.nextValues.1.find? path = none :=
  find?_drawValues_of_fixed h _ _

theorem signal_of_nextValues {v : SignalValue} (h : sim.nextValues.1.find? path = some v) :
    ∃ signal ∈ sim.settings.signals, signal.path = path := by
  by_contra hnone
  have hundrawn : sim.settings.Undrawn path :=
    fun signal hsignal hpath => absurd ⟨signal, hsignal, hpath⟩ hnone
  rw [find?_nextValues hundrawn] at h
  cases h

/-- What a store shows of the settings: the flags of the signals that count, the vehicle number where
there is no signal, and the first values of fixed signals that no client has changed. -/
structure Roles (settings : SimulationSettings) (vin : Option String) (sets : List ClientSet)
    (s : Store) : Prop where
  flags : ∀ path signal, settings.lastAt? path = some signal → ∃ spec,
    s.specs.find? path = some spec ∧ spec.isPublic = signal.isPublic ∧
      spec.isReadOnly = signal.isReadOnly
  vin : ∀ path, settings.vinPath = some path → settings.lastAt? path = none →
    ∃ number, vin = some number ∧ s.specs.find? path = some ⟨.text number, true, true⟩
  fixed : ∀ path signal, settings.lastAt? path = some signal → settings.Undrawn path →
    s.value? path = some (signal.initial.getD .null) ∨ ∃ set ∈ sets, set.Changes path

theorem value_spec_of_isFixed {signal : SimulatedSignal} (h : signal.kind.isFixed = true) :
    signal.spec.value = signal.initial.getD .null := by
  rw [SimulatedSignal.spec, eq_fixed_of_isFixed h]
  rfl

theorem roles_of_build (h : build name settings = .ok (s, sim)) : Roles settings sim.vin [] s := by
  obtain ⟨-, hlasts, hvin⟩ := specs_of_build h
  refine ⟨fun path signal hlast => ⟨_, hlasts path signal hlast, rfl, rfl⟩, ?_, ?_⟩
  · intro path hpath hlast
    exact (hvin path hpath).imp fun _ h => h.imp_right fun hspec => hspec hlast
  · intro path signal hlast hundrawn
    have hfixed := hundrawn.isFixed_of_lastAt? hlast
    exact .inl (by rw [Store.value?_eq, hlasts path signal hlast, Option.map_some,
      value_spec_of_isFixed hfixed])

theorem value?_of_written (hw : s.Written values s' d) (path : String) :
    s'.value? path = s.value? path ∨ ∃ v, s.Alters values path v := by
  rw [Store.value?_eq, Store.value?_eq, hw.find?_specs, Option.map_map]
  cases hspec : s.specs.find? path with
  | none => exact .inl rfl
  | some spec =>
    cases hv : values.find? path with
    | none => exact .inl rfl
    | some v =>
      cases hsame : spec.value == v with
      | true => exact .inl (congrArg some (congrArg SignalSpec.value (spec.hear_of_beq hsame)))
      | false =>
        refine .inr ⟨v, hv, spec.value, ?_, hsame⟩
        rw [Store.value?_eq, hspec]
        rfl

namespace Roles

theorem aside (h : Roles settings vin sets s) (ha : s.Aside s') : Roles settings vin sets s' where
  flags := by
    rw [ha.specs]
    exact h.flags
  vin := by
    rw [ha.specs]
    exact h.vin
  fixed := by
    simp only [Store.value?_eq, ha.specs]
    simpa only [Store.value?_eq] using h.fixed

/-- A write that leaves the vehicle number alone keeps the roles, if its changes of fixed signals are
told with those of clients. -/
theorem written (h : Roles settings vin sets s) (hw : s.Written values s' d)
    {later : List ClientSet} (hlater : sets ⊆ later)
    (hvin : ∀ path, settings.vinPath = some path → settings.lastAt? path = none →
      values.find? path = none)
    (hfixed : ∀ path, settings.Undrawn path → ∀ v, s.Alters values path v →
      ∃ set ∈ later, set.Changes path) : Roles settings vin later s' where
  flags path signal hlast := by
    obtain ⟨spec, hspec, hpublic, hreadOnly⟩ := h.flags path signal hlast
    refine ⟨spec.hear (values.find? path), by rw [hw.find?_specs, hspec]; rfl, ?_, ?_⟩
    · rw [SignalSpec.isPublic_hear, hpublic]
    · rw [SignalSpec.isReadOnly_hear, hreadOnly]
  vin path hpath hlast := by
    obtain ⟨number, hnumber, hspec⟩ := h.vin path hpath hlast
    exact ⟨number, hnumber, by rw [hw.find?_specs, hspec, hvin path hpath hlast]; rfl⟩
  fixed path signal hlast hundrawn := by
    obtain hkept | ⟨v, halters⟩ := value?_of_written hw path
    · rw [hkept]
      exact (h.fixed path signal hlast hundrawn).imp_right
        fun ⟨set, hset, hchanges⟩ => ⟨set, hlater hset, hchanges⟩
    · exact .inr (hfixed path hundrawn v halters)

theorem ticked (h : Roles sim.settings vin sets s) (ht : (sim.tick s).2 = .ok (s', d)) :
    Roles sim.settings vin sets s' := by
  refine h.written (written_of_tick ht) (List.Subset.refl _) ?_ ?_
  · intro path _ hlast
    exact find?_nextValues (SimulationSettings.undrawn_of_lastAt? hlast)
  · rintro path hundrawn v ⟨hv, -⟩
    rw [find?_nextValues hundrawn] at hv
    cases hv

theorem set (h : Roles settings vin sets s) (hset : s.set values = .ok (s', d)) :
    Roles settings vin (sets ++ [⟨s, values⟩]) s' := by
  refine h.written (Store.written_of_write hset) (List.subset_append_left _ _) ?_ ?_
  · -- the path is read-only, so a client that names it is refused
    intro path hpath hlast
    obtain ⟨number, -, hspec⟩ := h.vin path hpath hlast
    apply Option.eq_none_iff_forall_ne_some.mpr
    intro v hv
    obtain ⟨spec, hsame, hopen⟩ :=
      Store.refusal?_eq_none_iff_specs.mp ((Store.write_eq_ok_iff.mp hset).1 path v hv)
    obtain rfl := Option.some.inj (hspec.symm.trans hsame)
    cases hopen rfl
  · intro path _ v halters
    exact ⟨⟨s, values⟩, by simp, v, halters⟩

theorem ticks (h : Roles sim.settings vin sets s) : ∃ s' d, (sim.tick s).2 = .ok (s', d) := by
  refine ⟨_, _, Store.write_eq_ok_iff.mpr ⟨fun path v hv => ?_, rfl⟩⟩
  obtain ⟨signal, hsignal, rfl⟩ := signal_of_nextValues hv
  obtain ⟨last, hlast⟩ := SimulationSettings.exists_lastAt? hsignal
  obtain ⟨spec, hspec, -⟩ := h.flags _ _ hlast
  exact Store.refusal?_eq_none_iff_specs.mpr ⟨spec, hspec, nofun⟩

end Roles

theorem roles_of_run (h : Run name settings sets sim s) :
    sim.settings = settings ∧ Roles settings sim.vin sets s := by
  induction h with
  | built hbuild => exact ⟨(specs_of_build hbuild).1, roles_of_build hbuild⟩
  | ticked _ ht ih =>
    obtain ⟨rfl, hroles⟩ := ih
    exact ⟨rfl, hroles.ticked ht⟩
  | set _ hset ih => exact ⟨ih.1, ih.2.set hset⟩
  | refused _ hset ih =>
    rw [(InPlace.performs_write true _ _).failed _ hset]
    exact ih
  | aside _ ha ih => exact ⟨ih.1, ih.2.aside ha⟩

theorem value?_of_tick (h : sim.settings.Undrawn path) (ht : (sim.tick s).2 = .ok (s', d)) :
    s'.value? path = s.value? path := by
  obtain hkept | ⟨v, hv, -⟩ := value?_of_written (written_of_tick ht) path
  · exact hkept
  · rw [find?_nextValues h] at hv
    cases hv

def truck : SimulationSettings :=
  ⟨7, 1000, some "Truck.VIN", [⟨"Truck.Lights", .bool, none, true, true⟩,
    ⟨"Truck.Doors", .fixed, some (.number 4), true, false⟩, ⟨"Truck.Plate", .fixed, none, false, true⟩]⟩

def displaced : SimulationSettings := ⟨1, 1000, some "V", [⟨"V", .bool, none, true, true⟩]⟩

def overdrawn : SimulationSettings :=
  ⟨1, 1000, none, [⟨"A", .bool, none, true, true⟩, ⟨"A", .fixed, some (.number 7), true, true⟩]⟩

end Simulation

end SignalBroker
