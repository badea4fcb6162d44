import SignalBroker.Adapter.Poll
import SignalBroker.Proofs.Signal.Conversion
import SignalBroker.Proofs.Store.InPlace
import SignalBroker.Proofs.Store.Specs

namespace SignalBroker

/-- A body gives a field a value: it has the field, and there is no object in it at any depth. -/
def Gives (body : Table String Json) (field : String) (v : SignalValue) : Prop :=
  ∃ j, body.find? field = some j ∧ j.ObjectFree ∧ v.toJson = j

/-- The value of a field after some bodies, the latest at the end: that of the last body that gives it
one, or null where none does. -/
inductive Latest (field : String) (bodies : List (Table String Json)) : SignalValue → Prop where
  | given {before body after v} (hsplit : bodies = before ++ body :: after) (hv : Gives body field v)
    (hafter : ∀ later ∈ after, ¬ ∃ w, Gives later field w) : Latest field bodies v
  | never (h : ∀ body ∈ bodies, ¬ ∃ w, Gives body field w) : Latest field bodies .null

section Latest

variable {body : Table String Json} {bodies : List (Table String Json)} {field : String}
  {v : SignalValue}

theorem gives_iff : Gives body field v ↔
    ∃ j, body.find? field = some j ∧ SignalValue.ofJson? j = some v := by
  constructor
  · rintro ⟨j, hj, -, hv⟩
    exact ⟨j, hj, SignalValue.ofJson?_eq_some_iff.mpr hv⟩
  · rintro ⟨j, hj, hv⟩
    obtain rfl := SignalValue.toJson_of_ofJson? hv
    exact ⟨_, hj, SignalValue.objectFree_toJson v, rfl⟩

theorem Gives.unique {w : SignalValue} (hv : Gives body field v) (hw : Gives body field w) :
    v = w := by
  obtain ⟨j, hj, hv⟩ := gives_iff.mp hv
  obtain ⟨j', hj', hw⟩ := gives_iff.mp hw
  obtain rfl := Option.some.inj (hj.symm.trans hj')
  exact Option.some.inj (hv.symm.trans hw)

theorem latest_snoc (h : Gives body field v) : Latest field (bodies ++ [body]) v :=
  .given rfl h (by simp)

theorem Latest.snoc (h : Latest field bodies v) (hbody : ¬ ∃ w, Gives body field w) :
    Latest field (bodies ++ [body]) v := by
  have hlast : ∀ later ∈ [body], ¬ ∃ w, Gives later field w := List.forall_mem_singleton.mpr hbody
  cases h with
  | @given before found after _ hsplit hv hafter =>
    have hsplit' : bodies ++ [body] = before ++ found :: (after ++ [body]) := by
      rw [hsplit, List.append_assoc, List.cons_append]
    exact .given hsplit' hv (List.forall_mem_append.mpr ⟨hafter, hlast⟩)
  | never hnever => exact .never (List.forall_mem_append.mpr ⟨hnever, hlast⟩)

end Latest

def bodiesOf (outcomes : List PollOutcome) : List (Table String Json) :=
  outcomes.filterMap Except.toOption

theorem bodiesOf_snoc_ok (outcomes : List PollOutcome) (body : Table String Json) :
    bodiesOf (outcomes ++ [.ok body]) = bodiesOf outcomes ++ [body] := by
  rw [bodiesOf, List.filterMap_append]
  rfl

theorem bodiesOf_snoc_error (outcomes : List PollOutcome) (text : String) :
    bodiesOf (outcomes ++ [.error text]) = bodiesOf outcomes := by
  rw [bodiesOf, List.filterMap_append]
  exact List.append_nil _

namespace PollSettings

variable (settings : PollSettings)

theorem find?_specs_store {name path : String} {spec : SignalSpec} :
    (settings.store name).specs.find? path = some spec ↔
      spec = ⟨.null, settings.isPublic, true⟩ ∧ ∃ field ∈ settings.signals,
        path = settings.pathOf field := by
  rw [store, Store.specs_foldl_declare settings.pathOf fun _ => ⟨.null, settings.isPublic, true⟩,
    Store.specs_ofName]
  constructor
  · intro h
    by_cases hm : path ∈ settings.signals.map settings.pathOf
    · obtain ⟨field, hfield, rfl⟩ := List.mem_map.mp hm
      rw [Table.find?_foldl_insert_of_mem settings.pathOf _ _ _ hfield fun _ _ _ => rfl] at h
      cases h
      exact ⟨rfl, field, hfield, rfl⟩
    · rw [Table.find?_foldl_insert_of_not_mem settings.pathOf _ _ _ hm] at h
      cases h
  · rintro ⟨rfl, field, hfield, rfl⟩
    exact Table.find?_foldl_insert_of_mem settings.pathOf _ _ _ hfield fun _ _ _ => rfl

/-- A body brings a path the value that it gives the field of that path. A field may be configured more
than once, but no two fields share a path. -/
theorem find?_valuesOf {body : Table String Json} {path : String} {v : SignalValue} :
    (settings.valuesOf body).find? path = some v ↔
      ∃ field ∈ settings.signals, path = settings.pathOf field ∧ Gives body field v := by
  have hrow : ∀ path v, (path, v) ∈ (settings.signals.filterMap fun field => do
      let j ← body.find? field
      let value ← SignalValue.ofJson? j
      return (settings.pathOf field, value)) ↔
      ∃ field ∈ settings.signals, path = settings.pathOf field ∧ Gives body field v := by
    intro path v
    rw [List.mem_filterMap]
    refine exists_congr fun field => and_congr_right fun _ => ?_
    rw [gives_iff]
    simp only [Option.bind_eq_bind, Option.bind_eq_some_iff, Option.pure_def, Option.some.injEq,
      Prod.mk.injEq]
    constructor
    · rintro ⟨j, hj, w, hw, rfl, rfl⟩
      exact ⟨rfl, j, hj, hw⟩
    · rintro ⟨rfl, j, hj, hv⟩
      exact ⟨j, hj, v, hv, rfl, rfl⟩
  rw [valuesOf, Table.find?_ofList_iff_of_agree, hrow]
  rintro ⟨path, v⟩ hv ⟨_, w⟩ hw rfl
  obtain ⟨field, -, hfield, hv⟩ := (hrow _ _).mp hv
  obtain ⟨other, -, hother, hw⟩ := (hrow _ _).mp hw
  obtain rfl := Path.under_injective (hfield.symm.trans hother)
  exact hv.unique hw

end PollSettings

namespace PollSource

def pollInPlace (source : PollSource) : PollOutcome → InPlace Delivery
  | .error text => throw (.unavailable text)
  | .ok body => InPlace.write false (source.settings.valuesOf body)

theorem performs_pollInPlace (source : PollSource) (s : Store) (outcome : PollOutcome) :
    (source.pollInPlace outcome).Performs s (source.poll s outcome) := by
  cases outcome with
  | error text =>
    refine ⟨nofun, fun e' he => ?_⟩
    cases he
    rfl
  | ok body => exact InPlace.performs_write false _ s

/-- What has been done with a polled adapter: rounds of its loop, of which the outcomes of the requests
are kept, and between them writes of clients, whether they fail or not, and whatever else is done with a
store. -/
inductive Run (name : String) (settings : PollSettings) :
    List PollOutcome → PollSource → Store → Prop where
  | built {store source} (h : build name settings = .ok (store, source)) :
    Run name settings [] source store
  | polled {outcomes source s} (h : Run name settings outcomes source s) (outcome) :
    Run name settings (outcomes ++ [outcome]) (source.round s outcome).1
      (source.round s outcome).2.1
  | asked {outcomes source s} (h : Run name settings outcomes source s) (values) :
    Run name settings outcomes source ((InPlace.write true values).perform s).2
  | aside {outcomes source s s'} (h : Run name settings outcomes source s) (ha : s.Aside s') :
    Run name settings outcomes source s'

/-- The signals of a polled store are those of the fields, all of them read-only, and each has the
latest value of its field. -/
structure Folds (settings : PollSettings) (bodies : List (Table String Json)) (s : Store) : Prop where
  only : ∀ path spec, s.specs.find? path = some spec → spec.isReadOnly = true ∧
    ∃ field ∈ settings.signals, path = settings.pathOf field
  latest : ∀ field ∈ settings.signals, ∃ spec, s.specs.find? (settings.pathOf field) = some spec ∧
    ∃ v, Latest field bodies v ∧ (spec.value == v) = true

variable {name : String} {settings : PollSettings} {bodies : List (Table String Json)}
  {s s' : Store} {source : PollSource} {outcomes : List PollOutcome}

theorem folds_store : Folds settings [] (settings.store name) where
  only path spec hspec := by
    obtain ⟨rfl, hfield⟩ := settings.find?_specs_store.mp hspec
    exact ⟨rfl, hfield⟩
  latest field hfield :=
    ⟨_, settings.find?_specs_store.mpr ⟨rfl, field, hfield, rfl⟩, _, .never (by simp), BEq.rfl⟩

namespace Folds

theorem aside (h : Folds settings bodies s) (ha : s.Aside s') : Folds settings bodies s' where
  only := by
    rw [ha.specs]
    exact h.only
  latest := by
    rw [ha.specs]
    exact h.latest

theorem mem_paths_iff (h : Folds settings bodies s) (path : String) :
    path ∈ s.paths ↔ ∃ field ∈ settings.signals, path = settings.pathOf field := by
  rw [Store.mem_paths_iff]
  constructor
  · rintro ⟨spec, hspec⟩
    exact (h.only path spec hspec).2
  · rintro ⟨field, hfield, rfl⟩
    obtain ⟨spec, hspec, -⟩ := h.latest field hfield
    exact ⟨spec, hspec⟩

/-- No write of a client comes to an end: the paths that it may name are not there or are read-only. -/
theorem refuses_clients (h : Folds settings bodies s) {values : Values}
    (hsome : ∃ path v, values.find? path = some v) : ∃ e, s.set values = .error e := by
  obtain ⟨path, v, hv⟩ := hsome
  cases hset : s.set values with
  | error e => exact ⟨e, rfl⟩
  | ok r =>
    obtain ⟨spec, hspec, hopen⟩ :=
      Store.refusal?_eq_none_iff_specs.mp ((Store.write_eq_ok_iff.mp hset).1 path v hv)
    have hlocked := (h.only path spec hspec).1
    rw [hopen rfl] at hlocked
    cases hlocked

theorem isEmpty_of_set (h : Folds settings bodies s) {values : Values} {r : Store × Delivery}
    (hset : s.set values = .ok r) : values.isEmpty = true := by
  rw [← Bool.not_eq_false, Table.isEmpty_eq_false_iff]
  intro hsome
  obtain ⟨e, he⟩ := h.refuses_clients hsome
  rw [he] at hset
  cases hset

theorem perform_set (h : Folds settings bodies s) (values : Values) :
    ((InPlace.write true values).perform s).2 = s := by
  have hperforms := InPlace.performs_write true values s
  cases hset : s.write true values with
  | error e => rw [hperforms.failed e hset]
  | ok r =>
    obtain ⟨s', d⟩ := r
    have hempty := (Table.isEmpty_iff _).mp (h.isEmpty_of_set hset)
    have hrests : ¬ ∃ path v, s.Alters values path v := by
      rintro ⟨path, v, hv, -⟩
      rw [hempty] at hv
      cases hv
    rw [hperforms.done s' d hset, (Store.written_of_write hset).rests hrests]

theorem takes (h : Folds settings bodies s) (body : Table String Json) :
    ∃ s' d, s.update (settings.valuesOf body) = .ok (s', d) := by
  refine ⟨_, _, Store.write_eq_ok_iff.mpr ⟨fun path v hv => ?_, rfl⟩⟩
  obtain ⟨field, hfield, rfl, -⟩ := settings.find?_valuesOf.mp hv
  obtain ⟨spec, hspec, -⟩ := h.latest field hfield
  exact Store.refusal?_eq_none_iff_specs.mpr ⟨spec, hspec, nofun⟩

theorem took (h : Folds settings bodies s) {body : Table String Json} {d : Delivery}
    (hw : s.Written (settings.valuesOf body) s' d) : Folds settings (bodies ++ [body]) s' where
  only path spec hspec := by
    rw [hw.find?_specs, Option.map_eq_some_iff] at hspec
    obtain ⟨old, hold, rfl⟩ := hspec
    rw [SignalSpec.isReadOnly_hear]
    exact h.only path old hold
  latest field hfield := by
    obtain ⟨old, hold, v, hv, heq⟩ := h.latest field hfield
    have hspec := hw.find?_specs (settings.pathOf field)
    rw [hold, Option.map_some] at hspec
    refine ⟨_, hspec, ?_⟩
    by_cases hgives : ∃ w, Gives body field w
    · obtain ⟨w, hw⟩ := hgives
      rw [settings.find?_valuesOf.mpr ⟨field, hfield, rfl, hw⟩]
      exact ⟨w, latest_snoc hw, old.value_hear w⟩
    · have hnone : (settings.valuesOf body).find? (settings.pathOf field) = none := by
        apply Option.eq_none_iff_forall_ne_some.mpr
        intro w hw
        obtain ⟨other, -, hsame, hw⟩ := settings.find?_valuesOf.mp hw
        exact hgives ⟨w, Path.under_injective hsame ▸ hw⟩
      rw [hnone, SignalSpec.hear_none]
      exact ⟨v, hv.snoc hgives, heq⟩

end Folds

/-- Every body is taken, since each field has its signal. -/
theorem Folds.exists_poll_eq_ok (h : Folds source.settings bodies s) (body : Table String Json) :
    ∃ s' d, source.poll s (.ok body) = .ok (s', d) ∧
      Folds source.settings (bodies ++ [body]) s' := by
  obtain ⟨s', d, hupdate⟩ := h.takes body
  exact ⟨s', d, hupdate, h.took (Store.written_of_write hupdate)⟩

theorem Folds.poll_ok_iff (h : Folds source.settings bodies s) {outcome : PollOutcome} :
    (∃ s' d, source.poll s outcome = .ok (s', d)) ↔ ∃ body, outcome = .ok body := by
  cases outcome with
  | error text => exact ⟨nofun, nofun⟩
  | ok body =>
    obtain ⟨s', d, hpoll, -⟩ := h.exists_poll_eq_ok body
    exact ⟨fun _ => ⟨body, rfl⟩, fun _ => ⟨s', d, hpoll⟩⟩

variable {outcome : PollOutcome}

theorem round_of_error {e : AdapterError} (h : source.poll s outcome = .error e) :
    (source.round s outcome).2 = (s, none) := by
  rw [round, h]

theorem round_of_ok {d : Delivery} (h : source.poll s outcome = .ok (s', d)) :
    (source.round s outcome).2 = (s', some d) := by
  rw [round, h]

theorem settings_round (source : PollSource) (s : Store) (outcome : PollOutcome) :
    (source.round s outcome).1.settings = source.settings := by
  unfold round
  split <;> rfl

theorem Folds.round (h : Folds source.settings (bodiesOf outcomes) s) (outcome : PollOutcome) :
    Folds source.settings (bodiesOf (outcomes ++ [outcome])) (source.round s outcome).2.1 := by
  cases outcome with
  | error text =>
    rw [bodiesOf_snoc_error]
    exact h
  | ok body =>
    obtain ⟨s', d, hpoll, htook⟩ := h.exists_poll_eq_ok body
    rw [round_of_ok hpoll, bodiesOf_snoc_ok]
    exact htook

theorem folds_of_run (h : Run name settings outcomes source s) :
    source.settings = settings ∧ Folds settings (bodiesOf outcomes) s := by
  induction h with
  | built hbuild =>
    unfold build at hbuild
    split at hbuild
    · cases hbuild
    · cases hbuild
      exact ⟨rfl, folds_store⟩
  | @polled _ source s _ outcome ih =>
    obtain ⟨rfl, hfolds⟩ := ih
    exact ⟨source.settings_round s outcome, hfolds.round outcome⟩
  | asked _ values ih =>
    obtain ⟨hsettings, hfolds⟩ := ih
    rw [hfolds.perform_set]
    exact ⟨hsettings, hfolds⟩
  | aside _ ha ih => exact ⟨ih.1, ih.2.aside ha⟩

/-- After any run of an adapter that has been built, its paths are those of the configured fields, and
each has the latest value of its field, up to the equality of values. A poll succeeds exactly when a body
comes of its request, and one that fails leaves the store as it was. So does every write of a client that
names a path at all, and it fails. -/
theorem polls_fold (h : Run name settings outcomes source s) :
    (∀ path, path ∈ s.paths ↔ ∃ field ∈ settings.signals, path = settings.pathOf field) ∧
    (∀ field ∈ settings.signals, ∃ v, Latest field (bodiesOf outcomes) v ∧
      ∃ u, s.value? (settings.pathOf field) = some u ∧ (u == v) = true) ∧
    (∀ outcome, (∃ s' d, source.poll s outcome = .ok (s', d)) ↔ ∃ body, outcome = .ok body) ∧
    (∀ outcome e, source.poll s outcome = .error e → (source.round s outcome).2 = (s, none) ∧
      (source.pollInPlace outcome).perform s = (.error e, s)) ∧
    ∀ values, (∃ path v, values.find? path = some v) → ∃ e, s.set values = .error e ∧
      (InPlace.write true values).perform s = (.error e, s) := by
  obtain ⟨rfl, hfolds⟩ := folds_of_run h
  refine ⟨hfolds.mem_paths_iff, ?_, fun outcome => hfolds.poll_ok_iff, ?_, ?_⟩
  · intro field hfield
    obtain ⟨spec, hspec, v, hv, heq⟩ := hfolds.latest field hfield
    exact ⟨v, hv, spec.value, by rw [Store.value?_eq, hspec]; rfl, heq⟩
  · intro outcome e hpoll
    exact ⟨round_of_error hpoll, (source.performs_pollInPlace s outcome).failed e hpoll⟩
  · intro values hsome
    obtain ⟨e, hset⟩ := hfolds.refuses_clients hsome
    exact ⟨e, hset, (InPlace.performs_write true values s).failed e hset⟩

def climate : PollSettings :=
  ⟨"http://localhost/cabin", "Cabin", ["Temperature", "Air", "Temperature"], 1000, 30000, 5000, true⟩

/-- The air is known from the first body only, since there is an object within it later. The second
request fails, and a client tries to set what the service tells. -/
theorem polls_fold_climate : ∃ outcomes source s, Run "climate" climate outcomes source s ∧
    outcomes.length = 3 ∧ (bodiesOf outcomes).length = 2 ∧
    (∀ path, path ∈ s.paths ↔ ∃ field ∈ climate.signals, path = climate.pathOf field) ∧
    (∃ v, Latest "Air" (bodiesOf outcomes) v ∧
      ∃ u, s.value? "Cabin.Air" = some u ∧ (u == v) = true) ∧
    (s.value? "Cabin.Air" == some (.list [.number 40, .text "dry"])) = true ∧
    (s.value? "Cabin.Temperature" == some (.number 22)) = true ∧
    (∃ s' d, source.poll s (.ok .empty) = .ok (s', d)) ∧
    (source.round s (.error "operation timed out")).2 = (s, none) ∧
    ∃ e, s.set (.ofList [("Cabin.Temperature", .number 30)]) = .error e := by
  have hbuilt : Run "climate" climate [] (ofSettings climate) (climate.store "climate") := .built rfl
  have hfirst := hbuilt.polled (.ok (.ofList [("Temperature", .number (.natural 21)),
    ("Air", .array [.number (.natural 40), .text "dry"]), ("Other", .bool true)]))
  have hsecond := hfirst.polled (.error "operation timed out")
  have hasked := hsecond.asked (.ofList [("Cabin.Temperature", .number 30)])
  have hthird := hasked.polled (.ok (.ofList [
    ("Air", .array [.number (.natural 40), .object [("dew", .number (.natural 9))]]),
    ("Temperature", .number (.natural 22))]))
  obtain ⟨hpaths, hlatest, hpolls, hfails, hclients⟩ := polls_fold hthird
  obtain ⟨e, hset, -⟩ := hclients (.ofList [("Cabin.Temperature", .number 30)])
    ⟨"Cabin.Temperature", .number 30, rfl⟩
  exact ⟨_, _, _, hthird, rfl, rfl, hpaths, hlatest "Air" (by decide), by decide +kernel,
    by decide +kernel, (hpolls _).mpr ⟨.empty, rfl⟩, (hfails (.error "operation timed out") _ rfl).1,
    e, hset⟩

end PollSource

end SignalBroker
