import Mathlib.Data.List.Sort
import SignalBroker.Proofs.Broker.Ownership
import SignalBroker.Proofs.Document.Saving
import SignalBroker.Proofs.Json.Reparsing
import SignalBroker.Proofs.Signal.Conversion
import SignalBroker.Proofs.Store.Specs

namespace SignalBroker

open Json (maxDepth)

namespace DocumentSettings

theorem pathOf_injective {s : DocumentSettings} {a b : String} (h : s.pathOf a = s.pathOf b) :
    a = b :=
  Path.under_injective h

end DocumentSettings

namespace DocumentSource

/-- The entry of a signal describes that signal, whatever the settings say. -/
theorem entry?_entryOf (s : DocumentSettings) (spec : SignalSpec) :
    s.entry? (entryOf spec) = some spec := by
  have hvalue := SignalValue.ofJson?_toJson spec.value
  simp [entryOf, DocumentSettings.entry?, DocumentSettings.flag, List.lookup, hvalue, Json.bool?]

theorem sorted_entryOf (spec : SignalSpec) : (entryOf spec).Sorted := by
  have hnames : ["public", "readOnly", "value"].Pairwise (· < ·) := by decide +kernel
  refine ⟨?_, trivial, trivial, SignalValue.sorted_toJson spec.value, trivial⟩
  exact (List.pairwise_map (f := Prod.fst)).mp hnames

theorem legible_entryOf {spec : SignalSpec} (h : spec.value.toJson.Legible) :
    (entryOf spec).Legible :=
  ⟨trivial, trivial, h, trivial⟩

theorem depth_entryOf (spec : SignalSpec) : (entryOf spec).depth = spec.value.toJson.depth + 1 := by
  simp [entryOf, Json.depth, Json.depthMembers]

/-- The keys of a source are distinct and lead to the signals of a store, and to all of them. -/
structure Keyed (source : DocumentSource) (specs : Table String SignalSpec) : Prop where
  names : ∃ names : List String, names.Pairwise (· < ·) ∧
    source.keys = names.map fun key => (source.settings.pathOf key, key)
  covers : ∀ path, (specs.find? path).isSome = true ↔ ∃ key, (path, key) ∈ source.keys

variable {source : DocumentSource} {settings : DocumentSettings} {name : String}
  {specs : Table String SignalSpec}

theorem Keyed.mem_keys_iff (h : source.Keyed specs) {path key : String} :
    (path, key) ∈ source.keys ↔
      path = source.settings.pathOf key ∧ (specs.find? path).isSome = true := by
  obtain ⟨names, -, hkeys⟩ := h.names
  have hpath : ∀ {path key : String}, (path, key) ∈ source.keys →
      path = source.settings.pathOf key := by
    intro path key hmem
    rw [hkeys] at hmem
    obtain ⟨_, -, heq⟩ := List.mem_map.mp hmem
    cases heq
    rfl
  constructor
  · intro hmem
    exact ⟨hpath hmem, (h.covers path).mpr ⟨key, hmem⟩⟩
  · rintro ⟨rfl, hsome⟩
    obtain ⟨key', hmem⟩ := (h.covers _).mp hsome
    rw [DocumentSettings.pathOf_injective (hpath hmem)]
    rwa [← hpath hmem]

structure Declared (settings : DocumentSettings) (rows : List (String × Json))
    (specs specs' : Table String SignalSpec) : Prop where
  entry : ∀ row ∈ rows, ∃ spec, settings.entry? row.2 = some spec ∧
    specs'.find? (settings.pathOf row.1) = some spec
  other : ∀ path, (∀ row ∈ rows, settings.pathOf row.1 ≠ path) → specs'.find? path = specs.find? path

theorem declareEntries_eq_ok {rows : List (String × Json)} {store store' : Store}
    {keys keys' : List (String × String)} (hasc : rows.Pairwise fun a b => a.1 < b.1)
    (h : declareEntries settings name store keys rows = .ok (store', keys')) :
    keys' = keys ++ rows.map (fun row => (settings.pathOf row.1, row.1)) ∧
      Declared settings rows store.specs store'.specs := by
  induction rows generalizing store keys with
  | nil =>
    cases h
    exact ⟨by simp, nofun, fun _ _ => rfl⟩
  | cons row rows ih =>
    obtain ⟨key, entry⟩ := row
    obtain ⟨hlater, hasc⟩ := List.pairwise_cons.mp hasc
    rw [declareEntries] at h
    split at h
    · cases h
    · next spec hspec =>
      obtain ⟨hkeys, hrest⟩ := ih hasc h
      have hnew : ∀ row ∈ rows, settings.pathOf row.1 ≠ settings.pathOf key := by
        intro row hrow heq
        have hlt := hlater row hrow
        rw [DocumentSettings.pathOf_injective heq] at hlt
        exact Std.lt_irrefl hlt
      refine ⟨by rw [hkeys, List.append_assoc]; rfl, ?_, ?_⟩
      · intro row hrow
        obtain rfl | hrow := List.mem_cons.mp hrow
        · refine ⟨spec, hspec, ?_⟩
          rw [hrest.other _ hnew, Store.specs_declare, Table.find?_insert, if_pos rfl]
        · exact hrest.entry row hrow
      · intro path hpath
        obtain ⟨hhead, hpath⟩ := List.forall_mem_cons.mp hpath
        rw [hrest.other path hpath, Store.specs_declare, Table.find?_insert, if_neg (Ne.symm hhead)]

theorem exists_declareEntries (name : String) {rows : List (String × Json)}
    (h : ∀ row ∈ rows, ∃ spec, settings.entry? row.2 = some spec) (store : Store)
    (keys : List (String × String)) : ∃ r, declareEntries settings name store keys rows = .ok r := by
  induction rows generalizing store keys with
  | nil => exact ⟨_, rfl⟩
  | cons row rows ih =>
    obtain ⟨⟨spec, hspec⟩, hrest⟩ := List.forall_mem_cons.mp h
    rw [declareEntries]
    simp only [hspec]
    exact ih hrest _ _

theorem load_eq_ok_iff {files : Files} {store : Store} :
    load files name settings = .ok (store, source) ↔ ∃ content entries,
      files.read settings.file = .ok content ∧ entriesOf content = .ok entries ∧
        declareEntries settings name (.ofName name) [] entries.toList = .ok (store, source.keys) ∧
        source.settings = settings := by
  unfold load
  simp only [bind_eq_ok_iff, mapError_eq_ok_iff]
  constructor
  · rintro ⟨content, hread, entries, hentries, ⟨store', keys⟩, hdeclared, h⟩
    cases h
    exact ⟨content, entries, hread, hentries, hdeclared, rfl⟩
  · rintro ⟨content, entries, hread, hentries, hdeclared, rfl⟩
    exact ⟨content, hread, entries, hentries, (store, source.keys), hdeclared, rfl⟩

theorem keyed_of_load {files : Files} {store : Store}
    (h : load files name settings = .ok (store, source)) : source.Keyed store.specs := by
  obtain ⟨content, entries, -, -, hdeclared, rfl⟩ := load_eq_ok_iff.mp h
  obtain ⟨hkeys, hrows⟩ := declareEntries_eq_ok entries.ascending hdeclared
  rw [List.nil_append] at hkeys
  refine ⟨⟨entries.keys, ?_, ?_⟩, fun path => ⟨fun hsome => ?_, ?_⟩⟩
  · exact List.pairwise_map.mpr entries.ascending
  · rw [hkeys, Table.keys, List.map_map]
    rfl
  · by_contra hnone
    have hother : ∀ row ∈ entries.toList, source.settings.pathOf row.1 ≠ path := by
      rintro row hrow rfl
      exact hnone ⟨row.1, hkeys ▸ List.mem_map_of_mem hrow⟩
    rw [hrows.other path hother] at hsome
    cases hsome
  · rintro ⟨key, hmem⟩
    rw [hkeys] at hmem
    obtain ⟨row, hrow, heq⟩ := List.mem_map.mp hmem
    cases heq
    obtain ⟨spec, -, hspec⟩ := hrows.entry row hrow
    rw [hspec]
    rfl

def entriesFor (source : DocumentSource) (store : Store) : Table String Json :=
  .ofList (source.keys.filterMap fun (path, key) =>
    (store.specs.find? path).map fun spec => (key, entryOf spec))

theorem Keyed.mem_entries_iff {store : Store} (h : source.Keyed store.specs) (row : String × Json) :
    (row ∈ source.keys.filterMap fun (path, key) =>
      (store.specs.find? path).map fun spec => (key, entryOf spec)) ↔
      (store.specs.find? (source.settings.pathOf row.1)).map entryOf = some row.2 := by
  rw [List.mem_filterMap]
  constructor
  · rintro ⟨⟨path, key⟩, hmem, hrow⟩
    obtain ⟨spec, hspec, rfl⟩ := Option.map_eq_some_iff.mp hrow
    rw [← (h.mem_keys_iff.mp hmem).1, hspec]
    rfl
  · intro hrow
    obtain ⟨spec, hspec, hentry⟩ := Option.map_eq_some_iff.mp hrow
    refine ⟨(source.settings.pathOf row.1, row.1), h.mem_keys_iff.mpr ⟨rfl, by rw [hspec]; rfl⟩, ?_⟩
    dsimp only
    rw [hspec, Option.map_some, hentry]

theorem Keyed.find?_entriesFor {store : Store} (h : source.Keyed store.specs) (key : String) :
    (source.entriesFor store).find? key =
      (store.specs.find? (source.settings.pathOf key)).map entryOf := by
  rw [entriesFor, Table.ofList]
  cases hspec : store.specs.find? (source.settings.pathOf key) with
  | none =>
    refine Table.find?_foldl_insert_of_not_mem _ _ _ _ fun hmem => ?_
    obtain ⟨row, hrow, rfl⟩ := List.mem_map.mp hmem
    have hfound := (h.mem_entries_iff row).mp hrow
    rw [hspec] at hfound
    cases hfound
  | some spec =>
    have hrow := (h.mem_entries_iff (key, entryOf spec)).mpr (by rw [hspec]; rfl)
    refine Table.find?_foldl_insert_of_mem Prod.fst Prod.snd _ _ hrow fun other hother heq => ?_
    have hsame := (h.mem_entries_iff other).mp hother
    rw [heq, hspec] at hsame
    exact (Option.some.inj hsame).symm

theorem Keyed.keys_entriesFor {store : Store} (h : source.Keyed store.specs) :
    (source.entriesFor store).toList.map (fun row => (source.settings.pathOf row.1, row.1)) =
      source.keys := by
  obtain ⟨names, hasc, hkeys⟩ := h.names
  have hmem : ∀ key, key ∈ (source.entriesFor store).keys ↔ key ∈ names := by
    intro key
    have hnames : (source.settings.pathOf key, key) ∈ source.keys ↔ key ∈ names := by
      rw [hkeys, List.mem_map]
      constructor
      · rintro ⟨key', hkey, heq⟩
        exact (Prod.mk.inj heq).2 ▸ hkey
      · exact fun hkey => ⟨key, hkey, rfl⟩
    rw [Table.mem_keys_iff, h.find?_entriesFor, Option.isSome_map, ← hnames, h.mem_keys_iff]
    simp
  have hsame : (source.entriesFor store).keys = names :=
    List.Pairwise.eq_of_mem_iff (List.pairwise_map.mpr (source.entriesFor store).ascending) hasc hmem
  rw [hkeys, ← hsame, Table.keys, List.map_map]
  rfl

/-- No value nests more than 125 lists. In a document the entry and the whole are two more levels. -/
def Shallow (store : Store) : Prop :=
  ∀ path v, store.value? path = some v → v.toJson.depth ≤ 125

theorem Keyed.mem_rows_iff {store : Store} (h : source.Keyed store.specs) (row : String × Json) :
    row ∈ (source.entriesFor store).rows ↔ ∃ spec,
      store.specs.find? (source.settings.pathOf row.1) = some spec ∧ entryOf spec = row.2 := by
  have hfind := (source.entriesFor store).mem_toList_iff row.1 row.2
  rw [h.find?_entriesFor, Option.map_eq_some_iff] at hfind
  exact hfind

theorem Keyed.forall_mem_rows_iff {store : Store} (h : source.Keyed store.specs) {p : Json → Prop} :
    (∀ row ∈ (source.entriesFor store).rows, p row.2) ↔
      ∀ path spec, store.specs.find? path = some spec → p (entryOf spec) := by
  constructor
  · intro hrows path spec hspec
    obtain ⟨key, hmem⟩ := (h.covers path).mp (by rw [hspec]; rfl)
    obtain ⟨rfl, -⟩ := h.mem_keys_iff.mp hmem
    exact hrows (key, entryOf spec) ((h.mem_rows_iff _).mpr ⟨spec, hspec, rfl⟩)
  · intro hspecs row hrow
    obtain ⟨spec, hspec, heq⟩ := (h.mem_rows_iff row).mp hrow
    rw [← heq]
    exact hspecs _ spec hspec

theorem Keyed.depth_le_iff {store : Store} (h : source.Keyed store.specs) :
    (Json.object (source.entriesFor store).rows).depth ≤ maxDepth ↔ Shallow store := by
  show Json.depthMembers (source.entriesFor store).rows + 1 ≤ 126 + 1 ↔ _
  rw [Nat.add_le_add_iff_right, Json.depthMembers_le_iff,
    h.forall_mem_rows_iff (p := fun entry => entry.depth ≤ 126)]
  constructor
  · intro hdepth path v hv
    rw [Store.value?_eq] at hv
    obtain ⟨spec, hspec, rfl⟩ := Option.map_eq_some_iff.mp hv
    have := hdepth path spec hspec
    rw [depth_entryOf] at this
    omega
  · intro hshallow path spec hspec
    have hv : store.value? path = some spec.value := by rw [Store.value?_eq, hspec, Option.map_some]
    have := hshallow path spec.value hv
    rw [depth_entryOf]
    omega

theorem Keyed.entriesOf_render {store : Store} (h : source.Keyed store.specs)
    (hlegible : ∀ path v, store.value? path = some v → v.toJson.Legible) :
    Json.Fits (entriesOf (source.render store) = .ok (source.entriesFor store))
      (∃ e, entriesOf (source.render store) = .error e) 0
      (Json.object (source.entriesFor store).rows).depth := by
  refine Json.readTable_indented _ (h.forall_mem_rows_iff.mpr fun _ spec _ => sorted_entryOf spec)
    (h.forall_mem_rows_iff.mpr fun path spec hspec => legible_entryOf (hlegible path spec.value ?_))
  rw [Store.value?_eq, hspec, Option.map_some]

theorem Keyed.declared {store store' : Store} (h : source.Keyed store.specs)
    (hd : Declared source.settings (source.entriesFor store).toList (Store.ofName name).specs
      store'.specs) : store'.specs = store.specs := by
  ext path : 1
  cases hspec : store.specs.find? path with
  | none =>
    have hother : ∀ row ∈ (source.entriesFor store).toList, source.settings.pathOf row.1 ≠ path := by
      rintro row hrow rfl
      obtain ⟨spec, hspec', -⟩ := (h.mem_rows_iff row).mp hrow
      rw [hspec] at hspec'
      cases hspec'
    rw [hd.other path hother]
    rfl
  | some spec =>
    obtain ⟨key, hmem⟩ := (h.covers path).mp (by rw [hspec]; rfl)
    obtain ⟨rfl, -⟩ := h.mem_keys_iff.mp hmem
    obtain ⟨spec', hentry, hfound⟩ :=
      hd.entry (key, entryOf spec) ((h.mem_rows_iff _).mpr ⟨spec, hspec, rfl⟩)
    rw [entry?_entryOf] at hentry
    cases hentry
    exact hfound

/-- A document that has just been written is loaded again, with the same signals, exactly if no value
is too deep. -/
theorem Keyed.load_of_render {store : Store} (h : source.Keyed store.specs) (name : String)
    (hlegible : ∀ path v, store.value? path = some v → v.toJson.Legible) {files : Files}
    (hread : files.read source.settings.file = .ok (source.render store)) :
    (Shallow store → ∃ store', load files name source.settings = .ok (store', source) ∧
      store'.specs = store.specs) ∧
    (¬Shallow store → ∃ e, load files name source.settings = .error e) := by
  have hfits := h.entriesOf_render hlegible
  rw [← h.depth_le_iff]
  constructor
  · intro hdepth
    have hentries := hfits.value (by omega)
    have hdescribe : ∀ row ∈ (source.entriesFor store).toList,
        ∃ spec, source.settings.entry? row.2 = some spec := by
      intro row hrow
      obtain ⟨spec, -, heq⟩ := (h.mem_rows_iff row).mp hrow
      exact ⟨spec, heq ▸ entry?_entryOf _ spec⟩
    obtain ⟨⟨store', keys⟩, hdeclare⟩ := exists_declareEntries name hdescribe (.ofName name) []
    obtain ⟨hkeys, hdeclared⟩ := declareEntries_eq_ok (source.entriesFor store).ascending hdeclare
    rw [List.nil_append] at hkeys
    have hsame : keys = source.keys := hkeys.trans h.keys_entriesFor
    refine ⟨store', load_eq_ok_iff.mpr ⟨_, _, hread, hentries, ?_, rfl⟩, h.declared hdeclared⟩
    rw [← hsame]
    exact hdeclare
  · intro hdeep
    obtain ⟨e, he⟩ := hfits.fault (Nat.zero_le _) (by omega)
    cases hload : load files name source.settings with
    | error e => exact ⟨e, rfl⟩
    | ok loaded =>
      obtain ⟨content, entries, hcontent, hentries, -⟩ := load_eq_ok_iff.mp hload
      rw [hread] at hcontent
      cases hcontent
      rw [he] at hentries
      cases hentries

/-- Whatever happens to an adapter, its document keeps its keys. -/
theorem Keyed.becomes {a a' : Adapter} (h : source.Keyed a.store.specs) (hb : a.Becomes a') :
    source.Keyed a'.store.specs := by
  have hsame : ∀ path, (a'.store.specs.find? path).isSome = (a.store.specs.find? path).isSome := by
    intro path
    have hflags := congrArg (fun p => (p.flags.find? path).isSome) (Adapter.profile_becomes hb)
    simp only [Adapter.profile, Table.find?_map, Option.isSome_map] at hflags
    rw [Store.find?_specs, Store.find?_specs, Option.isSome_map, Option.isSome_map, hflags]
  refine ⟨h.names, fun path => ?_⟩
  rw [hsame]
  exact h.covers path

/-- A write of a client comes to its end, at once or after it has waited for room in the stream, and
the document is saved as the store is then. -/
inductive Saves (source : DocumentSource) (s : Store) : Store → Files → Files → Prop where
  | atOnce {a : Adapter} {files files' : Files} {values : Values} {n : Nat}
    (h : SignalSource.set (⟨s, .document source⟩ : Adapter) files values =
      .ok (a, files', .landed n)) : Saves source s a.store files files'
  | afterwards {a : Adapter} {before before' : Files} {values : Values} {now : Store}
    (h : SignalSource.set (⟨s, .document source⟩ : Adapter) before values =
      .ok (a, before', .waiting)) (hb : a.Becomes ⟨now, .document source⟩) (files : Files) :
    Saves source s now files (Adapter.persist (.document source) now files)

theorem Saves.files_eq {s now : Store} {files files' : Files} (h : Saves source s now files files') :
    files' = source.save now files := by
  cases h with
  | atOnce h => exact Adapter.files_of_set h
  | afterwards => rfl

theorem Keyed.saves {s now : Store} {files files' : Files} (h : source.Keyed s.specs)
    (hs : Saves source s now files files') : source.Keyed now.specs := by
  have hfirst : source.Keyed (⟨s, .document source⟩ : Adapter).store.specs := h
  cases hs with
  | atOnce h => exact hfirst.becomes (.single (Adapter.turn_of_set h))
  | afterwards h hb =>
    have hkeyed := hfirst.becomes (.single (Adapter.turn_of_set h))
    exact hkeyed.becomes hb

/-- After whatever has happened to an adapter that keeps its document up to date, and after a write of a
client for which the document was rewritten, the document makes the same adapter again if and only if
no value nests more than 125 lists; else it is refused. Of the numbers in the values it is assumed that
they are legible. -/
theorem loads_again {files files₁ files₂ : Files} {store late now : Store}
    (hload : load files name settings = .ok (store, source)) (hpersist : settings.persist = true)
    (hlater : Adapter.Becomes ⟨store, .document source⟩ ⟨late, .document source⟩)
    (hset : Saves source late now files₁ files₂)
    (hrewritten : ∃ written, files₁.write settings.file (source.render now) = .ok written)
    (hlegible : ∀ path v, now.value? path = some v → v.toJson.Legible) :
    ((∃ store', load files₂ name settings = .ok (store', source) ∧ store'.specs = now.specs) ↔
      Shallow now) ∧
    (¬Shallow now → ∃ e, load files₂ name settings = .error e) := by
  have hkeyed : source.Keyed late.specs := (keyed_of_load hload).becomes hlater
  obtain ⟨-, -, -, -, -, rfl⟩ := load_eq_ok_iff.mp hload
  obtain ⟨written, hwritten⟩ := hrewritten
  have hfiles : files₂ = written := by
    rw [hset.files_eq, save, if_pos hpersist, hwritten]
  subst hfiles
  obtain ⟨hsame, hrefused⟩ := (hkeyed.saves hset).load_of_render name hlegible
    (Files.read_of_write hwritten)
  refine ⟨⟨?_, hsame⟩, hrefused⟩
  rintro ⟨store', hagain, -⟩
  by_contra hdeep
  obtain ⟨e, he⟩ := hrefused hdeep
  rw [he] at hagain
  cases hagain

def shortSettings : DocumentSettings := ⟨"board.json", some "Board", true, false, true⟩

def shortEntries : Table String Json := Table.empty.insert "Model" (.number 7)

def shortSource : DocumentSource := ⟨shortSettings, [("Board.Model", "Model")]⟩

def shortStore : Store :=
  (Store.ofName "board").declare "Board.Model" ⟨.number 7, true, false⟩

theorem load_short {files : Files}
    (hread : files.read "board.json" = .ok (Json.indented (.object shortEntries.rows))) :
    load files "board" shortSettings = .ok (shortStore, shortSource) := by
  have hentries : entriesOf (Json.indented (.object shortEntries.rows)) = .ok shortEntries := by
    refine (Json.readTable_indented shortEntries ?_ ?_).value (by decide)
    · intro m hm
      obtain rfl := List.mem_singleton.mp hm
      trivial
    · intro m hm
      obtain rfl := List.mem_singleton.mp hm
      exact Json.legibleNumber_natural 7
  exact load_eq_ok_iff.mpr ⟨_, _, hread, hentries, rfl, rfl⟩

/-- A client makes a list of the number, and the short entry becomes one with its flags. -/
theorem loads_again_short : ∃ files a files₂,
    load files "board" shortSettings = .ok (shortStore, shortSource) ∧
    SignalSource.set (⟨shortStore, .document shortSource⟩ : Adapter) files
      (Table.empty.insert "Board.Model" (.list [.number 8])) = .ok (a, files₂, .landed 1) ∧
    a.store.value? "Board.Model" = some (.list [.number 8]) ∧
    ∃ store', load files₂ "board" shortSettings = .ok (store', shortSource) ∧
      store'.specs = a.store.specs := by
  obtain ⟨files, hfiles⟩ := Upkeep.exists_write_board (Json.indented (.object shortEntries.rows))
  have hload := load_short (Files.read_of_write hfiles)
  let later := (shortStore.commit (Table.empty.insert "Board.Model" (.list [.number 8]))).1
  have hset := Adapter.set_lands (a := ⟨shortStore, .document shortSource⟩) files
    (show shortStore.set (Table.empty.insert "Board.Model" (.list [.number 8])) =
      .ok (later, .landed 1) from rfl)
  have hvalue : ∀ path v, later.value? path = some v → v = .list [.number 8] := by
    intro path v hv
    obtain ⟨signal, hs, rfl⟩ := Option.map_eq_some_iff.mp hv
    have hm : (path, signal) ∈ [("Board.Model", (⟨⟨.list [.number 8], true, false⟩, false⟩ : Signal))] :=
      (later.signals.mem_toList_iff path signal).mpr hs
    cases List.mem_singleton.mp hm
    rfl
  refine ⟨files, _, _, hload, hset, rfl, ?_⟩
  refine (loads_again hload rfl .refl (.atOnce hset) (Files.exists_write_of_write hfiles _) ?_).1.mpr ?_
  · intro path v hv
    rw [hvalue path v hv]
    exact ⟨Json.legibleNumber_natural 8, trivial⟩
  · intro path v hv
    rw [hvalue path v hv]
    decide

end DocumentSource

end SignalBroker
