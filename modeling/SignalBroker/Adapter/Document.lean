import SignalBroker.Adapter.Spec
import SignalBroker.Adapter.Store
import SignalBroker.Files
import SignalBroker.Json.Parser
import SignalBroker.Path.Segments

namespace SignalBroker

structure DocumentSettings where
  file : String
  root : Option String
  isPublic : Bool
  isReadOnly : Bool
  persist : Bool

/-- A document that feeds an adapter: its settings, and for each path the key of its entry. -/
structure DocumentSource where
  settings : DocumentSettings
  keys : List (String × String)

namespace DocumentSettings

open Json

def readPath : Reading → Except Json.Error String := readTextAs "path string"

def record : Record where
  title := "struct FileAdapterConfig"
  fields := [
    .needed "file" readPath,
    .optional "vssPath" (readOption readString),
    .optional "public" readBool,
    .optional "readOnly" readBool,
    .optional "persist" readBool]

def read (r : Reading) : Except Json.Error DocumentSettings := do
  let fields ← record.fieldsOf .value r
  return {
    file := ← fields.get "file" readPath
    root := ← fields.getD "vssPath" (readOption readString) none
    isPublic := ← fields.getD "public" readBool false
    isReadOnly := ← fields.getD "readOnly" readBool true
    persist := ← fields.getD "persist" readBool false }

def pathOf (s : DocumentSettings) (key : String) : String :=
  Path.under (s.root.getD "") key

def flag (members : List (String × Json)) (name : String) (otherwise : Bool) : Bool :=
  ((members.lookup name).bind Json.bool?).getD otherwise

/-- The signal that an entry of the document describes, unless its value holds an object. -/
def entry? (s : DocumentSettings) : Json → Option SignalSpec
  | .object members => do
    let value ← SignalValue.ofJson? ((members.lookup "value").getD .null)
    return ⟨value, flag members "public" s.isPublic, flag members "readOnly" s.isReadOnly⟩
  | other => do
    let value ← SignalValue.ofJson? other
    return ⟨value, s.isPublic, s.isReadOnly⟩

end DocumentSettings

namespace DocumentSource

def declareEntries (settings : DocumentSettings) (name : String) (store : Store)
    (keys : List (String × String)) :
    List (String × Json) → Except AdapterError (Store × List (String × String))
  | [] => .ok (store, keys)
  | (key, entry) :: rest =>
    match settings.entry? entry with
    | none => .error (.invalidConfig (name ++ ": " ++ key ++ ": " ++ Json.objectInValueText))
    | some spec =>
      let path := settings.pathOf key
      declareEntries settings name (store.declare path spec) (keys ++ [(path, key)]) rest

def entriesOf (content : String) : Except Json.Error (Table String Json) :=
  (Json.Document.ofText content).read (Json.readTable Json.Reading.toJson)

def load (files : Files) (name : String) (settings : DocumentSettings) :
    Except AdapterError (Store × DocumentSource) := do
  let fault (detail : String) : AdapterError :=
    .invalidConfig (name ++ ": " ++ settings.file ++ ": " ++ detail)
  let content ← (files.read settings.file).mapError fun e => fault e.message
  let entries ← (entriesOf content).mapError fun e => fault (e.messageIn content)
  let (store, keys) ← declareEntries settings name (.ofName name) [] entries.toList
  return (store, ⟨settings, keys⟩)

def entryOf (spec : SignalSpec) : Json :=
  .object [("public", .bool spec.isPublic), ("readOnly", .bool spec.isReadOnly),
    ("value", spec.value.toJson)]

def document (source : DocumentSource) (store : Store) : Json :=
  .ofMembers (source.keys.filterMap fun (path, key) =>
    (store.specs.find? path).map fun spec => (key, entryOf spec))

def render (source : DocumentSource) (store : Store) : String :=
  (source.document store).indented

/-- Save the document, if it is kept up to date. A save that fails changes nothing. -/
def save (source : DocumentSource) (store : Store) (files : Files) : Files :=
  if source.settings.persist then
    match files.write source.settings.file (source.render store) with
    | .ok files => files
    | .error _ => files
  else files

end DocumentSource

end SignalBroker
