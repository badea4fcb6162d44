import SignalBroker.Adapter.Error
import SignalBroker.Json.Parser
import SignalBroker.Json.Record

namespace SignalBroker

structure AdapterSpec where
  kind : String
  name : String
  config : Json

namespace AdapterSpec

open Json

def record : Record where
  title := "struct AdapterSpec"
  fields := [.needed "type" readString, .needed "name" readString, .optional "config" Reading.toJson]

def read (origin : Origin) (r : Reading) : Except Json.Error AdapterSpec := do
  let fields ← record.fieldsOf origin r
  return {
    kind := ← fields.get "type" readString
    name := ← fields.get "name" readString
    config := ← fields.getD "config" Reading.toJson .null }

def ofText (source : String) : Except Json.Error AdapterSpec :=
  (Document.ofText source).read (read .text)

def ofJson (j : Json) : Except Json.Error AdapterSpec :=
  read .value (Reading.ofJson j)

def toJson (s : AdapterSpec) : Json :=
  .object [("config", s.config), ("name", .text s.name), ("type", .text s.kind)]

def settings (s : AdapterSpec) : Json :=
  match s.config with
  | .null => .object []
  | config => config

def readSettings (s : AdapterSpec) (read : Reading → Except Json.Error α) :
    Except AdapterError α :=
  match read (Reading.ofJson s.settings) with
  | .ok a => .ok a
  | .error e => .error (.invalidConfig (s.name ++ ": " ++ e.message))

end AdapterSpec

end SignalBroker
