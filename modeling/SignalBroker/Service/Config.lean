import SignalBroker.Access.Resolver
import SignalBroker.Adapter.Factory

namespace SignalBroker

inductive ConfigError where
  | io (path detail : String)
  | parse (detail : String)
  | invalidServer (detail : String)
  | invalidPermissions (detail : String)
  | invalidAdapter (detail : String)
  deriving DecidableEq

def ConfigError.message : ConfigError → String
  | .io path detail => "Failed to read config file '" ++ path ++ "': " ++ detail
  | .parse detail => "Failed to parse config: " ++ detail
  | .invalidServer detail => "Invalid server config: " ++ detail
  | .invalidPermissions detail => "Invalid permission config: " ++ detail
  | .invalidAdapter detail => "Invalid adapter config: " ++ detail

structure ServerSettings where
  host : String
  listenPort : Nat
  path : String
  outboundCapacity : Nat
  deriving DecidableEq

inductive PermissionSettings where
  | table (ttl : Nat) (tokens : Table String (Table String AccessLevel))
  | service (url : String) (timeout : Nat)

structure Config where
  name : String
  server : ServerSettings
  permissions : PermissionSettings
  adapters : List AdapterSpec

open Json

namespace ServerSettings

def default : ServerSettings := ⟨"0.0.0.0", 8080, "/", 100⟩

def record : Record where
  title := "struct ServerConfig"
  fields := [.optional "host" readString, .optional "port" readU16, .optional "path" readString,
    .optional "outboundCapacity" readSize]

def read (origin : Origin) (r : Reading) : Except Json.Error ServerSettings := do
  let fields ← record.fieldsOf origin r
  return {
    host := ← fields.getD "host" readString default.host
    listenPort := ← fields.getD "port" readU16 default.listenPort
    path := ← fields.getD "path" readString default.path
    outboundCapacity := ← fields.getD "outboundCapacity" readSize default.outboundCapacity }

def toJson (s : ServerSettings) : Json :=
  .object [("host", .text s.host), ("outboundCapacity", .ofNat s.outboundCapacity),
    ("path", .text s.path), ("port", .ofNat s.listenPort)]

def fault? (s : ServerSettings) : Option ConfigError :=
  if s.listenPort = 0 then some (.invalidServer "port must not be 0")
  else if s.outboundCapacity = 0 then some (.invalidServer "outboundCapacity must be positive")
  else if s.path.toList.head? != some '/' then
    some (.invalidServer ("path must start with '/': " ++ s.path))
  else none

end ServerSettings

namespace PermissionSettings

def defaultTtl : Nat := 3600

def defaultTimeout : Nat := 5000

def default : PermissionSettings := .table defaultTtl .empty

def choice : Choice where
  title := "internally tagged enum PermissionConfig"
  tag := "type"
  variants := ["static", "http"]

def readTokens : Reading → Except Json.Error (Table String (Table String AccessLevel)) :=
  readTable (readTable TokenGrant.readLevel)

def tableRecord : Record where
  title := "struct variant PermissionConfig::Static"
  fields := [.optional "ttl" readU64, .optional "tokens" readTokens]

def serviceRecord : Record where
  title := "struct variant PermissionConfig::Http"
  fields := [.needed "url" readString, .optional "timeoutMs" readU64]

def read (origin : Origin) (r : Reading) : Except Json.Error PermissionSettings := do
  let (variant, content) ← choice.split origin r
  match variant with
  | "static" =>
    let fields ← tableRecord.fieldsOf .choice content
    return .table (← fields.getD "ttl" readU64 defaultTtl)
      (← fields.getD "tokens" readTokens .empty)
  | _ =>
    let fields ← serviceRecord.fieldsOf .choice content
    return .service (← fields.get "url" readString)
      (← fields.getD "timeoutMs" readU64 defaultTimeout)

def toJson : PermissionSettings → Json
  | .table ttl tokens =>
    .object [
      ("tokens", Json.ofTable tokens fun grants => Json.ofTable grants fun level => .text level.name),
      ("ttl", .ofNat ttl), ("type", .text "static")]
  | .service url timeout =>
    .object [("timeoutMs", .ofNat timeout), ("type", .text "http"), ("url", .text url)]

def fault? : PermissionSettings → Option ConfigError
  | .table _ _ => none
  | .service url timeout =>
    if url.isEmpty then some (.invalidPermissions "url is empty")
    else if timeout = 0 then some (.invalidPermissions "timeoutMs must be positive")
    else none

/-- The resolver that the settings ask for. `ask` gives the outcome of posting a body to an
address. -/
def resolver (ask : String → String → HttpOutcome) : PermissionSettings → Resolver
  | .table ttl tokens => .ofTable tokens ttl
  | .service url _ => .ofService url (ask url)

end PermissionSettings

namespace Config

def defaultName : String := "Vehicle Information Service"

def record : Record where
  title := "struct VisConfig"
  fields := [.optional "name" readString, .optional "server" (ServerSettings.read .text),
    .optional "permissions" (PermissionSettings.read .text),
    .optional "adapters" (readList (AdapterSpec.read .text))]

def read (r : Reading) : Except Json.Error Config := do
  let fields ← record.fieldsOf .text r
  return {
    name := ← fields.getD "name" readString defaultName
    server := ← fields.getD "server" (ServerSettings.read .text) .default
    permissions := ← fields.getD "permissions" (PermissionSettings.read .text) .default
    adapters := ← fields.getD "adapters" (readList (AdapterSpec.read .text)) [] }

def parse (text : String) : Except Json.Error Config :=
  (Document.ofText text).read read

def ofText (text : String) : Except ConfigError Config :=
  (parse text).mapError fun e => .parse (e.messageIn text)

def ofFile (files : Files) (path : String) : Except ConfigError Config := do
  let text ← (files.read path).mapError fun e => .io path e.message
  ofText text

def documents (c : Config) : List String :=
  c.adapters.filterMap fun spec =>
    if spec.kind = "file" then (spec.config.get? "file").bind Json.text? else none

def toJson (c : Config) : Json :=
  .object [("adapters", .array (c.adapters.map AdapterSpec.toJson)), ("name", .text c.name),
    ("permissions", c.permissions.toJson), ("server", c.server.toJson)]

def adapterFault? (types : AdapterTypes) (names : List String) : List AdapterSpec → Option ConfigError
  | [] => none
  | spec :: rest =>
    if names.contains spec.name then
      some (.invalidAdapter ("duplicate adapter name: " ++ spec.name))
    else if !types.knows spec.kind then
      some (.invalidAdapter (spec.name ++ ": unknown type '" ++ spec.kind ++ "' (known: " ++
        ", ".intercalate types.kinds ++ ")"))
    else adapterFault? types (spec.name :: names) rest

def fault? (c : Config) (types : AdapterTypes) : Option ConfigError :=
  (c.server.fault?.or c.permissions.fault?).or (adapterFault? types [] c.adapters)

def check (c : Config) (types : AdapterTypes) : Except ConfigError Unit :=
  match c.fault? types with
  | some e => .error e
  | none => .ok ()

end Config

end SignalBroker
