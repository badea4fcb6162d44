import SignalBroker.Service.Address
import SignalBroker.Service.Basic
import SignalBroker.Service.Builtin

namespace SignalBroker

inductive Command where
  | help
  | missingPath
  | unknown (argument : String)
  | serve (configPath : Option String)
  deriving DecidableEq

structure Surroundings where
  host : Option String
  listenPort : Option String
  files : Files

inductive StartError where
  | config (e : ConfigError)
  | listenPort (fault : Decimal.NaturalFault)
  | service (e : ServiceError)
  | host (fault : HostFault)

inductive Start where
  | exit (code : Nat) (message : String)
  | serving (service : Service)

namespace Command

def ofArguments (path : Option String) : List String → Command
  | [] => .serve path
  | argument :: rest =>
    if argument = "--help" || argument = "-h" then .help
    else if argument = "--config" || argument = "-c" then
      match rest with
      | [] => .missingPath
      | path :: rest => ofArguments (some path) rest
    else .unknown argument

end Command

def helpText : String :=
  "Vehicle Information Service - websocket broker for vehicle signals\n\n" ++
  "USAGE:\n" ++
  "    vis-server [OPTIONS]\n\n" ++
  "OPTIONS:\n" ++
  "    --config <PATH>     Load configuration from JSON file\n" ++
  "    --help              Print this help message\n\n" ++
  "ENVIRONMENT VARIABLES:\n" ++
  "    HOST                Server host (overrides the configuration)\n" ++
  "    PORT                Server port (overrides the configuration)\n" ++
  "    RUST_LOG            Log level filter\n\n" ++
  "EXAMPLES:\n" ++
  "    # Run the built-in simulated vehicle\n" ++
  "    vis-server\n\n" ++
  "    # Run with config file\n" ++
  "    vis-server --config vis.json\n\n" ++
  "    # Run with custom port\n" ++
  "    PORT=9000 vis-server\n\n"

def shown (cause detail : String) : String :=
  cause ++ "(" ++ detail ++ ")"

def shownText (cause text : String) : String :=
  shown cause (Text.quoted text)

def shownFields (cause : String) (fields : List (String × String)) : String :=
  cause ++ " \x7b " ++
    ", ".intercalate (fields.map fun (name, text) => name ++ ": " ++ text) ++ " \x7d"

def ConfigError.shown : ConfigError → String
  | .io path detail => shownFields "Io" [("path", Text.quoted path), ("error", Text.quoted detail)]
  | .parse detail => shownText "Parse" detail
  | .invalidServer detail => shownText "InvalidServer" detail
  | .invalidPermissions detail => shownText "InvalidPermissions" detail
  | .invalidAdapter detail => shownText "InvalidAdapter" detail

def AdapterError.shown : AdapterError → String
  | .pathNotFound path => shownText "PathNotFound" path
  | .readOnly path => shownText "ReadOnly" path
  | .unavailable detail => shownText "Unavailable" detail
  | .invalidConfig detail => shownText "InvalidConfig" detail

def PatternError.shown : PatternError → String
  | .empty => "Empty"
  | .emptySegment pattern => shownText "EmptySegment" pattern
  | .partialWildcard pattern segment =>
    shownFields "PartialWildcard"
      [("pattern", Text.quoted pattern), ("segment", Text.quoted segment)]

def BrokerError.shown : BrokerError → String
  | .invalidPattern e => SignalBroker.shown "InvalidPattern" e.shown
  | .pathNotFound path => shownText "PathNotFound" path
  | .notAuthorized subject => shownText "NotAuthorized" subject
  | .forbidden subject => shownText "Forbidden" subject
  | .readOnlyViolation path => shownText "ReadOnlyViolation" path
  | .authFailed detail => shownText "AuthFailed" detail
  | .subscriptionNotFound id => shownText "SubscriptionNotFound" id
  | .adapterUnavailable detail => shownText "AdapterUnavailable" detail
  | .duplicatePath path owner =>
    shownFields "DuplicatePath" [("path", Text.quoted path), ("owner", Text.quoted owner)]
  | .badRequest detail => shownText "BadRequest" detail

def ServiceError.shown : ServiceError → String
  | .config e => SignalBroker.shown "Config" e.shown
  | .adapter e => SignalBroker.shown "Adapter" e.shown
  | .registry e => SignalBroker.shown "Registry" e.shown

def faultName : Decimal.NaturalFault → String
  | .empty => "Empty"
  | .invalidDigit => "InvalidDigit"
  | .tooLarge => "PosOverflow"

def lookupFailed (reason : String) : String :=
  shownFields "Custom" [("kind", "Uncategorized"),
    ("error", Text.quoted ("failed to lookup address information: " ++ reason))]

def HostFault.shown : HostFault → String
  | .nulInName => shownFields "Error" [("kind", "InvalidInput"),
    ("message", Text.quoted FileError.nulInName.message)]
  | .reserved => shownFields "Os" [("code", "13"), ("kind", "PermissionDenied"),
    ("message", Text.quoted "Permission denied")]
  | .invalid => shownFields "Os" [("code", "22"), ("kind", "InvalidInput"),
    ("message", Text.quoted "Invalid argument")]
  | .notOwn => shownFields "Os" [("code", "99"), ("kind", "AddrNotAvailable"),
    ("message", Text.quoted "Cannot assign requested address")]
  | .notName => lookupFailed "Name or service not known"
  | .noLookup => lookupFailed "Temporary failure in name resolution"

def StartError.shown : StartError → String
  | .config e => e.shown
  | .listenPort fault => shownFields "ParseIntError" [("kind", faultName fault)]
  | .service e => e.shown
  | .host fault => SignalBroker.shown "Io" fault.shown

namespace Start

def loadConfig (files : Files) : Option String → Except ConfigError Config
  | some path => Config.ofFile files path
  | none => .ok Config.builtin

def override (s : Surroundings) (c : Config) : Except StartError Config := do
  let server := { c.server with host := s.host.getD c.server.host }
  match s.listenPort with
  | none => return { c with server }
  | some text =>
    match Decimal.natural 0xffff text with
    | .ok listenPort => return { c with server := { server with listenPort } }
    | .error fault => throw (.listenPort fault)

def serve (ask : String → String → HttpOutcome) (clock : Clock) (s : Surroundings)
    (path : Option String) : Except StartError Service := do
  let config ← (loadConfig s.files path).mapError .config
  let config ← override s config
  let service ← (Service.ofConfig .builtin ask clock s.files config).mapError .service
  match Host.fault? config.server.host config.server.listenPort with
  | some fault => throw (.host fault)
  | none => return service

def run (ask : String → String → HttpOutcome) (clock : Clock) (s : Surroundings)
    (arguments : List String) : Start :=
  match Command.ofArguments none arguments with
  | .help => .exit 0 helpText
  | .missingPath => .exit 1 "Error: --config requires a path argument\n"
  | .unknown argument => .exit 1 ("Unknown argument: " ++ argument ++ "\n" ++ helpText)
  | .serve path =>
    match serve ask clock s path with
    | .ok service => .serving service
    | .error e => .exit 1 ("Error: " ++ e.shown ++ "\n")

end Start

end SignalBroker
