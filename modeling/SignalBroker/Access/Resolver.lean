import SignalBroker.Access.Level
import SignalBroker.Http
import SignalBroker.Json.Parser
import SignalBroker.Json.Printer
import SignalBroker.Json.Record

namespace SignalBroker

inductive ResolveError where
  | denied (detail : String)
  | unavailable (detail : String)
  deriving DecidableEq

def ResolveError.message : ResolveError → String
  | .denied detail => "token rejected: " ++ detail
  | .unavailable detail => "permission service unavailable: " ++ detail

/-- What a token entitles to, and for how many seconds. -/
structure TokenGrant where
  permissions : Table String AccessLevel
  ttl : Nat

structure Resolver where
  name : String
  resolve : String → Except ResolveError TokenGrant

namespace TokenGrant

open Json

def readLevel (r : Reading) : Except Json.Error AccessLevel := do
  let text ← readString r
  match AccessLevel.ofText? text with
  | some level => return level
  | none => unfit (.unknownLevel text)

def record : Record where
  title := "struct ResolveResponse"
  fields := [.optional "permissions" (readTable readLevel), .optional "ttl" readU64]

def read (r : Reading) : Except Json.Error TokenGrant := do
  let fields ← record.fieldsOf .text r
  return {
    permissions := ← fields.getD "permissions" (readTable readLevel) .empty
    ttl := ← fields.getD "ttl" readU64 0 }

end TokenGrant

namespace Resolver

def ofTable (tokens : Table String (Table String AccessLevel)) (ttl : Nat) : Resolver where
  name := "StaticPermissionResolver"
  resolve token :=
    match tokens.find? token with
    | some permissions => .ok ⟨permissions, ttl⟩
    | none => .error (.denied "unknown token")

def requestBody (token : String) : String :=
  (Json.object [("token", .text token)]).compact

def ofResponse (r : HttpResponse) : Except ResolveError TokenGrant :=
  let answered := "permission service answered " ++ HttpResponse.statusText r.status
  if r.status = 401 || r.status = 403 then .error (.denied answered)
  else if r.status < 200 || 300 ≤ r.status then .error (.unavailable answered)
  else
    match (Json.Document.ofText r.body).read TokenGrant.read with
    | .ok grant => .ok grant
    | .error _ => .error (.unavailable ("bad response: " ++ undecodableText))

/-- A service that is asked about every token. `ask` gives the outcome of posting a body. -/
def ofService (url : String) (ask : String → HttpOutcome) : Resolver where
  name := "HttpPermissionResolver"
  resolve token :=
    match ask (requestBody token) with
    | some response => ofResponse response
    | none => .error (.unavailable (unreachableText url))

end Resolver

end SignalBroker
