import SignalBroker.Access.Resolver
import SignalBroker.Adapter.Error
import SignalBroker.Path.Pattern
import SignalBroker.Text.Blank

namespace SignalBroker

inductive ErrorClass where
  | badRequest
  | notAuthorized
  | forbidden
  | notFound
  deriving DecidableEq, Repr

namespace ErrorClass

def number : ErrorClass → Nat
  | .badRequest => 400
  | .notAuthorized => 401
  | .forbidden => 403
  | .notFound => 404

def reason : ErrorClass → String
  | .badRequest => "bad_request"
  | .notAuthorized => "not_authorized"
  | .forbidden => "forbidden"
  | .notFound => "not_found"

def ofNumber (n : Nat) : ErrorClass :=
  if n = 401 then .notAuthorized
  else if n = 403 then .forbidden
  else if n = 404 then .notFound
  else .badRequest

def mentions (text words : String) : Bool :=
  Text.occurs words.toList (Text.lower text)

def ofText (text : String) : ErrorClass :=
  if mentions text "not found" || mentions text "not exist" then .notFound
  else if mentions text "not authorized" then .notAuthorized
  else if mentions text "not have permissions" then .forbidden
  else .badRequest

end ErrorClass

inductive BrokerError where
  | invalidPattern (e : PatternError)
  | pathNotFound (path : String)
  | notAuthorized (subject : String)
  | forbidden (subject : String)
  | readOnlyViolation (path : String)
  | authFailed (detail : String)
  | subscriptionNotFound (id : String)
  | adapterUnavailable (detail : String)
  | duplicatePath (path owner : String)
  | badRequest (detail : String)
  deriving DecidableEq

namespace BrokerError

def message : BrokerError → String
  | .invalidPattern e => e.message
  | .pathNotFound path => "path not found: " ++ path
  | .notAuthorized subject => "not authorized to access " ++ subject
  | .forbidden subject => "session does not have permissions for " ++ subject
  | .readOnlyViolation path => "path is read-only: " ++ path
  | .authFailed detail => "token is not authorized: " ++ detail
  | .subscriptionNotFound id => "subscription not found: " ++ id
  | .adapterUnavailable detail => "adapter unavailable: " ++ detail
  | .duplicatePath path owner => "path " ++ path ++ " is already registered by adapter " ++ owner
  | .badRequest detail => "bad request: " ++ detail

/-- The class of a cause. What an adapter says about being unavailable is free text, and its words
decide. -/
def errorClass : BrokerError → ErrorClass
  | .pathNotFound _ | .subscriptionNotFound _ => .notFound
  | .notAuthorized _ | .authFailed _ => .notAuthorized
  | .forbidden _ => .forbidden
  | .adapterUnavailable detail => .ofText detail
  | .invalidPattern _ | .readOnlyViolation _ | .duplicatePath .. | .badRequest _ => .badRequest

def number (e : BrokerError) : Nat := e.errorClass.number

def reason (e : BrokerError) : String := e.errorClass.reason

def ofAdapter : AdapterError → BrokerError
  | .pathNotFound path => .pathNotFound path
  | .readOnly path => .readOnlyViolation path
  | .unavailable detail | .invalidConfig detail => .adapterUnavailable detail

def ofResolve : ResolveError → BrokerError
  | .denied detail => .authFailed detail
  | .unavailable detail => .adapterUnavailable detail

end BrokerError

end SignalBroker
