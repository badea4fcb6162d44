import SignalBroker.Json.Parser
import SignalBroker.Json.Printer
import SignalBroker.Json.Record

namespace SignalBroker

inductive Action where
  | authorize (token : String)
  | get (path : String)
  | set (path : String) (value : Json)
  | subscribe (path : String) (filters : Option Json)
  | unsubscribe (subscriptionId : Json)
  | unsubscribeAll

structure Request where
  requestId : Json
  action : Action

def Action.name : Action → String
  | .authorize _ => "authorize"
  | .get _ => "get"
  | .set .. => "set"
  | .subscribe .. => "subscribe"
  | .unsubscribe _ => "unsubscribe"
  | .unsubscribeAll => "unsubscribeAll"

structure Undecodable where
  action : String
  requestId : Json
  message : String

namespace Request

open Json

def choice : Choice where
  title := "internally tagged enum VisRequest"
  tag := "action"
  variants := ["authorize", "get", "set", "subscribe", "unsubscribe", "unsubscribeAll"]

def idField : Field := .optional "requestId" Reading.toJson

def tokensRecord : Record where
  title := "struct Tokens"
  fields := [.needed "authorization" readString]

def readTokens (r : Reading) : Except Json.Error String := do
  (← tokensRecord.fieldsOf .choice r).get "authorization" readString

def authorizeRecord : Record where
  title := "struct variant VisRequest::Authorize"
  fields := [idField, .needed "tokens" readTokens]

def getRecord : Record where
  title := "struct variant VisRequest::Get"
  fields := [idField, .needed "path" readString]

def setRecord : Record where
  title := "struct variant VisRequest::Set"
  fields := [idField, .needed "path" readString, .needed "value" Reading.toJson]

def subscribeRecord : Record where
  title := "struct variant VisRequest::Subscribe"
  fields := [idField, .needed "path" readString,
    .optional "filters" (readOption Reading.toJson)]

def unsubscribeRecord : Record where
  title := "struct variant VisRequest::Unsubscribe"
  fields := [idField, .needed "subscriptionId" Reading.toJson]

def unsubscribeAllRecord : Record where
  title := "struct variant VisRequest::UnsubscribeAll"
  fields := [idField]

def recordOf : String → Record
  | "authorize" => authorizeRecord
  | "get" => getRecord
  | "set" => setRecord
  | "subscribe" => subscribeRecord
  | "unsubscribe" => unsubscribeRecord
  | _ => unsubscribeAllRecord

def readAction (name : String) (fields : Fields) : Except Json.Error Action := do
  match name with
  | "authorize" => return .authorize (← fields.get "tokens" readTokens)
  | "get" => return .get (← fields.get "path" readString)
  | "set" => return .set (← fields.get "path" readString) (← fields.get "value" Reading.toJson)
  | "subscribe" =>
    return .subscribe (← fields.get "path" readString)
      (← fields.getD "filters" (readOption Reading.toJson) none)
  | "unsubscribe" => return .unsubscribe (← fields.get "subscriptionId" Reading.toJson)
  | _ => return .unsubscribeAll

def read (r : Reading) : Except Json.Error Request := do
  let (name, content) ← choice.split .value r
  let fields ← (recordOf name).fieldsOf .choice content
  return ⟨← fields.getD "requestId" Reading.toJson .null, ← readAction name fields⟩

def actionOf (frame : Json) : String :=
  ((frame.get? "action").bind Json.text?).getD ""

def idOf (frame : Json) : Json :=
  (frame.get? "requestId").getD .null

def decode (text : String) : Except Undecodable Request :=
  match Json.ofText text with
  | .error e => .error ⟨"", .null, "invalid JSON: " ++ e.messageIn text⟩
  | .ok frame =>
    match read (Reading.ofJson frame) with
    | .ok request => .ok request
    | .error e => .error ⟨actionOf frame, idOf frame, e.message⟩

end Request

end SignalBroker
