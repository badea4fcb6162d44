import SignalBroker.Text.Blank

namespace SignalBroker

inductive AccessLevel where
  | read
  | write
  | readWrite
  deriving DecidableEq, Repr

namespace AccessLevel

def canRead : AccessLevel → Bool
  | .read | .readWrite => true
  | .write => false

def canWrite : AccessLevel → Bool
  | .write | .readWrite => true
  | .read => false

def name : AccessLevel → String
  | .read => "read"
  | .write => "write"
  | .readWrite => "readwrite"

/-- Neither white space around a text nor the case of its ASCII letters counts. -/
def ofText? (text : String) : Option AccessLevel :=
  match (Text.trim text).map Char.toLower with
  | "read" | "r" => some .read
  | "write" | "w" => some .write
  | "readwrite" | "rw" => some .readWrite
  | _ => none

def unknownMessage (text : String) : String :=
  "unknown access level '" ++ text ++ "'"

end AccessLevel

end SignalBroker
