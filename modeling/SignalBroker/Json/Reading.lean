import SignalBroker.Json.Error

/-!
What a reader finds in a JSON text, up to the first place where it cannot go on. Members keep their
order and their repetitions, and a fault stays at its place: a consumer that never comes to that
place, because it refuses something before it or skips the value that holds it, does not see it.
-/

namespace SignalBroker.Json

/-- Where a value stands in its text, in bytes. `start` and `stop` are before its first byte and after
its last one. Whoever stops reading a container in front of the value has come to `before`, and
whoever stops behind it to `after`. -/
structure Span where
  before : Nat
  start : Nat
  stop : Nat
  after : Nat

inductive Closing where
  | closed
  | cut (e : Error)

inductive Reading where
  | null
  | bool (b : Bool)
  | number (n : Number)
  | text (s : String)
  | array (items : List Reading) (closing : Closing)
  | object (members : List (String × Reading)) (closing : Closing)
  | unreadable (e : Error)
  /-- A reading together with its place. -/
  | placed (span : Span) (r : Reading)

namespace Closing

def check : Closing → Except Error Unit
  | .closed => .ok ()
  | .cut e => .error e

end Closing

namespace Reading

mutual

def toJson : Reading → Except Error Json
  | .null => .ok .null
  | .bool b => .ok (.bool b)
  | .number n => .ok (.number n)
  | .text s => .ok (.text s)
  | .array items closing => do
    let items ← toJsonItems items
    closing.check
    return .array items
  | .object members closing => do
    let members ← toJsonMembers members
    closing.check
    return .ofMembers members
  | .unreadable e => .error e
  | .placed _ r => toJson r

def toJsonItems : List Reading → Except Error (List Json)
  | [] => .ok []
  | r :: rs => do
    let j ← toJson r
    let js ← toJsonItems rs
    return j :: js

def toJsonMembers : List (String × Reading) → Except Error (List (String × Json))
  | [] => .ok []
  | (k, r) :: rs => do
    let j ← toJson r
    let js ← toJsonMembers rs
    return (k, j) :: js

end

mutual

def ofJson : Json → Reading
  | .null => .null
  | .bool b => .bool b
  | .number n => .number n
  | .text s => .text s
  | .array items => .array (ofJsonItems items) .closed
  | .object members => .object (ofJsonMembers members) .closed

def ofJsonItems : List Json → List Reading
  | [] => []
  | j :: js => ofJson j :: ofJsonItems js

def ofJsonMembers : List (String × Json) → List (String × Reading)
  | [] => []
  | (k, j) :: js => (k, ofJson j) :: ofJsonMembers js

end

mutual

def bare : Reading → Reading
  | .array items closing => .array (bareItems items) closing
  | .object members closing => .object (bareMembers members) closing
  | .placed _ r => bare r
  | r => r

def bareItems : List Reading → List Reading
  | [] => []
  | r :: rs => bare r :: bareItems rs

def bareMembers : List (String × Reading) → List (String × Reading)
  | [] => []
  | (k, r) :: rs => (k, bare r) :: bareMembers rs

end

def shape : Reading → Reading
  | .placed _ r => r
  | r => r

def span? : Reading → Option Span
  | .placed span _ => some span
  | _ => none

def inside (r : Reading) (x : Except Error α) : Except Error α :=
  x.mapError (·.noticedAt (r.span?.map (·.after)))

def reject (r : Reading) (m : Mismatch) : Except Error α :=
  .error (.unfit m (r.span?.map (·.stop)))

def found : Reading → Except Error Found
  | .null => .ok .null
  | .bool b => .ok (.bool b)
  | .number n => .ok (.number n)
  | .text s => .ok (.text s)
  | .array .. => .ok .sequence
  | .object .. => .ok .map
  | .unreadable e => .error e
  | .placed _ r => found r

/-- The offset at which a reading of the wrong type is noticed: a container is not entered. -/
def refusalOffset? (r : Reading) : Option Nat :=
  r.span?.map fun span =>
    match r.shape with
    | .array .. | .object .. => span.start
    | _ => span.stop

def refuse (r : Reading) (wanted : String) : Except Error α := do
  let found ← r.found
  .error (.unfit (.invalidType found wanted) r.refusalOffset?)

end Reading

structure Document where
  reading : Reading
  surplus : Option Error

end SignalBroker.Json
