import SignalBroker.Json.Printer
import SignalBroker.Json.Record

namespace SignalBroker

/-- The JSON values that hold no object at any depth. -/
inductive SignalValue where
  | null
  | bool (b : Bool)
  | number (n : Number)
  | text (s : String)
  | list (items : List SignalValue)

namespace SignalValue

mutual

/-- Equality of values. Numbers of different kinds differ, and the two zeros of the doubles do not. -/
def beq : SignalValue → SignalValue → Bool
  | .null, .null => true
  | .bool a, .bool b => a == b
  | .number a, .number b => a == b
  | .text a, .text b => a == b
  | .list a, .list b => beqItems a b
  | _, _ => false

def beqItems : List SignalValue → List SignalValue → Bool
  | [], [] => true
  | a :: as, b :: bs => beq a b && beqItems as bs
  | _, _ => false

end

instance : BEq SignalValue := ⟨beq⟩
instance : Inhabited SignalValue := ⟨.null⟩

mutual

def toJson : SignalValue → Json
  | .null => .null
  | .bool b => .bool b
  | .number n => .number n
  | .text s => .text s
  | .list items => .array (toJsonItems items)

def toJsonItems : List SignalValue → List Json
  | [] => []
  | v :: vs => toJson v :: toJsonItems vs

end

mutual

def ofJson? : Json → Option SignalValue
  | .null => some .null
  | .bool b => some (.bool b)
  | .number n => some (.number n)
  | .text s => some (.text s)
  | .array items => (ofJsonItems? items).map .list
  | .object _ => none

def ofJsonItems? : List Json → Option (List SignalValue)
  | [] => some []
  | j :: js => do
    let v ← ofJson? j
    let vs ← ofJsonItems? js
    return v :: vs

end

/-- The number that a double is. Infinities and NaN have no JSON form and become null. -/
def ofFloat (x : Float) : SignalValue :=
  ((Number.ofFloat? x).map .number).getD .null

def isNull : SignalValue → Bool
  | .null => true
  | _ => false

def bool? : SignalValue → Option Bool
  | .bool b => some b
  | _ => none

def float? : SignalValue → Option Double
  | .number n => Double.ofFloat? n.toFloat
  | _ => none

def text? : SignalValue → Option String
  | .text s => some s
  | _ => none

def display (v : SignalValue) : String :=
  v.toJson.compact

def read (r : Json.Reading) : Except Json.Error SignalValue := do
  let j ← r.toJson
  match ofJson? j with
  | some v => return v
  | none => Json.unfit .objectInValue

end SignalValue

abbrev Values := Table String SignalValue

def Values.toJson (vs : Values) : Json :=
  Json.ofTable vs SignalValue.toJson

end SignalBroker
