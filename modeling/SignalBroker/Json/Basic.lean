import SignalBroker.Decimal.Double
import SignalBroker.Table

namespace SignalBroker

inductive Number where
  | natural (n : UInt64)
  | negative (n : Int64)
  | double (x : Double)
  deriving DecidableEq

/-- The members of an object are kept in ascending order of their names. -/
inductive Json where
  | null
  | bool (b : Bool)
  | number (n : Number)
  | text (s : String)
  | array (items : List Json)
  | object (members : List (String × Json))

namespace Number

def beq : Number → Number → Bool
  | .natural a, .natural b => a == b
  | .negative a, .negative b => a == b
  | .double a, .double b => a == b
  | _, _ => false

instance : BEq Number := ⟨beq⟩

def toFloat : Number → Float
  | .natural n => n.toFloat
  | .negative n => -(UInt64.ofNat n.toInt.natAbs).toFloat
  | .double x => x.toFloat

def ofFloat? (x : Float) : Option Number :=
  (Double.ofFloat? x).map .double

def toUInt64? : Number → Option UInt64
  | .natural n => some n
  | _ => none

instance (n : Nat) : OfNat Number n := ⟨.natural (UInt64.ofNat n)⟩

end Number

namespace Json

mutual

def beq : Json → Json → Bool
  | .null, .null => true
  | .bool a, .bool b => a == b
  | .number a, .number b => a == b
  | .text a, .text b => a == b
  | .array a, .array b => beqItems a b
  | .object a, .object b => beqMembers a b
  | _, _ => false

def beqItems : List Json → List Json → Bool
  | [], [] => true
  | a :: as, b :: bs => beq a b && beqItems as bs
  | _, _ => false

def beqMembers : List (String × Json) → List (String × Json) → Bool
  | [], [] => true
  | (k, a) :: as, (l, b) :: bs => k == l && beq a b && beqMembers as bs
  | _, _ => false

end

instance : BEq Json := ⟨beq⟩
instance : Inhabited Json := ⟨.null⟩

/-- The object with these members, of which a later one wins over an earlier one of its name. -/
def ofMembers (members : List (String × Json)) : Json :=
  .object (Table.ofList members).rows

def ofNat (n : Nat) : Json := .number (.natural (UInt64.ofNat n))

def ofFloat (x : Float) : Json :=
  ((Number.ofFloat? x).map .number).getD .null

def ofTable {α : Type} (t : Table String α) (f : α → Json) : Json :=
  .object (t.rows.map fun r => (r.1, f r.2))

def get? (j : Json) (name : String) : Option Json :=
  match j with
  | .object members => members.lookup name
  | _ => none

def isNull : Json → Bool
  | .null => true
  | _ => false

def text? : Json → Option String
  | .text s => some s
  | _ => none

def bool? : Json → Option Bool
  | .bool b => some b
  | _ => none

def items? : Json → Option (List Json)
  | .array items => some items
  | _ => none

def members? : Json → Option (List (String × Json))
  | .object members => some members
  | _ => none

def natural? : Json → Option UInt64
  | .number n => n.toUInt64?
  | _ => none

mutual

/-- How many arrays and objects enclose the innermost value, those of the value itself included. -/
def depth : Json → Nat
  | .array items => depthItems items + 1
  | .object members => depthMembers members + 1
  | _ => 0

def depthItems : List Json → Nat
  | [] => 0
  | j :: js => max (depth j) (depthItems js)

def depthMembers : List (String × Json) → Nat
  | [] => 0
  | (_, j) :: js => max (depth j) (depthMembers js)

end

end Json

end SignalBroker
