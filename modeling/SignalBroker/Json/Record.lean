import SignalBroker.Json.Reading

/-!
Reading typed values. A record is read from an object, or from an array of its fields in their
order. Fields are taken in the order in which the document has them, so the first bad one decides;
fields that are missing are noticed at the end, in the order of the record. Names that the record
does not have are skipped. A choice is an object or an array that carries the name of one of several
records.
-/

namespace SignalBroker.Json

def unfit (m : Mismatch) : Except Error α :=
  .error (.unfit m none)

def readTextAs (wanted : String) (r : Reading) : Except Error String :=
  match r.shape with
  | .text s => .ok s
  | _ => r.refuse wanted

def readString : Reading → Except Error String :=
  readTextAs "a string"

def readBool (r : Reading) : Except Error Bool :=
  match r.shape with
  | .bool b => .ok b
  | _ => r.refuse "a boolean"

def readNatural (largest : Nat) (wanted : String) (r : Reading) : Except Error Nat :=
  match r.shape with
  | .number (.natural n) =>
    if n.toNat ≤ largest then .ok n.toNat
    else r.reject (.invalidValue (.number (.natural n)) wanted)
  | .number (.negative n) => r.reject (.invalidValue (.number (.negative n)) wanted)
  | _ => r.refuse wanted

def readU16 : Reading → Except Error Nat := readNatural 0xffff "u16"
def readU64 : Reading → Except Error Nat := readNatural 0xffffffffffffffff "u64"
def readSize : Reading → Except Error Nat := readNatural 0xffffffffffffffff "usize"

def readFloat (r : Reading) : Except Error Float :=
  match r.shape with
  | .number n => .ok n.toFloat
  | _ => r.refuse "f64"

def readOption (read : Reading → Except Error α) (r : Reading) : Except Error (Option α) :=
  match r.shape with
  | .null => .ok none
  | _ => some <$> read r

def readList (read : Reading → Except Error α) (r : Reading) : Except Error (List α) :=
  match r.shape with
  | .array items closing => do
    let xs ← items.mapM fun item => item.inside (read item)
    closing.check
    return xs
  | _ => r.refuse "a sequence"

/-- A table of values, where the last of several with one name stays. -/
def readTable (read : Reading → Except Error α) (r : Reading) : Except Error (Table String α) :=
  match r.shape with
  | .object members closing => do
    let rows ← members.mapM fun (k, member) => do return (k, ← member.inside (read member))
    closing.check
    return .ofList rows
  | _ => r.refuse "a map"

/-- Where a reading comes from, which decides how an array with too many fields is refused: in a
text the surplus is unexpected there, in a value the length is wrong, and in the content of a choice
it is wrong by the number of fields left over. -/
inductive Origin where
  | text
  | value
  | choice
  deriving DecidableEq

structure Field where
  name : String
  required : Bool
  check : Reading → Except Error Unit

def Field.needed (name : String) (read : Reading → Except Error α) : Field :=
  ⟨name, true, fun r => discard (read r)⟩

def Field.optional (name : String) (read : Reading → Except Error α) : Field :=
  ⟨name, false, fun r => discard (read r)⟩

structure Record where
  title : String
  fields : List Field

def Record.wanted (s : Record) : String :=
  let n := s.fields.length
  s.title ++ " with " ++ toString n ++ (if n = 1 then " element" else " elements")

abbrev Fields := List (String × Reading)

namespace Record

def takeMembers (s : Record) (seen : Fields) : List (String × Reading) → Except Error Fields
  | [] => .ok seen
  | (name, r) :: rest =>
    match s.fields.find? (·.name == name) with
    | none => takeMembers s seen rest
    | some field =>
      if (seen.lookup name).isSome then
        .error (.unfit (.duplicateField name) (r.span?.map (·.before)))
      else do
        r.inside (field.check r)
        takeMembers s (seen ++ [(name, r)]) rest

def missing? (s : Record) (seen : Fields) : Option String :=
  (s.fields.find? fun f => f.required && (seen.lookup f.name).isNone).map (·.name)

def takeItems (s : Record) (closing : Closing) (taken : Nat) (seen : Fields) :
    List Field → List Reading → Except Error Fields
  | [], _ => .ok seen
  | field :: fields, [] => do
    closing.check
    if field.required then unfit (.invalidLength taken s.wanted)
    else takeItems s closing (taken + 1) seen fields []
  | field :: fields, r :: rest => do
    r.inside (field.check r)
    takeItems s closing (taken + 1) (seen ++ [(field.name, r)]) fields rest

def checkSurplus (s : Record) (origin : Origin) (items : List Reading) (closing : Closing) :
    Except Error Unit :=
  let n := s.fields.length
  match origin, items.drop n with
  | .text, r :: _ =>
    .error (.malformed .trailingCharacters ((r.span?.map (·.start + 1)).getD 0))
  | .text, [] =>
    if items.length < n then closing.check
    else match closing with
      | .cut (.malformed .endOfValue offset) | .cut (.malformed .expectedListEnd offset) =>
        .error (.malformed .trailingCharacters offset)
      | closing => closing.check
  | .value, _ :: _ => unfit (.invalidLength items.length "fewer elements in array")
  | .choice, _ :: _ =>
    unfit (.invalidLength items.length
      (toString n ++ (if n = 1 then " element in sequence" else " elements in sequence")))
  | _, [] => closing.check

/-- The fields of a record in a reading, all of them checked. What is wrong with the record as a whole
is noticed behind it. -/
def fieldsOf (s : Record) (origin : Origin) (r : Reading) : Except Error Fields :=
  let stop := r.span?.map (·.stop)
  match r.shape with
  | .object members closing => do
    let seen ← s.takeMembers [] members
    closing.check
    match s.missing? seen with
    | some name => .error (.unfit (.missingField name) stop)
    | none => return seen
  | .array items closing => do
    let seen ← (s.takeItems closing 0 [] s.fields items).mapError (·.noticedAt stop)
    s.checkSurplus origin items closing
    return seen
  | _ => r.refuse s.title

end Record

namespace Fields

def get (fs : Fields) (name : String) (read : Reading → Except Error α) : Except Error α :=
  match fs.lookup name with
  | some r => read r
  | none => unfit (.missingField name)

def getD (fs : Fields) (name : String) (read : Reading → Except Error α) (otherwise : α) :
    Except Error α :=
  match fs.lookup name with
  | some r => read r
  | none => .ok otherwise

end Fields

/-- The name of a variant. Inside the content of a choice its number will do too. -/
def readVariant (origin : Origin) (variants : List String) (r : Reading) : Except Error String :=
  match origin, r.shape with
  | _, .text s => if variants.contains s then .ok s else r.reject (.unknownVariant s variants)
  | .choice, .number (.natural n) =>
    match variants[n.toNat]? with
    | some s => .ok s
    | none => unfit (.invalidValue (.number (.natural n))
        ("variant index 0 <= i < " ++ toString variants.length))
  | _, _ => r.refuse "variant identifier"

structure Choice where
  title : String
  tag : String
  variants : List String

namespace Choice

def takeTag (c : Choice) (origin : Origin) (variant : Option String) (others : Fields) :
    List (String × Reading) → Except Error (Option String × Fields)
  | [] => .ok (variant, others)
  | (name, r) :: rest =>
    if name = c.tag then
      if variant.isSome then
        .error (.unfit (.duplicateField c.tag) (r.span?.map (·.before)))
      else do
        let v ← readVariant origin c.variants r
        takeTag c origin (some v) others rest
    else do
      discard r.toJson
      takeTag c origin variant (others ++ [(name, r.bare)]) rest

/-- The variant that a reading names, and the reading of the record that goes with it. That record is
read apart from its text, so that nothing in it has a place. -/
def split (c : Choice) (origin : Origin) (r : Reading) : Except Error (String × Reading) :=
  match r.shape with
  | .object members closing => do
    let (variant, others) ← c.takeTag origin none [] members
    closing.check
    match variant with
    | some v => return (v, .object others .closed)
    | none => r.reject (.missingField c.tag)
  | .array [] closing => do
    closing.check
    r.reject (.missingField c.tag)
  | .array (first :: rest) closing => do
    let v ← readVariant origin c.variants first
    discard (Reading.toJsonItems rest)
    closing.check
    return (v, .array (Reading.bareItems rest) .closed)
  | _ => r.refuse c.title

end Choice

end SignalBroker.Json
