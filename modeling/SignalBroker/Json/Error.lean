import SignalBroker.Json.Basic
import SignalBroker.Decimal.Shortest
import SignalBroker.Text.Quoted

namespace SignalBroker.Json

inductive Flaw where
  | endOfValue
  | endOfList
  | endOfObject
  | endOfText
  | expectedValue
  | expectedWord
  | expectedColon
  | expectedListEnd
  | expectedObjectEnd
  | nameNotText
  | trailingComma
  | trailingCharacters
  | invalidNumber
  | numberOutOfRange
  | invalidEscape
  | endOfHexEscape
  | loneSurrogate
  | controlCharacter
  | tooDeep
  deriving DecidableEq, Repr

def Flaw.message : Flaw → String
  | .endOfValue => "EOF while parsing a value"
  | .endOfList => "EOF while parsing a list"
  | .endOfObject => "EOF while parsing an object"
  | .endOfText => "EOF while parsing a string"
  | .expectedValue => "expected value"
  | .expectedWord => "expected ident"
  | .expectedColon => "expected `:`"
  | .expectedListEnd => "expected `,` or `]`"
  | .expectedObjectEnd => "expected `,` or `\x7d`"
  | .nameNotText => "key must be a string"
  | .trailingComma => "trailing comma"
  | .trailingCharacters => "trailing characters"
  | .invalidNumber => "invalid number"
  | .numberOutOfRange => "number out of range"
  | .invalidEscape => "invalid escape"
  | .endOfHexEscape => "unexpected end of hex escape"
  | .loneSurrogate => "lone leading surrogate in hex escape"
  | .controlCharacter => "control character (\\u0000-\\u001F) found while parsing a string"
  | .tooDeep => "recursion limit exceeded"

inductive Found where
  | null
  | bool (b : Bool)
  | number (n : Number)
  | text (s : String)
  | sequence
  | map

def Found.describe : Found → String
  | .null => "null"
  | .bool b => "boolean `" ++ (if b then "true" else "false") ++ "`"
  | .number (.natural n) => "integer `" ++ toString n.toNat ++ "`"
  | .number (.negative n) => "integer `" ++ toString n.toInt ++ "`"
  | .number (.double x) =>
    "floating point `" ++ String.ofList (Decimal.floatChars .json x.toFloat) ++ "`"
  | .text s => "string " ++ Text.quoted s
  | .sequence => "sequence"
  | .map => "map"

inductive Mismatch where
  | invalidType (found : Found) (wanted : String)
  | invalidValue (found : Found) (wanted : String)
  | invalidLength (length : Nat) (wanted : String)
  | missingField (name : String)
  | duplicateField (name : String)
  | unknownVariant (name : String) (known : List String)
  | objectInValue
  | unknownLevel (level : String)

def alternatives : List String → String
  | [] => "there are no variants"
  | [a] => "expected `" ++ a ++ "`"
  | [a, b] => "expected `" ++ a ++ "` or `" ++ b ++ "`"
  | as => "expected one of " ++ ", ".intercalate (as.map fun a => "`" ++ a ++ "`")

def objectInValueText : String := "signal values cannot be objects"

def Mismatch.message : Mismatch → String
  | .invalidType found wanted => "invalid type: " ++ found.describe ++ ", expected " ++ wanted
  | .invalidValue found wanted => "invalid value: " ++ found.describe ++ ", expected " ++ wanted
  | .invalidLength n wanted => "invalid length " ++ toString n ++ ", expected " ++ wanted
  | .missingField name => "missing field `" ++ name ++ "`"
  | .duplicateField name => "duplicate field `" ++ name ++ "`"
  | .unknownVariant name known => "unknown variant `" ++ name ++ "`, " ++ alternatives known
  | .objectInValue => objectInValueText
  | .unknownLevel level => "unknown access level '" ++ level ++ "'"

/-- Why a text or a value was refused. The offset counts the bytes of the text that were read before
it was noticed; a value that comes from no text has none. -/
inductive Error where
  | malformed (flaw : Flaw) (offset : Nat)
  | unfit (mismatch : Mismatch) (offset : Option Nat)

def Error.message : Error → String
  | .malformed flaw _ => flaw.message
  | .unfit mismatch _ => mismatch.message

def Error.offset? : Error → Option Nat
  | .malformed _ offset => some offset
  | .unfit _ offset => offset

def Error.noticedAt (offset : Option Nat) : Error → Error
  | .unfit mismatch none => .unfit mismatch offset
  | e => e

/-- A place in a text. Lines count from one; the column counts bytes since the line began. -/
structure Place where
  line : Nat
  column : Nat
  deriving DecidableEq, Repr

def Place.advance (p : Place) : List Char → Nat → Place
  | [], offset => { p with column := p.column + offset }
  | c :: cs, offset =>
    if offset = 0 then p
    else if c = '\n' then Place.advance ⟨p.line + 1, 0⟩ cs (offset - 1)
    else if offset < c.utf8Size then { p with column := p.column + offset }
    else Place.advance { p with column := p.column + c.utf8Size } cs (offset - c.utf8Size)

def Place.ofOffset (source : String) (offset : Nat) : Place :=
  Place.advance ⟨1, 0⟩ source.toList offset

def Error.messageIn (e : Error) (source : String) : String :=
  match e.offset? with
  | some offset =>
    let p := Place.ofOffset source offset
    e.message ++ " at line " ++ toString p.line ++ " column " ++ toString p.column
  | none => e.message

end SignalBroker.Json
