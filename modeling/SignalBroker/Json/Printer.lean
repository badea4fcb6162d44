import SignalBroker.Json.Error

namespace SignalBroker.Json

def hexDigit (n : Nat) : Char :=
  if n < 10 then Char.ofNat ('0'.toNat + n) else Char.ofNat ('a'.toNat + (n - 10))

def escapeChar (c : Char) : List Char :=
  match c with
  | '"' => ['\\', '"']
  | '\\' => ['\\', '\\']
  | '\x08' => ['\\', 'b']
  | '\x0c' => ['\\', 'f']
  | '\n' => ['\\', 'n']
  | '\r' => ['\\', 'r']
  | '\t' => ['\\', 't']
  | c =>
    if c.toNat < 0x20 then
      ['\\', 'u', '0', '0', hexDigit (c.toNat / 16), hexDigit (c.toNat % 16)]
    else [c]

def textChars (s : String) : List Char :=
  '"' :: s.toList.flatMap escapeChar ++ ['"']

def numberChars : Number → List Char
  | .natural n => (toString n.toNat).toList
  | .negative n => (toString n.toInt).toList
  | .double x => Decimal.floatChars .json x.toFloat

def boolChars (b : Bool) : List Char :=
  if b then ['t', 'r', 'u', 'e'] else ['f', 'a', 'l', 's', 'e']

mutual

def writeBefore (tail : List Char) : Json → List Char
  | .null => 'n' :: 'u' :: 'l' :: 'l' :: tail
  | .bool b => boolChars b ++ tail
  | .number n => numberChars n ++ tail
  | .text s => textChars s ++ tail
  | .array [] => '[' :: ']' :: tail
  | .array (j :: js) => '[' :: writeBefore (writeItems (']' :: tail) js) j
  | .object [] => '\x7b' :: '\x7d' :: tail
  | .object ((k, j) :: ms) =>
    '\x7b' :: textChars k ++ ':' :: writeBefore (writeMembers ('\x7d' :: tail) ms) j

def writeItems (tail : List Char) : List Json → List Char
  | [] => tail
  | j :: js => ',' :: writeBefore (writeItems tail js) j

def writeMembers (tail : List Char) : List (String × Json) → List Char
  | [] => tail
  | (k, j) :: ms => ',' :: textChars k ++ ':' :: writeBefore (writeMembers tail ms) j

end

def compact (j : Json) : String :=
  String.ofList (writeBefore [] j)

def newLine (indent : Nat) : List Char :=
  '\n' :: List.replicate (2 * indent) ' '

mutual

def indentBefore (depth : Nat) (tail : List Char) : Json → List Char
  | .null => 'n' :: 'u' :: 'l' :: 'l' :: tail
  | .bool b => boolChars b ++ tail
  | .number n => numberChars n ++ tail
  | .text s => textChars s ++ tail
  | .array [] => '[' :: ']' :: tail
  | .array (j :: js) =>
    '[' :: newLine (depth + 1) ++
      indentBefore (depth + 1) (indentItems (depth + 1) (newLine depth ++ ']' :: tail) js) j
  | .object [] => '\x7b' :: '\x7d' :: tail
  | .object ((k, j) :: ms) =>
    '\x7b' :: newLine (depth + 1) ++ textChars k ++ ':' :: ' ' ::
      indentBefore (depth + 1) (indentMembers (depth + 1) (newLine depth ++ '\x7d' :: tail) ms) j

def indentItems (depth : Nat) (tail : List Char) : List Json → List Char
  | [] => tail
  | j :: js => ',' :: newLine depth ++ indentBefore depth (indentItems depth tail js) j

def indentMembers (depth : Nat) (tail : List Char) : List (String × Json) → List Char
  | [] => tail
  | (k, j) :: ms =>
    ',' :: newLine depth ++ textChars k ++ ':' :: ' ' ::
      indentBefore depth (indentMembers depth tail ms) j

end

def indented (j : Json) : String :=
  String.ofList (indentBefore 0 [] j)

end SignalBroker.Json
