import SignalBroker.Json.Numeral

/-!
Reading JSON texts. The grammar is strict: no comments, no closing commas, no second value, and at
most 127 containers around a value. `Document.ofText` reads a text as far as it can be read, and
`Json.ofText` wants the whole of it.

Who skips a value is less strict than who reads it: surrogates need no partner, a number may be of any
size, and containers may be nested at will. So each step below answers both: the value is for the
reader, and where the text goes on, or why it does not, is for the one who skips.
-/

namespace SignalBroker.Json

def isGap (c : Char) : Bool :=
  c = ' ' || c = '\t' || c = '\n' || c = '\r'

def Cursor.skipGaps (c : Cursor) : Cursor :=
  ⟨c.rest.dropWhile isGap, c.offset + (c.rest.takeWhile isGap).length⟩

def hexValue? (c : Char) : Option Nat :=
  if '0' ≤ c && c ≤ '9' then some (c.toNat - '0'.toNat)
  else if 'a' ≤ c && c ≤ 'f' then some (c.toNat - 'a'.toNat + 10)
  else if 'A' ≤ c && c ≤ 'F' then some (c.toNat - 'A'.toNat + 10)
  else none

def hexFour? : List Char → Option Nat
  | a :: b :: c :: d :: _ => do
    let a ← hexValue? a
    let b ← hexValue? b
    let c ← hexValue? c
    let d ← hexValue? d
    return ((a * 16 + b) * 16 + c) * 16 + d
  | _ => none

def hexFault (rest : List Char) (offset : Nat) : Error :=
  let n := byteCount rest
  if 4 ≤ n then .malformed .invalidEscape (offset + 4) else .malformed .endOfText (offset + n)

def isLeading (n : Nat) : Bool := 0xd800 ≤ n && n ≤ 0xdbff

def isTrailing (n : Nat) : Bool := 0xdc00 ≤ n && n ≤ 0xdfff

/-- What an escape of four hexadecimal digits stands for: a character, the first of two surrogates
that make one, or a fault for which the text may be skipped but not used. The second part of the
answer counts the characters taken. -/
def surrogatePair (lead : Nat) (rest : List Char) (offset : Nat) :
    Except Error (Except Error Char × Nat) :=
  match rest with
  | [] => .error (.malformed .endOfText offset)
  | '\\' :: [] => .error (.malformed .endOfText (offset + 1))
  | '\\' :: 'u' :: more =>
    match hexFour? more with
    | none => .error (hexFault more (offset + 2))
    | some trail =>
      if isTrailing trail then
        .ok (.ok (Char.ofNat (0x10000 + (lead - 0xd800) * 0x400 + (trail - 0xdc00))), 6)
      else .ok (.error (.malformed .loneSurrogate (offset + 6)), 0)
  | '\\' :: _ => .ok (.error (.malformed .endOfHexEscape (offset + 2)), 0)
  | _ => .ok (.error (.malformed .endOfHexEscape (offset + 1)), 0)

def simpleEscape? (c : Char) : Option Char :=
  match c with
  | '"' => some '"'
  | '\\' => some '\\'
  | '/' => some '/'
  | 'b' => some '\x08'
  | 'f' => some '\x0c'
  | 'n' => some '\n'
  | 'r' => some '\r'
  | 't' => some '\t'
  | _ => none

/-- The characters of a text up to its closing quote. `fault` is the first fault that forbids the
use of the text, and `acc` holds its characters in reverse. -/
def readChars (fault : Option Error) (acc : List Char) (cs : List Char) (offset : Nat) :
    Parsed (Except Error String) :=
  let cut (e : Error) : Parsed (Except Error String) := ⟨.error (fault.getD e), .error e⟩
  match cs with
  | [] => cut (.malformed .endOfText offset)
  | '"' :: rest =>
    let value := match fault with
      | some e => .error e
      | none => .ok (String.ofList acc.reverse)
    ⟨value, .ok ⟨rest, offset + 1⟩⟩
  | '\\' :: [] => cut (.malformed .endOfText (offset + 1))
  | '\\' :: 'u' :: rest =>
    match hexFour? rest with
    | none => cut (hexFault rest (offset + 2))
    | some n =>
      if isTrailing n then
        readChars (fault <|> some (.malformed .loneSurrogate (offset + 6))) acc (rest.drop 4)
          (offset + 6)
      else if isLeading n then
        match surrogatePair n (rest.drop 4) (offset + 6) with
        | .error e => cut e
        | .ok (.ok c, taken) =>
          readChars fault (c :: acc) ((rest.drop 4).drop taken) (offset + 6 + taken)
        | .ok (.error e, _) => readChars (fault <|> some e) acc (rest.drop 4) (offset + 6)
      else readChars fault (Char.ofNat n :: acc) (rest.drop 4) (offset + 6)
  | '\\' :: c :: rest =>
    match simpleEscape? c with
    | some d => readChars fault (d :: acc) rest (offset + 2)
    | none => cut (.malformed .invalidEscape (offset + 2))
  | c :: rest =>
    if c.toNat < 0x20 then
      ⟨.error (fault.getD (.malformed .controlCharacter (offset + 1))),
        .error (.malformed .controlCharacter offset)⟩
    else readChars fault (c :: acc) rest (offset + c.utf8Size)
  termination_by cs.length
  decreasing_by all_goals grind

def readText (c : Cursor) : Parsed (Except Error String) :=
  readChars none [] c.rest c.offset

def readWord (value : Reading) : List Char → Cursor → Parsed Reading
  | [], c => ⟨value, .ok c⟩
  | w :: ws, c =>
    match c.rest with
    | [] => .fail .endOfValue c.offset
    | d :: rest =>
      if d = w then readWord value ws ⟨rest, c.offset + 1⟩
      else .fail .expectedWord (c.offset + 1)

def maxDepth : Nat := 127

def Parsed.bounded (p : Parsed Reading) (depth offset : Nat) : Parsed Reading :=
  if depth < maxDepth then p else { p with value := .unreadable (.malformed .tooDeep (offset + 1)) }

def Parsed.placed (start : Nat) (p : Parsed Reading) : Parsed Reading :=
  let stop := match p.next with
    | .ok c => c.offset
    | .error _ => start
  { p with value := .placed ⟨start, start, stop, stop⟩ p.value }

def Reading.between (before after : Nat) : Reading → Reading
  | .placed span r => .placed { span with before, after } r
  | r => r

def Cursor.stopInObject (c : Cursor) : Nat :=
  let c := c.skipGaps
  match c.rest with
  | '\x7d' :: _ => c.offset + 1
  | _ => c.offset

/-- Where a reader has come to who stops in an array: past the bracket or comma that is next, and past
the gap behind a comma. -/
def Cursor.stopInArray (c : Cursor) : Nat :=
  let c := c.skipGaps
  match c.rest with
  | ']' :: _ => c.offset + 1
  | ',' :: rest => (Cursor.skipGaps ⟨rest, c.offset + 1⟩).offset
  | _ => c.offset

def Parsed.cutOr (flaw skipped : Flaw) (offset : Nat) : Parsed (List α × Closing) :=
  ⟨([], .cut (.malformed flaw offset)), .error (.malformed skipped offset)⟩

def Parsed.cut (flaw : Flaw) (offset : Nat) : Parsed (List α × Closing) :=
  .cutOr flaw flaw offset

def Parsed.push (a : α) (p : Parsed (List α × Closing)) : Parsed (List α × Closing) :=
  ⟨(a :: p.value.1, p.value.2), p.next⟩

mutual

/-- The value at the cursor. The first number bounds the steps: a character takes at most three of
them, so four for each character left are enough. -/
def readValue : Nat → Nat → Cursor → Parsed Reading
  | 0, _, c => .fail .endOfValue c.offset
  | fuel + 1, depth, c =>
    let c := c.skipGaps
    Parsed.placed c.offset <| match c.rest with
    | [] => .fail .endOfValue c.offset
    | '"' :: rest =>
      let p := readText ⟨rest, c.offset + 1⟩
      match p.value with
      | .ok s => ⟨.text s, p.next⟩
      | .error e => ⟨.unreadable e, p.next⟩
    | '[' :: rest =>
      let p := readItems fuel (depth + 1) true ⟨rest, c.offset + 1⟩
      Parsed.bounded ⟨.array p.value.1 p.value.2, p.next⟩ depth c.offset
    | '\x7b' :: rest =>
      let p := readMembers fuel (depth + 1) true ⟨rest, c.offset + 1⟩
      Parsed.bounded ⟨.object p.value.1 p.value.2, p.next⟩ depth c.offset
    | 'n' :: rest => readWord .null ['u', 'l', 'l'] ⟨rest, c.offset + 1⟩
    | 't' :: rest => readWord (.bool true) ['r', 'u', 'e'] ⟨rest, c.offset + 1⟩
    | 'f' :: rest => readWord (.bool false) ['a', 'l', 's', 'e'] ⟨rest, c.offset + 1⟩
    | '-' :: rest => readNumeral true ⟨rest, c.offset + 1⟩
    | d :: _ => if isDigit d then readNumeral false c else .fail .expectedValue (c.offset + 1)

def readItems : Nat → Nat → Bool → Cursor → Parsed (List Reading × Closing)
  | 0, _, _, c => .cut .endOfList c.offset
  | fuel + 1, depth, first, c =>
    let c := c.skipGaps
    match c.rest with
    | [] => .cut .endOfList c.offset
    | ']' :: rest => ⟨([], .closed), .ok ⟨rest, c.offset + 1⟩⟩
    | d :: rest =>
      if first then readItem fuel depth c
      else if d = ',' then
        let c := Cursor.skipGaps ⟨rest, c.offset + 1⟩
        match c.rest with
        | [] => .cut .endOfValue c.offset
        | ']' :: _ => .cutOr .trailingComma .expectedValue (c.offset + 1)
        | _ => readItem fuel depth c
      else .cut .expectedListEnd (c.offset + 1)

def readItem : Nat → Nat → Cursor → Parsed (List Reading × Closing)
  | 0, _, c => .cut .endOfValue c.offset
  | fuel + 1, depth, c =>
    let before := c.offset
    let p := readValue fuel depth c
    match p.next with
    | .ok c => (readItems fuel depth false c).push (p.value.between before c.stopInArray)
    | .error e => ⟨([p.value], .cut e), .error e⟩

def readMembers : Nat → Nat → Bool → Cursor → Parsed (List (String × Reading) × Closing)
  | 0, _, _, c => .cut .endOfObject c.offset
  | fuel + 1, depth, first, c =>
    let c := c.skipGaps
    match c.rest with
    | [] => .cut .endOfObject c.offset
    | '\x7d' :: rest => ⟨([], .closed), .ok ⟨rest, c.offset + 1⟩⟩
    | d :: rest =>
      if first then
        if d = '"' then readMember fuel depth ⟨rest, c.offset + 1⟩
        else .cut .nameNotText (c.offset + 1)
      else if d = ',' then
        let c := Cursor.skipGaps ⟨rest, c.offset + 1⟩
        match c.rest with
        | [] => .cutOr .endOfValue .endOfObject c.offset
        | '"' :: rest => readMember fuel depth ⟨rest, c.offset + 1⟩
        | '\x7d' :: _ => .cutOr .trailingComma .nameNotText (c.offset + 1)
        | _ => .cut .nameNotText (c.offset + 1)
      else .cut .expectedObjectEnd (c.offset + 1)

/-- One member, after the quote that opens its name, and all that follow it. A name that cannot be
used ends what is read of the object, while the object may still be skipped. -/
def readMember : Nat → Nat → Cursor → Parsed (List (String × Reading) × Closing)
  | 0, _, c => .cut .endOfText c.offset
  | fuel + 1, depth, c =>
    let name := readText c
    match name.value, name.next with
    | .error e, .error skipped => ⟨([], .cut e), .error skipped⟩
    | .ok _, .error e => ⟨([], .cut e), .error e⟩
    | .error e, .ok c => ⟨([], .cut e), (readNamed fuel depth "" c).next⟩
    | .ok k, .ok c => readNamed fuel depth k c

def readNamed : Nat → Nat → String → Cursor → Parsed (List (String × Reading) × Closing)
  | 0, _, _, c => .cut .endOfObject c.offset
  | fuel + 1, depth, k, c =>
    let before := c.stopInObject
    let c := c.skipGaps
    let fault (flaw : Flaw) (offset : Nat) : Parsed (List (String × Reading) × Closing) :=
      let e := .malformed flaw offset
      ⟨([(k, .placed ⟨before, offset, offset, offset⟩ (.unreadable e))], .cut e), .error e⟩
    match c.rest with
    | [] => fault .endOfObject c.offset
    | ':' :: rest =>
      let p := readValue fuel depth ⟨rest, c.offset + 1⟩
      match p.next with
      | .ok c =>
        (readMembers fuel depth false c).push (k, p.value.between before c.stopInObject)
      | .error e => ⟨([(k, p.value.between before c.offset)], .cut e), .error e⟩
    | _ => fault .expectedColon (c.offset + 1)

end

/-- The reading of a text. After its value only gaps may follow. -/
def Document.ofText (source : String) : Document :=
  let cs := source.toList
  let p := readValue (4 * cs.length + 4) 0 ⟨cs, 0⟩
  match p.next with
  | .error e => ⟨p.value, some e⟩
  | .ok c =>
    let c := c.skipGaps
    ⟨p.value, if c.rest.isEmpty then none else some (.malformed .trailingCharacters (c.offset + 1))⟩

/-- What a consumer makes of a document: its own refusal comes before the surplus is seen. -/
def Document.read (d : Document) (consume : Reading → Except Error α) : Except Error α := do
  let a ← consume d.reading
  match d.surplus with
  | none => return a
  | some e => throw e

def ofText (source : String) : Except Error Json :=
  (Document.ofText source).read (·.toJson)

end SignalBroker.Json
