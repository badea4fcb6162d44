import SignalBroker.Json.Reading

/-!
Numbers in a JSON text. A numeral without fraction and exponent that fits 64 bits is a whole number.
Any other numeral is a double, computed from the leading digits that fit 64 bits without sign by one
multiplication or division with a power of ten: exact for short numerals, and else within the
rounding of those two steps.
-/

namespace SignalBroker.Json

structure Cursor where
  rest : List Char
  offset : Nat

/-- What was read, and where the text goes on behind it, or why it cannot be skipped. -/
structure Parsed (α : Type) where
  value : α
  next : Except Error Cursor

def byteCount (cs : List Char) : Nat :=
  cs.foldl (fun n c => n + c.utf8Size) 0

def digitValue (c : Char) : Nat := c.toNat - '0'.toNat

def maxSignificand : Nat := 0xffffffffffffffff

/-- The leading digits that fit 64 bits, after `start`, and how many digits follow them. -/
def takeDigits (start : Nat) : List Char → Nat × Nat
  | [] => (start, 0)
  | c :: cs =>
    let n := start * 10 + digitValue c
    if n ≤ maxSignificand then takeDigits n cs else (start, cs.length + 1)

/-- `significand * 10 ^ exponent` in two rounding steps, `none` if it exceeds every double. Below
`10 ^ -308` the significand is first divided by `10 ^ 308`; after two such divisions it is zero. -/
def scaled (x : Float) (exponent : Int) : Nat → Option Float
  | 0 => some x
  | fuel + 1 =>
    if exponent.natAbs ≤ 308 then
      let power := Decimal.nearest 1 exponent.natAbs
      if 0 ≤ exponent then
        let y := x * power
        if y.isInf then none else some y
      else some (x / power)
    else if x == 0 then some x
    else if 0 ≤ exponent then none
    else scaled (x / Decimal.nearest 1 308) (exponent + 308) fuel

def maxExponent : Nat := 0x7fffffff

/-- The value of exponent digits, or the number of digits after which it passes the limit. -/
def exponentValue (start seen : Nat) : List Char → Except Nat Nat
  | [] => .ok start
  | c :: cs =>
    let n := start * 10 + digitValue c
    if n ≤ maxExponent then exponentValue n (seen + 1) cs else .error (seen + 1)

structure Numeral where
  negative : Bool
  whole : List Char
  fraction : List Char
  /-- The sign of the exponent, true for a negative one, and its digits. -/
  power : Option (Bool × List Char)
  isWhole : Bool

def signed (negative : Bool) (x : Float) : Float :=
  if negative then -x else x

def signedNumber (negative : Bool) (x : Float) : Except (Option Nat) Number :=
  match Number.ofFloat? (signed negative x) with
  | some n => .ok n
  | none => .error none

/-- The number of a numeral, or the count of its exponent digits at which it leaves the doubles,
where no count stands for the end of the numeral. -/
def Numeral.value (n : Numeral) : Except (Option Nat) Number :=
  let (significand, dropped) := takeDigits 0 n.whole
  if n.isWhole && dropped = 0 then
    if !n.negative then .ok (.natural (UInt64.ofNat significand))
    else if 1 ≤ significand && significand ≤ 0x8000000000000000 then
      .ok (.negative (Int64.ofInt (-(significand : Int))))
    else signedNumber true (UInt64.ofNat significand).toFloat
  else
    let (significand, ignored) := takeDigits significand n.fraction
    let start : Int := dropped - (n.fraction.length - ignored : Nat)
    let result (e : Int) : Except (Option Nat) Number :=
      match scaled (UInt64.ofNat significand).toFloat e 4 with
      | some x => signedNumber n.negative x
      | none => .error none
    match n.power with
    | none => result start
    | some (down, digits) =>
      match exponentValue 0 0 digits with
      | .ok e => result (if down then start - e else start + e)
      | .error seen =>
        if significand ≠ 0 && !down then .error (some seen)
        else signedNumber n.negative 0

def isDigit (c : Char) : Bool := '0' ≤ c && c ≤ '9'

def peeked (c : Cursor) : Nat :=
  if c.rest.isEmpty then c.offset else c.offset + 1

def Parsed.fail (flaw : Flaw) (offset : Nat) : Parsed Reading :=
  ⟨.unreadable (.malformed flaw offset), .error (.malformed flaw offset)⟩

/-- At the end of the text a numeral that is wanted is incomplete, one that is skipped invalid. -/
def Parsed.failAtEnd (offset : Nat) : Parsed Reading :=
  ⟨.unreadable (.malformed .endOfValue offset), .error (.malformed .invalidNumber offset)⟩

def Numeral.parsed (n : Numeral) (start : Nat) (next : Cursor) : Parsed Reading :=
  match n.value with
  | .ok value => ⟨.number value, .ok next⟩
  | .error seen =>
    let offset := match seen with
      | none => next.offset
      | some k => start + k
    ⟨.unreadable (.malformed .numberOutOfRange offset), .ok next⟩

def readPower (n : Numeral) (c : Cursor) : Parsed Reading :=
  let (down, c) : Bool × Cursor := match c.rest with
    | '-' :: rest => (true, ⟨rest, c.offset + 1⟩)
    | '+' :: rest => (false, ⟨rest, c.offset + 1⟩)
    | _ => (false, c)
  match c.rest with
  | [] => .failAtEnd c.offset
  | d :: _ =>
    if !isDigit d then .fail .invalidNumber (c.offset + 1)
    else
      let digits := c.rest.takeWhile isDigit
      let next : Cursor := ⟨c.rest.dropWhile isDigit, c.offset + digits.length⟩
      { n with power := some (down, digits), isWhole := false : Numeral }.parsed c.offset next

def readFraction (n : Numeral) (c : Cursor) : Parsed Reading :=
  match c.rest with
  | '.' :: rest =>
    let fraction := rest.takeWhile isDigit
    let next : Cursor := ⟨rest.dropWhile isDigit, c.offset + 1 + fraction.length⟩
    let n : Numeral := { n with fraction, isWhole := false }
    if fraction.isEmpty then
      if rest.isEmpty then .failAtEnd (c.offset + 1) else .fail .invalidNumber (c.offset + 2)
    else
      match next.rest with
      | 'e' :: rest | 'E' :: rest => readPower n ⟨rest, next.offset + 1⟩
      | _ => n.parsed next.offset next
  | 'e' :: rest | 'E' :: rest => readPower n ⟨rest, c.offset + 1⟩
  | _ => n.parsed c.offset c

def readNumeral (negative : Bool) (c : Cursor) : Parsed Reading :=
  match c.rest with
  | [] => .failAtEnd c.offset
  | '0' :: rest =>
    match rest with
    | d :: _ =>
      if isDigit d then .fail .invalidNumber (c.offset + 2)
      else readFraction ⟨negative, ['0'], [], none, true⟩ ⟨rest, c.offset + 1⟩
    | [] => readFraction ⟨negative, ['0'], [], none, true⟩ ⟨rest, c.offset + 1⟩
  | d :: _ =>
    if !isDigit d then .fail .invalidNumber (c.offset + 1)
    else
      let whole := c.rest.takeWhile isDigit
      readFraction ⟨negative, whole, [], none, true⟩
        ⟨c.rest.dropWhile isDigit, c.offset + whole.length⟩

end SignalBroker.Json
