import SignalBroker.Decimal.Natural
import SignalBroker.Decimal.Shortest

namespace SignalBroker.Decimal

def digitsValue? (cs : List Char) : Option Nat :=
  cs.foldl (fun n c => do return (← n) * 10 + (← digit? c)) (some 0)

def takeSign : List Char → Bool × List Char
  | '-' :: cs => (true, cs)
  | '+' :: cs => (false, cs)
  | cs => (false, cs)

/-- The number that exponent digits make. Once it has reached the limit no more of them count. -/
def exponentDigits? (cs : List Char) : Option Nat :=
  cs.foldl (fun n c => do
    let n ← n
    let d ← digit? c
    return if n < 0x10000 then n * 10 + d else n) (some 0)

def exponent? (cs : List Char) : Option Int := do
  let (down, digits) := takeSign cs
  if digits.isEmpty then none
  let n ← exponentDigits? digits
  return if down then -n else n

def unsignedFloat? (cs : List Char) : Option Float := do
  let isPower (c : Char) := c = 'e' || c = 'E'
  let mantissa := cs.takeWhile fun c => !isPower c
  let power ← match cs.dropWhile fun c => !isPower c with
    | [] => some 0
    | _ :: rest => exponent? rest
  let whole := mantissa.takeWhile (· ≠ '.')
  let fraction := (mantissa.dropWhile (· ≠ '.')).drop 1
  if whole.isEmpty && fraction.isEmpty then none
  let n ← digitsValue? (whole ++ fraction)
  return nearest n (power - fraction.length)

def float? (text : String) : Option Float := do
  let (negative, cs) := takeSign text.toList
  let x ← match String.ofList (cs.map Char.toLower) with
    | "inf" | "infinity" => some (1.0 / 0.0)
    | "nan" => some (0.0 / 0.0)
    | _ => unsignedFloat? cs
  return if negative then -x else x

end SignalBroker.Decimal
