import SignalBroker.Decimal.Double
import SignalBroker.Decimal.Nearest

namespace SignalBroker.Decimal

structure Scaled where
  digits : Nat
  exponent : Int
  deriving DecidableEq, Repr

def digitChars (n : Nat) : List Char := Nat.toDigits 10 n

/-- The exponent of the first digit: `10 ^ leading ≤ num / den < 10 ^ (leading + 1)`. -/
def leading (num den : Nat) : Int :=
  if den ≤ num then ((digitChars (num / den)).length - 1 : Nat)
  else -((digitChars ((den + num - 1) / num - 1)).length : Int)

/-- A positive rational `num / den` together with the whole numbers `low` and `high` over the same
denominator that bound the numbers rounding to it; `closed` tells whether the bounds round to it. -/
structure Target where
  num : Nat
  den : Nat
  low : Nat
  high : Nat
  closed : Bool

/-- The target of a positive finite double: its neighbours lie one unit of the significand away,
half a unit below at the start of a binade, and an even significand also owns its bounds. -/
def Target.ofFloat (x : Float) : Target :=
  let m := Double.significand x
  let q := Double.exponent x
  let up := if 0 ≤ q then Nat.pow 2 q.toNat else 1
  { num := 4 * m * up
    den := 4 * (if 0 ≤ q then 1 else Nat.pow 2 (-q).toNat)
    low := (4 * m - if Double.isBinadeStart x then 1 else 2) * up
    high := (4 * m + 2) * up
    closed := m % 2 = 0 }

def Target.holds (t : Target) (n : Nat) (e : Int) : Bool :=
  let a := if 0 ≤ e then n * Nat.pow 10 e.toNat * t.den else n * t.den
  let scale := if 0 ≤ e then 1 else Nat.pow 10 (-e).toNat
  if t.closed then t.low * scale ≤ a && a ≤ t.high * scale
  else t.low * scale < a && a < t.high * scale

/-- The best decimal on the grid of step `10 ^ e`, if one lies in the interval: of the two grid
points around the number the nearer one, the even one when both are equally near. -/
def Target.onGrid (t : Target) (e : Int) : Option Nat :=
  let num := if 0 ≤ e then t.num else t.num * Nat.pow 10 (-e).toNat
  let den := if 0 ≤ e then t.den * Nat.pow 10 e.toNat else t.den
  let below := num / den
  let rest := num % den
  match t.holds below e, t.holds (below + 1) e with
  | true, true =>
    if 2 * rest < den then some below
    else if den < 2 * rest then some (below + 1)
    else some (if below % 2 = 0 then below else below + 1)
  | true, false => some below
  | false, true => some (below + 1)
  | false, false => none

def Target.search (t : Target) (e : Int) : Nat → Scaled
  | 0 => ⟨t.num / t.den, 0⟩
  | fuel + 1 =>
    match t.onGrid e with
    | some n => ⟨n, e⟩
    | none => t.search (e - 1) fuel

/-- The shortest decimal of a positive finite double. Seventeen digits are always enough. -/
def shortest (x : Float) : Scaled :=
  let t := Target.ofFloat x
  t.search (leading t.num t.den) 18

def Scaled.scientific (d : Scaled) : List Char × Int :=
  let ds := digitChars d.digits
  ((ds.reverse.dropWhile (· == '0')).reverse, d.exponent + (ds.length - 1 : Nat))

def positional (digits : List Char) (first : Int) : List Char :=
  if first < 0 then
    ['0', '.'] ++ List.replicate (-first - 1).toNat '0' ++ digits
  else
    let whole := first.toNat + 1
    if digits.length ≤ whole then
      digits ++ List.replicate (whole - digits.length) '0' ++ ['.', '0']
    else digits.take whole ++ ['.'] ++ digits.drop whole

def scientificText (digits : List Char) (first : Int) : List Char :=
  let mantissa := match digits with
    | [] => []
    | [d] => [d]
    | d :: ds => d :: '.' :: ds
  let sign := if first < 0 then '-' else '+'
  mantissa ++ ['e', sign] ++ digitChars first.natAbs

structure FloatFormat where
  lowest : Int
  highest : Int

def FloatFormat.json : FloatFormat := ⟨-5, 15⟩

def floatChars (style : FloatFormat) (x : Float) : List Char :=
  let sign := if Double.isNegative x then ['-'] else []
  if Double.significand x = 0 then sign ++ ['0', '.', '0']
  else
    let (digits, first) := (shortest x).scientific
    if style.lowest ≤ first && first ≤ style.highest then sign ++ positional digits first
    else sign ++ scientificText digits first

/-- The double nearest to `digits * 10 ^ exponent`. A number of magnitude `10 ^ 400` or `10 ^ -400`
needs no more than its magnitude. -/
def nearest (digits : Nat) (exponent : Int) : Float :=
  let magnitude : Int := (digitChars digits).length + exponent
  if magnitude ≤ -400 then 0
  else if digits ≠ 0 && 400 ≤ magnitude then Float.ofBits 0x7ff0000000000000
  else if 0 ≤ exponent then nearestFraction (digits * Nat.pow 10 exponent.toNat) 1
  else nearestFraction digits (Nat.pow 10 (-exponent).toNat)

end SignalBroker.Decimal
