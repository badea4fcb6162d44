namespace SignalBroker

/-- A double that is a number, neither an infinity nor NaN. -/
structure Double where
  toFloat : Float
  isFinite : toFloat.isFinite = true
  deriving DecidableEq

namespace Double

instance : BEq Double := ⟨fun x y => x.toFloat == y.toFloat⟩

def ofFloat? (x : Float) : Option Double :=
  if h : x.isFinite = true then some ⟨x, h⟩ else none

def isNegative (x : Float) : Bool :=
  x.toBits.toNat / 0x8000000000000000 = 1

def exponentField (x : Float) : Nat :=
  x.toBits.toNat / 0x10000000000000 % 0x800

def fractionField (x : Float) : Nat :=
  x.toBits.toNat % 0x10000000000000

def significand (x : Float) : Nat :=
  if exponentField x = 0 then fractionField x else fractionField x + 0x10000000000000

def exponent (x : Float) : Int :=
  (max (exponentField x) 1 : Nat) - 1075

/-- Whether the double is the lowest of its binade, so that the gap below it is half the gap above. -/
def isBinadeStart (x : Float) : Bool :=
  fractionField x = 0 && 1 < exponentField x

def toRat (x : Float) : Rat :=
  let m : Int := if isNegative x then -(significand x : Int) else significand x
  let q := exponent x
  if 0 ≤ q then (m * (Nat.pow 2 q.toNat : Nat) : Int) else mkRat m (Nat.pow 2 (-q).toNat)

/-- The nearest whole number to `m / 2 ^ k`, a half going up. -/
def roundedQuotient (m k : Nat) : Nat :=
  (2 * m + Nat.pow 2 k) / Nat.pow 2 (k + 1)

/-- The nearest whole number, a half going away from zero. A double without fraction bits, an
infinity and a NaN stay as they are. -/
def roundHalfAway (x : Float) : Float :=
  if !x.isFinite || 0 ≤ exponent x then x
  else
    let n := (UInt64.ofNat (roundedQuotient (significand x) (-(exponent x)).toNat)).toFloat
    if isNegative x then -n else n

theorem significand_lt (x : Float) : significand x < 0x20000000000000 := by
  have : fractionField x < 0x10000000000000 := Nat.mod_lt _ (by decide)
  unfold significand
  split <;> omega

end Double

end SignalBroker
