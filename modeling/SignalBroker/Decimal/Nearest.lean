namespace SignalBroker.Decimal

/-- The whole number nearest to `num / den`, a half going to the even one. -/
def roundEven (num den : Nat) : Nat :=
  let below := num / den
  let rest := num % den
  if 2 * rest < den then below
  else if den < 2 * rest then below + 1
  else below + below % 2

/-- The exponent of a positive fraction: `2 ^ e ≤ num / den < 2 ^ (e + 1)`. -/
def binaryExponent (num den : Nat) : Int :=
  let e : Int := (Nat.log2 num : Int) - Nat.log2 den
  let isBelow :=
    if 0 ≤ e then num < den * Nat.pow 2 e.toNat else num * Nat.pow 2 (-e).toNat < den
  if isBelow then e - 1 else e

def gapExponent (num den : Nat) : Int :=
  max (binaryExponent num den - 52) (-1074)

/-- The double nearest to a fraction that is not negative. A significand that is rounded up to the
next power of two carries into the exponent field, and above all doubles comes infinity. -/
def nearestFraction (num den : Nat) : Float :=
  if num = 0 then 0
  else
    let q := gapExponent num den
    let m :=
      if 0 ≤ q then roundEven num (den * Nat.pow 2 q.toNat)
      else roundEven (num * Nat.pow 2 (-q).toNat) den
    let bits := (q + 1074).toNat * 0x10000000000000 + m
    Float.ofBits (UInt64.ofNat (min bits 0x7ff0000000000000))

end SignalBroker.Decimal
