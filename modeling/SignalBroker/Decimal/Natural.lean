namespace SignalBroker.Decimal

inductive NaturalFault where
  | empty
  | invalidDigit
  | tooLarge
  deriving DecidableEq, Repr

def digit? (c : Char) : Option Nat :=
  if '0' ≤ c && c ≤ '9' then some (c.toNat - '0'.toNat) else none

/-- The number that digits make after those already read. The first digit that is none, or that
makes the number too large, decides. -/
def readDigits (largest read : Nat) : List Char → Except NaturalFault Nat
  | [] => .ok read
  | c :: cs =>
    match digit? c with
    | none => .error .invalidDigit
    | some d =>
      if largest < read * 10 + d then .error .tooLarge
      else readDigits largest (read * 10 + d) cs

def natural (largest : Nat) (text : String) : Except NaturalFault Nat :=
  match text.toList with
  | [] => .error .empty
  | ['+'] => .error .invalidDigit
  | '+' :: cs => readDigits largest 0 cs
  | cs => readDigits largest 0 cs

end SignalBroker.Decimal
