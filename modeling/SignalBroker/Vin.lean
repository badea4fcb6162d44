import SignalBroker.Random.ChaCha

namespace SignalBroker.Vin

def alphabet : List Char := "ABCDEFGHJKLMNPRSTUVWXYZ0123456789".toList

def weights : List Nat := [8, 7, 6, 5, 4, 3, 2, 10, 0, 9, 8, 7, 6, 5, 4, 3, 2]

def transliterate (c : UInt8) : Nat :=
  let n := c.toNat
  if '0'.toNat ≤ n && n ≤ '9'.toNat then n - '0'.toNat
  else match Char.ofNat n with
    | 'A' | 'J' => 1
    | 'B' | 'K' | 'S' => 2
    | 'C' | 'L' | 'T' => 3
    | 'D' | 'M' | 'U' => 4
    | 'E' | 'N' | 'V' => 5
    | 'F' | 'W' => 6
    | 'G' | 'P' | 'X' => 7
    | 'H' | 'Y' => 8
    | 'R' | 'Z' => 9
    | _ => 0

def weightedSum (bytes : List UInt8) : Nat :=
  (List.zipWith (fun c w => transliterate c * w) bytes weights).foldl (· + ·) 0

def digitOf (remainder : Nat) : Char :=
  if remainder = 10 then 'X' else Char.ofNat ('0'.toNat + remainder)

/-- The check digit of a number, over its first seventeen bytes. -/
def checkDigit (bytes : List UInt8) : Char :=
  digitOf (weightedSum bytes % 11)

def checkPosition : Nat := 8

def byteOf (c : Char) : UInt8 := UInt8.ofNat c.toNat

def withCheckDigit (letters : List Char) : List Char :=
  let cleared := letters.set checkPosition '0'
  cleared.set checkPosition (checkDigit (cleared.map byteOf))

def drawLetters (d : Random.Draws) : Nat → List Char × Random.Draws
  | 0 => ([], d)
  | n + 1 =>
    let (i, d) := d.below alphabet.length
    let (rest, d) := drawLetters d n
    (alphabet.getD i 'A' :: rest, d)

def draw (d : Random.Draws) : String × Random.Draws :=
  let (letters, d) := drawLetters d 17
  (String.ofList (withCheckDigit letters), d)

theorem length_drawLetters (d : Random.Draws) (n : Nat) : (drawLetters d n).1.length = n := by
  induction n generalizing d with
  | zero => rfl
  | succ n ih => simp [drawLetters, ih]

end SignalBroker.Vin
