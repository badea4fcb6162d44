/-!
Random words from a stream cipher: the ChaCha block function with twelve rounds, keyed from a seed of
64 bits. Word `n` of the stream is word `n % 16` of block `n / 16`.
-/

namespace SignalBroker.Random

def sigma : List UInt32 := [0x61707865, 0x3320646e, 0x79622d32, 0x6b206574]

abbrev Key := List UInt32

def rotateLeft (x : UInt32) (n : UInt32) : UInt32 :=
  (x <<< n) ||| (x >>> (32 - n))

def rotateRight (x : UInt32) (n : UInt32) : UInt32 :=
  if n = 0 then x else (x >>> n) ||| (x <<< (32 - n))

def spread (s : UInt64) : UInt64 :=
  s * 6364136223846793005 + 11634580027462260723

def spreadWord (s : UInt64) : UInt32 :=
  rotateRight (((s >>> 18) ^^^ s) >>> 27).toUInt32 (s >>> 59).toUInt32

def keyWords (s : UInt64) : Nat → List UInt32
  | 0 => []
  | n + 1 =>
    let s := spread s
    spreadWord s :: keyWords s n

def keyOfSeed (seed : UInt64) : Key := keyWords seed 8

def quarterRound (s : Array UInt32) (a b c d : Nat) : Array UInt32 :=
  let w (i : Nat) := s.getD i 0
  let xa := w a + w b
  let xd := rotateLeft (w d ^^^ xa) 16
  let xc := w c + xd
  let xb := rotateLeft (w b ^^^ xc) 12
  let xa := xa + xb
  let xd := rotateLeft (xd ^^^ xa) 8
  let xc := xc + xd
  let xb := rotateLeft (xb ^^^ xc) 7
  (((s.setIfInBounds a xa).setIfInBounds b xb).setIfInBounds c xc).setIfInBounds d xd

def doubleRound (s : Array UInt32) : Array UInt32 :=
  let s := quarterRound s 0 4 8 12
  let s := quarterRound s 1 5 9 13
  let s := quarterRound s 2 6 10 14
  let s := quarterRound s 3 7 11 15
  let s := quarterRound s 0 5 10 15
  let s := quarterRound s 1 6 11 12
  let s := quarterRound s 2 7 8 13
  quarterRound s 3 4 9 14

/-- The sixteen words of a block. The counter has 64 bits and the stream number is zero. -/
def block (key : Key) (counter : UInt64) : Array UInt32 :=
  let start := (sigma ++ key ++ [counter.toUInt32, (counter >>> 32).toUInt32, 0, 0]).toArray
  let mixed := (List.range 6).foldl (fun s _ => doubleRound s) start
  Array.zipWith (· + ·) mixed start

structure Draws where
  key : Key
  taken : Nat

namespace Draws

def ofSeed (seed : UInt64) : Draws := ⟨keyOfSeed seed, 0⟩

def next (d : Draws) : UInt64 × Draws :=
  let words := block d.key (UInt64.ofNat (d.taken / 16))
  let low := words.getD (d.taken % 16) 0
  let high := words.getD (d.taken % 16 + 1) 0
  (low.toUInt64 ||| (high.toUInt64 <<< 32), { d with taken := d.taken + 2 })

/-- A number below `bound`, by taking the high half of a product and refusing draws whose low half
lies in the last incomplete stretch. After a thousand refusals the draw is taken as it is. -/
def belowWithin (bound : Nat) (d : Draws) : Nat → Nat × Draws
  | 0 =>
    let (v, d) := d.next
    (v.toNat * bound / 0x10000000000000000, d)
  | fuel + 1 =>
    let (v, d) := d.next
    let product := v.toNat * bound
    let zone := bound * Nat.pow 2 (63 - bound.log2) - 1
    if product % 0x10000000000000000 ≤ zone then (product / 0x10000000000000000, d) else belowWithin bound d fuel

def below (bound : Nat) (d : Draws) : Nat × Draws :=
  belowWithin bound d 1000

def coin (d : Draws) : Bool × Draws :=
  let (v, d) := d.next
  (v < 0x8000000000000000, d)

theorem belowWithin_lt {bound : Nat} (h : 0 < bound) (d : Draws) (fuel : Nat) :
    (belowWithin bound d fuel).1 < bound := by
  have key (v : UInt64) : v.toNat * bound / 0x10000000000000000 < bound := by
    have hv := v.toNat_lt
    exact Nat.div_lt_of_lt_mul (Nat.mul_lt_mul_of_pos_right hv h)
  induction fuel generalizing d with
  | zero => exact key _
  | succ fuel ih =>
    unfold belowWithin
    dsimp only
    split
    · exact key _
    · exact ih _

theorem below_lt {bound : Nat} (h : 0 < bound) (d : Draws) : (below bound d).1 < bound :=
  belowWithin_lt h d 1000

end Draws

def maxUnit : Float := 1.0 - 1.0 / 4503599627370496.0

def justBelow (x : Float) : Float := Float.ofBits (x.toBits - 1)

/-- The width by which unit draws are stretched, lowered until the largest draw stays within the
upper end. The steps are bounded; in practice one or two are enough. -/
def widthWithin (low high width : Float) : Nat → Float
  | 0 => width
  | fuel + 1 =>
    if high < width * maxUnit + low then widthWithin low high (justBelow width) fuel else width

/-- A number from `low` to `high`: the upper 52 bits of a draw as a fraction of the unit interval,
stretched and moved. -/
def Draws.between (low high : Float) (d : Draws) : Float × Draws :=
  let width := widthWithin low high ((high - low) / maxUnit) 1000
  let (v, d) := d.next
  let unit := (v >>> 12).toFloat / 4503599627370496.0
  (unit * width + low, d)

end SignalBroker.Random
