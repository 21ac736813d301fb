/-!
# Shortest decimals

The shortest decimal of a double is the one with the fewest digits among those that round to it,
and of several with that many digits the one nearest to it. It is written without an exponent.
-/

set_option autoImplicit false

namespace ClientRegistry.Decimal

structure Binary where
  significand : Nat
  exponent : Int
  deriving DecidableEq, Repr

/-- The decimals that round to a number, in quarters of the unit of its significand: from `low` to
`high`, the ends included or not. -/
structure Interval where
  low : Nat
  high : Nat
  closed : Bool
  deriving DecidableEq, Repr

/-- Below a power of two the neighbours are half as far away. -/
def Binary.interval (b : Binary) (closeBelow : Bool) : Interval where
  low := 4 * b.significand - (if closeBelow then 1 else 2)
  high := 4 * b.significand + 2
  closed := b.significand % 2 = 0

def commonScale (b : Binary) (place : Int) (quarters digits : Nat) : Nat × Nat :=
  ((quarters * Nat.pow 10 (-place).toNat) <<< (b.exponent - 2).toNat,
    (digits * Nat.pow 10 place.toNat) <<< (2 - b.exponent).toNat)

def Interval.contains (i : Interval) (b : Binary) (place : Int) (digits : Nat) : Bool :=
  let (low, x) := commonScale b place i.low digits
  let (high, y) := commonScale b place i.high digits
  if i.closed then low ≤ x && y ≤ high else low < x && y < high

def Binary.digitsBelow (b : Binary) (place : Int) : Nat :=
  let (number, unit) := commonScale b place (4 * b.significand) 1
  number / unit

/-- Of the two neighbours of the number among the multiples of `10 ^ place`, the nearer one that
rounds to it. -/
def Binary.candidate? (b : Binary) (closeBelow : Bool) (place : Int) : Option Nat :=
  let below := b.digitsBelow place
  let (number, low) := commonScale b place (4 * b.significand) below
  let (_, high) := commonScale b place (4 * b.significand) (below + 1)
  let fitsLow := (b.interval closeBelow).contains b place below
  let fitsHigh := (b.interval closeBelow).contains b place (below + 1)
  if fitsLow && (!fitsHigh || number - low ≤ high - number) then some below
  else if fitsHigh then some (below + 1)
  else none

def Binary.search (b : Binary) (closeBelow : Bool) : Nat → Int → Nat × Int
  | 0, place => (b.digitsBelow place, place)
  | steps + 1, place =>
    match b.candidate? closeBelow place with
    | some digits => (digits, place)
    | none => b.search closeBelow steps (place - 1)

/-- The digits of the shortest decimal and the place of the last one. No double needs more than
17 digits, and none has more than 310 before the point. -/
def Binary.shortest (b : Binary) (closeBelow : Bool) : Nat × Int :=
  let size := (Nat.toDigits 10 (b.digitsBelow 0)).length
  if b.digitsBelow 0 = 0 then b.search closeBelow 345 (-1) else b.search closeBelow 20 size

def positional (digits : Nat) (place : Int) : String :=
  let text := Nat.toDigits 10 digits
  if place ≥ 0 then String.ofList (text ++ List.replicate place.toNat '0')
  else
    let behind := (-place).toNat
    let padded := List.replicate (behind + 1 - text.length) '0' ++ text
    String.ofList (padded.take (padded.length - behind)) ++ "." ++
      String.ofList (padded.drop (padded.length - behind))

def binaryOfBits (bits : Nat) : Binary × Bool :=
  let exponent : Nat := bits >>> 52 % 2048
  let fraction := bits % 1 <<< 52
  if exponent = 0 then (⟨fraction, -1074⟩, false)
  else (⟨1 <<< 52 + fraction, Int.ofNat exponent - 1075⟩, fraction = 0 && exponent != 1)

def finiteText (bits : Nat) : String :=
  if bits = 0 then "0.0"
  else
    let (b, closeBelow) := binaryOfBits bits
    let (digits, place) := b.shortest closeBelow
    if place ≥ 0 then positional digits place ++ ".0" else positional digits place

def floatText (x : Float) : String :=
  if x.isNaN then "NaN"
  else
    let bits := x.toBits.toNat
    let sign := if bits ≥ 1 <<< 63 then "-" else ""
    let size := bits % 1 <<< 63
    sign ++ (if size = 2047 <<< 52 then "inf" else finiteText size)

end ClientRegistry.Decimal
