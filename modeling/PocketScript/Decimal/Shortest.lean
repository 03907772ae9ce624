import PocketScript.Number

/-!
# Shortest decimal digits

The decimal text of a number is the shortest one that reads back as the same number: of all grids
of one, two, three, … significant digits the first that has a point inside the interval of reals
rounding to the number, and on that grid the point nearest to the number. All comparisons are
between whole numbers.
-/

namespace PocketScript.Decimal

/-- A decimal `digits * 10 ^ place`. -/
structure Scientific where
  digits : Nat
  place : Int
  deriving DecidableEq, Repr

/-- The reals that round to a positive number, over a common denominator: the number itself, how
far the interval reaches below and above it, and whether its ends belong to it. -/
structure Interval where
  value : Nat
  below : Nat
  above : Nat
  denominator : Nat
  closed : Bool
  deriving Repr

/-- The rounding interval of a finite non-zero number's magnitude. The gap below a power of two is
half the gap above it. -/
def Interval.ofNumber (n : Number) : Interval :=
  let power := Nat.pow 2 n.exponent.natAbs
  let below := if n.mantissa = Nat.pow 2 52 ∧ -1074 < n.exponent then 1 else 2
  if 0 ≤ n.exponent then
    ⟨4 * n.mantissa * power, below * power, 2 * power, 4, n.mantissa % 2 = 0⟩
  else ⟨4 * n.mantissa, below, 2, 4 * power, n.mantissa % 2 = 0⟩

/-- A ratio lies in the interval. -/
def Interval.contains (interval : Interval) (numerator denominator : Nat) : Bool :=
  let point := numerator * interval.denominator
  let low := (interval.value - interval.below) * denominator
  let high := (interval.value + interval.above) * denominator
  if interval.closed then low ≤ point && point ≤ high else low < point && point < high

/-- The place of a ratio's leading digit: the largest `p` with `10 ^ p` at most the ratio, searched
upwards through `fuel` candidates. -/
def leadingPlace (numerator denominator : Nat) (place : Int) : Nat → Int
  | 0 => place
  | fuel + 1 =>
      let next := place + 1
      let reached :=
        if 0 ≤ next then denominator * Nat.pow 10 next.toNat ≤ numerator
        else denominator ≤ numerator * Nat.pow 10 (-next).toNat
      if reached then leadingPlace numerator denominator next fuel else place

/-- A place that is at most a ratio's leading place and close to it: the decimal logarithm is at
least three tenths of the binary one, rounded outwards. -/
def placeBelow (numerator denominator : Nat) : Int :=
  let binary := Number.floorLog2 numerator denominator
  if 0 ≤ binary then binary * 30102 / 100000 - 1 else binary * 30104 / 100000 - 1

/-- The points of one decimal grid next to the number, when they lie in its interval; the nearer of
two, and the larger of two equally near. -/
def nearestOnGrid (interval : Interval) (place : Int) : Option Scientific :=
  let up := if 0 ≤ place then Nat.pow 10 place.toNat else 1
  let down := if 0 ≤ place then 1 else Nat.pow 10 (-place).toNat
  let scaled := interval.value * down
  let unit := interval.denominator * up
  let floor := scaled / unit
  let lower := interval.contains (floor * up) down
  let upper := interval.contains ((floor + 1) * up) down
  if lower && (!upper || 2 * (scaled % unit) < unit) then some ⟨floor, place⟩
  else if upper then some ⟨floor + 1, place⟩
  else none

/-- The first grid, from `place` downwards, with a point in the interval. -/
def searchGrids (interval : Interval) (place : Int) : Nat → Scientific
  | 0 => ⟨0, 0⟩
  | fuel + 1 =>
      match nearestOnGrid interval place with
      | some found => found
      | none => searchGrids interval (place - 1) fuel

/-- The shortest decimal of a finite non-zero number's magnitude. The search starts one place above
the leading digit, for a number just below a power of ten; seventeen digits always suffice. -/
def shortest (n : Number) : Scientific :=
  let interval := Interval.ofNumber n
  let place :=
    leadingPlace interval.value interval.denominator
      (placeBelow interval.value interval.denominator) 4
  searchGrids interval (place + 1) 19

/-- The digits of a decimal in positional notation, without an exponent. -/
def Scientific.positional (decimal : Scientific) : String :=
  let digits := Nat.toDigits 10 decimal.digits
  if 0 ≤ decimal.place then
    String.ofList (digits ++ List.replicate decimal.place.toNat '0')
  else
    let places := (-decimal.place).toNat
    let padded := List.replicate (places + 1 - digits.length) '0' ++ digits
    let whole := padded.length - places
    String.ofList (padded.take whole ++ '.' :: padded.drop whole)

end PocketScript.Decimal
