import PocketScript.Decimal.Shortest

/-!
# Numbers as text

Three ways to write a number: the plain text used in concatenation and as a property name, the
displayed text that `print` uses, and the text of a listing. A number literal is read exactly and
then rounded once.
-/

namespace PocketScript.Number

/-- The shortest text of a finite number, with its sign. -/
def shortestText (n : Number) : String :=
  let sign := if n.isNegative then "-" else ""
  if n.isZero then sign ++ "0" else sign ++ (Decimal.shortest n).positional

/-- The text of a number in a concatenation or as a property name. Zero has no sign. -/
def text (n : Number) : String :=
  if n.isInfinite then (if n.isNegative then "-Infinity" else "Infinity")
  else if n.isZero then "0"
  else n.shortestText

/-- A finite number with a fixed count of decimals, a half going to the even neighbour. -/
def fixedText (n : Number) (places : Nat) : String :=
  let scaled := n.mantissa * Nat.pow 10 places
  let units :=
    if 0 ≤ n.exponent then scaled * Nat.pow 2 n.exponent.toNat
    else roundQuotient scaled (Nat.pow 2 (-n.exponent).toNat)
  (if n.isNegative then "-" else "") ++ (Decimal.Scientific.mk units (-places)).positional

/-- What `print` shows: whole numbers without a fraction, all other finite ones with six
decimals. -/
def display (n : Number) : String :=
  if n.isFinite && !n.isIntegral then n.fixedText 6 else n.text

/-- The text of a number constant in a listing. -/
def listed (n : Number) : String :=
  if n.isNaN then "NaN"
  else if n.isInfinite then (if n.isNegative then "-inf" else "inf")
  else n.shortestText

end PocketScript.Number

namespace PocketScript.Decimal

/-- The value of a digit. -/
def digitValue (digit : Char) : Nat := digit.toNat - '0'.toNat

/-- The digits that are read one by one. -/
def shortRun : Nat := 64

/-- The value of a run of decimal digits. A long run is read in two halves, so that the large
products are few. -/
def digitsValue (digits : List Char) : Nat :=
  if digits.length ≤ shortRun then
    digits.foldl (fun value digit => value * 10 + digitValue digit) 0
  else
    let half := digits.length / 2
    digitsValue (digits.take half) * Nat.pow 10 (digits.length - half) +
      digitsValue (digits.drop half)
termination_by digits.length
decreasing_by
  all_goals
    simp only [shortRun, List.length_take, List.length_drop] at *
    omega

/-- An exponent grows no more once it has reached this value. -/
def exponentLimit : Nat := 65536

/-- The value of the digits of an exponent. Those behind the limit say nothing that would matter to
a number of ordinary length, and are passed over. -/
def exponentValue (digits : List Char) : Nat :=
  digits.foldl
    (fun value digit => if value < exponentLimit then value * 10 + digitValue digit else value) 0

/-- The number nearest to `digits * 10 ^ place`. -/
def Scientific.toNumber (decimal : Scientific) : Number :=
  if 0 ≤ decimal.place then
    Number.ofRatio false (decimal.digits * Nat.pow 10 decimal.place.toNat) 1
  else Number.ofRatio false decimal.digits (Nat.pow 10 (-decimal.place).toNat)

/-- Reads a decimal literal: digits, a fraction after a point, an exponent after an `e`. -/
def read (literal : List Char) : Number :=
  let whole := literal.takeWhile Char.isDigit
  let afterWhole := literal.dropWhile Char.isDigit
  let pointed := afterWhole.head? = some '.'
  let fraction := if pointed then afterWhole.tail.takeWhile Char.isDigit else []
  let afterFraction := if pointed then afterWhole.tail.dropWhile Char.isDigit else afterWhole
  let power : Int :=
    match afterFraction.tail with
    | '-' :: digits => -exponentValue digits
    | '+' :: digits => exponentValue digits
    | digits => exponentValue digits
  (Scientific.mk (digitsValue (whole ++ fraction)) (power - fraction.length)).toNumber

end PocketScript.Decimal
