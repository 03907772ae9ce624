/-!
# Numbers

A number is a binary64 value, held as its 64 bits so that every bit pattern survives being stored
in an image. A finite number is read as a whole mantissa times a power of two, and comparing,
truncating and rounding are exact on that reading; the four basic operations are the machine's.
-/

namespace PocketScript

/-- A binary64 value, by its bits. -/
structure Number where
  bits : UInt64
  deriving DecidableEq, Hashable, Repr

namespace Number

instance : Inhabited Number := ⟨⟨0⟩⟩

/-- The machine number with these bits. -/
def toFloat (n : Number) : Float := Float.ofBits n.bits

/-- The bits of a machine number. -/
def ofFloat (value : Float) : Number := ⟨value.toBits⟩

/-- The sign bit: set for negative numbers and for negative zero. -/
def isNegative (n : Number) : Bool := n.bits.toNat ≥ Nat.pow 2 63

/-- The bits below the sign bit; on numbers that are no NaN they grow with the magnitude. -/
def magnitude (n : Number) : Nat := n.bits.toNat % Nat.pow 2 63

/-- The magnitude bits of infinity; those of a NaN are larger. -/
def infinityBits : Nat := 0x7FF * Nat.pow 2 52

def isNaN (n : Number) : Bool := n.magnitude > infinityBits

def isInfinite (n : Number) : Bool := n.magnitude = infinityBits

def isFinite (n : Number) : Bool := n.magnitude < infinityBits

/-- Either zero. -/
def isZero (n : Number) : Bool := n.magnitude = 0

/-- The number with the given sign and magnitude bits. -/
def ofMagnitude (negative : Bool) (magnitude : Nat) : Number :=
  ⟨UInt64.ofNat (magnitude + if negative then Nat.pow 2 63 else 0)⟩

def zero : Number := ⟨0⟩

def infinity (negative : Bool) : Number := ofMagnitude negative infinityBits

/-- The NaN that an invalid operation gives. -/
def nan : Number := ofMagnitude false (infinityBits + Nat.pow 2 51)

/-- The whole factor of a finite number's magnitude. -/
def mantissa (n : Number) : Nat :=
  if n.magnitude < Nat.pow 2 52 then n.magnitude else Nat.pow 2 52 + n.magnitude % Nat.pow 2 52

/-- The power of two that the mantissa is scaled by. -/
def exponent (n : Number) : Int :=
  if n.magnitude < Nat.pow 2 52 then -1074 else (n.magnitude / Nat.pow 2 52 : Nat) - 1075

/-- The quotient rounded to the nearest whole number, a half to the even neighbour. -/
def roundQuotient (numerator denominator : Nat) : Nat :=
  let quotient := numerator / denominator
  let twice := 2 * (numerator % denominator)
  if twice < denominator then quotient
  else if denominator < twice then quotient + 1
  else quotient + quotient % 2

/-- The exponent of the largest power of two that is at most a positive ratio. -/
def floorLog2 (numerator denominator : Nat) : Int :=
  let guess : Int := (numerator.log2 : Int) - denominator.log2
  let reached :=
    if 0 ≤ guess then denominator * Nat.pow 2 guess.toNat ≤ numerator
    else denominator ≤ numerator * Nat.pow 2 (-guess).toNat
  if reached then guess else guess - 1

/-- The number nearest to a ratio, a half going to the even mantissa; ratios beyond the largest
number round to infinity. -/
def ofRatio (negative : Bool) (numerator denominator : Nat) : Number :=
  if numerator = 0 then ofMagnitude negative 0
  else
    let scale := max (floorLog2 numerator denominator - 52) (-1074)
    let rounded :=
      if 0 ≤ scale then roundQuotient numerator (denominator * Nat.pow 2 scale.toNat)
      else roundQuotient (numerator * Nat.pow 2 (-scale).toNat) denominator
    ofMagnitude negative (min ((scale + 1074).toNat * Nat.pow 2 52 + rounded) infinityBits)

/-- The number nearest to `mantissa * 2 ^ exponent`. -/
def ofScaled (negative : Bool) (mantissa : Nat) (exponent : Int) : Number :=
  if 0 ≤ exponent then ofRatio negative (mantissa * Nat.pow 2 exponent.toNat) 1
  else ofRatio negative mantissa (Nat.pow 2 (-exponent).toNat)

/-- The number nearest to a whole number; zero is positive. -/
def ofInt (value : Int) : Number := ofRatio (value < 0) value.natAbs 1

def ofNat (value : Nat) : Number := ofRatio false value 1

/-- A finite number's magnitude without its fractional part. -/
def wholePart (n : Number) : Nat :=
  if 0 ≤ n.exponent then n.mantissa * Nat.pow 2 n.exponent.toNat
  else n.mantissa / Nat.pow 2 (-n.exponent).toNat

/-- A finite number without its fractional part, as a whole number. -/
def truncated (n : Number) : Int :=
  if n.isNegative then -n.wholePart else n.wholePart

/-- The number is finite and has no fractional part. -/
def isIntegral (n : Number) : Bool :=
  n.isFinite && (0 ≤ n.exponent || n.mantissa % Nat.pow 2 (-n.exponent).toNat = 0)

/-- The number's place on the line; both zeros share one place. -/
def rank (n : Number) : Int :=
  if n.isNegative then -n.magnitude else n.magnitude

/-- How two numbers stand to each other; a NaN stands in no order. -/
def order? (left right : Number) : Option Ordering :=
  if left.isNaN || right.isNaN then none else some (compare left.rank right.rank)

/-- The numbers are equal as values: zeros are equal, a NaN equals nothing. -/
def equals (left right : Number) : Bool := left.order? right = some .eq

/-- The number truncated and reduced modulo 2^32 into the signed range; zero when it is not
finite. -/
def toInt32 (n : Number) : Int32 :=
  if n.isFinite then Int32.ofInt n.truncated else 0

def ofInt32 (value : Int32) : Number := ofInt value.toInt

/-- The number truncated into an unsigned 32-bit range, values outside going to its nearest end. -/
def toUInt32Clamped (n : Number) : UInt32 :=
  if n.isNaN || n.isNegative then 0
  else if n.isInfinite then UInt32.ofNat (Nat.pow 2 32 - 1)
  else UInt32.ofNat (min n.wholePart (Nat.pow 2 32 - 1))

def negate (n : Number) : Number := ⟨n.bits ^^^ 0x8000000000000000⟩

def add (left right : Number) : Number := ofFloat (left.toFloat + right.toFloat)

def sub (left right : Number) : Number := ofFloat (left.toFloat - right.toFloat)

def mul (left right : Number) : Number := ofFloat (left.toFloat * right.toFloat)

def div (left right : Number) : Number := ofFloat (left.toFloat / right.toFloat)

/-- The remainder of a division truncated towards zero: exact, with the sign of the dividend. -/
def remainder (left right : Number) : Number :=
  if left.isNaN || right.isNaN || left.isInfinite || right.isZero then nan
  else if right.isInfinite then left
  else
    let shared := min left.exponent right.exponent
    let dividend := left.mantissa * Nat.pow 2 (left.exponent - shared).toNat
    let divisor := right.mantissa * Nat.pow 2 (right.exponent - shared).toNat
    ofScaled left.isNegative (dividend % divisor) shared

end Number

end PocketScript
