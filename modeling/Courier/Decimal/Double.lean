/-!
# Binary floating-point numbers

A double-precision number is held as its 64 bits, so that equality is decidable and NaN is equal to
itself.  A finite number is read as a sign, a whole mantissa and a power of two.
-/

namespace Courier.Decimal

/-- A double-precision number by its bits. -/
structure Double where
  bits : UInt64
  deriving DecidableEq, Repr

namespace Double

def ofFloat (x : Float) : Double := ⟨x.toBits⟩

def toFloat (x : Double) : Float := Float.ofBits x.bits

def ofInt (n : Int) : Double := ofFloat (Float.ofInt n)

/-- The number one. -/
def one : Double := ⟨0x3FF0000000000000⟩

def isNegative (x : Double) : Bool := x.bits ≥ 0x8000000000000000

/-- The eleven bits of the exponent. -/
def exponentBits (x : Double) : Nat := (x.bits >>> 52).toNat % 2048

/-- The fifty-two bits of the fraction. -/
def fractionBits (x : Double) : Nat := x.bits.toNat % 4503599627370496

def isNaN (x : Double) : Bool := x.exponentBits == 2047 && x.fractionBits != 0

/-- Zero has two signs. -/
def isZero (x : Double) : Bool := x.exponentBits == 0 && x.fractionBits == 0

def isInfinite (x : Double) : Bool := x.exponentBits == 2047 && x.fractionBits == 0

/-- The magnitude of a finite number is its mantissa times two to `scale`, less 1074. -/
def mantissa (x : Double) : Nat :=
  if x.exponentBits = 0 then x.fractionBits else x.fractionBits + 4503599627370496

/-- The power of two of a finite number, counted from the least one. -/
def scale (x : Double) : Nat := x.exponentBits - 1

/-- The magnitude of a finite number as a fraction. -/
def magnitude (x : Double) : Nat × Nat := (x.mantissa * Nat.pow 2 x.scale, Nat.pow 2 1074)

end Double

end Courier.Decimal
