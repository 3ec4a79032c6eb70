-- Double-precision numbers by their fields, with exact arithmetic on integers in place of
-- machine operations: which number a double is, and the double nearest to a quotient.

namespace Skeleton

-- The weight of the bit before the fraction, which is one unless the exponent is the smallest.
abbrev leadingBit : Nat := 0x10000000000000

-- A sign, a biased exponent and a fraction. The largest exponent holds the infinities
-- (fraction 0) and the non-numbers, the smallest the numbers with no leading one bit.
structure Double where
  negative : Bool
  exponent : Fin 2048
  fraction : Fin leadingBit
  deriving DecidableEq, Inhabited

namespace Double

def zero (negative : Bool) : Double := ⟨negative, 0, 0⟩

def infinity (negative : Bool) : Double := ⟨negative, 2047, 0⟩

def nan : Double := ⟨false, 2047, ⟨leadingBit / 2, by decide⟩⟩

def isNaN (d : Double) : Bool := d.exponent == 2047 && d.fraction != 0

def isInfinite (d : Double) : Bool := d.exponent == 2047 && d.fraction == 0

def isFinite (d : Double) : Bool := d.exponent != 2047

def isZero (d : Double) : Bool := d.exponent == 0 && d.fraction == 0

def significand (d : Double) : Nat :=
  if d.exponent = 0 then d.fraction.val else leadingBit + d.fraction.val

def scale (d : Double) : Int :=
  if d.exponent = 0 then -1074 else (d.exponent.val : Int) - 1075

-- Whether two doubles are the same number: a non-number is none, and the zeros are one.
def sameNumber (a b : Double) : Bool :=
  !a.isNaN && !b.isNaN && (a == b || (a.isZero && b.isZero))

-- The quotient of two integers to the nearest integer, a half to the even neighbour.
def roundDiv (num den : Nat) : Nat :=
  let q := num / den
  let twice := 2 * (num % den)
  if den < twice || (twice == den && q % 2 == 1) then q + 1 else q

-- The double with a significand below `2 ^ 53` at a power of two that is at least `-1074`
-- and is `-1074` unless the significand has 53 bits. Too large a number is an infinity.
def pack (negative : Bool) (m : Nat) (e : Int) : Double :=
  if m < leadingBit then
    ⟨negative, 0, Fin.ofNat _ m⟩
  else if e + 1075 < 2047 then
    ⟨negative, Fin.ofNat _ (e + 1075).toNat, Fin.ofNat _ (m - leadingBit)⟩
  else
    infinity negative

def powerOfTwo (e : Int) : Nat × Nat :=
  if 0 ≤ e then (1 <<< e.toNat, 1) else (1, 1 <<< (-e).toNat)

-- The power of two at which a positive quotient has a significand of 53 bits,
-- or `-1074` if that is larger.
def scaleOf (num den : Nat) : Int :=
  let estimate : Int := (num.log2 : Int) - (den.log2 : Int)
  let (a, b) := powerOfTwo estimate
  let floorLog : Int := if den * a ≤ num * b then estimate else estimate - 1
  max (-1074) (floorLog - 52)

def ofQuotient (negative : Bool) (num den : Nat) : Double :=
  if num = 0 then zero negative
  else
    let e := scaleOf num den
    let (a, b) := powerOfTwo e
    let m := roundDiv (num * b) (den * a)
    if m = 2 * leadingBit then pack negative leadingBit (e + 1) else pack negative m e

def ofInt (n : Int) : Double := ofQuotient (n < 0) n.natAbs 1

end Double

end Skeleton
