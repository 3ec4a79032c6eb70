import Skeleton.Double.Basic
import Skeleton.Text.Digits

-- The shortest decimal numeral that denotes a double: of all numerals that round to the double,
-- one with the fewest digits, and of those the nearest.

namespace Skeleton.Double

-- Which way a value half-way between two numerals goes.
inductive Tie where
  | up
  | even
  deriving DecidableEq

def powerOfTen (p : Int) : Nat × Nat :=
  if 0 ≤ p then (Nat.pow 10 p.toNat, 1) else (1, Nat.pow 10 (-p).toNat)

structure Decimal where
  digits : Nat
  point : Int
  deriving DecidableEq

-- The multiple of `10 ^ point` that stands for a finite double other than zero, if one of the two
-- multiples next to it rounds to it. All lengths are in quarters of the double's last place.
def onGrid? (tie : Tie) (d : Double) (point : Int) : Option Decimal :=
  let m := d.significand
  let value := 4 * m
  let low := if d.fraction.val = 0 ∧ 1 < d.exponent.val then value - 1 else value - 2
  let high := value + 2
  let closed := m % 2 == 0
  let (a, b) := powerOfTwo (d.scale - 2)
  let (c, e) := powerOfTen point
  let unit := c * b
  let quarter := a * e
  let below := value * quarter / unit
  let inside (k : Nat) : Bool :=
    if closed then low * quarter ≤ k * unit && k * unit ≤ high * quarter
    else low * quarter < k * unit && k * unit < high * quarter
  let above := below + 1
  let fromBelow := value * quarter - below * unit
  let toAbove := above * unit - value * quarter
  let chosen :=
    if fromBelow < toAbove then below
    else if toAbove < fromBelow then above
    else
      match tie with
      | .up => above
      | .even => if below % 2 = 0 then below else above
  if inside below && inside above then some ⟨chosen, point⟩
  else if inside below then some ⟨below, point⟩
  else if inside above then some ⟨above, point⟩
  else none

def decimalCeiling (d : Double) : Int :=
  ((d.significand.log2 : Int) + d.scale) * 30103 / 100000 + 2

-- The shortest decimal of a finite double other than zero. The grids get finer until one has a
-- point that rounds to the double; seventeen digits always have one.
def shortest (tie : Tie) (d : Double) : Decimal :=
  let grids := (List.range 24).map fun i : Nat => d.decimalCeiling - (i : Int)
  (grids.findSome? (onGrid? tie d)).getD ⟨0, 0⟩

-- How numerals of doubles are laid out. A number whose first digit stands at a power of ten in the
-- positional range is written without an exponent.
structure Layout where
  positionalFrom : Option Int
  positionalBelow : Option Int
  pointZero : Bool
  exponentPlus : Bool
  tie : Tie
  nan : String
  infinity : String

def Layout.plain : Layout := ⟨none, none, false, false, .up, "NaN", "inf"⟩

-- The digits with a point after the first `whole` of them, which may be none or more than all.
def placePoint (digits : List Char) (whole : Int) (pointZero : Bool) : List Char :=
  if whole ≤ 0 then
    '0' :: '.' :: (List.replicate (-whole).toNat '0' ++ digits)
  else if (digits.length : Int) ≤ whole then
    let padded := digits ++ List.replicate (whole.toNat - digits.length) '0'
    if pointZero then padded ++ ['.', '0'] else padded
  else
    digits.take whole.toNat ++ '.' :: digits.drop whole.toNat

def scientific (digits : List Char) (power : Int) (exponentPlus : Bool) : List Char :=
  let fraction := digits.drop 1
  let sign := if 0 ≤ power && exponentPlus then ['+'] else []
  digits.take 1 ++ (if fraction.isEmpty then [] else '.' :: fraction)
    ++ 'e' :: (sign ++ (Text.decimalInt power).toList)

def Layout.decimal (style : Layout) (d : Decimal) : List Char :=
  let digits := Text.natDigits 10 d.digits
  let whole := (digits.length : Int) + d.point
  let positional :=
    style.positionalFrom.all (· ≤ whole - 1) && style.positionalBelow.all (whole - 1 < ·)
  if positional then placePoint digits whole style.pointZero
  else scientific digits (whole - 1) style.exponentPlus

def Layout.write (style : Layout) (d : Double) : String :=
  if d.isNaN then style.nan
  else
    let sign := if d.negative then "-" else ""
    if d.isInfinite then sign ++ style.infinity
    else if d.isZero then sign ++ if style.pointZero then "0.0" else "0"
    else sign ++ String.ofList (style.decimal (d.shortest style.tie))

def text (d : Double) : String := Layout.plain.write d

end Skeleton.Double
