import Skeleton.Double.Basic
import Skeleton.Text.Digits

-- Reading doubles from decimal text.

namespace Skeleton.Double

-- The double nearest to `digits * 10 ^ power`. The outer cases keep the powers small: what they
-- leave out is above every finite double or below half of the least one.
def ofDecimal (negative : Bool) (digits : Nat) (power : Int) : Double :=
  if digits = 0 then zero negative
  else if 400 < power then infinity negative
  else if power + (digits.log2 / 3 : Nat) + 1 < -400 then zero negative
  else if 0 ≤ power then ofQuotient negative (digits * Nat.pow 10 power.toNat) 1
  else ofQuotient negative digits (Nat.pow 10 (-power).toNat)

def readPower? : List Char → Option Int
  | [] => some 0
  | c :: rest => if c = 'e' ∨ c = 'E' then Text.readInt? 10 rest else none

-- Digits with an optional point among, before or after them, and an optional power of ten.
def readUnsigned? (negative : Bool) (cs : List Char) : Option Double :=
  let whole := cs.takeWhile Text.isDigit
  let rest := cs.dropWhile Text.isDigit
  let (fraction, rest) :=
    match rest with
    | '.' :: rest => (rest.takeWhile Text.isDigit, rest.dropWhile Text.isDigit)
    | rest => ([], rest)
  if whole.isEmpty && fraction.isEmpty then none
  else do
    let power ← readPower? rest
    let digits ← Text.readDigits? 10 0 (whole ++ fraction)
    some (ofDecimal negative digits (power - fraction.length))

def readWord? (negative : Bool) (cs : List Char) : Option Double :=
  let word := String.ofList (cs.map Char.toLower)
  if word = "inf" ∨ word = "infinity" then some (infinity negative)
  else if word = "nan" then some { nan with negative }
  else none

def ofText? (s : String) : Option Double :=
  let read (negative : Bool) (cs : List Char) : Option Double :=
    (readWord? negative cs).or (readUnsigned? negative cs)
  match s.toList with
  | '-' :: cs => read true cs
  | '+' :: cs => read false cs
  | cs => read false cs

end Skeleton.Double
