import Skeleton.Double.Reading
import Skeleton.Value.Basic

-- What the text of an unquoted scalar means: nothing, a truth value, a number or itself.

namespace Skeleton.Yaml

-- The meaning of a scalar. Integers have up to 128 bits.
inductive Meaning where
  | null
  | bool (b : Bool)
  | integer (n : Int)
  | float (d : Double)
  | text
  deriving DecidableEq

def isNullWord (s : String) : Bool := s == "null" || s == "Null" || s == "NULL" || s == "~"

def truthWord? (s : String) : Option Bool :=
  if s = "true" ∨ s = "True" ∨ s = "TRUE" then some true
  else if s = "false" ∨ s = "False" ∨ s = "FALSE" then some false
  else none

def dropSign : List Char → List Char
  | '-' :: rest => rest
  | '+' :: rest => rest
  | cs => cs

def hasLeadingZero (cs : List Char) : Bool :=
  match dropSign cs with
  | '0' :: d :: rest => (d :: rest).all Text.isDigit
  | _ => false

-- The number of a numeral with a prefix for its base. The sign stands before the prefix.
def prefixed? (negative : Bool) : List Char → Option Int
  | '0' :: mark :: rest =>
    let base? :=
      if mark = 'x' then some 16 else if mark = 'o' then some 8 else if mark = 'b' then some 2
      else none
    base?.bind fun base => (Text.readNat? base rest).map fun n => if negative then -n else n
  | _ => none

def integer? (cs : List Char) : Option Int :=
  match cs with
  | '-' :: rest =>
    (prefixed? true rest).or
      (if hasLeadingZero cs then none else (Text.readNat? 10 rest).map fun n => -(n : Int))
  | '+' :: rest =>
    (prefixed? false rest).or
      (if hasLeadingZero cs then none else (Text.readNat? 10 rest).map Int.ofNat)
  | rest =>
    (prefixed? false rest).or
      (if hasLeadingZero cs then none else (Text.readNat? 10 rest).map Int.ofNat)

def infinityWord (s : String) : Bool := s == ".inf" || s == ".Inf" || s == ".INF"

def nanWord (s : String) : Bool := s == ".nan" || s == ".NaN" || s == ".NAN"

-- The number of a numeral with a fraction or a power of ten, unless it is too large to be finite.
def float? (s : String) : Option Double :=
  let unsigned := if s.toList.head? = some '+' then String.ofList s.toList.tail else s
  let twoSigns := s.toList.head? = some '+' ∧ (dropSign unsigned.toList).length < unsigned.length
  if twoSigns then none
  else if infinityWord unsigned then some (.infinity false)
  else if s.toList.head? = some '-' ∧ infinityWord (String.ofList s.toList.tail) then
    some (.infinity true)
  else if nanWord s then some .nan
  else (Double.ofText? unsigned).filter Double.isFinite

def fitsLong (n : Int) : Bool := -(1 <<< 127 : Nat) ≤ n && n < (1 <<< 128 : Nat)

def fitsWord (n : Int) : Bool := Int64.minValue.toInt ≤ n && n < UInt64.size

def meaning (s : String) : Meaning :=
  if s.isEmpty || isNullWord s then .null
  else
    match truthWord? s with
    | some b => .bool b
    | none =>
      match (integer? s.toList).filter fitsLong with
      | some n => .integer n
      | none =>
        match if hasLeadingZero s.toList then none else float? s with
        | some d => .float d
        | none => .text

-- Numerals of floats: positional from 0.00001 up to 16 digits before the point, whole numbers
-- with `.0`, and words for the numbers that are not finite.
def floatLayout : Double.Layout := ⟨some (-5), some 16, true, false, .even, ".nan", ".inf"⟩

end Skeleton.Yaml
