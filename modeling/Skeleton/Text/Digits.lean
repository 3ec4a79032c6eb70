-- Numerals: integers as digits in a base, and back.

namespace Skeleton.Text

-- The value of a character as a digit of a base up to 36; letters count in either case.
def digitValue? (base : Nat) (c : Char) : Option Nat :=
  let n := c.toNat
  let value :=
    if 0x30 ≤ n && n ≤ 0x39 then some (n - 0x30)
    else if 0x41 ≤ n && n ≤ 0x5A then some (n - 0x41 + 10)
    else if 0x61 ≤ n && n ≤ 0x7A then some (n - 0x61 + 10)
    else none
  value.filter (· < base)

def isDigit (c : Char) : Bool := '0' ≤ c && c ≤ '9'

def isLetter (c : Char) : Bool := ('a' ≤ c && c ≤ 'z') || ('A' ≤ c && c ≤ 'Z')

def isLetterOrDigit (c : Char) : Bool := isLetter c || isDigit c

def isUpperLetter (c : Char) : Bool := 'A' ≤ c && c ≤ 'Z'

def isLowerLetter (c : Char) : Bool := 'a' ≤ c && c ≤ 'z'

-- The number that digits denote when they are appended to the digits of `acc`.
def readDigits? (base : Nat) (acc : Nat) : List Char → Option Nat
  | [] => some acc
  | c :: rest => (digitValue? base c).bind fun v => readDigits? base (acc * base + v) rest

def readNat? (base : Nat) (cs : List Char) : Option Nat :=
  if cs.isEmpty then none else readDigits? base 0 cs

def readInt? (base : Nat) : List Char → Option Int
  | '-' :: rest => (readNat? base rest).map fun n => -(n : Int)
  | '+' :: rest => (readNat? base rest).map Int.ofNat
  | cs => (readNat? base cs).map Int.ofNat

def word? (n : Int) : Option Int64 :=
  if Int64.minValue.toInt ≤ n ∧ n ≤ Int64.maxValue.toInt then some (Int64.ofInt n) else none

-- The digits of a number, most significant first, before the digits in `acc`.
-- `fuel` bounds their count.
def digitsInto (base : Nat) : Nat → Nat → List Char → List Char
  | 0, _, acc => acc
  | fuel + 1, n, acc =>
    let acc := Nat.digitChar (n % base) :: acc
    if n / base = 0 then acc else digitsInto base fuel (n / base) acc

-- The numeral of a number in a base from 2 to 16.
def natDigits (base n : Nat) : List Char := digitsInto base (n.log2 + 1) n []

def decimal (n : Nat) : String := String.ofList (natDigits 10 n)

def decimalInt (n : Int) : String :=
  if n < 0 then "-" ++ decimal n.natAbs else decimal n.natAbs

def octal (n : Nat) : String := String.ofList (natDigits 8 n)

def padLeft (width : Nat) (fill : Char) (s : String) : String :=
  String.ofList (List.replicate (width - s.length) fill) ++ s

def padRight (width : Nat) (s : String) : String :=
  s ++ String.ofList (List.replicate (width - s.length) ' ')

end Skeleton.Text
