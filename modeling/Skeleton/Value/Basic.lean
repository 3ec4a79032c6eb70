import Skeleton.Dictionary
import Skeleton.Double.Shortest
import Skeleton.Value.Kind

-- The values of variables.

namespace Skeleton

-- The fields of a mapping stand in the order of their names, each name once.
inductive Value where
  | bool (b : Bool)
  | integer (n : Int64)
  | float (d : Double)
  | string (s : String)
  | sequence (items : List Value)
  | mapping (fields : List (String × Value))
  deriving Inhabited

namespace Value

def kind : Value → Kind
  | bool _ => .bool
  | integer _ => .integer
  | float _ => .float
  | string _ => .string
  | sequence _ => .sequence
  | mapping _ => .mapping

def bool? : Value → Option Bool
  | bool b => some b
  | _ => none

def string? : Value → Option String
  | string s => some s
  | _ => none

def field? (v : Value) (name : String) : Option Value :=
  match v with
  | mapping fields => lookupEntry name fields
  | _ => none

-- The mapping of a list of pairs; of two pairs with one name the later counts.
def ofFields (pairs : List (String × Value)) : Value :=
  mapping (pairs.foldl (fun fields (name, v) => insertEntry name v fields) [])

-- The text that stands for a scalar: a word for a truth value, plain decimals for a number and
-- a string itself. Sequences and mappings have no text.
def text? : Value → Option String
  | bool b => some (if b then "true" else "false")
  | integer n => some (Text.decimalInt n.toInt)
  | float d => some d.text
  | string s => some s
  | sequence _ => none
  | mapping _ => none

mutual

def same : Value → Value → Bool
  | bool a, bool b => a == b
  | integer a, integer b => a == b
  | float a, float b => a.sameNumber b
  | string a, string b => a == b
  | sequence xs, sequence ys => sameItems xs ys
  | mapping xs, mapping ys => sameFields xs ys
  | _, _ => false

def sameItems : List Value → List Value → Bool
  | [], [] => true
  | x :: xs, y :: ys => same x y && sameItems xs ys
  | _, _ => false

def sameFields : List (String × Value) → List (String × Value) → Bool
  | [], [] => true
  | (k, x) :: xs, (l, y) :: ys => k == l && same x y && sameFields xs ys
  | _, _ => false

end

mutual

-- Equality as conditions have it: an integer equals a float when the double nearest to the
-- integer is that float, and sequences and mappings are equal item by item.
def looselySame : Value → Value → Bool
  | integer a, float b => (Double.ofInt a.toInt).sameNumber b
  | float a, integer b => (Double.ofInt b.toInt).sameNumber a
  | sequence xs, sequence ys => looselySameItems xs ys
  | mapping xs, mapping ys => looselySameFields xs ys
  | a, b => same a b

def looselySameItems : List Value → List Value → Bool
  | [], [] => true
  | x :: xs, y :: ys => looselySame x y && looselySameItems xs ys
  | _, _ => false

def looselySameFields : List (String × Value) → List (String × Value) → Bool
  | [], [] => true
  | (k, x) :: xs, (l, y) :: ys => k == l && looselySame x y && looselySameFields xs ys
  | _, _ => false

end

end Value

end Skeleton
