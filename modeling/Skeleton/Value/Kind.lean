-- The kinds of values that variables are declared with.

namespace Skeleton

inductive Kind where
  | bool
  | integer
  | float
  | string
  | sequence
  | mapping
  deriving DecidableEq, Inhabited

namespace Kind

def name : Kind → String
  | bool => "bool"
  | integer => "integer"
  | float => "float"
  | string => "string"
  | sequence => "sequence"
  | mapping => "mapping"

def all : List Kind := [bool, integer, float, string, sequence, mapping]

def ofName? (name : String) : Option Kind := all.find? fun k => k.name = name

def isNumeric : Kind → Bool
  | integer => true
  | float => true
  | _ => false

def comparable (a b : Kind) : Bool := a == b || (a.isNumeric && b.isNumeric)

-- Whether a declaration of kind `declared` takes a value of kind `given`. Integers are taken
-- for floats, and otherwise the kinds are the same.
def accepts (declared given : Kind) : Bool :=
  declared == given || (declared == float && given == integer)

end Kind

end Skeleton
