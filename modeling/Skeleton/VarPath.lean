import Skeleton.Text.Digits
import Skeleton.Text.Split

-- References to variables: a name, and the fields to follow from its value.

namespace Skeleton

-- Whether characters form an identifier: a letter or underscore, then letters, digits and
-- underscores, all of ASCII.
def isIdentifierChars : List Char → Bool
  | [] => false
  | c :: rest =>
    (Text.isLetter c || c == '_') && rest.all fun d => Text.isLetterOrDigit d || d == '_'

def isIdentifier (s : String) : Bool := isIdentifierChars s.toList

-- A variable and the fields that lead from its value to another, all identifiers.
structure VarPath where
  root : String
  fields : List String
  valid : (root :: fields).all isIdentifier = true
  deriving DecidableEq

namespace VarPath

def ofText? (s : String) : Option VarPath :=
  match (Text.splitAtEvery '.' s.toList).map String.ofList with
  | [] => none
  | root :: fields =>
    if valid : (root :: fields).all isIdentifier = true then some ⟨root, fields, valid⟩ else none

def text (p : VarPath) : String := ".".intercalate (p.root :: p.fields)

def isSimple (p : VarPath) : Bool := p.fields.isEmpty

end VarPath

end Skeleton
