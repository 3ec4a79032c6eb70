import Skeleton.Text.Quoted
import Skeleton.Yaml.Scalar

-- What documents hold when nothing is asked of them.

namespace Skeleton.Yaml

-- Integers have 64 bits, with or without a sign. The keys of a mapping differ from each other.
inductive Data where
  | null
  | bool (b : Bool)
  | integer (n : Int)
  | float (d : Double)
  | string (s : String)
  | sequence (items : List Data)
  | mapping (entries : List (Data × Data))
  | tagged (tag : String) (content : Data)
  deriving Inhabited

namespace Data

-- Whether two floats are one key. All that are no number are.
def sameFloat (a b : Double) : Bool := a.sameNumber b || (a.isNaN && b.isNaN)

mutual

-- Whether two keys are the same. The order of the entries of a mapping does not matter.
def same : Data → Data → Bool
  | null, null => true
  | bool a, bool b => a == b
  | integer a, integer b => a == b
  | float a, float b => sameFloat a b
  | string a, string b => a == b
  | sequence xs, sequence ys => sameItems xs ys
  | mapping xs, mapping ys => xs.length == ys.length && coveredBy xs ys
  | tagged t x, tagged u y => t == u && same x y
  | _, _ => false

def sameItems : List Data → List Data → Bool
  | [], [] => true
  | x :: xs, y :: ys => same x y && sameItems xs ys
  | _, _ => false

def coveredBy : List (Data × Data) → List (Data × Data) → Bool
  | [], _ => true
  | (k, x) :: rest, ys => (ys.any fun (l, y) => same k l && same x y) && coveredBy rest ys

end

def tagText (tag : String) : String := "!" ++ tag

mutual

def debug : Data → String
  | null => "Null"
  | bool b => "Bool(" ++ (if b then "true" else "false") ++ ")"
  | integer n => "Number(" ++ Text.decimalInt n ++ ")"
  | float d => "Number(" ++ floatLayout.write d ++ ")"
  | string s => "String(" ++ Text.quoted s ++ ")"
  | sequence items => "Sequence [" ++ ", ".intercalate (debugItems items) ++ "]"
  | mapping entries => "Mapping \x7b" ++ ", ".intercalate (debugEntries entries) ++ "\x7d"
  | tagged tag content =>
    "TaggedValue \x7b tag: " ++ tagText tag ++ ", value: " ++ debug content ++ " \x7d"

def debugItems : List Data → List String
  | [] => []
  | item :: rest => debug item :: debugItems rest

def debugEntries : List (Data × Data) → List String
  | [] => []
  | (key, value) :: rest => (debugKey key ++ ": " ++ debug value) :: debugEntries rest

-- How messages show a key: scalars without the name of their kind.
def debugKey : Data → String
  | bool b => if b then "true" else "false"
  | integer n => Text.decimalInt n
  | float d => floatLayout.write d
  | string s => Text.quoted s
  | other => debug other

end

def repeatedText : Data → String
  | null => "with null key"
  | bool b => "with key `" ++ (if b then "true" else "false") ++ "`"
  | integer n => "with key " ++ Text.decimalInt n
  | float d => "with key " ++ floatLayout.write d
  | string s => "with key " ++ Text.quoted s
  | _ => "in YAML map"

end Data

end Skeleton.Yaml
