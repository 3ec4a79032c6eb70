import Skeleton.Value.Basic

-- JSON documents and their two texts: all on one line, and one item a line.

namespace Skeleton

inductive Json where
  | null
  | bool (b : Bool)
  | integer (n : Int)
  | float (d : Double)
  | string (s : String)
  | array (items : List Json)
  | object (fields : List (String × Json))
  deriving Inhabited

namespace Json

-- Numerals of floats: positional from 0.00001 up to 16 digits before the point, whole numbers
-- with `.0`, and `e+16` above.
def floatLayout : Double.Layout := ⟨some (-5), some 16, true, true, .even, "null", "null"⟩

-- What a character is in a quoted text. Quotes, backslashes and control characters are escaped.
def escape (c : Char) : List Char :=
  if c = '"' then ['\\', '"']
  else if c = '\\' then ['\\', '\\']
  else if c = '\n' then ['\\', 'n']
  else if c = '\r' then ['\\', 'r']
  else if c = '\t' then ['\\', 't']
  else if c = '\x08' then ['\\', 'b']
  else if c = '\x0C' then ['\\', 'f']
  else if c.toNat < 0x20 then
    '\\' :: 'u' :: (Text.padLeft 4 '0' (String.ofList (Text.natDigits 16 c.toNat))).toList
  else [c]

def quote (s : String) : String :=
  String.ofList ('"' :: (s.toList.flatMap escape ++ ['"']))

-- The text of a document that holds no others. A float that is not finite has none of its own.
def scalarText : Json → String
  | null => "null"
  | bool b => if b then "true" else "false"
  | integer n => Text.decimalInt n
  | float d => if d.isFinite then floatLayout.write d else "null"
  | string s => quote s
  | array _ => "[]"
  | object _ => "\x7b\x7d"

mutual

def compact : Json → String
  | array items => "[" ++ String.intercalate "," (compactItems items) ++ "]"
  | object fields => "\x7b" ++ String.intercalate "," (compactFields fields) ++ "\x7d"
  | scalar => scalarText scalar

def compactItems : List Json → List String
  | [] => []
  | item :: rest => compact item :: compactItems rest

def compactFields : List (String × Json) → List String
  | [] => []
  | (name, item) :: rest => (quote name ++ ":" ++ compact item) :: compactFields rest

end

def newline (depth : Nat) : String :=
  "\n" ++ String.ofList (List.replicate (2 * depth) ' ')

-- Brackets around one item a line, or nothing between them.
def block (left right : String) (depth : Nat) (items : List String) : String :=
  if items.isEmpty then left ++ right
  else
    left ++ newline (depth + 1) ++ String.intercalate ("," ++ newline (depth + 1)) items
      ++ newline depth ++ right

mutual

def prettyAt (depth : Nat) : Json → String
  | array items => block "[" "]" depth (prettyItems (depth + 1) items)
  | object fields => block "\x7b" "\x7d" depth (prettyFields (depth + 1) fields)
  | scalar => scalarText scalar

def prettyItems (depth : Nat) : List Json → List String
  | [] => []
  | item :: rest => prettyAt depth item :: prettyItems depth rest

def prettyFields (depth : Nat) : List (String × Json) → List String
  | [] => []
  | (name, item) :: rest => (quote name ++ ": " ++ prettyAt depth item) :: prettyFields depth rest

end

def pretty (j : Json) : String := prettyAt 0 j

end Json

mutual

def Value.toJson : Value → Json
  | .bool b => .bool b
  | .integer n => .integer n.toInt
  | .float d => .float d
  | .string s => .string s
  | .sequence items => .array (Value.itemsToJson items)
  | .mapping fields => .object (Value.fieldsToJson fields)

def Value.itemsToJson : List Value → List Json
  | [] => []
  | item :: rest => Value.toJson item :: Value.itemsToJson rest

def Value.fieldsToJson : List (String × Value) → List (String × Json)
  | [] => []
  | (name, item) :: rest => (name, Value.toJson item) :: Value.fieldsToJson rest

end

end Skeleton
