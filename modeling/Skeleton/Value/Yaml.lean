import Skeleton.Yaml.Untyped

-- Values of variables out of documents.

namespace Skeleton

inductive ConversionFault where
  | null
  | key (found : Yaml.Data)
  | tagged (tag : String)

def ConversionFault.message : ConversionFault → String
  | null => "unsupported value: null is not a valid variable value"
  | key found => "unsupported value: mapping keys must be scalars, got " ++ found.debug
  | tagged tag =>
    "unsupported value: tagged values are not supported (" ++ Yaml.Data.tagText tag ++ ")"

namespace Value

-- An integer, or the nearest float where it is too large.
def ofInteger (n : Int) : Value :=
  match Text.word? n with
  | some w => .integer w
  | none => .float (Double.ofInt n)

def fieldName? : Yaml.Data → Option String
  | .string s => some s
  | .bool b => some (if b then "true" else "false")
  | .integer n => some (Text.decimalInt n)
  | .float d => some (Yaml.floatLayout.write d)
  | _ => none

mutual

def ofData : Yaml.Data → Except ConversionFault Value
  | .null => .error .null
  | .bool b => .ok (.bool b)
  | .integer n => .ok (ofInteger n)
  | .float d => .ok (.float d)
  | .string s => .ok (.string s)
  | .sequence items => (itemsOfData items).map .sequence
  | .mapping entries => (fieldsOfData [] entries).map .mapping
  | .tagged tag _ => .error (.tagged tag)

def itemsOfData : List Yaml.Data → Except ConversionFault (List Value)
  | [] => .ok []
  | item :: rest => do
    let v ← ofData item
    let vs ← itemsOfData rest
    .ok (v :: vs)

-- Adds fields to those of a mapping. Of two keys with one name the later counts.
def fieldsOfData (fields : List (String × Value)) :
    List (Yaml.Data × Yaml.Data) → Except ConversionFault (List (String × Value))
  | [] => .ok fields
  | (key, item) :: rest =>
    match fieldName? key with
    | none => .error (.key key)
    | some name => do
      let v ← ofData item
      fieldsOfData (insertEntry name v fields) rest

end

end Value

end Skeleton
