import Skeleton.Yaml.Cursor
import Skeleton.Yaml.Data

-- What is wrong with a sound document whose parts are not what is asked for, and where.

namespace Skeleton.Yaml

inductive DocumentPath where
  | root
  | item (parent : DocumentPath) (index : Nat)
  | field (parent : DocumentPath) (name : String)
  | unnamed (parent : DocumentPath)

namespace DocumentPath

def text : DocumentPath → String
  | root => "."
  | item parent index => parent.text ++ "[" ++ Text.decimal index ++ "]"
  | field root name => name
  | field parent name => parent.text ++ "." ++ name
  | unnamed root => "?"
  | unnamed parent => parent.text ++ ".?"

end DocumentPath

inductive Found where
  | null
  | bool (b : Bool)
  | integer (n : Int)
  | float (d : Double)
  | string (s : String)
  | sequence
  | mapping

def Found.text : Found → String
  | null => "unit value"
  | bool b => "boolean `" ++ (if b then "true" else "false") ++ "`"
  | integer n =>
    let numeral := "integer `" ++ Text.decimalInt n ++ "`"
    if fitsWord n then numeral else numeral ++ (if n < 0 then " as i128" else " as u128")
  | float d =>
    let s := d.text
    "floating point `" ++ (if d.isFinite && !s.toList.contains '.' then s ++ ".0" else s) ++ "`"
  | string s => "string " ++ Text.quoted s
  | sequence => "sequence"
  | mapping => "map"

inductive Mismatch where
  | type (found : Found) (wanted : String)
  | value (text : String) (wanted : String)
  | repeatedKey (key : Data)
  | unknownField (name : String) (known : List String)
  | repeatedField (name : String)
  | missingField (name : String)
  | unknownVariant (name : String) (known : List String)
  | noVariant (name : String)
  | taggedVariant
  | emptyTag

def oneOf (names : List String) : String :=
  "expected one of " ++ ", ".intercalate (names.map fun name => "`" ++ name ++ "`")

def Mismatch.message : Mismatch → String
  | type found wanted => "invalid type: " ++ found.text ++ ", expected " ++ wanted
  | value text wanted => "invalid value: string " ++ Text.quoted text ++ ", expected " ++ wanted
  | repeatedKey key => "duplicate entry " ++ key.repeatedText
  | unknownField name known => "unknown field `" ++ name ++ "`, " ++ oneOf known
  | repeatedField name => "duplicate field `" ++ name ++ "`"
  | missingField name => "missing field `" ++ name ++ "`"
  | unknownVariant name known => "unknown variant `" ++ name ++ "`, " ++ oneOf known
  | noVariant name => "data did not match any variant of untagged enum " ++ name
  | taggedVariant => "untagged and internally tagged enums do not support enum input"
  | emptyTag => "empty YAML tag is not allowed"

structure Place where
  path : DocumentPath
  mark : Mark

-- A mismatch. Its place is that of the innermost part of the document that has one.
structure DecodeError where
  place : Option Place
  mismatch : Mismatch

def DecodeError.pathMessage (e : DecodeError) : String :=
  match e.place with
  | none => e.mismatch.message
  | some ⟨.root, _⟩ => e.mismatch.message
  | some ⟨path, _⟩ => path.text ++ ": " ++ e.mismatch.message

def DecodeError.message (e : DecodeError) : String :=
  match e.place with
  | none => e.pathMessage
  | some place => e.pathMessage ++ place.mark.text

-- Gives an error without a place this one.
def locate {α : Type} (path : DocumentPath) (mark : Mark) (a : Except DecodeError α) :
    Except DecodeError α :=
  a.mapError fun e => ⟨e.place.or (some ⟨path, mark⟩), e.mismatch⟩

def mismatch {α : Type} (m : Mismatch) : Except DecodeError α := .error ⟨none, m⟩

inductive LoadError where
  | notDocument (e : SyntaxError)
  | notDecoded (e : DecodeError)

def LoadError.message : LoadError → String
  | notDocument e => e.message
  | notDecoded e => e.message

end Skeleton.Yaml
