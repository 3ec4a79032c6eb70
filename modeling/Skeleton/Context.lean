import Skeleton.Value.Basic
import Skeleton.VarPath

-- Variables in layers, where a newer layer hides the names of the older ones.

namespace Skeleton

structure Layer where
  label : String
  bindings : Dictionary String Value

structure DuplicateBinding where
  name : String
  layer : String
  deriving DecidableEq

-- Layers, the newest first.
structure Context where
  layers : List Layer

namespace Context

def empty : Context := ⟨[]⟩

-- Adds pairs to bindings, up to the first name that is there already.
def addBindings (bindings : Dictionary String Value) :
    List (String × Value) → Except String (Dictionary String Value)
  | [] => .ok bindings
  | (name, value) :: rest =>
    if bindings.contains name then .error name else addBindings (bindings.insert name value) rest

def push (c : Context) (label : String) (pairs : List (String × Value)) :
    Except DuplicateBinding Context :=
  match addBindings .empty pairs with
  | .ok bindings => .ok ⟨⟨label, bindings⟩ :: c.layers⟩
  | .error name => .error ⟨name, label⟩

def resolve? (c : Context) (name : String) : Option Value :=
  c.layers.findSome? fun layer => layer.bindings.get? name

def followFields (value : Value) : List String → Option Value
  | [] => some value
  | name :: rest => (value.field? name).bind fun field => followFields field rest

def resolvePath? (c : Context) (path : VarPath) : Option Value :=
  (c.resolve? path.root).bind fun value => followFields value path.fields

def isBound (c : Context) (path : VarPath) : Bool := (c.resolvePath? path).isSome

def layerOf? (c : Context) (name : String) : Option String :=
  (c.layers.find? fun layer => layer.bindings.contains name).map Layer.label

def depth (c : Context) : Nat := c.layers.length

def names (c : Context) : List String :=
  (Dictionary.ofList (c.layers.flatMap fun layer =>
    layer.bindings.keys.map fun name => (name, ()))).keys

end Context

abbrev Schema := Dictionary String Kind

namespace Schema

def declare (s : Schema) (name : String) (kind : Kind) : Schema := s.insert name kind

def kindOf? (s : Schema) (name : String) : Option Kind := s.get? name

def isDeclared (s : Schema) (name : String) : Bool := s.contains name

def ofContext (c : Context) : Schema :=
  Dictionary.ofList (c.names.filterMap fun name =>
    (c.resolve? name).map fun value => (name, value.kind))

end Schema

end Skeleton
