import Skeleton.Fault

-- What a scaffold produces: directories and files, whose names are templates.

namespace Skeleton

-- The content of a template file is rendered, that of a literal file is kept.
inductive FileKind where
  | template
  | literal
  deriving DecidableEq

inductive Node where
  | directory (name : String) (condition : Option Condition) (children : List Node)
  | file (name : String) (condition : Option Condition) (kind : FileKind) (content : String)
      (mode : Option Nat)
  deriving Inhabited

namespace Node

def name : Node → String
  | directory name _ _ => name
  | file name _ _ _ _ => name

def condition : Node → Option Condition
  | directory _ condition _ => condition
  | file _ condition _ _ _ => condition

def children : Node → List Node
  | directory _ _ children => children
  | file _ _ _ _ _ => []

def withCondition (condition : Option Condition) : Node → Node
  | directory name _ children => directory name condition children
  | file name _ kind content mode => file name condition kind content mode

-- The node behind one more condition, which counts before its own.
def gated (gate : Condition) (n : Node) : Node :=
  n.withCondition (some (match n.condition with
    | some own => gate.and own
    | none => gate))

mutual

-- The first thing wrong with a node, from the top down: a name without characters, a condition of
-- the wrong kind, or two children with one name.
def check (schema : Schema) (parent : String) : Node → Except BuildFault Unit
  | directory name condition children => do
    let path := childPath parent name
    checkSelf schema path name condition
    checkChildren schema path [] children
  | file name condition _ _ _ => checkSelf schema (childPath parent name) name condition

def checkSelf (schema : Schema) (path name : String) (condition : Option Condition) :
    Except BuildFault Unit :=
  if Text.isAllBlank name then .error (.invalidSegment name path .blankPattern)
  else
    match condition with
    | none => .ok ()
    | some c => (c.check schema).mapError (.conditionType path)

def checkChildren (schema : Schema) (parent : String) (seen : List String) :
    List Node → Except BuildFault Unit
  | [] => .ok ()
  | child :: rest => do
    if child.name ∈ seen then .error (.duplicateName child.name parent)
    else
      check schema parent child
      checkChildren schema parent (child.name :: seen) rest

end

end Node

structure Outline where
  root : Node
  schema : Schema
  checked : root.check schema "" = .ok ()

namespace Outline

def ofNode (schema : Schema) (root : Node) : Except BuildFault Outline :=
  match h : root.check schema "" with
  | .ok () => .ok ⟨root, schema, h⟩
  | .error fault => .error fault

end Outline

end Skeleton
