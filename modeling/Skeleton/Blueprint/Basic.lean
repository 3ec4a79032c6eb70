import Skeleton.Outline.Basic

-- Scaffolds: variables, what is produced from them, and what is run afterwards.

namespace Skeleton

-- A variable. Its default has its kind.
structure Declaration where
  kind : Kind
  default : Option Value
  description : Option String

-- A program to run when everything is produced. Arguments and the directory are templates.
structure Hook where
  name : String
  command : String
  args : List String
  workingDir : Option String
  condition : Option Condition

structure Blueprint where
  name : String
  description : Option String
  declarations : Dictionary String Declaration
  outline : Outline
  hooks : List Hook

-- A value as one of some kind. Integers are taken for floats.
def Value.coerce (kind : Kind) (v : Value) : Except ValueFault Value :=
  match v, kind with
  | .integer n, .float => .ok (.float (Double.ofInt n.toInt))
  | v, kind => if v.kind = kind then .ok v else .error (.otherKind kind v.kind)

def Value.ofText (s : String) : Except ValueFault Value := do
  let data ← (Yaml.dataOf s).mapError .unreadable
  (Value.ofData data).mapError .unsupported

namespace Blueprint

-- The defaults of the variables, in a layer on top of others.
def context (b : Blueprint) (globals : Context) : Except Fault Context :=
  let defaults := b.declarations.entries.filterMap fun (name, d) =>
    d.default.map fun v => (name, v)
  (globals.push ("scaffold:" ++ b.name) defaults).mapError fun e => .build (.duplicateBinding e)

-- The value that a text gives a variable. Variables for texts take it as it is, others read it as
-- a document, and what is not declared takes what the text may be.
def coerceText (b : Blueprint) (name text : String) : Except Fault Value :=
  match b.declarations.get? name with
  | some d =>
    if d.kind = .string then .ok (.string text)
    else (Value.ofText text >>= Value.coerce d.kind).mapError (.invalidOverride name)
  | none => .ok ((Value.ofText text).toOption.getD (.string text))

def coerceValue (b : Blueprint) (name : String) (v : Value) : Except Fault Value :=
  match b.declarations.get? name with
  | some d => (v.coerce d.kind).mapError (.invalidOverride name)
  | none => .ok v

def missing (b : Blueprint) (context : Context) : List String :=
  b.declarations.keys.filter fun name => (context.resolve? name).isNone

end Blueprint

end Skeleton
