import Skeleton.Condition.Basic
import Skeleton.Context

-- The static check of conditions: whether they make a truth value out of variables of the
-- declared kinds.

namespace Skeleton.Condition

inductive TypeFault where
  | undeclared (name : String)
  | noFields (path : VarPath) (kind : Kind)
  | operand (connective : Connective) (kind : Kind)
  | incomparable (left right : Kind)
  | notSequence (kind : Kind)
  | result (source : String) (kind : Kind)

def TypeFault.message : TypeFault → String
  | undeclared name => "variable `" ++ name ++ "` is not declared"
  | noFields path kind =>
    "`" ++ path.root ++ "` is a " ++ kind.name ++ " and has no fields (in `" ++ path.text ++ "`)"
  | operand connective kind =>
    "operand of `" ++ connective.name ++ "` must be bool, found " ++ kind.name
  | incomparable left right => "cannot compare " ++ left.name ++ " with " ++ right.name
  | notSequence kind => "right side of `in` must be a sequence, found " ++ kind.name
  | result source kind =>
    "condition `" ++ source ++ "` produces a " ++ kind.name ++ ", expected bool"

-- The variables that an expression asks about with `defined`.
def Expr.guarded : Expr → List String
  | .literal _ => []
  | .var _ => []
  | .defined path => [path.root]
  | .not e => e.guarded
  | .and l r => l.guarded ++ r.guarded
  | .or l r => l.guarded ++ r.guarded
  | .eq l r => l.guarded ++ r.guarded
  | .ne l r => l.guarded ++ r.guarded
  | .isIn l r => l.guarded ++ r.guarded

-- The kind of a variable or of its fields, where it can be known. A variable that is not declared
-- must be guarded.
def kindOfPath (schema : Schema) (guarded : List String) (path : VarPath) :
    Except TypeFault (Option Kind) :=
  match schema.kindOf? path.root with
  | none => if path.root ∈ guarded then .ok none else .error (.undeclared path.root)
  | some kind =>
    if path.isSimple then .ok (some kind)
    else if kind = .mapping then .ok none
    else .error (.noFields path kind)

-- Accepts truth values, and what may be one.
def requireBool (connective : Connective) : Option Kind → Except TypeFault Unit
  | none => .ok ()
  | some .bool => .ok ()
  | some kind => .error (.operand connective kind)

def requireComparable : Option Kind → Option Kind → Except TypeFault Unit
  | some a, some b => if a.comparable b then .ok () else .error (.incomparable a b)
  | _, _ => .ok ()

def requireSequence : Option Kind → Except TypeFault Unit
  | none => .ok ()
  | some .sequence => .ok ()
  | some kind => .error (.notSequence kind)

def Expr.infer (schema : Schema) (guarded : List String) : Expr → Except TypeFault (Option Kind)
  | .literal value => .ok (some value.kind)
  | .var path => kindOfPath schema guarded path
  | .defined _ => .ok (some .bool)
  | .not e => do
    requireBool .not (← e.infer schema guarded)
    .ok (some .bool)
  | .and l r => do
    requireBool .and (← l.infer schema guarded)
    requireBool .and (← r.infer schema guarded)
    .ok (some .bool)
  | .or l r => do
    requireBool .or (← l.infer schema guarded)
    requireBool .or (← r.infer schema guarded)
    .ok (some .bool)
  | .eq l r => do
    let left ← l.infer schema guarded
    let right ← r.infer schema guarded
    requireComparable left right
    .ok (some .bool)
  | .ne l r => do
    let left ← l.infer schema guarded
    let right ← r.infer schema guarded
    requireComparable left right
    .ok (some .bool)
  | .isIn l r => do
    let _ ← l.infer schema guarded
    requireSequence (← r.infer schema guarded)
    .ok (some .bool)

-- Whether a condition makes a truth value under a schema. What it asks about with `defined`
-- anywhere need not be declared.
def check (schema : Schema) (c : Condition) : Except TypeFault Unit := do
  match ← c.expr.infer schema c.expr.guarded with
  | none => .ok ()
  | some .bool => .ok ()
  | some kind => .error (.result c.source kind)

end Skeleton.Condition
