import Skeleton.Condition.Basic
import Skeleton.Context

-- The value of a condition in a context.

namespace Skeleton.Condition

inductive EvalFault where
  | unbound (path : VarPath)
  | operand (connective : Connective) (kind : Kind)
  | result (kind : Kind)
  | notSequence (kind : Kind)

def EvalFault.message : EvalFault → String
  | unbound path => "Unbound variable `" ++ path.text ++ "`"
  | operand connective kind =>
    "operand of `" ++ connective.name ++ "` must be bool, found " ++ kind.name
  | result kind => "condition result must be bool, found " ++ kind.name
  | notSequence kind => "right side of `in` must be a sequence, found " ++ kind.name

def truth (connective : Connective) (v : Value) : Except EvalFault Bool :=
  match v.bool? with
  | some b => .ok b
  | none => .error (.operand connective v.kind)

def member (needle haystack : Value) : Except EvalFault Bool :=
  match haystack with
  | .sequence items => .ok (items.any fun item => item.looselySame needle)
  | other => .error (.notSequence other.kind)

-- The value of an expression. The right side of `and` and `or` counts only where the left side
-- leaves the answer open.
def Expr.eval (context : Context) : Expr → Except EvalFault Value
  | .literal value => .ok value
  | .var path =>
    match context.resolvePath? path with
    | some value => .ok value
    | none => .error (.unbound path)
  | .defined path => .ok (.bool (context.isBound path))
  | .not e => do
    let b ← truth .not (← e.eval context)
    .ok (.bool !b)
  | .and l r => do
    if ← truth .and (← l.eval context) then
      let b ← truth .and (← r.eval context)
      .ok (.bool b)
    else .ok (.bool false)
  | .or l r => do
    if ← truth .or (← l.eval context) then .ok (.bool true)
    else
      let b ← truth .or (← r.eval context)
      .ok (.bool b)
  | .eq l r => do
    let a ← l.eval context
    let b ← r.eval context
    .ok (.bool (a.looselySame b))
  | .ne l r => do
    let a ← l.eval context
    let b ← r.eval context
    .ok (.bool !(a.looselySame b))
  | .isIn l r => do
    let needle ← l.eval context
    let haystack ← r.eval context
    let b ← member needle haystack
    .ok (.bool b)

def eval (context : Context) (c : Condition) : Except EvalFault Bool := do
  let value ← c.expr.eval context
  match value.bool? with
  | some b => .ok b
  | none => .error (.result value.kind)

end Skeleton.Condition
