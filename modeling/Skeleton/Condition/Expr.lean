import Skeleton.Value.Basic
import Skeleton.VarPath

-- The expressions that conditions are made of.

namespace Skeleton.Condition

inductive Expr where
  | literal (value : Value)
  | var (path : VarPath)
  | defined (path : VarPath)
  | not (e : Expr)
  | and (l r : Expr)
  | or (l r : Expr)
  | eq (l r : Expr)
  | ne (l r : Expr)
  | isIn (l r : Expr)
  deriving Inhabited

inductive Connective where
  | not
  | and
  | or
  deriving DecidableEq

def Connective.name : Connective → String
  | .not => "not"
  | .and => "and"
  | .or => "or"

end Skeleton.Condition
