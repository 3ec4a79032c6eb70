import Skeleton.Condition.Parser

-- Conditions: an expression together with the text that it was read from.

namespace Skeleton

structure Condition where
  source : String
  expr : Condition.Expr

namespace Condition

-- Reads a condition. Its source is the text without the blanks around it.
def parse (source : String) : Except SyntaxError Condition := do
  let tokens ← tokens source
  let expr ← parseTokens tokens source.length
  .ok ⟨Text.trim source, expr⟩

-- Both conditions, the first one first.
def and (a b : Condition) : Condition :=
  ⟨"(" ++ a.source ++ ") and (" ++ b.source ++ ")", .and a.expr b.expr⟩

end Condition

end Skeleton
