import Skeleton.Condition.Expr
import Skeleton.Condition.Token

-- The grammar of conditions, loosest operator first:
--
--     expr     := and (`or` and)*
--     and      := not (`and` not)*
--     not      := `not` not | compare
--     compare  := primary ((`==` | `!=` | `in` | `not` `in`) primary)?
--     primary  := literal | path | `defined` `(` path `)` | `(` expr `)`
--
-- A parser takes the nesting that is left, so that parentheses, negations and chains of `and`
-- and `or` go at most `maxDepth` deep. Its recursion is bounded by that number alone.

namespace Skeleton.Condition

-- The tokens that are left, and the length of the whole text.
structure Input where
  tokens : List (Token × Nat)
  length : Nat

namespace Input

def offset (i : Input) : Nat := (i.tokens.head?.map Prod.snd).getD i.length

def peek? (i : Input) : Option Token := i.tokens.head?.map Prod.fst

def rest (i : Input) : Input := { i with tokens := i.tokens.tail }

def fail {α : Type} (i : Input) (fault : SyntaxFault) : Except SyntaxError α :=
  .error ⟨i.offset, fault⟩

def expect (i : Input) (wanted : Token) : Except SyntaxError Input :=
  if i.peek? = some wanted then .ok i.rest else i.fail (.expected wanted i.peek?)

end Input

abbrev Parsed := Except SyntaxError (Expr × Input)

def parseDefined (i : Input) : Parsed := do
  let i ← i.expect .leftParen
  match i.peek? with
  | some (.path p) =>
    let j ← i.rest.expect .rightParen
    .ok (.defined p, j)
  | _ => i.fail .definedWithoutName

-- What a token stands for by itself.
def atom? : Token → Option Expr
  | .true => some (.literal (.bool true))
  | .false => some (.literal (.bool false))
  | .string s => some (.literal (.string s))
  | .integer n => some (.literal (.integer n))
  | .float d => some (.literal (.float d))
  | .path p => some (.var p)
  | _ => none

-- The comparison that stands next, and what is left after it.
def comparison? (i : Input) : Option ((Expr → Expr → Expr) × Input) :=
  match i.peek? with
  | some .eq => some (.eq, i.rest)
  | some .ne => some (.ne, i.rest)
  | some .isIn => some (.isIn, i.rest)
  | some .not =>
    if i.rest.peek? = some .isIn then some (fun l r => .not (.isIn l r), i.rest.rest) else none
  | _ => none

mutual

def parseExpr (depth : Nat) (i : Input) : Parsed := do
  let (left, i) ← parseAnd depth i
  parseOrRest depth left i
termination_by 7 * depth + 6

-- The rest of a chain of `or` after its first operands. Each further operand nests deeper.
def parseOrRest (depth : Nat) (left : Expr) (i : Input) : Parsed :=
  if i.peek? = some .or then
    match depth with
    | 0 => i.rest.fail .tooDeep
    | depth + 1 => do
      let (right, i) ← parseAnd depth i.rest
      parseOrRest depth (.or left right) i
  else .ok (left, i)
termination_by 7 * depth + 5

def parseAnd (depth : Nat) (i : Input) : Parsed := do
  let (left, i) ← parseNot depth i
  parseAndRest depth left i
termination_by 7 * depth + 4

def parseAndRest (depth : Nat) (left : Expr) (i : Input) : Parsed :=
  if i.peek? = some .and then
    match depth with
    | 0 => i.rest.fail .tooDeep
    | depth + 1 => do
      let (right, i) ← parseNot depth i.rest
      parseAndRest depth (.and left right) i
  else .ok (left, i)
termination_by 7 * depth + 3

def parseNot (depth : Nat) (i : Input) : Parsed :=
  if i.peek? = some .not then
    match depth with
    | 0 => i.rest.fail .tooDeep
    | depth + 1 => do
      let (e, i) ← parseNot depth i.rest
      .ok (.not e, i)
  else parseCompare depth i
termination_by 7 * depth + 2

def parseCompare (depth : Nat) (i : Input) : Parsed := do
  let (left, i) ← parsePrimary depth i
  match comparison? i with
  | none => .ok (left, i)
  | some (combine, i) =>
    let (right, i) ← parsePrimary depth i
    .ok (combine left right, i)
termination_by 7 * depth + 1

def parsePrimary (depth : Nat) (i : Input) : Parsed :=
  match i.peek? with
  | none => i.fail .unexpectedEnd
  | some token =>
    if token = .leftParen then
      match depth with
      | 0 => i.rest.fail .tooDeep
      | depth + 1 => do
        let (e, i) ← parseExpr depth i.rest
        let i ← i.expect .rightParen
        .ok (e, i)
    else if token = .defined then parseDefined i.rest
    else
      match atom? token with
      | some e => .ok (e, i.rest)
      | none => i.fail (.unexpected token)
termination_by 7 * depth

end

def parseTokens (tokens : List (Token × Nat)) (length : Nat) : Except SyntaxError Expr :=
  if tokens.isEmpty then .error ⟨0, .empty⟩
  else do
    let (e, i) ← parseExpr maxDepth ⟨tokens, length⟩
    match i.peek? with
    | some token => i.fail (.unexpected token)
    | none => .ok e

end Skeleton.Condition
