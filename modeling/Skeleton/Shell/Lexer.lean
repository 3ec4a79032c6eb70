import Skeleton.Shell.Script
import Skeleton.Text.Digits
import Skeleton.Text.Split

-- The words and the operators of scripts.

namespace Skeleton.Shell

inductive Token where
  | word (w : Word)
  | operator (s : String)
  | redirect (descriptor : Option Nat) (direction : Direction)
  | newline
  | finish
  deriving DecidableEq

def isNameStart (c : Char) : Bool := Text.isLetter c || c = '_'

def isNamePart (c : Char) : Bool := Text.isLetterOrDigit c || c = '_'

def endsWord (c : Char) : Bool := " \t\n;&|<>()".toList.contains c

-- Splits a text at the parenthesis that closes as many as `depth` others. Within quotes there are
-- none.
def closing (depth : Nat) (quote : Option Char) : List Char → Option (List Char × List Char)
  | [] => none
  | c :: rest =>
    let next (depth : Nat) (quote : Option Char) :=
      (closing depth quote rest).map fun (inside, after) => (c :: inside, after)
    match quote with
    | some q => next depth (if c = q then none else quote)
    | none =>
      if c = ')' then
        match depth with
        | 0 => some ([], rest)
        | depth + 1 => next depth none
      else if c = '(' then next (depth + 1) none
      else if c = '"' || c = '\'' then next depth (some c)
      else next depth none

def isMark (c : Char) : Bool := "?$#@*".toList.contains c

def isParameterName (name : List Char) : Bool :=
  !name.isEmpty && (name.all isNamePart || name.length = 1 && name.all isMark)

def fallback? (cs : List Char) : Option Fallback :=
  let (emptyCounts, cs) :=
    match cs with
    | ':' :: rest => (true, rest)
    | _ => (false, cs)
  match cs with
  | '-' :: text => some ⟨String.ofList text, true, emptyCounts⟩
  | '+' :: text => some ⟨String.ofList text, false, emptyCounts⟩
  | _ => none

def bracedParameter? (cs : List Char) : Option (String × Option Fallback) :=
  if isParameterName cs then some (String.ofList cs, none)
  else
    let name := cs.takeWhile isNamePart
    match isParameterName name, fallback? (cs.drop name.length) with
    | true, some f => some (String.ofList name, some f)
    | _, _ => none

def readParameter (quoted : Bool) (cs : List Char) : Except SyntaxFault (Piece × List Char) :=
  match cs with
  | '(' :: rest =>
    match closing 0 none rest with
    | some (source, rest) => .ok (.output source quoted, rest)
    | none => .error .openBraces
  | '{' :: rest =>
    match Text.splitOnce '}' rest with
    | none => .error .openParameter
    | some (name, rest) =>
      match bracedParameter? name with
      | some (name, fallback) => .ok (.parameter name fallback quoted, rest)
      | none => .error .badSubstitution
  | c :: rest =>
    if isNameStart c then
      .ok (.parameter (String.ofList (c :: rest.takeWhile isNamePart)) none quoted,
        rest.dropWhile isNamePart)
    else if Text.isDigit c || isMark c then
      .ok (.parameter (String.ofList [c]) none quoted, rest)
    else .ok (.char '$' quoted, cs)
  | [] => .ok (.char '$' quoted, [])

-- Reads a word up to where it ends, or up to the quotes that it stands in. `fuel` bounds its
-- length.
def readWord (quoted : Bool) (cs : List Char) : Nat → Except SyntaxFault (Word × List Char)
  | 0 => .ok ([], cs)
  | fuel + 1 =>
    let goOn (pieces : Word) (rest : List Char) : Except SyntaxFault (Word × List Char) := do
      let (more, rest) ← readWord quoted rest fuel
      .ok (pieces ++ more, rest)
    match cs with
    | [] => if quoted then .error .openQuotes else .ok ([], [])
    | '\\' :: [] => goOn [.char '\\' true] []
    | '\\' :: '\n' :: rest => goOn [] rest
    | '\\' :: c :: rest =>
      if quoted && !"$`\"\\".toList.contains c then goOn [.char '\\' true, .char c true] rest
      else goOn [.char c true] rest
    | '"' :: rest =>
      if quoted then .ok ([], rest)
      else do
        let (inside, rest) ← readWord true rest fuel
        goOn (.emptyQuotes :: inside) rest
    | '$' :: rest => do
      let (piece, rest) ← readParameter quoted rest
      goOn [piece] rest
    | '`' :: rest =>
      match Text.splitOnce '`' rest with
      | some (source, rest) => goOn [.output source quoted] rest
      | none => .error .openQuotes
    | c :: rest =>
      if c = '\'' && !quoted then
        match Text.splitOnce '\'' rest with
        | some (inside, rest) =>
          goOn (.emptyQuotes :: inside.map fun c => .char c true) rest
        | none => .error .openQuotes
      else if !quoted && endsWord c then .ok ([], cs)
      else goOn [.char c quoted] rest

-- The operators, the longer ones first.
def operators : List String := ["&&", "||", ";;", ";", "&", "|", "(", ")"]

def directions : List (String × Direction) :=
  [(">>", .append), (">&", .duplicate), ("<&", .duplicate), (">|", .output), (">", .output),
    ("<", .input)]

def startingWith? {α : Type} (text : α → String) (candidates : List α) (cs : List Char) :
    Option (α × List Char) :=
  (candidates.find? fun a => (text a).toList.isPrefixOf cs).map fun a =>
    (a, cs.drop (text a).toList.length)

def redirection? (cs : List Char) : Option (Token × List Char) :=
  let digits := cs.takeWhile Text.isDigit
  (startingWith? Prod.fst directions (cs.drop digits.length)).map fun ((_, direction), rest) =>
    (.redirect (Text.readNat? 10 digits) direction, rest)

-- Reads one token. There is none for blanks, comments and joined lines.
def readToken (cs : List Char) : Except SyntaxFault (Option Token × List Char) :=
  match cs with
  | [] => .ok (none, [])
  | '\n' :: rest => .ok (some .newline, rest)
  | '\\' :: '\n' :: rest => .ok (none, rest)
  | '#' :: rest => .ok (none, rest.dropWhile (· ≠ '\n'))
  | c :: rest =>
    if c = ' ' || c = '\t' then .ok (none, rest)
    else
      match redirection? cs with
      | some (token, rest) => .ok (some token, rest)
      | none =>
        match startingWith? id operators cs with
        | some (operator, rest) => .ok (some (.operator operator), rest)
        | none => do
          let (word, rest) ← readWord false cs (cs.length + 1)
          .ok (some (.word word), rest)

-- The tokens of a text with the numbers of their lines, up to what is none. The last one marks the
-- end. `fuel` bounds their count.
def tokensFrom (line : Nat) (cs : List Char) :
    Nat → List (Nat × Token) × Option (Nat × SyntaxFault)
  | 0 => ([], none)
  | fuel + 1 =>
    if cs.isEmpty then ([(line, .finish)], none)
    else
      match readToken cs with
      | .error fault => ([], some (line, fault))
      | .ok (token, rest) =>
        let passed := (cs.take (cs.length - rest.length)).count '\n'
        let (tokens, fault) := tokensFrom (line + passed) rest fuel
        ((token.map fun t => (line, t)).toList ++ tokens, fault)

def tokens (cs : List Char) : List (Nat × Token) × Option (Nat × SyntaxFault) :=
  tokensFrom 1 cs (cs.length + 1)

end Skeleton.Shell
