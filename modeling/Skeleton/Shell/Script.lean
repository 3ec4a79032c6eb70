-- Scripts of a small shell.

namespace Skeleton.Shell

-- A text that goes in the place of a parameter: where it is missing, or where it is not.
-- `emptyCounts` tells whether an empty value is a missing one.
structure Fallback where
  text : String
  ifMissing : Bool
  emptyCounts : Bool
  deriving DecidableEq

-- What words are made of. Characters that are not quoted may be blanks or patterns where they end
-- up, and so may what stands for a parameter or for the output of a script.
inductive Piece where
  | char (c : Char) (quoted : Bool)
  | emptyQuotes
  | parameter (name : String) (fallback : Option Fallback) (quoted : Bool)
  | output (source : List Char) (quoted : Bool)
  deriving DecidableEq

abbrev Word := List Piece

def Piece.plain? : Piece → Option Char
  | char c false => some c
  | _ => none

def Word.plain? (w : Word) : Option String := (w.mapM Piece.plain?).map String.ofList

inductive Direction where
  | input
  | output
  | append
  | duplicate
  deriving DecidableEq

structure Redirection where
  descriptor : Nat
  direction : Direction
  target : Word
  deriving DecidableEq

inductive Command where
  | simple (line : Nat) (assignments : List (String × Word)) (words : List Word)
      (redirections : List Redirection)
  | nothing
  | both (first second : Command)
  | andThen (first second : Command)
  | orElse (first second : Command)
  | negated (command : Command)
  | pipe (first second : Command)
  | group (body : Command) (redirections : List Redirection)
  | subshell (body : Command) (redirections : List Redirection)
  | choice (test accepted refused : Command)
  | loop (expected : Bool) (test body : Command)
  | cases (word : Word) (arms : List (List Word × Command))
  | each (name : String) (words : List Word) (body : Command)

inductive SyntaxFault where
  | openQuotes
  | openBraces
  | openParameter
  | unexpected (found : String) (wanted : Option String)
  | badSubstitution

def SyntaxFault.message : SyntaxFault → String
  | openQuotes => "Syntax error: Unterminated quoted string"
  | openBraces => "Syntax error: end of file unexpected (expecting \")\")"
  | openParameter => "Syntax error: Missing '\x7d'"
  | unexpected found none => "Syntax error: " ++ found ++ " unexpected"
  | unexpected found (some wanted) =>
    "Syntax error: " ++ found ++ " unexpected (expecting " ++ wanted ++ ")"
  | badSubstitution => "Bad substitution"

-- Commands one line after another, up to a line that is none.
structure Script where
  lines : List Command
  fault : Option (Nat × SyntaxFault)

end Skeleton.Shell
