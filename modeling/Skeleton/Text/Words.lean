import Skeleton.Text.Digits

-- Identifiers in the usual styles. A text is cut into words of ASCII letters and digits, at other
-- characters and where the case of the letters shows a new word.

namespace Skeleton.Text

-- The case of the last letter of the word so far; digits leave it as it is.
inductive LastLetter where
  | none
  | lower
  | upper
  deriving DecidableEq

def LastLetter.next (last : LastLetter) (c : Char) : LastLetter :=
  if isLowerLetter c then .lower else if isUpperLetter c then .upper else last

-- The words of a run of letters and digits, with the word so far in `word`, last character first.
-- A word ends after a lower-case letter before a capital (`fooBar`), and before the last capital
-- of several that a lower-case letter follows (`XMLHttp`).
def cutRun (word : List Char) (last : LastLetter) : List Char → List (List Char)
  | [] => if word.isEmpty then [] else [word.reverse]
  | [c] => [(c :: word).reverse]
  | c :: d :: rest =>
    if last.next c = .lower ∧ isUpperLetter d then
      (c :: word).reverse :: cutRun [] .none (d :: rest)
    else if last = .upper ∧ isUpperLetter c ∧ isLowerLetter d then
      word.reverse :: cutRun [c] .none (d :: rest)
    else
      cutRun (c :: word) (last.next c) (d :: rest)

-- The maximal runs of letters and digits, with the run so far in `run`, last character first.
def runsFrom (run : List Char) : List Char → List (List Char)
  | [] => if run.isEmpty then [] else [run.reverse]
  | c :: rest =>
    if isLetterOrDigit c then runsFrom (c :: run) rest
    else if run.isEmpty then runsFrom [] rest
    else run.reverse :: runsFrom [] rest

def words (s : String) : List (List Char) :=
  (runsFrom [] s.toList).flatMap (cutRun [] .none)

def lowerWord (word : List Char) : List Char := word.map Char.toLower

def upperWord (word : List Char) : List Char := word.map Char.toUpper

def capitalWord : List Char → List Char
  | [] => []
  | c :: rest => c.toUpper :: rest.map Char.toLower

def joinWords (separator : List Char) (parts : List (List Char)) : String :=
  String.ofList (separator.intercalate parts)

def snakeCase (s : String) : String := joinWords ['_'] ((words s).map lowerWord)

def shoutyCase (s : String) : String := joinWords ['_'] ((words s).map upperWord)

def kebabCase (s : String) : String := joinWords ['-'] ((words s).map lowerWord)

def titleCase (s : String) : String := joinWords [' '] ((words s).map capitalWord)

def pascalCase (s : String) : String := joinWords [] ((words s).map capitalWord)

def camelCase (s : String) : String :=
  match words s with
  | [] => ""
  | first :: rest => joinWords [] (lowerWord first :: rest.map capitalWord)

end Skeleton.Text
