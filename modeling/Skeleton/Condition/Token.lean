import Skeleton.Double.Reading
import Skeleton.Text.Blank
import Skeleton.Text.Quoted
import Skeleton.Value.Basic
import Skeleton.VarPath

-- The tokens of conditions, each with the number of characters before it.

namespace Skeleton.Condition

inductive Token where
  | leftParen
  | rightParen
  | not
  | and
  | or
  | eq
  | ne
  | isIn
  | true
  | false
  | defined
  | string (s : String)
  | integer (n : Int64)
  | float (d : Double)
  | path (p : VarPath)
  deriving DecidableEq

def Token.describe : Token → String
  | leftParen => "`(`"
  | rightParen => "`)`"
  | not => "`not`"
  | and => "`and`"
  | or => "`or`"
  | eq => "`==`"
  | ne => "`!=`"
  | isIn => "`in`"
  | true => "`true`"
  | false => "`false`"
  | defined => "`defined`"
  | string s => "string " ++ Text.quoted s
  | integer n => "number " ++ Text.decimalInt n.toInt
  | float d => "number " ++ d.text
  | path p => "`" ++ p.text ++ "`"

inductive SyntaxFault where
  | unexpectedCharacter (c : Char)
  | unterminatedString
  | invalidNumber (text : String)
  | invalidReference (text : String)
  | empty
  | tooDeep
  | unexpectedEnd
  | unexpected (found : Token)
  | expected (wanted : Token) (found : Option Token)
  | definedWithoutName

def maxDepth : Nat := 128

def SyntaxFault.message : SyntaxFault → String
  | unexpectedCharacter c => "unexpected character `" ++ String.singleton c ++ "`"
  | unterminatedString => "unterminated string"
  | invalidNumber text => "invalid number `" ++ text ++ "`"
  | invalidReference text => "invalid variable reference `" ++ text ++ "`"
  | empty => "empty condition"
  | tooDeep => "condition nests deeper than " ++ Text.decimal maxDepth ++ " levels"
  | unexpectedEnd => "unexpected end of condition"
  | unexpected found => "unexpected " ++ found.describe
  | expected wanted (some found) =>
    "expected " ++ wanted.describe ++ ", found " ++ found.describe
  | expected wanted none => "expected " ++ wanted.describe ++ ", found end of condition"
  | definedWithoutName => "`defined` expects a variable name"

-- A fault and the number of characters before it.
structure SyntaxError where
  offset : Nat
  fault : SyntaxFault

def SyntaxError.message (e : SyntaxError) : String :=
  e.fault.message ++ " at offset " ++ Text.decimal e.offset

def unescape (c : Char) : Char :=
  if c = 'n' then '\n' else if c = 't' then '\t' else c

-- The rest of a string after its opening quote: its text, and the number of characters up to and
-- with the closing quote.
def stringBody (quote : Char) : List Char → Option (List Char × Nat)
  | [] => none
  | [c] => if c = quote then some ([], 1) else none
  | c :: d :: rest =>
    if c = '\\' then
      (stringBody quote rest).map fun (text, n) => (unescape d :: text, n + 2)
    else if c = quote then some ([], 1)
    else (stringBody quote (d :: rest)).map fun (text, n) => (c :: text, n + 1)

def fractionPart : List Char → List Char
  | '.' :: rest =>
    let digits := rest.takeWhile Text.isDigit
    if digits.isEmpty then [] else '.' :: digits
  | _ => []

-- A number whose first character is `c`: its token, and how many characters follow `c`.
def lexNumber (c : Char) (rest : List Char) : Except SyntaxFault (Token × Nat) :=
  let whole := rest.takeWhile Text.isDigit
  let fraction := fractionPart (rest.dropWhile Text.isDigit)
  let chars := c :: whole ++ fraction
  let text := String.ofList chars
  let token :=
    if fraction.isEmpty then
      ((Text.readInt? 10 chars).bind Text.word?).map Token.integer
    else (Double.ofText? text).map .float
  match token with
  | some token => .ok (token, (whole ++ fraction).length)
  | none => .error (.invalidNumber text)

def isWordChar (c : Char) : Bool := Text.isLetterOrDigit c || c == '_' || c == '.'

def keyword? (word : String) : Option Token :=
  match word with
  | "and" => some .and
  | "or" => some .or
  | "not" => some .not
  | "in" => some .isIn
  | "true" => some .true
  | "false" => some .false
  | "defined" => some .defined
  | _ => none

def lexWord (c : Char) (rest : List Char) : Except SyntaxFault (Token × Nat) :=
  let tail := rest.takeWhile isWordChar
  let word := String.ofList (c :: tail)
  match keyword? word with
  | some token => .ok (token, tail.length)
  | none =>
    match VarPath.ofText? word with
    | some path => .ok (.path path, tail.length)
    | none => .error (.invalidReference word)

def lexToken (c : Char) (rest : List Char) : Except SyntaxFault (Token × Nat) :=
  if c = '(' then .ok (.leftParen, 0)
  else if c = ')' then .ok (.rightParen, 0)
  else if c = '=' ∧ rest.head? = some '=' then .ok (.eq, 1)
  else if c = '!' ∧ rest.head? = some '=' then .ok (.ne, 1)
  else if c = '!' then .ok (.not, 0)
  else if c = '&' ∧ rest.head? = some '&' then .ok (.and, 1)
  else if c = '|' ∧ rest.head? = some '|' then .ok (.or, 1)
  else if c = '\'' ∨ c = '"' then
    match stringBody c rest with
    | some (text, n) => .ok (.string (String.ofList text), n)
    | none => .error .unterminatedString
  else if Text.isDigit c ∨ (c = '-' ∧ rest.head?.any Text.isDigit) then lexNumber c rest
  else if Text.isLetter c ∨ c = '_' then lexWord c rest
  else .error (.unexpectedCharacter c)

-- The tokens of a text that `offset` characters stand before.
def tokensFrom (offset : Nat) : List Char → Except SyntaxError (List (Token × Nat))
  | [] => .ok []
  | c :: rest =>
    if Text.isBlank c then tokensFrom (offset + 1) rest
    else
      match lexToken c rest with
      | .error fault => .error ⟨offset, fault⟩
      | .ok (token, n) =>
        match tokensFrom (offset + n + 1) (rest.drop n) with
        | .error e => .error e
        | .ok tokens => .ok ((token, offset) :: tokens)
termination_by cs => cs.length
decreasing_by
  all_goals simp only [List.length_drop, List.length_cons]; omega

def tokens (source : String) : Except SyntaxError (List (Token × Nat)) :=
  tokensFrom 0 source.toList

end Skeleton.Condition
