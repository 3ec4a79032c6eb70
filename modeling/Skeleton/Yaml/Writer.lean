import Skeleton.Yaml.Scalar

-- The text of a value as a document: collections in block style, and scalars as plainly as they
-- can be read back.

namespace Skeleton.Yaml

def isBreak (c : Char) : Bool :=
  c == '\n' || c == '\r' || c == '\x85' || c == '\u2028' || c == '\u2029'

def isPlainChar (c : Char) : Bool :=
  let n := c.toNat
  n == 0x0A || (0x20 ≤ n && n ≤ 0x7E) || (0xA0 ≤ n && n ≤ 0xD7FF)
    || (0xE000 ≤ n && n ≤ 0xFFFD && n != 0xFEFF) || 0x10000 ≤ n

def startsBlank (cs : List Char) : Bool :=
  cs.head?.all fun c => c == ' ' || c == '\t' || isBreak c

def isIndicator (first : Bool) (afterBlank : Bool) (c : Char) (rest : List Char) : Bool :=
  if first then
    "#,[]\x7b\x7d&*!|>'\"%@`".toList.contains c
      || ((c == '?' || c == ':' || c == '-') && startsBlank rest)
  else (c == ':' && startsBlank rest) || (c == '#' && afterBlank)

def hasIndicatorFrom (first afterBlank : Bool) : List Char → Bool
  | [] => false
  | c :: rest =>
    isIndicator first afterBlank c rest
      || hasIndicatorFrom false (c == ' ' || c == '\t' || isBreak c) rest

def hasIndicator (cs : List Char) : Bool :=
  ['-', '-', '-'].isPrefixOf cs || ['.', '.', '.'].isPrefixOf cs || hasIndicatorFrom true true cs

-- Whether some character with `p` stands right before one with `q`.
def hasPair (p q : Char → Bool) : List Char → Bool
  | c :: d :: rest => (p c && q d) || hasPair p q (d :: rest)
  | _ => false

def isSpace (c : Char) : Bool := c == ' '

def startsOrEndsWith (p : Char → Bool) (cs : List Char) : Bool :=
  cs.head?.any p || cs.getLast?.any p

def plainAllowed (cs : List Char) : Bool :=
  cs.all isPlainChar && !cs.any isBreak && !startsOrEndsWith isSpace cs && !hasIndicator cs

def singleQuotesAllowed (cs : List Char) : Bool :=
  cs.all isPlainChar && !hasPair isBreak isSpace cs && !hasPair isSpace isBreak cs

def blockAllowed (cs : List Char) : Bool :=
  cs.all isPlainChar && !hasPair isSpace isBreak cs && !cs.getLast?.any isSpace

inductive Style where
  | plain
  | single
  | double
  | literal
  deriving DecidableEq

-- The style of a string. Texts of several lines are literal blocks where they can be, and texts
-- that would be read as something else are quoted.
def styleOf (s : String) : Style :=
  let cs := s.toList
  if cs.contains '\n' then
    if blockAllowed cs then .literal else .double
  else if meaning s = .text ∧ !hasLeadingZero cs ∧ plainAllowed cs then .plain
  else if singleQuotesAllowed cs then .single
  else .double

def spaces (n : Nat) : List Char := List.replicate n ' '

def endsWithBreak (cs : List Char) : Bool := cs.getLast?.any isBreak

-- A text after which the next character stands in column `n` of a line of its own.
def onNewLine (n : Nat) (cs : List Char) : List Char :=
  if endsWithBreak cs then cs ++ spaces n else cs ++ '\n' :: spaces n

def joinLines (n : Nat) : List (List Char) → List Char
  | [] => []
  | [piece] => piece
  | piece :: rest => onNewLine n piece ++ joinLines n rest

-- The inside of single quotes: quotes are doubled, and a line after a break is indented.
def singleBody (indent : Nat) (afterBreak : Bool) : List Char → List Char
  | [] => if afterBreak then spaces indent else []
  | c :: rest =>
    if isBreak c then c :: singleBody indent true rest
    else
      (if afterBreak then spaces indent else [])
        ++ (if c = '\'' then ['\'', '\''] else [c]) ++ singleBody indent false rest

def hexEscape (mark : Char) (width n : Nat) : List Char :=
  let digits := (Text.natDigits 16 n).map Char.toUpper
  '\\' :: mark :: (List.replicate (width - digits.length) '0' ++ digits)

def escape (c : Char) : List Char :=
  if isPlainChar c && !isBreak c && c != '"' && c != '\\' then [c]
  else
    match c.toNat with
    | 0x00 => ['\\', '0']
    | 0x07 => ['\\', 'a']
    | 0x08 => ['\\', 'b']
    | 0x09 => ['\\', 't']
    | 0x0A => ['\\', 'n']
    | 0x0B => ['\\', 'v']
    | 0x0C => ['\\', 'f']
    | 0x0D => ['\\', 'r']
    | 0x1B => ['\\', 'e']
    | 0x22 => ['\\', '"']
    | 0x5C => ['\\', '\\']
    | 0x85 => ['\\', 'N']
    | 0x2028 => ['\\', 'L']
    | 0x2029 => ['\\', 'P']
    | n =>
      if n ≤ 0xFF then hexEscape 'x' 2 n
      else if n ≤ 0xFFFF then hexEscape 'u' 4 n
      else hexEscape 'U' 8 n

-- The header of a literal block: the indentation where the text itself starts with a blank or a
-- break, and what becomes of the breaks at the end.
def literalHeader (cs : List Char) : List Char :=
  let indentation := if cs.head?.any fun c => c == ' ' || isBreak c then ['2'] else []
  let chomping :=
    match cs.reverse with
    | [] => ['-']
    | [c] => if isBreak c then ['+'] else ['-']
    | c :: d :: _ => if !isBreak c then ['-'] else if isBreak d then ['+'] else []
  '|' :: (indentation ++ chomping)

-- The lines of a literal block. Empty lines are not indented.
def literalBody (indent : Nat) (afterBreak : Bool) : List Char → List Char
  | [] => []
  | c :: rest =>
    if isBreak c then c :: literalBody indent true rest
    else (if afterBreak then spaces indent else []) ++ c :: literalBody indent false rest

def writeString (indent : Nat) (s : String) : List Char :=
  let cs := s.toList
  match styleOf s with
  | .plain => cs
  | .single => '\'' :: (singleBody indent false cs ++ ['\''])
  | .double => '"' :: (cs.flatMap escape ++ ['"'])
  | .literal => literalHeader cs ++ '\n' :: literalBody indent true cs

def isSimpleKey (name : String) : Bool :=
  !name.toList.any isBreak && name.utf8ByteSize ≤ 128

-- The entry of a key whose value has the texts `after` behind `key:` and `below` behind a `:`
-- that starts a line.
def writeEntry (indent : Nat) (name : String) (after below : List Char) : List Char :=
  if isSimpleKey name then writeString (indent + 2) name ++ ':' :: after
  else onNewLine indent ('?' :: ' ' :: writeString (indent + 2) name) ++ ':' :: below

mutual

def writeAt (indent : Nat) : Value → List Char
  | .bool b => (if b then "true" else "false").toList
  | .integer n => (Text.decimalInt n.toInt).toList
  | .float d => (floatLayout.write d).toList
  | .string s => writeString indent s
  | .sequence [] => ['[', ']']
  | .mapping [] => ['\x7b', '\x7d']
  | .sequence (item :: rest) =>
    joinLines indent (('-' :: ' ' :: writeAt (indent + 2) item) :: writeItems indent rest)
  | .mapping ((name, item) :: rest) =>
    joinLines indent
      (writeEntry indent name (writeAfterKey indent item) (' ' :: writeAt (indent + 2) item)
        :: writeEntries indent rest)

def writeItems (indent : Nat) : List Value → List (List Char)
  | [] => []
  | item :: rest => ('-' :: ' ' :: writeAt (indent + 2) item) :: writeItems indent rest

def writeEntries (indent : Nat) : List (String × Value) → List (List Char)
  | [] => []
  | (name, item) :: rest =>
    writeEntry indent name (writeAfterKey indent item) (' ' :: writeAt (indent + 2) item)
      :: writeEntries indent rest

-- A value behind the colon of a key in a mapping at `indent`. Collections that are not empty
-- start a new line, where sequences keep the column of the mapping.
def writeAfterKey (indent : Nat) : Value → List Char
  | .sequence (item :: rest) =>
    '\n' :: spaces indent
      ++ joinLines indent (('-' :: ' ' :: writeAt (indent + 2) item) :: writeItems indent rest)
  | .mapping ((name, item) :: rest) =>
    '\n' :: spaces (indent + 2)
      ++ joinLines (indent + 2)
        (writeEntry (indent + 2) name (writeAfterKey (indent + 2) item)
          (' ' :: writeAt (indent + 4) item)
          :: writeEntries (indent + 2) rest)
  | .bool b => ' ' :: (if b then "true" else "false").toList
  | .integer n => ' ' :: (Text.decimalInt n.toInt).toList
  | .float d => ' ' :: (floatLayout.write d).toList
  | .string s => ' ' :: writeString (indent + 2) s
  | .sequence [] => [' ', '[', ']']
  | .mapping [] => [' ', '\x7b', '\x7d']

end

-- The document of a value. A string that is the whole document is indented as if it stood in a
-- collection.
def write (v : Value) : String :=
  let text :=
    match v with
    | .string s => writeString 2 s
    | v => writeAt 0 v
  String.ofList (onNewLine 0 text)

end Skeleton.Yaml
