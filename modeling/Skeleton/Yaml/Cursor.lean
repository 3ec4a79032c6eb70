import Skeleton.Text.Digits
import Skeleton.Yaml.Writer

-- A place in the text of a document, and what is wrong there.

namespace Skeleton.Yaml

-- A line and a column, both counted from zero.
structure Mark where
  line : Nat
  column : Nat
  deriving DecidableEq, Inhabited

-- The place as people count it. The very start goes without.
def Mark.text (m : Mark) : String :=
  if m.line = 0 ∧ m.column = 0 then ""
  else
    " at line " ++ Text.decimal (m.line + 1) ++ " column " ++ Text.decimal (m.column + 1)

inductive SyntaxFault where
  | controlCharacter
  | unknownCharacter
  | missingColon
  | entryNotAllowed
  | keyNotAllowed
  | valueNotAllowed
  | directiveName
  | unknownDirective
  | directiveEnd
  | versionNumber
  | tagHandle
  | tagAddress
  | tagEscape
  | tagEnd
  | anchorName
  | indentationZero
  | blockHeader
  | tabIndentation
  | unexpectedIndicator
  | unexpectedEnd
  | unknownEscape
  | badEscape
  | unexpectedColon
  | documentStart
  | versionTwice
  | versionUnknown
  | handleTwice
  | handleUnknown
  | nodeContent
  | expectedEntry
  | expectedKey
  | expectedSequenceEnd
  | expectedMappingEnd
  | unknownAnchor
  | secondDocument
  | nestedTooDeep
  | tooManyAliases
  deriving DecidableEq

def SyntaxFault.message : SyntaxFault → String
  | controlCharacter => "control characters are not allowed"
  | unknownCharacter => "found character that cannot start any token"
  | missingColon => "could not find expected ':'"
  | entryNotAllowed => "block sequence entries are not allowed in this context"
  | keyNotAllowed => "mapping keys are not allowed in this context"
  | valueNotAllowed => "mapping values are not allowed in this context"
  | directiveName => "could not find expected directive name"
  | unknownDirective => "found unknown directive name"
  | directiveEnd => "did not find expected comment or line break"
  | versionNumber => "did not find expected version number"
  | tagHandle => "did not find expected '!'"
  | tagAddress => "did not find expected tag URI"
  | tagEscape => "did not find URI escaped octet"
  | tagEnd => "did not find expected whitespace or line break"
  | anchorName => "did not find expected alphabetic or numeric character"
  | indentationZero => "found an indentation indicator equal to 0"
  | blockHeader => "did not find expected comment or line break"
  | tabIndentation => "found a tab character where an indentation space is expected"
  | unexpectedIndicator => "found unexpected document indicator"
  | unexpectedEnd => "found unexpected end of stream"
  | unknownEscape => "found unknown escape character"
  | badEscape => "did not find expected hexdecimal number"
  | unexpectedColon => "found unexpected ':'"
  | documentStart => "did not find expected <document start>"
  | versionTwice => "found duplicate %YAML directive"
  | versionUnknown => "found incompatible YAML document"
  | handleTwice => "found duplicate %TAG directive"
  | handleUnknown => "found undefined tag handle"
  | nodeContent => "did not find expected node content"
  | expectedEntry => "did not find expected '-' indicator"
  | expectedKey => "did not find expected key"
  | expectedSequenceEnd => "did not find expected ',' or ']'"
  | expectedMappingEnd => "did not find expected ',' or '\x7d'"
  | unknownAnchor => "unknown anchor"
  | secondDocument =>
    "deserializing from YAML containing more than one document is not supported"
  | nestedTooDeep => "recursion limit exceeded"
  | tooManyAliases => "repetition limit exceeded"

structure SyntaxError where
  mark : Mark
  fault : SyntaxFault

def SyntaxError.message (e : SyntaxError) : String := e.fault.message ++ e.mark.text

structure Cursor where
  rest : List Char
  index : Nat
  line : Nat
  column : Nat

namespace Cursor

def start (cs : List Char) : Cursor := ⟨cs, 0, 0, 0⟩

def mark (c : Cursor) : Mark := ⟨c.line, c.column⟩

def fail {α : Type} (c : Cursor) (fault : SyntaxFault) : Except SyntaxError α :=
  .error ⟨c.mark, fault⟩

def peek? (c : Cursor) : Option Char := c.rest.head?

-- The cursor behind some characters of the same line.
def skip (c : Cursor) (n : Nat) : Cursor :=
  { c with rest := c.rest.drop n, index := c.index + n, column := c.column + n }

-- The cursor behind a line break, of which a carriage return and a line feed make one.
def skipBreak (c : Cursor) : Cursor :=
  match c.rest with
  | '\r' :: '\n' :: rest => ⟨rest, c.index + 2, c.line + 1, 0⟩
  | b :: rest => if isBreak b then ⟨rest, c.index + 1, c.line + 1, 0⟩ else c
  | [] => c

def skipWhile (c : Cursor) (p : Char → Bool) : Cursor := c.skip (c.rest.takeWhile p).length

def skipLine (c : Cursor) : Cursor := c.skipWhile fun x => !isBreak x

theorem length_skip_le (c : Cursor) (n : Nat) : (c.skip n).rest.length ≤ c.rest.length := by
  simp [skip]

theorem length_skip_lt {c : Cursor} {n : Nat} (h : c.rest ≠ []) (hn : 0 < n) :
    (c.skip n).rest.length < c.rest.length := by
  have : 0 < c.rest.length := List.length_pos_iff.mpr h
  simp only [skip, List.length_drop]
  omega

theorem length_skipBreak_le (c : Cursor) : c.skipBreak.rest.length ≤ c.rest.length := by
  unfold skipBreak
  split
  · rename_i h
    simp only [h, List.length_cons]
    omega
  · rename_i h
    split <;> simp [h]
  · simp

theorem length_skipBreak_lt {c : Cursor} {b : Char} (h : c.rest.head? = some b)
    (hb : isBreak b = true) : c.skipBreak.rest.length < c.rest.length := by
  unfold skipBreak
  split
  · rename_i hr
    simp only [hr, List.length_cons]
    omega
  · rename_i hr
    simp only [hr, List.head?_cons, Option.some.injEq] at h
    simp [hr, h, hb]
  · rename_i hr
    simp [hr] at h

-- What is left after a line and its break is shorter, unless nothing was left before.
theorem length_skipLine_skipBreak_lt {c : Cursor} (h : c.rest ≠ []) :
    c.skipLine.skipBreak.rest.length < c.rest.length := by
  cases hc : c.rest with
  | nil => exact absurd hc h
  | cons x rest =>
    by_cases hx : isBreak x = true
    · have hline : c.skipLine = c := by
        simp [skipLine, skipWhile, skip, hc, hx]
        cases c
        simp_all
      rw [hline, ← hc]
      exact length_skipBreak_lt (by simp [hc]) hx
    · refine Nat.lt_of_le_of_lt (length_skipBreak_le _) ?_
      rw [← hc]
      apply length_skip_lt h
      simp [hc, hx]

end Cursor

def isBlankChar (c : Char) : Bool := c == ' ' || c == '\t'

def endsWord (cs : List Char) (n : Nat) : Bool := startsBlank (cs.drop n)

def breakText (b : Char) : Char := if b == '\u2028' || b == '\u2029' then b else '\n'

def atDocumentIndicator (c : Cursor) : Bool :=
  c.column == 0
    && (['-', '-', '-'].isPrefixOf c.rest || ['.', '.', '.'].isPrefixOf c.rest)
    && endsWord c.rest 3

def isNameChar (c : Char) : Bool := Text.isLetterOrDigit c || c == '_' || c == '-'

end Skeleton.Yaml
