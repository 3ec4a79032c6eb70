import Skeleton.Yaml.Quoted

-- Scalars without quotes.

namespace Skeleton.Yaml

def isFlowIndicator (c : Char) : Bool :=
  c == ',' || c == '[' || c == ']' || c == '\x7b' || c == '\x7d'

structure PlainText where
  text : String
  cursor : Cursor
  broken : Bool

-- Whether a plain scalar ends before a character that starts a word of it: where the line is not
-- indented enough, at a document indicator and at a comment.
def endsBeforeWord (inFlow : Bool) (indent : Int) (c : Cursor) (x : Char) : Bool :=
  (!inFlow && (c.column : Int) < indent) || atDocumentIndicator c || x == '#'

-- Whether a plain scalar ends before a character: at a colon that a blank follows, and in a flow
-- collection at its indicators.
def endsBefore (inFlow : Bool) (x : Char) (rest : List Char) : Bool :=
  (x == ':' && startsBlank rest) || (inFlow && isFlowIndicator x)

-- The rest of a plain scalar. `text` holds what is read so far, the last character first.
def readPlain (inFlow : Bool) (indent : Int) (text : List Char) (gap : Gap) (inWord : Bool)
    (c : Cursor) : Except SyntaxError PlainText :=
  let done : Except SyntaxError PlainText := .ok ⟨String.ofList text.reverse, c, gap.isBroken⟩
  match _h : c.rest with
  | [] => done
  | x :: rest =>
    if isBlankChar x then
      if gap.isBroken && (c.column : Int) < indent && x == '\t' then c.fail .tabIndentation
      else readPlain inFlow indent text (gap.addBlank x) false (c.skip 1)
    else if _hb : isBreak x then
      readPlain inFlow indent text (gap.addBreak x) false c.skipBreak
    else if !inWord && endsBeforeWord inFlow indent c x then done
    else if inFlow && x == ':' && rest.head?.any fun y => y == '?' || isFlowIndicator y then
      c.fail .unexpectedColon
    else if endsBefore inFlow x rest then done
    else readPlain inFlow indent (x :: (gap.folded ++ text)) .none true (c.skip 1)
termination_by c.rest.length
decreasing_by
  · exact Cursor.length_skip_lt (by simp [_h]) Nat.one_pos
  · exact Cursor.length_skipBreak_lt (by simp [_h]) _hb
  · exact Cursor.length_skip_lt (by simp [_h]) Nat.one_pos

end Skeleton.Yaml
