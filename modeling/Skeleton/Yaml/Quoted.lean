import Skeleton.Yaml.Cursor

-- Scalars in quotes and scalars without, which may go over several lines. Blanks around a line
-- break do not count, one break is a space, and of more the first does not count.

namespace Skeleton.Yaml

-- The blanks and breaks since the last character that counts, the latest first. Once there is a
-- break, `fresh` tells whether it is one of the text; blanks count no more.
inductive Gap where
  | blanks (cs : List Char)
  | breaks (first : Option Char) (more : List Char)

namespace Gap

def none : Gap := .blanks []

def isBroken : Gap → Bool
  | .blanks _ => false
  | .breaks _ _ => true

def addBlank (c : Char) : Gap → Gap
  | .blanks cs => .blanks (c :: cs)
  | .breaks first more => .breaks first more

def addBreak (b : Char) : Gap → Gap
  | .blanks _ => .breaks (some (breakText b)) []
  | .breaks first more => .breaks first (breakText b :: more)

def folded : Gap → List Char
  | .blanks cs => cs
  | .breaks (some '\n') [] => [' ']
  | .breaks (some '\n') more => more
  | .breaks (some b) more => more ++ [b]
  | .breaks Option.none more => more

end Gap

def escaped? (c : Char) : Option Char :=
  match c with
  | '0' => some '\x00'
  | 'a' => some '\x07'
  | 'b' => some '\x08'
  | 't' => some '\t'
  | '\t' => some '\t'
  | 'n' => some '\n'
  | 'v' => some '\x0B'
  | 'f' => some '\x0C'
  | 'r' => some '\r'
  | 'e' => some '\x1B'
  | ' ' => some ' '
  | '"' => some '"'
  | '/' => some '/'
  | '\\' => some '\\'
  | 'N' => some '\x85'
  | '_' => some '\xA0'
  | 'L' => some '\u2028'
  | 'P' => some '\u2029'
  | _ => none

def escapeWidth? (c : Char) : Option Nat :=
  if c = 'x' then some 2 else if c = 'u' then some 4 else if c = 'U' then some 8 else none

def scalarValue? (n : Nat) : Option Char :=
  if n < 0xD800 ∨ (0xE000 ≤ n ∧ n < 0x110000) then some (Char.ofNat n) else none

-- The character that an escape stands for, and how many characters follow the backslash. The
-- cursor is at the backslash.
def readEscape (c : Cursor) (mark : Char) (rest : List Char) : Except SyntaxError (Char × Nat) :=
  match escaped? mark with
  | some e => .ok (e, 1)
  | none =>
    match escapeWidth? mark with
    | none => c.fail .unknownEscape
    | some width =>
      let digits := rest.take width
      if digits.length < width then c.fail .badEscape
      else
        match (Text.readNat? 16 digits).bind scalarValue? with
        | some e => .ok (e, width + 1)
        | none => c.fail .badEscape

-- The rest of a scalar in quotes, behind its opening quote. `text` holds what is read so far,
-- the last character first.
def readQuoted (quote : Char) (text : List Char) (gap : Gap) (c : Cursor) :
    Except SyntaxError (String × Cursor) :=
  match _h : c.rest with
  | [] => c.fail .unexpectedEnd
  | x :: rest =>
    if atDocumentIndicator c then c.fail .unexpectedIndicator
    else if isBlankChar x then readQuoted quote text (gap.addBlank x) (c.skip 1)
    else if isBreak x then readQuoted quote text (gap.addBreak x) c.skipBreak
    else
      let text := gap.folded ++ text
      if x = quote then
        if quote = '\'' ∧ rest.head? = some '\'' then
          readQuoted quote ('\'' :: text) .none (c.skip 2)
        else .ok (String.ofList text.reverse, c.skip 1)
      else if quote = '"' ∧ x = '\\' then
        match _hr : rest with
        | [] => c.fail .unknownEscape
        | mark :: more =>
          if isBreak mark then
            readQuoted quote text (.breaks Option.none []) (c.skip 1).skipBreak
          else
            match readEscape c mark more with
            | .error e => .error e
            | .ok (e, n) => readQuoted quote (e :: text) .none (c.skip (n + 1))
      else readQuoted quote (x :: text) .none (c.skip 1)
termination_by c.rest.length
decreasing_by
  all_goals simp only [Cursor.skip, Cursor.skipBreak, _h, List.drop_succ_cons, List.drop_zero,
    List.length_cons, List.length_drop]
  all_goals first
    | omega
    | skip
  all_goals (split <;> try split) <;> simp_all <;> omega

end Skeleton.Yaml
