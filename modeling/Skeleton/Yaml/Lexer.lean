import Skeleton.Yaml.Plain
import Skeleton.Yaml.Tag

-- The tokens of a text. A key without an indicator is known only by the colon behind it, so its
-- token goes in front of tokens that are there already.

namespace Skeleton.Yaml

-- A place where a key may have started: its token's position, and whether it must be a key.
structure KeyStart where
  required : Bool
  position : Nat
  index : Nat
  mark : Mark

-- The state between two tokens. The indentations of the open block collections stand innermost
-- first, and so do the starts of keys, one for each open flow collection and one for the blocks.
structure Lexer where
  cursor : Cursor
  tokens : Array Token
  indent : Int
  indents : List Int
  keyStarts : List (Option KeyStart)
  keyAllowed : Bool

namespace Lexer

def start (c : Cursor) : Lexer := ⟨c, #[], -1, [], [none], true⟩

def inFlow (l : Lexer) : Bool := 1 < l.keyStarts.length

def mark (l : Lexer) : Mark := l.cursor.mark

def add (l : Lexer) (kind : TokenKind) : Lexer :=
  { l with tokens := l.tokens.push ⟨l.mark, kind⟩ }

def moveTo (l : Lexer) (c : Cursor) : Lexer := { l with cursor := c }

def addIndicator (l : Lexer) (kind : TokenKind) (length : Nat) : Lexer :=
  (l.add kind).moveTo (l.cursor.skip length)

def allowKey (l : Lexer) (allowed : Bool) : Lexer := { l with keyAllowed := allowed }

-- Whether a key that started there can still be one: it is on one line and not too long.
def isStale (c : Cursor) (k : KeyStart) : Bool :=
  k.mark.line < c.line || k.index + 1024 < c.index

def dropStale (l : Lexer) : Except SyntaxError Lexer := do
  let stale (k : KeyStart) : Bool := isStale l.cursor k
  if l.keyStarts.any fun k => k.any fun k => k.required && stale k then
    l.cursor.fail .missingColon
  else .ok { l with keyStarts := l.keyStarts.map fun k => k.filter fun k => !stale k }

def dropKeyStart (l : Lexer) : Except SyntaxError Lexer :=
  match l.keyStarts with
  | some k :: rest =>
    if k.required then l.cursor.fail .missingColon else .ok { l with keyStarts := none :: rest }
  | _ => .ok l

def saveKeyStart (l : Lexer) : Except SyntaxError Lexer := do
  if l.keyAllowed then
    let l ← l.dropKeyStart
    let required := !l.inFlow && l.indent == (l.cursor.column : Int)
    let k : KeyStart := ⟨required, l.tokens.size, l.cursor.index, l.mark⟩
    .ok { l with keyStarts := some k :: l.keyStarts.tail }
  else .ok l

-- Opens a block collection where the column is deeper than the indentation. Its token goes to a
-- position among the others.
def openBlock (l : Lexer) (column : Nat) (position : Nat) (mark : Mark) (kind : TokenKind) :
    Lexer :=
  if l.inFlow || (column : Int) ≤ l.indent then l
  else
    { l with
      indent := column
      indents := l.indent :: l.indents
      tokens := l.tokens.insertIdxIfInBounds position ⟨mark, kind⟩ }

def openBlockHere (l : Lexer) (kind : TokenKind) : Lexer :=
  l.openBlock l.cursor.column l.tokens.size l.mark kind

-- Closes the block collections that are deeper than a column. `indents` are the indentations
-- around the one of `l`.
def closeBlocksFrom (column : Int) (indents : List Int) (l : Lexer) : Lexer :=
  if l.indent ≤ column then l
  else
    match indents with
    | [] => l
    | outer :: rest =>
      closeBlocksFrom column rest { l.add .blockEnd with indent := outer, indents := rest }

def closeBlocks (l : Lexer) (column : Int) : Lexer :=
  if l.inFlow then l else closeBlocksFrom column l.indents l

-- Goes to the next token, over blanks, comments and breaks. A tab counts as a blank where no key
-- can start, and a new line can start one.
def skipToToken (inFlow keyAllowed : Bool) (c : Cursor) : Bool × Cursor :=
  match _h : c.rest with
  | [] => (keyAllowed, c)
  | x :: _ =>
    if x = ' ' ∨ (x = '\t' ∧ (inFlow ∨ !keyAllowed)) then skipToToken inFlow keyAllowed (c.skip 1)
    else if x = '#' then
      let d := c.skipLine
      if d.rest.isEmpty then (keyAllowed, d)
      else skipToToken inFlow (keyAllowed || !inFlow) d.skipBreak
    else if _hb : isBreak x then skipToToken inFlow (keyAllowed || !inFlow) c.skipBreak
    else (keyAllowed, c)
termination_by c.rest.length
decreasing_by
  · exact Cursor.length_skip_lt (by simp [_h]) Nat.one_pos
  · exact Cursor.length_skipLine_skipBreak_lt (by simp [_h])
  · exact Cursor.length_skipBreak_lt (by simp [_h]) _hb

-- A token between documents: it ends all blocks.
def documentLevel (l : Lexer) : Except SyntaxError Lexer := do
  let l ← (l.closeBlocks (-1)).dropKeyStart
  .ok (l.allowKey false)

def lexStreamEnd (l : Lexer) : Except SyntaxError Lexer := do
  .ok ((← l.documentLevel).add .streamEnd)

def lexDirective (l : Lexer) : Except SyntaxError Lexer := do
  let l ← l.documentLevel
  let (kind, c) ← readDirective l.cursor
  .ok ((l.add kind).moveTo c)

def lexDocumentIndicator (l : Lexer) (kind : TokenKind) : Except SyntaxError Lexer := do
  .ok ((← l.documentLevel).addIndicator kind 3)

def lexFlowStart (l : Lexer) (kind : TokenKind) : Except SyntaxError Lexer := do
  let l ← l.saveKeyStart
  .ok (({ l with keyStarts := none :: l.keyStarts }.allowKey true).addIndicator kind 1)

def lexFlowEnd (l : Lexer) (kind : TokenKind) : Except SyntaxError Lexer := do
  let l ← l.dropKeyStart
  let keyStarts := if l.inFlow then l.keyStarts.tail else l.keyStarts
  .ok (({ l with keyStarts }.allowKey false).addIndicator kind 1)

def lexFlowEntry (l : Lexer) : Except SyntaxError Lexer := do
  .ok (((← l.dropKeyStart).allowKey true).addIndicator .flowEntry 1)

def lexBlockEntry (l : Lexer) : Except SyntaxError Lexer := do
  if !l.inFlow && !l.keyAllowed then l.cursor.fail .entryNotAllowed
  else
    let l ← (l.openBlockHere .blockSequenceStart).dropKeyStart
    .ok ((l.allowKey true).addIndicator .blockEntry 1)

def lexKey (l : Lexer) : Except SyntaxError Lexer := do
  if !l.inFlow && !l.keyAllowed then l.cursor.fail .keyNotAllowed
  else
    let l ← (l.openBlockHere .blockMappingStart).dropKeyStart
    .ok ((l.allowKey !l.inFlow).addIndicator .key 1)

-- A colon: of the key that started last, or of one with an indicator.
def lexValue (l : Lexer) : Except SyntaxError Lexer := do
  match l.keyStarts with
  | some k :: rest =>
    let l := { l with
      tokens := l.tokens.insertIdxIfInBounds k.position ⟨k.mark, .key⟩
      keyStarts := none :: rest }
    let l := l.openBlock k.mark.column k.position k.mark .blockMappingStart
    .ok ((l.allowKey false).addIndicator .value 1)
  | _ =>
    if !l.inFlow && !l.keyAllowed then l.cursor.fail .valueNotAllowed
    else
      let l := l.openBlockHere .blockMappingStart
      .ok ((l.allowKey !l.inFlow).addIndicator .value 1)

def lexNodePart (l : Lexer) (read : Lexer → Except SyntaxError (TokenKind × Cursor)) :
    Except SyntaxError Lexer := do
  let l ← l.saveKeyStart
  let (kind, c) ← read l
  .ok (((l.add kind).moveTo c).allowKey false)

def lexBlockScalar (l : Lexer) (style : ScalarStyle) : Except SyntaxError Lexer := do
  let l ← l.dropKeyStart
  let (text, c) ← readBlock (style = .literal) l.indent l.cursor
  .ok (((l.add (.scalar style text)).moveTo c).allowKey true)

def lexQuoted (l : Lexer) (quote : Char) (style : ScalarStyle) : Except SyntaxError Lexer :=
  l.lexNodePart fun l => do
    let (text, c) ← readQuoted quote [] .none (l.cursor.skip 1)
    .ok (.scalar style text, c)

def lexPlain (l : Lexer) : Except SyntaxError Lexer := do
  let l ← l.saveKeyStart
  let p ← readPlain l.inFlow (l.indent + 1) [] .none true l.cursor
  .ok (((l.add (.scalar .plain p.text)).moveTo p.cursor).allowKey p.broken)

-- Whether a plain scalar can start with a character. An indicator can start one where what
-- follows shows that it is none.
def startsPlain (inFlow : Bool) (x : Char) (rest : List Char) : Bool :=
  if x == '-' then !rest.head?.any isBlankChar
  else if x == '?' || x == ':' then !inFlow && !startsBlank rest
  else !isBlankChar x && !isBreak x && !"#,[]\x7b\x7d&*!|>'\"%@`".toList.contains x

def lexToken (l : Lexer) : Except SyntaxError Lexer :=
  let c := l.cursor
  match c.rest with
  | [] => l.lexStreamEnd
  | x :: rest =>
    if c.column = 0 ∧ x = '%' then l.lexDirective
    else if atDocumentIndicator c then
      l.lexDocumentIndicator (if x = '-' then .documentStart else .documentEnd)
    else if x = '[' then l.lexFlowStart .flowSequenceStart
    else if x = '\x7b' then l.lexFlowStart .flowMappingStart
    else if x = ']' then l.lexFlowEnd .flowSequenceEnd
    else if x = '\x7d' then l.lexFlowEnd .flowMappingEnd
    else if x = ',' then l.lexFlowEntry
    else if x = '-' ∧ startsBlank rest then l.lexBlockEntry
    else if x = '?' ∧ (l.inFlow ∨ startsBlank rest) then l.lexKey
    else if x = ':' ∧ (l.inFlow ∨ startsBlank rest) then l.lexValue
    else if x = '*' then
      l.lexNodePart fun l => do
        let (name, c) ← readAnchorName (l.cursor.skip 1)
        .ok (.alias name, c)
    else if x = '&' then
      l.lexNodePart fun l => do
        let (name, c) ← readAnchorName (l.cursor.skip 1)
        .ok (.anchor name, c)
    else if x = '!' then l.lexNodePart fun l => readTag l.inFlow l.cursor
    else if x = '|' ∧ !l.inFlow then l.lexBlockScalar .literal
    else if x = '>' ∧ !l.inFlow then l.lexBlockScalar .folded
    else if x = '\'' then l.lexQuoted '\'' .single
    else if x = '"' then l.lexQuoted '"' .double
    else if startsPlain l.inFlow x rest then l.lexPlain
    else c.fail .unknownCharacter

def step (l : Lexer) : Except SyntaxError Lexer := do
  let (keyAllowed, c) := skipToToken l.inFlow l.keyAllowed l.cursor
  let l ← ((l.moveTo c).allowKey keyAllowed).dropStale
  (l.closeBlocks c.column).lexToken

-- The tokens up to the end of the text. Every step but the last goes over a character, so that
-- `fuel` is one more than there are characters.
def run : Nat → Lexer → Except SyntaxError (Array Token)
  | 0, l => l.cursor.fail .unexpectedEnd
  | fuel + 1, l => do
    let l ← l.step
    if l.tokens.back?.any fun t => t.kind = .streamEnd then .ok l.tokens else run fuel l

end Lexer

def isDocumentChar (c : Char) : Bool :=
  let n := c.toNat
  n == 0x09 || n == 0x0A || n == 0x0D || (0x20 ≤ n && n ≤ 0x7E) || n == 0x85
    || (0xA0 ≤ n && n ≤ 0xD7FF) || (0xE000 ≤ n && n ≤ 0xFFFD) || 0x10000 ≤ n

def dropOrderMark : List Char → List Char
  | '\uFEFF' :: rest => rest
  | cs => cs

-- The tokens of a text. One byte order mark is no part of the text, and another one is a blank.
def tokensOf (s : String) : Except SyntaxError (List Token) := do
  let cs := dropOrderMark s.toList
  if !cs.all isDocumentChar then (Cursor.start cs).fail .controlCharacter
  else
    let c := Cursor.start cs
    let c := if c.peek? = some '\uFEFF' then c.skip 1 else c
    let tokens ← Lexer.run (cs.length + 1) (.start c)
    .ok tokens.toList

end Skeleton.Yaml
