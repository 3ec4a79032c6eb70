import Skeleton.Yaml.Cursor

-- Block scalars: the indented lines behind `|` and `>`.

namespace Skeleton.Yaml

-- What becomes of the breaks behind the last line: none, one, or all of them are text.
inductive Chomping where
  | strip
  | clip
  | keep
  deriving DecidableEq

structure BlockHeader where
  chomping : Chomping
  indentation : Option Nat

def chomping? (c : Char) : Option Chomping :=
  if c = '+' then some .keep else if c = '-' then some .strip else none

def readIndentation (c : Cursor) : Except SyntaxError (Option Nat × Cursor) :=
  match c.peek? with
  | some d =>
    if d = '0' then c.fail .indentationZero
    else if Text.isDigit d then .ok (some (d.toNat - '0'.toNat), c.skip 1)
    else .ok (none, c)
  | none => .ok (none, c)

def readHeader (c : Cursor) : Except SyntaxError (BlockHeader × Cursor) := do
  match c.peek?.bind chomping? with
  | some chomping =>
    let (indentation, c) ← readIndentation (c.skip 1)
    .ok (⟨chomping, indentation⟩, c)
  | none =>
    let (indentation, d) ← readIndentation c
    if indentation.isNone then .ok (⟨.clip, none⟩, c)
    else
      match d.peek?.bind chomping? with
      | some chomping => .ok (⟨chomping, indentation⟩, d.skip 1)
      | none => .ok (⟨.clip, indentation⟩, d)

def skipLineEnd (fault : SyntaxFault) (c : Cursor) : Except SyntaxError Cursor :=
  let c := c.skipWhile isBlankChar
  let c := if c.peek? = some '#' then c.skipLine else c
  if c.peek?.all isBreak then .ok c.skipBreak else c.fail fault

-- The breaks before the next line with text, the last first, and the deepest indentation on the
-- way. With an indentation of zero any number of spaces is skipped.
def readBreaks (indent : Nat) (breaks : List Char) (deepest : Nat) (c : Cursor) :
    Except SyntaxError (List Char × Nat × Cursor) :=
  let run := (c.rest.takeWhile isSpace).length
  let d := c.skip (if indent = 0 then run else min run (indent - c.column))
  let deepest := max deepest d.column
  match _h : d.peek? with
  | none => .ok (breaks, deepest, d)
  | some x =>
    if x = '\t' ∧ (indent = 0 ∨ d.column < indent) then d.fail .tabIndentation
    else if _hb : isBreak x then readBreaks indent (breakText x :: breaks) deepest d.skipBreak
    else .ok (breaks, deepest, d)
termination_by c.rest.length
decreasing_by
  exact Nat.lt_of_lt_of_le (Cursor.length_skipBreak_lt _h _hb) (Cursor.length_skip_le _ _)

theorem length_readBreaks_le {indent : Nat} {breaks breaks' : List Char} {deepest deepest' : Nat}
    {c d : Cursor} (h : readBreaks indent breaks deepest c = .ok (breaks', deepest', d)) :
    d.rest.length ≤ c.rest.length := by
  fun_induction readBreaks indent breaks deepest c with
  | case1 =>
    simp only [Except.ok.injEq, Prod.mk.injEq] at h
    simp only [← h.2.2]
    exact Cursor.length_skip_le _ _
  | case2 => simp [Cursor.fail] at h
  | case3 _ _ _ _ _ _ _ hpeek _ hbreak ih =>
    refine Nat.le_trans (ih h) (Nat.le_trans (Cursor.length_skipBreak_le _) ?_)
    exact Cursor.length_skip_le _ _
  | case4 =>
    simp only [Except.ok.injEq, Prod.mk.injEq] at h
    simp only [← h.2.2]
    exact Cursor.length_skip_le _ _

-- The text of a block scalar on the way. `text` and `breaks` hold the last character first;
-- `lineBreak` is the break behind the last line, `blankLine` tells whether that line starts with
-- a blank.
structure BlockText where
  text : List Char
  lineBreak : Option Char
  breaks : List Char
  blankLine : Bool

def foldsBreak (literal : Bool) (b : BlockText) (blank : Bool) : Bool :=
  !literal && b.lineBreak == some '\n' && !b.blankLine && !blank

def BlockText.join (literal : Bool) (b : BlockText) (blank : Bool) : List Char :=
  if foldsBreak literal b blank then
    if b.breaks.isEmpty then ' ' :: b.text else b.breaks ++ b.text
  else b.breaks ++ b.lineBreak.toList ++ b.text

def readLines (literal : Bool) (indent : Nat) (b : BlockText) (c : Cursor) :
    Except SyntaxError (BlockText × Cursor) :=
  match _h : c.rest with
  | [] => .ok (b, c)
  | x :: _ =>
    if c.column = indent then
      let blank := isBlankChar x
      let line := c.rest.takeWhile fun y => !isBreak y
      let text := line.reverse ++ b.join literal blank
      let lineBreak := c.skipLine.peek?.map breakText
      match _hr : readBreaks indent [] 0 c.skipLine.skipBreak with
      | .error e => .error e
      | .ok (breaks, _, d) => readLines literal indent ⟨text, lineBreak, breaks, blank⟩ d
    else .ok (b, c)
termination_by c.rest.length
decreasing_by
  exact Nat.lt_of_le_of_lt (length_readBreaks_le _hr)
    (Cursor.length_skipLine_skipBreak_lt (by simp [_h]))

-- A block scalar in a collection that is indented by `parent`, or by -1 at the top. The cursor is
-- at the indicator. Without a given indentation the first line with text tells it.
def readBlock (literal : Bool) (parent : Int) (c : Cursor) :
    Except SyntaxError (String × Cursor) := do
  let (header, c) ← readHeader (c.skip 1)
  let c ← skipLineEnd .blockHeader c
  let given := (header.indentation.map fun n => (max parent 0).toNat + n).getD 0
  let (breaks, deepest, c) ← readBreaks given [] 0 c
  let indent := if given = 0 then max deepest (max (parent + 1).toNat 1) else given
  let (b, c) ← readLines literal indent ⟨[], none, breaks, false⟩ c
  let text :=
    match header.chomping with
    | .strip => b.text
    | .clip => b.lineBreak.toList ++ b.text
    | .keep => b.breaks ++ b.lineBreak.toList ++ b.text
  .ok (String.ofList text.reverse, c)

end Skeleton.Yaml
