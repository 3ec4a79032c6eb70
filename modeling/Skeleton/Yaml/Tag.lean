import Skeleton.Yaml.Block
import Skeleton.Yaml.Token

-- Tags, anchors and directives.

namespace Skeleton.Yaml

-- The characters of a tag's address. Commas and brackets belong to it only between angle brackets.
def isAddressChar (bracketed : Bool) (c : Char) : Bool :=
  isNameChar c || ";/?:@&=+$.!~*'()".toList.contains c || (bracketed && ",[]".toList.contains c)

-- The octet of an escape such as `%2F`.
def readOctet? : List Char → Option (Nat × List Char)
  | '%' :: a :: b :: rest => (Text.readNat? 16 [a, b]).map fun n => (n, rest)
  | _ => none

-- The number of octets in the sequence that an octet starts, and its share of the character.
def leadingOctet? (n : Nat) : Option (Nat × Nat) :=
  if n < 0x80 then some (1, n)
  else if 0xC0 ≤ n ∧ n < 0xE0 then some (2, n - 0xC0)
  else if 0xE0 ≤ n ∧ n < 0xF0 then some (3, n - 0xE0)
  else if 0xF0 ≤ n ∧ n < 0xF8 then some (4, n - 0xF0)
  else none

def readTrailing? : Nat → Nat → List Char → Option (Nat × List Char)
  | 0, acc, cs => some (acc, cs)
  | count + 1, acc, cs =>
    (readOctet? cs).bind fun (n, rest) =>
      if 0x80 ≤ n ∧ n < 0xC0 then readTrailing? count (acc * 64 + (n - 0x80)) rest else none

-- A character whose octets are escaped one by one, and how many characters follow the first
-- percent sign.
def readEscapedChar? (cs : List Char) : Option (Char × Nat) :=
  (readOctet? cs).bind fun (n, rest) =>
    (leadingOctet? n).bind fun (count, share) =>
      (readTrailing? (count - 1) share rest).map fun (value, _) =>
        (Char.ofNat value, 3 * count - 1)

def readAddress (bracketed : Bool) (text : List Char) (c : Cursor) :
    Except SyntaxError (List Char × Cursor) :=
  match _h : c.rest with
  | [] => .ok (text.reverse, c)
  | x :: _ =>
    if x = '%' then
      match readEscapedChar? c.rest with
      | some (e, n) => readAddress bracketed (e :: text) (c.skip (n + 1))
      | none => c.fail .tagEscape
    else if isAddressChar bracketed x then readAddress bracketed (x :: text) (c.skip 1)
    else .ok (text.reverse, c)
termination_by c.rest.length
decreasing_by
  all_goals exact Cursor.length_skip_lt (by simp [_h]) (Nat.succ_pos _)

def readHandle (c : Cursor) : List Char × Cursor :=
  let name := (c.rest.drop 1).takeWhile isNameChar
  let d := c.skip (name.length + 1)
  if d.peek? = some '!' then ('!' :: (name ++ ['!']), d.skip 1) else ('!' :: name, d)

def readFullAddress (bracketed : Bool) (c : Cursor) : Except SyntaxError (List Char × Cursor) := do
  let (address, d) ← readAddress bracketed [] c
  if address.isEmpty then c.fail .tagAddress else .ok (address, d)

-- The parts of the tag at the cursor. Without a handle of its own a tag has the handle `!`, and
-- an address in angle brackets and the lone `!` have none.
def readTagParts (c : Cursor) : Except SyntaxError (String × String × Cursor) := do
  if c.rest.tail.head? = some '<' then
    let (address, d) ← readFullAddress true (c.skip 2)
    if d.peek? = some '>' then .ok ("", String.ofList address, d.skip 1) else d.fail .tagEnd
  else
    let (handle, d) := readHandle c
    if 1 < handle.length ∧ handle.getLast? = some '!' then
      let (address, d) ← readFullAddress false d
      .ok (String.ofList handle, String.ofList address, d)
    else
      let (address, d) ← readAddress false [] d
      let suffix := handle.tail ++ address
      if suffix.isEmpty then .ok ("", "!", d) else .ok ("!", String.ofList suffix, d)

def readTag (inFlow : Bool) (c : Cursor) : Except SyntaxError (TokenKind × Cursor) := do
  let (handle, suffix, d) ← readTagParts c
  if startsBlank d.rest || (inFlow && d.peek? == some ',') then .ok (.tag handle suffix, d)
  else d.fail .tagEnd

def readAnchorName (c : Cursor) : Except SyntaxError (String × Cursor) :=
  let name := c.rest.takeWhile isNameChar
  let d := c.skip name.length
  let ended := startsBlank d.rest || d.peek?.any fun x => "?:,]\x7d%@`".toList.contains x
  if name.isEmpty || !ended then d.fail .anchorName else .ok (String.ofList name, d)

def readVersionNumber (c : Cursor) : Except SyntaxError (Nat × Cursor) :=
  let digits := c.rest.takeWhile Text.isDigit
  match if digits.length ≤ 9 then Text.readNat? 10 digits else none with
  | some n => .ok (n, c.skip digits.length)
  | none => c.fail .versionNumber

def readVersion (c : Cursor) : Except SyntaxError (TokenKind × Cursor) := do
  let (major, c) ← readVersionNumber (c.skipWhile isBlankChar)
  if c.peek? = some '.' then
    let (minor, c) ← readVersionNumber (c.skip 1)
    .ok (.version major minor, c)
  else c.fail .versionNumber

def readTagDirective (c : Cursor) : Except SyntaxError (TokenKind × Cursor) := do
  let c := c.skipWhile isBlankChar
  if c.peek? = some '!' then
    let (handle, d) := readHandle c
    if handle.getLast? ≠ some '!' then d.fail .tagHandle
    else if !d.peek?.any isBlankChar then d.fail .tagEnd
    else
      let (address, d) ← readFullAddress true (d.skipWhile isBlankChar)
      if startsBlank d.rest then
        .ok (.tagDirective (String.ofList handle) (String.ofList address), d)
      else d.fail .tagEnd
  else c.fail .tagHandle

def readDirective (c : Cursor) : Except SyntaxError (TokenKind × Cursor) := do
  let name := (c.rest.drop 1).takeWhile isNameChar
  let d := c.skip (name.length + 1)
  if name.isEmpty || !startsBlank d.rest then d.fail .directiveName
  else
    let (kind, d) ←
      match String.ofList name with
      | "YAML" => readVersion d
      | "TAG" => readTagDirective d
      | _ => d.fail .unknownDirective
    let d ← skipLineEnd .directiveEnd d
    .ok (kind, d)

end Skeleton.Yaml
