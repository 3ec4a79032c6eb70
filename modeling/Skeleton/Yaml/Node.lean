import Skeleton.Yaml.Lexer

-- Documents as trees of nodes, read from their tokens. Aliases are not followed yet.

namespace Skeleton.Yaml

-- What stands before a node. Anchors are numbered.
structure Properties where
  anchor : Option Nat
  tag : Option String

def Properties.none : Properties := ⟨Option.none, Option.none⟩

inductive Node where
  | alias (mark : Mark) (anchor : Nat)
  | scalar (mark : Mark) (props : Properties) (style : ScalarStyle) (text : String)
  | sequence (mark : Mark) (props : Properties) (items : List Node)
  | mapping (mark : Mark) (props : Properties) (entries : List (Node × Node))
  deriving Inhabited

-- A node that is not written down.
def Node.empty (mark : Mark) : Node := .scalar mark .none .plain ""

-- The tokens that are left, and the numbers of the anchors that are named so far.
structure NodeReader where
  tokens : List Token
  anchors : List (String × Nat)

abbrev Reading := StateT NodeReader (Except SyntaxError)

namespace NodeReader

def next (r : NodeReader) : Token := r.tokens.headD ⟨⟨0, 0⟩, .streamEnd⟩

def peek : Reading TokenKind := do return (← get).next.kind

def mark : Reading Mark := do return (← get).next.mark

def markBehind : Reading Mark := do
  let m ← mark
  return ⟨m.line, m.column + 1⟩

def skip : Reading Unit := modify fun r => { r with tokens := r.tokens.tail }

def failAt {α : Type} (mark : Mark) (fault : SyntaxFault) : Reading α := throw ⟨mark, fault⟩

def fail {α : Type} (fault : SyntaxFault) : Reading α := do failAt (← mark) fault

-- Whether the next token is of a kind. If so it is skipped.
def accept (kind : TokenKind) : Reading Bool := do
  if (← peek) = kind then
    skip
    return true
  else return false

-- Gives a name the number of the names so far. A name that is there already gets a new number.
def nameAnchor (name : String) : Reading Nat := do
  let anchors := (← get).anchors
  let n := anchors.length
  modify fun r => { r with anchors := insertEntry name n anchors }
  return n

def acceptAnchor : Reading (Option Nat) := do
  match ← peek with
  | .anchor name =>
    skip
    return some (← nameAnchor name)
  | _ => return none

def acceptTag (handles : List (String × String)) : Reading (Option String) := do
  match ← peek with
  | .tag handle suffix =>
    let m ← mark
    skip
    if handle.isEmpty then return some suffix
    else
      match lookupEntry handle handles with
      | some address => return some (address ++ suffix)
      | none => failAt m .handleUnknown
  | _ => return none

def properties (handles : List (String × String)) : Reading Properties := do
  match ← acceptAnchor with
  | some anchor => return ⟨some anchor, ← acceptTag handles⟩
  | none =>
    let tag ← acceptTag handles
    if tag.isSome then return ⟨← acceptAnchor, tag⟩ else return .none

-- A scalar. The tag `!` asks for the meaning that the scalar has without one.
def scalarNode (m : Mark) (props : Properties) (style : ScalarStyle) (text : String) : Node :=
  .scalar m { props with tag := props.tag.filter (· != "!") } style text

def endsBlockItem (k : TokenKind) : Bool := k = .blockEntry || k = .blockEnd

def endsBlockPart (k : TokenKind) : Bool := k = .key || k = .value || k = .blockEnd

def endsFlowItem (k : TokenKind) : Bool := k = .flowEntry || k = .flowSequenceEnd

def endsFlowPart (k : TokenKind) : Bool := k = .flowEntry || k = .flowMappingEnd

def separator (first : Bool) (fault : SyntaxFault) : Reading Unit := do
  unless first do
    unless ← accept .flowEntry do fail fault

mutual

-- A node. Every call goes over a token or is the last one before the next token, so that `fuel`
-- is a multiple of the number of tokens.
def node (handles : List (String × String)) (fuel : Nat) (inBlock indentless : Bool) :
    Reading Node := do
  match fuel with
  | 0 => fail .unexpectedEnd
  | fuel + 1 =>
    let m ← mark
    match ← peek with
    | .alias name =>
      match lookupEntry name (← get).anchors with
      | some n =>
        skip
        return .alias m n
      | none => fail .unknownAnchor
    | _ =>
      let props ← properties handles
      match ← peek with
      | .scalar style text =>
        skip
        return scalarNode m props style text
      | .flowSequenceStart =>
        skip
        return .sequence m props (← flowItems handles fuel true)
      | .flowMappingStart =>
        skip
        return .mapping m props (← flowEntries handles fuel true)
      | .blockEntry =>
        if indentless then return .sequence m props (← indentlessItems handles fuel)
        else missing m props
      | .blockSequenceStart =>
        if inBlock then
          skip
          return .sequence m props (← blockItems handles fuel)
        else missing m props
      | .blockMappingStart =>
        if inBlock then
          skip
          return .mapping m props (← blockEntries handles fuel)
        else missing m props
      | _ => missing m props
where
  missing (m : Mark) (props : Properties) : Reading Node :=
    if props.anchor.isNone && props.tag.isNone then fail .nodeContent
    else return .scalar m props .plain ""

def optionalNode (handles : List (String × String)) (fuel : Nat) (m : Mark)
    (ends : TokenKind → Bool) (inBlock indentless : Bool) : Reading Node := do
  match fuel with
  | 0 => fail .unexpectedEnd
  | fuel + 1 =>
    if ends (← peek) then return .empty m else node handles fuel inBlock indentless

def blockItems (handles : List (String × String)) (fuel : Nat) : Reading (List Node) := do
  match fuel with
  | 0 => fail .unexpectedEnd
  | fuel + 1 =>
    let m ← markBehind
    if ← accept .blockEntry then
      let item ← optionalNode handles fuel m endsBlockItem true false
      return item :: (← blockItems handles fuel)
    else if ← accept .blockEnd then return []
    else fail .expectedEntry

-- The items of a sequence that is not indented more than the mapping around it.
def indentlessItems (handles : List (String × String)) (fuel : Nat) : Reading (List Node) := do
  match fuel with
  | 0 => fail .unexpectedEnd
  | fuel + 1 =>
    let m ← markBehind
    if ← accept .blockEntry then
      let item ←
        optionalNode handles fuel m (fun k => endsBlockItem k || endsBlockPart k) true false
      return item :: (← indentlessItems handles fuel)
    else return []

def blockEntries (handles : List (String × String)) (fuel : Nat) :
    Reading (List (Node × Node)) := do
  match fuel with
  | 0 => fail .unexpectedEnd
  | fuel + 1 =>
    let m ← markBehind
    if ← accept .key then
      let key ← optionalNode handles fuel m endsBlockPart true true
      let here ← mark
      let behind ← markBehind
      let value ←
        if ← accept .value then optionalNode handles fuel behind endsBlockPart true true
        else pure (.empty here)
      return (key, value) :: (← blockEntries handles fuel)
    else if ← accept .blockEnd then return []
    else fail .expectedKey

def flowItems (handles : List (String × String)) (fuel : Nat) (first : Bool) :
    Reading (List Node) := do
  match fuel with
  | 0 => fail .unexpectedEnd
  | fuel + 1 =>
    if ← accept .flowSequenceEnd then return []
    else
      separator first .expectedSequenceEnd
      let m ← mark
      if ← accept .key then
        let entry ← singleEntry handles fuel
        return .mapping m .none [entry] :: (← flowItems handles fuel false)
      else if ← accept .flowSequenceEnd then return []
      else
        let item ← node handles fuel false false
        return item :: (← flowItems handles fuel false)

-- The entry of a mapping that is an item of a flow sequence by itself. Where the key is not
-- written down, the token in its place counts as read.
def singleEntry (handles : List (String × String)) (fuel : Nat) : Reading (Node × Node) := do
  match fuel with
  | 0 => fail .unexpectedEnd
  | fuel + 1 =>
    let m ← markBehind
    let k ← peek
    let key ←
      if k = .value || endsFlowItem k then
        skip
        pure (.empty m)
      else node handles fuel false false
    let here ← mark
    if ← accept .value then
      return (key, ← optionalNode handles fuel (← mark) endsFlowItem false false)
    else return (key, .empty here)

def flowEntries (handles : List (String × String)) (fuel : Nat) (first : Bool) :
    Reading (List (Node × Node)) := do
  match fuel with
  | 0 => fail .unexpectedEnd
  | fuel + 1 =>
    if ← accept .flowMappingEnd then return []
    else
      separator first .expectedMappingEnd
      if ← accept .key then
        let ends := fun k => k = .value || endsFlowPart k
        let key ← optionalNode handles fuel (← mark) ends false false
        let here ← mark
        let value ←
          if ← accept .value then
            optionalNode handles fuel (← mark) endsFlowPart false false
          else pure (.empty here)
        return (key, value) :: (← flowEntries handles fuel false)
      else if ← accept .flowMappingEnd then return []
      else
        let key ← node handles fuel false false
        let here ← mark
        return (key, .empty here) :: (← flowEntries handles fuel false)

end

def defaultHandles : List (String × String) := [("!", "!"), ("!!", "tag:yaml.org,2002:")]

def directives (fuel : Nat) (versioned : Bool) (handles : List (String × String)) :
    Reading (List (String × String)) := do
  match fuel with
  | 0 => return handles
  | fuel + 1 =>
    match ← peek with
    | .version major minor =>
      if versioned then fail .versionTwice
      else if major = 1 ∧ (minor = 1 ∨ minor = 2) then
        skip
        directives fuel true handles
      else fail .versionUnknown
    | .tagDirective handle address =>
      if (lookupEntry handle handles).isSome then fail .handleTwice
      else
        skip
        directives fuel versioned ((handle, address) :: handles)
    | _ => return handles

def isDirective : TokenKind → Bool
  | .version _ _ => true
  | .tagDirective _ _ => true
  | _ => false

def endsDocument (k : TokenKind) : Bool :=
  isDirective k || k = .documentStart || k = .documentEnd || k = .streamEnd

def skipDocumentEnds : Nat → Reading Unit
  | 0 => pure ()
  | fuel + 1 => do
    if ← accept .documentEnd then skipDocumentEnds fuel

-- The only document of a text. A text without one stands for an empty node.
def document : Reading Node := do
  let size := (← get).tokens.length
  let m ← mark
  let k ← peek
  if k = .streamEnd then return .empty m
  else
    let root ←
      if isDirective k || k = .documentStart then
        let handles ← directives size false []
        unless ← accept .documentStart do fail .documentStart
        optionalNode (handles ++ defaultHandles) (4 * size) (← mark) endsDocument true false
      else node defaultHandles (4 * size) true false
    skipDocumentEnds size
    match ← peek with
    | .streamEnd => return root
    | k =>
      if isDirective k || k = .documentStart then failAt ⟨0, 0⟩ .secondDocument
      else fail .documentStart

end NodeReader

def nodeOf (s : String) : Except SyntaxError Node := do
  let tokens ← tokensOf s
  let (root, _) ← NodeReader.document.run ⟨tokens, []⟩
  .ok root

end Skeleton.Yaml
