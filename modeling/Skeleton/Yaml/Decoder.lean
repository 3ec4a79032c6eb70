import Skeleton.Yaml.Untyped

-- Reading documents of a given form. A decoder gets a part of a document and the way there, and
-- errors are those of the first part in the document that is not what is asked for.

namespace Skeleton.Yaml

abbrev Decoder (α : Type) := DocumentPath → Tree → Except DecodeError α

namespace Decoder

def wrongType {α : Type} (wanted : String) : Tree → Except DecodeError α
  | .alias _ target => wrongType wanted target
  | .scalar _ tag style s => do
    let found ← foundOfScalar tag style s
    mismatch (.type found wanted)
  | .sequence _ _ _ => mismatch (.type .sequence wanted)
  | .mapping _ _ _ => mismatch (.type .mapping wanted)

def isAbsent (style : ScalarStyle) (s : String) : Bool := style = .plain && s.isEmpty

-- The text of a scalar that passes a check, whatever the scalar means.
def scalar {α : Type} (wanted : String) (check : String → Except DecodeError α) : Decoder α
  | path, .alias _ target => scalar wanted check path target
  | path, .scalar m _ _ s => locate path m (check s)
  | path, tree => locate path tree.mark (wrongType wanted tree)

def text : Decoder String := scalar "a string" .ok

-- Whether a part stands for nothing. The tag for nothing asks for a word for it.
def isNull : Tree → Except DecodeError Bool
  | .scalar _ none .plain s => .ok (s.isEmpty || isNullWord s)
  | .scalar _ (some tag) .plain s =>
    if tag ≠ kindTag "null" then .ok false
    else if isNullWord s then .ok true
    else mismatch (.value s "null")
  | _ => .ok false

def optional {α : Type} (d : Decoder α) : Decoder (Option α)
  | path, .alias _ target => optional d path target
  | path, tree => do
    if ← isNull tree then .ok none else (d path tree).map some

def items {α : Type} (d : Decoder α) (path : DocumentPath) (index : Nat) :
    List Tree → Except DecodeError (List α)
  | [] => .ok []
  | item :: rest => do
    let x ← d (.item path index) item
    let xs ← items d path (index + 1) rest
    .ok (x :: xs)

-- A sequence. What is not written down is one without items.
def list {α : Type} (d : Decoder α) : Decoder (List α)
  | path, .alias _ target => list d path target
  | path, .sequence m _ parts => locate path m (items d path 0 parts)
  | path, tree =>
    match tree with
    | .scalar _ _ style s =>
      if isAbsent style s then .ok [] else locate path tree.mark (wrongType "a sequence" tree)
    | _ => locate path tree.mark (wrongType "a sequence" tree)

def mapping {α : Type} (wanted : String)
    (read : DocumentPath → List (Tree × Tree) → Except DecodeError α) : Decoder α
  | path, .alias _ target => mapping wanted read path target
  | path, .mapping m _ entries => locate path m (read path entries)
  | path, tree =>
    locate path tree.mark <|
      match tree with
      | .scalar _ _ style s =>
        if isAbsent style s then read path [] else wrongType wanted tree
      | _ => wrongType wanted tree

-- A mapping with texts as keys. Of two entries with one key the later counts.
def dictionary {α : Type} (d : Decoder α) : Decoder (Dictionary String α) :=
  mapping "a map" fun path entries =>
    entries.foldlM (fun found (key, value) => do
      let name ← text path key
      let x ← d (entryPath path key) value
      return found.insert name x) .empty

def fieldName (known : List String) : Decoder String :=
  scalar "field identifier" fun name =>
    if name ∈ known then .ok name else mismatch (.unknownField name known)

-- Goes through the fields of a record, each of which may come once.
def fields {σ : Type} (known : List String) (read : String → σ → Decoder σ)
    (path : DocumentPath) (seen : List String) (state : σ) :
    List (Tree × Tree) → Except DecodeError σ
  | [] => .ok state
  | (key, value) :: rest => do
    let name ← fieldName known path key
    if name ∈ seen then mismatch (.repeatedField name)
    else
      let state ← read name state (entryPath path key) value
      fields known read path (name :: seen) state rest

-- A record: its fields are read one after another into a state, which `finish` completes.
def record {σ α : Type} (name : String) (known : List String) (start : σ)
    (read : String → σ → Decoder σ) (finish : σ → Except DecodeError α) : Decoder α :=
  mapping ("struct " ++ name) fun path entries => do
    finish (← fields known read path [] start entries)

def required {α : Type} (name : String) (value : Option α) : Except DecodeError α :=
  match value with
  | some a => .ok a
  | none => mismatch (.missingField name)

def knownVariant (names : List String) (name : String) : Except DecodeError String :=
  if name ∈ names then .ok name else mismatch (.unknownVariant name names)

-- One of some names, as a scalar or as the tag of a node without content.
def variant (names : List String) : Decoder String
  | path, .alias m target => locate path m (variant names path target)
  | path, .scalar m tag style s =>
    match localTag? tag with
    | none => locate path m (knownVariant names s)
    | some name => do
      let name ← knownVariant names name
      if style = .plain ∧ (s.isEmpty ∨ isNullWord s) then .ok name
      else locate path m (mismatch (.value s "null"))
  | path, tree@(.sequence m tag _) => collection path m tag tree
  | path, tree@(.mapping m tag _) => collection path m tag tree
where
  collection (path : DocumentPath) (m : Mark) (tag : Option String) (tree : Tree) :
      Except DecodeError String :=
    match localTag? tag with
    | none => locate path m (wrongType "a YAML tag starting with '!'" tree)
    | some name => do
      let _ ← knownVariant names name
      locate path m (wrongType "unit" tree)

mutual

def untagged : Decoder Unit
  | path, .alias _ target => untagged path target
  | path, .scalar m tag _ _ => untaggedAt path m tag
  | path, .sequence m tag parts => do
    untaggedAt path m tag
    untaggedItems path 0 parts
  | path, .mapping m tag entries => do
    untaggedAt path m tag
    untaggedEntries path entries

def untaggedAt (path : DocumentPath) (m : Mark) (tag : Option String) : Except DecodeError Unit :=
  locate path m (if (localTag? tag).isSome then mismatch .taggedVariant else .ok ())

def untaggedItems (path : DocumentPath) (index : Nat) : List Tree → Except DecodeError Unit
  | [] => .ok ()
  | item :: rest => do
    untagged (.item path index) item
    untaggedItems path (index + 1) rest

def untaggedEntries (path : DocumentPath) : List (Tree × Tree) → Except DecodeError Unit
  | [] => .ok ()
  | (key, value) :: rest => do
    untagged path key
    untagged (entryPath path key) value
    untaggedEntries path rest

end

def alternative {α : Type} (name : String) (choose : Found → Option α) : Decoder α :=
  fun path tree => do
    untagged path tree
    match (← meaningOf path tree).bind choose with
    | some a => .ok a
    | none => mismatch (.noVariant name)
where
  meaningOf : DocumentPath → Tree → Except DecodeError (Option Found)
    | path, .alias _ target => meaningOf path target
    | path, .scalar m tag style s => (locate path m (foundOfScalar tag style s)).map some
    | _, _ => .ok none

end Decoder

def Decoder.run {α : Type} (d : Decoder α) (s : String) : Except LoadError α :=
  match treeOf s with
  | .error e => .error (.notDocument e)
  | .ok tree => (d .root tree).mapError .notDecoded

end Skeleton.Yaml
