import Skeleton.Yaml.Mismatch
import Skeleton.Yaml.Tree

-- Documents read for what they hold.

namespace Skeleton.Yaml

-- The name of a tag that starts with an exclamation mark, which makes a tagged value.
def localTag? (tag : Option String) : Option String :=
  tag.bind fun t =>
    match t.toList with
    | '!' :: rest => some (String.ofList rest)
    | _ => none

def foundOfPlain (s : String) : Found :=
  match meaning s with
  | .null => .null
  | .bool b => .bool b
  | .integer n => .integer n
  | .float d => .float d
  | .text => .string s

def kindTag (name : String) : String := "tag:yaml.org,2002:" ++ name

-- What a scalar holds. The tag of a kind asks for a text that can be read as one.
def foundOfScalar (tag : Option String) (style : ScalarStyle) (s : String) :
    Except DecodeError Found :=
  match tag with
  | none => .ok (if style = .plain then foundOfPlain s else .string s)
  | some t =>
    if t = kindTag "bool" then
      match truthWord? s with
      | some b => .ok (.bool b)
      | none => mismatch (.value s "a boolean")
    else if t = kindTag "int" then
      match (integer? s.toList).filter fitsLong with
      | some n => .ok (.integer n)
      | none => mismatch (.value s "an integer")
    else if t = kindTag "float" then
      match float? s with
      | some d => .ok (.float d)
      | none => mismatch (.value s "a float")
    else if t = kindTag "null" then
      if isNullWord s then .ok .null else mismatch (.value s "null")
    else if (localTag? tag).isSome ∧ style = .plain then .ok (foundOfPlain s)
    else .ok (.string s)

def dataOfScalar (tag : Option String) (style : ScalarStyle) (s : String) :
    Except DecodeError Data := do
  match ← foundOfScalar tag style s with
  | .null => .ok .null
  | .bool b => .ok (.bool b)
  | .integer n =>
    if fitsWord n then .ok (.integer n) else mismatch (.type (.integer n) "any YAML value")
  | .float d => .ok (.float d)
  | .string s => .ok (.string s)
  | .sequence => .ok (.sequence [])
  | .mapping => .ok (.mapping [])

-- The path to the value of an entry. Only scalars that stand in place name one.
def entryPath (parent : DocumentPath) : Tree → DocumentPath
  | .scalar _ _ _ text => .field parent text
  | _ => .unnamed parent

-- Puts the tag of a node around its content. `tagged` tells that this has been done already.
def withTag (tagged : Bool) (tag : Option String)
    (content : Option String → Except DecodeError Data) : Except DecodeError Data :=
  if tagged then content none
  else
    match localTag? tag with
    | none => content tag
    | some name => if name.isEmpty then mismatch .emptyTag else (content none).map (.tagged name)

mutual

def dataOfTree (path : DocumentPath) (tagged : Bool) : Tree → Except DecodeError Data
  | .alias _ target => dataOfTree path false target
  | .scalar m tag style text =>
    locate path m (withTag tagged tag fun tag => dataOfScalar tag style text)
  | .sequence m tag items =>
    let items := dataOfItems path 0 items
    locate path m (withTag tagged tag fun _ => items.map .sequence)
  | .mapping m tag entries =>
    let keysTagged := tagged || (localTag? tag).isSome
    let entries := dataOfEntries path keysTagged [] entries
    locate path m (withTag tagged tag fun _ => entries.map .mapping)

def dataOfItems (path : DocumentPath) (index : Nat) : List Tree → Except DecodeError (List Data)
  | [] => .ok []
  | item :: rest => do
    let x ← dataOfTree (.item path index) false item
    let xs ← dataOfItems path (index + 1) rest
    .ok (x :: xs)

def dataOfEntries (path : DocumentPath) (tagged : Bool) (done : List (Data × Data)) :
    List (Tree × Tree) → Except DecodeError (List (Data × Data))
  | [] => .ok done
  | (key, value) :: rest => do
    let k ← dataOfTree path tagged key
    if done.any fun entry => k.same entry.1 then mismatch (.repeatedKey k)
    else
      let v ← dataOfTree (entryPath path key) false value
      dataOfEntries path tagged (done ++ [(k, v)]) rest

end

def dataOf (s : String) : Except LoadError Data :=
  match treeOf s with
  | .error e => .error (.notDocument e)
  | .ok tree => (dataOfTree .root false tree).mapError .notDecoded

end Skeleton.Yaml
