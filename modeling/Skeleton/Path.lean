import Skeleton.Text.Blank
import Skeleton.Text.Split

-- Paths of files: the pieces of a text between slashes.

namespace Skeleton

structure Path where
  parts : List String
  deriving DecidableEq

namespace Path

def ofText (s : String) : Path := ⟨(Text.splitAtEvery '/' s.toList).map String.ofList⟩

def text (p : Path) : String := "/".intercalate p.parts

def empty : Path := ⟨[""]⟩

def root : Path := ⟨["", ""]⟩

def ofName (name : String) : Path := ⟨[name]⟩

def isAbsolute (p : Path) : Bool := p.parts.head? = some "" && 1 < p.parts.length

-- A path from the end of another. An absolute path stays what it is.
def join (p q : Path) : Path :=
  if q.isAbsolute || p = empty then q
  else if p.parts.getLast? = some "" then ⟨p.parts.dropLast ++ q.parts⟩
  else ⟨p.parts ++ q.parts⟩

inductive Component where
  | root
  | here
  | up
  | name (s : String)
  deriving DecidableEq

-- Pieces that do not count where something stands before them.
def isIdle (part : String) : Bool := part = "" || part = "."

def component? (part : String) : Option Component :=
  if isIdle part then none else if part = ".." then some .up else some (.name part)

def components (p : Path) : List Component :=
  match p.parts with
  | [] => []
  | first :: rest =>
    let tail := rest.filterMap component?
    if p.isAbsolute then .root :: tail
    else if first = "." then .here :: tail
    else (component? first).toList ++ tail

def fileName? (p : Path) : Option String :=
  match p.components.getLast? with
  | some (.name s) => some s
  | _ => none

-- Cuts off the last component, with what does not count after it and before it.
def cutLast (parts : List String) : Option (List String) :=
  match Text.dropEndWhile isIdle parts with
  | [] => none
  | kept => some (Text.dropEndWhile isIdle kept.dropLast)

def parent? (p : Path) : Option Path :=
  match p.parts with
  | [] => none
  | first :: rest =>
    match cutLast rest with
    | some [] => some (if p.isAbsolute then root else ⟨[first]⟩)
    | some kept => some ⟨first :: kept⟩
    | none => if first = "" then none else some empty

-- The path with another name at its end, or with a name added where it ends with none.
def withFileName (p : Path) (name : String) : Path :=
  if p.fileName?.isSome then (p.parent?.getD p).join (ofName name) else p.join (ofName name)

def withoutSlash (p : Path) : Path :=
  match Text.dropEndWhile (· = "") p.parts with
  | [] => p
  | kept => ⟨kept⟩

-- Whether a path leads down from where it starts: it is made of names and of `.` only.
def staysInside (p : Path) : Bool :=
  p.components.all fun
    | .here => true
    | .name _ => true
    | _ => false

end Path

end Skeleton
