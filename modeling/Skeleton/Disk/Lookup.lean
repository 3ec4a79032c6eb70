import Skeleton.Disk.Basic
import Skeleton.Disk.Fault

-- Where paths lead. Links on the way are followed.

namespace Skeleton.Disk

-- A location in a directory, what stands there if anything does, and whether the path asks for a
-- directory by its last slash.
structure Spot where
  location : Location
  found : Option Entry
  wantsDir : Bool

def maxName : Nat := 255

-- The number of bytes that no path may have.
def maxPath : Nat := 4096

def maxLinks : Nat := 40

-- Goes from a directory along the parts of a path. `links` more links may be followed; whether one
-- at the very end is depends on `follow`.
def walk (d : Disk) (follow : Bool) (links : Nat) (l : Location) :
    List String → Except IoFault Spot
  | [] => .ok ⟨l, d.get? l, false⟩
  | part :: rest =>
    if Path.isIdle part then walk d follow links l rest
    else if part = ".." then walk d follow links l.dropLast rest
    else if maxName < part.utf8ByteSize then .error .nameTooLong
    else
      let here := l ++ [part]
      match d.get? here with
      | none =>
        if rest.all (· = "") then .ok ⟨here, none, !rest.isEmpty⟩ else .error .notFound
      | some (.dir _) => walk d follow links here rest
      | some (.link target) =>
        if rest.isEmpty && !follow then .ok ⟨here, some (.link target), false⟩
        else
          match links with
          | 0 => .error .linkLoop
          | links + 1 =>
            walk d follow links (if target.isAbsolute then [] else l) (target.parts ++ rest)
      | some e => if rest.isEmpty then .ok ⟨here, some e, false⟩ else .error .notDirectory
termination_by parts => (links, parts.length)

def pathFault? (p : Path) : Option IoFault :=
  let text := p.text
  if '\x00' ∈ text.toList then some .nulByte
  else if text.isEmpty then some .notFound
  else if maxPath ≤ text.utf8ByteSize then some .nameTooLong
  else none

def start (d : Disk) (p : Path) : Location := if p.isAbsolute then [] else d.cwd

-- Where a path leads. A path leads nowhere from a directory that is gone.
def find (d : Disk) (follow : Bool) (p : Path) : Except IoFault Spot :=
  match pathFault? p with
  | some fault => .error fault
  | none =>
    if dirAt d.entries (d.start p) then walk d follow maxLinks (d.start p) p.parts
    else .error .notFound

def lookup (d : Disk) (p : Path) : Except IoFault (Location × Entry) := do
  let s ← d.find true p
  match s.found with
  | some e => .ok (s.location, e)
  | none => .error .notFound

def contains (d : Disk) (p : Path) : Bool := (d.lookup p).toOption.isSome

def hasDir (d : Disk) (p : Path) : Bool := (d.lookup p).toOption.any fun (_, e) => e.isDir

end Skeleton.Disk
