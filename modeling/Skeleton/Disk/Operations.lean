import Skeleton.Disk.Lookup

-- Operations on disks. A failed one leaves the disk as it was.

namespace Skeleton.Disk

-- Makes a directory. Slashes at the end of the path do not make it follow a link before them.
def makeDir (d : Disk) (p : Path) : Except IoFault Disk :=
  match pathFault? p with
  | some fault => .error fault
  | none => do
    let s ← d.find false p.withoutSlash
    if s.found.isSome then .error .alreadyExists else .ok (d.put s.location .newDir)

-- Makes an empty file where nothing stands, not even a link.
def createFile (d : Disk) (p : Path) : Except IoFault Disk := do
  let s ← d.find false p
  if s.found.isSome then .error .alreadyExists
  else if s.wantsDir then .error .isDirectory
  else .ok (d.put s.location (.newFile .empty))

-- Changes the content of a file, links followed. A missing file is made.
def changeFile (d : Disk) (p : Path) (change : ByteArray → ByteArray) : Except IoFault Disk := do
  let s ← d.find true p
  match s.found with
  | none =>
    if s.wantsDir then .error .isDirectory
    else .ok (d.put s.location (.newFile (change .empty)))
  | some (.file m content) => .ok (d.put s.location (.file m (change content)))
  | some (.device _ isFull) =>
    if isFull && !(change .empty).isEmpty then .error .noSpace else .ok d
  | some _ => .error .isDirectory

def writeFile (d : Disk) (p : Path) (content : ByteArray) : Except IoFault Disk :=
  d.changeFile p fun _ => content

def appendFile (d : Disk) (p : Path) (content : ByteArray) : Except IoFault Disk :=
  d.changeFile p fun old => old ++ content

-- The content of a file and its permissions. Devices are empty.
def openFile (d : Disk) (p : Path) : Except IoFault (ByteArray × Mode) := do
  match ← d.lookup p with
  | (_, .file m content) => .ok (content, m)
  | (_, .device m _) => .ok (.empty, m)
  | _ => .error .isDirectory

def readText (d : Disk) (p : Path) : Except IoFault String := do
  let (content, _) ← d.openFile p
  match String.fromUTF8? content with
  | some s => .ok s
  | none => .error .notText

def setMode (d : Disk) (p : Path) (mode : Nat) : Except IoFault Disk := do
  let (l, e) ← d.lookup p
  .ok (d.put l (e.withMode (Mode.ofNat mode)))

def removeFile (d : Disk) (p : Path) : Except IoFault Disk := do
  let s ← d.find false p
  match s.found with
  | none => .error .notFound
  | some (.dir _) => .error .isDirectory
  | some _ => .ok (d.remove s.location)

def removeDir (d : Disk) (p : Path) : Except IoFault Disk := do
  let s ← d.find false p
  match s.found with
  | none => .error .notFound
  | some (.dir _) => if d.isBare s.location then .ok (d.remove s.location) else .error .notEmpty
  | some _ => .error .notDirectory

def removeTree (d : Disk) (l : Location) : Disk :=
  (((d.below l).map fun (k, _) => l ++ k).reverse.foldl remove d).remove l

def putTree (d : Disk) (l : Location) (e : Entry) (inside : List (Location × Entry)) : Disk :=
  inside.foldl (fun d (k, e) => d.put (l ++ k) e) (d.put l e)

def rename (d : Disk) (source target : Path) : Except IoFault Disk := do
  let s ← d.find false source
  let t ← d.find false target
  match s.found with
  | none => .error .notFound
  | some e =>
    if s.location = t.location then .ok d
    else if e.isDir && s.location.isPrefixOf t.location then .error .invalid
    else
      let inside := d.below s.location
      let moved := ((d.removeTree s.location).remove t.location).putTree t.location e inside
      match t.found with
      | none => if t.wantsDir && !e.isDir then .error .notDirectory else .ok moved
      | some (.dir _) =>
        if !e.isDir then .error .isDirectory
        else if d.isBare t.location then .ok moved
        else .error .notEmpty
      | some _ => if e.isDir then .error .notDirectory else .ok moved

def makeLink (d : Disk) (p target : Path) : Except IoFault Disk := do
  let s ← d.find false p
  if s.found.isSome then .error .alreadyExists else .ok (d.put s.location (.link target))

def ensureDir (d : Disk) (p : Path) : Disk × Except IoFault Unit :=
  match d.makeDir p with
  | .ok d => (d, .ok ())
  | .error fault => (d, if d.hasDir p then .ok () else .error fault)

-- Makes a directory and those on the way that are missing. What was made before a failure stays.
-- `depth` bounds how far up the way goes.
def makeDirsWithin (d : Disk) (p : Path) : Nat → Disk × Except IoFault Unit
  | 0 => (d, .error .noTree)
  | depth + 1 =>
    if p = .empty then (d, .ok ())
    else
      match d.makeDir p, p.parent? with
      | .error .notFound, none => (d, .error .noTree)
      | .error .notFound, some parent =>
        match d.makeDirsWithin parent depth with
        | (d, .ok ()) => d.ensureDir p
        | failed => failed
      | _, _ => d.ensureDir p

def makeDirs (d : Disk) (p : Path) : Disk × Except IoFault Unit :=
  d.makeDirsWithin p (p.parts.length + 1)

def pathOf (l : Location) : Path := if l = [] then .root else ⟨"" :: l⟩

-- The path from the root to what a path leads to, without links.
def canonical (d : Disk) (p : Path) : Except IoFault Path := do
  let (l, _) ← d.lookup p
  .ok (pathOf l)

def removeAll (d : Disk) (p : Path) : Except IoFault Disk := do
  let s ← d.find false p
  match s.found with
  | none => .error .notFound
  | some _ => .ok (d.removeTree s.location)

end Skeleton.Disk
