import Skeleton.Command.Usage
import Skeleton.Disk.Change
import Skeleton.Shell.Starting

-- The program. What a request needs of the machine is read into a disk, the request is carried out
-- on that disk, and what has changed is written back.

namespace Skeleton.Machine

def maxDepth : Nat := 64

def locationOf (p : Path) : Location :=
  p.components.filterMap fun
    | .name s => some s
    | _ => none

def fileAt (l : Location) : IO.FS.DirEntry :=
  ⟨(Disk.pathOf l.dropLast).text, l.getLastD ""⟩

-- Where a link leads that leads nowhere: no file has the name.
def nowhere : Path := ⟨["", "\x00"]⟩

def targetOf (link : IO.FS.DirEntry) : IO Path := do
  try
    return .ofText (← IO.FS.realPath link.path).toString
  catch _ => return nowhere

-- What stands at a location of the machine. What cannot be read is not there.
def entryAt? (l : Location) : IO (Option Entry) := do
  let path := (fileAt l).path
  try
    match (← path.symlinkMetadata).type with
    | .dir => return some .newDir
    | .file => return some (.newFile (← IO.FS.readBinFile path))
    | .symlink => return some (.link (← targetOf (fileAt l)))
    | .other => return some (.device 0o666 false)
  catch _ => return none

def namesAt (l : Location) : IO (List String) := do
  try
    return (← (fileAt l).path.readDir).toList.map fun e => e.fileName
  catch _ => return []

def readTree (l : Location) : Nat → Disk → IO Disk
  | 0, d => return d
  | depth + 1, d => do
    match ← entryAt? l with
    | none => return d
    | some e =>
      let d := d.put l e
      if e.isDir then
        (← namesAt l).foldlM (fun d name => readTree (l ++ [name]) depth d) d
      else return d

-- Goes from a location along what a path says, and reads what is on the way and the tree at its
-- end. What a link leads to has no links on its own way.
def readWay (d : Disk) (l : Location) : List Path.Component → IO Disk
  | [] => if l = [] then return d else readTree l maxDepth d
  | .root :: rest => readWay d [] rest
  | .here :: rest => readWay d l rest
  | .up :: rest => readWay d l.dropLast rest
  | .name s :: rest => do
    let here := l ++ [s]
    match ← entryAt? here with
    | none => return d
    | some (.link target) =>
      let d := (d.put here (.link target)).withDirs (locationOf target).dropLast
      match ← entryAt? (locationOf target) with
      | none => return d
      | some e => readWay (d.put (locationOf target) e) (locationOf target) rest
    | some e => readWay (d.put here e) here rest

def readPath (d : Disk) (p : Path) : IO Disk :=
  readWay d (if p.isAbsolute then [] else d.cwd) p.components

def pathsOf (e : Command.Environment) (r : Command.Request) : List Path :=
  let s := r.source
  let defaults := if s.useDefaults then e.defaultsFile?.map DefaultsFile.path else none
  (s.spec.parent?.map fun dir => if dir = .empty then .ofName "." else dir).toList
    ++ s.varsFile.toList ++ defaults.toList ++ r.output?.toList

def accessRight (bits : Nat) : IO.AccessRight :=
  ⟨bits &&& 4 ≠ 0, bits &&& 2 ≠ 0, bits &&& 1 ≠ 0⟩

def fileRight (mode : Nat) : IO.FileRight :=
  ⟨accessRight (mode >>> 6), accessRight (mode >>> 3), accessRight mode⟩

def writeChange : Disk.Change → IO Unit
  | .remove l e => if e.isDir then IO.FS.removeDir (fileAt l).path
    else IO.FS.removeFile (fileAt l).path
  | .put l before e => do
    let path := (fileAt l).path
    match e with
    | .dir _ => if before.isNone then IO.FS.createDir path
    | .file _ content => IO.FS.writeBinFile path content
    | _ => return ()
    if (before.getD (if e.isDir then .newDir else .newFile .empty)).mode ≠ e.mode then
      IO.setAccessRights path (fileRight e.mode)

-- Names that are not Unicode are not read at all.
def environment : IO Command.Environment := do
  return ⟨← IO.getEnv CommandFault.defaultsVariable, ← IO.getEnv "XDG_CONFIG_HOME",
    ← IO.getEnv "HOME", fun _ => true⟩

def bindings : IO (Dictionary String String) := do
  let found ← ["HOME", "PATH", "USER"].filterMapM fun name => do
    return (← IO.getEnv name).map fun value => (name, value)
  return .ofList found

def run (e : Command.Environment) (r : Command.Request) : IO Command.Exit := do
  let cwd := Path.ofText (← IO.FS.realPath ".").toString
  let disk ← (pathsOf e r).foldlM readPath (.fresh (locationOf cwd))
  let exit := Command.run (Shell.runner (← bindings)) e r disk
  (disk.changes exit.disk).forM writeChange
  return exit

end Skeleton.Machine

def main (args : List String) : IO UInt32 := do
  let exit ← match Skeleton.Command.parseArguments args with
    | .error fault => pure (fault.exit .blank)
    | .ok request => Skeleton.Machine.run (← Skeleton.Machine.environment) request
  IO.print exit.stdout
  IO.eprint exit.stderr
  return exit.code.toUInt32
