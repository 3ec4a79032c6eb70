import Skeleton.Disk.Operations
import Skeleton.Execution.Report

-- Carrying out plans. A run stops at the first operation that fails, and a failed operation takes
-- back what it did.

namespace Skeleton

structure Policy where
  overwrite : Bool
  backups : Bool
  deriving DecidableEq

-- Puts content in a file. What got there before a fault stays.
abbrev Writer := Disk → Path → ByteArray → Disk × Except IoFault Unit

namespace Execution

-- The name of a copy: `.bak` behind the name of the file, and a number from the second copy on.
def backupPath (target : Path) (attempt : Nat) : Path :=
  let number := if attempt = 0 then "" else "." ++ Text.decimal attempt
  target.withFileName (target.fileName?.getD "" ++ ".bak" ++ number)

def maxBackups : Nat := 100

def attempt (d : Disk) (step : Except IoFault Disk) : Disk × Except IoFault Unit :=
  match step with
  | .ok d => (d, .ok ())
  | .error fault => (d, .error fault)

-- On the disks here content gets into a file as a whole or not at all.
def store : Writer := fun d p content => attempt d (d.writeFile p content)

def fill (w : Writer) (d : Disk) (backup : Path) (content : ByteArray) (mode : Mode) :
    Disk × Except IoFault Unit :=
  match w d backup content with
  | (d, .ok ()) => attempt d (d.setMode backup mode)
  | (d, .error fault) => (d, .error fault)

-- Makes a copy under the first free name from `attempt` on, of which `left` names are tried. A copy
-- that cannot be finished is taken away.
def copyFrom (w : Writer) (d : Disk) (target : Path) (content : ByteArray) (mode : Mode)
    (attempt : Nat) : Nat → Disk × Except Failure Path
  | 0 => (d, .error (.conflict (backupPath target 0) .noBackupName))
  | left + 1 =>
    let backup := backupPath target attempt
    match d.createFile backup with
    | .error .alreadyExists => copyFrom w d target content mode (attempt + 1) left
    | .error fault => (d, .error (.io backup fault))
    | .ok made =>
      match fill w made backup content mode with
      | (d, .ok ()) => (d, .ok backup)
      | (d, .error fault) => ((d.removeFile backup).toOption.getD d, .error (.io backup fault))

def backUp (w : Writer) (d : Disk) (target : Path) : Disk × Except Failure Path :=
  match d.openFile target with
  | .error fault => (d, .error (.io target fault))
  | .ok (content, mode) => copyFrom w d target content mode 0 maxBackups

def revert (d : Disk) (target : Path) : Change → Except RevertFault Disk
  | .existingDir => .ok d
  | .createdDir => (d.removeDir target).mapError .io
  | .createdFile => (d.removeFile target).mapError .io
  | .replacedFile (some backup) => (d.rename backup target).mapError .io
  | .replacedFile none => .error .noBackup

-- Keeps a change if the step after it succeeded, and takes it back otherwise.
def settle (d : Disk) (target : Path) (change : Change) (step : Except Failure Unit) :
    Disk × Except Failure Change :=
  match step with
  | .ok () => (d, .ok change)
  | .error failure => ((revert d target change).toOption.getD d, .error failure)

def makeDir (d : Disk) (target : Path) : Disk × Except Failure Change :=
  match d.makeDir target with
  | .ok d => (d, .ok .createdDir)
  | .error .alreadyExists =>
    match d.lookup target with
    | .ok (_, .dir _) => (d, .ok .existingDir)
    | .ok _ => (d, .error (.conflict target .fileAtDir))
    | .error fault => (d, .error (.io target fault))
  | .error fault => (d, .error (.io target fault))

def prepareBackup (w : Writer) (p : Policy) (d : Disk) (target : Path) :
    Disk × Except Failure (Option Path) :=
  if p.backups then
    match backUp w d target with
    | (d, .ok backup) => (d, .ok (some backup))
    | (d, .error failure) => (d, .error failure)
  else (d, .ok none)

def replaceFile (w : Writer) (p : Policy) (d : Disk) (target : Path) (content : ByteArray) :
    Disk × Except Failure Change :=
  if !p.overwrite then (d, .error (.overwriteRefused target))
  else
    match prepareBackup w p d target with
    | (d, .error failure) => (d, .error failure)
    | (d, .ok backup) =>
      let (d, written) := w d target content
      settle d target (.replacedFile backup) (written.mapError (.io target))

def writeFile (w : Writer) (p : Policy) (d : Disk) (target : Path) (content : ByteArray) :
    Disk × Except Failure Change :=
  match d.lookup target with
  | .ok (_, .dir _) => (d, .error (.conflict target .dirAtFile))
  | .ok _ => replaceFile w p d target content
  | .error .notFound =>
    match d.createFile target with
    | .ok d =>
      let (d, written) := w d target content
      settle d target .createdFile (written.mapError (.io target))
    | .error .alreadyExists => replaceFile w p d target content
    | .error fault => (d, .error (.io target fault))
  | .error fault => (d, .error (.io target fault))

def apply (p : Policy) (d : Disk) (target : Path) : Operation → Disk × Except Failure Change
  | .makeDir _ => makeDir d target
  | .writeFile _ content mode =>
    match writeFile store p d target content.toUTF8 with
    | (d, .error failure) => (d, .error failure)
    | (d, .ok change) =>
      match mode with
      | none => (d, .ok change)
      | some mode =>
        let (d, done) := attempt d (d.setMode target mode)
        settle d target change (done.mapError (.io target))

def outcome (root : Path) (operation : Operation) (status : Status) : Outcome :=
  ⟨operation, root.join operation.path, status⟩

def runAll (p : Policy) (root : Path) (d : Disk) : List Operation → Disk × List Outcome
  | [] => (d, [])
  | operation :: rest =>
    match apply p d (root.join operation.path) operation with
    | (d, .ok change) =>
      let (d, outcomes) := runAll p root d rest
      (d, outcome root operation (.applied change) :: outcomes)
    | (d, .error failure) =>
      (d, outcome root operation (.failed failure) :: rest.map fun o => outcome root o .pending)

-- The outcomes where a run is cancelled before it starts.
def cancelAll (root : Path) : List Operation → List Outcome
  | [] => []
  | operation :: rest =>
    outcome root operation (.failed .cancelled) :: rest.map fun o => outcome root o .pending

def run (p : Policy) (cancelled : Bool) (root : Path) (plan : Plan) (d : Disk) : Disk × Report :=
  if cancelled then (d, ⟨root, cancelAll root plan.operations⟩)
  else
    let (d, outcomes) := runAll p root d plan.operations
    (d, ⟨root, outcomes⟩)

-- Takes back the change of an outcome. Directories that were there before are left alone.
def revertOutcome (d : Disk) (r : Rollback) (o : Outcome) : Disk × Rollback :=
  match o.status with
  | .applied .existingDir => (d, r)
  | .applied change =>
    match revert d o.target change with
    | .ok d => (d, ⟨r.reverted ++ [o.target], r.retained⟩)
    | .error fault => (d, ⟨r.reverted, r.retained ++ [(o.target, fault)]⟩)
  | _ => (d, r)

def rollback (d : Disk) (report : Report) : Disk × Rollback :=
  report.outcomes.reverse.foldl (fun (d, r) o => revertOutcome d r o) (d, ⟨[], []⟩)

end Execution

end Skeleton
