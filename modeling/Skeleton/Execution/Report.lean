import Skeleton.Disk.Fault
import Skeleton.Plan.Basic

-- What became of the operations of a plan.

namespace Skeleton

inductive Obstacle where
  | dirAtFile
  | fileAtDir
  | noBackupName
  | other (text : String)
  deriving DecidableEq

def Obstacle.text : Obstacle → String
  | dirAtFile => "a directory exists at the file path"
  | fileAtDir => "a file exists at the directory path"
  | noBackupName => "no free backup file name"
  | other text => text

inductive Failure where
  | conflict (path : Path) (obstacle : Obstacle)
  | overwriteRefused (path : Path)
  | io (path : Path) (fault : IoFault)
  | cancelled
  deriving DecidableEq

def Failure.message : Failure → String
  | conflict path obstacle => "Path conflict at " ++ path.text ++ ": " ++ obstacle.text
  | overwriteRefused path => "Refusing to overwrite existing file " ++ path.text
  | io path fault => "IO error at " ++ path.text ++ ": " ++ fault.message
  | cancelled => "Cancelled"

-- What an operation changed. A replaced file may have been copied before.
inductive Change where
  | createdDir
  | existingDir
  | createdFile
  | replacedFile (backup : Option Path)
  deriving DecidableEq

inductive Status where
  | pending
  | applied (change : Change)
  | failed (failure : Failure)
  deriving DecidableEq

namespace Status

def isApplied : Status → Bool
  | applied _ => true
  | _ => false

@[simp]
theorem isApplied_pending : pending.isApplied = false := rfl

@[simp]
theorem isApplied_applied (change : Change) : (applied change).isApplied = true := rfl

@[simp]
theorem isApplied_failed (failure : Failure) : (failed failure).isApplied = false := rfl

end Status

structure Outcome where
  operation : Operation
  target : Path
  status : Status
  deriving DecidableEq

-- The outcomes of a plan's operations in order, and the directory that it was carried out in.
structure Report where
  root : Path
  outcomes : List Outcome
  deriving DecidableEq

namespace Report

def applied (r : Report) : List Outcome := r.outcomes.filter fun o => o.status.isApplied

def pending (r : Report) : List Outcome := r.outcomes.filter fun o => o.status = .pending

def isSuccess (r : Report) : Bool := r.outcomes.all fun o => o.status.isApplied

def failure? (r : Report) : Option (Outcome × Failure) :=
  r.outcomes.findSome? fun o =>
    match o.status with
    | .failed failure => some (o, failure)
    | _ => none

def wasCancelled (r : Report) : Bool := r.failure?.any fun (_, failure) => failure = .cancelled

def remaining (r : Report) : Plan :=
  ⟨(r.outcomes.filter fun o => !o.status.isApplied).map Outcome.operation⟩

end Report

inductive RevertFault where
  | io (fault : IoFault)
  | noBackup
  deriving DecidableEq

def RevertFault.message : RevertFault → String
  | io fault => fault.message
  | noBackup => "file was replaced without a backup"

structure Rollback where
  reverted : List Path
  retained : List (Path × RevertFault)

def Rollback.isComplete (r : Rollback) : Bool := r.retained.isEmpty

end Skeleton
