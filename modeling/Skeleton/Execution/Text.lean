import Skeleton.Execution.Report
import Skeleton.Json
import Skeleton.Text.Split

-- How reports are shown.

namespace Skeleton

def Change.label : Change → String
  | createdDir => "created"
  | existingDir => "exists"
  | createdFile => "created"
  | replacedFile _ => "replaced"

def labelled (label text : String) : String := Text.padRight 10 label ++ " " ++ text ++ "\n"

def Outcome.text (o : Outcome) : String :=
  match o.status with
  | .applied change =>
    let backup :=
      match change with
      | .replacedFile (some backup) => labelled "  backup" backup.text
      | _ => ""
    labelled change.label o.target.text ++ backup
  | .failed failure => labelled "failed" (o.target.text ++ ": " ++ failure.message)
  | .pending => labelled "pending" o.target.text

namespace Report

def summaryText (r : Report) : String :=
  let applied := Text.decimal r.applied.length
  if r.isSuccess then applied ++ " operation(s) applied under " ++ r.root.text ++ "\n"
  else
    applied ++ " applied, 1 failed, " ++ Text.decimal r.pending.length ++ " pending under "
      ++ r.root.text ++ "\n"

def text (r : Report) : String := String.join (r.outcomes.map Outcome.text) ++ r.summaryText

def targets (outcomes : List Outcome) : Json :=
  .array (outcomes.map fun o => .string o.target.text)

-- The report as a document. Only a failed run has a member on its failure.
def json (r : Report) : Json :=
  let failed := r.failure?.map fun (o, failure) =>
    ("failed", Json.object [("path", .string o.target.text), ("reason", .string failure.message)])
  .object ([("root", .string r.root.text), ("success", .bool r.isSuccess),
    ("cancelled", .bool r.wasCancelled), ("applied", targets r.applied)]
      ++ failed.toList ++ [("pending", targets r.pending)])

-- The paths in the document.
def shownPaths (r : Report) : List Path :=
  let shown := r.applied ++ (r.failure?.map Prod.fst).toList ++ r.pending
  r.root :: shown.map Outcome.target

end Report

def Rollback.text (r : Rollback) : String :=
  String.join (r.reverted.map fun path => labelled "reverted" path.text)
    ++ String.join (r.retained.map fun (path, fault) =>
      labelled "kept" (path.text ++ ": " ++ fault.message))

end Skeleton
