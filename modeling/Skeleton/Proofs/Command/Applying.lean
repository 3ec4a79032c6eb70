import Skeleton.Command.Running
import Skeleton.Proofs.Command.Precedence
import Skeleton.Proofs.Disk.Directories
import Skeleton.Proofs.Execution.Halting
import Skeleton.Proofs.Execution.Rollback

-- Applying a scaffold with everything taken back on a failure: all of its plan, or nothing, unless
-- the report cannot be shown.

namespace Skeleton.Command

-- An application that came to carry out the plan of the scaffold below the output directory, and
-- left the disk as it was then.
structure CarriesOut (e : Environment) (s : Source) (options : ApplyOptions) (d d' : Disk)
    (report : Report) (prepared : Prepared) (plan : Plan) : Prop where
  ready : prepare e d s = .ok prepared
  planned : prepared.plan = .ok plan
  carried : ∃ root opened, openOutput d options.output = (opened, .ok root) ∧
    d.Opens opened options.output ∧
    Execution.run options.policy false root plan opened = (d', report)

structure Completes (e : Environment) (s : Source) (options : ApplyOptions) (d d' : Disk)
    (report : Report) (prepared : Prepared) (plan : Plan) : Prop
    extends CarriesOut e s options d d' report prepared plan where
  operations : report.outcomes.map Outcome.operation = plan.operations
  applied : ∀ o ∈ report.outcomes, o.status.isApplied = true

-- A document was asked for, and a path in it is not Unicode.
structure Unshowable (e : Environment) (format : Format) (report : Report) : Prop where
  document : format = .json
  path : ∃ p ∈ report.shownPaths, e.isUnicode p = false

section

variable {options : ApplyOptions} {d d' : Disk} {plan : Plan} {root : Path} {e : Environment}
  {format : Format} {report : Report} {fault : CommandFault}

end

-- The ways in which an application ends: without a plan, without a directory to carry it out in,
-- with a report that cannot be shown, with everything taken back, or with all of it done.
inductive Ends (e : Environment) (s : Source) (format : Format) (options : ApplyOptions)
    (d : Disk) : Disk → Except CommandFault Report → Prop where
  | unplanned {fault} (hfault : prepare e d s >>= Prepared.plan = .error fault) :
      Ends e s format options d d (.error fault)
  | unopened {plan opened fault} (hplanned : prepare e d s >>= Prepared.plan = .ok plan)
      (hopen : openOutput d options.output = (opened, .error fault)) :
      Ends e s format options d opened (.error fault)
  | unshown {d' report prepared plan} (h : CarriesOut e s options d d' report prepared plan)
      (hshow : Unshowable e format report) :
      Ends e s format options d d' (.error .serialization)
  | undone {plan opened root fault} (hplanned : prepare e d s >>= Prepared.plan = .ok plan)
      (hopen : openOutput d options.output = (opened, .ok root)) (hne : fault ≠ .serialization) :
      Ends e s format options d opened (.error fault)
  | completed {d' report prepared plan} (h : Completes e s options d d' report prepared plan) :
      Ends e s format options d d' (.ok report)

section

variable {e : Environment} {s : Source} {options : ApplyOptions} {d opened : Disk} {root : Path}
  {prepared : Prepared} {plan : Plan}

end

def nowhere (isUnicode : Path → Bool) : Environment := ⟨none, none, none, isUnicode⟩

def idle : Runner := fun d _ => (d, .error .notFound)

end Skeleton.Command
