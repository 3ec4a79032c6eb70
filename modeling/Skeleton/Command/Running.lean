import Skeleton.Command.Request
import Skeleton.Execution.Text
import Skeleton.Hook.Text
import Skeleton.Plan.Preview

-- Carrying out what the program is asked for.

namespace Skeleton.Command

structure Prepared where
  blueprint : Blueprint
  context : Context

def prepare (e : Environment) (d : Disk) (s : Source) : Except CommandFault Prepared := do
  let b ← (Blueprint.loadFile d s.spec).mapError .scaffold
  let globals ← loadDefaults d (if s.useDefaults then e.defaultsFile? else none)
  let context ← buildContext d b globals s.varsFile s.overrides
  .ok ⟨b, context⟩

def Prepared.plan (p : Prepared) : Except CommandFault Plan :=
  (Plan.build .empty p.blueprint.outline p.context).mapError .scaffold

def documentText (j : Json) : String := j.pretty ++ "\n"

def planText (format : Format) (p : Plan) : String :=
  match format with
  | .text => p.text
  | .json => documentText p.json

-- Any path can be shown in a text, and in a document only one that is Unicode.
def reportText (e : Environment) (format : Format) (r : Report) : Except CommandFault String :=
  match format with
  | .text => .ok r.text
  | .json => if r.shownPaths.all e.isUnicode then .ok (documentText r.json) else .error .serialization

-- Results of hooks are shown as text only, so that a document stays alone.
def hooksText (format : Format) (results : List HookResult) : String :=
  match format with
  | .text => String.join (results.map HookResult.text)
  | .json => ""

-- What a command leaves behind: the disk, what it printed, and how it ended.
structure Finish (α : Type) where
  disk : Disk
  stdout : String
  stderr : String
  result : Except CommandFault α

namespace Finish

-- A command that ends before it printed anything.
def silent {α : Type} (d : Disk) (result : Except CommandFault α) : Finish α := ⟨d, "", "", result⟩

def printed {α : Type} (f : Finish α) : String × String :=
  match f.result with
  | .ok _ => (f.stdout, f.stderr)
  | .error fault => (f.stdout, f.stderr ++ "error: " ++ fault.userMessage ++ "\n")

def exitCode {α : Type} (f : Finish α) : Nat :=
  match f.result with
  | .ok _ => 0
  | .error fault => fault.exitCode

end Finish

def plan (e : Environment) (s : Source) (format : Format) (d : Disk) : Finish Plan :=
  match prepare e d s >>= Prepared.plan with
  | .error fault => .silent d (.error fault)
  | .ok p => ⟨d, planText format p, "", .ok p⟩

-- Makes the directory for the output, and finds where it really is.
def openOutput (d : Disk) (output : Path) : Disk × Except CommandFault Path :=
  if d.contains output && !d.hasDir output then
    (d, .error (.invalidArgument
      ("output path " ++ output.text ++ " exists and is not a directory")))
  else
    match d.makeDirs output with
    | (d, .error fault) => (d, .error (.io fault))
    | (d, .ok ()) => (d, (d.canonical output).mapError .io)

def executionFault (r : Report) (o : Outcome) (failure : Failure) : CommandFault :=
  if r.wasCancelled then
    .cancelled (Text.decimal (r.pending.length + 1) ++ " operation(s) were not applied")
  else .execution (o.operation.path.text ++ ": " ++ failure.message)

def rollbackWarning (r : Rollback) : String :=
  if r.isComplete then "" else "warning: some changes could not be rolled back\n"

def undo (options : ApplyOptions) (d : Disk) (r : Report) : Disk × String :=
  if options.rollbackOnFailure then
    let (d, rollback) := Execution.rollback d r
    (d, rollback.text ++ rollbackWarning rollback)
  else (d, "")

def runHooks (runner : Runner) (options : ApplyOptions) (p : Prepared) (r : Report) (d : Disk) :
    Disk × Except CommandFault (List HookResult) :=
  if options.skipHooks then (d, .ok [])
  else
    match Hook.resolveAll p.context r p.blueprint.hooks with
    | .error fault => (d, .error (.scaffold fault))
    | .ok invocations =>
      let (d, results) := Hook.runAll runner d invocations
      (d, results.mapError fun (name, fault) => .hook name fault)

-- Carries out a plan below a directory, and runs the hooks when all of it is done. A report that
-- cannot be shown ends it before anything is taken back.
def execute (runner : Runner) (cancelled : Bool) (e : Environment) (format : Format)
    (options : ApplyOptions) (prepared : Prepared) (p : Plan) (root : Path) (d : Disk) :
    Finish Report :=
  let (d, report) := Execution.run options.policy cancelled root p d
  match reportText e format report with
  | .error fault => .silent d (.error fault)
  | .ok shown =>
    match report.failure? with
    | some (o, failure) =>
      let (d, told) := undo options d report
      ⟨d, shown, told, .error (executionFault report o failure)⟩
    | none =>
      match runHooks runner options prepared report d with
      | (d, .error fault) => ⟨d, shown, "", .error fault⟩
      | (d, .ok results) => ⟨d, shown ++ hooksText format results, "", .ok report⟩

-- Applies a scaffold. Nothing is touched before its plan is made.
def apply (runner : Runner) (cancelled : Bool) (e : Environment) (s : Source) (format : Format)
    (options : ApplyOptions) (d : Disk) : Finish Report :=
  match prepare e d s with
  | .error fault => .silent d (.error fault)
  | .ok prepared =>
    match prepared.plan with
    | .error fault => .silent d (.error fault)
    | .ok p =>
      match openOutput d options.output with
      | (d, .error fault) => .silent d (.error fault)
      | (d, .ok root) => execute runner cancelled e format options prepared p root d

structure Exit where
  disk : Disk
  stdout : String
  stderr : String
  code : Nat

def Finish.exit {α : Type} (f : Finish α) : Exit :=
  let (stdout, stderr) := f.printed
  ⟨f.disk, stdout, stderr, f.exitCode⟩

def run (runner : Runner) (e : Environment) (r : Request) (d : Disk) : Exit :=
  match r with
  | .plan source format => (plan e source format d).exit
  | .apply source format options => (apply runner false e source format options d).exit

end Skeleton.Command
