import Skeleton.Blueprint.Basic
import Skeleton.Execution.Report
import Skeleton.Template.Render

-- Hooks made into programs to run.

namespace Skeleton

structure Invocation where
  name : String
  program : String
  args : List String
  workingDir : Path
  deriving DecidableEq

namespace Hook

def render (context : Context) (label : String) (field : Field) (template : String) :
    Except Fault String :=
  (Template.render context template).mapError (Fault.ofTemplate label field)

-- The directory that a hook runs in: the root, or one below it.
def directory (context : Context) (root : Path) (label : String) (dir : Option String) :
    Except Fault Path :=
  match dir with
  | none => .ok root
  | some template => do
    let s ← render context label .workingDir template
    let path := Path.ofText s
    if s.toList.contains '\x00' || !path.staysInside then
      .error (.build (.invalidSegment s label .outsideRoot))
    else .ok (root.join path)

def resolve (context : Context) (root : Path) (h : Hook) : Except Fault (Option Invocation) := do
  let label := hookLabel h.name
  let enabled ←
    match h.condition with
    | none => .ok true
    | some c => (c.eval context).mapError (Fault.ofEval label)
  if enabled then
    let args ← h.args.mapM (render context label .args)
    let dir ← directory context root label h.workingDir
    .ok (some ⟨h.name, h.command, args, dir⟩)
  else .ok none

-- What hooks run after an execution, in order. All of it must have succeeded.
def resolveAll (context : Context) (report : Report) (hooks : List Hook) :
    Except Fault (List Invocation) :=
  if report.isSuccess then do
    let invocations ← hooks.mapM (resolve context report.root)
    .ok (invocations.filterMap id)
  else .error .hooksBlocked

end Hook

end Skeleton
