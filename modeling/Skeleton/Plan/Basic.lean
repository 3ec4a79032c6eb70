import Skeleton.Outline.Basic
import Skeleton.Template.Render

-- Plans: the operations that produce an outline in a context, in order.

namespace Skeleton

-- Paths start at the directory that a plan is carried out in.
inductive Operation where
  | makeDir (path : Path)
  | writeFile (path : Path) (content : String) (mode : Option Nat)
  deriving DecidableEq

def Operation.path : Operation → Path
  | makeDir path => path
  | writeFile path _ _ => path

structure Plan where
  operations : List Operation
  deriving DecidableEq

def segmentFault? (name : String) : Option SegmentFault :=
  if name = "" then some .empty
  else if name = "." ∨ name = ".." then some .relative
  else if '/' ∈ name.toList ∨ '\\' ∈ name.toList then some .separator
  else if '\x00' ∈ name.toList then some .nulByte
  else none

namespace Plan

def isIncluded (context : Context) (node : String) (condition : Option Condition) :
    Except Fault Bool :=
  match condition with
  | none => .ok true
  | some c => (c.eval context).mapError (Fault.ofEval node)

def segment (context : Context) (node name : String) : Except Fault String := do
  let s ← (Template.render context name).mapError (Fault.ofTemplate node .name)
  match segmentFault? s with
  | none => .ok s
  | some fault => .error (.build (.invalidSegment s node fault))

-- The path of a node below that of its parent, which no operation before may have.
def place (done : List Operation) (node : String) (parent : Path) (name : String) :
    Except Fault Path :=
  let path := parent.join (.ofName name)
  if path ∈ done.map Operation.path then .error (.build (.duplicatePath path.text node))
  else .ok path

def fileContent (context : Context) (node : String) (kind : FileKind) (content : String) :
    Except Fault String :=
  match kind with
  | .template => (Template.render context content).mapError (Fault.ofTemplate node .content)
  | .literal => .ok content

mutual

-- Adds the operations of a node to those that are done before. A node that is not included adds
-- none, and neither does what is in it.
def visit (context : Context) (parent : String) (out : Path) (done : List Operation) :
    Node → Except Fault (List Operation)
  | .directory name condition children => do
    let node := childPath parent name
    if ← isIncluded context node condition then
      let name ← segment context node name
      let path ← place done node out name
      visitAll context node path (done ++ [.makeDir path]) children
    else .ok done
  | .file name condition kind content mode => do
    let node := childPath parent name
    if ← isIncluded context node condition then
      let name ← segment context node name
      let path ← place done node out name
      let content ← fileContent context node kind content
      .ok (done ++ [.writeFile path content mode])
    else .ok done

def visitAll (context : Context) (parent : String) (out : Path) (done : List Operation) :
    List Node → Except Fault (List Operation)
  | [] => .ok done
  | n :: rest => do
    let done ← visit context parent out done n
    visitAll context parent out done rest

end

def build (base : Path) (outline : Outline) (context : Context) : Except Fault Plan :=
  (visit context "" base [] outline.root).map Plan.mk

end Plan

end Skeleton
