import Skeleton.Condition.Check
import Skeleton.Condition.Eval
import Skeleton.Disk.Fault
import Skeleton.Path
import Skeleton.Template.Segment
import Skeleton.Value.Yaml

-- Why a scaffold cannot be loaded or planned, or its hooks not be resolved.

namespace Skeleton

-- The path of a node by the names as they are written.
def childPath (parent name : String) : String :=
  if parent.isEmpty then name else parent ++ "/" ++ name

def parentText (parent : String) : String := if parent.isEmpty then "<root>" else parent

def hookLabel (name : String) : String := "hook `" ++ name ++ "`"

def includeLabel (template parent : String) : String :=
  "include `" ++ template ++ "` under `" ++ parentText parent ++ "`"

inductive ValueFault where
  | unreadable (e : Yaml.LoadError)
  | unsupported (fault : ConversionFault)
  | otherKind (expected found : Kind)

def ValueFault.message : ValueFault → String
  | unreadable e => e.message
  | unsupported fault => fault.message
  | otherKind expected found => "expected " ++ expected.name ++ ", found " ++ found.name

inductive SegmentFault where
  | blankPattern
  | empty
  | relative
  | separator
  | nulByte
  | outsideRoot
  deriving DecidableEq

def SegmentFault.message : SegmentFault → String
  | blankPattern => "name pattern is empty"
  | empty => "renders to an empty name"
  | relative => "renders to a relative path component"
  | separator => "contains a path separator"
  | nulByte => "contains a NUL byte"
  | outsideRoot => "working directory must stay inside the output root"

-- What is wrong with the structure of a scaffold. A node is named by its path.
inductive BuildFault where
  | duplicatePath (path node : String)
  | invalidSegment (segment node : String) (fault : SegmentFault)
  | conditionType (node : String) (fault : Condition.TypeFault)
  | conditionValue (node : String) (fault : Condition.EvalFault)
  | conditionSyntax (node condition : String) (e : Condition.SyntaxError)
  | duplicateName (name parent : String)
  | duplicateBinding (fault : DuplicateBinding)
  | cyclicInclude (chain : List String)

def BuildFault.message : BuildFault → String
  | duplicatePath path node => "Duplicate output path `" ++ path ++ "` produced by " ++ node
  | invalidSegment segment node fault =>
    "Invalid path segment `" ++ segment ++ "` for " ++ node ++ ": " ++ fault.message
  | conditionType node fault => "Condition type error in " ++ node ++ ": " ++ fault.message
  | conditionValue node fault => "Condition type error in " ++ node ++ ": " ++ fault.message
  | conditionSyntax node condition e =>
    "Condition syntax error in " ++ node ++ " at offset " ++ Text.decimal e.offset ++ " of `"
      ++ condition ++ "`: " ++ e.fault.message
  | duplicateName name parent => "Duplicate name pattern `" ++ name ++ "` under " ++ parent
  | duplicateBinding fault =>
    "Variable `" ++ fault.name ++ "` bound twice in layer `" ++ fault.layer ++ "`"
  | cyclicInclude chain => "Cyclic template include: " ++ " -> ".intercalate chain

inductive DraftFault where
  | rootCount
  | variableName (name : String)
  | default (name : String) (fault : ValueFault)
  | nodeRole (parent : String)
  | directoryContent (path : String)
  | includeContent (label : String)
  | unknownTemplate (label : String)
  | fileChildren (path : String)
  | contentTwice (path : String)
  | mode (path digits : String)

def DraftFault.message : DraftFault → String
  | rootCount => "root must expand to exactly one node"
  | variableName name => "variable name `" ++ name ++ "` is not an identifier"
  | default name fault => "default for `" ++ name ++ "`: " ++ fault.message
  | nodeRole parent =>
    "node under `" ++ parentText parent
      ++ "` must set exactly one of dir, file, literal, include"
  | directoryContent path => "directory `" ++ path ++ "` cannot have content or mode"
  | includeContent label => label ++ " cannot have content, mode, or children"
  | unknownTemplate label => label ++ " names an unknown template"
  | fileChildren path => "file `" ++ path ++ "` cannot have children"
  | contentTwice path => "file `" ++ path ++ "` sets both content and content_file"
  | mode path digits =>
    "invalid mode for `" ++ path ++ "`: expected octal permission bits, got `" ++ digits ++ "`"

-- The parts of nodes and hooks that are templates.
inductive Field where
  | name
  | content
  | args
  | workingDir
  deriving DecidableEq

def Field.text : Field → String
  | name => "name"
  | content => "content"
  | args => "args"
  | workingDir => "working_dir"

inductive Fault where
  | unbound (path : VarPath) (node : String) (offset : Option Nat)
  | render (node : String) (field : Field) (e : Template.Error)
  | build (fault : BuildFault)
  | draft (fault : DraftFault)
  | unreadableFile (path : Path) (fault : IoFault)
  | invalidOverride (name : String) (fault : ValueFault)
  | hooksBlocked
  | document (e : Yaml.LoadError)

def Fault.message : Fault → String
  | unbound path node none => "Unbound variable `" ++ path.text ++ "` in " ++ node
  | unbound path node (some offset) =>
    "Unbound variable `" ++ path.text ++ "` in " ++ node ++ " at offset " ++ Text.decimal offset
  | render node field e =>
    "Failed to render " ++ field.text ++ " of " ++ node ++ ": " ++ e.message
  | build fault => fault.message
  | draft fault => "Invalid scaffold document: " ++ fault.message
  | unreadableFile path fault => "Failed to read " ++ path.text ++ ": " ++ fault.message
  | invalidOverride name fault =>
    "Invalid value for variable `" ++ name ++ "`: " ++ fault.message
  | hooksBlocked => "Post-generation hooks require a fully successful execution"
  | document e => "YAML error: " ++ e.message

def Fault.ofEval (node : String) : Condition.EvalFault → Fault
  | .unbound path => .unbound path node none
  | fault => .build (.conditionValue node fault)

def Fault.ofTemplate (node : String) (field : Field) (e : Template.Error) : Fault :=
  match e.fault with
  | .unbound path => .unbound path node (some e.offset)
  | _ => .render node field e

end Skeleton
