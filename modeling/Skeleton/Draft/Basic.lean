import Skeleton.Yaml.Data
import Skeleton.Value.Kind

-- Scaffolds as documents write them down.

namespace Skeleton

structure VariableDraft where
  kind : Kind
  default : Option Yaml.Data
  description : Option String

inductive ModeDraft where
  | number (n : Nat)
  | text (s : String)

-- A node. One of the first four fields says what it is.
structure NodeDraft where
  dir : Option String
  file : Option String
  literal : Option String
  included : Option String
  content : Option String
  contentFile : Option String
  condition : Option String
  mode : Option ModeDraft
  children : List NodeDraft

structure HookDraft where
  name : String
  command : String
  args : List String
  workingDir : Option String
  condition : Option String

structure Draft where
  name : String
  description : Option String
  declared : Dictionary String VariableDraft
  templates : Dictionary String (List NodeDraft)
  root : NodeDraft
  hooks : List HookDraft

end Skeleton
