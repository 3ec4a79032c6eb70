import Skeleton.Yaml.Cursor

-- The tokens of documents.

namespace Skeleton.Yaml

inductive ScalarStyle where
  | plain
  | single
  | double
  | literal
  | folded
  deriving DecidableEq

inductive TokenKind where
  | streamEnd
  | version (major minor : Nat)
  | tagDirective (handle tagPrefix : String)
  | documentStart
  | documentEnd
  | blockSequenceStart
  | blockMappingStart
  | blockEnd
  | flowSequenceStart
  | flowSequenceEnd
  | flowMappingStart
  | flowMappingEnd
  | blockEntry
  | flowEntry
  | key
  | value
  | alias (name : String)
  | anchor (name : String)
  | tag (handle suffix : String)
  | scalar (style : ScalarStyle) (text : String)
  deriving DecidableEq

structure Token where
  mark : Mark
  kind : TokenKind
  deriving DecidableEq

end Skeleton.Yaml
