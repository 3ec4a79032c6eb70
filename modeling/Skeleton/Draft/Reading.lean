import Skeleton.Draft.Basic
import Skeleton.Yaml.Decoder

-- Reading drafts from documents.

namespace Skeleton

open Yaml (Decoder DecodeError)

def Kind.decode : Decoder Kind := fun path tree => do
  let name ← Decoder.variant (Kind.all.map Kind.name) path tree
  return (ofName? name).getD .bool

def Yaml.Data.decode : Decoder Yaml.Data := fun path tree => Yaml.dataOfTree path false tree

namespace VariableDraft

-- The fields that are read so far.
structure Fields where
  kind : Option Kind
  default : Option Yaml.Data
  description : Option String

def readField (name : String) (f : Fields) : Decoder Fields := fun path tree =>
  match name with
  | "type" => return { f with kind := some (← Kind.decode path tree) }
  | "default" => return { f with default := ← Decoder.optional Yaml.Data.decode path tree }
  | _ => return { f with description := ← Decoder.optional Decoder.text path tree }

def decode : Decoder VariableDraft :=
  Decoder.record "VariableSpec" ["type", "default", "description"] ⟨none, none, none⟩ readField
    fun f => return ⟨← Decoder.required "type" f.kind, f.default, f.description⟩

end VariableDraft

def ModeDraft.decode : Decoder ModeDraft :=
  Decoder.alternative "ModeSpec" fun
    | .integer n => if 0 ≤ n ∧ n < UInt32.size then some (.number n.toNat) else none
    | .string s => some (.text s)
    | _ => none

namespace NodeDraft

def empty : NodeDraft := ⟨none, none, none, none, none, none, none, none, []⟩

def fieldNames : List String :=
  ["dir", "file", "literal", "include", "content", "content_file", "when", "mode", "children"]

def readField (readNode : Decoder NodeDraft) (name : String) (f : NodeDraft) : Decoder NodeDraft :=
  fun path tree =>
    let text := Decoder.optional Decoder.text path tree
    match name with
    | "dir" => return { f with dir := ← text }
    | "file" => return { f with file := ← text }
    | "literal" => return { f with literal := ← text }
    | "include" => return { f with included := ← text }
    | "content" => return { f with content := ← text }
    | "content_file" => return { f with contentFile := ← text }
    | "when" => return { f with condition := ← text }
    | "mode" => return { f with mode := ← Decoder.optional ModeDraft.decode path tree }
    | _ => return { f with children := ← Decoder.list readNode path tree }

-- A node in which `depth` more nodes may nest. No document nests as deep as `Yaml.maxDepth`.
def decodeWithin : Nat → Decoder NodeDraft
  | 0 => fun _ tree => Decoder.wrongType "struct NodeSpec" tree
  | depth + 1 =>
    Decoder.record "NodeSpec" fieldNames empty (readField (decodeWithin depth)) .ok

def decode : Decoder NodeDraft := decodeWithin Yaml.maxDepth

end NodeDraft

namespace HookDraft

structure Fields where
  name : Option String
  command : Option String
  args : List String
  workingDir : Option String
  condition : Option String

def readField (name : String) (f : Fields) : Decoder Fields := fun path tree =>
  match name with
  | "name" => return { f with name := some (← Decoder.text path tree) }
  | "command" => return { f with command := some (← Decoder.text path tree) }
  | "args" => return { f with args := ← Decoder.list Decoder.text path tree }
  | "working_dir" => return { f with workingDir := ← Decoder.optional Decoder.text path tree }
  | _ => return { f with condition := ← Decoder.optional Decoder.text path tree }

def decode : Decoder HookDraft :=
  Decoder.record "HookSpec" ["name", "command", "args", "working_dir", "when"]
    ⟨none, none, [], none, none⟩ readField fun f => do
      let name ← Decoder.required "name" f.name
      let command ← Decoder.required "command" f.command
      return ⟨name, command, f.args, f.workingDir, f.condition⟩

end HookDraft

namespace Draft

structure Fields where
  name : Option String
  description : Option String
  declared : Dictionary String VariableDraft
  templates : Dictionary String (List NodeDraft)
  root : Option NodeDraft
  hooks : List HookDraft

def readField (name : String) (f : Fields) : Decoder Fields := fun path tree =>
  match name with
  | "name" => return { f with name := some (← Decoder.text path tree) }
  | "description" => return { f with description := ← Decoder.optional Decoder.text path tree }
  | "variables" =>
    return { f with declared := ← Decoder.dictionary VariableDraft.decode path tree }
  | "templates" =>
    return { f with templates := ← Decoder.dictionary (Decoder.list NodeDraft.decode) path tree }
  | "root" => return { f with root := some (← NodeDraft.decode path tree) }
  | _ => return { f with hooks := ← Decoder.list HookDraft.decode path tree }

def decode : Decoder Draft :=
  Decoder.record "ScaffoldDocument"
    ["name", "description", "variables", "templates", "root", "hooks"]
    ⟨none, none, .empty, .empty, none, []⟩ readField fun f => do
      let name ← Decoder.required "name" f.name
      let root ← Decoder.required "root" f.root
      return ⟨name, f.description, f.declared, f.templates, root, f.hooks⟩

end Draft

end Skeleton
