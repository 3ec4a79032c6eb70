import Skeleton.Blueprint.Expansion
import Skeleton.Disk.Operations
import Skeleton.Draft.Reading

-- Blueprints out of documents.

namespace Skeleton

-- The declaration of a variable. Its default must be of its kind.
def VariableDraft.declaration (name : String) (v : VariableDraft) : Except Fault Declaration := do
  if !isIdentifier name then .error (.draft (.variableName name))
  else
    let value (data : Yaml.Data) : Except ValueFault Value := do
      let value ← (Value.ofData data).mapError .unsupported
      value.coerce v.kind
    let default ← v.default.mapM fun data =>
      (value data).mapError fun fault => .draft (.default name fault)
    .ok ⟨v.kind, default, v.description⟩

def HookDraft.hook (schema : Schema) (h : HookDraft) : Except Fault Hook := do
  let label := hookLabel h.name
  let condition ← h.condition.mapM fun source => do
    let c ← parseCondition label source
    (c.check schema).mapError fun fault => Fault.build (.conditionType label fault)
    .ok c
  h.args.forM (checkTemplate label .args)
  h.workingDir.forM (checkTemplate label .workingDir)
  .ok ⟨h.name, h.command, h.args, h.workingDir, condition⟩

namespace Blueprint

def ofDraft (fetch : String → Except Fault String) (draft : Draft) :
    Except Fault Blueprint := do
  let declarations ← draft.declared.entries.mapM fun (name, v) => do
    return (name, ← v.declaration name)
  let declarations := Dictionary.ofList declarations
  let schema : Schema := Dictionary.ofList
    (declarations.entries.map fun (name, d) => (name, d.kind))
  match ← expand ⟨draft.templates, fetch⟩ [] "" draft.root with
  | [root] =>
    let outline ← (Outline.ofNode schema root).mapError .build
    let hooks ← draft.hooks.mapM (HookDraft.hook schema)
    .ok ⟨draft.name, draft.description, declarations, outline, hooks⟩
  | _ => .error (.draft .rootCount)

def fileText (disk : Disk) (p : Path) : Except Fault String :=
  (disk.readText p).mapError (.unreadableFile p)

-- The blueprint in a document. Files that it names are looked up from a directory.
def load (disk : Disk) (baseDir : Path) (text : String) : Except Fault Blueprint := do
  let draft ← (Draft.decode.run text).mapError .document
  ofDraft (fun file => fileText disk (baseDir.join (.ofText file))) draft

-- The blueprint in a file. Files that it names are looked up beside it.
def loadFile (disk : Disk) (p : Path) : Except Fault Blueprint := do
  let text ← fileText disk p
  load disk (p.parent?.getD .empty) text

end Blueprint

end Skeleton
