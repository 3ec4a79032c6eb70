import Skeleton.Blueprint.Basic
import Skeleton.Draft.Basic

-- Nodes out of drafts. An include stands for the nodes of a template, which are put in its place.

namespace Skeleton

inductive Role where
  | directory (name : String)
  | file (kind : FileKind) (name : String)
  | included (template : String)

-- The role of a draft that has exactly one.
def NodeDraft.role? (n : NodeDraft) : Option Role :=
  match n.dir, n.file, n.literal, n.included with
  | some name, none, none, none => some (.directory name)
  | none, some name, none, none => some (.file .template name)
  | none, none, some name, none => some (.file .literal name)
  | none, none, none, some template => some (.included template)
  | _, _, _, _ => none

-- Takes a mark for octal numbers off the front, as often as it is there.
def dropOctalMarks : List Char → List Char
  | '0' :: 'o' :: rest => dropOctalMarks rest
  | cs => cs

def ModeDraft.digits : ModeDraft → String
  | number n => Text.decimal n
  | text s => String.ofList (dropOctalMarks (Text.trimBlanks s.toList))

-- The mode that digits stand for in base eight. Numbers and texts with the same digits agree.
def ModeDraft.mode? (m : ModeDraft) : Option Nat :=
  let digits :=
    match m.digits.toList with
    | '+' :: rest => rest
    | cs => cs
  (Text.readNat? 8 digits).filter (· ≤ 0o7777)

def parseMode (path : String) (m : ModeDraft) : Except Fault Nat :=
  match m.mode? with
  | some mode => .ok mode
  | none => .error (.draft (.mode path m.digits))

def parseCondition (node source : String) : Except Fault Condition :=
  (Condition.parse source).mapError fun e => .build (.conditionSyntax node source e)

def checkTemplate (node : String) (field : Field) (template : String) : Except Fault Unit :=
  match Template.segments template with
  | .ok _ => .ok ()
  | .error e => .error (.render node field e)

-- Where includes and contents of files come from.
structure Sources where
  templates : Dictionary String (List NodeDraft)
  fetch : String → Except Fault String

def Sources.content (s : Sources) (path : String) (n : NodeDraft) : Except Fault String :=
  if !n.children.isEmpty then .error (.draft (.fileChildren path))
  else
    match n.content, n.contentFile with
    | some _, some _ => .error (.draft (.contentTwice path))
    | some content, none => .ok content
    | none, some file => s.fetch file
    | none, none => .ok ""

-- The number of templates that are not being put in.
def Sources.unused (s : Sources) (stack : List String) : Nat :=
  (s.templates.keys.filter (· ∉ stack)).length

theorem length_filter_lt {names stack : List String} {name : String} (hin : name ∈ names)
    (hout : name ∉ stack) :
    (names.filter (· ∉ stack ++ [name])).length < (names.filter (· ∉ stack)).length := by
  have hmem : name ∈ names.filter (· ∉ stack) := List.mem_filter.mpr ⟨hin, by simpa using hout⟩
  have hsplit : names.filter (· ∉ stack ++ [name]) =
      (names.filter (· ∉ stack)).filter (· ≠ name) := by
    rw [List.filter_filter]
    apply List.filter_congr
    intro x _
    by_cases hx : x = name <;> simp [hx]
  rw [hsplit]
  have hall : ¬ ∀ x ∈ names.filter (· ∉ stack), decide (x ≠ name) = true := by
    intro h
    simpa using h name hmem
  have hle := List.length_filter_le (fun x => decide (x ≠ name)) (names.filter (· ∉ stack))
  have hne : ((names.filter (· ∉ stack)).filter (· ≠ name)).length ≠
      (names.filter (· ∉ stack)).length := fun h => hall (List.length_filter_eq_length_iff.mp h)
  exact Nat.lt_of_le_of_ne hle hne

theorem Sources.unused_lt {s : Sources} {stack : List String} {name : String}
    {nodes : List NodeDraft} (hfound : s.templates.get? name = some nodes)
    (hout : name ∉ stack) : s.unused (stack ++ [name]) < s.unused stack :=
  length_filter_lt (Dictionary.mem_keys_of_get? (by simp [hfound])) hout

theorem Sources.sizeOf_lt {s : Sources} {name : String} {nodes : List NodeDraft}
    (hfound : s.templates.get? name = some nodes) : sizeOf nodes < sizeOf s.templates.entries := by
  have hmem := List.sizeOf_lt_of_mem (mem_of_lookupEntry hfound)
  simp only [Prod.mk.sizeOf_spec] at hmem
  omega

-- An include leaves less to do, as any template is smaller than all of them together.
theorem Sources.work_lt {s : Sources} {stack : List String} {name : String}
    {nodes : List NodeDraft} (hfound : s.templates.get? name = some nodes)
    (hout : name ∉ stack) :
    s.unused (stack ++ [name]) * sizeOf s.templates.entries + sizeOf nodes <
      s.unused stack * sizeOf s.templates.entries := by
  have hsize := s.sizeOf_lt hfound
  have hunused := Nat.mul_le_mul_right (sizeOf s.templates.entries) (Sources.unused_lt hfound hout)
  rw [Nat.succ_mul] at hunused
  omega

mutual

-- The nodes that a draft stands for under a parent. `stack` holds the templates that are being put
-- in, the outermost first.
def expand (s : Sources) (stack : List String) (parent : String) (n : NodeDraft) :
    Except Fault (List Node) :=
  match n.role? with
  | none => .error (.draft (.nodeRole parent))
  | some (.directory name) => do
    let path := childPath parent name
    if n.content.isSome || n.contentFile.isSome || n.mode.isSome then
      .error (.draft (.directoryContent path))
    else
      checkTemplate path .name name
      let children ← expandAll s stack path n.children
      let condition ← n.condition.mapM (parseCondition path)
      .ok [.directory name condition children]
  | some (.file kind name) => do
    let path := childPath parent name
    let content ← s.content path n
    checkTemplate path .name name
    if kind = .template then checkTemplate path .content content
    let mode ← n.mode.mapM (parseMode path)
    let condition ← n.condition.mapM (parseCondition path)
    .ok [.file name condition kind content mode]
  | some (.included template) => do
    let label := includeLabel template parent
    if n.content.isSome || n.contentFile.isSome || n.mode.isSome || !n.children.isEmpty then
      .error (.draft (.includeContent label))
    else if _hout : template ∈ stack then
      .error (.build (.cyclicInclude (stack ++ [template])))
    else
      match _hfound : s.templates.get? template with
      | none => .error (.draft (.unknownTemplate label))
      | some drafts =>
        let gate ← n.condition.mapM (parseCondition label)
        let nodes ← expandAll s (stack ++ [template]) parent drafts
        match gate with
        | some gate => .ok (nodes.map (Node.gated gate))
        | none => .ok nodes
termination_by 2 * (s.unused stack * sizeOf s.templates.entries + sizeOf n) + 1
decreasing_by
  · have h : sizeOf n.children < sizeOf n := by
      cases n
      simp only [NodeDraft.mk.sizeOf_spec]
      omega
    omega
  · have h := Sources.work_lt _hfound _hout
    omega

def expandAll (s : Sources) (stack : List String) (parent : String) :
    List NodeDraft → Except Fault (List Node)
  | [] => .ok []
  | n :: rest => do
    let nodes ← expand s stack parent n
    let more ← expandAll s stack parent rest
    .ok (nodes ++ more)
termination_by drafts => 2 * (s.unused stack * sizeOf s.templates.entries + sizeOf drafts)

end

end Skeleton
