import Skeleton.Plan.Basic
import Skeleton.Proofs.Plan.Shape
import Skeleton.Proofs.Template.Listing

-- Which variables a plan depends on: those that the conditions, the names and the template contents
-- of its outline mention. Contexts that show the same values for them make the same plan.

namespace Skeleton

namespace Context

variable {c c' : Context} {path : VarPath}

theorem resolvePath?_congr (h : c.resolve? path.root = c'.resolve? path.root) :
    c.resolvePath? path = c'.resolvePath? path := by
  rw [resolvePath?, resolvePath?, h]

end Context

namespace Condition

-- The variables of an expression, those of which it only asks whether they are defined included.
def Expr.mentions : Expr → List String
  | .literal _ => []
  | .var path => [path.root]
  | .defined path => [path.root]
  | .not e => e.mentions
  | .and l r => l.mentions ++ r.mentions
  | .or l r => l.mentions ++ r.mentions
  | .eq l r => l.mentions ++ r.mentions
  | .ne l r => l.mentions ++ r.mentions
  | .isIn l r => l.mentions ++ r.mentions

variable {context context' : Context}

theorem Expr.eval_congr (e : Expr)
    (h : ∀ name ∈ e.mentions, context.resolve? name = context'.resolve? name) :
    e.eval context = e.eval context' := by
  induction e with
  | literal v => rfl
  | var path =>
    have hpath := Context.resolvePath?_congr (h path.root List.mem_cons_self)
    simp only [Expr.eval, hpath]
  | defined path =>
    have hpath := Context.resolvePath?_congr (h path.root List.mem_cons_self)
    simp only [Expr.eval, Context.isBound, hpath]
  | not e ih => simp only [Expr.eval, ih h]
  | and l r ihl ihr | or l r ihl ihr | eq l r ihl ihr | ne l r ihl ihr | isIn l r ihl ihr =>
    obtain ⟨hl, hr⟩ := List.forall_mem_append.mp h
    simp only [Expr.eval, ihl hl, ihr hr]

theorem eval_congr {c : Condition}
    (h : ∀ name ∈ c.expr.mentions, context.resolve? name = context'.resolve? name) :
    c.eval context = c.eval context' := by
  rw [eval, eval, c.expr.eval_congr h]

end Condition

namespace Template

def mentions (template : String) : List String :=
  match placeholders template with
  | .ok paths => paths.map VarPath.root
  | .error _ => []

variable {context context' : Context}

theorem render_congr {template : String}
    (h : ∀ name ∈ mentions template, context.resolve? name = context'.resolve? name) :
    render context template = render context' template := by
  cases hpaths : placeholders template with
  | error e =>
    rw [render_of_placeholders_eq_error hpaths, render_of_placeholders_eq_error hpaths]
  | ok paths =>
    simp only [mentions, hpaths, List.forall_mem_map] at h
    exact render_congr_of_paths hpaths fun path hpath => Context.resolvePath?_congr (h path hpath)

end Template

namespace Node

def conditionMentions (condition : Option Condition) : List String :=
  (condition.map fun c => c.expr.mentions).getD []

-- The contents of literal files are not templates.
def contentMentions (kind : FileKind) (content : String) : List String :=
  match kind with
  | .template => Template.mentions content
  | .literal => []

mutual

def mentions : Node → List String
  | directory name condition children =>
    conditionMentions condition ++ Template.mentions name ++ mentionsAll children
  | file name condition kind content _ =>
    conditionMentions condition ++ Template.mentions name ++ contentMentions kind content

def mentionsAll : List Node → List String
  | [] => []
  | n :: rest => n.mentions ++ mentionsAll rest

end

end Node

namespace Plan

variable {context context' : Context} {node name content : String} {condition : Option Condition}
  {kind : FileKind}

theorem isIncluded_congr
    (h : ∀ v ∈ Node.conditionMentions condition, context.resolve? v = context'.resolve? v) :
    isIncluded context node condition = isIncluded context' node condition := by
  cases condition with
  | none => rfl
  | some c => rw [isIncluded, isIncluded, Condition.eval_congr h]

theorem segment_congr
    (h : ∀ v ∈ Template.mentions name, context.resolve? v = context'.resolve? v) :
    segment context node name = segment context' node name := by
  rw [segment, segment, Template.render_congr h]

theorem fileContent_congr
    (h : ∀ v ∈ Node.contentMentions kind content, context.resolve? v = context'.resolve? v) :
    fileContent context node kind content = fileContent context' node kind content := by
  cases kind with
  | template => rw [fileContent, fileContent, Template.render_congr h]
  | literal => rfl

mutual

theorem visit_congr {parent : String} {out : Path} {done : List Operation} : ∀ n : Node,
    (∀ v ∈ n.mentions, context.resolve? v = context'.resolve? v) →
      visit context parent out done n = visit context' parent out done n
  | .directory name condition children, h => by
    rw [Node.mentions, List.forall_mem_append, List.forall_mem_append] at h
    obtain ⟨⟨hcondition, hname⟩, hchildren⟩ := h
    simp only [visit, isIncluded_congr hcondition, segment_congr hname,
      visitAll_congr children hchildren]
  | .file name condition kind content mode, h => by
    rw [Node.mentions, List.forall_mem_append, List.forall_mem_append] at h
    obtain ⟨⟨hcondition, hname⟩, hcontent⟩ := h
    simp only [visit, isIncluded_congr hcondition, segment_congr hname,
      fileContent_congr hcontent]

theorem visitAll_congr {parent : String} {out : Path} {done : List Operation} :
    ∀ ns : List Node, (∀ v ∈ Node.mentionsAll ns, context.resolve? v = context'.resolve? v) →
      visitAll context parent out done ns = visitAll context' parent out done ns
  | [], _ => rfl
  | n :: rest, h => by
    rw [Node.mentionsAll, List.forall_mem_append] at h
    obtain ⟨hn, hrest⟩ := h
    rw [visitAll, visitAll, visit_congr n hn]
    exact bind_congr_ok fun done' _ => visitAll_congr rest hrest

end

-- Contexts in which every variable that an outline mentions shows the same value, or none, give the
-- same plan or the same fault.
theorem build_congr (base : Path) (outline : Outline)
    (h : ∀ v ∈ outline.root.mentions, context.resolve? v = context'.resolve? v) :
    build base outline context = build base outline context' := by
  rw [build, build, visit_congr outline.root h]

-- A file that is left out where a variable is defined.
def draftable : Outline where
  root := .directory "{{ name }}" none
    [.file "{{ name | upper }}.md"
        (some ⟨"not defined(final)", .not (.defined ⟨"final", [], by decide⟩)⟩)
        .template "# {{ name }}" none,
      .file "NOTES" none .literal "{{ port }}" none]
  schema := .empty
  checked := by rfl

def onLayers : Context :=
  ⟨[⟨"vars", Dictionary.ofList [("port", .integer 8080)]⟩,
    ⟨"scaffold", Dictionary.ofList [("name", .string "lyra")]⟩,
    ⟨"global", Dictionary.ofList [("name", .string "vega"), ("site", .bool true)]⟩]⟩

theorem build_congr_onLayers :
    (∀ v ∈ draftable.root.mentions, (named "lyra").resolve? v = onLayers.resolve? v) ∧
      build ⟨["out"]⟩ draftable (named "lyra") = build ⟨["out"]⟩ draftable onLayers := by
  have hmentions : draftable.root.mentions = ["name", "final", "name", "name"] := by cbv
  have h : ∀ v ∈ draftable.root.mentions, (named "lyra").resolve? v = onLayers.resolve? v := by
    rw [hmentions]
    intro v hv
    fin_cases hv <;> rfl
  exact ⟨h, build_congr _ draftable h⟩

end Plan

end Skeleton
