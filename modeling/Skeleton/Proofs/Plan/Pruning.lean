import Skeleton.Proofs.Plan.Gates
import Skeleton.Proofs.Plan.Shape

-- Nodes whose conditions are false. Nothing else about such a node counts for a plan, wherever it
-- stands in an outline.

namespace Skeleton

structure Surrounding where
  name : String
  condition : Option Condition
  before : List Node
  after : List Node

-- The tree around a gap, from the innermost directory outwards, with a node in the gap.
def Node.within (n : Node) : List Surrounding → Node
  | [] => n
  | s :: outer =>
    (Node.directory s.name s.condition (s.before ++ n :: s.after)).within outer

namespace Plan

section Within

variable {context : Context} {n n' : Node}

theorem visitAll_append_congr
    (h : ∀ parent out done, visit context parent out done n = visit context parent out done n')
    (before after : List Node) (parent : String) (out : Path) (done : List Operation) :
    visitAll context parent out done (before ++ n :: after) =
      visitAll context parent out done (before ++ n' :: after) := by
  induction before generalizing done with
  | nil => rw [List.nil_append, List.nil_append, visitAll, visitAll, h]
  | cons m before ih =>
    rw [List.cons_append, List.cons_append, visitAll, visitAll]
    exact bind_congr_ok fun done' _ => ih done'

-- Nodes that are visited alike are so within one tree, by induction on the directories around them.
theorem visit_within_congr (around : List Surrounding)
    (h : ∀ parent out done, visit context parent out done n = visit context parent out done n')
    (parent : String) (out : Path) (done : List Operation) :
    visit context parent out done (n.within around) =
      visit context parent out done (n'.within around) := by
  induction around generalizing n n' with
  | nil => exact h parent out done
  | cons s outer ih =>
    refine ih fun parent out done => ?_
    simp only [visit, visitAll_append_congr h]

theorem visit_of_false {c : Condition} (hn : n.condition = some c)
    (hc : c.eval context = .ok false) (parent : String) (out : Path) (done : List Operation) :
    visit context parent out done n = .ok done := by
  refine visit_of_excluded ?_
  rw [hn, isIncluded, hc]
  rfl

end Within

-- A node whose condition is false can be any other node with that condition: the plan is the same,
-- and so is the fault where there is none.
theorem build_of_false (base : Path) (context : Context) {outline outline' : Outline}
    {around : List Surrounding} {n n' : Node} {c : Condition}
    (hroot : outline.root = n.within around) (hroot' : outline'.root = n'.within around)
    (hn : n.condition = some c) (hn' : n'.condition = some c)
    (hc : c.eval context = .ok false) :
    build base outline context = build base outline' context := by
  have hvisit : ∀ parent out done, visit context parent out done n =
      visit context parent out done n' := by
    intro parent out done
    rw [visit_of_false hn hc, visit_of_false hn' hc]
  rw [build, build, hroot, hroot', visit_within_congr around hvisit]

def onlyPrinted : Condition := ⟨"defined(print)", .defined ⟨"print", [], by decide⟩⟩

-- What is left out of a draft: a directory with a name that no path may have, and a file that needs
-- variables which are not there.
def appendix : Node :=
  .directory "{{ name }}/.." (some onlyPrinted)
    [.file "{{ missing }}" (some ⟨"missing", .var ⟨"missing", [], by decide⟩⟩) .template
      "{{ missing | snake }}" none]

def blank : Node := .file "index.md" (some onlyPrinted) .literal "\x7b\x7b" (some 0o600)

def article (part : Node) : Node :=
  .directory "{{ name }}" none
    [.file "text" none .literal "" none,
      .directory "parts" none [part, .file "index" none .template "{{ name }}" none]]

def withAppendix : Outline where
  root := article appendix
  schema := Dictionary.ofList [("missing", .bool)]
  checked := by rfl

def withBlank : Outline where
  root := article blank
  schema := .empty
  checked := by rfl

def aroundPart : List Surrounding :=
  [⟨"parts", none, [], [.file "index" none .template "{{ name }}" none]⟩,
    ⟨"{{ name }}", none, [.file "text" none .literal "" none], []⟩]

theorem build_of_false_withAppendix :
    withAppendix.root = appendix.within aroundPart ∧
      onlyPrinted.eval (named "lyra") = .ok false ∧
      build ⟨["out"]⟩ withAppendix (named "lyra") = build ⟨["out"]⟩ withBlank (named "lyra") := by
  have hroot : withAppendix.root = appendix.within aroundPart := rfl
  have hroot' : withBlank.root = blank.within aroundPart := rfl
  have hc : onlyPrinted.eval (named "lyra") = .ok false := by rfl
  exact ⟨hroot, hc, build_of_false _ _ hroot hroot' rfl rfl hc⟩

end Plan

end Skeleton
