import Skeleton.Plan.Basic
import Skeleton.Proofs.Except

-- Nodes behind several conditions, which a plan takes for gates one inside the other: the first one
-- that does not hold decides, and those after it do not count.

namespace Skeleton

namespace Condition

def conjunction : List Condition → Option Condition
  | [] => none
  | c :: rest =>
    some (match conjunction rest with
      | some own => c.and own
      | none => c)

theorem conjunction_toList (own : Option Condition) : conjunction own.toList = own := by
  cases own <;> rfl

section And

variable {context : Context} {a b : Condition} {t : Bool} {fault : EvalFault}

theorem eval_eq_ok_iff : a.eval context = .ok t ↔ a.expr.eval context = .ok (.bool t) := by
  unfold eval
  cases a.expr.eval context with
  | error fault => simp [bind, Except.bind]
  | ok v => cases v <;> simp [bind, Except.bind, Value.bool?]

theorem eval_and_of_true (h : a.eval context = .ok true) :
    (a.and b).eval context = .ok t ↔ b.eval context = .ok t := by
  rw [eval_eq_ok_iff] at h
  simp only [eval_eq_ok_iff, Condition.and, Expr.eval, h]
  cases b.expr.eval context with
  | error fault => simp [bind, Except.bind, truth, Value.bool?]
  | ok v => cases v <;> simp [bind, Except.bind, truth, Value.bool?]

theorem eval_and_of_false (h : a.eval context = .ok false) :
    (a.and b).eval context = .ok false := by
  rw [eval_eq_ok_iff] at h
  simp [eval_eq_ok_iff, Condition.and, Expr.eval, h, bind, Except.bind, truth, Value.bool?]

theorem eval_and_of_error (h : a.eval context = .error fault) :
    (a.and b).eval context ≠ .ok t := by
  have hne : ∀ t, a.expr.eval context ≠ .ok (.bool t) := by
    intro t ht
    rw [eval_eq_ok_iff.mpr ht] at h
    cases h
  rw [Ne, eval_eq_ok_iff]
  simp only [Condition.and, Expr.eval]
  cases hv : a.expr.eval context with
  | error fault => simp [bind, Except.bind]
  | ok v => cases v <;> simp_all [bind, Except.bind, truth, Value.bool?]

end And

end Condition

-- A node before its conditions are joined into one: the gates in front of it, the outermost first.
inductive GatedNode where
  | directory (name : String) (gates : List Condition) (children : List GatedNode)
  | file (name : String) (gates : List Condition) (kind : FileKind) (content : String)
      (mode : Option Nat)

namespace GatedNode

def gates : GatedNode → List Condition
  | directory _ gates _ => gates
  | file _ gates _ _ _ => gates

def withGates (gates : List Condition) : GatedNode → GatedNode
  | directory name _ children => directory name gates children
  | file name _ kind content mode => file name gates kind content mode

mutual

def node : GatedNode → Node
  | directory name gates children =>
    .directory name (Condition.conjunction gates) (nodes children)
  | file name gates kind content mode =>
    .file name (Condition.conjunction gates) kind content mode

def nodes : List GatedNode → List Node
  | [] => []
  | t :: rest => t.node :: nodes rest

end

theorem nodes_eq_map (ts : List GatedNode) : nodes ts = ts.map node := by
  induction ts with
  | nil => rfl
  | cons t rest ih => simp [nodes, ih]

theorem node_withGates (gates : List Condition) (t : GatedNode) :
    (t.withGates gates).node = t.node.withCondition (Condition.conjunction gates) := by
  cases t <;> simp [withGates, node, Node.withCondition]

theorem condition_node (t : GatedNode) : t.node.condition = Condition.conjunction t.gates := by
  cases t <;> simp [node, gates, Node.condition]

theorem withGates_gates (t : GatedNode) : t.withGates t.gates = t := by
  cases t <;> rfl

theorem gates_withGates (gates : List Condition) (t : GatedNode) :
    (t.withGates gates).gates = gates := by
  cases t <;> rfl

end GatedNode

namespace Plan

open Condition (conjunction)

variable {context : Context} {base out path : Path} {parent node name : String}
  {done done' : List Operation} {c : Condition} {before after rest : List Condition} {b : Bool}

theorem isIncluded_cons_of_true (h : c.eval context = .ok true) :
    isIncluded context node (conjunction (c :: rest)) = .ok b ↔
      isIncluded context node (conjunction rest) = .ok b := by
  cases hrest : conjunction rest with
  | none => simp [conjunction, hrest, isIncluded, mapError_eq_ok_iff, h]
  | some own =>
    simp only [conjunction, hrest, isIncluded, mapError_eq_ok_iff]
    exact Condition.eval_and_of_true h

theorem isIncluded_cons_of_false (h : c.eval context = .ok false) :
    isIncluded context node (conjunction (c :: rest)) = .ok false := by
  cases hrest : conjunction rest with
  | none => simp only [conjunction, hrest, isIncluded, mapError_eq_ok_iff, h]
  | some own =>
    simp only [conjunction, hrest, isIncluded, mapError_eq_ok_iff]
    exact Condition.eval_and_of_false h

theorem isIncluded_cons_of_error {fault : Condition.EvalFault}
    (h : c.eval context = .error fault) :
    isIncluded context node (conjunction (c :: rest)) ≠ .ok b := by
  cases hrest : conjunction rest with
  | none => simp [conjunction, hrest, isIncluded, mapError_eq_ok_iff, h]
  | some own =>
    simp only [Ne, conjunction, hrest, isIncluded, mapError_eq_ok_iff]
    exact Condition.eval_and_of_error h

-- Gates that hold count for nothing.
theorem isIncluded_append (hbefore : ∀ g ∈ before, g.eval context = .ok true) :
    isIncluded context node (conjunction (before ++ rest)) = .ok b ↔
      isIncluded context node (conjunction rest) = .ok b := by
  induction before with
  | nil => rfl
  | cons g before ih =>
    obtain ⟨hg, hbefore⟩ := List.forall_mem_cons.mp hbefore
    exact (isIncluded_cons_of_true hg).trans (ih hbefore)

section Visit

variable {n : Node} {fault : Fault}

theorem visit_of_included
    (h : isIncluded context (childPath parent n.name) n.condition = .ok true) :
    visit context parent out done n = visit context parent out done (n.withCondition none) := by
  cases n <;> simp_all [visit, isIncluded, Node.name, Node.condition, Node.withCondition]

theorem visit_of_excluded
    (h : isIncluded context (childPath parent n.name) n.condition = .ok false) :
    visit context parent out done n = .ok done := by
  cases n <;> simp_all [visit, Node.name, Node.condition, bind, Except.bind]

theorem visit_of_error
    (h : isIncluded context (childPath parent n.name) n.condition = .error fault) :
    visit context parent out done n = .error fault := by
  cases n <;> simp_all [visit, Node.name, Node.condition, bind, Except.bind]

theorem visitAll_of_error {ns : List Node} (hns : visitAll context parent out done ns = .ok done')
    (h : visit context parent out done' n = .error fault) (more : List Node) :
    visitAll context parent out done (ns ++ n :: more) = .error fault := by
  induction ns generalizing done with
  | nil =>
    obtain rfl := Except.ok.inj hns
    simp [visitAll, h, bind, Except.bind]
  | cons m ns ih =>
    obtain ⟨between, hm, hns⟩ := bind_eq_ok_iff.mp hns
    rw [List.cons_append, visitAll, hm]
    exact ih hns

end Visit

-- The visits that are made for a plan: of the root, and of what is in a directory once everything
-- before it is done.
inductive Reached (context : Context) (base : Path) (tree : GatedNode) :
    String → Path → List Operation → GatedNode → Prop where
  | root : Reached context base tree "" base [] tree
  | child {parent out done name gates before t after text path done'}
      (h : Reached context base tree parent out done (.directory name gates (before ++ t :: after)))
      (hincluded : isIncluded context (childPath parent name) (conjunction gates) = .ok true)
      (hsegment : segment context (childPath parent name) name = .ok text)
      (hplace : place done (childPath parent name) out text = .ok path)
      (hbefore : visitAll context (childPath parent name) path (done ++ [.makeDir path])
        (before.map GatedNode.node) = .ok done') :
      Reached context base tree (childPath parent name) path done' t

section Reached

variable {tree t : GatedNode} {fault : Fault} {outline : Outline}

theorem Reached.visit_root (h : Reached context base tree parent out done t)
    (hvisit : visit context parent out done t.node = .error fault) :
    visit context "" base [] tree.node = .error fault := by
  induction h with
  | root => exact hvisit
  | @child _ _ _ _ _ _ _ after _ _ _ _ hincluded hsegment hplace hbefore ih =>
    refine ih ?_
    have hall := visitAll_of_error hbefore hvisit (after.map GatedNode.node)
    simp only [GatedNode.node, GatedNode.nodes_eq_map, List.map_append, List.map_cons, visit,
      hincluded, hsegment, hplace, bind, Except.bind, if_true]
    exact hall

-- What the gates of a node do to a visit. Where all hold, it is as if there were none. The first
-- one that does not hold decides: where it is false, nothing is added, whatever stands behind it,
-- and where it has no value, there is no plan.
structure Guarded (context : Context) (base : Path) (outline : Outline) (parent : String)
    (out : Path) (done : List Operation) (t : GatedNode) : Prop where
  opened : (∀ c ∈ t.gates, c.eval context = .ok true) →
    visit context parent out done t.node = visit context parent out done (t.withGates []).node
  closed : ∀ before c after, t.gates = before ++ c :: after →
    (∀ g ∈ before, g.eval context = .ok true) → c.eval context = .ok false →
    visit context parent out done t.node = .ok done ∧
      ∀ later, visit context parent out done (t.withGates (before ++ c :: later)).node = .ok done
  failed : ∀ before c after fault, t.gates = before ++ c :: after →
    (∀ g ∈ before, g.eval context = .ok true) → c.eval context = .error fault →
    ∃ fault, build base outline context = .error fault

theorem visit_withGates_of_false (hbefore : ∀ g ∈ before, g.eval context = .ok true)
    (hc : c.eval context = .ok false) (later : List Condition) :
    visit context parent out done (t.withGates (before ++ c :: later)).node = .ok done := by
  refine visit_of_excluded ?_
  rw [GatedNode.condition_node, GatedNode.gates_withGates, isIncluded_append hbefore]
  exact isIncluded_cons_of_false hc

theorem exists_visit_error {fault : Condition.EvalFault} (hgates : t.gates = before ++ c :: after)
    (hbefore : ∀ g ∈ before, g.eval context = .ok true) (hc : c.eval context = .error fault) :
    ∃ fault, visit context parent out done t.node = .error fault := by
  cases hincluded : isIncluded context (childPath parent t.node.name) t.node.condition with
  | error fault => exact ⟨fault, visit_of_error hincluded⟩
  | ok b =>
    rw [GatedNode.condition_node, hgates, isIncluded_append hbefore] at hincluded
    exact absurd hincluded (isIncluded_cons_of_error hc)

theorem Reached.guarded (h : Reached context base tree parent out done t)
    (hroot : outline.root = tree.node) : Guarded context base outline parent out done t where
  opened hgates := by
    have hincluded : isIncluded context (childPath parent t.node.name)
        (conjunction (t.gates ++ [])) = .ok true := (isIncluded_append hgates).mpr rfl
    rw [List.append_nil, ← GatedNode.condition_node] at hincluded
    rw [visit_of_included hincluded, GatedNode.node_withGates]
    rfl
  closed before c after hgates hbefore hc := by
    refine ⟨?_, visit_withGates_of_false hbefore hc⟩
    rw [← t.withGates_gates, hgates]
    exact visit_withGates_of_false hbefore hc after
  failed before c after fault hgates hbefore hc := by
    obtain ⟨fault, hvisit⟩ := exists_visit_error hgates hbefore hc
    have hbuild := h.visit_root hvisit
    exact ⟨fault, by rw [build, hroot, hbuild]; rfl⟩

end Reached

end Plan

end Skeleton
