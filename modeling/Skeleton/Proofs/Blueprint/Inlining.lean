import Skeleton.Proofs.Blueprint.Expansion
import Skeleton.Proofs.Plan.Gates

-- Expansion is inlining: every include is replaced by the nodes of its template, in its place, and
-- its condition is a gate in front of each of them.

namespace Skeleton

-- What drafts stand for behind some gates. In a directory there are no gates yet.
inductive Inlines (s : Sources) : List Condition → List NodeDraft → List GatedNode → Prop where
  | nil {gates} : Inlines s gates [] []
  | directory {gates n rest name own children ts} (hrole : n.role? = some (.directory name))
      (hown : n.Owns own) (hchildren : Inlines s [] n.children children)
      (hrest : Inlines s gates rest ts) :
      Inlines s gates (n :: rest) (.directory name (gates ++ own.toList) children :: ts)
  | file {gates n rest kind name own content mode ts} (hrole : n.role? = some (.file kind name))
      (hown : n.Owns own) (hcontent : Content s n content) (hmode : n.HasMode mode)
      (hrest : Inlines s gates rest ts) :
      Inlines s gates (n :: rest) (.file name (gates ++ own.toList) kind content mode :: ts)
  | included {gates n rest template drafts own us ts}
      (hrole : n.role? = some (.included template)) (hown : n.Owns own)
      (hdrafts : s.templates.get? template = some drafts)
      (hinner : Inlines s (gates ++ own.toList) drafts us) (hrest : Inlines s gates rest ts) :
      Inlines s gates (n :: rest) (us ++ ts)

namespace GatedNode

def behind (gate : Condition) (t : GatedNode) : GatedNode := t.withGates (gate :: t.gates)

theorem node_behind (gate : Condition) (t : GatedNode) :
    (t.behind gate).node = t.node.gated gate := by
  rw [behind, node_withGates, Node.gated, condition_node]
  rfl

end GatedNode

section Inlines

variable {s : Sources} {gates : List Condition} {drafts : List NodeDraft}
  {ts us : List GatedNode}

theorem Inlines.behind (gate : Condition) (h : Inlines s gates drafts ts) :
    Inlines s (gate :: gates) drafts (ts.map (GatedNode.behind gate)) := by
  induction h with
  | nil => exact .nil
  | directory hrole hown hchildren _ _ ih => exact .directory hrole hown hchildren ih
  | file hrole hown hcontent hmode _ ih => exact .file hrole hown hcontent hmode ih
  | included hrole hown hdrafts _ _ hinner ih =>
    rw [List.map_append]
    exact .included hrole hown hdrafts hinner ih

theorem Content.unique {n : NodeDraft} {a b : String} (h : Content s n a) (h' : Content s n b) :
    a = b := by
  cases h <;> cases h' <;> simp_all

theorem NodeDraft.Owns.unique {n : NodeDraft} {a b : Option Condition} (h : n.Owns a)
    (h' : n.Owns b) : a = b :=
  Option.map_injective (fun _ _ => Except.ok.inj) (h.symm.trans h')

theorem NodeDraft.HasMode.unique {n : NodeDraft} {a b : Option Nat} (h : n.HasMode a)
    (h' : n.HasMode b) : a = b :=
  Option.map_injective (Option.some_injective _) (h.symm.trans h')

-- Drafts stand for one list of nodes.
theorem Inlines.unique (h : Inlines s gates drafts ts) (h' : Inlines s gates drafts us) :
    ts = us := by
  induction h generalizing us with
  | nil =>
    cases h'
    rfl
  | directory hrole hown _ _ ihchildren ih =>
    cases h' with
    | directory hrole' hown' hchildren' hrest' =>
      obtain ⟨⟩ := hrole.symm.trans hrole'
      rw [hown.unique hown', ihchildren hchildren', ih hrest']
    | file hrole' | included hrole' => cases hrole.symm.trans hrole'
  | file hrole hown hcontent hmode _ ih =>
    cases h' with
    | file hrole' hown' hcontent' hmode' hrest' =>
      obtain ⟨⟩ := hrole.symm.trans hrole'
      rw [hown.unique hown', hcontent.unique hcontent', hmode.unique hmode', ih hrest']
    | directory hrole' | included hrole' => cases hrole.symm.trans hrole'
  | included hrole hown hdrafts _ _ ihinner ih =>
    cases h' with
    | included hrole' hown' hdrafts' hinner' hrest' =>
      obtain ⟨⟩ := hrole.symm.trans hrole'
      obtain rfl := Option.some.inj (hdrafts.symm.trans hdrafts')
      obtain rfl := hown.unique hown'
      rw [ihinner hinner', ih hrest']
    | directory hrole' | file hrole' => cases hrole.symm.trans hrole'

end Inlines

-- What is put in for an include is inlined without its gate first, and then set behind the gate.
theorem inlines_of_expands {s : Sources} {stack : List String} {drafts : List NodeDraft}
    {nodes : List Node} (h : Expands s stack drafts nodes) :
    ∃ ts, Inlines s [] drafts ts ∧ nodes = ts.map GatedNode.node := by
  induction h with
  | nil => exact ⟨[], .nil, rfl⟩
  | directory hrole _ hown _ _ hchildren hrest =>
    obtain ⟨children, hchildren, rfl⟩ := hchildren
    obtain ⟨ts, hrest, rfl⟩ := hrest
    refine ⟨_, .directory hrole hown hchildren hrest, ?_⟩
    simp [GatedNode.node, GatedNode.nodes_eq_map, Condition.conjunction_toList]
  | file hrole _ hown hcontent _ hmode _ hrest =>
    obtain ⟨ts, hrest, rfl⟩ := hrest
    refine ⟨_, .file hrole hown hcontent hmode hrest, ?_⟩
    simp [GatedNode.node, Condition.conjunction_toList]
  | @included _ _ _ _ _ own _ _ hrole hown _ hdrafts _ _ hinner hrest =>
    obtain ⟨us, hinner, rfl⟩ := hinner
    obtain ⟨ts, hrest, rfl⟩ := hrest
    cases own with
    | none =>
      refine ⟨_, .included hrole hown hdrafts hinner hrest, ?_⟩
      simp [Node.gatedAll]
    | some gate =>
      refine ⟨_, .included hrole hown hdrafts (hinner.behind gate) hrest, ?_⟩
      simp [Node.gatedAll, GatedNode.node_behind]

namespace Blueprint

variable {disk : Disk} {baseDir : Path} {text : String} {b : Blueprint}

-- The tree of a scaffold is the inlined root of its document, and each node in it is planned behind
-- the conditions of the includes that it came through and its own, as behind gates.
theorem inlined_of_load (h : load disk baseDir text = .ok b) :
    ∃ draft tree, Draft.decode.run text = .ok draft ∧
      Inlines (sources disk baseDir draft) [] [draft.root] [tree] ∧
      (∀ trees, Inlines (sources disk baseDir draft) [] [draft.root] trees → trees = [tree]) ∧
      b.outline.root = tree.node ∧
      ∀ context base parent out done t, Plan.Reached context base tree parent out done t →
        Plan.Guarded context base b.outline parent out done t := by
  obtain ⟨draft, hdraft, h⟩ := ofDraft_of_load h
  obtain ⟨-, hexpands, -⟩ := parts_of_ofDraft h
  obtain ⟨trees, hinlines, hnodes⟩ := inlines_of_expands hexpands
  obtain ⟨tree, rfl, hroot⟩ := List.map_eq_singleton_iff.mp hnodes.symm
  refine ⟨draft, tree, hdraft, hinlines, fun trees htrees => htrees.unique hinlines, hroot.symm, ?_⟩
  intro context base parent out done t hreached
  exact hreached.guarded hroot.symm

-- A file behind the condition of an include and one of its own.
def twice : String :=
  "name: s\ntemplates: { t: [ { file: x, when: not true } ] }\n" ++
    "root: { dir: d, children: [ { include: t, when: not false } ] }\n"

theorem inlined_of_load_twice :
    ∃ b draft tree, load .blank .empty twice = .ok b ∧ Draft.decode.run twice = .ok draft ∧
      Inlines (sources .blank .empty draft) [] [draft.root] [tree] ∧ b.outline.root = tree.node ∧
      (b.outline.root.children.map fun n => n.condition.map Condition.source) =
        [some "(not false) and (not true)"] ∧
      ∀ context base parent out done t, Plan.Reached context base tree parent out done t →
        Plan.Guarded context base b.outline parent out done t := by
  have hloads : ((load .blank .empty twice).toOption.any fun b =>
      (b.outline.root.children.map fun n => n.condition.map Condition.source) ==
        [some "(not false) and (not true)"]) = true := by decide +kernel
  simp only [Option.any_eq_true, toOption_eq_some_iff, beq_iff_eq] at hloads
  obtain ⟨b, hload, hsource⟩ := hloads
  obtain ⟨draft, tree, hdraft, hinlines, -, hroot, hguarded⟩ := inlined_of_load hload
  exact ⟨b, draft, tree, hload, hdraft, hinlines, hroot, hsource, hguarded⟩

end Blueprint

end Skeleton
