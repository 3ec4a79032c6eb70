import Skeleton.Blueprint.Loading
import Skeleton.Proofs.Except

-- What an expansion that succeeds has found out about its drafts.

namespace Skeleton

def Template.IsReadable (template : String) : Prop := ∃ parts, Template.segments template = .ok parts

inductive Content (s : Sources) (n : NodeDraft) : String → Prop where
  | given {text} (h : n.content = some text) : Content s n text
  | fetched {file text} (h : n.content = none) (hfile : n.contentFile = some file)
      (hfetch : s.fetch file = .ok text) : Content s n text
  | empty (h : n.content = none) (hfile : n.contentFile = none) : Content s n ""

-- A draft has a condition of its own, or none, as its text says.
def NodeDraft.Owns (n : NodeDraft) (own : Option Condition) : Prop :=
  n.condition.map Condition.parse = own.map .ok

def NodeDraft.HasMode (n : NodeDraft) (mode : Option Nat) : Prop :=
  n.mode.map ModeDraft.mode? = mode.map some

def Node.gatedAll (gate : Option Condition) (nodes : List Node) : List Node :=
  match gate with
  | some gate => nodes.map (Node.gated gate)
  | none => nodes

theorem Node.forall_gatedAll {P : Node → Prop} (hgated : ∀ n gate, P n → P (n.gated gate))
    {gate : Option Condition} {nodes : List Node} (h : ∀ n ∈ nodes, P n) :
    ∀ n ∈ gatedAll gate nodes, P n := by
  cases gate with
  | none => exact h
  | some gate =>
    intro n hn
    obtain ⟨m, hm, rfl⟩ := List.mem_map.mp hn
    exact hgated m gate (h m hm)

-- The nodes that drafts stand for while the templates on a stack are being put in. No template on
-- it is put in again.
inductive Expands (s : Sources) : List String → List NodeDraft → List Node → Prop where
  | nil {stack} : Expands s stack [] []
  | directory {stack n rest name own children more} (hrole : n.role? = some (.directory name))
      (hname : Template.IsReadable name) (hown : n.Owns own)
      (hchildren : Expands s stack n.children children) (hrest : Expands s stack rest more) :
      Expands s stack (n :: rest) (.directory name own children :: more)
  | file {stack n rest kind name own content mode more}
      (hrole : n.role? = some (.file kind name)) (hname : Template.IsReadable name)
      (hown : n.Owns own) (hcontent : Content s n content)
      (hreadable : kind = .template → Template.IsReadable content) (hmode : n.HasMode mode)
      (hrest : Expands s stack rest more) :
      Expands s stack (n :: rest) (.file name own kind content mode :: more)
  | included {stack n rest template drafts own inner more}
      (hrole : n.role? = some (.included template)) (hown : n.Owns own) (hout : template ∉ stack)
      (hdrafts : s.templates.get? template = some drafts)
      (hinner : Expands s (stack ++ [template]) drafts inner) (hrest : Expands s stack rest more) :
      Expands s stack (n :: rest) (Node.gatedAll own inner ++ more)

section Steps

variable {s : Sources} {n : NodeDraft} {path label text : String} {field : Field}

theorem isReadable_of_checkTemplate (h : checkTemplate label field text = .ok ()) :
    Template.IsReadable text := by
  unfold checkTemplate at h
  split at h
  · rename_i parts hparts
    exact ⟨parts, hparts⟩
  · cases h

theorem owns_of_mapM {own : Option Condition}
    (h : n.condition.mapM (parseCondition label) = .ok own) : n.Owns own := by
  unfold NodeDraft.Owns
  cases hcondition : n.condition with
  | none =>
    rw [hcondition] at h
    obtain rfl := Except.ok.inj h
    rfl
  | some source =>
    rw [hcondition] at h
    obtain ⟨c, hc, h⟩ := bind_eq_ok_iff.mp h
    obtain rfl := Except.ok.inj h
    rw [Option.map_some, Option.map_some, mapError_eq_ok_iff.mp hc]

theorem hasMode_of_mapM {mode : Option Nat} (h : n.mode.mapM (parseMode path) = .ok mode) :
    n.HasMode mode := by
  unfold NodeDraft.HasMode
  cases hmode : n.mode with
  | none =>
    rw [hmode] at h
    obtain rfl := Except.ok.inj h
    rfl
  | some draft =>
    rw [hmode] at h
    obtain ⟨m, hm, h⟩ := bind_eq_ok_iff.mp h
    obtain rfl := Except.ok.inj h
    unfold parseMode at hm
    split at hm
    · rename_i hread
      obtain rfl := Except.ok.inj hm
      rw [Option.map_some, Option.map_some, hread]
    · cases hm

theorem content_of_content (h : s.content path n = .ok text) : Content s n text := by
  unfold Sources.content at h
  split at h
  · cases h
  · split at h
    · cases h
    · rename_i hcontent hfile
      obtain rfl := Except.ok.inj h
      exact .given hcontent
    · rename_i hcontent hfile
      exact .fetched hcontent hfile h
    · rename_i hcontent hfile
      obtain rfl := Except.ok.inj h
      exact .empty hcontent hfile

theorem file_of_expand {kind : FileKind} {name content : String} {nodes : List Node}
    (h : (do
      let mode ← n.mode.mapM (parseMode path)
      let condition ← n.condition.mapM (parseCondition path)
      .ok [.file name condition kind content mode]) = Except.ok nodes) :
    ∃ mode own, n.HasMode mode ∧ n.Owns own ∧ nodes = [.file name own kind content mode] := by
  obtain ⟨mode, hmode, h⟩ := bind_eq_ok_iff.mp h
  obtain ⟨own, hown, h⟩ := bind_eq_ok_iff.mp h
  exact ⟨mode, own, hasMode_of_mapM hmode, owns_of_mapM hown, (Except.ok.inj h).symm⟩

end Steps

section Expands

variable {s : Sources} {stack : List String} {drafts more : List NodeDraft}
  {nodes others : List Node}

theorem Expands.append (h : Expands s stack drafts nodes) (h' : Expands s stack more others) :
    Expands s stack (drafts ++ more) (nodes ++ others) := by
  induction h with
  | nil => exact h'
  | directory hrole hname hown hchildren _ _ ih =>
    exact .directory hrole hname hown hchildren (ih h')
  | file hrole hname hown hcontent hreadable hmode _ ih =>
    exact .file hrole hname hown hcontent hreadable hmode (ih h')
  | included hrole hown hout hdrafts hinner _ _ ih =>
    rw [List.append_assoc]
    exact .included hrole hown hout hdrafts hinner (ih h')

theorem expands_all (s : Sources) :
    (∀ stack parent n, ∀ nodes, expand s stack parent n = .ok nodes →
      Expands s stack [n] nodes) ∧
    (∀ stack parent drafts, ∀ nodes, expandAll s stack parent drafts = .ok nodes →
      Expands s stack drafts nodes) := by
  apply expand.mutual_induct s
  -- drafts that are no nodes
  case case1 =>
    intro stack parent n hrole nodes h
    simp only [expand, hrole, reduceCtorEq] at h
  case case2 =>
    intro stack parent n name hrole hcontent nodes h
    simp only [expand, hrole, hcontent, if_true, reduceCtorEq] at h
  -- directories and files
  case case3 =>
    intro stack parent n name hrole path hcontent hchildren nodes h
    simp only [expand, hrole, hcontent, Bool.false_eq_true, if_false] at h
    obtain ⟨⟨⟩, hname, h⟩ := bind_eq_ok_iff.mp h
    obtain ⟨children, hall, h⟩ := bind_eq_ok_iff.mp h
    obtain ⟨own, hown, h⟩ := bind_eq_ok_iff.mp h
    obtain rfl := Except.ok.inj h
    exact .directory hrole (isReadable_of_checkTemplate hname) (owns_of_mapM hown)
      (hchildren children hall) .nil
  case case4 =>
    intro stack parent n kind name hrole nodes h
    simp only [expand, hrole] at h
    obtain ⟨content, hcontent, h⟩ := bind_eq_ok_iff.mp h
    obtain ⟨⟨⟩, hname, h⟩ := bind_eq_ok_iff.mp h
    have hrest : (kind = .template → Template.IsReadable content) ∧ ∃ mode own, n.HasMode mode ∧
        n.Owns own ∧ nodes = [.file name own kind content mode] := by
      split at h
      · obtain ⟨⟨⟩, hreadable, h⟩ := bind_eq_ok_iff.mp h
        exact ⟨fun _ => isReadable_of_checkTemplate hreadable, file_of_expand h⟩
      · rename_i hkind
        exact ⟨fun h => absurd h hkind, file_of_expand h⟩
    obtain ⟨hreadable, mode, own, hmode, hown, rfl⟩ := hrest
    exact .file hrole (isReadable_of_checkTemplate hname) hown (content_of_content hcontent)
      hreadable hmode .nil
  -- includes
  case case5 =>
    intro stack parent n template hrole hcontent nodes h
    simp only [expand, hrole, hcontent, if_true, reduceCtorEq] at h
  case case6 =>
    intro stack parent n template hrole hcontent hin nodes h
    simp only [expand, hrole, hcontent, hin, Bool.false_eq_true, if_false, dif_pos,
      reduceCtorEq] at h
  case case7 =>
    intro stack parent n template hrole hcontent hout hfound nodes h
    simp only [expand, hrole, hcontent, hout, Bool.false_eq_true, if_false, dif_neg,
      not_false_eq_true] at h
    split at h
    · cases h
    · rename_i hsome
      cases hfound.symm.trans hsome
  case case8 =>
    intro stack parent n template hrole hcontent hout drafts hfound hinner nodes h
    simp only [expand, hrole, hcontent, hout, Bool.false_eq_true, if_false, dif_neg,
      not_false_eq_true] at h
    split at h
    · cases h
    · rename_i drafts' hsome
      obtain rfl := Option.some.inj (hfound.symm.trans hsome)
      obtain ⟨own, hown, h⟩ := bind_eq_ok_iff.mp h
      obtain ⟨inner, hall, h⟩ := bind_eq_ok_iff.mp h
      have hnodes : nodes = Node.gatedAll own inner ++ [] := by
        rw [List.append_nil]
        cases own <;> exact (Except.ok.inj h).symm
      rw [hnodes]
      exact .included hrole (owns_of_mapM hown) hout hfound (hinner inner hall) .nil
  -- lists
  case case9 =>
    intro stack parent nodes h
    rw [expandAll] at h
    obtain rfl := Except.ok.inj h
    exact .nil
  case case10 =>
    intro stack parent n rest hfirst hrest nodes h
    rw [expandAll] at h
    obtain ⟨first, hn, h⟩ := bind_eq_ok_iff.mp h
    obtain ⟨others, hothers, h⟩ := bind_eq_ok_iff.mp h
    obtain rfl := Except.ok.inj h
    exact (hfirst first hn).append (hrest others hothers)

theorem expands_of_expand {parent : String} {n : NodeDraft}
    (h : expand s stack parent n = .ok nodes) : Expands s stack [n] nodes :=
  (expands_all s).1 stack parent n nodes h

end Expands

namespace Blueprint

variable {disk : Disk} {baseDir : Path} {text : String} {fetch : String → Except Fault String}
  {draft : Draft} {b : Blueprint} {schema : Schema}

def sources (disk : Disk) (baseDir : Path) (draft : Draft) : Sources :=
  ⟨draft.templates, fun file => fileText disk (baseDir.join (.ofText file))⟩

theorem ofDraft_of_load (h : load disk baseDir text = .ok b) :
    ∃ draft, Draft.decode.run text = .ok draft ∧
      ofDraft (sources disk baseDir draft).fetch draft = .ok b := by
  obtain ⟨draft, hdraft, h⟩ := bind_eq_ok_iff.mp h
  exact ⟨draft, mapError_eq_ok_iff.mp hdraft, h⟩

theorem of_ofNode {root : Node} {outline : Outline} (h : Outline.ofNode schema root = .ok outline) :
    outline.root = root ∧ outline.schema = schema := by
  unfold Outline.ofNode at h
  split at h
  · obtain rfl := Except.ok.inj h
    exact ⟨rfl, rfl⟩
  · cases h

def schemaOf (declarations : Dictionary String Declaration) : Schema :=
  .ofList (declarations.entries.map fun (name, d) => (name, d.kind))

theorem parts_of_ofDraft (h : ofDraft fetch draft = .ok b) :
    b.outline.schema = schemaOf b.declarations ∧
    Expands ⟨draft.templates, fetch⟩ [] [draft.root] [b.outline.root] ∧
    draft.hooks.mapM (HookDraft.hook b.outline.schema) = .ok b.hooks := by
  obtain ⟨declarations, -, h⟩ := bind_eq_ok_iff.mp h
  obtain ⟨nodes, hnodes, h⟩ := bind_eq_ok_iff.mp h
  split at h
  · rename_i root
    obtain ⟨outline, houtline, h⟩ := bind_eq_ok_iff.mp h
    obtain ⟨hooks, hhooks, h⟩ := bind_eq_ok_iff.mp h
    obtain rfl := Except.ok.inj h
    obtain ⟨hroot, hschema⟩ := of_ofNode (mapError_eq_ok_iff.mp houtline)
    refine ⟨hschema, ?_, ?_⟩
    · rw [hroot]
      exact expands_of_expand hnodes
    · rw [hschema]
      exact hhooks
  · cases h

end Blueprint

end Skeleton
