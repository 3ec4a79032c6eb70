import Skeleton.Proofs.Blueprint.Includes
import Skeleton.Proofs.Dictionary
import Skeleton.Proofs.Outline.Gating

-- Documents with and without the conditions of their includes. A condition that passes the check by
-- itself refuses no document, where an include sets what it puts in behind it.

namespace Skeleton

open Relation (ReflTransGen)

mutual

-- A draft without the conditions of the includes in it.
def NodeDraft.ungated : NodeDraft → NodeDraft
  | ⟨dir, file, literal, included, content, contentFile, condition, mode, children⟩ =>
    ⟨dir, file, literal, included, content, contentFile,
      if included.isSome then none else condition, mode, ungatedAll children⟩

def NodeDraft.ungatedAll : List NodeDraft → List NodeDraft
  | [] => []
  | n :: rest => n.ungated :: ungatedAll rest

end

mutual

def NodeDraft.gates : NodeDraft → List String
  | ⟨_, _, _, included, _, _, condition, _, children⟩ =>
    (if included.isSome then condition.toList else []) ++ gatesAll children

def NodeDraft.gatesAll : List NodeDraft → List String
  | [] => []
  | n :: rest => n.gates ++ gatesAll rest

end

def Draft.gates (d : Draft) : List String :=
  d.root.gates ++ d.templates.entries.flatMap fun (_, drafts) => NodeDraft.gatesAll drafts

open Condition (conjunction)
open NodeDraft (ungatedAll)

def ungatedTemplates (templates : Dictionary String (List NodeDraft)) :
    Dictionary String (List NodeDraft) :=
  .ofList (templates.entries.map fun (name, drafts) => (name, ungatedAll drafts))

def Sources.ungated (s : Sources) : Sources := ⟨ungatedTemplates s.templates, s.fetch⟩

def Draft.ungated (d : Draft) : Draft :=
  { d with templates := ungatedTemplates d.templates, root := d.root.ungated }

section Ungated

variable {s : Sources} {n : NodeDraft} {drafts : List NodeDraft} {role : Role}
  {name template parent path : String} {stack : List String}

theorem NodeDraft.ungated_eq (n : NodeDraft) : n.ungated = { n with
    condition := if n.included.isSome then none else n.condition
    children := ungatedAll n.children } := by
  cases n
  rw [NodeDraft.ungated]

theorem NodeDraft.role?_ungated (n : NodeDraft) : n.ungated.role? = n.role? := by
  rw [n.ungated_eq]
  rfl

theorem condition_ungated (hrole : n.role? = some role) : n.ungated.condition =
    match role with
    | .included _ => none
    | _ => n.condition := by
  rw [n.ungated_eq]
  unfold NodeDraft.role? at hrole
  split at hrole
  all_goals cases hrole
  all_goals simp [*]

theorem NodeDraft.fields_ungated (n : NodeDraft) : n.ungated.content = n.content ∧
    n.ungated.contentFile = n.contentFile ∧ n.ungated.mode = n.mode ∧
    n.ungated.children = ungatedAll n.children := by
  rw [n.ungated_eq]
  exact ⟨rfl, rfl, rfl, rfl⟩

theorem isEmpty_ungatedAll (drafts : List NodeDraft) :
    (ungatedAll drafts).isEmpty = drafts.isEmpty := by
  cases drafts with
  | nil => rw [ungatedAll]
  | cons n rest => rfl

theorem content_ungated : s.ungated.content path n.ungated = s.content path n := by
  simp only [Sources.content, n.ungated_eq, isEmpty_ungatedAll, Sources.ungated]

theorem get?_ungatedTemplates (templates : Dictionary String (List NodeDraft)) (name : String) :
    (ungatedTemplates templates).get? name = (templates.get? name).map ungatedAll := by
  rw [ungatedTemplates, Dictionary.get?_ofList_of_nodup, lookupEntry_map, Dictionary.get?]
  rw [List.map_map]
  exact templates.nodup_keys

theorem expand_included (hrole : n.role? = some (.included template)) :
    expand s stack parent n =
      if n.content.isSome || n.contentFile.isSome || n.mode.isSome || !n.children.isEmpty then
        .error (.draft (.includeContent (includeLabel template parent)))
      else if template ∈ stack then .error (.build (.cyclicInclude (stack ++ [template])))
      else
        match s.templates.get? template with
        | none => .error (.draft (.unknownTemplate (includeLabel template parent)))
        | some drafts => (do
          let gate ← n.condition.mapM (parseCondition (includeLabel template parent))
          let nodes ← expandAll s (stack ++ [template]) parent drafts
          .ok (Node.gatedAll gate nodes)) := by
  simp only [expand, hrole]
  split
  · rfl
  · split
    · rfl
    · split
      · rename_i h
        simp only [h]
      · rename_i h
        simp only [h]
        refine bind_congr_ok fun gate _ => bind_congr_ok fun nodes _ => ?_
        cases gate <;> rfl

end Ungated

section Expanding

variable {s : Sources} {schema : Schema} {P : Fault → Prop} {n : NodeDraft}
  {drafts : List NodeDraft} {name template parent path source : String} {stack : List String}
  {c c' : List String × NodeDraft}

-- The condition of an include that is put in by the expansion of a draft.
def Sources.Gates (s : Sources) (c : List String × NodeDraft) (source : String) : Prop :=
  ∃ stack n template, ReflTransGen s.Calls c (stack, n) ∧
    n.role? = some (.included template) ∧ n.condition = some source

def Condition.IsTyped (schema : Schema) (source : String) : Prop :=
  ∃ gate, Condition.parse source = .ok gate ∧ gate.check schema = .ok ()

instance (schema : Schema) (source : String) : Decidable (Condition.IsTyped schema source) :=
  match h : Condition.parse source with
  | .ok gate => decidable_of_iff ((gate.check schema).toOption = some ())
      (by simp [Condition.IsTyped, h, toOption_eq_some_iff])
  | .error _ => isFalse (by simp [Condition.IsTyped, h])

theorem Sources.Gates.of_calls (hcall : s.Calls c c') (h : s.Gates c' source) :
    s.Gates c source := by
  obtain ⟨stack, n, template, hcalls, hrole, hcondition⟩ := h
  exact ⟨stack, n, template, .head hcall hcalls, hrole, hcondition⟩

theorem expandAll_alike
    (h : ∀ n ∈ drafts, Alike P (Gating schema) (expand s.ungated stack parent n.ungated)
      (expand s stack parent n)) :
    Alike P (Gating schema) (expandAll s.ungated stack parent (ungatedAll drafts))
      (expandAll s stack parent drafts) := by
  induction drafts with
  | nil =>
    rw [ungatedAll, expandAll, expandAll]
    exact .ok .nil
  | cons n rest ih =>
    obtain ⟨hn, hrest⟩ := List.forall_mem_cons.mp h
    rw [ungatedAll, expandAll, expandAll]
    refine hn.bind fun nodes nodes' hnodes => (ih hrest).bind fun more more' hmore => ?_
    exact .ok (hnodes.append hmore)

theorem alike_directory (hrole : n.role? = some (.directory name))
    (hchildren : ∀ child ∈ n.children, ∀ parent, Alike P (Gating schema)
      (expand s.ungated stack parent child.ungated) (expand s stack parent child)) :
    Alike P (Gating schema) (expand s.ungated stack parent n.ungated)
      (expand s stack parent n) := by
  have hcondition : n.ungated.condition = n.condition := condition_ungated hrole
  obtain ⟨hcontent, hfile, hmode, hall⟩ := n.fields_ungated
  simp only [expand, n.role?_ungated, hrole, hcondition, hcontent, hfile, hmode, hall]
  split
  · exact .error _
  · refine alike_bind fun _ _ => ?_
    refine (expandAll_alike fun child h => hchildren child h _).bind fun children children' h => ?_
    exact alike_bind fun own _ => .ok (.directory_self h .nil)

theorem alike_file {kind : FileKind} (hrole : n.role? = some (.file kind name)) :
    Alike P (Gating schema) (expand s.ungated stack parent n.ungated)
      (expand s stack parent n) := by
  have hcondition : n.ungated.condition = n.condition := condition_ungated hrole
  obtain ⟨-, -, hmode, -⟩ := n.fields_ungated
  simp only [expand, n.role?_ungated, hrole, hcondition, hmode, content_ungated]
  refine alike_bind fun content _ => alike_bind fun _ _ => ?_
  split
  · refine alike_bind fun _ _ => alike_bind fun mode _ => alike_bind fun own _ => ?_
    exact .ok (.file_self .nil)
  · refine alike_bind fun mode _ => alike_bind fun own _ => ?_
    exact .ok (.file_self .nil)

theorem alike_included (hrole : n.role? = some (.included template))
    (hgate : ∀ source, n.condition = some source → Condition.IsTyped schema source)
    (hinner : template ∉ stack → ∀ child, s.Offers template child → ∀ parent,
      Alike P (Gating schema) (expand s.ungated (stack ++ [template]) parent child.ungated)
        (expand s (stack ++ [template]) parent child)) :
    Alike P (Gating schema) (expand s.ungated stack parent n.ungated)
      (expand s stack parent n) := by
  have hcondition : n.ungated.condition = none := condition_ungated hrole
  obtain ⟨hcontent, hfile, hmode, hall⟩ := n.fields_ungated
  rw [expand_included (n.role?_ungated.trans hrole), expand_included hrole, hcondition, hcontent,
    hfile, hmode, hall, isEmpty_ungatedAll]
  split
  · exact .error _
  · split
    · exact .error _
    · rename_i hout
      rw [show s.ungated.templates = ungatedTemplates s.templates from rfl, get?_ungatedTemplates]
      cases hfound : s.templates.get? template with
      | none => exact .error _
      | some drafts =>
        have hinner := @expandAll_alike s schema P drafts parent (stack ++ [template])
          fun child h => hinner hout child ⟨drafts, hfound, h⟩ parent
        cases hsource : n.condition with
        | none =>
          exact hinner.bind fun nodes nodes' h => .ok h
        | some source =>
          obtain ⟨gate, hparse, hcheck⟩ := hgate source hsource
          simp only [Option.map_some, Option.mapM_some, Option.mapM_none, parseCondition, hparse]
          exact hinner.bind fun nodes nodes' h => .ok (h.gated hcheck)

theorem expand_alike (c : List String × NodeDraft)
    (hgates : ∀ source, s.Gates c source → Condition.IsTyped schema source) (parent : String) :
    Alike P (Gating schema) (expand s.ungated c.1 parent c.2.ungated)
      (expand s c.1 parent c.2) := by
  induction c using s.wellFounded_calls.induction generalizing parent with
  | h c ih =>
    obtain ⟨stack, n⟩ := c
    have hcalls (c') (hcall : s.Calls (stack, n) c') (parent : String) :=
      ih c' hcall (fun source h => hgates source (h.of_calls hcall)) parent
    dsimp only
    cases hrole : n.role? with
    | none =>
      simp only [expand, n.role?_ungated, hrole]
      exact .error _
    | some role =>
      cases role with
      | directory name =>
        exact alike_directory hrole fun child hchild parent =>
          hcalls (stack, child) (.child ⟨name, hrole, hchild⟩) parent
      | file kind name => exact alike_file hrole
      | included template =>
        refine alike_included hrole (fun source hsource => ?_) fun hout child hoffers parent => ?_
        · exact hgates source ⟨stack, n, template, .refl, hrole, hsource⟩
        · exact hcalls (stack ++ [template], child) (.inner hrole hout hoffers) parent

end Expanding

section Written

variable {fetch : String → Except Fault String} {draft : Draft} {n : NodeDraft}
  {drafts : List NodeDraft} {source : String} {c : List String × NodeDraft}

theorem gates_eq (n : NodeDraft) : n.gates =
    (if n.included.isSome then n.condition.toList else []) ++ NodeDraft.gatesAll n.children := by
  cases n
  rw [NodeDraft.gates]

theorem gates_subset_of_mem (h : n ∈ drafts) : n.gates ⊆ NodeDraft.gatesAll drafts := by
  induction drafts with
  | nil => cases h
  | cons first rest ih =>
    rw [NodeDraft.gatesAll]
    rcases List.mem_cons.mp h with rfl | h
    · exact List.subset_append_left _ _
    · exact List.Subset.trans (ih h) (List.subset_append_right _ _)

theorem gates_subset_of_calls
    (h : ReflTransGen (Sources.Calls ⟨draft.templates, fetch⟩) ([], draft.root) c) :
    c.2.gates ⊆ draft.gates := by
  induction h with
  | refl => exact List.subset_append_left _ _
  | tail _ hcall ih =>
    cases hcall with
    | @child _ n child hholds =>
      obtain ⟨-, -, hmem⟩ := hholds
      refine List.Subset.trans (gates_subset_of_mem hmem) (List.Subset.trans ?_ ih)
      rw [gates_eq n]
      exact List.subset_append_right _ _
    | inner _ _ hoffers =>
      obtain ⟨drafts, hdrafts, hmem⟩ := hoffers
      intro source hsource
      refine List.mem_append_right _ (List.mem_flatMap.mpr ⟨_, mem_of_lookupEntry hdrafts, ?_⟩)
      exact gates_subset_of_mem hmem hsource

-- An include that is put in is written in the root or in a template.
theorem mem_gates (h : Sources.Gates ⟨draft.templates, fetch⟩ ([], draft.root) source) :
    source ∈ draft.gates := by
  obtain ⟨stack, n, template, hcalls, hrole, hcondition⟩ := h
  refine gates_subset_of_calls hcalls ?_
  have hincluded : n.included.isSome := by
    unfold NodeDraft.role? at hrole
    split at hrole
    all_goals cases hrole
    simp [*]
  rw [gates_eq, if_pos hincluded, hcondition]
  exact List.mem_append_left _ List.mem_cons_self

end Written

def Fault.IsOfKind (fault : Fault) : Prop := ∃ node e, fault = .build (.conditionType node e)

def Draft.schema (d : Draft) : Schema :=
  .ofList (d.declared.entries.map fun (name, v) => (name, v.kind))

namespace Blueprint

section Declarations

variable {name : String} {v : VariableDraft} {d : Declaration}

theorem kind_eq_of_declaration (h : v.declaration name = .ok d) : d.kind = v.kind := by
  unfold VariableDraft.declaration at h
  split at h
  · cases h
  · obtain ⟨default, -, h⟩ := bind_eq_ok_iff.mp h
    obtain rfl := Except.ok.inj h
    rfl

theorem kinds_of_declared {entries : List (String × VariableDraft)}
    {declarations : List (String × Declaration)}
    (h : (entries.mapM fun (name, v) => do return (name, ← v.declaration name)) =
      Except.ok declarations) :
    declarations.map (fun (name, d) => (name, d.kind)) =
      entries.map fun (name, v) => (name, v.kind) := by
  have hpairs := mapM_eq_ok_iff.mp h
  clear h
  induction hpairs with
  | nil => rfl
  | @cons entry _ _ _ hpair _ ih =>
    obtain ⟨name, v⟩ := entry
    obtain ⟨d, hd, hpair⟩ := bind_eq_ok_iff.mp hpair
    obtain rfl := Except.ok.inj hpair
    simp only [List.map_cons, ih, kind_eq_of_declaration hd]

theorem schemaOf_of_declared {draft : Draft} {declarations : List (String × Declaration)}
    (h : (draft.declared.entries.mapM fun (name, v) => do
      return (name, ← v.declaration name)) = Except.ok declarations) :
    schemaOf (.ofList declarations) = draft.schema := by
  have hkinds := kinds_of_declared h
  have hnames : declarations.map Prod.fst = draft.declared.keys := by
    simpa [Function.comp_def, Dictionary.keys] using congrArg (List.map Prod.fst) hkinds
  have hsorted : SortedEntries declarations := by
    rw [sortedEntries_iff, hnames]
    exact sortedEntries_iff.mp draft.declared.sorted
  rw [schemaOf, Dictionary.entries_ofList hsorted, hkinds, Draft.schema]

end Declarations

section Loading

variable {fetch : String → Except Fault String} {draft : Draft}

theorem ofDraft_alike
    (hgates : ∀ source, Sources.Gates ⟨draft.templates, fetch⟩ ([], draft.root) source →
      Condition.IsTyped draft.schema source) :
    Alike Fault.IsOfKind
      (fun b b' => b' = { b with outline := b'.outline } ∧
        Gating draft.schema [b.outline.root] [b'.outline.root])
      (ofDraft fetch draft.ungated) (ofDraft fetch draft) := by
  refine alike_bind fun declarations hdeclared => ?_
  have hschema : schemaOf (.ofList declarations) = draft.schema := schemaOf_of_declared hdeclared
  refine (expand_alike ([], draft.root) hgates "").bind fun nodes nodes' hnodes => ?_
  have hlength := hnodes.length_eq
  rcases nodes with _ | ⟨root, _ | ⟨second, rest⟩⟩ <;>
    rcases nodes' with _ | ⟨root', _ | ⟨second', rest'⟩⟩
  all_goals try cases hlength
  · exact .error _
  · rw [← hschema] at hnodes ⊢
    have houtline := (ofNode_alike hnodes).mapError (Q := Fault.IsOfKind)
      fun _ ⟨node, e, h⟩ => ⟨node, e, congrArg Fault.build h⟩
    refine houtline.bind fun outline outline' h => alike_bind fun hooks _ => .ok ⟨rfl, h⟩
  · exact .error _

-- Conditions that pass the check pass it together, in either order, and so does a node behind a
-- gate that does. A document whose include conditions pass it by themselves, however deep its
-- includes nest, loads wherever it loads without those conditions, and gives the same but for the
-- gates in the tree. It is refused for the kind of a condition only if it is without them.
theorem gates_keep_kinds :
    (∀ (schema : Schema) (a b : Condition), a.check schema = .ok () → b.check schema = .ok () →
      (a.and b).check schema = .ok () ∧ (b.and a).check schema = .ok ()) ∧
    (∀ (schema : Schema) (gate : Condition) (n : Node) (parent : String),
      gate.check schema = .ok () → n.check schema parent = .ok () →
        (n.gated gate).check schema parent = .ok ()) ∧
    ∀ (disk : Disk) (baseDir : Path) (text : String) (draft : Draft),
      Draft.decode.run text = .ok draft →
      (∀ source, (sources disk baseDir draft).Gates ([], draft.root) source →
        Condition.IsTyped draft.schema source) →
      (∀ b, ofDraft (sources disk baseDir draft).fetch draft.ungated = .ok b →
        ∃ b', load disk baseDir text = .ok b' ∧ b' = { b with outline := b'.outline } ∧
          Gating draft.schema [b.outline.root] [b'.outline.root]) ∧
      ∀ fault, load disk baseDir text = .error fault → fault.IsOfKind →
        ∃ fault', ofDraft (sources disk baseDir draft).fetch draft.ungated = .error fault' ∧
          fault'.IsOfKind := by
  refine ⟨fun schema a b ha hb => ⟨Condition.check_and ha hb, Condition.check_and hb ha⟩,
    fun schema gate n parent => check_gated, fun disk baseDir text draft hread hgates => ?_⟩
  have hload : load disk baseDir text = ofDraft (sources disk baseDir draft).fetch draft := by
    rw [load, hread]
    rfl
  have halike : Alike Fault.IsOfKind
      (fun b b' => b' = { b with outline := b'.outline } ∧
        Gating draft.schema [b.outline.root] [b'.outline.root])
      (ofDraft (sources disk baseDir draft).fetch draft.ungated)
      (ofDraft (sources disk baseDir draft).fetch draft) := ofDraft_alike hgates
  rw [hload]
  constructor
  · intro b hb
    rw [hb] at halike
    exact halike.exists_of_ok
  · intro fault hfault hkind
    rw [hfault] at halike
    exact halike.exists_of_error hkind

-- A file behind two includes, the first of which asks about a variable that is not declared.
def relayed (own : String) : String :=
  "name: s\nvariables: \x7bk: \x7btype: bool\x7d\x7d\n" ++
    "templates: \x7ba: [\x7binclude: b, when: k\x7d], " ++
    "b: [\x7bfile: f, when: " ++ own ++ "\x7d]\x7d\n" ++
    "root: \x7bdir: d, children: [\x7binclude: a, when: defined(x) and x\x7d]\x7d\n"

def isRefused : Except Fault Blueprint → Bool
  | .error (.build (.conditionType _ _)) => true
  | _ => false

theorem isRefused_iff {answer : Except Fault Blueprint} :
    isRefused answer = true ↔ ∃ fault, answer = .error fault ∧ fault.IsOfKind := by
  unfold isRefused
  split
  · exact iff_of_true rfl ⟨_, rfl, _, _, rfl⟩
  · rename_i hother
    refine iff_of_false (by simp) ?_
    rintro ⟨fault, rfl, node, e, rfl⟩
    exact hother node e rfl

theorem gates_keep_kinds_relayed :
    (∃ (schema : Schema) (a b : Condition), Condition.parse "defined(x) and x" = .ok a ∧
      Condition.parse "k" = .ok b ∧ a.check schema = .ok () ∧ b.check schema = .ok () ∧
      (a.and b).check schema = .ok () ∧ (b.and a).check schema = .ok () ∧
      (((Node.file "f" none .literal "" none).gated b).gated a).check schema "" = .ok ()) ∧
    (∃ draft b b', Draft.decode.run (relayed "not k") = .ok draft ∧
      draft.gates = ["defined(x) and x", "k"] ∧
      ofDraft (sources .blank .empty draft).fetch draft.ungated = .ok b ∧
      load .blank .empty (relayed "not k") = .ok b' ∧
      b' = { b with outline := b'.outline } ∧
      Gating draft.schema [b.outline.root] [b'.outline.root]) ∧
    ∃ draft fault fault', Draft.decode.run (relayed "k and 1") = .ok draft ∧
      draft.gates = ["defined(x) and x", "k"] ∧
      load .blank .empty (relayed "k and 1") = .error fault ∧ fault.IsOfKind ∧
      ofDraft (sources .blank .empty draft).fetch draft.ungated = .error fault' ∧
      fault'.IsOfKind := by
  refine ⟨?conditions, ?loaded, ?refused⟩
  case conditions =>
    have htyped : ∀ source ∈ ["defined(x) and x", "k"],
        Condition.IsTyped (.ofList [("k", .bool)]) source := by decide +kernel
    obtain ⟨a, haread, ha⟩ := htyped "defined(x) and x" (by simp)
    obtain ⟨b, hbread, hb⟩ := htyped "k" (by simp)
    obtain ⟨hab, hba⟩ := gates_keep_kinds.1 _ a b ha hb
    refine ⟨_, a, b, haread, hbread, ha, hb, hab, hba, ?_⟩
    exact gates_keep_kinds.2.1 _ a _ _ ha (gates_keep_kinds.2.1 _ b _ _ hb rfl)
  case loaded =>
    have hreads : ((Draft.decode.run (relayed "not k")).toOption.any fun draft =>
        draft.gates == ["defined(x) and x", "k"] &&
        decide (∀ source ∈ draft.gates, Condition.IsTyped draft.schema source) &&
        (ofDraft (sources .blank .empty draft).fetch draft.ungated).toOption.isSome) = true := by
      decide +kernel
    simp only [Option.any_eq_true, toOption_eq_some_iff, Bool.and_eq_true, beq_iff_eq,
      decide_eq_true_eq, Option.isSome_iff_exists] at hreads
    obtain ⟨draft, hread, ⟨hwritten, htyped⟩, b, hb⟩ := hreads
    obtain ⟨hloads, -⟩ := gates_keep_kinds.2.2 .blank .empty _ draft hread fun source h =>
      htyped source (mem_gates h)
    obtain ⟨b', hload, hsame, hgating⟩ := hloads b hb
    exact ⟨draft, b, b', hread, hwritten, hb, hload, hsame, hgating⟩
  case refused =>
    have hreads : ((Draft.decode.run (relayed "k and 1")).toOption.any fun draft =>
        draft.gates == ["defined(x) and x", "k"] &&
        decide (∀ source ∈ draft.gates, Condition.IsTyped draft.schema source) &&
        isRefused (ofDraft (sources .blank .empty draft).fetch draft)) = true := by
      decide +kernel
    simp only [Option.any_eq_true, toOption_eq_some_iff, Bool.and_eq_true, beq_iff_eq,
      decide_eq_true_eq, isRefused_iff] at hreads
    obtain ⟨draft, hread, ⟨hwritten, htyped⟩, fault, hrefused, hkind⟩ := hreads
    have hload : load .blank .empty (relayed "k and 1") = .error fault := by
      rw [load, hread]
      exact hrefused
    obtain ⟨-, hfaults⟩ := gates_keep_kinds.2.2 .blank .empty _ draft hread fun source h =>
      htyped source (mem_gates h)
    obtain ⟨fault', hungated, hkind'⟩ := hfaults fault hload hkind
    exact ⟨draft, fault, fault', hread, hwritten, hload, hkind, hungated, hkind'⟩

end Loading

end Blueprint

end Skeleton
