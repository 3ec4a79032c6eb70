import Skeleton.Hook.Resolution
import Skeleton.Proofs.Blueprint.Expansion
import Skeleton.Proofs.Dictionary
import Skeleton.Proofs.Plan.Preorder
import Skeleton.Proofs.Template.Faults

-- Loading finds every fault that templates and conditions have as they are written. Plans and hooks
-- have no such fault left to report.

namespace Skeleton

namespace Template

variable {context : Context} {template : String}

-- A template that can be read has only faults of its context.
theorem IsReadable.not_isStatic {e : Error} (hreadable : IsReadable template)
    (h : render context template = .error e) : e.fault.isStatic = false := by
  obtain ⟨parts, hparts⟩ := hreadable
  rw [render, hparts] at h
  exact not_isStatic_of_renderSegments h

end Template

-- Faults of templates that say where they are, but are not in their texts.
def Fault.SparesTemplates (fault : Fault) : Prop :=
  ∀ node field e, fault = .render node field e → e.fault.isStatic = false

theorem sparesTemplates_build (fault : BuildFault) : (Fault.build fault).SparesTemplates := by
  intro node field e h
  cases h

theorem sparesTemplates_ofEval (label : String) (fault : Condition.EvalFault) :
    (Fault.ofEval label fault).SparesTemplates := by
  intro node field e h
  cases fault <;> cases h

theorem Template.IsReadable.sparesTemplates {context : Context} {template label : String}
    {field : Field} {e : Template.Error} (hreadable : IsReadable template)
    (h : render context template = .error e) :
    (Skeleton.Fault.ofTemplate label field e).SparesTemplates := by
  intro node other e' hfault
  unfold Skeleton.Fault.ofTemplate at hfault
  split at hfault
  · cases hfault
  · obtain ⟨-, -, rfl⟩ := Skeleton.Fault.render.inj hfault
    exact hreadable.not_isStatic h

namespace Node

inductive Readable : Node → Prop where
  | directory {name condition children} (hname : Template.IsReadable name)
      (hchildren : ∀ child ∈ children, Readable child) :
      Readable (.directory name condition children)
  | file {name condition kind content mode} (hname : Template.IsReadable name)
      (hcontent : kind = .template → Template.IsReadable content) :
      Readable (.file name condition kind content mode)

section Readable

variable {n : Node} {schema : Schema} {parent : String}

theorem Readable.name (h : n.Readable) : Template.IsReadable n.name := by
  cases h with
  | directory hname _ => exact hname
  | file hname _ => exact hname

theorem Readable.children (h : n.Readable) : ∀ child ∈ n.children, child.Readable := by
  cases h with
  | directory _ hchildren => exact hchildren
  | file _ _ => exact fun child hchild => absurd hchild List.not_mem_nil

theorem Readable.gated (gate : Condition) (h : n.Readable) : (n.gated gate).Readable := by
  cases h with
  | directory hname hchildren => exact .directory hname hchildren
  | file hname hcontent => exact .file hname hcontent

-- Whatever an include or a file brought in was read when it was put in its place.
theorem readable_of_expands {s : Sources} {stack : List String} {drafts : List NodeDraft}
    {nodes : List Node} (h : Expands s stack drafts nodes) : ∀ n ∈ nodes, n.Readable := by
  induction h with
  | nil => exact fun n hn => absurd hn List.not_mem_nil
  | directory _ hname _ _ _ ihchildren ihrest =>
    exact List.forall_mem_cons.mpr ⟨.directory hname ihchildren, ihrest⟩
  | file _ hname _ _ hcontent _ _ ihrest =>
    exact List.forall_mem_cons.mpr ⟨.file hname hcontent, ihrest⟩
  | included _ _ _ _ _ _ ihinner ihrest =>
    exact List.forall_mem_append.mpr
      ⟨forall_gatedAll (fun _ gate hn => hn.gated gate) ihinner, ihrest⟩

theorem check_of_checkChildren {seen : List String} {children : List Node}
    (h : checkChildren schema parent seen children = .ok ()) :
    ∀ child ∈ children, child.check schema parent = .ok () := by
  induction children generalizing seen with
  | nil => exact fun child hchild => absurd hchild List.not_mem_nil
  | cons first rest ih =>
    rw [checkChildren] at h
    split at h
    · cases h
    · obtain ⟨⟨⟩, hfirst, h⟩ := bind_eq_ok_iff.mp h
      exact List.forall_mem_cons.mpr ⟨hfirst, ih h⟩

theorem check_of_mem_children (h : n.check schema parent = .ok ()) :
    ∀ child ∈ n.children, ∃ path, child.check schema path = .ok () := by
  cases n with
  | directory name condition children =>
    rw [check] at h
    obtain ⟨⟨⟩, -, h⟩ := bind_eq_ok_iff.mp h
    exact fun child hchild => ⟨_, check_of_checkChildren h child hchild⟩
  | file name condition kind content mode =>
    exact fun child hchild => absurd hchild List.not_mem_nil

theorem checkSelf_of_check (h : n.check schema parent = .ok ()) :
    ∃ path, checkSelf schema path n.name n.condition = .ok () := by
  cases n with
  | directory name condition children =>
    rw [check] at h
    obtain ⟨⟨⟩, hself, -⟩ := bind_eq_ok_iff.mp h
    exact ⟨_, hself⟩
  | file name condition kind content mode =>
    rw [check] at h
    exact ⟨_, h⟩

theorem condition_of_check {c : Condition} (h : n.check schema parent = .ok ())
    (hc : n.condition = some c) : c.check schema = .ok () := by
  obtain ⟨path, hself⟩ := checkSelf_of_check h
  unfold checkSelf at hself
  rw [hc] at hself
  split at hself
  · cases hself
  · exact mapError_eq_ok_iff.mp hself

end Readable

end Node

structure Hook.Checked (schema : Schema) (h : Hook) : Prop where
  args : ∀ arg ∈ h.args, Template.IsReadable arg
  workingDir : ∀ dir, h.workingDir = some dir → Template.IsReadable dir
  condition : ∀ c, h.condition = some c → c.check schema = .ok ()

namespace Hook

variable {schema : Schema} {draft : HookDraft} {h : Hook} {context : Context} {root : Path}
  {fault : Fault}

theorem checked_of_hook (hhook : draft.hook schema = .ok h) : h.Checked schema := by
  obtain ⟨condition, hcondition, hhook⟩ := bind_eq_ok_iff.mp hhook
  obtain ⟨⟨⟩, hargs, hhook⟩ := bind_eq_ok_iff.mp hhook
  obtain ⟨⟨⟩, hdir, hhook⟩ := bind_eq_ok_iff.mp hhook
  obtain rfl := Except.ok.inj hhook
  refine ⟨?_, ?_, ?_⟩
  · exact fun arg harg => isReadable_of_checkTemplate (forall_of_forM hargs arg harg)
  · intro dir hsome
    simp only at hsome
    rw [hsome] at hdir
    exact isReadable_of_checkTemplate hdir
  · rintro c rfl
    cases hsource : draft.condition with
    | none =>
      rw [hsource] at hcondition
      cases hcondition
    | some source =>
      rw [hsource] at hcondition
      obtain ⟨c', hc', hcondition⟩ := bind_eq_ok_iff.mp hcondition
      obtain rfl := Option.some.inj (Except.ok.inj hcondition)
      obtain ⟨c'', -, hc'⟩ := bind_eq_ok_iff.mp hc'
      obtain ⟨⟨⟩, hcheck, hc'⟩ := bind_eq_ok_iff.mp hc'
      obtain rfl := Except.ok.inj hc'
      exact mapError_eq_ok_iff.mp hcheck

theorem sparesTemplates_of_render {label template : String} {field : Field}
    (hreadable : Template.IsReadable template)
    (hrender : render context label field template = .error fault) : fault.SparesTemplates := by
  obtain ⟨e, he, rfl⟩ := mapError_eq_error_iff.mp hrender
  exact hreadable.sparesTemplates he

theorem Checked.sparesTemplates_of_directory {label : String} (hchecked : h.Checked schema)
    (hdir : directory context root label h.workingDir = .error fault) :
    fault.SparesTemplates := by
  unfold directory at hdir
  split at hdir
  · cases hdir
  · rename_i template hsome
    rcases bind_eq_error_iff.mp hdir with hrender | ⟨text, -, hdir⟩
    · exact sparesTemplates_of_render (hchecked.workingDir template hsome) hrender
    · dsimp only at hdir
      split at hdir
      · obtain rfl := Except.error.inj hdir
        exact sparesTemplates_build _
      · cases hdir

theorem Checked.sparesTemplates_of_parts {label : String} (hchecked : h.Checked schema)
    (hparts : (do
      let args ← h.args.mapM (render context label .args)
      let dir ← directory context root label h.workingDir
      .ok (some (Invocation.mk h.name h.command args dir))) = Except.error fault) :
    fault.SparesTemplates := by
  rcases bind_eq_error_iff.mp hparts with hargs | ⟨args, -, hparts⟩
  · obtain ⟨arg, harg, hrender⟩ := exists_of_mapM_eq_error hargs
    exact sparesTemplates_of_render (hchecked.args arg harg) hrender
  · rcases bind_eq_error_iff.mp hparts with hdir | ⟨dir, -, hparts⟩
    · exact hchecked.sparesTemplates_of_directory hdir
    · cases hparts

theorem Checked.sparesTemplates (hchecked : h.Checked schema)
    (hresolve : resolve context root h = .error fault) : fault.SparesTemplates := by
  unfold resolve at hresolve
  dsimp only at hresolve
  split at hresolve
  · exact hchecked.sparesTemplates_of_parts hresolve
  · rcases bind_eq_error_iff.mp hresolve with heval | ⟨enabled, -, hresolve⟩
    · obtain ⟨e, -, rfl⟩ := mapError_eq_error_iff.mp heval
      exact sparesTemplates_ofEval _ e
    · split at hresolve
      · exact hchecked.sparesTemplates_of_parts hresolve
      · cases hresolve

theorem sparesTemplates_of_resolveAll {report : Report} {hooks : List Hook}
    (hchecked : ∀ h ∈ hooks, h.Checked schema)
    (hresolve : resolveAll context report hooks = .error fault) : fault.SparesTemplates := by
  unfold resolveAll at hresolve
  split at hresolve
  · rcases bind_eq_error_iff.mp hresolve with hall | ⟨invocations, -, hresolve⟩
    · obtain ⟨h, hmem, hresolve⟩ := exists_of_mapM_eq_error hall
      exact (hchecked h hmem).sparesTemplates hresolve
    · cases hresolve
  · obtain rfl := Except.error.inj hresolve
    intro node field e hfault
    cases hfault

end Hook

theorem sparesTemplates_of_build {base : Path} {outline : Outline} {context : Context}
    {fault : Fault} (hreadable : outline.root.Readable)
    (h : Plan.build base outline context = .error fault) : fault.SparesTemplates := by
  obtain ⟨before, s, after, hsplit, -, hfaulty⟩ := Plan.build_eq_error_iff.mp h
  have hs : s ∈ outline.root.sites [] := by simp [hsplit]
  have hnode : s.node.Readable :=
    Plan.forall_sites (fun _ h => h.children) outline.root hreadable hs
  cases hfaulty with
  | condition => exact sparesTemplates_ofEval _ _
  | name _ hrender => exact hnode.name.sparesTemplates hrender
  | segment => exact sparesTemplates_build _
  | duplicate => exact sparesTemplates_build _
  | content _ _ _ hfile hrender =>
    rw [hfile] at hnode
    cases hnode with
    | file _ hcontent => exact (hcontent rfl).sparesTemplates hrender

section Declarations

theorem kindOf?_schemaOf (declarations : Dictionary String Declaration) (name : String) :
    (Blueprint.schemaOf declarations).kindOf? name =
      (declarations.get? name).map Declaration.kind := by
  rw [Blueprint.schemaOf, Schema.kindOf?, Dictionary.get?_ofList_of_nodup,
    lookupEntry_map Declaration.kind, Dictionary.get?]
  rw [List.map_map]
  exact declarations.nodup_keys

end Declarations

namespace Blueprint

variable {disk : Disk} {baseDir : Path} {text : String} {b : Blueprint}

-- That no context shows a fault in the text of a template, in a plan or in a hook, and that the
-- conditions have the right kind for the variables that are declared.
structure Checked (b : Blueprint) : Prop where
  build : ∀ base context node field e,
    Plan.build base b.outline context = .error (.render node field e) → e.fault.isStatic = false
  resolve : ∀ context report node field e,
    Hook.resolveAll context report b.hooks = .error (.render node field e) →
      e.fault.isStatic = false
  node : ∀ s ∈ b.outline.root.sites [], ∀ c, s.node.condition = some c →
    c.check b.outline.schema = .ok ()
  hook : ∀ h ∈ b.hooks, ∀ c, h.condition = some c → c.check b.outline.schema = .ok ()
  schema : ∀ name, b.outline.schema.kindOf? name = (b.declarations.get? name).map Declaration.kind

-- Whatever is loaded has been checked, what includes and files brought in among it.
theorem checked_of_load (h : load disk baseDir text = .ok b) : b.Checked := by
  obtain ⟨draft, -, h⟩ := ofDraft_of_load h
  obtain ⟨hschema, hexpands, hhooks⟩ := parts_of_ofDraft h
  have hreadable := Node.readable_of_expands hexpands b.outline.root List.mem_cons_self
  have hchecked : ∀ hook ∈ b.hooks, hook.Checked b.outline.schema := by
    intro hook hmem
    obtain ⟨source, -, hhook⟩ := exists_of_mem_mapM hhooks hook hmem
    exact Hook.checked_of_hook hhook
  refine ⟨?build, ?resolve, ?node, ?hook, ?schema⟩
  case build =>
    intro base context node field e hbuild
    exact sparesTemplates_of_build hreadable hbuild node field e rfl
  case resolve =>
    intro context report node field e hresolve
    exact Hook.sparesTemplates_of_resolveAll hchecked hresolve node field e rfl
  case node =>
    intro s hs c hc
    let P : Node → Prop := fun n => ∃ path, n.check b.outline.schema path = .ok ()
    have hP : ∀ n, P n → ∀ child ∈ n.children, P child :=
      fun n ⟨_, hn⟩ => Node.check_of_mem_children hn
    obtain ⟨path, hcheck⟩ := Plan.forall_sites hP b.outline.root ⟨"", b.outline.checked⟩ hs
    exact Node.condition_of_check hcheck hc
  case hook => exact fun hook hmem => (hchecked hook hmem).condition
  case schema =>
    intro name
    rw [hschema]
    exact kindOf?_schemaOf _ name

def letter : String :=
  "name: s\nvariables: \x7b k: \x7b type: bool \x7d \x7d\n" ++
    "templates: \x7b t: [ \x7b file: '\x7b\x7b a \x7d\x7d', when: k \x7d ] \x7d\n" ++
    "root: \x7b dir: d, children: [ \x7b include: t, when: defined(k) \x7d ] \x7d\n" ++
    "hooks: [ \x7b name: h, command: c, args: [ '\x7b\x7b b \x7d\x7d' ] \x7d ]\n"

theorem checked_of_load_letter : ∃ b, load .blank .empty letter = .ok b ∧
    (b.outline.root.children.map fun n => n.condition.map Condition.source) =
      [some "(defined(k)) and (k)"] ∧
    b.hooks.map Hook.args = [["\x7b\x7b b \x7d\x7d"]] ∧ b.Checked := by
  have hloads : ((load .blank .empty letter).toOption.any fun b =>
      (b.outline.root.children.map fun n => n.condition.map Condition.source) ==
        [some "(defined(k)) and (k)"] &&
      b.hooks.map Hook.args == [["\x7b\x7b b \x7d\x7d"]]) = true := by
    decide +kernel
  simp only [Option.any_eq_true, toOption_eq_some_iff, Bool.and_eq_true, beq_iff_eq] at hloads
  obtain ⟨b, hload, hnodes, hhooks⟩ := hloads
  exact ⟨b, hload, hnodes, hhooks, checked_of_load hload⟩

end Blueprint

end Skeleton
