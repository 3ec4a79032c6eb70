import Skeleton.Proofs.Blueprint.Includes

-- Includes that come back to a template. Expansion ends all the same, and what it reports of them is
-- a round: the includes that lead to a template, and from there back to it.

namespace Skeleton

open Relation (ReflTransGen)

section Faults

variable {α β : Type} {chain : List String}

def NoCycle (x : Except Fault α) : Prop := ∀ chain, x ≠ .error (.build (.cyclicInclude chain))

theorem exists_of_bind_eq_cyclic {x : Except Fault α} {f : α → Except Fault β} (hx : NoCycle x)
    (h : (x >>= f) = .error (.build (.cyclicInclude chain))) :
    ∃ a, x = .ok a ∧ f a = .error (.build (.cyclicInclude chain)) :=
  (bind_eq_error_iff.mp h).resolve_left (hx chain)

theorem NoCycle.bind {x : Except Fault α} {f : α → Except Fault β} (hx : NoCycle x)
    (hf : ∀ a, NoCycle (f a)) : NoCycle (x >>= f) :=
  fun chain => bind_ne_error (hx chain) fun a => hf a chain

theorem noCycle_ok (a : α) : NoCycle (.ok a) := by
  intro chain h
  cases h

theorem noCycle_option_mapM {f : α → Except Fault β} (hf : ∀ a, NoCycle (f a)) (o : Option α) :
    NoCycle (o.mapM f) := by
  cases o with
  | none => exact noCycle_ok none
  | some a => exact (hf a).bind fun b => noCycle_ok (some b)

theorem noCycle_mapM {f : α → Except Fault β} (hf : ∀ a, NoCycle (f a)) (xs : List α) :
    NoCycle (xs.mapM f) := by
  intro chain h
  obtain ⟨x, -, hx⟩ := exists_of_mapM_eq_error h
  exact hf x chain hx

theorem noCycle_checkTemplate (label : String) (field : Field) (template : String) :
    NoCycle (checkTemplate label field template) := by
  intro chain h
  unfold checkTemplate at h
  split at h <;> cases h

theorem noCycle_parseCondition (label source : String) : NoCycle (parseCondition label source) := by
  intro chain h
  obtain ⟨e, -, he⟩ := mapError_eq_error_iff.mp h
  cases he

theorem noCycle_parseMode (path : String) (m : ModeDraft) : NoCycle (parseMode path m) := by
  intro chain h
  unfold parseMode at h
  split at h <;> cases h

theorem noCycle_content {s : Sources} (hfetch : ∀ file, NoCycle (s.fetch file)) (path : String)
    (n : NodeDraft) : NoCycle (s.content path n) := by
  intro chain h
  unfold Sources.content at h
  split at h
  · cases h
  · split at h
    · cases h
    · cases h
    · exact hfetch _ chain h
    · cases h

theorem noCycle_file {path name content : String} {kind : FileKind} (n : NodeDraft) :
    NoCycle (do
      let mode ← n.mode.mapM (parseMode path)
      let condition ← n.condition.mapM (parseCondition path)
      Except.ok [Node.file name condition kind content mode]) :=
  (noCycle_option_mapM (noCycle_parseMode path) n.mode).bind fun _ =>
    (noCycle_option_mapM (noCycle_parseCondition path) n.condition).bind fun _ => noCycle_ok _

theorem exists_of_expandAll_eq_error {s : Sources} {stack : List String} {parent : String}
    {drafts : List NodeDraft} {fault : Fault} (h : expandAll s stack parent drafts = .error fault) :
    ∃ n ∈ drafts, expand s stack parent n = .error fault := by
  induction drafts with
  | nil =>
    rw [expandAll] at h
    cases h
  | cons n rest ih =>
    rw [expandAll] at h
    rcases bind_eq_error_iff.mp h with h | ⟨nodes, -, h⟩
    · exact ⟨n, List.mem_cons_self, h⟩
    · rcases bind_eq_error_iff.mp h with h | ⟨more, -, h⟩
      · obtain ⟨m, hm, h⟩ := ih h
        exact ⟨m, List.mem_cons_of_mem _ hm, h⟩
      · cases h

-- A cycle is reported where a template is included that is being put in, or in a call from there.
theorem calls_of_expand_eq_cyclic {s : Sources} {stack : List String} {parent : String}
    {n : NodeDraft} (hfetch : ∀ file, NoCycle (s.fetch file))
    (h : expand s stack parent n = .error (.build (.cyclicInclude chain))) :
    (∃ template, n.role? = some (.included template) ∧ template ∈ stack ∧
      chain = stack ++ [template]) ∨
    ∃ stack' path child, s.Calls (stack, n) (stack', child) ∧
      expand s stack' path child = .error (.build (.cyclicInclude chain)) := by
  rw [expand] at h
  split at h
  · cases h
  · rename_i name hrole
    right
    dsimp only at h
    split at h
    · cases h
    · obtain ⟨⟨⟩, -, h⟩ := exists_of_bind_eq_cyclic (noCycle_checkTemplate _ _ _) h
      rcases bind_eq_error_iff.mp h with h | ⟨children, -, h⟩
      · obtain ⟨child, hchild, h⟩ := exists_of_expandAll_eq_error h
        exact ⟨stack, _, child, .child ⟨name, hrole, hchild⟩, h⟩
      · obtain ⟨own, -, h⟩ := exists_of_bind_eq_cyclic
          (noCycle_option_mapM (noCycle_parseCondition _) _) h
        cases h
  · rename_i kind name hrole
    dsimp only at h
    obtain ⟨content, -, h⟩ := exists_of_bind_eq_cyclic (noCycle_content hfetch _ _) h
    obtain ⟨⟨⟩, -, h⟩ := exists_of_bind_eq_cyclic (noCycle_checkTemplate _ _ _) h
    split at h
    · obtain ⟨⟨⟩, -, h⟩ := exists_of_bind_eq_cyclic (noCycle_checkTemplate _ _ _) h
      exact absurd h (noCycle_file n chain)
    · exact absurd h (noCycle_file n chain)
  · rename_i template hrole
    dsimp only at h
    split at h
    · cases h
    · split at h
      · rename_i hin
        obtain ⟨⟩ := h
        exact .inl ⟨template, hrole, hin, rfl⟩
      · rename_i hout
        right
        split at h
        · cases h
        · rename_i drafts hdrafts
          obtain ⟨own, -, h⟩ := exists_of_bind_eq_cyclic
            (noCycle_option_mapM (noCycle_parseCondition _) _) h
          rcases bind_eq_error_iff.mp h with h | ⟨nodes, -, h⟩
          · obtain ⟨child, hchild, h⟩ := exists_of_expandAll_eq_error h
            exact ⟨_, _, child, .inner hrole hout ⟨drafts, hdrafts, hchild⟩, h⟩
          · split at h <;> cases h

-- By induction on the calls, which go down.
theorem exists_calls_of_expand_eq_cyclic {s : Sources} (hfetch : ∀ file, NoCycle (s.fetch file))
    (c : List String × NodeDraft) : ∀ parent,
    expand s c.1 parent c.2 = .error (.build (.cyclicInclude chain)) →
      ∃ stack n template, ReflTransGen s.Calls c (stack, n) ∧
        n.role? = some (.included template) ∧ template ∈ stack ∧ chain = stack ++ [template] := by
  induction c using s.wellFounded_calls.induction with
  | h c ih =>
    intro parent h
    rcases calls_of_expand_eq_cyclic hfetch h with
      ⟨template, hrole, hin, hchain⟩ | ⟨stack, path, child, hcall, h⟩
    · exact ⟨c.1, c.2, template, .refl, hrole, hin, hchain⟩
    · obtain ⟨stack', n, template, hcalls, hplace⟩ := ih (stack, child) hcall path h
      exact ⟨stack', n, template, .head hcall hcalls, hplace⟩

theorem isRound_of_expand {s : Sources} {root : NodeDraft}
    (hfetch : ∀ file, NoCycle (s.fetch file))
    (h : expand s [] "" root = .error (.build (.cyclicInclude chain))) : s.IsRound root chain := by
  obtain ⟨stack, n, template, hcalls, hrole, hin, rfl⟩ :=
    exists_calls_of_expand_eq_cyclic hfetch ([], root) "" h
  exact Sources.isRound_of_calls hcalls hrole hin

theorem noCycle_declaration (name : String) (v : VariableDraft) :
    NoCycle (v.declaration name) := by
  intro chain h
  unfold VariableDraft.declaration at h
  split at h
  · cases h
  · have hdefault : NoCycle (v.default.mapM fun data =>
        ((do
          let value ← (Value.ofData data).mapError .unsupported
          value.coerce v.kind) : Except ValueFault Value).mapError fun fault =>
            Fault.draft (.default name fault)) := by
      refine noCycle_option_mapM (fun data chain h => ?_) _
      obtain ⟨e, -, he⟩ := mapError_eq_error_iff.mp h
      cases he
    obtain ⟨default, -, h⟩ := exists_of_bind_eq_cyclic hdefault h
    cases h

theorem checkSelf_ne_cyclic {schema : Schema} {path name : String} {condition : Option Condition} :
    Node.checkSelf schema path name condition ≠ .error (.cyclicInclude chain) := by
  intro h
  unfold Node.checkSelf at h
  split at h
  · cases h
  · split at h
    · cases h
    · obtain ⟨e, -, he⟩ := mapError_eq_error_iff.mp h
      cases he

mutual

theorem check_ne_cyclic {schema : Schema} : ∀ (n : Node) (parent : String),
    n.check schema parent ≠ .error (.cyclicInclude chain)
  | .directory name condition children, parent, h => by
    rw [Node.check] at h
    rcases bind_eq_error_iff.mp h with h | ⟨⟨⟩, -, h⟩
    · exact checkSelf_ne_cyclic h
    · exact checkChildren_ne_cyclic children _ _ h
  | .file name condition kind content mode, parent, h => by
    rw [Node.check] at h
    exact checkSelf_ne_cyclic h

theorem checkChildren_ne_cyclic {schema : Schema} : ∀ (ns : List Node) (parent : String)
    (seen : List String), Node.checkChildren schema parent seen ns ≠ .error (.cyclicInclude chain)
  | [], parent, seen, h => by
    rw [Node.checkChildren] at h
    cases h
  | n :: rest, parent, seen, h => by
    rw [Node.checkChildren] at h
    split at h
    · cases h
    · rcases bind_eq_error_iff.mp h with h | ⟨⟨⟩, -, h⟩
      · exact check_ne_cyclic n _ h
      · exact checkChildren_ne_cyclic rest _ _ h

end

theorem noCycle_ofNode (schema : Schema) (root : Node) :
    NoCycle ((Outline.ofNode schema root).mapError .build) := by
  intro chain h
  obtain ⟨fault, hfault, he⟩ := mapError_eq_error_iff.mp h
  obtain rfl := Fault.build.inj he
  unfold Outline.ofNode at hfault
  split at hfault
  · cases hfault
  · rename_i hcheck
    obtain rfl := Except.error.inj hfault
    exact check_ne_cyclic root _ hcheck

theorem noCycle_forM {f : α → Except Fault Unit} (hf : ∀ a, NoCycle (f a)) (xs : List α) :
    NoCycle (xs.forM f) := by
  induction xs with
  | nil => exact noCycle_ok ()
  | cons x xs ih => exact (hf x).bind fun _ => ih

theorem noCycle_hook (schema : Schema) (hook : HookDraft) : NoCycle (hook.hook schema) := by
  have hcondition : ∀ label source, NoCycle (do
      let c ← parseCondition label source
      (c.check schema).mapError fun fault => Fault.build (.conditionType label fault)
      Except.ok c) := by
    intro label source
    refine (noCycle_parseCondition label source).bind fun c => ?_
    refine NoCycle.bind (fun chain h => ?_) fun _ => noCycle_ok c
    obtain ⟨e, -, he⟩ := mapError_eq_error_iff.mp h
    cases he
  have hdir : ∀ label, NoCycle (hook.workingDir.forM (checkTemplate label .workingDir)) := by
    intro label
    cases hook.workingDir with
    | none => exact noCycle_ok ()
    | some dir => exact noCycle_checkTemplate label .workingDir dir
  refine (noCycle_option_mapM (hcondition _) hook.condition).bind fun condition => ?_
  refine (noCycle_forM (noCycle_checkTemplate _ .args) hook.args).bind fun _ => ?_
  exact (hdir _).bind fun _ => noCycle_ok _

end Faults

namespace Blueprint

variable {disk : Disk} {baseDir : Path} {draft : Draft} {fetch : String → Except Fault String}
  {chain : List String}

theorem noCycle_fileText (disk : Disk) (p : Path) : NoCycle (fileText disk p) := by
  intro chain h
  obtain ⟨e, -, he⟩ := mapError_eq_error_iff.mp h
  cases he

-- A cycle can only be reported by the expansion.
theorem expand_of_ofDraft_eq_cyclic
    (h : ofDraft fetch draft = .error (.build (.cyclicInclude chain))) :
    expand ⟨draft.templates, fetch⟩ [] "" draft.root = .error (.build (.cyclicInclude chain)) := by
  rcases bind_eq_error_iff.mp h with hdeclared | ⟨declarations, -, h⟩
  · refine absurd hdeclared (noCycle_mapM (fun entry => ?_) _ chain)
    exact (noCycle_declaration entry.1 entry.2).bind fun _ => noCycle_ok _
  rcases bind_eq_error_iff.mp h with h | ⟨nodes, -, h⟩
  · exact h
  · split at h
    · obtain ⟨outline, -, h⟩ := exists_of_bind_eq_cyclic (noCycle_ofNode _ _) h
      obtain ⟨hooks, -, h⟩ := exists_of_bind_eq_cyclic (noCycle_mapM (noCycle_hook _) _) h
      cases h
    · cases h

-- Expansion ends: its calls are well-founded, and at most all templates are put in at a time. A
-- scaffold in which a template includes itself is not loaded, and where a cycle is reported, it is a
-- round of includes from the root on.
theorem cycles_of_ofDraft (disk : Disk) (baseDir : Path) (draft : Draft) :
    (WellFounded fun c c' => (sources disk baseDir draft).Calls c' c) ∧
    (∀ stack n, ReflTransGen (sources disk baseDir draft).Calls ([], draft.root) (stack, n) →
      stack.length ≤ draft.templates.size) ∧
    (∀ b, ofDraft (sources disk baseDir draft).fetch draft = .ok b →
      ¬(sources disk baseDir draft).Circular draft.root) ∧
    (∀ chain, ofDraft (sources disk baseDir draft).fetch draft =
        .error (.build (.cyclicInclude chain)) →
      (sources disk baseDir draft).IsRound draft.root chain) ∧
    ∀ text, Draft.decode.run text = .ok draft →
      load disk baseDir text = ofDraft (sources disk baseDir draft).fetch draft := by
  refine ⟨Sources.wellFounded_calls _, ?_, ?_, ?_, ?_⟩
  · exact fun stack n h => Sources.length_le_of_calls h
  · intro b h
    obtain ⟨-, hexpands, -⟩ := parts_of_ofDraft h
    exact Sources.not_circular_of_expands hexpands
  · intro chain h
    exact isRound_of_expand (fun file => noCycle_fileText disk _) (expand_of_ofDraft_eq_cyclic h)
  · intro text htext
    rw [load, htext]
    rfl

-- Two templates that include each other, one of them in a directory.
def around : String :=
  "name: s\ntemplates:\n  a: [ \x7b dir: x, children: [ \x7b include: b \x7d ] \x7d ]\n" ++
    "  b: [ \x7b include: a \x7d ]\n" ++
    "root: \x7b dir: d, children: [ \x7b file: f \x7d, \x7b include: a \x7d ] \x7d\n"

example : (match load .blank .empty around with
    | .error (.build (.cyclicInclude chain)) => chain == ["a", "b", "a"]
    | _ => false) = true := by decide +kernel

end Blueprint

end Skeleton
