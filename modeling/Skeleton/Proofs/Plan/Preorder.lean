import Mathlib.Data.List.Induction
import Mathlib.Data.List.Nodup
import Skeleton.Proofs.Plan.Sites

-- Plans read off an outline: one operation for each node that is produced, in pre-order, or the
-- fault of the first node in that order that has one.

namespace Skeleton.Plan

def paths (base : Path) (context : Context) (sites : List Site) : List Path :=
  (sites.filter (Site.isIncluded context)).map (Site.path base context)

-- That a template has a text which is one segment of a path.
def Names (context : Context) (template : String) : Prop :=
  ∃ name, Template.render context template = .ok name ∧ IsSegment name

-- The fault of a node behind others. Its condition is looked at first, then its name, then whether
-- its path is new, and its content last.
inductive Faulty (base : Path) (context : Context) (before : List Site) (s : Site) :
    Fault → Prop where
  | condition {c e} (hreached : s.isReached context = true) (hc : s.node.condition = some c)
      (heval : c.eval context = .error e) :
      Faulty base context before s (.ofEval s.label e)
  | name {e} (hincluded : s.isIncluded context = true)
      (hrender : Template.render context s.node.name = .error e) :
      Faulty base context before s (.ofTemplate s.label .name e)
  | segment {name fault} (hincluded : s.isIncluded context = true)
      (hrender : Template.render context s.node.name = .ok name)
      (hfault : segmentFault? name = some fault) :
      Faulty base context before s (.build (.invalidSegment name s.label fault))
  | duplicate (hincluded : s.isIncluded context = true) (hname : Names context s.node.name)
      (hold : s.path base context ∈ paths base context before) :
      Faulty base context before s (.build (.duplicatePath (s.path base context).text s.label))
  | content {name condition content mode e} (hincluded : s.isIncluded context = true)
      (hname : Names context s.node.name)
      (hnew : s.path base context ∉ paths base context before)
      (hnode : s.node = .file name condition .template content mode)
      (hrender : Template.render context content = .error e) :
      Faulty base context before s (.ofTemplate s.label .content e)

def Faultless (base : Path) (context : Context) (sites : List Site) : Prop :=
  ∀ before s after, sites = before ++ s :: after → ∀ fault, ¬Faulty base context before s fault

def FirstFault (base : Path) (context : Context) (sites : List Site) (fault : Fault) : Prop :=
  ∃ before s after, sites = before ++ s :: after ∧ Faultless base context before ∧
    Faulty base context before s fault

-- That the nodes which count for a plan have what it takes: conditions with a truth value, names
-- that are segments, contents with a text, and paths of their own.
structure Sound (base : Path) (context : Context) (sites : List Site) : Prop where
  decided : ∀ s ∈ sites, s.isReached context = true → ∀ c, s.node.condition = some c →
    ∃ b, c.eval context = .ok b
  named : ∀ s ∈ sites, s.isIncluded context = true → Names context s.node.name
  filled : ∀ s ∈ sites, s.isIncluded context = true → ∀ name condition content mode,
    s.node = .file name condition .template content mode →
      ∃ text, Template.render context content = .ok text
  distinct : (paths base context sites).Nodup

def produced (base : Path) (context : Context) (sites : List Site) : List Operation :=
  (sites.filter (Site.isIncluded context)).map (Site.operation base context)

section Step

variable {base : Path} {context : Context} {s : Site} {before : List Site} {text : String}
  {fault : Fault}

@[simp]
theorem path_operation : (s.operation base context).path = s.path base context := by
  unfold Site.operation
  split <;> rfl

theorem map_path_produced (sites : List Site) :
    (produced base context sites).map Operation.path = paths base context sites := by
  simp [produced, paths]

theorem place_produced (h : Template.render context s.node.name = .ok text) :
    place (produced base context before) s.label
        (base.descend ((s.above.map Node.name).map (rendered context))) text =
      if s.path base context ∈ paths base context before then
        .error (.build (.duplicatePath (s.path base context).text s.label))
      else .ok (s.path base context) := by
  rw [place, map_path_produced, path_of_render h]

-- A node with a fault ends the walk.
theorem step_of_faulty (h : Faulty base context before s fault) :
    step base context (produced base context before) s = .error fault := by
  cases h with
  | condition hreached hc heval =>
    simp [step, hreached, isIncluded, hc, heval, Except.mapError, bind, Except.bind]
  | name hincluded hrender =>
    rw [step_of_included hincluded]
    simp [produce, segment, hrender, Except.mapError, bind, Except.bind]
  | segment hincluded hrender hfault =>
    rw [step_of_included hincluded]
    simp [produce, segment, hrender, hfault, Except.mapError, bind, Except.bind]
  | duplicate hincluded hname hold =>
    obtain ⟨text, hsegment⟩ := hname
    rw [step_of_included hincluded, produce, segment_eq_ok_iff.mpr hsegment]
    simp only [bind, Except.bind, place_produced hsegment.1, if_pos hold]
  | content hincluded hname hnew hnode hrender =>
    obtain ⟨text, hsegment⟩ := hname
    rw [step_of_included hincluded, produce, segment_eq_ok_iff.mpr hsegment]
    simp only [bind, Except.bind, place_produced hsegment.1, if_neg hnew]
    simp [hnode, fileContent, hrender, Except.mapError]

theorem produced_concat (before : List Site) (s : Site) :
    produced base context (before ++ [s]) = produced base context before ++
      if s.isIncluded context then [s.operation base context] else [] := by
  by_cases h : s.isIncluded context = true <;> simp [produced, h]

theorem names_of_not_faulty (hincluded : s.isIncluded context = true)
    (h : ∀ fault, ¬Faulty base context before s fault) : Names context s.node.name := by
  cases hrender : Template.render context s.node.name with
  | error e => exact absurd (.name hincluded hrender) (h _)
  | ok text =>
    cases hfault : segmentFault? text with
    | some fault => exact absurd (.segment hincluded hrender hfault) (h _)
    | none => exact ⟨text, hrender, isSegment_of_segmentFault? hfault⟩

theorem path_not_mem_of_not_faulty (hincluded : s.isIncluded context = true)
    (h : ∀ fault, ¬Faulty base context before s fault) :
    s.path base context ∉ paths base context before :=
  fun hold => h _ (.duplicate hincluded (names_of_not_faulty hincluded h) hold)

theorem exists_content_of_not_faulty {name content : String} {condition : Option Condition}
    {mode : Option Nat} (hincluded : s.isIncluded context = true)
    (h : ∀ fault, ¬Faulty base context before s fault)
    (hnode : s.node = .file name condition .template content mode) :
    ∃ text, Template.render context content = .ok text := by
  cases hrender : Template.render context content with
  | ok text => exact ⟨text, rfl⟩
  | error e =>
    have hnew := path_not_mem_of_not_faulty hincluded h
    exact absurd (.content hincluded (names_of_not_faulty hincluded h) hnew hnode hrender) (h _)

-- A node without a fault adds its operation, if it is produced.
theorem produce_of_not_faulty (hincluded : s.isIncluded context = true)
    (h : ∀ fault, ¬Faulty base context before s fault) :
    produce base context (produced base context before) s =
      .ok (produced base context before ++ [s.operation base context]) := by
  obtain ⟨text, hsegment⟩ := names_of_not_faulty hincluded h
  have hnew := path_not_mem_of_not_faulty hincluded h
  rw [produce, segment_eq_ok_iff.mpr hsegment]
  simp only [bind, Except.bind, place_produced hsegment.1, if_neg hnew]
  cases hnode : s.node with
  | directory name condition children => simp [Site.operation, hnode]
  | file name condition kind content mode =>
    cases kind with
    | literal => simp [Site.operation, hnode, fileContent]
    | template =>
      obtain ⟨filled, hfilled⟩ := exists_content_of_not_faulty hincluded h hnode
      simp [Site.operation, hnode, fileContent, hfilled, rendered_of_ok hfilled, Except.mapError]

theorem step_of_not_faulty (h : ∀ fault, ¬Faulty base context before s fault) :
    step base context (produced base context before) s =
      .ok (produced base context (before ++ [s])) := by
  rw [produced_concat]
  by_cases hincluded : s.isIncluded context = true
  · rw [step_of_included hincluded, produce_of_not_faulty hincluded h, if_pos hincluded]
  · rw [if_neg hincluded, List.append_nil, step]
    by_cases hreached : s.isReached context = true
    · rw [if_pos hreached]
      cases hcondition : isIncluded context s.label s.node.condition with
      | ok b =>
        cases b with
        | true => exact absurd (isIncluded_iff.mpr ⟨hreached, holds_iff.mpr hcondition⟩) hincluded
        | false => rfl
      | error fault =>
        obtain ⟨c, e, hc, heval⟩ := exists_of_isIncluded_eq_error hcondition
        exact absurd (.condition hreached hc heval) (h _)
    · rw [if_neg hreached]

end Step

section Build

variable {base : Path} {context : Context} {sites before after : List Site} {s : Site}
  {fault : Fault}

theorem Faultless.of_append (h : Faultless base context (sites ++ after)) :
    Faultless base context sites := by
  intro before s rest hsplit
  refine h before s (rest ++ after) ?_
  rw [hsplit, List.append_assoc, List.cons_append]

theorem faultless_concat_iff : Faultless base context (sites ++ [s]) ↔
    Faultless base context sites ∧ ∀ fault, ¬Faulty base context sites s fault := by
  constructor
  · exact fun h => ⟨h.of_append, h sites s [] rfl⟩
  · rintro ⟨hsites, hs⟩ before t after hsplit
    cases after using List.reverseRecOn with
    | nil =>
      obtain ⟨rfl, heq⟩ := List.append_inj' hsplit rfl
      obtain rfl := List.singleton_inj.mp heq
      exact hs
    | append_singleton after last =>
      rw [← List.cons_append, ← List.append_assoc] at hsplit
      exact hsites before t after (List.append_inj' hsplit rfl).1

theorem foldlM_of_faultless (h : Faultless base context sites) :
    sites.foldlM (step base context) [] = .ok (produced base context sites) := by
  induction sites using List.reverseRecOn with
  | nil => rfl
  | append_singleton sites s ih =>
    obtain ⟨hsites, hs⟩ := faultless_concat_iff.mp h
    rw [List.foldlM_append, ih hsites]
    simp only [List.foldlM_cons, List.foldlM_nil, bind_pure]
    exact step_of_not_faulty hs

theorem foldlM_of_firstFault (h : FirstFault base context sites fault) :
    sites.foldlM (step base context) [] = .error fault := by
  obtain ⟨before, s, after, rfl, hbefore, hs⟩ := h
  rw [List.foldlM_append, foldlM_of_faultless hbefore]
  simp only [bind, Except.bind, List.foldlM_cons, step_of_faulty hs]

-- Among nodes that are not all without fault there is a first one with a fault.
theorem exists_firstFault (h : ¬Faultless base context sites) :
    ∃ fault, FirstFault base context sites fault := by
  induction sites using List.reverseRecOn with
  | nil => exact absurd (fun before s after hsplit => by simp at hsplit) h
  | append_singleton sites s ih =>
    by_cases hsites : Faultless base context sites
    · rw [faultless_concat_iff, not_and] at h
      have hs := h hsites
      push Not at hs
      obtain ⟨fault, hfault⟩ := hs
      exact ⟨fault, sites, s, [], rfl, hsites, hfault⟩
    · obtain ⟨fault, before, t, after, rfl, hbefore, ht⟩ := ih hsites
      exact ⟨fault, before, t, after ++ [s], by simp, hbefore, ht⟩

theorem paths_concat (sites : List Site) (s : Site) :
    paths base context (sites ++ [s]) = paths base context sites ++
      if s.isIncluded context then [s.path base context] else [] := by
  by_cases h : s.isIncluded context = true <;> simp [paths, h]

theorem nodup_paths (h : Faultless base context sites) : (paths base context sites).Nodup := by
  induction sites using List.reverseRecOn with
  | nil => exact List.nodup_nil
  | append_singleton sites s ih =>
    obtain ⟨hsites, hs⟩ := faultless_concat_iff.mp h
    rw [paths_concat]
    by_cases hincluded : s.isIncluded context = true
    · have hnew := path_not_mem_of_not_faulty hincluded hs
      rw [if_pos hincluded, ← List.concat_eq_append]
      exact (ih hsites).concat hnew
    · rw [if_neg hincluded, List.append_nil]
      exact ih hsites

theorem sound_of_faultless (h : Faultless base context sites) : Sound base context sites where
  decided s hs hreached c hc := by
    obtain ⟨before, after, hsplit⟩ := List.append_of_mem hs
    cases heval : c.eval context with
    | ok b => exact ⟨b, rfl⟩
    | error e => exact absurd (.condition hreached hc heval) (h before s after hsplit _)
  named s hs hincluded := by
    obtain ⟨before, after, hsplit⟩ := List.append_of_mem hs
    exact names_of_not_faulty hincluded (h before s after hsplit)
  filled s hs hincluded name condition content mode hnode := by
    obtain ⟨before, after, hsplit⟩ := List.append_of_mem hs
    exact exists_content_of_not_faulty hincluded (h before s after hsplit) hnode
  distinct := nodup_paths h

theorem Sound.faultless (h : Sound base context sites) : Faultless base context sites := by
  rintro before s after rfl fault hfaulty
  have hs : s ∈ before ++ s :: after := by simp
  cases hfaulty with
  | condition hreached hc heval =>
    obtain ⟨b, hb⟩ := h.decided s hs hreached _ hc
    cases hb.symm.trans heval
  | name hincluded hrender =>
    obtain ⟨text, htext, -⟩ := h.named s hs hincluded
    cases htext.symm.trans hrender
  | segment hincluded hrender hfault =>
    obtain ⟨text, htext, hsegment⟩ := h.named s hs hincluded
    obtain rfl := Except.ok.inj (htext.symm.trans hrender)
    cases (segmentFault?_of_isSegment hsegment).symm.trans hfault
  | duplicate hincluded hname hold =>
    have hdistinct := h.distinct
    rw [List.append_cons, paths, List.filter_append, List.map_append] at hdistinct
    have hprefix : (paths base context (before ++ [s])).Nodup := hdistinct.of_append_left
    rw [paths_concat, if_pos hincluded] at hprefix
    exact List.disjoint_of_nodup_append hprefix hold List.mem_cons_self
  | content hincluded hname hnew hnode hrender =>
    obtain ⟨text, htext⟩ := h.filled s hs hincluded _ _ _ _ hnode
    cases htext.symm.trans hrender

theorem build_eq (base : Path) (outline : Outline) (context : Context) :
    build base outline context =
      ((outline.root.sites []).foldlM (step base context) []).map Plan.mk := by
  rw [build, ← visit_eq_foldlM (by rfl)]
  rfl

theorem build_eq_ok_iff {outline : Outline} {plan : Plan} :
    build base outline context = .ok plan ↔ Faultless base context (outline.root.sites []) ∧
      plan.operations = produced base context (outline.root.sites []) := by
  rw [build_eq]
  by_cases h : Faultless base context (outline.root.sites [])
  · rw [foldlM_of_faultless h]
    cases plan
    simp [Except.map, h, eq_comm]
  · obtain ⟨fault, hfault⟩ := exists_firstFault h
    simp [foldlM_of_firstFault hfault, Except.map, h]

theorem build_eq_error_iff {outline : Outline} :
    build base outline context = .error fault ↔
      FirstFault base context (outline.root.sites []) fault := by
  rw [build_eq]
  constructor
  · intro h
    by_cases hsites : Faultless base context (outline.root.sites [])
    · simp [foldlM_of_faultless hsites, Except.map] at h
    · obtain ⟨other, hother⟩ := exists_firstFault hsites
      rw [foldlM_of_firstFault hother] at h
      obtain rfl := Except.error.inj h
      exact hother
  · intro h
    rw [foldlM_of_firstFault h]
    rfl

-- A plan is built if and only if all that counts for it is sound, and then it has one operation for
-- each node that is produced, in pre-order. Otherwise the fault of the first node with one is
-- reported.
theorem build_exact (base : Path) (outline : Outline) (context : Context) :
    (∀ plan, build base outline context = .ok plan ↔
      Sound base context (outline.root.sites []) ∧
        plan.operations = ((outline.root.sites []).filter (Site.isIncluded context)).map
          (Site.operation base context)) ∧
    ∀ fault, build base outline context = .error fault ↔
      FirstFault base context (outline.root.sites []) fault := by
  refine ⟨fun plan => ?_, fun fault => build_eq_error_iff⟩
  rw [build_eq_ok_iff]
  exact and_congr_left fun _ => ⟨sound_of_faultless, Sound.faultless⟩

-- Two files whose names differ only as they are written.
def namesakes : Outline where
  root := .directory "d" none
    [.file "lyra" none .literal "" none, .file "{{ name }}" none .literal "" none]
  schema := .empty
  checked := by rfl

example : build .empty namesakes (named "lyra") =
    .error (.build (.duplicatePath "d/lyra" "d/{{ name }}")) := by cbv

end Build

end Skeleton.Plan
