import Skeleton.Proofs.Plan.Shape

-- The nodes of an outline in pre-order, and the walk through them that makes a plan.

namespace Skeleton

-- A node of a tree, and the directories that it is in, the outermost first.
structure Site where
  above : List Node
  node : Node

mutual

def Node.sites (above : List Node) : Node → List Site
  | directory name condition children =>
    ⟨above, directory name condition children⟩ ::
      sitesAll (above ++ [directory name condition children]) children
  | file name condition kind content mode => [⟨above, file name condition kind content mode⟩]

def Node.sitesAll (above : List Node) : List Node → List Site
  | [] => []
  | n :: rest => n.sites above ++ sitesAll above rest

end

def Node.holds (context : Context) (n : Node) : Bool :=
  n.condition.all fun c => (c.eval context).toOption = some true

def rendered (context : Context) (template : String) : String :=
  (Template.render context template).toOption.getD ""

namespace Site

def names (s : Site) : List String := (s.above ++ [s.node]).map Node.name

def label (s : Site) : String := s.names.foldl childPath ""

def isReached (context : Context) (s : Site) : Bool := s.above.all (Node.holds context)

def isIncluded (context : Context) (s : Site) : Bool :=
  (s.above ++ [s.node]).all (Node.holds context)

def path (base : Path) (context : Context) (s : Site) : Path :=
  base.descend (s.names.map (rendered context))

-- What produces the node. Literal files hold their content as it is.
def operation (base : Path) (context : Context) (s : Site) : Operation :=
  match s.node with
  | .directory _ _ _ => .makeDir (s.path base context)
  | .file _ _ .template content mode =>
    .writeFile (s.path base context) (rendered context content) mode
  | .file _ _ .literal content mode => .writeFile (s.path base context) content mode

end Site

namespace Plan

section Step

variable {base : Path} {context : Context} {s : Site} {n : Node} {done : List Operation}
  {label template text : String} {fault : Fault}

def produce (base : Path) (context : Context) (done : List Operation) (s : Site) :
    Except Fault (List Operation) := do
  let name ← segment context s.label s.node.name
  let path ← place done s.label (base.descend ((s.above.map Node.name).map (rendered context))) name
  match s.node with
  | .directory _ _ _ => .ok (done ++ [.makeDir path])
  | .file _ _ kind content mode => do
    let content ← fileContent context s.label kind content
    .ok (done ++ [.writeFile path content mode])

-- What a visit does at any node. Nothing in a directory that is left out is visited.
def step (base : Path) (context : Context) (done : List Operation) (s : Site) :
    Except Fault (List Operation) :=
  if s.isReached context then do
    if ← isIncluded context s.label s.node.condition then produce base context done s else .ok done
  else .ok done

theorem rendered_of_ok (h : Template.render context template = .ok text) :
    rendered context template = text := by
  rw [rendered, h]
  rfl

theorem holds_iff : n.holds context = true ↔ isIncluded context label n.condition = .ok true := by
  cases hc : n.condition <;>
    simp [Node.holds, isIncluded, hc, toOption_eq_some_iff, mapError_eq_ok_iff]

theorem exists_of_isIncluded_eq_error {condition : Option Condition}
    (h : isIncluded context label condition = .error fault) :
    ∃ c e, condition = some c ∧ c.eval context = .error e := by
  cases condition with
  | none => cases h
  | some c =>
    cases heval : c.eval context with
    | error e => exact ⟨c, e, rfl, heval⟩
    | ok b => simp [isIncluded, heval, Except.mapError] at h

theorem isIncluded_iff :
    s.isIncluded context = true ↔ s.isReached context = true ∧ s.node.holds context = true := by
  simp [Site.isIncluded, Site.isReached]

theorem segment_eq_ok_iff : segment context label template = .ok text ↔
    Template.render context template = .ok text ∧ IsSegment text := by
  constructor
  · intro h
    refine ⟨?_, isSegment_of_segment h⟩
    obtain ⟨s, hrender, h⟩ := bind_eq_ok_iff.mp h
    split at h
    · obtain rfl := Except.ok.inj h
      exact mapError_eq_ok_iff.mp hrender
    · cases h
  · rintro ⟨hrender, hsegment⟩
    simp [segment, hrender, Except.mapError, segmentFault?_of_isSegment hsegment, bind, Except.bind]

theorem path_of_render (h : Template.render context s.node.name = .ok text) :
    s.path base context =
      (base.descend ((s.above.map Node.name).map (rendered context))).join (.ofName text) := by
  simp [Site.path, Site.names, Path.descend, rendered_of_ok h]

theorem step_of_included (h : s.isIncluded context = true) :
    step base context done s = produce base context done s := by
  obtain ⟨hreached, hholds⟩ := isIncluded_iff.mp h
  rw [step, if_pos hreached, holds_iff.mp hholds]
  rfl

end Step

section Walk

variable {base : Path} {context : Context} {above : List Node} {sites : List Site}
  {done : List Operation}

-- What is in a directory that is left out changes nothing.
theorem foldlM_step_of_not_reached (h : ∀ s ∈ sites, s.isReached context = false) :
    sites.foldlM (step base context) done = .ok done := by
  induction sites with
  | nil => rfl
  | cons s rest ih =>
    have hs : step base context done s = .ok done := by
      simp [step, h s List.mem_cons_self]
    rw [List.foldlM_cons, hs]
    exact ih fun t ht => h t (List.mem_cons_of_mem _ ht)

mutual

theorem above_prefix_of_mem_sites {above : List Node} {s : Site} :
    ∀ n : Node, s ∈ n.sites above → above <+: s.above
  | .directory name condition children, h => by
    rcases List.mem_cons.mp h with rfl | h
    · exact List.prefix_refl _
    · exact (List.prefix_append _ _).trans (above_prefix_of_mem_sitesAll children h)
  | .file name condition kind content mode, h => by
    obtain rfl := List.mem_singleton.mp h
    exact List.prefix_refl _

theorem above_prefix_of_mem_sitesAll {above : List Node} {s : Site} :
    ∀ ns : List Node, s ∈ Node.sitesAll above ns → above <+: s.above
  | [], h => absurd h List.not_mem_nil
  | n :: rest, h => by
    rcases List.mem_append.mp h with h | h
    · exact above_prefix_of_mem_sites n h
    · exact above_prefix_of_mem_sitesAll rest h

end

mutual

-- What a node passes on to its children holds of every node in it.
theorem forall_sites {P : Node → Prop} (hP : ∀ n, P n → ∀ child ∈ n.children, P child)
    {above : List Node} {s : Site} : ∀ n : Node, P n → s ∈ n.sites above → P s.node
  | .directory name condition children, h, hs => by
    rcases List.mem_cons.mp hs with rfl | hs
    · exact h
    · exact forall_sitesAll hP children (hP _ h) hs
  | .file name condition kind content mode, h, hs => by
    obtain rfl := List.mem_singleton.mp hs
    exact h

theorem forall_sitesAll {P : Node → Prop} (hP : ∀ n, P n → ∀ child ∈ n.children, P child)
    {above : List Node} {s : Site} :
    ∀ ns : List Node, (∀ n ∈ ns, P n) → s ∈ Node.sitesAll above ns → P s.node
  | [], _, hs => absurd hs List.not_mem_nil
  | n :: rest, h, hs => by
    rcases List.mem_append.mp hs with hs | hs
    · exact forall_sites hP n (h n List.mem_cons_self) hs
    · exact forall_sitesAll hP rest (fun m hm => h m (List.mem_cons_of_mem _ hm)) hs

end

def labelOf (above : List Node) : String := (above.map Node.name).foldl childPath ""

def pathOf (base : Path) (context : Context) (above : List Node) : Path :=
  base.descend ((above.map Node.name).map (rendered context))

theorem label_eq (above : List Node) (n : Node) :
    (Site.mk above n).label = childPath (labelOf above) n.name := by
  simp [Site.label, Site.names, labelOf]

theorem labelOf_concat (above : List Node) (n : Node) :
    labelOf (above ++ [n]) = childPath (labelOf above) n.name := by
  simp [labelOf]

theorem pathOf_concat (base : Path) (above : List Node) {n : Node} {name : String}
    (h : Template.render context n.name = .ok name) :
    pathOf base context (above ++ [n]) = (pathOf base context above).join (.ofName name) := by
  simp [pathOf, Path.descend, rendered_of_ok h]

theorem step_directory {name : String} {condition : Option Condition} {children : List Node}
    (habove : above.all (Node.holds context) = true) :
    step base context done ⟨above, .directory name condition children⟩ = (do
      if ← isIncluded context (childPath (labelOf above) name) condition then
        let text ← segment context (childPath (labelOf above) name) name
        let path ← place done (childPath (labelOf above) name) (pathOf base context above) text
        .ok (done ++ [.makeDir path])
      else .ok done) := by
  have hreached : (Site.mk above (.directory name condition children)).isReached context = true :=
    habove
  rw [step, produce, if_pos hreached, label_eq]
  rfl

theorem step_file {name : String} {condition : Option Condition} {kind : FileKind}
    {content : String} {mode : Option Nat} (habove : above.all (Node.holds context) = true) :
    step base context done ⟨above, .file name condition kind content mode⟩ =
      visit context (labelOf above) (pathOf base context above) done
        (.file name condition kind content mode) := by
  have hreached : (Site.mk above (.file name condition kind content mode)).isReached context =
    true := habove
  rw [step, produce, if_pos hreached, label_eq, visit]
  rfl

mutual

-- A visit goes from node to node. Where a directory is left out, what is in it is passed over.
theorem visit_eq_foldlM {above : List Node} {done : List Operation}
    (habove : above.all (Node.holds context) = true) : ∀ n : Node,
    visit context (labelOf above) (pathOf base context above) done n =
      (n.sites above).foldlM (step base context) done
  | .directory name condition children => by
    rw [visit, Node.sites, List.foldlM_cons, step_directory habove, bind_assoc]
    refine bind_congr_ok fun included hincluded => ?_
    cases included with
    | false =>
      refine (foldlM_step_of_not_reached fun s hs => ?_).symm
      obtain ⟨below, hbelow⟩ := above_prefix_of_mem_sitesAll children hs
      have hholds : (Node.directory name condition children).holds context = false := by
        rw [Bool.eq_false_iff, Ne, holds_iff, Node.condition, hincluded]
        simp
      simp [Site.isReached, ← hbelow, hholds]
    | true =>
      have hholds : (Node.directory name condition children).holds context = true :=
        holds_iff.mpr hincluded
      have hall : (above ++ [Node.directory name condition children]).all (Node.holds context) =
        true := by simp [habove, hholds]
      simp only [if_true, bind_assoc]
      refine bind_congr_ok fun text hsegment => bind_congr_ok fun path hplace => ?_
      have hlabel := labelOf_concat above (.directory name condition children)
      have hpath := pathOf_concat base above (n := .directory name condition children)
        (segment_eq_ok_iff.mp hsegment).1
      have hchildren : visitAll context _ (pathOf base context _) (done ++ [.makeDir path])
          children = _ := visitAll_eq_foldlM hall children
      rw [hpath, hlabel, ← (place_eq_ok hplace).1] at hchildren
      exact hchildren
  | .file name condition kind content mode => by
    rw [Node.sites, List.foldlM_cons, step_file habove]
    simp only [List.foldlM_nil, bind_pure]

theorem visitAll_eq_foldlM {above : List Node} {done : List Operation}
    (habove : above.all (Node.holds context) = true) : ∀ ns : List Node,
    visitAll context (labelOf above) (pathOf base context above) done ns =
      (Node.sitesAll above ns).foldlM (step base context) done
  | [] => rfl
  | n :: rest => by
    rw [visitAll, Node.sitesAll, List.foldlM_append, visit_eq_foldlM habove n]
    exact bind_congr_ok fun between _ => visitAll_eq_foldlM habove rest

end

end Walk

end Plan

end Skeleton
