import Mathlib.Data.List.Nodup
import Mathlib.Tactic.SplitIfs
import Skeleton.Plan.Basic
import Skeleton.Proofs.Except
import Skeleton.Proofs.Path

-- The shape of plans: what is produced stands right below the base of a plan, or in a directory
-- that an operation before it makes.

namespace Skeleton

-- A name that is one segment of a path on every platform.
structure IsSegment (name : String) : Prop where
  notEmpty : name ≠ ""
  notHere : name ≠ "."
  notUp : name ≠ ".."
  noSlash : '/' ∉ name.toList
  noBackslash : '\\' ∉ name.toList
  noNul : '\x00' ∉ name.toList

theorem IsSegment.isPlain {name : String} (h : IsSegment name) : Path.IsPlain name :=
  ⟨by simp [Path.isIdle, h.notEmpty, h.notHere], h.notUp⟩

theorem isPlain_of_isSegment {names : List String} (h : ∀ n ∈ names, IsSegment n) :
    ∀ n ∈ names, Path.IsPlain n := fun n hn => (h n hn).isPlain

theorem isSegment_of_segmentFault? {name : String} (h : segmentFault? name = none) :
    IsSegment name := by
  simp only [segmentFault?] at h
  split_ifs at h with hempty hrelative hseparator hnul
  obtain ⟨hhere, hup⟩ := not_or.mp hrelative
  obtain ⟨hslash, hbackslash⟩ := not_or.mp hseparator
  exact ⟨hempty, hhere, hup, hslash, hbackslash, hnul⟩

theorem segmentFault?_of_isSegment {name : String} (h : IsSegment name) :
    segmentFault? name = none := by
  simp [segmentFault?, h.notEmpty, h.notHere, h.notUp, h.noSlash, h.noBackslash, h.noNul]

namespace Plan

inductive Grown (base : Path) : List Operation → Prop where
  | nil : Grown base []
  | first {o name} (hname : IsSegment name) (hpath : o.path = base.join (.ofName name)) :
      Grown base [o]
  | next {operations o dir name} (h : Grown base operations) (hdir : .makeDir dir ∈ operations)
      (hname : IsSegment name) (hpath : o.path = dir.join (.ofName name))
      (hnew : o.path ∉ operations.map Operation.path) : Grown base (operations ++ [o])

def Opens (base : Path) (done : List Operation) (dir : Path) : Prop :=
  (done = [] ∧ dir = base) ∨ .makeDir dir ∈ done

section Visit

variable {context : Context} {base out path : Path} {node name text : String}
  {done done' : List Operation}

theorem isSegment_of_segment (h : segment context node name = .ok text) : IsSegment text := by
  obtain ⟨s, -, h⟩ := bind_eq_ok_iff.mp h
  cases hfault : segmentFault? s with
  | none =>
    simp only [hfault] at h
    obtain rfl := Except.ok.inj h
    exact isSegment_of_segmentFault? hfault
  | some fault => simp [hfault] at h

theorem place_eq_ok (h : place done node out name = .ok path) :
    path = out.join (.ofName name) ∧ path ∉ done.map Operation.path := by
  simp only [place] at h
  split at h
  · cases h
  · rename_i hnew
    obtain rfl := Except.ok.inj h
    exact ⟨rfl, hnew⟩

theorem Grown.concat {o : Operation} (h : Grown base done) (hout : Opens base done out)
    (hname : IsSegment name) (hplace : place done node out name = .ok o.path) :
    Grown base (done ++ [o]) := by
  obtain ⟨hpath, hnew⟩ := place_eq_ok hplace
  rcases hout with ⟨rfl, rfl⟩ | hdir
  · exact .first hname hpath
  · exact .next h hdir hname hpath hnew

mutual

-- Operations are added behind those that are there, in directories that are made before.
theorem grown_visit {parent : String} {out : Path} {done done' : List Operation}
    (hdone : Grown base done) (hout : Opens base done out) : ∀ n : Node,
    visit context parent out done n = .ok done' → Grown base done' ∧ done ⊆ done'
  | .directory name condition children, h => by
    simp only [visit, bind_eq_ok_iff] at h
    obtain ⟨included, -, h⟩ := h
    cases included with
    | false =>
      obtain rfl := Except.ok.inj h
      exact ⟨hdone, List.Subset.refl _⟩
    | true =>
      obtain ⟨segment, hsegment, h⟩ := bind_eq_ok_iff.mp h
      obtain ⟨path, hplace, h⟩ := bind_eq_ok_iff.mp h
      have hname := isSegment_of_segment hsegment
      have hgrown := hdone.concat (o := .makeDir path) hout hname hplace
      have hdir : .makeDir path ∈ done ++ [.makeDir path] := by simp
      obtain ⟨hall, hsub⟩ := grown_visitAll hgrown hdir children h
      exact ⟨hall, List.Subset.trans (List.subset_append_left _ _) hsub⟩
  | .file name condition kind content mode, h => by
    simp only [visit, bind_eq_ok_iff] at h
    obtain ⟨included, -, h⟩ := h
    cases included with
    | false =>
      obtain rfl := Except.ok.inj h
      exact ⟨hdone, List.Subset.refl _⟩
    | true =>
      obtain ⟨segment, hsegment, h⟩ := bind_eq_ok_iff.mp h
      obtain ⟨path, hplace, h⟩ := bind_eq_ok_iff.mp h
      obtain ⟨text, -, h⟩ := bind_eq_ok_iff.mp h
      obtain rfl := Except.ok.inj h
      have hname := isSegment_of_segment hsegment
      have hgrown := hdone.concat (o := .writeFile path text mode) hout hname hplace
      exact ⟨hgrown, List.subset_append_left _ _⟩

theorem grown_visitAll {parent : String} {dir : Path} {done done' : List Operation}
    (hdone : Grown base done) (hdir : .makeDir dir ∈ done) : ∀ nodes : List Node,
    visitAll context parent dir done nodes = .ok done' → Grown base done' ∧ done ⊆ done'
  | [], h => by
    obtain rfl := Except.ok.inj h
    exact ⟨hdone, List.Subset.refl _⟩
  | n :: rest, h => by
    simp only [visitAll, bind_eq_ok_iff] at h
    obtain ⟨between, hfirst, h⟩ := h
    obtain ⟨hgrown, hsub⟩ := grown_visit hdone (.inr hdir) n hfirst
    obtain ⟨hall, hsub'⟩ := grown_visitAll hgrown (hsub hdir) rest h
    exact ⟨hall, List.Subset.trans hsub hsub'⟩

end

theorem grown_of_build {outline : Outline} {plan : Plan}
    (h : Plan.build base outline context = .ok plan) : Grown base plan.operations := by
  unfold build at h
  cases hvisit : visit context "" base [] outline.root with
  | error fault => simp [hvisit, Except.map] at h
  | ok operations =>
    simp only [hvisit, Except.map, Except.ok.injEq] at h
    subst h
    exact (grown_visit .nil (.inl ⟨rfl, rfl⟩) outline.root hvisit).1

end Visit

section Grown

variable {base : Path} {operations : List Operation} {o : Operation}

-- Every path leads down from the base.
theorem Grown.descends (h : Grown base operations) (ho : o ∈ operations) :
    ∃ names, names ≠ [] ∧ (∀ n ∈ names, IsSegment n) ∧ o.path = base.descend names := by
  induction h generalizing o with
  | nil => simp at ho
  | @first o' name hname hpath =>
    obtain rfl := List.mem_singleton.mp ho
    exact ⟨[name], by simp, by simpa using hname, hpath⟩
  | @next operations o' dir name _ hdir hname hpath _ ih =>
    rcases List.mem_append.mp ho with ho | ho
    · exact ih ho
    · obtain rfl := List.mem_singleton.mp ho
      obtain ⟨names, -, hnames, hdescend⟩ := ih hdir
      refine ⟨names ++ [name], by simp, ?_, ?_⟩
      · intro n hn
        rcases List.mem_append.mp hn with hn | hn
        · exact hnames n hn
        · exact List.mem_singleton.mp hn ▸ hname
      · rw [Path.descend_concat, ← hdescend]
        exact hpath

theorem Grown.nodup (h : Grown base operations) : (operations.map Operation.path).Nodup := by
  induction h with
  | nil => simp
  | first => simp
  | next _ _ _ _ hnew ih =>
    rw [List.map_append, List.nodup_append]
    refine ⟨ih, by simp, ?_⟩
    intro path hpath other hother
    obtain rfl := List.mem_singleton.mp hother
    exact fun heq => hnew (heq ▸ hpath)

theorem Grown.parent (h : Grown base operations) {before after : List Operation}
    (hsplit : operations = before ++ o :: after) :
    (before = [] → ∃ name, IsSegment name ∧ o.path = base.join (.ofName name)) ∧
      (before ≠ [] → ∃ dir, o.path.parent? = some dir ∧ .makeDir dir ∈ before) := by
  induction h generalizing after with
  | nil => simp at hsplit
  | @first o' name hname hpath =>
    cases before with
    | nil =>
      obtain ⟨rfl, -⟩ := List.cons.inj hsplit
      exact ⟨fun _ => ⟨name, hname, hpath⟩, fun hne => absurd rfl hne⟩
    | cons => simp at hsplit
  | @next operations o' dir name h hdir hname hpath _ ih =>
    cases after using List.reverseRecOn with
    | nil =>
      obtain ⟨rfl, rfl⟩ : operations = before ∧ o' = o := by
        simpa using List.append_inj' hsplit rfl
      have hne : operations ≠ [] := List.ne_nil_of_mem hdir
      obtain ⟨names, hnames, hsegments, hdescend⟩ := h.descends hdir
      obtain rfl : dir = base.descend names := hdescend
      have hparent := Path.parent?_descend_concat base (isPlain_of_isSegment hsegments) hnames
        hname.isPlain
      rw [Path.descend_concat, ← hpath] at hparent
      exact ⟨fun hnil => absurd hnil hne, fun _ => ⟨_, hparent, hdir⟩⟩
    | append_singleton after last =>
      rw [← List.cons_append, ← List.append_assoc] at hsplit
      obtain ⟨rfl, -⟩ := List.append_inj' hsplit rfl
      exact ih rfl

-- On the way from the base to what is produced there are only directories that are produced.
theorem Grown.makeDir_mem (h : Grown base operations) (ho : o ∈ operations)
    {above below : List String} (habove : above ≠ []) (hbelow : below ≠ [])
    (hplain : ∀ n ∈ above ++ below, Path.IsPlain n)
    (hpath : o.path = base.descend (above ++ below)) :
    .makeDir (base.descend above) ∈ operations := by
  induction h generalizing o below with
  | nil => simp at ho
  | @first o' name hname hpath' =>
    obtain rfl := List.mem_singleton.mp ho
    have hsame : base.descend [name] = base.descend (above ++ below) := hpath'.symm.trans hpath
    have hnames := Path.eq_of_descend (by simpa using hname.isPlain) hplain hsame
    have hlength := congrArg List.length hnames
    have habove := List.length_pos_iff.mpr habove
    have hbelow := List.length_pos_iff.mpr hbelow
    simp only [List.length_append, List.length_singleton] at hlength
    omega
  | @next operations o' dir name h hdir hname hpath' _ ih =>
    rcases List.mem_append.mp ho with ho | ho
    · exact List.mem_append_left _ (ih ho hbelow hplain hpath)
    · obtain rfl := List.mem_singleton.mp ho
      obtain ⟨names, -, hsegments, hdescend⟩ := h.descends hdir
      obtain rfl : dir = base.descend names := hdescend
      have hsame : base.descend (names ++ [name]) = base.descend (above ++ below) := by
        rw [Path.descend_concat, ← hpath', hpath]
      have hplain' : ∀ n ∈ names ++ [name], Path.IsPlain n := by
        intro n hn
        rcases List.mem_append.mp hn with hn | hn
        · exact (hsegments n hn).isPlain
        · exact List.mem_singleton.mp hn ▸ hname.isPlain
      have hnames := Path.eq_of_descend hplain' hplain hsame
      cases below using List.reverseRecOn with
      | nil => exact absurd rfl hbelow
      | append_singleton below last =>
        rw [← List.append_assoc] at hnames
        obtain ⟨rfl, -⟩ := List.append_inj' hnames rfl
        by_cases hnil : below = []
        · subst hnil
          rw [List.append_nil] at hdir
          exact List.mem_append_left _ hdir
        · exact List.mem_append_left _ (ih hdir hnil (isPlain_of_isSegment hsegments) rfl)

-- Different operations are about different paths, whatever their texts.
theorem Grown.eq_of_components (h : Grown base operations) {o' : Operation} (ho : o ∈ operations)
    (ho' : o' ∈ operations) (heq : o.path.components = o'.path.components) : o = o' := by
  obtain ⟨names, -, hnames, hpath⟩ := h.descends ho
  obtain ⟨names', -, hnames', hpath'⟩ := h.descends ho'
  rw [hpath, hpath'] at heq
  have hsame := Path.eq_of_components_descend (isPlain_of_isSegment hnames)
    (isPlain_of_isSegment hnames') heq
  apply List.inj_on_of_nodup_map h.nodup ho ho'
  rw [hpath, hpath', hsame]

theorem Grown.eq_of_above_writeFile (h : Grown base operations) {path : Path} {content : String}
    {mode : Option Nat} (hfile : .writeFile path content mode ∈ operations) (ho : o ∈ operations)
    (habove : path.components <+: o.path.components) : o = .writeFile path content mode := by
  obtain ⟨names, hne, hnames, hpath⟩ := h.descends hfile
  obtain ⟨names', -, hnames', hpath'⟩ := h.descends ho
  obtain rfl : path = base.descend names := hpath
  rw [hpath'] at habove
  obtain ⟨below, rfl⟩ := Path.append_of_components_descend (isPlain_of_isSegment hnames)
    (isPlain_of_isSegment hnames') habove
  by_cases hbelow : below = []
  · rw [hbelow, List.append_nil] at hpath'
    exact h.eq_of_components ho hfile (congrArg Path.components hpath')
  · have hdir := h.makeDir_mem ho hne hbelow (isPlain_of_isSegment hnames') hpath'
    have hsame := h.eq_of_components hdir hfile rfl
    cases hsame

end Grown

-- Operations on paths that are a base with segments behind it. The paths differ, the directory of
-- each one is made before, and files hold nothing.
structure Confined (base : Path) (operations : List Operation) : Prop where
  below : ∀ o ∈ operations, ∃ names, names ≠ [] ∧ (∀ n ∈ names, IsSegment n) ∧
    o.path = base.descend names ∧ o.path.components = base.components ++ names.map .name
  distinct : (operations.map fun o => o.path.components).Nodup
  first : ∀ o rest, operations = o :: rest →
    ∃ name, IsSegment name ∧ o.path = base.join (.ofName name)
  madeBefore : ∀ before o after, operations = before ++ o :: after → before ≠ [] →
    ∃ dir, o.path.parent? = some dir ∧ .makeDir dir ∈ before
  leaves : ∀ path content mode, .writeFile path content mode ∈ operations →
    ∀ o ∈ operations, path.components <+: o.path.components → o = .writeFile path content mode

-- Every plan is confined to its base, whatever the variables are.
theorem confined_of_build {base : Path} {outline : Outline} {context : Context} {plan : Plan}
    (h : Plan.build base outline context = .ok plan) : Confined base plan.operations := by
  have hgrown := grown_of_build h
  constructor
  case below =>
    intro o ho
    obtain ⟨names, hne, hnames, hpath⟩ := hgrown.descends ho
    have hcomponents := Path.components_descend base (isPlain_of_isSegment hnames)
    exact ⟨names, hne, hnames, hpath, hpath ▸ hcomponents⟩
  case distinct =>
    have hoperations := List.Nodup.of_map _ hgrown.nodup
    exact hoperations.map_on fun o ho o' ho' heq => hgrown.eq_of_components ho ho' heq
  case first =>
    intro o rest hsplit
    have hfirst : plan.operations = [] ++ o :: rest := hsplit
    exact (hgrown.parent hfirst).1 rfl
  case madeBefore =>
    intro before o after hsplit hbefore
    exact (hgrown.parent hsplit).2 hbefore
  case leaves =>
    intro path content mode hfile o ho habove
    exact hgrown.eq_of_above_writeFile hfile ho habove

def crate : Outline where
  root := .directory "{{ name }}" none
    [.file "{{ name }}.md" none .template "# {{ name }}" none,
      .directory "bin" none [.file "run" none .literal "{{ name }}" (some 0o755)]]
  schema := .empty
  checked := by rfl

def named (name : String) : Context := ⟨[⟨"names", Dictionary.empty.insert "name" (.string name)⟩]⟩

def crateOperations : List Operation :=
  [.makeDir ⟨["out", "lyra"]⟩, .writeFile ⟨["out", "lyra", "lyra.md"]⟩ "# lyra" none,
    .makeDir ⟨["out", "lyra", "bin"]⟩,
    .writeFile ⟨["out", "lyra", "bin", "run"]⟩ "{{ name }}" (some 0o755)]

theorem build_crate : Plan.build ⟨["out", ""]⟩ crate (named "lyra") = .ok ⟨crateOperations⟩ := by
  cbv

theorem confined_crate :
    Plan.build ⟨["out", ""]⟩ crate (named "lyra") = .ok ⟨crateOperations⟩ ∧
      Confined ⟨["out", ""]⟩ crateOperations :=
  ⟨build_crate, confined_of_build build_crate⟩

end Plan

end Skeleton
