import Skeleton.Proofs.Blueprint.Expansion

-- What includes what, and the calls that an expansion nests: they end, and the templates on their
-- stacks are those that lead to them.

namespace Skeleton

open Relation (ReflTransGen TransGen)

def NodeDraft.Holds (n child : NodeDraft) : Prop :=
  ∃ name, n.role? = some (.directory name) ∧ child ∈ n.children

-- A draft includes a template itself, or at any depth of its directories.
def NodeDraft.Includes (n : NodeDraft) (template : String) : Prop :=
  ∃ inner, ReflTransGen NodeDraft.Holds n inner ∧ inner.role? = some (.included template)

namespace Sources

def Offers (s : Sources) (template : String) (n : NodeDraft) : Prop :=
  ∃ drafts, s.templates.get? template = some drafts ∧ n ∈ drafts

def Includes (s : Sources) (template other : String) : Prop :=
  ∃ n, s.Offers template n ∧ n.Includes other

-- That a template which includes itself, if only through others, can be reached from a draft.
def Circular (s : Sources) (root : NodeDraft) : Prop :=
  ∃ first template, root.Includes first ∧ ReflTransGen s.Includes first template ∧
    TransGen s.Includes template template

-- Templates that include one another from a draft on, each but the last for the first time.
structure IsRound (s : Sources) (root : NodeDraft) (chain : List String) : Prop where
  first : ∀ template ∈ chain.head?, root.Includes template
  linked : chain.IsChain s.Includes
  closed : ∃ before last, chain = before ++ [last] ∧ before.Nodup ∧ before.count last = 1

-- What the expansion of a draft expands in turn: what is in a directory, and what a template offers
-- that is not being put in yet. Every draft goes with the templates that are being put in.
inductive Calls (s : Sources) : List String × NodeDraft → List String × NodeDraft → Prop where
  | child {stack n child} (h : n.Holds child) : Calls s (stack, n) (stack, child)
  | inner {stack n template child} (hrole : n.role? = some (.included template))
      (hout : template ∉ stack) (hoffers : s.Offers template child) :
      Calls s (stack, n) (stack ++ [template], child)

section Calls

variable {s : Sources} {stack : List String} {n child : NodeDraft} {template other : String}

noncomputable def work (s : Sources) (c : List String × NodeDraft) : Nat :=
  s.unused c.1 * sizeOf s.templates.entries + sizeOf c.2

theorem work_lt_of_calls {c c' : List String × NodeDraft} (h : s.Calls c c') :
    s.work c' < s.work c := by
  cases h with
  | @child stack n child h =>
    obtain ⟨-, -, hmem⟩ := h
    have hchild := List.sizeOf_lt_of_mem hmem
    have hchildren : sizeOf n.children < sizeOf n := by
      cases n
      simp only [NodeDraft.mk.sizeOf_spec]
      omega
    simp only [work]
    omega
  | inner hrole hout hoffers =>
    obtain ⟨drafts, hdrafts, hmem⟩ := hoffers
    have hchild := List.sizeOf_lt_of_mem hmem
    have hwork := Sources.work_lt hdrafts hout
    simp only [work]
    omega

-- Calls nest only so deep.
theorem wellFounded_calls (s : Sources) : WellFounded fun c c' => s.Calls c' c :=
  Subrelation.wf work_lt_of_calls (InvImage.wf s.work wellFounded_lt)

-- What the stack of a call tells about the way from a draft to it: whatever the draft of the call
-- includes continues the includes on the stack, and those are not repeated.
structure Follows (s : Sources) (root : NodeDraft) (c : List String × NodeDraft) : Prop where
  nodup : c.1.Nodup
  known : c.1 ⊆ s.templates.keys
  first : ∀ other, c.2.Includes other → ∀ template ∈ (c.1 ++ [other]).head?, root.Includes template
  linked : ∀ other, c.2.Includes other → (c.1 ++ [other]).IsChain s.Includes

theorem includes_of_holds (h : n.Holds child) (hchild : child.Includes other) :
    n.Includes other := by
  obtain ⟨inner, hinner, hrole⟩ := hchild
  exact ⟨inner, .head h hinner, hrole⟩

theorem includes_of_role (h : n.role? = some (.included template)) : n.Includes template :=
  ⟨n, .refl, h⟩

theorem follows_root (s : Sources) (root : NodeDraft) : s.Follows root ([], root) where
  nodup := List.nodup_nil
  known := List.nil_subset _
  first other h template htemplate := by
    obtain rfl := Option.some.inj htemplate
    exact h
  linked other _ := List.isChain_singleton other

theorem Follows.call {root : NodeDraft} {c c' : List String × NodeDraft} (h : s.Follows root c)
    (hcall : s.Calls c c') : s.Follows root c' := by
  cases hcall with
  | child hholds =>
    exact ⟨h.nodup, h.known, fun other hother => h.first other (includes_of_holds hholds hother),
      fun other hother => h.linked other (includes_of_holds hholds hother)⟩
  | @inner stack n template child hrole hout hoffers =>
    have htemplate := includes_of_role hrole
    have hlinked : (stack ++ [template]).IsChain s.Includes := h.linked template htemplate
    have hfirst := h.first template htemplate
    refine ⟨?_, ?_, ?_, ?_⟩
    · have hnodup := h.nodup.concat hout
      rwa [List.concat_eq_append] at hnodup
    · obtain ⟨drafts, hdrafts, -⟩ := hoffers
      have hkey : template ∈ s.templates.keys := Dictionary.mem_keys_of_get? (by simp [hdrafts])
      exact List.append_subset.mpr ⟨h.known, by simpa using hkey⟩
    · intro other _ first hhead
      refine hfirst first ?_
      simpa [List.head?_append] using hhead
    · intro other hother
      have hlast : s.Includes template other := ⟨child, hoffers, hother⟩
      refine List.isChain_append.mpr ⟨hlinked, List.isChain_singleton other, ?_⟩
      simpa using hlast

theorem follows_of_calls {root : NodeDraft} {c : List String × NodeDraft}
    (h : ReflTransGen s.Calls ([], root) c) : s.Follows root c := by
  induction h with
  | refl => exact follows_root s root
  | tail _ hcall ih => exact ih.call hcall

-- No more templates are being put in at a time than there are.
theorem length_le_of_calls {root : NodeDraft} (h : ReflTransGen s.Calls ([], root) (stack, n)) :
    stack.length ≤ s.templates.size := by
  have hfollows := follows_of_calls h
  have hlength := (hfollows.nodup.subperm hfollows.known).length_le
  rwa [Dictionary.keys, List.length_map] at hlength

-- An include of a template that is being put in closes a round.
theorem isRound_of_calls {root : NodeDraft} (h : ReflTransGen s.Calls ([], root) (stack, n))
    (hrole : n.role? = some (.included template)) (hin : template ∈ stack) :
    s.IsRound root (stack ++ [template]) := by
  have hfollows := follows_of_calls h
  have htemplate := includes_of_role hrole
  exact ⟨hfollows.first template htemplate, hfollows.linked template htemplate, stack, template,
    rfl, hfollows.nodup, List.count_eq_one_of_mem hfollows.nodup hin⟩

end Calls

section Expands

variable {s : Sources} {stack : List String} {drafts : List NodeDraft} {nodes : List Node}
  {n child : NodeDraft} {template other : String}

def Succeeds (s : Sources) (c : List String × NodeDraft) : Prop :=
  ∃ nodes, Expands s c.1 [c.2] nodes

def Enters (s : Sources) (stack : List String) (template : String) : Prop :=
  ∀ child, s.Offers template child → s.Succeeds (stack ++ [template], child)

theorem succeeds_of_mem (h : Expands s stack drafts nodes) (hn : n ∈ drafts) :
    s.Succeeds (stack, n) := by
  induction h with
  | nil => cases hn
  | directory hrole hname hown hchildren _ _ ih =>
    rcases List.mem_cons.mp hn with rfl | hn
    · exact ⟨_, .directory hrole hname hown hchildren .nil⟩
    · exact ih hn
  | file hrole hname hown hcontent hreadable hmode _ ih =>
    rcases List.mem_cons.mp hn with rfl | hn
    · exact ⟨_, .file hrole hname hown hcontent hreadable hmode .nil⟩
    · exact ih hn
  | included hrole hown hout hdrafts hinner _ _ ih =>
    rcases List.mem_cons.mp hn with rfl | hn
    · exact ⟨_, .included hrole hown hout hdrafts hinner .nil⟩
    · exact ih hn

theorem Succeeds.holds (h : s.Succeeds (stack, n)) (hholds : n.Holds child) :
    s.Succeeds (stack, child) := by
  obtain ⟨name, hrole, hchild⟩ := hholds
  obtain ⟨nodes, h⟩ := h
  cases h with
  | directory hrole' _ _ hchildren _ => exact succeeds_of_mem hchildren hchild
  | file hrole' => cases hrole.symm.trans hrole'
  | included hrole' => cases hrole.symm.trans hrole'

theorem Succeeds.included (h : s.Succeeds (stack, n))
    (hrole : n.role? = some (.included template)) : template ∉ stack ∧ s.Enters stack template := by
  obtain ⟨nodes, h⟩ := h
  cases h with
  | directory hrole' => cases hrole.symm.trans hrole'
  | file hrole' => cases hrole.symm.trans hrole'
  | included hrole' _ hout hdrafts hinner _ =>
    obtain ⟨⟩ := hrole.symm.trans hrole'
    refine ⟨hout, ?_⟩
    rintro child ⟨drafts, hdrafts', hchild⟩
    obtain rfl := Option.some.inj (hdrafts.symm.trans hdrafts')
    exact succeeds_of_mem hinner hchild

theorem Succeeds.includes (h : s.Succeeds (stack, n)) (hincludes : n.Includes template) :
    template ∉ stack ∧ s.Enters stack template := by
  obtain ⟨inner, hholds, hrole⟩ := hincludes
  have hinner : s.Succeeds (stack, inner) := by
    clear hrole
    induction hholds with
    | refl => exact h
    | tail _ hlast ih => exact ih.holds hlast
  exact hinner.included hrole

theorem Enters.includes (h : s.Enters stack template) (hincludes : s.Includes template other) :
    other ∉ stack ++ [template] ∧ s.Enters (stack ++ [template]) other := by
  obtain ⟨n, hoffers, hn⟩ := hincludes
  exact (h n hoffers).includes hn

-- Whatever a template leads to was not being put in with it.
theorem Enters.transGen (h : s.Enters stack template)
    (hincludes : TransGen s.Includes template other) :
    ∃ longer, template ∈ longer ∧ other ∉ longer ∧ s.Enters longer other := by
  induction hincludes with
  | single hfirst =>
    obtain ⟨hout, henters⟩ := h.includes hfirst
    exact ⟨stack ++ [template], by simp, hout, henters⟩
  | tail _ hlast ih =>
    obtain ⟨longer, hin, -, henters⟩ := ih
    obtain ⟨hout, henters⟩ := henters.includes hlast
    exact ⟨_, by simp [hin], hout, henters⟩

theorem Enters.reflTransGen (h : s.Enters stack template)
    (hincludes : ReflTransGen s.Includes template other) : ∃ longer, s.Enters longer other := by
  induction hincludes with
  | refl => exact ⟨stack, h⟩
  | tail _ hlast ih =>
    obtain ⟨longer, henters⟩ := ih
    exact ⟨_, (henters.includes hlast).2⟩

theorem not_circular_of_expands {root : NodeDraft} (h : Expands s [] [root] nodes) :
    ¬s.Circular root := by
  rintro ⟨first, template, hroot, hreach, hback⟩
  have hsucceeds : s.Succeeds ([], root) := ⟨nodes, h⟩
  obtain ⟨stack, henters⟩ := (hsucceeds.includes hroot).2.reflTransGen hreach
  obtain ⟨longer, hin, hout, -⟩ := henters.transGen hback
  exact hout hin

end Expands

end Sources

end Skeleton
