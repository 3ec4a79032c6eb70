import Skeleton.Proofs.Condition.Guards
import Skeleton.Proofs.Outline.Checking
import Skeleton.Proofs.Plan.Gates

-- Gates in front of the conditions of a tree. Where each of them passes the check by itself, the
-- tree is accepted or refused as it would be without them, unless it is refused without them for a
-- condition of the wrong kind.

namespace Skeleton

open Condition (conjunction)

-- Trees, and the same trees with gates in front of their conditions. Every gate passes the check.
inductive Gating (schema : Schema) : List Node → List Node → Prop where
  | nil : Gating schema [] []
  | directory {gates name own children children' rest rest'}
      (hgates : ∀ gate ∈ gates, gate.check schema = .ok ())
      (hchildren : Gating schema children children') (hrest : Gating schema rest rest') :
      Gating schema (.directory name own children :: rest)
        (.directory name (conjunction (gates ++ own.toList)) children' :: rest')
  | file {gates name own kind content mode rest rest'}
      (hgates : ∀ gate ∈ gates, gate.check schema = .ok ()) (hrest : Gating schema rest rest') :
      Gating schema (.file name own kind content mode :: rest)
        (.file name (conjunction (gates ++ own.toList)) kind content mode :: rest')

-- Two outcomes with one fault, or with results that are related. Where the fault of the first one is
-- excused, the second one may be anything.
inductive Alike {ε α β : Type} (Excused : ε → Prop) (R : α → β → Prop) :
    Except ε α → Except ε β → Prop where
  | ok {a b} (h : R a b) : Alike Excused R (.ok a) (.ok b)
  | error (e) : Alike Excused R (.error e) (.error e)
  | excused {e y} (h : Excused e) : Alike Excused R (.error e) y

section Alike

variable {ε ε' α β γ δ : Type} {P : ε → Prop} {R : α → β → Prop} {S : γ → δ → Prop}
  {x : Except ε α} {y : Except ε β}

theorem Alike.bind {f : α → Except ε γ} {g : β → Except ε δ} (h : Alike P R x y)
    (hrest : ∀ a b, R a b → Alike P S (f a) (g b)) : Alike P S (x >>= f) (y >>= g) := by
  cases h with
  | ok h => exact hrest _ _ h
  | error e => exact .error e
  | excused h => exact .excused h

theorem alike_bind {f : α → Except ε γ} {g : α → Except ε δ}
    (hrest : ∀ a, x = .ok a → Alike P S (f a) (g a)) : Alike P S (x >>= f) (x >>= g) := by
  cases x with
  | ok a => exact hrest a rfl
  | error e => exact .error e

theorem Alike.mapError {Q : ε' → Prop} {f : ε → ε'} (h : Alike P R x y)
    (hf : ∀ e, P e → Q (f e)) : Alike Q R (x.mapError f) (y.mapError f) := by
  cases h with
  | ok h => exact .ok h
  | error e => exact .error (f e)
  | excused h => exact .excused (hf _ h)

theorem Alike.exists_of_ok {a : α} (h : Alike P R (.ok a) y) : ∃ b, y = .ok b ∧ R a b := by
  cases h with
  | ok h => exact ⟨_, rfl, h⟩

theorem Alike.exists_of_error {e : ε} (h : Alike P R x (.error e)) (he : P e) :
    ∃ e', x = .error e' ∧ P e' := by
  cases h with
  | error => exact ⟨e, rfl, he⟩
  | excused h => exact ⟨_, rfl, h⟩

end Alike

def BuildFault.IsOfKind (fault : BuildFault) : Prop := ∃ node e, fault = .conditionType node e

section Checks

variable {schema : Schema} {gates : List Condition} {own : Option Condition}
  {nodes nodes' more more' : List Node} {n n' : Node} {parent : String}

theorem check_conjunction {cs : List Condition} (h : ∀ c ∈ cs, c.check schema = .ok ()) :
    ∀ c, conjunction cs = some c → c.check schema = .ok () := by
  induction cs with
  | nil => exact nofun
  | cons first rest ih =>
    obtain ⟨hfirst, hrest⟩ := List.forall_mem_cons.mp h
    rintro c ⟨⟩
    cases hown : conjunction rest with
    | none => exact hfirst
    | some own => exact Condition.check_and hfirst (ih hrest own hown)

theorem checkSelf_alike (hgates : ∀ gate ∈ gates, gate.check schema = .ok ())
    (path name : String) : Alike BuildFault.IsOfKind Eq (Node.checkSelf schema path name own)
      (Node.checkSelf schema path name (conjunction (gates ++ own.toList))) := by
  cases hself : Node.checkSelf schema path name own with
  | ok =>
    obtain ⟨hname, hown⟩ := Node.checkSelf_eq_ok_iff.mp hself
    have hall : ∀ c, conjunction (gates ++ own.toList) = some c → c.check schema = .ok () :=
      check_conjunction (List.forall_mem_append.mpr ⟨hgates, by simpa using hown⟩)
    rw [Node.checkSelf_eq_ok_iff.mpr ⟨hname, hall⟩]
    exact .ok rfl
  | error fault =>
    rcases Node.checkSelf_eq_error_iff.mp hself with ⟨hblank, rfl⟩ | ⟨-, c, e, -, -, rfl⟩
    · rw [Node.checkSelf_eq_error_iff.mpr (.inl ⟨hblank, rfl⟩)]
      exact .error _
    · exact .excused ⟨path, e, rfl⟩

theorem checkChildren_cons_alike (hname : n'.name = n.name)
    (hcheck : Alike BuildFault.IsOfKind Eq (n.check schema parent) (n'.check schema parent))
    (hrest : ∀ seen, Alike BuildFault.IsOfKind Eq (Node.checkChildren schema parent seen nodes)
      (Node.checkChildren schema parent seen nodes')) (seen : List String) :
    Alike BuildFault.IsOfKind Eq (Node.checkChildren schema parent seen (n :: nodes))
      (Node.checkChildren schema parent seen (n' :: nodes')) := by
  rw [Node.checkChildren, Node.checkChildren, hname]
  by_cases hold : n.name ∈ seen
  · rw [if_pos hold, if_pos hold]
    exact .error _
  · rw [if_neg hold, if_neg hold]
    exact hcheck.bind fun _ _ _ => hrest _

-- By induction on the trees. Names are the same, so that what is used twice is used twice in both.
theorem checkChildren_alike (h : Gating schema nodes nodes') (parent : String)
    (seen : List String) : Alike BuildFault.IsOfKind Eq
      (Node.checkChildren schema parent seen nodes)
      (Node.checkChildren schema parent seen nodes') := by
  induction h generalizing parent seen with
  | nil => exact .ok rfl
  | directory hgates _ _ hchildren hrest =>
    refine checkChildren_cons_alike ?_ ?_ (hrest parent) seen
    · rfl
    · rw [Node.check, Node.check]
      exact (checkSelf_alike hgates _ _).bind fun _ _ _ => hchildren _ []
  | file hgates _ hrest =>
    refine checkChildren_cons_alike ?_ ?_ (hrest parent) seen
    · rfl
    · rw [Node.check, Node.check]
      exact checkSelf_alike hgates _ _

theorem check_alike (h : Gating schema [n] [n']) (parent : String) :
    Alike BuildFault.IsOfKind Eq (n.check schema parent) (n'.check schema parent) := by
  have hsingle (m : Node) : Node.checkChildren schema parent [] [m] = m.check schema parent := by
    simp only [Node.checkChildren, List.not_mem_nil, if_false]
    cases m.check schema parent <;> rfl
  rw [← hsingle n, ← hsingle n']
  exact checkChildren_alike h parent []

-- A node that passes the check passes it behind a gate that does.
theorem check_gated {gate : Condition} (hgate : gate.check schema = .ok ())
    (h : n.check schema parent = .ok ()) : (n.gated gate).check schema parent = .ok () := by
  rw [Node.check_eq_ok_iff_sound] at h ⊢
  obtain ⟨⟨hname, hown, hchildren⟩, hbelow⟩ := h
  have hcondition : (n.gated gate).condition = conjunction (gate :: n.condition.toList) := by
    rw [conjunction, Condition.conjunction_toList]
    cases n <;> rfl
  have hself : ∀ c, (n.gated gate).condition = some c → c.check schema = .ok () := by
    rw [hcondition]
    exact check_conjunction (List.forall_mem_cons.mpr ⟨hgate, by simpa using hown⟩)
  cases n <;> exact ⟨⟨hname, hself, hchildren⟩, hbelow⟩

theorem ofNode_of_check (h : n.check schema "" = .ok ()) :
    Outline.ofNode schema n = .ok ⟨n, schema, h⟩ :=
  Outline.ofNode_eq_ok_iff.mpr ⟨h, rfl, rfl⟩

theorem ofNode_alike (h : Gating schema [n] [n']) : Alike BuildFault.IsOfKind
    (fun outline outline' => Gating schema [outline.root] [outline'.root])
    (Outline.ofNode schema n) (Outline.ofNode schema n') := by
  have hcheck := check_alike h ""
  generalize hn : n.check schema "" = x at hcheck
  generalize hn' : n'.check schema "" = y at hcheck
  cases hcheck with
  | ok =>
    rw [ofNode_of_check hn, ofNode_of_check hn']
    exact .ok h
  | error fault =>
    rw [Outline.ofNode_eq_error_iff.mpr hn, Outline.ofNode_eq_error_iff.mpr hn']
    exact .error fault
  | excused hkind =>
    rw [Outline.ofNode_eq_error_iff.mpr hn]
    exact .excused hkind

end Checks

section Gates

variable {schema : Schema} {own : Option Condition} {nodes nodes' more more' : List Node}

theorem Gating.directory_self {name : String} (hchildren : Gating schema nodes nodes')
    (hrest : Gating schema more more') :
    Gating schema (.directory name own nodes :: more) (.directory name own nodes' :: more') := by
  have h : Gating schema (.directory name own nodes :: more)
      (.directory name (conjunction ([] ++ own.toList)) nodes' :: more') :=
    .directory (List.forall_mem_nil _) hchildren hrest
  rwa [List.nil_append, Condition.conjunction_toList] at h

theorem Gating.file_self {name content : String} {kind : FileKind} {mode : Option Nat}
    (hrest : Gating schema more more') :
    Gating schema (.file name own kind content mode :: more)
      (.file name own kind content mode :: more') := by
  have h : Gating schema (.file name own kind content mode :: more)
      (.file name (conjunction ([] ++ own.toList)) kind content mode :: more') :=
    .file (List.forall_mem_nil _) hrest
  rwa [List.nil_append, Condition.conjunction_toList] at h

-- Nodes that are put behind one more gate.
theorem Gating.gated {gate : Condition} (hgate : gate.check schema = .ok ())
    (h : Gating schema nodes nodes') : Gating schema nodes (nodes'.map (Node.gated gate)) := by
  induction h with
  | nil => exact .nil
  | directory hgates hchildren _ _ ih =>
    exact .directory (List.forall_mem_cons.mpr ⟨hgate, hgates⟩) hchildren ih
  | file hgates _ ih => exact .file (List.forall_mem_cons.mpr ⟨hgate, hgates⟩) ih

theorem Gating.append (h : Gating schema nodes nodes') (hmore : Gating schema more more') :
    Gating schema (nodes ++ more) (nodes' ++ more') := by
  induction h with
  | nil => exact hmore
  | directory hgates hchildren _ _ ih => exact .directory hgates hchildren ih
  | file hgates _ ih => exact .file hgates ih

theorem Gating.length_eq (h : Gating schema nodes nodes') : nodes.length = nodes'.length := by
  induction h with
  | nil => rfl
  | directory _ _ _ _ ih | file _ _ ih => exact congrArg (· + 1) ih

end Gates

end Skeleton
