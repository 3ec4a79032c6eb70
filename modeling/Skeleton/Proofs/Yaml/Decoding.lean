import Skeleton.Proofs.Dictionary
import Skeleton.Proofs.Except
import Skeleton.Yaml.Decoder

-- Which part of a document something was decoded from.

namespace Skeleton.Yaml

-- The parts of a tree without its keys. What an alias stands for is one of them.
inductive Tree.Contains : Tree → Tree → Prop
  | self (t : Tree) : Contains t t
  | target {m t part} (h : Contains t part) : Contains (.alias m t) part
  | item {m tag items t part} (hmem : t ∈ items) (h : Contains t part) :
      Contains (.sequence m tag items) part
  | value {m tag entries key t part} (hmem : (key, t) ∈ entries) (h : Contains t part) :
      Contains (.mapping m tag entries) part

theorem Tree.Contains.trans {t u v : Tree} (h : t.Contains u) (h' : u.Contains v) :
    t.Contains v := by
  induction h with
  | self => exact h'
  | target _ ih => exact .target (ih h')
  | item hmem _ ih => exact .item hmem (ih h')
  | value hmem _ ih => exact .value hmem (ih h')

structure Scalar where
  tag : Option String
  style : ScalarStyle
  text : String

def Tree.scalar? : Tree → Option Scalar
  | .alias _ target => target.scalar?
  | .scalar _ tag style text => some ⟨tag, style, text⟩
  | _ => none

def Tree.text? (t : Tree) : Option String := t.scalar?.map Scalar.text

def Tree.IsNull (t : Tree) : Prop :=
  ∃ s, t.scalar? = some s ∧ s.style = .plain ∧ (s.text = "" ∨ isNullWord s.text = true)

-- A mapping in a tree with some entries, or a place that is left empty and stands for none.
def Tree.HoldsMapping (t : Tree) (entries : List (Tree × Tree)) : Prop :=
  entries = [] ∨ ∃ m tag, t.Contains (.mapping m tag entries)

def HasEntry (entries : List (Tree × Tree)) (name : String) (value : Tree) : Prop :=
  ∃ key, (key, value) ∈ entries ∧ key.text? = some name

theorem hasEntry_append_singleton {entries : List (Tree × Tree)} {key value value' : Tree}
    {name : String} : HasEntry (entries ++ [(key, value)]) name value' ↔
      HasEntry entries name value' ∨ key.text? = some name ∧ value' = value := by
  simp only [HasEntry, List.mem_append, List.mem_singleton, Prod.mk.injEq]
  constructor
  · rintro ⟨key', hmem | ⟨rfl, rfl⟩, hkey⟩
    · exact .inl ⟨key', hmem, hkey⟩
    · exact .inr ⟨hkey, rfl⟩
  · rintro (⟨key', hmem, hkey⟩ | ⟨hkey, rfl⟩)
    · exact ⟨key', .inl hmem, hkey⟩
    · exact ⟨key, .inr ⟨rfl, rfl⟩, hkey⟩

theorem Tree.contains_of_hasEntry {t value : Tree} {entries : List (Tree × Tree)} {name : String}
    (h : t.HoldsMapping entries) (hentry : HasEntry entries name value) : t.Contains value := by
  obtain ⟨key, hmem, -⟩ := hentry
  rcases h with rfl | ⟨m, tag, h⟩
  · cases hmem
  · exact h.trans (.value hmem (.self value))

theorem locate_eq_ok_iff {α : Type} {path : DocumentPath} {m : Mark} {x : Except DecodeError α}
    {a : α} : locate path m x = .ok a ↔ x = .ok a :=
  mapError_eq_ok_iff

namespace Decoder

theorem wrongType_ne_ok {α : Type} (wanted : String) (tree : Tree) (a : α) :
    wrongType wanted tree ≠ .ok a := by
  induction tree using wrongType.induct with
  | case1 m target ih => exact ih
  | case2 m tag style s =>
    intro h
    obtain ⟨found, -, h⟩ := bind_eq_ok_iff.mp h
    cases h
  | case3 => exact nofun
  | case4 => exact nofun

variable {α σ : Type} {path : DocumentPath} {tree : Tree} {wanted : String}

section Scalars

variable {check : String → Except DecodeError α} {a : α}

theorem text_of_scalar (h : scalar wanted check path tree = .ok a) :
    ∃ s, tree.text? = some s ∧ check s = .ok a := by
  fun_induction scalar wanted check path tree with
  | case1 path m target ih => exact ih h
  | case2 path m tag style s => exact ⟨s, rfl, locate_eq_ok_iff.mp h⟩
  | case3 => exact absurd (locate_eq_ok_iff.mp h) (wrongType_ne_ok _ _ _)

theorem text?_of_text {s : String} (h : text path tree = .ok s) : tree.text? = some s := by
  obtain ⟨_, htext, hs⟩ := text_of_scalar h
  obtain rfl := Except.ok.inj hs
  exact htext

theorem text?_of_fieldName {known : List String} {name : String}
    (h : fieldName known path tree = .ok name) : tree.text? = some name := by
  obtain ⟨_, htext, hname⟩ := text_of_scalar h
  split at hname
  · obtain rfl := Except.ok.inj hname
    exact htext
  · cases hname

-- What holds of a tree that is decoded holds of one that may be left out, if aliases do not matter.
theorem of_optional {d : Decoder α} {P : Tree → Prop} (hd : ∀ path t, d path t = .ok a → P t)
    (halias : ∀ m t, P t → P (.alias m t)) (h : optional d path tree = .ok (some a)) : P tree := by
  fun_induction optional d path tree with
  | case1 path m target ih => exact halias m target (ih h)
  | case2 path tree =>
    obtain ⟨null, -, h⟩ := bind_eq_ok_iff.mp h
    split at h
    · cases h
    · obtain ⟨_, hok, ha⟩ := map_eq_ok_iff.mp h
      obtain rfl := Option.some.inj ha
      exact hd path tree hok

theorem isNull_of_optional {d : Decoder α} (h : optional d path tree = .ok none) :
    tree.IsNull := by
  fun_induction optional d path tree with
  | case1 path m target ih => exact ih h
  | case2 path tree =>
    obtain ⟨null, hnull, h⟩ := bind_eq_ok_iff.mp h
    split at h
    · rename_i htrue
      rw [htrue] at hnull
      unfold isNull at hnull
      split at hnull
      · rename_i m s
        have hword := Except.ok.inj hnull
        rw [Bool.or_eq_true, String.isEmpty_iff] at hword
        exact ⟨_, rfl, rfl, hword⟩
      · rename_i m tag s
        split at hnull
        · cases hnull
        · split at hnull
          · rename_i hword
            exact ⟨_, rfl, rfl, .inr hword⟩
          · cases hnull
      · cases hnull
    · obtain ⟨_, -, ha⟩ := map_eq_ok_iff.mp h
      cases ha

theorem scalar_of_meaningOf {found : Found}
    (h : alternative.meaningOf path tree = .ok (some found)) :
    ∃ s, tree.scalar? = some s ∧ foundOfScalar s.tag s.style s.text = .ok found := by
  fun_induction alternative.meaningOf path tree with
  | case1 path m target ih => exact ih h
  | case2 path m tag style s =>
    obtain ⟨_, hok, hsome⟩ := map_eq_ok_iff.mp h
    obtain rfl := Option.some.inj hsome
    exact ⟨⟨tag, style, s⟩, rfl, locate_eq_ok_iff.mp hok⟩
  | case3 => cases h

theorem scalar_of_alternative {name : String} {choose : Found → Option α}
    (h : alternative name choose path tree = .ok a) : ∃ s found, tree.scalar? = some s ∧
      foundOfScalar s.tag s.style s.text = .ok found ∧ choose found = some a := by
  obtain ⟨-, -, h⟩ := bind_eq_ok_iff.mp h
  obtain ⟨found?, hmeaning, h⟩ := bind_eq_ok_iff.mp h
  split at h
  · rename_i hchosen
    obtain rfl := Except.ok.inj h
    obtain ⟨found, rfl, hchoose⟩ := Option.bind_eq_some_iff.mp hchosen
    obtain ⟨s, hs, hfound⟩ := scalar_of_meaningOf hmeaning
    exact ⟨s, found, hs, hfound, hchoose⟩
  · cases h

theorem alternative_of_found {name text : String} {choose : Found → Option α} {mark : Mark}
    {style : ScalarStyle} {found : Found} (h : foundOfScalar none style text = .ok found)
    (hchoose : choose found = some a) :
    alternative name choose path (.scalar mark none style text) = .ok a := by
  simp only [alternative, untagged, untaggedAt, localTag?, Option.bind_none, Option.isSome_none,
    Bool.false_eq_true, if_false, alternative.meaningOf, h, locate, Except.mapError, Except.map,
    bind, Except.bind, Option.bind_some, hchoose]

end Scalars

section Lists

variable {d : Decoder α} {xs : List α}

theorem mem_of_items {index : Nat} {trees : List Tree} (h : items d path index trees = .ok xs) :
    ∀ x ∈ xs, ∃ path', ∃ t ∈ trees, d path' t = .ok x := by
  induction trees generalizing index xs with
  | nil =>
    obtain rfl := Except.ok.inj h
    exact List.forall_mem_nil _
  | cons tree trees ih =>
    obtain ⟨x, hx, h⟩ := bind_eq_ok_iff.mp h
    obtain ⟨rest, hrest, h⟩ := bind_eq_ok_iff.mp h
    obtain rfl := Except.ok.inj h
    refine List.forall_mem_cons.mpr ⟨⟨_, tree, List.mem_cons_self, hx⟩, fun y hy => ?_⟩
    obtain ⟨path', t, hmem, hok⟩ := ih hrest y hy
    exact ⟨path', t, List.mem_cons_of_mem _ hmem, hok⟩

theorem contains_of_list (h : list d path tree = .ok xs) :
    ∀ x ∈ xs, ∃ path' t, tree.Contains t ∧ d path' t = .ok x := by
  fun_induction list d path tree with
  | case1 path m target ih =>
    intro x hx
    obtain ⟨path', t, hpart, hok⟩ := ih h x hx
    exact ⟨path', t, .target hpart, hok⟩
  | case2 path m tag parts =>
    intro x hx
    obtain ⟨path', t, hmem, hok⟩ := mem_of_items (locate_eq_ok_iff.mp h) x hx
    exact ⟨path', t, .item hmem (.self t), hok⟩
  | case3 =>
    obtain rfl := Except.ok.inj h
    exact List.forall_mem_nil _
  | case4 => exact absurd (locate_eq_ok_iff.mp h) (wrongType_ne_ok _ _ _)
  | case5 => exact absurd (locate_eq_ok_iff.mp h) (wrongType_ne_ok _ _ _)

end Lists

section Mappings

variable {d : Decoder α} {a : α} {known : List String}
  {read : DocumentPath → List (Tree × Tree) → Except DecodeError α}

theorem holdsMapping_of_mapping (h : mapping wanted read path tree = .ok a) :
    ∃ entries, tree.HoldsMapping entries ∧ ∃ path', read path' entries = .ok a := by
  fun_induction mapping wanted read path tree with
  | case1 path m target ih =>
    obtain ⟨entries, hholds, hread⟩ := ih h
    exact ⟨entries, hholds.imp_right fun ⟨m, tag, h⟩ => ⟨m, tag, .target h⟩, hread⟩
  | case2 path m tag entries =>
    exact ⟨entries, .inr ⟨m, tag, .self _⟩, path, locate_eq_ok_iff.mp h⟩
  | case3 path tree halias hmapping =>
    have h := locate_eq_ok_iff.mp h
    split at h
    · split at h
      · exact ⟨[], .inl rfl, path, h⟩
      · exact absurd h (wrongType_ne_ok _ _ _)
    · exact absurd h (wrongType_ne_ok _ _ _)

theorem contains_of_dictionary {found : Dictionary String α}
    (h : dictionary d path tree = .ok found) {name : String} {x : α}
    (hx : found.get? name = some x) : ∃ path' t, tree.Contains t ∧ d path' t = .ok x := by
  obtain ⟨entries, hholds, path, hfold⟩ := holdsMapping_of_mapping h
  have hvalue : ∀ x, found.get? name = some x →
      ∃ path', ∃ entry ∈ entries, d path' entry.2 = .ok x := by
    refine of_foldlM (P := fun found => ∀ x, found.get? name = some x →
      ∃ path', ∃ entry ∈ entries, d path' entry.2 = .ok x) (fun x hx => by cases hx)
      ?_ hfold
    intro found entry found' hmem ih hstep x hx
    obtain ⟨key, -, hstep⟩ := bind_eq_ok_iff.mp hstep
    obtain ⟨y, hy, hstep⟩ := bind_eq_ok_iff.mp hstep
    obtain rfl := Except.ok.inj hstep
    rw [Dictionary.get?_insert] at hx
    split at hx
    · obtain rfl := Option.some.inj hx
      exact ⟨_, entry, hmem, hy⟩
    · exact ih x hx
  obtain ⟨path', ⟨key, value⟩, hmem, hok⟩ := hvalue x hx
  refine ⟨path', value, ?_, hok⟩
  rcases hholds with rfl | ⟨m, tag, hpart⟩
  · cases hmem
  · exact hpart.trans (.value hmem (.self _))

variable {read : String → σ → Decoder σ}

-- What holds before the first entry and is kept by every entry holds after all of them. No name
-- comes twice.
theorem of_fields {I : List (Tree × Tree) → σ → Prop} {done entries : List (Tree × Tree)}
    {seen : List String} {state last : σ}
    (hstep : ∀ done key name path' value s s', key.text? = some name →
      (∀ other, ¬ HasEntry done name other) → I done s → read name s path' value = .ok s' →
      I (done ++ [(key, value)]) s')
    (hseen : ∀ name value, HasEntry done name value → name ∈ seen) (hstart : I done state)
    (h : fields known read path seen state entries = .ok last) : I (done ++ entries) last := by
  induction entries generalizing done seen state with
  | nil =>
    obtain rfl := Except.ok.inj h
    rwa [List.append_nil]
  | cons entry entries ih =>
    obtain ⟨key, value⟩ := entry
    obtain ⟨name, hname, h⟩ := bind_eq_ok_iff.mp h
    split at h
    · cases h
    · rename_i hnew
      obtain ⟨next, hnext, h⟩ := bind_eq_ok_iff.mp h
      have htext := text?_of_fieldName hname
      have hnext := hstep done key name _ value _ _ htext (fun other h => hnew (hseen _ _ h))
        hstart hnext
      rw [List.append_cons]
      refine ih (fun other value' hentry => ?_) hnext h
      rcases hasEntry_append_singleton.mp hentry with hentry | ⟨hkey, -⟩
      · exact List.mem_cons_of_mem _ (hseen _ _ hentry)
      · obtain rfl := Option.some.inj (htext.symm.trans hkey)
        exact List.mem_cons_self

theorem of_record {name : String} {start : σ} {finish : σ → Except DecodeError α}
    {I : List (Tree × Tree) → σ → Prop} (hstart : I [] start)
    (hstep : ∀ done key name path' value s s', key.text? = some name →
      (∀ other, ¬ HasEntry done name other) → I done s → read name s path' value = .ok s' →
      I (done ++ [(key, value)]) s')
    (h : record name known start read finish path tree = .ok a) :
    ∃ entries last, tree.HoldsMapping entries ∧ I entries last ∧ finish last = .ok a := by
  obtain ⟨entries, hholds, path', hread⟩ := holdsMapping_of_mapping h
  obtain ⟨last, hlast, hfinish⟩ := bind_eq_ok_iff.mp hread
  have hnone (name value) (h : HasEntry [] name value) : name ∈ ([] : List String) :=
    absurd h.choose_spec.1 List.not_mem_nil
  exact ⟨entries, last, hholds, of_fields hstep hnone hstart hlast, hfinish⟩

end Mappings

end Decoder

end Skeleton.Yaml
