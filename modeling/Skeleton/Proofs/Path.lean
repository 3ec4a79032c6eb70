import Mathlib.Data.List.Basic
import Mathlib.Data.List.Induction
import Skeleton.Path

-- Paths that lead down from others, by one name after another.

namespace Skeleton.Path

structure IsPlain (part : String) : Prop where
  notIdle : isIdle part = false
  notUp : part ≠ ".."

-- What a name is put behind: the parts of a path, but for a last slash.
def stem (p : Path) : List String :=
  if p.parts.getLast? = some "" then p.parts.dropLast else p.parts

def descend (p : Path) (names : List String) : Path :=
  names.foldl (fun q name => q.join (.ofName name)) p

variable {p : Path} {name : String} {names : List String}

theorem IsPlain.ne_empty (h : IsPlain name) : name ≠ "" := by
  rintro rfl
  have hidle := h.notIdle
  simp [isIdle] at hidle

theorem IsPlain.ne_here (h : IsPlain name) : name ≠ "." := by
  rintro rfl
  have hidle := h.notIdle
  simp [isIdle] at hidle

theorem component?_of_isPlain (h : IsPlain name) : component? name = some (.name name) := by
  simp [component?, h.notIdle, h.notUp]

theorem parts_join (p q : Path) :
    (p.join q).parts = if q.isAbsolute then q.parts else p.stem ++ q.parts := by
  unfold join stem
  by_cases hq : q.isAbsolute = true
  · rw [if_pos hq, hq, Bool.true_or, if_pos rfl]
  · rw [if_neg hq, Bool.eq_false_iff.mpr hq, Bool.false_or]
    by_cases hp : p = empty
    · subst hp
      rfl
    · rw [if_neg (by simpa using hp)]
      split <;> rfl

theorem parts_join_ofName (p : Path) (name : String) :
    (p.join (.ofName name)).parts = p.stem ++ [name] := by
  have hrelative : (ofName name).isAbsolute = false := by simp [isAbsolute, ofName]
  rw [parts_join, hrelative]
  rfl

-- What is in a text besides slashes is in one of its parts.
theorem mem_text_iff {c : Char} (hc : c ≠ '/') :
    c ∈ p.text.toList ↔ ∃ part ∈ p.parts, c ∈ part.toList := by
  obtain ⟨parts⟩ := p
  unfold text
  induction parts with
  | nil => simp
  | cons part rest ih =>
    cases rest with
    | nil => simp
    | cons next rest =>
      rw [String.intercalate_cons_cons]
      simp only [String.toList_append, List.mem_append, ih]
      simp [hc]

theorem exists_parts_stem (p : Path) :
    ∃ blank, (∀ part ∈ blank, part = "") ∧ p.parts = p.stem ++ blank := by
  unfold stem
  split
  · rename_i hlast
    obtain ⟨init, hparts⟩ := List.getLast?_eq_some_iff.mp hlast
    exact ⟨[""], by simp, by rw [hparts, List.dropLast_concat]⟩
  · exact ⟨[], by simp, by simp⟩

theorem isAbsolute_eq_stem (p : Path) : p.isAbsolute = decide (p.stem.head? = some "") := by
  obtain ⟨parts⟩ := p
  cases parts using List.reverseRecOn with
  | nil => rfl
  | append_singleton init last =>
    simp only [isAbsolute, stem, List.getLast?_concat, List.dropLast_concat, Option.some.injEq]
    cases init <;> by_cases hlast : last = "" <;> simp [hlast]

theorem exists_parts_withoutSlash (p : Path) :
    ∃ blank, (∀ part ∈ blank, part = "") ∧ p.parts = p.withoutSlash.parts ++ blank := by
  obtain ⟨blank, hblank, hparts⟩ := Text.exists_dropEndWhile_append (fun part => part = "") p.parts
  unfold withoutSlash
  split
  · exact ⟨[], by simp, by simp⟩
  · exact ⟨blank, by simpa using hblank, hparts⟩

theorem parts_of_text_eq_empty (h : p.text = "") : p.parts = [] ∨ p.parts = [""] := by
  obtain ⟨parts⟩ := p
  unfold text at h
  match parts with
  | [] => exact .inl rfl
  | [part] => exact .inr (by simpa using h)
  | first :: second :: rest =>
    rw [String.intercalate_cons_cons] at h
    have hchars := congrArg String.toList h
    simp at hchars

theorem exists_text_append (blank : List String) {names : List String} (hne : names ≠ []) :
    ∃ tail, (Path.mk (names ++ blank)).text = (Path.mk names).text ++ tail := by
  unfold text
  induction names with
  | nil => exact absurd rfl hne
  | cons first rest ih =>
    cases rest with
    | nil =>
      cases blank with
      | nil => exact ⟨"", by simp⟩
      | cons part more =>
        refine ⟨"/" ++ "/".intercalate (part :: more), ?_⟩
        simp [String.intercalate_cons_cons, String.append_assoc]
    | cons second rest =>
      obtain ⟨tail, htail⟩ := ih (List.cons_ne_nil _ _)
      simp only [List.cons_append] at htail
      refine ⟨tail, ?_⟩
      simp only [List.cons_append, String.intercalate_cons_cons, htail, String.append_assoc]

-- The slashes that are cut off stand at the end of the text, and something is left.
theorem exists_text_withoutSlash (h : p.text ≠ "") :
    p.withoutSlash.text ≠ "" ∧ ∃ tail, p.text = p.withoutSlash.text ++ tail := by
  obtain ⟨blank, -, hparts⟩ := Text.exists_dropEndWhile_append (fun part => part = "") p.parts
  have hlast := @Text.of_getLast?_dropEndWhile _ (fun part => part = "")
  unfold withoutSlash
  split
  · exact ⟨h, "", by simp⟩
  · rename_i kept hkept
    have hne : Text.dropEndWhile (fun part => part = "") p.parts ≠ [] := hkept
    constructor
    · intro hempty
      rcases parts_of_text_eq_empty hempty with hnil | hblank
      · exact hne hnil
      · have hname := @hlast "" p.parts (congrArg List.getLast? hblank)
        simp at hname
    · obtain ⟨parts⟩ := p
      obtain ⟨tail, htail⟩ := exists_text_append blank hne
      rw [← hparts] at htail
      exact ⟨tail, htail⟩

theorem isAbsolute_withoutSlash (p : Path) : p.withoutSlash.isAbsolute = p.isAbsolute := by
  obtain ⟨blank, -, hparts⟩ := Text.exists_dropEndWhile_append (fun part => part = "") p.parts
  have hlast := @Text.of_getLast?_dropEndWhile _ (fun part => part = "")
  unfold withoutSlash
  split
  · rfl
  · rename_i kept hkept
    cases hsplit : Text.dropEndWhile (fun part => part = "") p.parts with
    | nil => exact absurd hsplit hkept
    | cons first rest =>
      rw [hsplit] at hparts
      by_cases hfirst : first = ""
      · have hrest : rest ≠ [] := by
          rintro rfl
          have hkind := @hlast first p.parts (by rw [hsplit]; rfl)
          simp [hfirst] at hkind
        have hlength := List.length_pos_iff.mpr hrest
        simp only [isAbsolute, hparts, List.cons_append, List.length_cons, List.length_append]
        have hlong : 1 < rest.length + blank.length + 1 := by omega
        simp [hlength, hlong]
      · simp [isAbsolute, hparts, hfirst]

theorem withoutSlash_of_concat {init : List String} (hp : p.parts = init ++ [name])
    (h : name ≠ "") : p.withoutSlash = p := by
  have hkept := @Text.dropEndWhile_concat _ (fun part => part = "") name init (by simpa using h)
  obtain ⟨parts⟩ := p
  obtain rfl : parts = init ++ [name] := hp
  unfold withoutSlash
  simp only [hkept]
  split <;> simp_all

-- A path that ends with a name is its own stem.
theorem stem_of_concat {init : List String} (hp : p.parts = init ++ [name]) (h : name ≠ "") :
    p.stem = p.parts := by
  simp [stem, hp, h]

theorem descend_concat (p : Path) (names : List String) (name : String) :
    p.descend (names ++ [name]) = (p.descend names).join (.ofName name) := by
  simp [descend]

theorem parts_descend (h : ∀ n ∈ names, IsPlain n) (hne : names ≠ []) :
    (p.descend names).parts = p.stem ++ names := by
  induction names using List.reverseRecOn with
  | nil => exact absurd rfl hne
  | append_singleton names name ih =>
    rw [descend_concat, parts_join_ofName]
    cases names using List.reverseRecOn with
    | nil => rfl
    | append_singleton init last =>
      have hparts := ih (fun n hn => h n (List.mem_append_left _ hn)) (by simp)
      have hlast : IsPlain last := h last (by simp)
      have hconcat : (p.descend (init ++ [last])).parts = p.stem ++ init ++ [last] := by
        rw [hparts, List.append_assoc]
      rw [stem_of_concat hconcat hlast.ne_empty, hparts, List.append_assoc]

theorem isAbsolute_of_plain {above : List String} (hp : p.parts = above ++ names)
    (h : ∀ n ∈ names, IsPlain n) (hne : names ≠ []) :
    p.isAbsolute = decide (above.head? = some "") := by
  have hlength := List.length_pos_iff.mpr hne
  cases above with
  | nil =>
    cases names with
    | nil => exact absurd rfl hne
    | cons name rest => simp [isAbsolute, hp, (h name (by simp)).ne_empty]
  | cons first above =>
    simp only [isAbsolute, hp, List.cons_append, List.head?_cons, List.length_cons,
      List.length_append]
    have hlong : 1 < above.length + names.length + 1 := by omega
    simp [hlong]

theorem parts_join_of_plain {q : Path} (p : Path) (h : ∀ n ∈ q.parts, IsPlain n)
    (hne : q.parts ≠ []) : (p.join q).parts = p.stem ++ q.parts := by
  have hrelative : q.isAbsolute = false := by
    simpa using @isAbsolute_of_plain q q.parts [] rfl h hne
  rw [parts_join, hrelative, if_neg (by simp)]

-- Below a path what is put behind a root differs in the names only.
theorem exists_parts_join_descend (root base : Path) :
    ∃ above, ∀ names, names ≠ [] → (∀ n ∈ names, IsPlain n) →
      (root.join (base.descend names)).parts = above ++ names := by
  by_cases habsolute : base.stem.head? = some ""
  · refine ⟨base.stem, fun names hne h => ?_⟩
    have hparts := parts_descend (p := base) h hne
    have habs := isAbsolute_of_plain hparts h hne
    rw [parts_join, if_pos (by simpa using habs.trans (decide_eq_true habsolute)), hparts]
  · refine ⟨root.stem ++ base.stem, fun names hne h => ?_⟩
    have hparts := parts_descend (p := base) h hne
    have habs := isAbsolute_of_plain hparts h hne
    rw [parts_join, habs, if_neg (by simpa using habsolute), hparts, List.append_assoc]

theorem components_join (p : Path) (h : IsPlain name) :
    (p.join (.ofName name)).components = p.components ++ [.name name] := by
  have hparts := parts_join_ofName p name
  have hcomponent := component?_of_isPlain h
  have hname : [name].filterMap component? = [.name name] := by simp [hcomponent]
  have hblank : [""].filterMap component? = [] := by simp [component?, isIdle]
  obtain ⟨parts⟩ := p
  generalize (Path.mk parts).join (.ofName name) = q at hparts ⊢
  obtain ⟨joined⟩ := q
  by_cases hlast : parts.getLast? = some ""
  · -- a last slash does not count
    obtain ⟨init, rfl⟩ := List.getLast?_eq_some_iff.mp hlast
    simp only [stem, hlast, if_true, List.dropLast_concat] at hparts
    subst hparts
    cases init with
    | nil => simp [components, isAbsolute, h.ne_empty, h.ne_here, h.notUp, component?, isIdle]
    | cons first tail =>
      by_cases hfirst : first = ""
      · simp [components, isAbsolute, hfirst, hname, hblank]
      · by_cases hhere : first = "." <;>
          simp [components, isAbsolute, hfirst, hhere, hname, hblank]
  · simp only [stem, hlast, if_false] at hparts
    subst hparts
    cases parts with
    | nil => simp [components, isAbsolute, h.ne_here, hcomponent]
    | cons first tail =>
      by_cases hfirst : first = ""
      · have htail : tail ≠ [] := by
          rintro rfl
          simp [hfirst] at hlast
        have hlength := List.length_pos_iff.mpr htail
        simp [components, isAbsolute, hfirst, hcomponent, hlength]
      · by_cases hhere : first = "." <;>
          simp [components, isAbsolute, hfirst, hhere, hcomponent]

theorem components_descend (p : Path) (h : ∀ n ∈ names, IsPlain n) :
    (p.descend names).components = p.components ++ names.map .name := by
  induction names using List.reverseRecOn with
  | nil => simp [descend]
  | append_singleton names name ih =>
    have hrest := ih fun n hn => h n (List.mem_append_left _ hn)
    rw [descend_concat, components_join _ (h name (by simp)), hrest]
    simp

-- The names below a path are told by the components.
theorem append_of_components_descend {names' : List String} (h : ∀ n ∈ names, IsPlain n)
    (h' : ∀ n ∈ names', IsPlain n)
    (habove : (p.descend names).components <+: (p.descend names').components) :
    ∃ below, names' = names ++ below := by
  rw [components_descend p h, components_descend p h'] at habove
  obtain ⟨rest, hrest⟩ := (List.prefix_append_right_inj _).mp habove
  obtain ⟨above, below, rfl, habove, -⟩ := List.map_eq_append_iff.mp hrest.symm
  have hinj : Function.Injective Component.name := fun _ _ hname => Component.name.inj hname
  exact ⟨below, by rw [hinj.list_map habove]⟩

theorem eq_of_components_descend {names' : List String} (h : ∀ n ∈ names, IsPlain n)
    (h' : ∀ n ∈ names', IsPlain n)
    (heq : (p.descend names).components = (p.descend names').components) : names = names' := by
  have habove : (p.descend names).components <+: (p.descend names').components :=
    heq ▸ List.prefix_refl _
  obtain ⟨below, rfl⟩ := append_of_components_descend h h' habove
  have hlength := congrArg List.length heq
  rw [components_descend p h, components_descend p h'] at hlength
  simp only [List.length_append, List.length_map] at hlength
  have hbelow : below = [] := List.eq_nil_of_length_eq_zero (by omega)
  rw [hbelow, List.append_nil]

theorem eq_of_descend {names' : List String} (h : ∀ n ∈ names, IsPlain n)
    (h' : ∀ n ∈ names', IsPlain n) (heq : p.descend names = p.descend names') : names = names' :=
  eq_of_components_descend h h' (congrArg components heq)

theorem cutLast_concat (mid : List String) (hname : isIdle name = false) :
    cutLast (mid ++ [name]) = some (Text.dropEndWhile isIdle mid) := by
  unfold cutLast
  rw [Text.dropEndWhile_concat mid hname]
  split
  · rename_i hnil
    simp at hnil
  · rw [List.dropLast_concat]

theorem parent?_join {init : List String} {last : String} (hp : p.parts = init ++ [last])
    (hlast : IsPlain last) (h : IsPlain name) : (p.join (.ofName name)).parent? = some p := by
  have hparts := parts_join_ofName p name
  rw [stem_of_concat hp hlast.ne_empty] at hparts
  unfold parent?
  obtain ⟨parts⟩ := p
  simp only at hp hparts
  cases init with
  | nil =>
    rw [List.nil_append] at hp
    subst hp
    have hcut : cutLast [name] = some [] := cutLast_concat [] h.notIdle
    simp [hparts, hcut, isAbsolute, hlast.ne_empty]
  | cons first rest =>
    rw [List.cons_append] at hp
    subst hp
    have hcut := cutLast_concat (rest ++ [last]) h.notIdle
    rw [Text.dropEndWhile_concat rest hlast.notIdle] at hcut
    rw [hparts]
    simp only [List.cons_append]
    rw [hcut]
    cases hrest : rest ++ [last] with
    | nil => simp at hrest
    | cons => rfl

theorem parent?_descend_concat (p : Path) (h : ∀ n ∈ names, IsPlain n) (hne : names ≠ [])
    (hname : IsPlain name) : (p.descend (names ++ [name])).parent? = some (p.descend names) := by
  have hparts := parts_descend (p := p) h hne
  cases names using List.reverseRecOn with
  | nil => exact absurd rfl hne
  | append_singleton init last =>
    rw [← List.append_assoc] at hparts
    rw [descend_concat]
    exact parent?_join hparts (h last (by simp)) hname

end Skeleton.Path
