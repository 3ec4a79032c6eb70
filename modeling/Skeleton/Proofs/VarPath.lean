import Skeleton.Proofs.Text.Spans
import Skeleton.Text.Blank
import Skeleton.VarPath

-- References to variables as they are written. Their texts hold letters, digits, underscores and
-- points only, and read back.

namespace Skeleton

variable {s : String} {c : Char}

theorem mem_of_isIdentifier (h : isIdentifier s = true) (hc : c ∈ s.toList) :
    Text.isLetterOrDigit c = true ∨ c = '_' := by
  unfold isIdentifier at h
  cases hs : s.toList with
  | nil => simp [hs] at hc
  | cons first rest =>
    simp only [hs, isIdentifierChars, Bool.and_eq_true, Bool.or_eq_true, List.all_eq_true,
      beq_iff_eq] at h
    obtain ⟨hfirst, hrest⟩ := h
    rw [hs] at hc
    rcases List.mem_cons.mp hc with rfl | hc
    · exact hfirst.imp_left fun hletter => by simp [Text.isLetterOrDigit, hletter]
    · exact hrest c hc

theorem point_not_mem (h : isIdentifier s = true) : '.' ∉ s.toList := by
  intro hmem
  have hword := mem_of_isIdentifier h hmem
  revert hword
  decide

theorem not_isBlank_of_isLetterOrDigit (h : Text.isLetterOrDigit c = true) :
    Text.isBlank c = false := by
  have hrange : (97 ≤ c.toNat ∧ c.toNat ≤ 122) ∨ (65 ≤ c.toNat ∧ c.toNat ≤ 90) ∨
      48 ≤ c.toNat ∧ c.toNat ≤ 57 := by
    simpa [Text.isLetterOrDigit, Text.isLetter, Text.isDigit, Char.le_def,
      UInt32.le_iff_toNat_le, or_assoc] using h
  simp only [Text.isBlank, Bool.or_eq_false_iff, Bool.and_eq_false_iff, decide_eq_false_iff_not,
    beq_eq_false_iff_ne]
  omega

-- Characters of names: letters and underscores, of which one comes first, and digits.
def IsNameStart (c : Char) : Prop := ('A' ≤ c ∧ c ≤ 'Z') ∨ ('a' ≤ c ∧ c ≤ 'z') ∨ c = '_'

def IsNamePart (c : Char) : Prop := IsNameStart c ∨ ('0' ≤ c ∧ c ≤ '9')

def IsName (s : String) : Prop :=
  ∃ c rest, s.toList = c :: rest ∧ IsNameStart c ∧ ∀ d ∈ rest, IsNamePart d

theorem isNameStart_iff : IsNameStart c ↔ Text.isLetter c = true ∨ c = '_' := by
  simp only [IsNameStart, Text.isLetter, Bool.or_eq_true, Bool.and_eq_true, decide_eq_true_eq]
  tauto

theorem isNamePart_iff : IsNamePart c ↔ Text.isLetterOrDigit c = true ∨ c = '_' := by
  simp only [IsNamePart, isNameStart_iff, Text.isLetterOrDigit, Text.isDigit, Bool.or_eq_true,
    Bool.and_eq_true, decide_eq_true_eq]
  tauto

theorem isIdentifier_iff : isIdentifier s = true ↔ IsName s := by
  unfold isIdentifier IsName
  cases s.toList with
  | nil => simp [isIdentifierChars]
  | cons c rest => simp [isIdentifierChars, isNameStart_iff, isNamePart_iff]

namespace VarPath

variable {path : VarPath}

theorem mem_text (hc : c ∈ path.text.toList) :
    Text.isLetterOrDigit c = true ∨ c = '_' ∨ c = '.' := by
  obtain ⟨root, fields, valid⟩ := path
  have hnames : ∀ name ∈ root :: fields, isIdentifier name = true := List.all_eq_true.mp valid
  simp only [text] at hc
  generalize root :: fields = names at hnames hc
  induction names with
  | nil => simp at hc
  | cons name rest ih =>
    obtain ⟨hname, hrest⟩ := List.forall_mem_cons.mp hnames
    cases rest with
    | nil =>
      rw [String.intercalate_singleton] at hc
      exact (mem_of_isIdentifier hname hc).imp_right .inl
    | cons next rest =>
      rw [String.intercalate_cons_cons] at hc
      simp only [String.toList_append, List.mem_append] at hc
      rcases hc with (hc | hc) | hc
      · exact (mem_of_isIdentifier hname hc).imp_right .inl
      · exact .inr (.inr (by simpa using hc))
      · exact ih hrest hc

theorem not_mem_text (hletter : Text.isLetterOrDigit c = false) (hunderscore : c ≠ '_')
    (hpoint : c ≠ '.') : c ∉ path.text.toList := by
  intro hc
  rcases mem_text hc with h | h | h
  · rw [hletter] at h
    cases h
  · exact hunderscore h
  · exact hpoint h

theorem not_isBlank_of_mem_text (hc : c ∈ path.text.toList) : Text.isBlank c = false := by
  rcases mem_text hc with hletter | rfl | rfl
  · exact not_isBlank_of_isLetterOrDigit hletter
  · rfl
  · rfl

theorem splitAtEvery_intercalate (name : String) (rest : List String)
    (h : ∀ n ∈ name :: rest, '.' ∉ n.toList) :
    Text.splitAtEvery '.' (".".intercalate (name :: rest)).toList =
      (name :: rest).map String.toList := by
  induction rest generalizing name with
  | nil =>
    rw [String.intercalate_singleton, Text.splitAtEvery_of_not_mem (h name List.mem_cons_self)]
    rfl
  | cons next rest ih =>
    obtain ⟨hname, hrest⟩ := List.forall_mem_cons.mp h
    have hsplit := Text.splitAtEvery_append hname (".".intercalate (next :: rest)).toList
    rw [ih next hrest] at hsplit
    rw [String.intercalate_cons_cons, String.toList_append, String.toList_append,
      List.append_assoc]
    exact hsplit

-- A path reads back from its text.
theorem ofText?_text (path : VarPath) : ofText? path.text = some path := by
  obtain ⟨root, fields, valid⟩ := path
  have hpoint : ∀ n ∈ root :: fields, '.' ∉ n.toList :=
    fun n hn => point_not_mem (List.all_eq_true.mp valid n hn)
  have hsplit := splitAtEvery_intercalate root fields hpoint
  simp only [ofText?, text, hsplit, List.map_map]
  simp [valid]

theorem text_of_splitAtEvery (cs : List Char) :
    (".".intercalate ((Text.splitAtEvery '.' cs).map String.ofList)).toList = cs := by
  induction cs with
  | nil => rfl
  | cons c rest ih =>
    rw [Text.splitAtEvery]
    cases hrest : Text.splitAtEvery '.' rest with
    | nil => exact absurd hrest (Text.splitAtEvery_ne_nil '.' rest)
    | cons part parts =>
      rw [hrest] at ih
      split
      · rename_i hc
        rw [List.map_cons, List.map_cons, String.intercalate_cons_cons, ← List.map_cons,
          String.toList_append, ih, hc]
        rfl
      · cases parts <;> simpa [String.intercalate_cons_cons] using ih

-- A path is read from its text only.
theorem ofText?_eq_some_iff {path : VarPath} : ofText? s = some path ↔ path.text = s := by
  refine ⟨fun h => ?_, fun h => h ▸ path.ofText?_text⟩
  have htext := text_of_splitAtEvery s.toList
  unfold ofText? at h
  split at h
  · cases h
  · rename_i root fields hsplit
    split at h
    · obtain rfl := Option.some.inj h
      rw [hsplit] at htext
      exact String.toList_inj.mp htext
    · cases h

inductive Names : List Char → List String → Prop where
  | last {name} (h : IsName name) : Names name.toList [name]
  | more {name cs names} (h : IsName name) (hrest : Names cs names) :
      Names (name.toList ++ '.' :: cs) (name :: names)

section Names

variable {cs : List Char} {name : String} {names : List String}

theorem Names.ne_nil (h : Names cs names) : names ≠ [] := by
  cases h <;> simp

theorem Names.isName (h : Names cs names) : ∀ name ∈ names, IsName name := by
  induction h with
  | last h => simpa using h
  | more h _ ih => exact List.forall_mem_cons.mpr ⟨h, ih⟩

theorem Names.head (h : Names cs names) : ∃ c rest, cs = c :: rest ∧ IsNameStart c := by
  cases h with
  | last h =>
    obtain ⟨c, rest, hname, hstart, -⟩ := h
    exact ⟨c, rest, hname, hstart⟩
  | more h _ =>
    obtain ⟨c, rest, hname, hstart, -⟩ := h
    exact ⟨c, rest ++ _, by rw [hname]; rfl, hstart⟩

theorem Names.intercalate (h : Names cs names) : (".".intercalate names).toList = cs := by
  induction h with
  | last h => rw [String.intercalate_singleton]
  | @more name cs names h hrest ih =>
    cases names with
    | nil => exact absurd rfl hrest.ne_nil
    | cons next rest =>
      rw [String.intercalate_cons_cons, String.toList_append, String.toList_append, ih,
        List.append_assoc]
      rfl

theorem names_intercalate (h : ∀ n ∈ name :: names, IsName n) :
    Names (".".intercalate (name :: names)).toList (name :: names) := by
  induction names generalizing name with
  | nil =>
    rw [String.intercalate_singleton]
    exact .last (h name List.mem_cons_self)
  | cons next rest ih =>
    obtain ⟨hname, hrest⟩ := List.forall_mem_cons.mp h
    rw [String.intercalate_cons_cons, String.toList_append, String.toList_append, List.append_assoc]
    exact .more hname (ih hrest)

theorem Names.takeWhile (h : Names cs (name :: names)) : name.toList = cs.takeWhile (· ≠ '.') := by
  have hall : ∀ n, IsName n → ∀ c ∈ n.toList, decide (c ≠ '.') = true := by
    intro n hn c hc
    simpa using ne_of_mem_of_not_mem hc (point_not_mem (isIdentifier_iff.mpr hn))
  cases h with
  | last h => rw [List.takeWhile_eq_self_iff.mpr (hall name h)]
  | more h hrest => rw [takeWhile_append_of_all (hall name h) (by simp)]

end Names

theorem names_text (path : VarPath) : Names path.text.toList (path.root :: path.fields) :=
  names_intercalate fun n hn => isIdentifier_iff.mp (List.all_eq_true.mp path.valid n hn)

-- A path is read where a text is its names, and from such texts only.
theorem ofText?_eq_some_iff_names :
    ofText? s = some path ↔ Names s.toList (path.root :: path.fields) := by
  rw [ofText?_eq_some_iff]
  refine ⟨fun h => h ▸ path.names_text, fun h => ?_⟩
  exact String.toList_inj.mp h.intercalate

theorem exists_ofText?_iff : (∃ path, ofText? s = some path) ↔ ∃ names, Names s.toList names := by
  simp only [ofText?_eq_some_iff_names]
  constructor
  · exact fun ⟨path, h⟩ => ⟨_, h⟩
  · rintro ⟨names, h⟩
    obtain ⟨root, fields, rfl⟩ := List.exists_cons_of_ne_nil h.ne_nil
    have hvalid : (root :: fields).all isIdentifier = true :=
      List.all_eq_true.mpr fun n hn => isIdentifier_iff.mpr (h.isName n hn)
    exact ⟨⟨root, fields, hvalid⟩, h⟩

theorem text_ne_empty (path : VarPath) : path.text ≠ "" := by
  intro hempty
  have htext := ofText?_text path
  rw [hempty] at htext
  cases htext

end VarPath

end Skeleton
