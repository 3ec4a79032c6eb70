import Skeleton.Proofs.Template.Listing

-- Filters in a row. Only the first one meets the value of the variable, and all that can fail is
-- that a sequence or a mapping is asked for its text.

namespace Skeleton.Template

def IsCollection (v : Value) : Prop := v.kind = .sequence ∨ v.kind = .mapping

-- What one filter makes of a value: a serializer the document of the value itself, another filter
-- something of its text.
inductive Filter.Makes (f : Filter) (v : Value) : String → Prop where
  | document {s} (h : f.serialize? v = some s) : Makes f v s
  | text {s} (hf : f.isSerializer = false) (hs : v.text? = some s) : Makes f v (f.applyText s)

def Filter.next (s : String) (f : Filter) : String :=
  (f.serialize? (.string s)).getD (f.applyText s)

-- What comes out of a row of filters. The value counts for the first of them only.
inductive Filtered (v : Value) : List Filter → String → Prop where
  | plain {s} (h : v.text? = some s) : Filtered v [] s
  | chain {f rest s} (h : f.Makes v s) : Filtered v (f :: rest) (rest.foldl Filter.next s)

section Filters

variable {path : VarPath} {f : Filter} {filters : List Filter} {v : Value} {s : String}
  {fault : Fault}

theorem text?_eq_none_iff : v.text? = none ↔ IsCollection v := by
  cases v <;> simp [Value.text?, IsCollection, Value.kind]

theorem Filter.serialize?_eq_none_iff : f.serialize? v = none ↔ f.isSerializer = false := by
  cases f <;> simp [Filter.serialize?, Filter.isSerializer]

theorem scalarText_eq_ok_iff : scalarText path v = .ok s ↔ v.text? = some s := by
  unfold scalarText
  cases v.text? <;> simp

theorem scalarText_eq_error_iff : scalarText path v = .error fault ↔
    IsCollection v ∧ fault = .notScalar path v.kind := by
  rw [← text?_eq_none_iff]
  unfold scalarText
  cases v.text? <;> simp [eq_comm]

theorem applyFilter_eq_ok_iff : applyFilter path f v = .ok s ↔ f.Makes v s := by
  unfold applyFilter
  constructor
  · intro h
    split at h
    · rename_i document hdocument
      obtain rfl := Except.ok.inj h
      exact .document hdocument
    · rename_i hnone
      obtain ⟨text, htext, rfl⟩ := map_eq_ok_iff.mp h
      exact .text (Filter.serialize?_eq_none_iff.mp hnone) (scalarText_eq_ok_iff.mp htext)
  · intro h
    cases h with
    | document h => rw [h]
    | text hf hs =>
      rw [Filter.serialize?_eq_none_iff.mpr hf]
      exact map_eq_ok_iff.mpr ⟨_, scalarText_eq_ok_iff.mpr hs, rfl⟩

theorem applyFilter_eq_error_iff : applyFilter path f v = .error fault ↔
    (IsCollection v ∧ f.isSerializer = false) ∧ fault = .notScalar path v.kind := by
  have hnone := Filter.serialize?_eq_none_iff (f := f) (v := v)
  unfold applyFilter
  cases hdocument : f.serialize? v with
  | some document =>
    rw [hdocument] at hnone
    have hserializer : f.isSerializer ≠ false := fun h => nomatch hnone.mpr h
    simp [hserializer]
  | none =>
    simp only [map_eq_error_iff, scalarText_eq_error_iff, hnone.mp hdocument, and_true]

-- A text goes through any filter.
theorem applyFilter_string (path : VarPath) (f : Filter) (s : String) :
    applyFilter path f (.string s) = .ok (f.next s) := by
  rw [applyFilter_eq_ok_iff]
  cases h : f.serialize? (.string s) with
  | some document =>
    rw [Filter.next, h]
    exact .document h
  | none =>
    rw [Filter.next, h]
    exact .text (Filter.serialize?_eq_none_iff.mp h) rfl

theorem applyFilters_string (path : VarPath) (filters : List Filter) (s : String) :
    applyFilters path filters (.string s) = .ok (filters.foldl Filter.next s) := by
  induction filters generalizing s with
  | nil => rfl
  | cons f rest ih =>
    rw [applyFilters, applyFilter_string]
    exact ih (f.next s)

theorem applyFilters_eq_ok_iff : applyFilters path filters v = .ok s ↔ Filtered v filters s := by
  cases filters with
  | nil =>
    rw [applyFilters, scalarText_eq_ok_iff]
    constructor
    · exact .plain
    · rintro ⟨h⟩
      exact h
  | cons f rest =>
    simp only [applyFilters, bind_eq_ok_iff, applyFilter_eq_ok_iff, applyFilters_string,
      Except.ok.injEq]
    constructor
    · rintro ⟨first, hfirst, rfl⟩
      exact .chain hfirst
    · rintro (_ | hfirst)
      exact ⟨_, hfirst, rfl⟩

theorem applyFilters_eq_error_iff : applyFilters path filters v = .error fault ↔
    (IsCollection v ∧ ∀ f ∈ filters.head?, f.isSerializer = false) ∧
      fault = .notScalar path v.kind := by
  cases filters with
  | nil => simp [applyFilters, scalarText_eq_error_iff]
  | cons f rest =>
    simp [applyFilters, bind_eq_error_iff, applyFilter_eq_error_iff, applyFilters_string]

end Filters

section Placeholders

variable {context : Context} {path : VarPath} {filters : List Filter} {inside : List Char}
  {v : Value}

def onlyPlaceholder (inside : List Char) : String := String.ofList (around [] inside [])

theorem not_mem_of_words {cs : List Char} {words : List String} {c : Char} (h : Words cs words)
    (hblank : Text.isBlank c ≠ true) (hbar : c ≠ '|') (hwords : ∀ word ∈ words, c ∉ word.toList) :
    c ∉ cs := by
  induction h with
  | last h => exact not_mem_of_padded h hblank (hwords _ List.mem_cons_self)
  | more h _ ih =>
    obtain ⟨hword, hrest⟩ := List.forall_mem_cons.mp hwords
    simp [not_mem_of_padded h hblank hword, hbar, ih hrest]

theorem brace_not_mem_of_refers (h : Refers inside path filters) : '\x7d' ∉ inside := by
  refine not_mem_of_words h (by decide) (by decide)
    (List.forall_mem_cons.mpr ⟨?_, fun name hname => ?_⟩)
  · exact VarPath.not_mem_text rfl (by decide) (by decide)
  · obtain ⟨f, -, rfl⟩ := List.mem_map.mp hname
    cases f <;> decide

theorem render_onlyPlaceholder (h : Refers inside path filters)
    (hv : context.resolvePath? path = some v) : render context (onlyPlaceholder inside) =
      (applyFilters path filters v).mapError (Error.mk 0) := by
  have hopen : cutAtPair '\x7b' (onlyPlaceholder inside).toList =
      some ([], inside ++ ['\x7d', '\x7d']) := by
    simp [onlyPlaceholder, around, cutAtPair]
  have hclose : cutAtPair '\x7d' (inside ++ ['\x7d', '\x7d']) = some (inside, []) :=
    cutAtPair_of_not_mem (brace_not_mem_of_refers h) []
  have hread : readPlaceholder 0 inside = .ok ⟨0, path, filters⟩ :=
    readPlaceholder_eq_ok_iff.mpr ⟨rfl, h⟩
  rw [render_eq_renderFrom, renderFrom, segmentsFrom_of_placeholder hopen hclose]
  simp only [List.length_nil, Nat.add_zero, hread, @segmentsFrom_of_plain _ [] rfl]
  change renderSegments context [.placeholder ⟨0, path, filters⟩] = _
  simp only [renderSegments, renderPlaceholder, hv]
  cases applyFilters path filters v with
  | error fault => rfl
  | ok s => exact congrArg Except.ok String.append_empty

-- A row of filters fails only where a sequence or a mapping comes to a text position, which is at
-- its start. In every other case something comes out, and it depends on the value by the first
-- filter alone.
theorem render_filtered (h : Refers inside path filters)
    (hv : context.resolvePath? path = some v) :
    (∀ e, render context (onlyPlaceholder inside) = .error e ↔
      (IsCollection v ∧ ∀ f ∈ filters.head?, f.isSerializer = false) ∧
        e = ⟨0, .notScalar path v.kind⟩) ∧
    (∀ text, render context (onlyPlaceholder inside) = .ok text ↔ Filtered v filters text) ∧
    ((∃ text, Filtered v filters text) ↔
      ¬(IsCollection v ∧ ∀ f ∈ filters.head?, f.isSerializer = false)) := by
  rw [render_onlyPlaceholder h hv]
  refine ⟨fun e => ?_, fun text => ?_, ?_⟩
  · simp only [mapError_eq_error_iff, applyFilters_eq_error_iff]
    constructor
    · rintro ⟨fault, ⟨hcollection, rfl⟩, rfl⟩
      exact ⟨hcollection, rfl⟩
    · rintro ⟨hcollection, rfl⟩
      exact ⟨_, ⟨hcollection, rfl⟩, rfl⟩
  · rw [mapError_eq_ok_iff, applyFilters_eq_ok_iff]
  · simp only [← @applyFilters_eq_ok_iff path, exists_eq_ok_iff, ne_eq,
      applyFilters_eq_error_iff, not_and]
    exact ⟨fun h hcollection hhead => h _ ⟨hcollection, hhead⟩ rfl,
      fun h fault hcollection _ => h hcollection.1 hcollection.2⟩

def twoTags : Value := .sequence [.string "a", .string "b"]

def tagged : Context := ⟨[⟨"vars", Dictionary.ofList [("tags", twoTags)]⟩]⟩

def tagsPath : VarPath := ⟨"tags", [], Eq.refl true⟩

theorem render_filtered_tags :
    Refers " tags | yaml | upper ".toList tagsPath [.yaml, .upper] ∧
    Refers " tags |upper|yaml ".toList tagsPath [.upper, .yaml] ∧
    tagged.resolvePath? tagsPath = some twoTags ∧
    render tagged "{{ tags | yaml | upper }}" = .ok "- A\n- B" ∧
    render tagged "{{ tags |upper|yaml }}" = .error ⟨0, .notScalar tagsPath .sequence⟩ := by
  have hupper : Refers " tags | yaml | upper ".toList tagsPath [.yaml, .upper] :=
    (@readPlaceholder_eq_ok_iff 0 _ ⟨0, tagsPath, [.yaml, .upper]⟩).mp (by cbv) |>.2
  have hyaml : Refers " tags |upper|yaml ".toList tagsPath [.upper, .yaml] :=
    (@readPlaceholder_eq_ok_iff 0 _ ⟨0, tagsPath, [.upper, .yaml]⟩).mp (by cbv) |>.2
  have hv : tagged.resolvePath? tagsPath = some twoTags := by cbv
  have hdocument : Filter.yaml.serialize? twoTags = some "- a\n- b" := by cbv
  have hnext : Filter.next "- a\n- b" .upper = "- A\n- B" := by cbv
  refine ⟨hupper, hyaml, hv, ?_, ?_⟩
  · refine ((render_filtered hupper hv).2.1 _).mpr ?_
    rw [← hnext]
    exact .chain (.document hdocument)
  · refine ((render_filtered hyaml hv).1 _).mpr ⟨⟨.inl rfl, ?_⟩, rfl⟩
    simp [Filter.isSerializer]

end Placeholders

end Skeleton.Template
