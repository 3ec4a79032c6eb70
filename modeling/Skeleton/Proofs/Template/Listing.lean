import Skeleton.Proofs.Template.Faults

-- The variables that a template names. Templates have a grammar, and what is listed for a template
-- is what stands in its placeholders: all that its text depends on, and nothing that it can do
-- without.

namespace Skeleton.Template

def Padded (word : String) (cs : List Char) : Prop :=
  ∃ front back, (∀ c ∈ front, Text.isBlank c = true) ∧ (∀ c ∈ back, Text.isBlank c = true) ∧
    cs = front ++ word.toList ++ back

-- Words with blanks around them, divided by bars.
inductive Words : List Char → List String → Prop where
  | last {word cs} (h : Padded word cs) : Words cs [word]
  | more {word cs rest words} (h : Padded word cs) (hrest : Words rest words) :
      Words (cs ++ '|' :: rest) (word :: words)

-- The inside of a placeholder: a variable, and the names of filters.
def Refers (inside : List Char) (path : VarPath) (filters : List Filter) : Prop :=
  Words inside (path.text :: filters.map Filter.name)

-- Templates, with the variables of their placeholders in order. The first two braces that stand
-- together open a placeholder, and the next two that close one close it.
inductive Lists : List Char → List VarPath → Prop where
  | plain {cs} (h : ¬['\x7b', '\x7b'] <:+: cs) : Lists cs []
  | placeholder {before inside after path filters paths}
      (hopen : ¬['\x7b', '\x7b'] <:+: before ++ ['\x7b'])
      (hclose : ¬['\x7d', '\x7d'] <:+: inside ++ ['\x7d'])
      (hinside : Refers inside path filters) (h : Lists after paths) :
      Lists (around before inside after) (path :: paths)

section Inside

variable {offset : Nat} {inside : List Char} {p : Placeholder} {names : List String}
  {filters : List Filter}

theorem Filter.ofName?_eq_some_iff {name : String} {f : Filter} :
    Filter.ofName? name = some f ↔ f.name = name := by
  refine ⟨fun h => ?_, fun h => h ▸ f.ofName?_name⟩
  simpa using List.find?_some h

theorem readFilters_eq_ok_iff :
    readFilters names = .ok filters ↔ names = filters.map Filter.name := by
  induction names generalizing filters with
  | nil => cases filters <;> simp [readFilters]
  | cons name rest ih =>
    rw [readFilters]
    constructor
    · intro h
      split at h
      · cases h
      · split at h
        · cases h
        · rename_i f hf
          obtain ⟨others, hothers, rfl⟩ := map_eq_ok_iff.mp h
          rw [List.map_cons, Filter.ofName?_eq_some_iff.mp hf, ih.mp hothers]
    · intro h
      cases filters with
      | nil => cases h
      | cons f others =>
        obtain ⟨rfl, hrest⟩ := List.cons.inj h
        have hname : f.name.isEmpty = false := by cases f <;> rfl
        rw [hname, if_neg Bool.false_ne_true, Filter.ofName?_name, ih.mpr hrest]
        rfl

-- Any text is words between bars. The words have no blanks at their ends.
theorem words_splitAtEvery (cs : List Char) :
    Words cs ((Text.splitAtEvery '|' cs).map fun part => String.ofList (Text.trimBlanks part)) := by
  have hpadded (part : List Char) : Padded (String.ofList (Text.trimBlanks part)) part := by
    obtain ⟨front, back, hfront, hback, hpart⟩ := Text.exists_trimBlanks_append part
    exact ⟨front, back, hfront, hback, by rwa [String.toList_ofList]⟩
  induction hn : cs.length using Nat.strong_induction_on generalizing cs with
  | _ n ih =>
    by_cases hbar : '|' ∈ cs
    · obtain ⟨part, rest, rfl, hpart⟩ := List.eq_append_cons_of_mem hbar
      rw [Text.splitAtEvery_append hpart, List.map_cons]
      have hlength : rest.length < n := by
        rw [← hn, List.length_append, List.length_cons]
        omega
      exact .more (hpadded part) (ih _ hlength rest rfl)
    · rw [Text.splitAtEvery_of_not_mem hbar]
      exact .last (hpadded cs)

theorem trimBlanks_of_padded {word : String} {cs : List Char} (h : Padded word cs)
    (hword : ∀ c ∈ word.toList, Text.isBlank c = false) :
    String.ofList (Text.trimBlanks cs) = word := by
  obtain ⟨front, back, hfront, hback, rfl⟩ := h
  rw [Text.trimBlanks_append hfront hword hback, String.ofList_toList]

theorem not_mem_of_padded {word : String} {cs : List Char} {c : Char} (h : Padded word cs)
    (hblank : Text.isBlank c ≠ true) (hword : c ∉ word.toList) : c ∉ cs := by
  obtain ⟨front, back, hfront, hback, rfl⟩ := h
  simp only [List.mem_append, not_or]
  exact ⟨⟨fun hmem => hblank (hfront _ hmem), hword⟩, fun hmem => hblank (hback _ hmem)⟩

-- Words without blanks and bars are found again.
theorem splitAtEvery_of_words {cs : List Char} {words : List String} (h : Words cs words)
    (hblank : ∀ word ∈ words, ∀ c ∈ word.toList, Text.isBlank c = false)
    (hbar : ∀ word ∈ words, '|' ∉ word.toList) :
    ((Text.splitAtEvery '|' cs).map fun part => String.ofList (Text.trimBlanks part)) = words := by
  have hblankBar : Text.isBlank '|' ≠ true := by decide
  induction h with
  | last h =>
    have hcs := not_mem_of_padded h hblankBar (hbar _ List.mem_cons_self)
    have hword := trimBlanks_of_padded h (hblank _ List.mem_cons_self)
    rw [Text.splitAtEvery_of_not_mem hcs, List.map_singleton, hword]
  | more h hrest ih =>
    obtain ⟨hblank, hblanks⟩ := List.forall_mem_cons.mp hblank
    obtain ⟨hbar, hbars⟩ := List.forall_mem_cons.mp hbar
    rw [Text.splitAtEvery_append (not_mem_of_padded h hblankBar hbar), List.map_cons,
      trimBlanks_of_padded h hblank, ih hblanks hbars]

theorem readPlaceholder_eq_ok_iff : readPlaceholder offset inside = .ok p ↔
    p.offset = offset ∧ Refers inside p.path p.filters := by
  constructor
  · intro h
    have hwords := words_splitAtEvery inside
    refine ⟨offset_of_readPlaceholder h, ?_⟩
    unfold readPlaceholder at h
    simp only at h
    split at h
    · cases h
    · rename_i reference names hparts
      split at h
      · cases h
      · split at h
        · cases h
        · rename_i path hpath
          obtain ⟨filters, hfilters, rfl⟩ := map_eq_ok_iff.mp h
          rwa [hparts, ← VarPath.ofText?_eq_some_iff.mp hpath,
            readFilters_eq_ok_iff.mp hfilters] at hwords
  · rintro ⟨rfl, hrefers⟩
    have hfilter : ∀ name ∈ p.filters.map Filter.name, ∀ c ∈ name.toList,
        Text.isBlank c = false ∧ c ≠ '|' := by
      intro name hname
      obtain ⟨f, -, rfl⟩ := List.mem_map.mp hname
      cases f <;> simp [Filter.name, Text.isBlank]
    have hpath : ∀ c ∈ p.path.text.toList, Text.isBlank c = false ∧ c ≠ '|' := by
      intro c hc
      refine ⟨VarPath.not_isBlank_of_mem_text hc, ?_⟩
      rintro rfl
      exact VarPath.not_mem_text rfl (by decide) (by decide) hc
    have hwords := List.forall_mem_cons.mpr ⟨hpath, hfilter⟩
    have hsplit := splitAtEvery_of_words hrefers (fun word hword c hc => (hwords word hword c hc).1)
      fun word hword hbar => (hwords word hword _ hbar).2 rfl
    unfold readPlaceholder
    simp only [hsplit, p.path.ofText?_text, readFilters_eq_ok_iff.mpr rfl]
    simp [p.path.text_ne_empty, Except.map]

end Inside

def named (parts : List Segment) : List VarPath :=
  parts.filterMap fun
    | .text _ => none
    | .placeholder p => some p.path

section Reading

variable {offset : Nat} {cs before inside after : List Char} {template : String}
  {paths : List VarPath} {parts : List Segment}

theorem placeholders_eq_map (template : String) :
    placeholders template = (segmentsFrom 0 template.toList).map named := rfl

theorem named_placeholder (before : List Char) (p : Placeholder) (parts : List Segment) :
    named ((if before.isEmpty then [] else [.text before]) ++ .placeholder p :: parts) =
      p.path :: named parts := by
  cases before <;> rfl

theorem lists_of_segmentsFrom (h : segmentsFrom offset cs = .ok parts) :
    Lists cs (named parts) := by
  fun_induction segmentsFrom offset cs generalizing parts with
  | case1 offset cs hopen =>
    obtain rfl := Except.ok.inj h
    have hnone : named (if cs.isEmpty then [] else [.text cs]) = [] := by cases cs <;> rfl
    rw [hnone]
    exact .plain (cutAtPair_eq_none_iff.mp hopen)
  | case2 => cases h
  | case3 => cases h
  | case4 => cases h
  | case5 offset cs before rest hopen start inside after hclose p hread parts' hrest =>
    rename_i ih
    obtain rfl := Except.ok.inj h
    rw [eq_around hopen hclose, named_placeholder]
    exact .placeholder (cutAtPair_eq_some_iff.mp hopen).2 (cutAtPair_eq_some_iff.mp hclose).2
      (readPlaceholder_eq_ok_iff.mp hread).2 (ih hrest)

theorem segmentsFrom_of_lists (h : Lists cs paths) (offset : Nat) :
    ∃ parts, segmentsFrom offset cs = .ok parts ∧ named parts = paths := by
  induction h generalizing offset with
  | @plain cs h =>
    refine ⟨_, segmentsFrom_of_plain (cutAtPair_eq_none_iff.mpr h), ?_⟩
    cases cs <;> rfl
  | @placeholder before inside after path filters paths hopen hclose hinside h ih =>
    obtain ⟨parts, hparts, hnamed⟩ := ih (offset + before.length + inside.length + 4)
    have hread : readPlaceholder (offset + before.length) inside =
        .ok ⟨offset + before.length, path, filters⟩ := readPlaceholder_eq_ok_iff.mpr ⟨rfl, hinside⟩
    have hall : segmentsFrom offset (around before inside after) = _ :=
      segmentsFrom_of_placeholder (cutAtPair_eq_some_iff.mpr ⟨rfl, hopen⟩)
        (cutAtPair_eq_some_iff.mpr ⟨rfl, hclose⟩)
    simp only [hread, hparts] at hall
    exact ⟨_, hall, (named_placeholder _ _ _).trans (by rw [hnamed])⟩

-- A template is read if and only if it has the form of one, and the variables in it are listed.
theorem placeholders_eq_ok_iff :
    placeholders template = .ok paths ↔ Lists template.toList paths := by
  rw [placeholders_eq_map, map_eq_ok_iff]
  constructor
  · rintro ⟨parts, hparts, rfl⟩
    exact lists_of_segmentsFrom hparts
  · exact fun h => segmentsFrom_of_lists h 0

end Reading

section Rendering

variable {context context' : Context} {template : String} {paths : List VarPath}
  {parts : List Segment} {p : Placeholder}

theorem renderPlaceholder_congr (h : context.resolvePath? p.path = context'.resolvePath? p.path) :
    renderPlaceholder context p = renderPlaceholder context' p := by
  rw [renderPlaceholder, renderPlaceholder, h]

theorem renderSegments_congr
    (h : ∀ path ∈ named parts, context.resolvePath? path = context'.resolvePath? path) :
    renderSegments context parts = renderSegments context' parts := by
  induction parts with
  | nil => rfl
  | cons part rest ih =>
    cases part with
    | text cs => rw [renderSegments, renderSegments, ih h]
    | placeholder p =>
      obtain ⟨hp, hrest⟩ := List.forall_mem_cons.mp h
      rw [renderSegments, renderSegments, renderPlaceholder_congr hp, ih hrest]

-- No placeholder is passed over, whatever stands in front of it.
theorem renderSegments_of_unbound
    (h : ∃ path ∈ named parts, context.resolvePath? path = none) :
    ∃ e, renderSegments context parts = .error e := by
  induction parts with
  | nil =>
    obtain ⟨path, hpath, -⟩ := h
    cases hpath
  | cons part rest ih =>
    cases part with
    | text cs =>
      obtain ⟨e, he⟩ := ih h
      exact ⟨e, bind_eq_error_iff.mpr (.inl he)⟩
    | placeholder p =>
      obtain ⟨path, hpath, hnone⟩ := h
      cases hp : renderPlaceholder context p with
      | error e => exact ⟨e, bind_eq_error_iff.mpr (.inl hp)⟩
      | ok s =>
        rcases List.mem_cons.mp hpath with rfl | hpath
        · simp [renderPlaceholder, hnone] at hp
        · obtain ⟨e, he⟩ := ih ⟨path, hpath, hnone⟩
          exact ⟨e, bind_eq_error_iff.mpr (.inr ⟨s, hp, bind_eq_error_iff.mpr (.inl he)⟩)⟩

theorem render_of_placeholders_eq_error {e : Error} (h : placeholders template = .error e) :
    render context template = .error e :=
  bind_eq_error_iff.mpr (.inl (map_eq_error_iff.mp h))

theorem render_congr_of_paths (hpaths : placeholders template = .ok paths)
    (h : ∀ path ∈ paths, context.resolvePath? path = context'.resolvePath? path) :
    render context template = render context' template := by
  obtain ⟨parts, hparts, rfl⟩ := map_eq_ok_iff.mp hpaths
  rw [render, render, hparts]
  exact renderSegments_congr h

-- The variables are listed of every template that has the form of one, and where they are not, the
-- fault is the one that it has in every context. A text depends on the listed variables only, and
-- it depends on each of them.
theorem placeholders_exact (template : String) :
    ((∃ e, placeholders template = .error e) ↔ ¬∃ paths, Lists template.toList paths) ∧
    (∀ e, placeholders template = .error e → ∀ context, render context template = .error e) ∧
    ∀ paths, placeholders template = .ok paths → Lists template.toList paths ∧
      (∀ context context' : Context,
        (∀ path ∈ paths, context.resolvePath? path = context'.resolvePath? path) →
          render context template = render context' template) ∧
      ∀ context : Context, (∃ path ∈ paths, context.resolvePath? path = none) →
        ∃ e, render context template = .error e := by
  refine ⟨?_, fun e he context => render_of_placeholders_eq_error he,
    fun paths hpaths => ⟨placeholders_eq_ok_iff.mp hpaths,
      fun context context' => render_congr_of_paths hpaths, fun context hunbound => ?_⟩⟩
  · simp only [← placeholders_eq_ok_iff]
    cases placeholders template <;> simp
  · obtain ⟨parts, hparts, rfl⟩ := map_eq_ok_iff.mp hpaths
    obtain ⟨e, he⟩ := renderSegments_of_unbound hunbound
    exact ⟨e, bind_eq_error_iff.mpr (.inr ⟨parts, hparts, he⟩)⟩

def quotingBelow : Context :=
  ⟨⟨"more", Dictionary.ofList [("other", .integer 1)]⟩ :: quoting.layers⟩

theorem placeholders_exact_quoting :
    (placeholders misspelled = .error ⟨17, .unknownFilter "shout"⟩ ∧
      (¬∃ paths, Lists misspelled.toList paths) ∧
      render quoting misspelled = .error ⟨17, .unknownFilter "shout"⟩) ∧
    placeholders "{{name}} {{ x |json }}" = .ok [quotingName, unboundName] ∧
    (∀ path ∈ [quotingName, unboundName],
      quoting.resolvePath? path = quotingBelow.resolvePath? path) ∧
    render quoting "{{name}} {{ x |json }}" = render quotingBelow "{{name}} {{ x |json }}" ∧
    quoting.resolvePath? unboundName = none ∧
    ∃ e, render quoting "{{name}} {{ x |json }}" = .error e := by
  have hfault : placeholders misspelled = .error ⟨17, .unknownFilter "shout"⟩ := by cbv
  have hpaths : placeholders "{{name}} {{ x |json }}" = .ok [quotingName, unboundName] := by cbv
  have hsame : ∀ path ∈ [quotingName, unboundName],
      quoting.resolvePath? path = quotingBelow.resolvePath? path := by
    intro path hpath
    fin_cases hpath <;> rfl
  have hnone : quoting.resolvePath? unboundName = none := by cbv
  obtain ⟨hgrammar, hfails, -⟩ := placeholders_exact misspelled
  obtain ⟨-, hreads, hneeds⟩ := (placeholders_exact "{{name}} {{ x |json }}").2.2 _ hpaths
  exact ⟨⟨hfault, hgrammar.mp ⟨_, hfault⟩, hfails _ hfault quoting⟩, hpaths, hsame,
    hreads _ _ hsame, hnone, hneeds quoting ⟨unboundName, by simp, hnone⟩⟩

end Rendering

end Skeleton.Template
