import Skeleton.Proofs.Template.Composition

-- Where the faults of templates are. A template is read to its end before anything is put in, and
-- what stands in front of the first fault has none of its own.

namespace Skeleton.Template

-- Whether a fault is in the text of a template, whatever the context.
def Fault.isStatic : Fault → Bool
  | unterminated => true
  | emptyPlaceholder => true
  | invalidReference _ => true
  | emptyFilter => true
  | unknownFilter _ => true
  | unbound _ => false
  | notScalar _ _ => false

section Placeholders

variable {context : Context} {offset : Nat} {inside : List Char} {p : Placeholder} {fault : Fault}

theorem isStatic_of_readFilters {names : List String} (h : readFilters names = .error fault) :
    fault.isStatic = true := by
  induction names with
  | nil => cases h
  | cons name rest ih =>
    rw [readFilters] at h
    split at h
    · obtain rfl := Except.error.inj h
      rfl
    · split at h
      · obtain rfl := Except.error.inj h
        rfl
      · exact ih (map_eq_error_iff.mp h)

theorem isStatic_of_readPlaceholder (h : readPlaceholder offset inside = .error fault) :
    fault.isStatic = true := by
  unfold readPlaceholder at h
  simp only at h
  split at h
  · obtain rfl := Except.error.inj h
    rfl
  · split at h
    · obtain rfl := Except.error.inj h
      rfl
    · split at h
      · obtain rfl := Except.error.inj h
        rfl
      · exact isStatic_of_readFilters (map_eq_error_iff.mp h)

theorem offset_of_readPlaceholder (h : readPlaceholder offset inside = .ok p) :
    p.offset = offset := by
  unfold readPlaceholder at h
  simp only at h
  split at h
  · cases h
  · split at h
    · cases h
    · split at h
      · cases h
      · obtain ⟨filters, -, rfl⟩ := map_eq_ok_iff.mp h
        rfl

theorem not_isStatic_of_scalarText {path : VarPath} {v : Value}
    (h : scalarText path v = .error fault) : fault.isStatic = false := by
  unfold scalarText at h
  split at h
  · cases h
  · obtain rfl := Except.error.inj h
    rfl

theorem not_isStatic_of_applyFilters {path : VarPath} {filters : List Filter} {v : Value}
    (h : applyFilters path filters v = .error fault) : fault.isStatic = false := by
  induction filters generalizing v with
  | nil => exact not_isStatic_of_scalarText h
  | cons f rest ih =>
    rcases bind_eq_error_iff.mp h with h | ⟨text, -, h⟩
    · unfold applyFilter at h
      split at h
      · cases h
      · exact not_isStatic_of_scalarText (map_eq_error_iff.mp h)
    · exact ih h

theorem renderPlaceholder_eq_error {e : Error} (h : renderPlaceholder context p = .error e) :
    e.offset = p.offset ∧ e.fault.isStatic = false := by
  unfold renderPlaceholder at h
  split at h
  · obtain rfl := Except.error.inj h
    exact ⟨rfl, rfl⟩
  · split at h
    · cases h
    · rename_i hfilters
      obtain rfl := Except.error.inj h
      exact ⟨rfl, not_isStatic_of_applyFilters hfilters⟩

theorem not_isStatic_of_renderSegments {parts : List Segment} {e : Error}
    (h : renderSegments context parts = .error e) : e.fault.isStatic = false := by
  induction parts with
  | nil => cases h
  | cons part rest ih =>
    cases part with
    | text cs =>
      rcases bind_eq_error_iff.mp h with h | ⟨s, -, h⟩
      · exact ih h
      · cases h
    | placeholder p =>
      rcases bind_eq_error_iff.mp h with h | ⟨s, -, h⟩
      · exact (renderPlaceholder_eq_error h).2
      · rcases bind_eq_error_iff.mp h with h | ⟨t, -, h⟩
        · exact ih h
        · cases h

end Placeholders

-- That a fault is at a pair of braces in a text which `offset` characters stand before, and that
-- what stands in front of the braces is sound.
def Locates (sound : Nat → List Char → Prop) (offset : Nat) (cs : List Char) (e : Error) : Prop :=
  ∃ front back, cs = front ++ '\x7b' :: '\x7b' :: back ∧ e.offset = offset + front.length ∧
    sound offset front

def ReadsFrom (offset : Nat) (cs : List Char) : Prop := ∃ parts, segmentsFrom offset cs = .ok parts

def RendersFrom (context : Context) (offset : Nat) (cs : List Char) : Prop :=
  ∃ text, renderFrom context offset cs = .ok text

section Locating

variable {sound : Nat → List Char → Prop} {context : Context} {offset : Nat}
  {cs before rest inside after : List Char} {p : Placeholder} {e : Error}

theorem RendersFrom.reads (h : RendersFrom context offset cs) : ReadsFrom offset cs := by
  obtain ⟨text, h⟩ := h
  obtain ⟨parts, hparts, -⟩ := bind_eq_ok_iff.mp h
  exact ⟨parts, hparts⟩

-- The placeholders in a text are found before any text that follows them.
theorem cutAtPair_replace {c : Char} (h : cutAtPair c cs = some (before, after))
    (other : List Char) : cutAtPair c (before ++ c :: c :: other) = some (before, other) :=
  cutAtPair_eq_some_iff.mpr ⟨rfl, (cutAtPair_eq_some_iff.mp h).2⟩

theorem cutAtPair_of_before {c : Char} (h : cutAtPair c cs = some (before, after)) :
    cutAtPair c before = none :=
  cutAtPair_eq_none_iff.mpr fun hpair =>
    (cutAtPair_eq_some_iff.mp h).2 (hpair.trans List.infix_append_left)

theorem readsFrom_before (hopen : cutAtPair '\x7b' cs = some (before, rest)) :
    ReadsFrom offset before :=
  ⟨_, segmentsFrom_of_plain (cutAtPair_of_before hopen)⟩

theorem rendersFrom_before (hopen : cutAtPair '\x7b' cs = some (before, rest)) :
    RendersFrom context offset before :=
  ⟨_, renderFrom_of_plain (cutAtPair_of_before hopen)⟩

def around (before inside after : List Char) : List Char :=
  before ++ '\x7b' :: '\x7b' :: (inside ++ '\x7d' :: '\x7d' :: after)

theorem length_around :
    offset + before.length + inside.length + 4 + after.length =
      offset + (around before inside after).length := by
  simp only [around, List.length_append, List.length_cons]
  omega

theorem eq_around (hopen : cutAtPair '\x7b' cs = some (before, rest))
    (hclose : cutAtPair '\x7d' rest = some (inside, after)) : cs = around before inside after := by
  rw [append_of_cutAtPair hopen, append_of_cutAtPair hclose, around]

theorem readsFrom_around (hopen : cutAtPair '\x7b' cs = some (before, rest))
    (hclose : cutAtPair '\x7d' rest = some (inside, after))
    (hread : readPlaceholder (offset + before.length) inside = .ok p) {front : List Char}
    (h : ReadsFrom (offset + before.length + inside.length + 4) front) :
    ReadsFrom offset (around before inside front) := by
  obtain ⟨parts, hparts⟩ := h
  have hall : segmentsFrom offset (around before inside front) = _ :=
    segmentsFrom_of_placeholder (cutAtPair_replace hopen _) (cutAtPair_replace hclose front)
  simp only [hread, hparts] at hall
  exact ⟨_, hall⟩

theorem rendersFrom_around (hopen : cutAtPair '\x7b' cs = some (before, rest))
    (hclose : cutAtPair '\x7d' rest = some (inside, after))
    (hread : readPlaceholder (offset + before.length) inside = .ok p) {s : String}
    (hp : renderPlaceholder context p = .ok s) {front : List Char}
    (h : RendersFrom context (offset + before.length + inside.length + 4) front) :
    RendersFrom context offset (around before inside front) := by
  obtain ⟨text, htext⟩ := h
  have hall : renderFrom context offset (around before inside front) = _ :=
    renderFrom_of_placeholder (cutAtPair_replace hopen _) (cutAtPair_replace hclose front) hread hp
  rw [htext] at hall
  exact ⟨_, hall⟩

-- A fault behind a placeholder is one of the whole text, where the placeholder is sound.
theorem Locates.around (hsound : ∀ front,
      sound (offset + before.length + inside.length + 4) front →
        sound offset (around before inside front))
    (h : Locates sound (offset + before.length + inside.length + 4) after e) :
    Locates sound offset (around before inside after) e := by
  obtain ⟨front, back, rfl, hoffset, hfront⟩ := h
  refine ⟨Template.around before inside front, back, ?_, ?_, hsound front hfront⟩
  · simp [Template.around]
  · rw [hoffset, length_around]

-- By induction on the reading: the placeholders up to the one with the fault are read.
theorem locates_of_segmentsFrom (h : segmentsFrom offset cs = .error e) :
    e.fault.isStatic = true ∧ Locates ReadsFrom offset cs e := by
  fun_induction segmentsFrom offset cs with
  | case1 => cases h
  | case2 offset cs before rest hopen start hclose =>
    obtain rfl := Except.error.inj h
    exact ⟨rfl, before, rest, append_of_cutAtPair hopen, rfl, readsFrom_before hopen⟩
  | case3 offset cs before rest hopen start inside after hclose fault hread =>
    obtain rfl := Except.error.inj h
    exact ⟨isStatic_of_readPlaceholder hread, before, rest, append_of_cutAtPair hopen, rfl,
      readsFrom_before hopen⟩
  | case4 offset cs before rest hopen start inside after hclose p hread e' hrest ih =>
    obtain rfl := Except.error.inj h
    obtain ⟨hstatic, hlocates⟩ := ih hrest
    rw [eq_around hopen hclose]
    exact ⟨hstatic, hlocates.around fun front => readsFrom_around hopen hclose hread⟩
  | case5 => cases h

-- By induction on the reading again, which has come to its end: the placeholders up to the one with
-- the fault have texts.
theorem locates_of_renderSegments {parts : List Segment}
    (hparts : segmentsFrom offset cs = .ok parts) (h : renderSegments context parts = .error e) :
    Locates (RendersFrom context) offset cs e := by
  fun_induction segmentsFrom offset cs generalizing parts with
  | case1 offset cs hopen =>
    have hplain := @renderFrom_of_plain context offset cs hopen
    rw [renderFrom, segmentsFrom_of_plain hopen, hparts] at hplain
    cases h.symm.trans hplain
  | case2 => cases hparts
  | case3 => cases hparts
  | case4 => cases hparts
  | case5 offset cs before rest hopen start inside after hclose p hread parts' hrest =>
    rename_i ih
    obtain rfl := Except.ok.inj hparts
    rw [renderSegments_text, map_eq_error_iff] at h
    rcases bind_eq_error_iff.mp h with hp | ⟨s, hp, h⟩
    · exact ⟨before, rest, append_of_cutAtPair hopen,
        (renderPlaceholder_eq_error hp).1.trans (offset_of_readPlaceholder hread),
        rendersFrom_before hopen⟩
    · rcases bind_eq_error_iff.mp h with h | ⟨t, -, h⟩
      · rw [eq_around hopen hclose]
        exact (ih hrest h).around fun front => rendersFrom_around hopen hclose hread hp
      · cases h

end Locating

def Error.front (e : Error) (template : String) : String :=
  String.ofList (template.toList.take e.offset)

section Templates

variable {sound : Nat → List Char → Prop} {context : Context} {template : String} {e : Error}

theorem Locates.braces (h : Locates sound 0 template.toList e) :
    template.toList[e.offset]? = some '\x7b' ∧ template.toList[e.offset + 1]? = some '\x7b' ∧
      sound 0 (e.front template).toList := by
  obtain ⟨front, back, hcs, hoffset, hfront⟩ := h
  rw [Nat.zero_add] at hoffset
  rw [Error.front, hcs, hoffset]
  simp [hfront]

theorem placeholders_eq_ok (h : ReadsFrom 0 template.toList) :
    ∃ paths, placeholders template = .ok paths := by
  obtain ⟨parts, hparts⟩ := h
  exact ⟨_, map_eq_ok_iff.mpr ⟨parts, hparts, rfl⟩⟩

-- What a rendering fails with is the first fault: two braces open its placeholder, and what stands
-- in front of them can be read. A fault of the text does not depend on the context, and it comes
-- before those of values; where only a value is at fault, all in front of it has a text.
theorem first_fault_of_render (h : render context template = .error e) :
    (template.toList[e.offset]? = some '\x7b' ∧ template.toList[e.offset + 1]? = some '\x7b' ∧
      ∃ paths, placeholders (e.front template) = .ok paths) ∧
    (e.fault.isStatic = true → ∀ other, render other template = .error e) ∧
    (e.fault.isStatic = false → (∃ paths, placeholders template = .ok paths) ∧
      ∃ text, render context (e.front template) = .ok text) := by
  rcases bind_eq_error_iff.mp h with hread | ⟨parts, hparts, hrender⟩
  · obtain ⟨hstatic, hlocates⟩ := locates_of_segmentsFrom hread
    obtain ⟨hfirst, hsecond, hfront⟩ := hlocates.braces
    refine ⟨⟨hfirst, hsecond, placeholders_eq_ok hfront⟩, fun _ other => ?_, fun hvalue => ?_⟩
    · exact bind_eq_error_iff.mpr (.inl hread)
    · rw [hstatic] at hvalue
      cases hvalue
  · have hvalue := not_isStatic_of_renderSegments hrender
    obtain ⟨hfirst, hsecond, hfront⟩ := (locates_of_renderSegments hparts hrender).braces
    refine ⟨⟨hfirst, hsecond, placeholders_eq_ok hfront.reads⟩, fun hstatic => ?_, fun _ => ?_⟩
    · rw [hvalue] at hstatic
      cases hstatic
    · exact ⟨placeholders_eq_ok ⟨parts, hparts⟩, hfront⟩

-- A placeholder without a value, and behind it one with a filter that does not exist.
def misspelled : String := "é {{name}} {{x}} {{name | shout}}"

theorem first_fault_of_render_misspelled :
    (render quoting misspelled = .error ⟨17, .unknownFilter "shout"⟩ ∧
      misspelled.toList[17]? = some '\x7b' ∧ misspelled.toList[18]? = some '\x7b' ∧
      (∃ paths, placeholders "é {{name}} {{x}} " = .ok paths) ∧
      render .empty misspelled = .error ⟨17, .unknownFilter "shout"⟩) ∧
    render quoting "é {{name}} {{x}}" = .error ⟨11, .unbound unboundName⟩ ∧
      (∃ paths, placeholders "é {{name}} {{x}}" = .ok paths) ∧
      ∃ text, render quoting "é {{name}} " = .ok text := by
  have htext : render quoting misspelled = .error ⟨17, .unknownFilter "shout"⟩ := by cbv
  have hvalue : render quoting "é {{name}} {{x}}" = .error ⟨11, .unbound unboundName⟩ := by cbv
  obtain ⟨⟨hfirst, hsecond, hfront⟩, hstatic, -⟩ := first_fault_of_render htext
  exact ⟨⟨htext, hfirst, hsecond, hfront, hstatic rfl .empty⟩, hvalue,
    (first_fault_of_render hvalue).2.2 rfl⟩

end Templates

end Skeleton.Template
