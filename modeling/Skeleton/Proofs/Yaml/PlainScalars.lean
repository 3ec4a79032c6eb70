import Skeleton.Proofs.Yaml.Places

-- Plain scalars are read as far as they were written.

namespace Skeleton.Yaml

section Reading

variable {indent : Int} {text bs cs tail rest : List Char} {inWord afterBlank : Bool} {c : Cursor}

theorem readPlain_blank {gap : Gap} (hrest : c.rest = ' ' :: rest) :
    readPlain false indent text gap inWord c =
      readPlain false indent text (gap.addBlank ' ') false (c.skip 1) := by
  obtain ⟨_, index, line, column⟩ := c
  cases hrest
  rw [readPlain.eq_def]
  simp [isBlankChar]

theorem readPlain_char {x : Char} {gap : Gap} (hrest : c.rest = x :: rest)
    (hblank : isBlankChar x = false) (hbreak : isBreak x = false)
    (hword : inWord = true ∨ endsBeforeWord false indent c x = false)
    (hends : endsBefore false x rest = false) :
    readPlain false indent text gap inWord c =
      readPlain false indent (x :: (gap.folded ++ text)) .none true (c.skip 1) := by
  have hword : (!inWord && endsBeforeWord false indent c x) = false := by
    rcases hword with h | h <;> simp [h]
  obtain ⟨_, index, line, column⟩ := c
  cases hrest
  rw [readPlain.eq_def]
  simp [hblank, hbreak, hword, hends]

theorem startsBlank_append (hne : cs ≠ []) : startsBlank (cs ++ tail) = startsBlank cs := by
  obtain ⟨x, rest, rfl⟩ := List.exists_cons_of_ne_nil hne
  rfl

-- The characters of a plain scalar are read one after another, with the blanks among them.
theorem readPlain_append (hrest : c.rest = cs ++ tail) (hne : cs ≠ [])
    (hchars : ∀ x ∈ cs, isBreak x = false ∧ x ≠ '\t') (hlast : cs.getLast? ≠ some ' ')
    (hclean : hasIndicatorFrom false afterBlank cs = false)
    (hafter : inWord = true ∨ afterBlank = true ∧ 0 < c.column ∧ indent ≤ c.column)
    (hcolumn : indent ≤ c.column + 1) :
    readPlain false indent text (.blanks bs) inWord c =
      readPlain false indent (cs.reverse ++ bs ++ text) .none true (c.skip cs.length) := by
  induction cs generalizing text bs inWord afterBlank c with
  | nil => exact absurd rfl hne
  | cons x cs ih =>
    obtain ⟨⟨hbreak, htab⟩, hothers⟩ := List.forall_mem_cons.mp hchars
    rw [hasIndicatorFrom, Bool.or_eq_false_iff] at hclean
    have hskip : (c.skip 1).rest = cs ++ tail := by simp [Cursor.skip, hrest]
    have hright : indent ≤ (c.skip 1).column := hcolumn
    have hright' : indent ≤ (c.skip 1).column + 1 := hright.trans (Int.le_add_one le_rfl)
    have hpositive : 0 < (c.skip 1).column := Nat.succ_pos _
    by_cases hspace : x = ' '
    · subst hspace
      have hne : cs ≠ [] := by
        rintro rfl
        exact hlast rfl
      have hlast : cs.getLast? ≠ some ' ' := by
        rwa [List.getLast?_cons_of_ne_nil hne] at hlast
      rw [readPlain_blank hrest, Gap.addBlank,
        ih hskip hne hothers hlast hclean.2 (.inr ⟨rfl, hpositive, hright⟩) hright', skip_skip]
      simp [Nat.add_comm]
    · have hblank : isBlankChar x = false := by simp [isBlankChar, hspace, htab]
      have hends : endsBefore false x (cs ++ tail) = false := by
        rcases eq_or_ne cs [] with rfl | hne
        · have hcolon : x ≠ ':' := by
            rintro rfl
            simp [isIndicator, startsBlank] at hclean
          simp [endsBefore, hcolon]
        · have hcolon := hclean.1
          simp only [isIndicator, Bool.false_eq_true, if_false, Bool.or_eq_false_iff] at hcolon
          simp only [endsBefore, startsBlank_append hne, hcolon.1, Bool.false_and, Bool.or_self]
      have hword : inWord = true ∨ endsBeforeWord false indent c x = false := by
        refine hafter.imp_right fun hafter => ?_
        obtain ⟨hafter, hpositive, hcolumn⟩ := hafter
        have hcomment : x ≠ '#' := by
          rintro rfl
          simp [isIndicator, hafter] at hclean
        have hcolumn' : c.column ≠ 0 := hpositive.ne'
        simp [endsBeforeWord, atDocumentIndicator, hcomment, hcolumn', hcolumn]
      rw [readPlain_char hrest hblank hbreak hword hends]
      rcases eq_or_ne cs [] with rfl | hne
      · simp [Gap.folded]
      · have hlast : cs.getLast? ≠ some ' ' := by
          rwa [List.getLast?_cons_of_ne_nil hne] at hlast
        rw [Gap.folded, Gap.none, ih hskip hne hothers hlast hclean.2 (.inl rfl) hright',
          skip_skip]
        simp [Gap.none, Nat.add_comm]

theorem readPlain_spaces {b : Option Char} {more : List Char} (k : Nat)
    (hrest : c.rest = spaces k ++ rest) :
    readPlain false indent text (.breaks b more) false c =
      readPlain false indent text (.breaks b more) false (c.skip k) := by
  induction k generalizing c with
  | zero => simp [Cursor.skip]
  | succ k ih =>
    have hcons : c.rest = ' ' :: (spaces k ++ rest) := by
      simpa [spaces, List.replicate_succ] using hrest
    rw [readPlain_blank hcons, Gap.addBlank, ih (by simp [Cursor.skip, hcons]), skip_skip,
      Nat.add_comm 1 k]

-- A plain scalar ends before a line that is not indented enough.
theorem readPlain_line (text : List Char) {m : Nat} (hrest : c.rest = '\n' :: (spaces m ++ rest))
    (hstarts : StartsToken rest) (hcolumn : rest = [] ∨ (m : Int) < indent) :
    readPlain false indent text .none true c =
      .ok ⟨String.ofList text.reverse, ⟨rest, c.index + 1 + m, c.line + 1, m⟩, true⟩ := by
  have hbreak : c.skipBreak = ⟨spaces m ++ rest, c.index + 1, c.line + 1, 0⟩ := by
    simp [Cursor.skipBreak, hrest, isBreak]
  have hskip : (⟨spaces m ++ rest, c.index + 1, c.line + 1, 0⟩ : Cursor).skip m =
      ⟨rest, c.index + 1 + m, c.line + 1, m⟩ := by
    simp [Cursor.skip, spaces]
  have hstep : readPlain false indent text .none true c =
      readPlain false indent text (.breaks (some '\n') []) false c.skipBreak := by
    obtain ⟨_, index, line, column⟩ := c
    cases hrest
    rw [readPlain.eq_def]
    simp [isBlankChar, isBreak, Gap.none, Gap.addBreak, breakText]
  rw [hstep, hbreak, readPlain_spaces m rfl, hskip, readPlain.eq_def]
  split
  · rfl
  · rename_i y rest' h
    obtain ⟨hspace, htab, -, hnobreak⟩ := hstarts y (by simp [show rest = y :: rest' from h])
    have hless : (m : Int) < indent := hcolumn.resolve_left (by simp [show rest = y :: rest' from h])
    simp [isBlankChar, hspace, htab, hnobreak, endsBeforeWord, hless, Gap.isBroken]

theorem readPlain_colon (hrest : c.rest = ':' :: rest) (hblank : startsBlank rest = true) :
    readPlain false indent text .none true c = .ok ⟨String.ofList text.reverse, c, false⟩ := by
  obtain ⟨_, index, line, column⟩ := c
  cases hrest
  rw [readPlain.eq_def]
  simp [isBlankChar, isBreak, endsBefore, hblank, Gap.none, Gap.isBroken]

theorem readPlain_end (hrest : c.rest = []) :
    readPlain false indent text .none true c = .ok ⟨String.ofList text.reverse, c, false⟩ := by
  obtain ⟨_, index, line, column⟩ := c
  cases hrest
  rw [readPlain.eq_def]
  rfl

-- What is no indicator at the start is none within a scalar.
theorem hasIndicatorFrom_false_of_first (h : hasIndicator cs = false) :
    hasIndicatorFrom false true cs = false := by
  rw [hasIndicator, Bool.or_eq_false_iff] at h
  cases cs with
  | nil => rfl
  | cons x rest =>
    have hfrom := h.2
    rw [hasIndicatorFrom, Bool.or_eq_false_iff] at hfrom ⊢
    refine ⟨?_, hfrom.2⟩
    have hfirst := hfrom.1
    simp only [isIndicator, if_true, Bool.or_eq_false_iff] at hfirst
    have hcomment : x ≠ '#' := by
      rintro rfl
      exact absurd hfirst.1 (by decide)
    have hcolon : (x == ':' && startsBlank rest) = false := by
      cases hx : x == ':' <;> simp_all
    simp [isIndicator, hcolon, hcomment]

end Reading

-- What a plain scalar is read as, wherever it may stand.
theorem readPlain_placed {cs : List Char} {parent : Int} {p : Follow} {c : Cursor}
    (hne : cs ≠ []) (hallowed : plainAllowed cs = true) (hfits : p.Fits parent)
    (hrest : c.rest = cs ++ p.tail) (hcolumn : parent ≤ c.column) :
    ∃ d broken, readPlain false (parent + 1) [] .none true c = .ok ⟨String.ofList cs, d, broken⟩ ∧
      p.Reached c d broken ∧ d.rest.length < c.rest.length := by
  simp only [plainAllowed, Bool.and_eq_true, Bool.not_eq_true'] at hallowed
  obtain ⟨⟨⟨hplain, hbreaks⟩, hspaces⟩, hclean⟩ := hallowed
  have hchars : ∀ x ∈ cs, isBreak x = false ∧ x ≠ '\t' := by
    intro x hx
    refine ⟨by simpa using List.any_eq_false.mp hbreaks x hx, ?_⟩
    rintro rfl
    exact absurd (List.all_eq_true.mp hplain _ hx) (by decide)
  have hlast : cs.getLast? ≠ some ' ' := by
    intro h
    simp [startsOrEndsWith, h, isSpace] at hspaces
  have hclean := hasIndicatorFrom_false_of_first hclean
  have hall := @readPlain_append _ [] [] _ _ _ true _ hrest hne hchars hlast hclean (.inl rfl)
    (show parent + 1 ≤ c.column + 1 by omega)
  rw [List.append_nil, List.append_nil] at hall
  rw [Gap.none, hall]
  have htail : (c.skip cs.length).rest = p.tail := by simp [Cursor.skip, hrest]
  have hpositive := List.length_pos_iff.mpr hne
  have hahead : c.Ahead (c.skip cs.length) := Cursor.ahead_skip hpositive (by simp [hrest])
  have hshorter : (c.skip cs.length).rest.length < c.rest.length :=
    Cursor.length_skip_lt (by simp [hrest, hne]) hpositive
  have hreached (broken : Bool) : p.Reached c (c.skip cs.length) broken :=
    Follow.reached_of_tail hfits htail le_rfl fun _ _ => hahead
  cases p with
  | colon rest =>
    refine ⟨c.skip cs.length, false, ?_, hreached false, hshorter⟩
    rw [readPlain_colon htail hfits, List.reverse_reverse]
  | line column rest =>
    have hread := readPlain_line cs.reverse htail hfits.1
      (hfits.2.symm.imp And.left fun h => (show (column : Int) < parent + 1 by omega))
    rw [List.reverse_reverse] at hread
    refine ⟨_, true, hread, ⟨_, skipToToken_of_startsToken hfits.1, rfl, rfl, Nat.lt_succ_self _⟩, ?_⟩
    rw [htail] at hshorter
    simp only [Follow.tail, List.length_cons, List.length_append] at hshorter
    change rest.length < _
    omega
  | cut =>
    refine ⟨c.skip cs.length, false, ?_, hreached false, hshorter⟩
    rw [readPlain_end htail, List.reverse_reverse]

end Skeleton.Yaml
