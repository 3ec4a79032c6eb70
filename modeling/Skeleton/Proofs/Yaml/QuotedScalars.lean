import Skeleton.Proofs.Text.Numerals
import Skeleton.Proofs.Yaml.Places

-- Scalars in quotes are read as they were written.

namespace Skeleton.Yaml

section Steps

variable {quote : Char} {text rest tail bs more : List Char} {gap : Gap} {b : Option Char} {c : Cursor}

theorem atDocumentIndicator_of_head {x : Char} (hrest : c.rest = x :: rest) (hdash : x ≠ '-')
    (hdot : x ≠ '.') : atDocumentIndicator c = false := by
  simp [atDocumentIndicator, hrest, hdash.symm, hdot.symm]

theorem atDocumentIndicator_of_column (h : 0 < c.column) : atDocumentIndicator c = false := by
  simp [atDocumentIndicator, h.ne']

theorem readQuoted_space (hrest : c.rest = ' ' :: rest) : readQuoted quote text gap c =
    readQuoted quote text (gap.addBlank ' ') (c.skip 1) := by
  have hindicator := atDocumentIndicator_of_head hrest (by decide) (by decide)
  obtain ⟨_, index, line, column⟩ := c
  cases hrest
  rw [readQuoted.eq_def]
  simp [hindicator, isBlankChar]

theorem readQuoted_spaces (k : Nat) (hrest : c.rest = spaces k ++ rest) :
    readQuoted quote text (.breaks b more) c =
      readQuoted quote text (.breaks b more) (c.skip k) := by
  induction k generalizing c with
  | zero => simp [Cursor.skip]
  | succ k ih =>
    have hcons : c.rest = ' ' :: (spaces k ++ rest) := by
      simpa [spaces, List.replicate_succ] using hrest
    rw [readQuoted_space hcons, Gap.addBlank, ih (by simp [Cursor.skip, hcons]), skip_skip,
      Nat.add_comm 1 k]

-- The breaks that scalars in quotes show: separators of lines and of paragraphs.
theorem readQuoted_separator {x : Char} (hx : x = '\u2028' ∨ x = '\u2029')
    (hrest : c.rest = x :: rest) : readQuoted quote text gap c =
      readQuoted quote text (gap.addBreak x) ⟨rest, c.index + 1, c.line + 1, 0⟩ := by
  have hbreak : c.skipBreak = ⟨rest, c.index + 1, c.line + 1, 0⟩ := by
    rcases hx with rfl | rfl <;> simp [Cursor.skipBreak, hrest, isBreak]
  have hindicator : atDocumentIndicator c = false := by
    rcases hx with rfl | rfl <;> exact atDocumentIndicator_of_head hrest (by decide) (by decide)
  obtain ⟨_, index, line, column⟩ := c
  cases hrest
  rw [readQuoted.eq_def]
  rcases hx with rfl | rfl <;> simp [hindicator, isBlankChar, isBreak, hbreak]

theorem readQuoted_char {x : Char} (hrest : c.rest = x :: rest) (hblank : isBlankChar x = false)
    (hbreak : isBreak x = false) (hcolumn : 0 < c.column) (hquote : x ≠ quote)
    (hescape : quote = '"' → x ≠ '\\') : readQuoted quote text gap c =
      readQuoted quote (x :: (gap.folded ++ text)) .none (c.skip 1) := by
  have hescape : ¬ (quote = '"' ∧ x = '\\') := fun ⟨h, hx⟩ => hescape h hx
  obtain ⟨_, index, line, column⟩ := c
  cases hrest
  rw [readQuoted.eq_def]
  simp [atDocumentIndicator_of_column hcolumn, hblank, hbreak, hquote, hescape]

theorem readQuoted_two_quotes (hrest : c.rest = '\'' :: '\'' :: rest) :
    readQuoted '\'' text gap c =
      readQuoted '\'' ('\'' :: (gap.folded ++ text)) .none (c.skip 2) := by
  have hindicator := atDocumentIndicator_of_head hrest (by decide) (by decide)
  obtain ⟨_, index, line, column⟩ := c
  cases hrest
  rw [readQuoted.eq_def]
  simp [hindicator, isBlankChar, isBreak]

theorem readQuoted_close (hquote : quote = '\'' ∨ quote = '"') (hrest : c.rest = quote :: tail)
    (htail : tail.head? ≠ some '\'') : readQuoted quote text gap c =
      .ok (String.ofList (gap.folded ++ text).reverse, c.skip 1) := by
  have hindicator : atDocumentIndicator c = false := by
    rcases hquote with rfl | rfl <;> exact atDocumentIndicator_of_head hrest (by decide) (by decide)
  obtain ⟨_, index, line, column⟩ := c
  cases hrest
  rw [readQuoted.eq_def]
  rcases hquote with rfl | rfl <;> simp [hindicator, isBlankChar, isBreak, htail]

end Steps

section Single

variable {n : Nat} {x : Char} {text cs rest behind : List Char} {gap : Gap} {c : Cursor}

theorem isSeparator_of_isBreak (hplain : isPlainChar x = true) (hnewline : x ≠ '\n')
    (hbreak : isBreak x = true) : x = '\u2028' ∨ x = '\u2029' := by
  simp only [isBreak, Bool.or_eq_true, beq_iff_eq] at hbreak
  rcases hbreak with (((rfl | rfl) | rfl) | hseparator) | hseparator
  · exact absurd rfl hnewline
  · exact absurd hplain (by decide)
  · exact absurd hplain (by decide)
  · exact .inl hseparator
  · exact .inr hseparator

-- The characters that single quotes can show, where no blanks stand beside breaks.
structure Showable (cs : List Char) : Prop where
  plain : ∀ x ∈ cs, isPlainChar x = true ∧ x ≠ '\n'
  breakSpace : hasPair isBreak isSpace cs = false
  spaceBreak : hasPair isSpace isBreak cs = false

theorem hasPair_cons {p q : Char → Bool} :
    hasPair p q (x :: cs) = ((cs.head?.any fun y => p x && q y) || hasPair p q cs) := by
  cases cs <;> rfl

theorem Showable.tail (h : Showable (x :: cs)) : Showable cs where
  plain y hy := h.plain y (List.mem_cons_of_mem _ hy)
  breakSpace := by
    have hpair := h.breakSpace
    rw [hasPair_cons, Bool.or_eq_false_iff] at hpair
    exact hpair.2
  spaceBreak := by
    have hpair := h.spaceBreak
    rw [hasPair_cons, Bool.or_eq_false_iff] at hpair
    exact hpair.2

theorem Showable.isBlankChar (h : Showable (x :: cs)) (hspace : x ≠ ' ') :
    isBlankChar x = false := by
  have htab : x ≠ '\t' := by
    rintro rfl
    exact absurd (h.plain _ List.mem_cons_self).1 (by decide)
  simp [Yaml.isBlankChar, hspace, htab]

-- The gap between the last character that counts and the rest of a text.
inductive Pending (cs : List Char) : Bool → Gap → Prop
  | blanks {bs} (h : bs ≠ [] → ∀ x ∈ cs.head?, isBreak x = false) : Pending cs false (.blanks bs)
  | breaks {b more} (hb : b ≠ '\n') (h : cs.head? ≠ some ' ') :
      Pending cs true (.breaks (some b) more)

theorem Gap.folded_breaks {b : Char} {more : List Char} (hb : b ≠ '\n') :
    (Gap.breaks (some b) more).folded = more ++ [b] := by
  unfold Gap.folded
  split <;> simp_all

-- A character in single quotes, which is two where it is a quote.
theorem readQuoted_single_char (hrest : c.rest = (if x = '\'' then ['\'', '\''] else [x]) ++ rest)
    (hcolumn : 0 < c.column) (hblank : isBlankChar x = false) (hbreak : isBreak x = false) :
    ∃ k, readQuoted '\'' text gap c =
        readQuoted '\'' (x :: (gap.folded ++ text)) .none (c.skip k) ∧
      (c.skip k).rest = rest ∧ c.Ahead (c.skip k) := by
  by_cases hquote : x = '\''
  · subst hquote
    rw [if_pos rfl] at hrest
    exact ⟨2, readQuoted_two_quotes hrest, by simp [Cursor.skip, hrest],
      Cursor.ahead_skip (by decide) (by simp [hrest])⟩
  · rw [if_neg hquote] at hrest
    exact ⟨1, readQuoted_char hrest hblank hbreak hcolumn hquote
      (fun h => absurd h (by decide)),
      by simp [Cursor.skip, hrest], Cursor.ahead_skip (by decide) (by simp [hrest])⟩

-- A break behind a gap joins it, since no blanks stand before it.
theorem Pending.addBreak {afterBreak : Bool} (h : Pending (x :: cs) afterBreak gap)
    (hcs : Showable (x :: cs)) (hbreak : isBreak x = true) :
    Pending cs true (gap.addBreak x) ∧ (gap.addBreak x).folded = x :: gap.folded := by
  obtain ⟨hplain, hnewline⟩ := hcs.plain x List.mem_cons_self
  have htext : breakText x = x := by
    rcases isSeparator_of_isBreak hplain hnewline hbreak with rfl | rfl <;> rfl
  have hhead : cs.head? ≠ some ' ' := by
    intro hhead
    have hpair := hcs.breakSpace
    simp [hasPair_cons, hhead, hbreak, isSpace] at hpair
  cases h with
  | @blanks bs hblanks =>
    obtain rfl : bs = [] := by
      by_contra hne
      rw [hblanks hne x rfl] at hbreak
      cases hbreak
    rw [Gap.addBreak, htext, Gap.folded_breaks hnewline]
    exact ⟨.breaks hnewline hhead, rfl⟩
  | breaks hb =>
    rw [Gap.addBreak, htext, Gap.folded_breaks hb, Gap.folded_breaks hb]
    exact ⟨.breaks hb hhead, rfl⟩

-- A space joins a gap without breaks, and no other gap stands before one.
theorem Pending.addBlank {afterBreak : Bool} (h : Pending (' ' :: cs) afterBreak gap)
    (hcs : Showable (' ' :: cs)) : afterBreak = false ∧ Pending cs false (gap.addBlank ' ') ∧
      (gap.addBlank ' ').folded = ' ' :: gap.folded := by
  cases h with
  | blanks =>
    refine ⟨rfl, .blanks fun _ y hy => ?_, rfl⟩
    have hpair := hcs.spaceBreak
    rw [hasPair_cons, Option.mem_def.mp hy, Bool.or_eq_false_iff] at hpair
    simpa [isSpace] using hpair.1
  | breaks _ hhead => exact absurd rfl hhead

-- The indentation of a line after a break is no part of the text.
theorem Pending.readQuoted_indentation {afterBreak : Bool} (h : Pending cs afterBreak gap)
    (hn : 0 < n) (hcolumn : afterBreak = false → 0 < c.column)
    (hrest : c.rest = (if afterBreak then spaces n else []) ++ rest) :
    ∃ k, (afterBreak = false → k = 0) ∧
      (∀ text, readQuoted '\'' text gap c = readQuoted '\'' text gap (c.skip k)) ∧
      (c.skip k).rest = rest ∧ 0 < (c.skip k).column := by
  cases h with
  | blanks => exact ⟨0, fun _ => rfl, fun _ => rfl, hrest, hcolumn rfl⟩
  | breaks =>
    have hspaces : c.rest = spaces n ++ rest := hrest
    exact ⟨n, fun h => absurd h (by decide), fun _ => readQuoted_spaces n hspaces,
      by simp [Cursor.skip, hspaces, spaces], hn.trans_le (Nat.le_add_left _ _)⟩

theorem readQuoted_single (hn : 0 < n) {afterBreak : Bool} (hcs : Showable cs)
    (hgap : Pending cs afterBreak gap) (hcolumn : afterBreak = false → 0 < c.column)
    (htail : behind.head? ≠ some '\'')
    (hrest : c.rest = singleBody n afterBreak cs ++ '\'' :: behind) :
    ∃ d, readQuoted '\'' text gap c =
        .ok (String.ofList ((gap.folded ++ text).reverse ++ cs), d) ∧ d.rest = behind ∧
      c.line ≤ d.line ∧ d.rest.length < c.rest.length ∧
      (afterBreak = false → (∀ x ∈ cs, isBreak x = false) → c.Ahead d) := by
  induction cs generalizing text gap c afterBreak with
  | nil =>
    obtain ⟨k, hk, hskip, hclose, -⟩ := hgap.readQuoted_indentation hn hcolumn hrest
    have hpositive : 0 < (c.skip k).rest.length := by simp [hclose]
    refine ⟨(c.skip k).skip 1, ?_, congrArg (List.drop 1) hclose, le_rfl,
      (Cursor.length_skip_lt (List.length_pos_iff.mp hpositive) Nat.one_pos).trans_le
        (c.length_skip_le k), fun h _ => ?_⟩
    · rw [hskip, readQuoted_close (.inl rfl) hclose htail, List.append_nil]
    · obtain rfl := hk h
      exact Cursor.ahead_skip Nat.one_pos hpositive
  | cons x cs ih =>
    by_cases hbreak : isBreak x = true
    · obtain ⟨hplain, hnewline⟩ := hcs.plain x List.mem_cons_self
      obtain ⟨hpending, hfolded⟩ := hgap.addBreak hcs hbreak
      have hbody : c.rest = x :: (singleBody n true cs ++ '\'' :: behind) := by
        rw [hrest, singleBody, if_pos hbreak, List.cons_append]
      obtain ⟨d, hread, hd, hline, hshorter, -⟩ := @ih text _
        ⟨singleBody n true cs ++ '\'' :: behind, c.index + 1, c.line + 1, 0⟩ true hcs.tail
        hpending (fun h => absurd h (by decide)) rfl
      refine ⟨d, ?_, hd, (Nat.le_succ _).trans hline, hshorter.trans (by simp [hbody]), ?_⟩
      · rw [readQuoted_separator (isSeparator_of_isBreak hplain hnewline hbreak) hbody, hread,
          hfolded]
        simp
      · intro _ hnone
        rw [hnone x List.mem_cons_self] at hbreak
        cases hbreak
    · rw [Bool.not_eq_true] at hbreak
      rw [singleBody, if_neg (by simp [hbreak])] at hrest
      by_cases hspace : x = ' '
      · subst hspace
        obtain ⟨rfl, hpending, hfolded⟩ := hgap.addBlank hcs
        have hbody : c.rest = ' ' :: (singleBody n false cs ++ '\'' :: behind) := hrest
        have hahead : c.Ahead (c.skip 1) := Cursor.ahead_skip Nat.one_pos (by simp [hbody])
        obtain ⟨d, hread, hd, hline, hshorter, hright⟩ := @ih text _ (c.skip 1) false hcs.tail
          hpending (fun _ => Nat.succ_pos _) (by simp [Cursor.skip, hbody])
        refine ⟨d, ?_, hd, hline, hshorter.trans_le (c.length_skip_le 1), fun _ hnone => ?_⟩
        · rw [readQuoted_space hbody, hread, hfolded]
          simp
        · exact hahead.trans (hright rfl fun y hy => hnone y (List.mem_cons_of_mem _ hy))
      · rw [List.append_assoc, List.append_assoc] at hrest
        obtain ⟨k, hk, hskip, hhere, hpositive⟩ :=
          hgap.readQuoted_indentation hn hcolumn hrest
        obtain ⟨j, hstep, hbehind, hahead⟩ := @readQuoted_single_char _ text _ gap _
          hhere hpositive (hcs.isBlankChar hspace) hbreak
        obtain ⟨d, hread, hd, hline, hshorter, hright⟩ := @ih (x :: (gap.folded ++ text)) .none
          ((c.skip k).skip j) false hcs.tail (.blanks (absurd rfl))
          (fun _ => hpositive.trans hahead.column) hbehind
        refine ⟨d, ?_, hd, hline, ?_, fun hafter hnone => ?_⟩
        · rw [hskip, hstep, hread]
          simp [Gap.none, Gap.folded]
        · exact hshorter.trans_le (((c.skip k).length_skip_le j).trans (c.length_skip_le k))
        · obtain rfl := hk hafter
          exact hahead.trans (hright rfl fun y hy => hnone y (List.mem_cons_of_mem _ hy))

end Single

section Double

variable {x : Char} {text bs cs rest behind : List Char} {gap : Gap} {c : Cursor}

-- An escape stands for its character.
theorem readQuoted_escape {mark : Char} {more : List Char} {width : Nat}
    (hrest : c.rest = '\\' :: mark :: more) (hcolumn : 0 < c.column) (hmark : isBreak mark = false)
    (hescape : readEscape c mark more = .ok (x, width)) : readQuoted '"' text gap c =
      readQuoted '"' (x :: (gap.folded ++ text)) .none (c.skip (width + 1)) := by
  obtain ⟨_, index, line, column⟩ := c
  cases hrest
  rw [readQuoted.eq_def]
  have hbreak : isBreak '\\' = false := by decide
  simp [atDocumentIndicator_of_column hcolumn, isBlankChar, hbreak, hmark, hescape]

theorem toNat_range (x : Char) :
    x.toNat < 0xD800 ∨ 0xE000 ≤ x.toNat ∧ x.toNat < 0x110000 := by
  have hvalid := x.valid
  simp only [UInt32.isValidChar, Nat.isValidChar] at hvalid
  simp only [Char.toNat]
  omega

theorem scalarValue?_toNat (x : Char) : scalarValue? x.toNat = some x := by
  rw [scalarValue?, if_pos (toNat_range x), Char.ofNat_toNat]

theorem readEscape_hexEscape {mark : Char} {width : Nat} (hmark : escaped? mark = none)
    (hwidth : escapeWidth? mark = some (width + 1)) (hless : x.toNat < 16 ^ (width + 1)) :
    ∃ digits, hexEscape mark (width + 1) x.toNat = '\\' :: mark :: digits ∧
      ∀ c rest, readEscape c mark (digits ++ rest) = .ok (x, digits.length + 1) := by
  obtain ⟨hne, hdigits, hread⟩ := @Text.exists_natDigits 16 (by decide) (by decide) x.toNat
  have hlength := @Text.length_natDigits_le 16 _ (by decide) _ hless
  refine ⟨_, rfl, fun c rest => ?_⟩
  generalize hall : List.replicate (width + 1 - ((Text.natDigits 16 x.toNat).map Char.toUpper).length)
    '0' ++ (Text.natDigits 16 x.toNat).map Char.toUpper = digits
  have hfull : digits.length = width + 1 := by
    rw [← hall, List.length_append, List.length_replicate, List.length_map]
    omega
  have hnumber : Text.readNat? 16 digits = some x.toNat := by
    refine Text.readNat?_eq_some_iff.mpr ⟨(by rintro rfl; cases hfull), ?_⟩
    rw [← hall, Text.readDigits?_append, Text.readDigits?_zeros (by decide), Option.bind_some,
      Nat.zero_mul, Text.readDigits?_map_toUpper hdigits, hread]
  have htake : (digits ++ rest).take (width + 1) = digits := by
    rw [← hfull, List.take_left]
  simp [readEscape, hmark, hwidth, htake, hfull, hnumber, scalarValue?_toNat]

-- A character in double quotes stands for itself or is escaped.
theorem escape_cases (x : Char) :
    (escape x = [x] ∧ isPlainChar x = true ∧ isBreak x = false ∧ x ≠ '"' ∧ x ≠ '\\') ∨
      ∃ mark digits, escape x = '\\' :: mark :: digits ∧ isBreak mark = false ∧
        ∀ c rest, readEscape c mark (digits ++ rest) = .ok (x, digits.length + 1) := by
  unfold escape
  split
  · rename_i h
    simp only [Bool.and_eq_true, Bool.not_eq_true', bne_iff_ne] at h
    exact .inl ⟨rfl, h.1.1.1, h.1.1.2, h.1.2, h.2⟩
  · refine .inr ?_
    have hchar (n : Nat) (h : x.toNat = n) : x = Char.ofNat n := by rw [← h, Char.ofNat_toNat]
    split
    case h_15 =>
      have hrange := toNat_range x
      split
      · obtain ⟨digits, hdigits, hread⟩ := @readEscape_hexEscape x 'x' 1 (by decide) (by decide)
          (by omega)
        exact ⟨_, digits, hdigits, by decide, hread⟩
      · split
        · obtain ⟨digits, hdigits, hread⟩ := @readEscape_hexEscape x 'u' 3 (by decide) (by decide)
            (by omega)
          exact ⟨_, digits, hdigits, by decide, hread⟩
        · obtain ⟨digits, hdigits, hread⟩ := @readEscape_hexEscape x 'U' 7 (by decide) (by decide)
            (by omega)
          exact ⟨_, digits, hdigits, by decide, hread⟩
    all_goals
      rename_i h
      obtain rfl := hchar _ h
      exact ⟨_, _, rfl, by decide, fun c rest => rfl⟩

theorem readQuoted_double (hcolumn : 0 < c.column) (hbehind : behind.head? ≠ some '\'')
    (hrest : c.rest = cs.flatMap escape ++ '"' :: behind) :
    readQuoted '"' text (.blanks bs) c = .ok (String.ofList ((bs ++ text).reverse ++ cs),
      c.skip ((cs.flatMap escape).length + 1)) := by
  induction cs generalizing text bs c with
  | nil =>
    rw [readQuoted_close (.inr rfl) hrest hbehind, List.append_nil]
    rfl
  | cons x cs ih =>
    rw [List.flatMap_cons, List.append_assoc] at hrest
    have hskip : (c.skip (escape x).length).rest = cs.flatMap escape ++ '"' :: behind := by
      simp [Cursor.skip, hrest]
    have hpositive (k : Nat) : 0 < (c.skip k).column := hcolumn.trans_le (Nat.le_add_right _ _)
    have hend (k : Nat) : (c.skip (escape x).length).skip (k + 1) =
        c.skip ((escape x).length + k + 1) := by rw [skip_skip, Nat.add_assoc]
    rw [List.flatMap_cons, List.length_append]
    rcases escape_cases x with ⟨hself, hplain, hbreak, hquote, hbackslash⟩ |
      ⟨mark, digits, hescaped, hmark, hread⟩
    · rw [hself] at hrest hskip hend ⊢
      rw [List.length_singleton] at hskip hend ⊢
      by_cases hspace : x = ' '
      · subst hspace
        rw [readQuoted_space hrest, Gap.addBlank, ih (hpositive 1) hskip, hend]
        simp
      · have hblank : isBlankChar x = false := by
          have htab : x ≠ '\t' := by
            rintro rfl
            exact absurd hplain (by decide)
          simp [isBlankChar, hspace, htab]
        rw [readQuoted_char hrest hblank hbreak hcolumn hquote fun _ => hbackslash, Gap.none,
          ih (hpositive 1) hskip, hend]
        simp [Gap.folded]
    · rw [hescaped] at hrest hskip hend ⊢
      rw [List.length_cons, List.length_cons] at hskip hend ⊢
      rw [readQuoted_escape hrest hcolumn hmark (hread c _), Gap.none, ih (hpositive _) hskip, hend]
      simp [Gap.folded]

end Double

section Placed

variable {n : Nat} {parent : Int} {s : String} {p : Follow} {c : Cursor}

theorem showable_of_single (h : styleOf s = .single) : Showable s.toList := by
  simp only [styleOf] at h
  split at h
  · split at h <;> cases h
  · rename_i hnewline
    split at h
    · cases h
    · split at h
      · rename_i hallowed
        simp only [singleQuotesAllowed, Bool.and_eq_true, Bool.not_eq_true',
          List.all_eq_true] at hallowed
        refine ⟨fun x hx => ⟨hallowed.1.1 x hx, ?_⟩, hallowed.1.2, hallowed.2⟩
        rintro rfl
        exact hnewline (List.contains_iff_mem.mpr hx)
      · cases h

-- What a scalar in single quotes is read as, wherever it may stand. Keys are on one line.
theorem readQuoted_single_placed (hn : 0 < n) (hstyle : styleOf s = .single)
    (hfits : p.Fits parent) (hcolon : ∀ rest, p = .colon rest → ∀ x ∈ s.toList, isBreak x = false)
    (hrest : c.rest = writeString n s ++ p.tail) :
    ∃ d, readQuoted '\'' [] .none (c.skip 1) = .ok (s, d) ∧ p.Reached c d false ∧
      d.rest.length < c.rest.length := by
  have htext : writeString n s = '\'' :: (singleBody n false s.toList ++ ['\'']) := by
    simp only [writeString, hstyle]
  have hopen : (c.skip 1).rest = singleBody n false s.toList ++ '\'' :: p.tail := by
    simp [Cursor.skip, hrest, htext]
  have hahead : c.Ahead (c.skip 1) := Cursor.ahead_skip Nat.one_pos (by simp [hrest, htext])
  obtain ⟨d, hread, hd, hline, hshorter, hright⟩ := @readQuoted_single n [] s.toList p.tail .none
    (c.skip 1) hn false (showable_of_single hstyle) (.blanks (absurd rfl))
    (fun _ => Nat.succ_pos _) p.head?_tail hopen
  rw [Gap.none, Gap.folded, List.append_nil, List.reverse_nil, List.nil_append,
    String.ofList_toList] at hread
  refine ⟨d, hread, Follow.reached_of_tail hfits hd hline fun rest hp => ?_, ?_⟩
  · exact hahead.trans (hright rfl (hcolon rest hp))
  · exact hshorter.trans_le (c.length_skip_le 1)

theorem readQuoted_double_placed (hstyle : styleOf s = .double) (hfits : p.Fits parent)
    (hrest : c.rest = writeString n s ++ p.tail) :
    ∃ d, readQuoted '"' [] .none (c.skip 1) = .ok (s, d) ∧ p.Reached c d false ∧
      d.rest.length < c.rest.length := by
  have htext : writeString n s = '"' :: (s.toList.flatMap escape ++ ['"']) := by
    simp only [writeString, hstyle]
  have hopen : (c.skip 1).rest = s.toList.flatMap escape ++ '"' :: p.tail := by
    simp [Cursor.skip, hrest, htext]
  have hread := @readQuoted_double [] [] s.toList p.tail (c.skip 1) (Nat.succ_pos _) p.head?_tail
    hopen
  rw [List.append_nil, List.reverse_nil, List.nil_append, String.ofList_toList, skip_skip] at hread
  have hlength : 1 + ((s.toList.flatMap escape).length + 1) ≤ c.rest.length := by
    simp only [hrest, htext, List.length_append, List.length_cons, List.length_nil]
    omega
  have hbehind : (c.skip (1 + ((s.toList.flatMap escape).length + 1))).rest = p.tail := by
    rw [← skip_skip, ← skip_skip]
    show ((c.skip 1).rest.drop _).drop 1 = _
    rw [hopen, List.drop_left]
    rfl
  refine ⟨_, hread, Follow.reached_of_tail hfits hbehind le_rfl fun _ _ => ?_, ?_⟩
  · exact Cursor.ahead_skip (by omega) hlength
  · simp only [Cursor.skip, List.length_drop]
    omega

end Placed

end Skeleton.Yaml
