import Skeleton.Proofs.Text.Spans
import Skeleton.Proofs.Yaml.Places
import Skeleton.Yaml.Block

-- Literal blocks are read as they were written, but for line breaks that were cut off their end.

namespace Skeleton.Yaml

def IsBlockBreak (x : Char) : Prop := x = '\n' ∨ x = '\u2028' ∨ x = '\u2029'

section Breaks

variable {x : Char} {c : Cursor} {rest cs : List Char}

theorem isBlockBreak_of_isBreak (hplain : isPlainChar x = true) (hbreak : isBreak x = true) :
    IsBlockBreak x := by
  simp only [isBreak, Bool.or_eq_true, beq_iff_eq] at hbreak
  rcases hbreak with (((h | rfl) | rfl) | h) | h
  · exact .inl h
  · exact absurd hplain (by decide)
  · exact absurd hplain (by decide)
  · exact .inr (.inl h)
  · exact .inr (.inr h)

theorem IsBlockBreak.isBreak (h : IsBlockBreak x) : isBreak x = true := by
  rcases h with rfl | rfl | rfl <;> rfl

theorem IsBlockBreak.breakText (h : IsBlockBreak x) : breakText x = x := by
  rcases h with rfl | rfl | rfl <;> rfl

theorem IsBlockBreak.skipBreak (h : IsBlockBreak x) (hrest : c.rest = x :: rest) :
    c.skipBreak = ⟨rest, c.index + 1, c.line + 1, 0⟩ := by
  rcases h with rfl | rfl | rfl <;> simp [Cursor.skipBreak, hrest, Yaml.isBreak]

end Breaks

section Gaps

variable {n m deepest k : Nat} {breaks bs rest : List Char} {x : Char} {c : Cursor}

-- Nothing more is skipped where neither a break nor a tab is behind the indentation.
theorem readBreaks_stop
    (hk : (if n = 0 then (c.rest.takeWhile isSpace).length
      else min (c.rest.takeWhile isSpace).length (n - c.column)) = k)
    (hstop : ∀ x ∈ (c.rest.drop k).head?, x ≠ '\t' ∧ isBreak x = false) :
    readBreaks n breaks deepest c = .ok (breaks, max deepest (c.column + k), c.skip k) := by
  rw [readBreaks.eq_def]
  simp only [hk]
  split
  · rfl
  · rename_i x hpeek
    rw [hk] at hpeek
    obtain ⟨htab, hbreak⟩ := hstop x hpeek
    simp [htab, hbreak, Cursor.skip]

theorem readBreaks_break (hx : IsBlockBreak x) (hcolumn : c.column = 0)
    (hrest : c.rest = x :: rest) : readBreaks n breaks deepest c =
      readBreaks n (x :: breaks) deepest ⟨rest, c.index + 1, c.line + 1, 0⟩ := by
  have hrun : (if n = 0 then (c.rest.takeWhile isSpace).length
      else min (c.rest.takeWhile isSpace).length (n - c.column)) = 0 := by
    rcases hx with rfl | rfl | rfl <;> simp [hrest, isSpace]
  have htab : x ≠ '\t' := by rcases hx with rfl | rfl | rfl <;> decide
  have hskip : c.skip 0 = c := by simp [Cursor.skip]
  rw [readBreaks.eq_def]
  simp only [hrun]
  split
  · rename_i hpeek
    rw [hrun, hskip, Cursor.peek?, hrest] at hpeek
    cases hpeek
  · rename_i y hpeek
    rw [hrun, hskip, Cursor.peek?, hrest] at hpeek
    obtain rfl := Option.some.inj hpeek
    simp [hskip, htab, hx.isBreak, hx.breakText, hx.skipBreak hrest, hcolumn]

-- Breaks in a row are gathered.
theorem readBreaks_append (hbs : ∀ x ∈ bs, IsBlockBreak x) (hcolumn : c.column = 0)
    (hrest : c.rest = bs ++ rest) : readBreaks n breaks deepest c =
      readBreaks n (bs.reverse ++ breaks) deepest
        ⟨rest, c.index + bs.length, c.line + bs.length, 0⟩ := by
  induction bs generalizing breaks c with
  | nil =>
    obtain ⟨_, _, _, _⟩ := c
    simp_all
  | cons x bs ih =>
    obtain ⟨hx, hbs⟩ := List.forall_mem_cons.mp hbs
    rw [readBreaks_break hx hcolumn hrest, ih hbs rfl rfl]
    simp [Nat.add_comm, Nat.add_left_comm]

-- Up to some spaces, of which no more count than the indentation.
theorem readBreaks_spaces (hbs : ∀ x ∈ bs, IsBlockBreak x) (hcolumn : c.column = 0)
    (hrest : c.rest = bs ++ (spaces m ++ rest)) (hm : n = 0 ∧ (∀ x ∈ rest.head?, x ≠ ' ') ∨
      m = n ∧ 0 < n ∨ m < n ∧ ∀ x ∈ rest.head?, x ≠ ' ')
    (hstop : ∀ x ∈ rest.head?, x ≠ '\t' ∧ isBreak x = false) :
    ∃ d, readBreaks n breaks deepest c = .ok (bs.reverse ++ breaks, max deepest m, d) ∧
      d.rest = rest ∧ d.column = m ∧ c.line + bs.length = d.line := by
  have hspaces : ∀ x ∈ spaces m, isSpace x = true := by
    intro x hx
    obtain rfl := List.eq_of_mem_replicate hx
    rfl
  have hrun : ((spaces m ++ rest).takeWhile isSpace).length =
      m + (rest.takeWhile isSpace).length := by
    rw [List.takeWhile_append_of_pos hspaces, List.length_append, spaces, List.length_replicate]
  have hnone (h : ∀ x ∈ rest.head?, x ≠ ' ') : (rest.takeWhile isSpace).length = 0 := by
    cases rest with
    | nil => rfl
    | cons x rest =>
      have hx : isSpace x = false := by simpa [isSpace] using h x rfl
      simp [hx]
  have hdrop : (spaces m ++ rest).drop m = rest := by simp [spaces]
  have hread := @readBreaks_stop n deepest m (bs.reverse ++ breaks)
    ⟨spaces m ++ rest, c.index + bs.length, c.line + bs.length, 0⟩ (by
      simp only [hrun, Nat.sub_zero]
      rcases hm with ⟨rfl, h⟩ | ⟨rfl, h⟩ | ⟨h, h'⟩
      · simp [hnone h]
      · rw [if_neg h.ne']
        omega
      · rw [if_neg (Nat.zero_lt_of_lt h).ne', hnone h']
        omega) (by simpa only [hdrop] using hstop)
  rw [Nat.zero_add] at hread
  exact ⟨_, (readBreaks_append hbs hcolumn hrest).trans hread, hdrop, Nat.zero_add m, rfl⟩

end Gaps

section Lines

variable {n m : Nat} {line breaks rest behind : List Char} {b : BlockText} {c d : Cursor}

-- What is read so far, the last character first.
def BlockText.all (b : BlockText) : List Char := b.breaks ++ b.lineBreak.toList ++ b.text

theorem readLines_done (h : c.rest = [] ∨ c.column ≠ n) : readLines true n b c = .ok (b, c) := by
  rw [readLines.eq_def]
  split
  · rfl
  · rename_i hrest
    have hcolumn : c.column ≠ n := h.resolve_left (by simp [hrest])
    rw [if_neg hcolumn]

theorem skipLine_of_append (hline : ∀ x ∈ line, isBreak x = false)
    (hbehind : ∀ x ∈ behind.head?, isBreak x = true) (hrest : c.rest = line ++ behind) :
    c.skipLine = c.skip line.length := by
  rw [Cursor.skipLine, Cursor.skipWhile, hrest, takeWhile_append_of_all]
  · simpa using hline
  · simpa using hbehind

theorem readLines_line {deepest : Nat} (hne : line ≠ []) (hline : ∀ x ∈ line, isBreak x = false)
    (hbehind : ∀ x ∈ behind.head?, isBreak x = true) (hrest : c.rest = line ++ behind)
    (hcolumn : c.column = n)
    (hread : readBreaks n [] 0 (c.skip line.length).skipBreak = .ok (breaks, deepest, d)) :
    ∃ blank, readLines true n b c = readLines true n
      ⟨line.reverse ++ b.all, behind.head?.map breakText, breaks, blank⟩ d := by
  have htake : (c.rest.takeWhile fun x => !isBreak x) = line := by
    rw [hrest]
    refine takeWhile_append_of_all ?_ ?_
    · simpa using hline
    · simpa using hbehind
  have hskip := skipLine_of_append hline hbehind hrest
  have hpeek : (c.skip line.length).peek? = behind.head? := by
    simp [Cursor.peek?, Cursor.skip, hrest]
  rw [readLines.eq_def]
  split
  · rename_i hnil
    rw [hrest] at hnil
    exact absurd (List.append_eq_nil_iff.mp hnil).1 hne
  · rename_i x tail hcons
    simp only [hcolumn, if_true, htake, hskip, hpeek, BlockText.join, foldsBreak]
    exact ⟨isBlankChar x, by
      split
      · rename_i herror
        rw [hskip, hread] at herror
        cases herror
      · rename_i hok
        rw [hskip, hread] at hok
        obtain ⟨rfl, rfl, rfl⟩ : breaks = _ ∧ deepest = _ ∧ d = _ := by simpa using hok
        simp [BlockText.all]⟩

end Lines

section Body

variable {n m : Nat} {afterBreak : Bool} {line bs cs lines trail rest : List Char} {b : BlockText}
  {c : Cursor}

theorem literalBody_line (hne : line ≠ []) (hline : ∀ x ∈ line, isBreak x = false) :
    literalBody n afterBreak (line ++ cs) =
      (if afterBreak then spaces n else []) ++ (line ++ literalBody n false cs) := by
  induction line generalizing afterBreak with
  | nil => exact absurd rfl hne
  | cons x line ih =>
    obtain ⟨hx, hline⟩ := List.forall_mem_cons.mp hline
    rw [List.cons_append, literalBody, if_neg (by simp [hx])]
    rcases eq_or_ne line [] with rfl | hne
    · rfl
    · rw [ih hne hline]
      rfl

theorem literalBody_breaks (hbs : ∀ x ∈ bs, isBreak x = true) :
    literalBody n true (bs ++ cs) = bs ++ literalBody n true cs := by
  induction bs with
  | nil => rfl
  | cons x bs ih =>
    obtain ⟨hx, hbs⟩ := List.forall_mem_cons.mp hbs
    rw [List.cons_append, literalBody, if_pos hx, ih hbs, List.cons_append]

theorem literalBody_append_breaks (hbs : ∀ x ∈ bs, isBreak x = true) :
    literalBody n afterBreak (cs ++ bs) = literalBody n afterBreak cs ++ bs := by
  induction cs generalizing afterBreak with
  | nil =>
    cases bs with
    | nil => rfl
    | cons x bs =>
      obtain ⟨hx, hbs⟩ := List.forall_mem_cons.mp hbs
      have htail := @literalBody_breaks n bs [] hbs
      rw [List.append_nil] at htail
      simp [literalBody, hx, htail]
  | cons x cs ih =>
    rw [List.cons_append, literalBody, literalBody]
    split <;> simp [ih]

theorem getLast?_literalBody : (literalBody n afterBreak cs).getLast? = cs.getLast? := by
  induction cs generalizing afterBreak with
  | nil => rfl
  | cons x cs ih =>
    rw [literalBody]
    split <;> simp [List.getLast?_append, List.getLast?_cons, ih]

def Readable (cs : List Char) : Prop := ∀ x ∈ cs, x ≠ '\t' ∧ (isBreak x = true → IsBlockBreak x)

inductive Lines : List Char → Prop
  | last {line : List Char} (hne : line ≠ []) (hline : ∀ x ∈ line, isBreak x = false) : Lines line
  | more {line bs cs : List Char} {x : Char} (hne : line ≠ []) (hline : ∀ x ∈ line, isBreak x = false)
      (hbreaks : ∀ y ∈ x :: bs, IsBlockBreak y) (h : Lines cs) : Lines (line ++ x :: (bs ++ cs))

-- A text that does not end in a break goes on behind the breaks at its start.
theorem exists_breaks (hreadable : Readable cs) (hne : cs ≠ [])
    (hlast : ∀ x ∈ cs.getLast?, isBreak x = false) :
    ∃ bs x rest, cs = bs ++ x :: rest ∧ (∀ y ∈ bs, IsBlockBreak y) ∧ isBreak x = false := by
  generalize hbs : cs.takeWhile isBreak = bs
  generalize hrest : cs.dropWhile isBreak = rest
  have hsplit : cs = bs ++ rest := by rw [← hbs, ← hrest, List.takeWhile_append_dropWhile]
  have hbreaks : ∀ y ∈ bs, IsBlockBreak y := by
    intro y hy
    refine (hreadable y ?_).2 (List.mem_takeWhile_imp (hbs ▸ hy))
    simp [hsplit, hy]
  cases rest with
  | nil =>
    rw [List.append_nil] at hsplit
    subst hsplit
    have hbreak := hlast _ (List.getLast?_eq_some_getLast hne)
    rw [(hbreaks _ (List.getLast_mem hne)).isBreak] at hbreak
    cases hbreak
  | cons x rest =>
    have hhead := List.head?_dropWhile_not isBreak cs
    exact ⟨bs, x, rest, hsplit, hbreaks, by simpa [hrest] using hhead⟩

theorem Lines.of_readable (hreadable : Readable cs) (hne : cs ≠ [])
    (hhead : ∀ x ∈ cs.head?, isBreak x = false) (hlast : ∀ x ∈ cs.getLast?, isBreak x = false) :
    Lines cs := by
  generalize hsize : cs.length = size
  induction size using Nat.strong_induction_on generalizing cs with | _ size ih =>
  subst hsize
  generalize hline : cs.takeWhile (fun x => !isBreak x) = line
  generalize hgap : cs.dropWhile (fun x => !isBreak x) = gap
  have hsplit : cs = line ++ gap := by rw [← hline, ← hgap, List.takeWhile_append_dropWhile]
  have hlineNe : line ≠ [] := by
    obtain ⟨x, tail, rfl⟩ := List.exists_cons_of_ne_nil hne
    simp [← hline, hhead x rfl]
  have hlineChars : ∀ x ∈ line, isBreak x = false := by
    intro x hx
    rw [← hline] at hx
    simpa using List.mem_takeWhile_imp hx
  cases gap with
  | nil =>
    rw [hsplit, List.append_nil]
    exact .last hlineNe hlineChars
  | cons x gap =>
    have hx : isBreak x = true := by
      have := List.head?_dropWhile_not (fun x => !isBreak x) cs
      simpa [hgap] using this
    obtain ⟨bs, y, rest, hbs, hbreaks, hy⟩ := @exists_breaks (x :: gap)
      (fun y hy => hreadable y (hsplit ▸ List.mem_append_right _ hy)) (List.cons_ne_nil _ _)
      (fun y hy => hlast y (by rw [hsplit, List.getLast?_append, Option.mem_def.mp hy]; rfl))
    cases bs with
    | nil =>
      obtain ⟨rfl, -⟩ := List.cons.inj hbs
      rw [hx] at hy
      cases hy
    | cons b bs =>
      rw [List.cons_append] at hbs
      obtain ⟨rfl, rfl⟩ := List.cons.inj hbs
      rw [hsplit]
      refine .more hlineNe hlineChars hbreaks (ih (y :: rest).length ?_ (fun z hz => ?_)
        (List.cons_ne_nil _ _) ?_ (fun z hz => ?_) rfl)
      · rw [hsplit]
        simp only [List.length_append, List.length_cons]
        omega
      · refine hreadable z ?_
        rw [hsplit]
        simp only [List.mem_append, List.mem_cons] at hz ⊢
        tauto
      · rintro z ⟨⟩
        exact hy
      · refine hlast z ?_
        rw [hsplit]
        simp [List.getLast?_append, List.getLast?_cons, Option.mem_def.mp hz]

theorem Lines.ne_nil (h : Lines cs) : cs ≠ [] := by
  cases h <;> simp_all

theorem Lines.head? (h : Lines cs) : ∀ x ∈ cs.head?, isBreak x = false := by
  intro x hx
  cases h with
  | last _ hline => exact hline x (List.mem_of_mem_head? hx)
  | more hne hline =>
    refine hline x (List.mem_of_mem_head? ?_)
    rwa [List.head?_append_of_ne_nil _ hne] at hx

-- A text that does not end in a break has lines, behind the breaks at its start.
theorem exists_lines (hreadable : Readable cs) (hne : cs ≠ [])
    (hlast : ∀ x ∈ cs.getLast?, isBreak x = false) :
    ∃ lead x lines, cs = lead ++ x :: lines ∧ (∀ y ∈ lead, IsBlockBreak y) ∧ Lines (x :: lines) := by
  obtain ⟨lead, x, lines, rfl, hlead, hx⟩ := exists_breaks hreadable hne hlast
  refine ⟨lead, x, lines, rfl, hlead, .of_readable (fun y hy => ?_) (List.cons_ne_nil _ _) ?_
    fun y hy => hlast y ?_⟩
  · exact hreadable y (List.mem_append_right _ hy)
  · rintro y ⟨⟩
    exact hx
  · rw [List.getLast?_append, Option.mem_def.mp hy]
    rfl

-- Behind the last line stand the breaks at the end and the indentation of what follows.
theorem readBreaks_trail (hm : m < n) (htrail : ∀ x ∈ trail, IsBlockBreak x)
    (hstarts : StartsToken rest) (hend : trail ≠ [] ∨ rest = [] ∧ m = 0)
    (hrest : c.rest = trail ++ (spaces m ++ rest)) :
    ∃ deepest d, readBreaks n [] 0 c.skipBreak = .ok (trail.tail.reverse, deepest, d) ∧
      d.rest = rest ∧ (trail ≠ [] → d.column = m) ∧ c.line ≤ d.line := by
  have hstop : ∀ x ∈ rest.head?, x ≠ '\t' ∧ isBreak x = false := fun x hx =>
    ⟨(hstarts x hx).2.1, (hstarts x hx).2.2.2⟩
  cases trail with
  | nil =>
    obtain ⟨rfl, rfl⟩ := hend.resolve_left (absurd rfl)
    have hnil : c.rest = [] := hrest
    have hskip : c.skipBreak = c := by simp [Cursor.skipBreak, hnil]
    have hread := @readBreaks_stop n 0 0 [] c (by simp [hnil]) (by simp [hnil])
    rw [hskip]
    exact ⟨_, _, hread, by simp [Cursor.skip, hnil], absurd rfl, le_rfl⟩
  | cons x trail =>
    obtain ⟨hx, htrail⟩ := List.forall_mem_cons.mp htrail
    obtain ⟨d, hread, hd, hcolumn, hline⟩ := @readBreaks_spaces n m 0 [] trail rest
      ⟨trail ++ (spaces m ++ rest), c.index + 1, c.line + 1, 0⟩ htrail rfl rfl
      (.inr (.inr ⟨hm, fun x hx => (hstarts x hx).1⟩)) hstop
    have hskip := @IsBlockBreak.skipBreak x c (trail ++ (spaces m ++ rest)) hx hrest
    rw [List.append_nil, ← hskip] at hread
    exact ⟨_, d, hread, hd, fun _ => hcolumn, (Nat.le_succ _).trans (Nat.le_of_add_right_le hline.le)⟩

-- The lines of a text are read with the breaks between them, and the breaks behind the last one
-- are kept apart.
theorem readLines_lines (hm : m < n) (hlines : Lines lines)
    (htabs : '\t' ∉ lines) (htrail : ∀ x ∈ trail, IsBlockBreak x) (hstarts : StartsToken rest)
    (hend : trail ≠ [] ∨ rest = [] ∧ m = 0)
    (hrest : c.rest = literalBody n false (lines ++ trail) ++ (spaces m ++ rest))
    (hcolumn : c.column = n) :
    ∃ blank d, readLines true n b c =
        .ok (⟨lines.reverse ++ b.all, trail.head?, trail.tail.reverse, blank⟩, d) ∧
      d.rest = rest ∧ (trail ≠ [] → d.column = m) ∧ c.line ≤ d.line := by
  have htrail' : literalBody n true trail = trail ++ literalBody n true [] := by
    rw [← literalBody_breaks fun x hx => (htrail x hx).isBreak, List.append_nil]
  induction hlines generalizing b c with
  | @last line hne hline =>
    have hbody : c.rest = line ++ (trail ++ (spaces m ++ rest)) := by
      rw [hrest, literalBody_line hne hline]
      cases trail with
      | nil => simp [literalBody]
      | cons x trail =>
        have hx := (htrail x List.mem_cons_self).isBreak
        rw [literalBody, if_pos hx] at htrail' ⊢
        simp [htrail', literalBody]
    have hhead : (trail ++ (spaces m ++ rest)).head? = trail.head? := by
      cases trail with
      | nil =>
        obtain ⟨rfl, rfl⟩ := hend.resolve_left (absurd rfl)
        rfl
      | cons => rfl
    have hbreaks : ∀ x ∈ trail.head?, IsBlockBreak x := fun x hx =>
      htrail x (List.mem_of_mem_head? hx)
    obtain ⟨deepest, d, hread, hd, hm', hdown⟩ := @readBreaks_trail n m trail rest
      (c.skip line.length) hm htrail hstarts hend (by simp [Cursor.skip, hbody])
    obtain ⟨blank, hstep⟩ := @readLines_line n line _ _ b c d deepest hne hline
      (fun x hx => (hbreaks x (hhead ▸ hx)).isBreak) hbody hcolumn hread
    refine ⟨blank, d, ?_, hd, hm', hdown⟩
    have htext : trail.head?.map breakText = trail.head? := by
      cases htrail : trail.head? with
      | none => rfl
      | some x => rw [Option.map_some, (hbreaks x htrail).breakText]
    rw [hstep, hhead, htext]
    refine readLines_done (hend.symm.imp (fun h => hd.trans h.1) fun h => ?_)
    rw [hm' h]
    exact hm.ne
  | @more line bs cs x hne hline hbreaks h ih =>
    obtain ⟨y, cs, rfl⟩ := List.exists_cons_of_ne_nil h.ne_nil
    have hy := h.head? y rfl
    obtain ⟨hx, hbs⟩ := List.forall_mem_cons.mp hbreaks
    have hindented : literalBody n true (y :: cs ++ trail) =
        spaces n ++ literalBody n false (y :: cs ++ trail) := by
      simp [literalBody, hy]
    have hbody : c.rest = line ++ (x :: (bs ++ (spaces n ++
        (literalBody n false (y :: cs ++ trail) ++ (spaces m ++ rest))))) := by
      rw [hrest, List.append_assoc, literalBody_line hne hline, List.cons_append, literalBody,
        if_pos hx.isBreak, List.append_assoc bs, literalBody_breaks fun z hz => (hbs z hz).isBreak,
        hindented]
      simp
    have hstop : ∀ z ∈ (literalBody n false (y :: cs ++ trail) ++ (spaces m ++ rest)).head?,
        z ≠ '\t' ∧ isBreak z = false := by
      intro z hz
      obtain rfl : y = z := by simpa [literalBody, hy] using hz
      refine ⟨?_, hy⟩
      rintro rfl
      simp at htabs
    have hskip := @IsBlockBreak.skipBreak x (c.skip line.length) _ hx
      (show c.rest.drop line.length = _ by rw [hbody, List.drop_left])
    obtain ⟨d, hread, hd, hcolumn', hdown⟩ := @readBreaks_spaces n n 0 [] bs _
      (c.skip line.length).skipBreak hbs (by rw [hskip]) (by rw [hskip])
      (.inr (.inl ⟨rfl, Nat.zero_lt_of_lt hm⟩)) hstop
    rw [List.append_nil] at hread
    obtain ⟨blank, hstep⟩ := @readLines_line n line _ _ b c d _ hne hline
      (by simp [hx.isBreak]) hbody hcolumn hread
    obtain ⟨blank', e, hlines, he, hm', hdown'⟩ := @ih ⟨line.reverse ++ b.all, some x,
      bs.reverse, blank⟩ d (by simp_all) hd hcolumn'
    have htext : breakText x = x := hx.breakText
    refine ⟨blank', e, ?_, he, hm', ?_⟩
    · rw [hstep, List.head?_cons, Option.map_some, htext, hlines]
      simp [BlockText.all]
    · rw [hskip] at hdown
      have hline : c.line + 1 + bs.length = d.line := hdown
      omega

end Body

def Chomping.indicator : Chomping → List Char
  | strip => ['-']
  | clip => []
  | keep => ['+']

-- What stays of the breaks behind a text.
def Chomping.kept (chomping : Chomping) (core trail : List Char) : List Char :=
  match chomping with
  | strip => []
  | clip => if core = [] then [] else trail.take 1
  | keep => trail

def chompingOf (core trail : List Char) : Chomping :=
  if trail = [] then .strip else if core ≠ [] ∧ trail.length = 1 then .clip else .keep

-- The chomping keeps the breaks, also where there are less of them.
theorem kept_chompingOf {core trail trail' : List Char} (h : trail'.length ≤ trail.length) :
    (chompingOf core trail).kept core trail' = trail' := by
  rw [chompingOf]
  split
  · rename_i hnil
    rw [hnil, List.length_nil, Nat.le_zero, List.length_eq_zero_iff] at h
    rw [h]
    rfl
  · split
    · rename_i hone
      rw [Chomping.kept, if_neg hone.1, List.take_of_length_le (h.trans hone.2.le)]
    · rfl

section Header

variable {given : Bool} {chomping : Chomping} {core trail behind : List Char} {c : Cursor}

def indentationMark (given : Bool) : List Char := if given then ['2'] else []

theorem literalHeader_eq (hne : core ++ trail ≠ []) (htrail : ∀ x ∈ trail, isBreak x = true)
    (hcore : ∀ x ∈ core.getLast?, isBreak x = false) :
    literalHeader (core ++ trail) = '|' ::
      (indentationMark ((core ++ trail).head?.any fun x => x == ' ' || isBreak x)
        ++ (chompingOf core trail).indicator) := by
  rw [literalHeader]
  congr 2
  rw [List.reverse_append]
  rcases List.eq_nil_or_concat' trail with rfl | ⟨trail, b, rfl⟩
  · obtain ⟨core, y, rfl⟩ := (List.eq_nil_or_concat' core).resolve_left (by simpa using hne)
    have hy := hcore y (by simp)
    rw [chompingOf, if_pos rfl]
    cases hrest : core.reverse <;> simp [hrest, hy, Chomping.indicator]
  · have hb := htrail b (by simp)
    have hlast : trail ++ [b] ≠ [] := by simp
    rw [chompingOf, if_neg hlast]
    rcases List.eq_nil_or_concat' trail with rfl | ⟨trail, b', rfl⟩
    · rcases List.eq_nil_or_concat' core with rfl | ⟨core, y, rfl⟩
      · simp [hb, Chomping.indicator]
      · have hy := hcore y (by simp)
        simp [hb, hy, Chomping.indicator]
    · have hb' := htrail b' (by simp)
      simp [hb, hb', Chomping.indicator]

theorem getLast?_header (given : Bool) (chomping : Chomping) :
    ∀ x ∈ ('|' :: (indentationMark given ++ chomping.indicator)).getLast?, (x == '\n') = false := by
  cases given <;> cases chomping <;> simp [indentationMark, Chomping.indicator]

theorem endsHeader (hbehind : behind.head?.all isBreak = true) (hrest : c.rest = behind) :
    c.peek?.bind chomping? = none ∧ readIndentation c = .ok (none, c) := by
  cases behind with
  | nil => simp [readIndentation, Cursor.peek?, hrest]
  | cons x behind =>
    have hx : isBreak x = true := by simpa using hbehind
    have hchomping : chomping? x = none := by
      simp only [isBreak, Bool.or_eq_true, beq_iff_eq] at hx
      rcases hx with (((rfl | rfl) | rfl) | rfl) | rfl <;> rfl
    have hdigit : Text.isDigit x = false ∧ x ≠ '0' := by
      simp only [isBreak, Bool.or_eq_true, beq_iff_eq] at hx
      rcases hx with (((rfl | rfl) | rfl) | rfl) | rfl <;> decide
    simp [readIndentation, Cursor.peek?, hrest, hchomping, hdigit]

theorem readHeader_written (hbehind : behind.head?.all isBreak = true)
    (hrest : c.rest = indentationMark given ++ (chomping.indicator ++ behind)) :
    readHeader c = .ok (⟨chomping, if given then some 2 else none⟩,
      c.skip (indentationMark given ++ chomping.indicator).length) := by
  have hend (k : Nat) (h : c.rest.drop k = behind) := @endsHeader behind (c.skip k) hbehind h
  have hskip : c.skip 0 = c := by simp [Cursor.skip]
  have hdigit : Text.isDigit '2' = true := by decide
  have htwo : chomping? '2' = none := by decide
  cases given with
  | false =>
    cases chomping with
    | clip =>
      have hhere := hend 0 hrest
      rw [hskip] at hhere
      simp [readHeader, bind, Except.bind, hhere, indentationMark, Chomping.indicator, hskip]
    | strip | keep =>
      have hpeek : c.peek? = _ := congrArg List.head? hrest
      have hhere := hend 1 (congrArg (List.drop 1) hrest)
      simp [readHeader, bind, Except.bind, hpeek, hhere, indentationMark, Chomping.indicator, chomping?]
  | true =>
    have hpeek : c.peek? = some '2' := congrArg List.head? hrest
    have hnumber : readIndentation c = .ok (some 2, c.skip 1) := by
      simp [readIndentation, hpeek, hdigit]
    cases chomping with
    | clip =>
      have hhere := hend 1 (congrArg (List.drop 1) hrest)
      simp [readHeader, bind, Except.bind, hpeek, htwo, hnumber, hhere, indentationMark,
        Chomping.indicator]
    | strip | keep =>
      have hpeek' : (c.skip 1).peek? = _ := congrArg (fun cs => (cs.drop 1).head?) hrest
      simp [readHeader, bind, Except.bind, hpeek, hnumber, hpeek', indentationMark,
        Chomping.indicator, chomping?, skip_skip]

theorem skipLineEnd_written {fault : SyntaxFault} :
    (c.rest = [] → skipLineEnd fault c = .ok c) ∧ ∀ behind, c.rest = '\n' :: behind →
      skipLineEnd fault c = .ok ⟨behind, c.index + 1, c.line + 1, 0⟩ := by
  have hskip : c.skip 0 = c := by simp [Cursor.skip]
  refine ⟨fun hrest => ?_, fun behind hrest => ?_⟩
  · simp [skipLineEnd, Cursor.skipWhile, hrest, hskip, Cursor.peek?, Cursor.skipBreak]
  · have hblank : isBlankChar '\n' = false := by decide
    have hbreak : isBreak '\n' = true := by decide
    simp [skipLineEnd, Cursor.skipWhile, hrest, hskip, Cursor.peek?, Cursor.skipBreak, hblank,
      hbreak]

end Header

section Block

variable {parent : Int} {n m : Nat} {given : Bool} {chomping : Chomping}
  {core trail body rest : List Char} {c : Cursor}

-- A block is read as the gap before its first line and its lines are.
theorem readBlock_of_readLines (hn : n = (max parent 0).toNat + 2)
    (hrest : c.rest = '|' :: (indentationMark given ++ (chomping.indicator ++ '\n' :: body))) :
    ∃ index, ∀ breaks deepest d b e, readBreaks (if given then n else 0) [] 0
        ⟨body, index, c.line + 1, 0⟩ = .ok (breaks, deepest, d) →
      (given = false → deepest = n) →
      readLines true n ⟨[], none, breaks, false⟩ d = .ok (b, e) →
      readBlock true parent c = .ok (String.ofList (match chomping with
        | .strip => b.text
        | .clip => b.lineBreak.toList ++ b.text
        | .keep => b.all).reverse, e) := by
  have hheader := @readHeader_written given chomping ('\n' :: body) (c.skip 1) rfl
    (congrArg (List.drop 1) hrest)
  generalize hlength : (indentationMark given ++ chomping.indicator).length = length at hheader
  have hend : skipLineEnd .blockHeader ((c.skip 1).skip length) =
      .ok ⟨body, ((c.skip 1).skip length).index + 1, c.line + 1, 0⟩ := by
    refine skipLineEnd_written.2 body ?_
    show (c.rest.drop 1).drop length = _
    rw [hrest, ← hlength, List.drop_succ_cons, List.drop_zero, ← List.append_assoc, List.drop_left]
  refine ⟨((c.skip 1).skip length).index + 1, fun breaks deepest d b e hbreaks hdeepest hlines => ?_⟩
  have hgiven : ((if given then some 2 else none : Option Nat).map fun k =>
      (max parent 0).toNat + k).getD 0 = if given then n else 0 := by
    cases given <;> simp [hn]
  have hindent : (if (if given then n else 0) = 0 then max deepest (max (parent + 1).toNat 1)
      else if given then n else 0) = n := by
    cases given with
    | true => simp [hn]
    | false =>
      simp only [Bool.false_eq_true, if_false, if_true, hdeepest rfl]
      omega
  rw [readBlock, hheader]
  simp only [bind, Except.bind]
  rw [hend]
  simp only [hgiven]
  simp only [hbreaks, hindent, hlines]
  cases chomping <;> rfl

-- A block of breaks alone gives its indentation, and its text is the breaks that are kept.
theorem readBlock_breaks (hn : n = (max parent 0).toNat + 2) (hm : m < n)
    (htrail : ∀ x ∈ trail, IsBlockBreak x) (hstarts : StartsToken rest)
    (hrest : c.rest = '|' :: (indentationMark true ++ (chomping.indicator ++
      '\n' :: (literalBody n true trail ++ (spaces m ++ rest))))) :
    ∃ d, readBlock true parent c = .ok (String.ofList (chomping.kept [] trail), d) ∧
      d.rest = rest ∧ d.column = m ∧ c.line < d.line := by
  obtain ⟨index, hread⟩ := readBlock_of_readLines hn hrest
  have hbody : literalBody n true trail ++ (spaces m ++ rest) = trail ++ (spaces m ++ rest) := by
    have hbody := @literalBody_breaks n trail [] fun x hx => (htrail x hx).isBreak
    rw [List.append_nil] at hbody
    rw [hbody, literalBody, List.append_nil]
  obtain ⟨d, hbreaks, hd, hcolumn, hline⟩ := @readBreaks_spaces n m 0 [] trail rest
    ⟨literalBody n true trail ++ (spaces m ++ rest), index, c.line + 1, 0⟩ htrail rfl hbody
    (.inr (.inr ⟨hm, fun x hx => (hstarts x hx).1⟩))
    fun x hx => ⟨(hstarts x hx).2.1, (hstarts x hx).2.2.2⟩
  have hdone := @readLines_done n ⟨[], none, trail.reverse ++ [], false⟩ d
    (.inr (hcolumn.trans_ne hm.ne))
  refine ⟨d, ?_, hd, hcolumn, ?_⟩
  · rw [hread _ _ _ _ _ hbreaks nofun hdone]
    cases chomping <;> simp [Chomping.kept, BlockText.all]
  · simp only at hline
    omega

-- The text of a block is what was written, but for the breaks at its end that its chomping does
-- not keep.
theorem readBlock_body (hn : n = (max parent 0).toNat + 2) (hm : m < n)
    (hreadable : Readable (core ++ trail)) (hcore : ∀ x ∈ core.getLast?, isBreak x = false)
    (htrail : ∀ x ∈ trail, IsBlockBreak x)
    (hgiven : given = false → ∃ x ∈ core.head?, x ≠ ' ' ∧ isBreak x = false)
    (hstarts : StartsToken rest) (hend : trail ≠ [] ∨ rest = [] ∧ m = 0)
    (hrest : c.rest = '|' :: (indentationMark given ++ (chomping.indicator ++
      '\n' :: (literalBody n true (core ++ trail) ++ (spaces m ++ rest))))) :
    ∃ d, readBlock true parent c = .ok (String.ofList (core ++ chomping.kept core trail), d) ∧
      d.rest = rest ∧ (trail ≠ [] → d.column = m) ∧ c.line < d.line := by
  rcases eq_or_ne core [] with rfl | hne
  · obtain rfl : given = true := by
      by_contra h
      obtain ⟨x, hx, -⟩ := hgiven (by simpa using h)
      cases hx
    obtain ⟨d, hread, hd, hcolumn, hline⟩ := readBlock_breaks hn hm htrail hstarts hrest
    exact ⟨d, hread, hd, fun _ => hcolumn, hline⟩
  · obtain ⟨index, hread⟩ := readBlock_of_readLines hn hrest
    have hreadable' : Readable core := fun x hx => hreadable x (List.mem_append_left _ hx)
    obtain ⟨lead, y, ls, rfl, hlead, hall⟩ := exists_lines hreadable' hne hcore
    have hybreak : isBreak y = false := hall.head? y rfl
    have hbody : literalBody n true (lead ++ y :: ls ++ trail) ++ (spaces m ++ rest) =
        lead ++ (spaces n ++ (literalBody n false (y :: ls ++ trail) ++ (spaces m ++ rest))) := by
      rw [List.append_assoc, literalBody_breaks fun x hx => (hlead x hx).isBreak]
      simp [literalBody, hybreak]
    have hhead : (literalBody n false (y :: ls ++ trail) ++ (spaces m ++ rest)).head? = some y := by
      simp [literalBody, hybreak]
    have hspace : given = false → y ≠ ' ' := by
      intro h
      obtain ⟨x, hx, hspace, hbreak⟩ := hgiven h
      cases lead with
      | nil =>
        obtain rfl := Option.some.inj hx
        exact hspace
      | cons z lead =>
        obtain rfl := Option.some.inj hx
        rw [(hlead _ List.mem_cons_self).isBreak] at hbreak
        cases hbreak
    have hytab : y ≠ '\t' := (hreadable' y (by simp)).1
    obtain ⟨d, hbreaks, hd, hcolumn, hline⟩ := @readBreaks_spaces (if given then n else 0) n 0 [] lead
      _ ⟨literalBody n true (lead ++ y :: ls ++ trail) ++ (spaces m ++ rest), index, c.line + 1, 0⟩
      hlead rfl hbody (by
        cases given with
        | true => exact .inr (.inl ⟨rfl, Nat.zero_lt_of_lt hm⟩)
        | false =>
          refine .inl ⟨rfl, ?_⟩
          rw [hhead]
          rintro x ⟨⟩
          exact hspace rfl) (by
        rw [hhead]
        rintro x ⟨⟩
        exact ⟨hytab, hybreak⟩)
    obtain ⟨blank, e, hread', he, hm', hdown⟩ := @readLines_lines n m (y :: ls) trail rest
      ⟨[], none, lead.reverse ++ [], false⟩ d hm hall
      (fun h => (hreadable' _ (List.mem_append_right _ h)).1 rfl) htrail hstarts hend hd hcolumn
    refine ⟨e, ?_, he, hm', ?_⟩
    · rw [hread _ _ _ _ _ hbreaks (fun _ => by simp) hread']
      cases chomping <;> cases trail <;> simp [Chomping.kept, BlockText.all]
    · simp only at hline
      omega

-- A header alone is an empty text.
theorem readBlock_header (hrest : c.rest = '|' :: (indentationMark given ++ chomping.indicator)) :
    ∃ d, readBlock true parent c = .ok ("", d) ∧ d.rest = [] := by
  have hheader := @readHeader_written given chomping [] (c.skip 1) rfl
    ((congrArg (List.drop 1) hrest).trans (by simp))
  generalize hlength : (indentationMark given ++ chomping.indicator).length = length at hheader
  have hnil : ((c.skip 1).skip length).rest = [] := by
    show (c.rest.drop 1).drop length = _
    rw [hrest, ← hlength, List.drop_succ_cons, List.drop_zero, List.drop_length]
  have hend := (@skipLineEnd_written ((c.skip 1).skip length) .blockHeader).1 hnil
  have hbreaks (k : Nat) := @readBreaks_stop k 0 0 [] ((c.skip 1).skip length) (by simp [hnil])
    (by simp [hnil])
  have hlines (k : Nat) (b : BlockText) := @readLines_done k b (((c.skip 1).skip length).skip 0)
    (.inl hnil)
  refine ⟨((c.skip 1).skip length).skip 0, ?_, hnil⟩
  rw [readBlock, hheader]
  simp only [bind, Except.bind]
  rw [hend]
  simp only [hbreaks, hlines]
  cases chomping <;> rfl

end Block

-- What a string is read as in front of what follows. Breaks that are cut off a literal block are
-- gone.
def Follow.kept : Follow → String → String
  | .cut, s =>
    if styleOf s = .literal then String.ofList (Text.dropEndWhile (· == '\n') s.toList) else s
  | _, s => s

section Placed

variable {parent : Int} {n : Nat} {cs : List Char} {c : Cursor}

theorem readable_of_isBlockBreak {x : Char} (h : IsBlockBreak x) :
    x ≠ '\t' ∧ (isBreak x = true → IsBlockBreak x) :=
  ⟨by rcases h with rfl | rfl | rfl <;> decide, fun _ => h⟩

theorem readable_of_blockAllowed (h : blockAllowed cs = true) : Readable cs := by
  simp only [blockAllowed, Bool.and_eq_true] at h
  intro x hx
  have hplain := List.all_eq_true.mp h.1.1 x hx
  refine ⟨?_, isBlockBreak_of_isBreak hplain⟩
  rintro rfl
  exact absurd hplain (by decide)

-- A text with the breaks at its end apart.
theorem exists_core (cs : List Char) : ∃ core trail, cs = core ++ trail ∧
    (∀ x ∈ core.getLast?, isBreak x = false) ∧ ∀ x ∈ trail, isBreak x = true := by
  obtain ⟨trail, htrail, hsplit⟩ := Text.exists_dropEndWhile_append isBreak cs
  exact ⟨_, trail, hsplit, fun x hx => Text.of_getLast?_dropEndWhile hx, htrail⟩

theorem getLast?_block (hne : cs ≠ []) :
    (literalHeader cs ++ '\n' :: literalBody n true cs).getLast? = cs.getLast? := by
  have hbody := @getLast?_literalBody n true cs
  rw [List.getLast?_append, List.getLast?_cons, hbody]
  obtain ⟨x, hx⟩ := Option.ne_none_iff_exists'.mp (mt List.getLast?_eq_none_iff.mp hne)
  simp [hx]

variable {core trail : List Char}

-- Without a mark for its indentation a text starts with a character that counts.
theorem head?_core (hne : core ++ trail ≠ []) (htrail : ∀ x ∈ trail, isBreak x = true)
    (h : ((core ++ trail).head?.any fun x => x == ' ' || isBreak x) = false) :
    ∃ x ∈ core.head?, x ≠ ' ' ∧ isBreak x = false := by
  cases core with
  | nil =>
    obtain ⟨x, trail, rfl⟩ := List.exists_cons_of_ne_nil hne
    simp [htrail x (by simp)] at h
  | cons x core =>
    refine ⟨x, rfl, ?_⟩
    simpa using h

theorem readBlock_line {m : Nat} {rest : List Char} (hn : n = (max parent 0).toNat + 2)
    (hallowed : blockAllowed cs = true) (hne : cs ≠ [])
    (hfits : (Follow.line m rest).Fits parent)
    (hrest : c.rest = (Follow.line m rest).place (literalHeader cs ++ '\n' :: literalBody n true cs)) :
    ∃ d, readBlock true parent c = .ok (String.ofList cs, d) ∧
      (Follow.line m rest).Reached c d true ∧ d.rest.length < c.rest.length := by
  obtain ⟨core, trail, rfl, hcore, htrail⟩ := exists_core cs
  have hreadable := readable_of_blockAllowed hallowed
  have hlast := @getLast?_block n _ hne
  have hheader := literalHeader_eq hne htrail hcore
  have hless : m < n := by
    have := hfits.2
    omega
  rw [Follow.place, onNewLine, endsWithBreak, hlast] at hrest
  -- where no break is at the end, the one before the next line is read with the text
  obtain ⟨trail', hread, htext, hne'⟩ : ∃ trail',
      c.rest = '|' :: (indentationMark ((core ++ trail).head?.any fun x => x == ' ' || isBreak x)
        ++ ((chompingOf core trail).indicator ++
          '\n' :: (literalBody n true (core ++ trail') ++ (spaces m ++ rest)))) ∧
      (chompingOf core trail).kept core trail' = trail ∧ trail' ≠ [] ∧
      ∀ x ∈ trail', IsBlockBreak x := by
    rcases eq_or_ne trail [] with rfl | hne'
    · rw [List.append_nil] at hrest hheader
      refine ⟨['\n'], ?_, rfl, by simp, by simp [IsBlockBreak]⟩
      have hopen : core.getLast?.any isBreak = false := by
        cases hcase : core.getLast? with
        | none => rfl
        | some x => exact hcore x hcase
      have hnewline := @literalBody_append_breaks n true ['\n'] core (by simp [isBreak])
      rw [hrest, hopen, hheader, hnewline]
      simp
    · refine ⟨trail, ?_, ?_, hne', fun x hx => (hreadable x (by simp [hx])).2 (htrail x hx)⟩
      · have hclosed : (core ++ trail).getLast?.any isBreak = true := by
          rw [List.getLast?_append, List.getLast?_eq_some_getLast hne']
          exact htrail _ (List.getLast_mem hne')
        rw [hrest, hclosed, hheader]
        simp
      · exact kept_chompingOf le_rfl
  have hreadable' : Readable (core ++ trail') := by
    intro x hx
    rcases List.mem_append.mp hx with hx | hx
    · exact hreadable x (by simp [hx])
    · exact readable_of_isBlockBreak (hne'.2 x hx)
  obtain ⟨d, hok, hd, hcolumn, hline⟩ := readBlock_body hn hless hreadable' hcore hne'.2
    (head?_core hne htrail) hfits.1 (.inl hne'.1) hread
  rw [htext] at hok
  refine ⟨d, hok, ⟨d, skipToToken_of_startsToken (hd ▸ hfits.1), hd, hcolumn hne'.1, hline⟩, ?_⟩
  rw [hd, hread]
  simp only [List.length_cons, List.length_append]
  omega

theorem readBlock_cut (hn : n = (max parent 0).toNat + 2)
    (hallowed : blockAllowed cs = true) (hne : cs ≠ [])
    (hrest : c.rest = Follow.cut.place (literalHeader cs ++ '\n' :: literalBody n true cs)) :
    ∃ d, readBlock true parent c = .ok (String.ofList (Text.dropEndWhile (· == '\n') cs), d) ∧
      Follow.cut.Reached c d true ∧ d.rest.length < c.rest.length := by
  obtain ⟨core, trail, rfl, hcore, htrail⟩ := exists_core cs
  have hreadable := readable_of_blockAllowed hallowed
  have hheader := literalHeader_eq hne htrail hcore
  have hgiven := head?_core hne htrail
  generalize ((core ++ trail).head?.any fun x => x == ' ' || isBreak x) = given at hheader hgiven
  obtain ⟨newlines, hnewlines, hsplit⟩ := Text.exists_dropEndWhile_append (· == '\n') trail
  have hkept := @kept_chompingOf core trail (Text.dropEndWhile (· == '\n') trail) (by
    conv_rhs => rw [hsplit]
    simp)
  generalize chompingOf core trail = chomping at hheader hkept
  have hlast : ∀ x ∈ (core ++ Text.dropEndWhile (· == '\n') trail).getLast?, (x == '\n') = false := by
    intro x hx
    rw [List.getLast?_append, Option.mem_def, Option.or_eq_some_iff] at hx
    rcases hx with hx | ⟨-, hx⟩
    · exact @Text.of_getLast?_dropEndWhile _ (· == '\n') _ _ hx
    · refine beq_false_of_ne fun h => ?_
      rw [h] at hx
      exact absurd (hcore _ hx) (by decide)
  generalize Text.dropEndWhile (· == '\n') trail = trail' at hsplit hkept hlast
  subst hsplit
  have hbody := @literalBody_append_breaks n true newlines (core ++ trail') fun x hx => by
    rw [beq_iff_eq.mp (hnewlines x hx)]
    rfl
  rw [Follow.place, hheader, ← List.append_assoc core, hbody] at hrest
  rw [← List.append_assoc, Text.dropEndWhile_append hnewlines, Text.dropEndWhile_of_getLast? hlast]
  rcases eq_or_ne (core ++ trail') [] with hnil | hne'
  · have hend := @Text.dropEndWhile_append _ (· == '\n') ('\n' :: newlines) (by simpa using hnewlines)
    rw [hnil, literalBody, List.nil_append, hend,
      Text.dropEndWhile_of_getLast? (getLast?_header given chomping)] at hrest
    obtain ⟨d, hread, hd⟩ := readBlock_header hrest
    rw [hnil]
    refine ⟨d, hread, ⟨true, d, skipToToken_of_startsToken ?_, hd⟩, ?_⟩
    · simp [hd, StartsToken]
    · simp [hd, hrest]
  · have hall : ∀ x ∈ ('|' :: (indentationMark given ++ chomping.indicator) ++
        '\n' :: literalBody n true (core ++ trail')).getLast?, (x == '\n') = false := by
      rw [List.getLast?_append, List.getLast?_cons, getLast?_literalBody]
      obtain ⟨x, hx⟩ := Option.ne_none_iff_exists'.mp (mt List.getLast?_eq_none_iff.mp hne')
      simpa [hx] using hlast x hx
    have hbreaks := Text.dropEndWhile_append hnewlines ('|' :: (indentationMark given ++
      chomping.indicator) ++ '\n' :: literalBody n true (core ++ trail'))
    rw [Text.dropEndWhile_of_getLast? hall] at hbreaks
    simp only [List.append_assoc, List.cons_append] at hrest hbreaks
    rw [hbreaks] at hrest
    have hreadable' : Readable (core ++ trail') := fun x hx => hreadable x (by
      rw [← List.append_assoc]
      exact List.mem_append_left _ hx)
    have htrail' : ∀ x ∈ trail', IsBlockBreak x := fun x hx =>
      (hreadable' x (by simp [hx])).2 (htrail x (by simp [hx]))
    obtain ⟨d, hread, hd, -⟩ := @readBlock_body parent n 0 given chomping core trail' [] c hn
      (by omega) hreadable' hcore htrail' hgiven (by simp [StartsToken]) (.inr ⟨rfl, rfl⟩)
      (by simp [hrest, spaces])
    rw [hkept] at hread
    refine ⟨d, hread, ⟨true, d, skipToToken_of_startsToken ?_, hd⟩, ?_⟩
    · simp [hd, StartsToken]
    · simp [hd, hrest]

end Placed

end Skeleton.Yaml
