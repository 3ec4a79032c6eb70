import Skeleton.Proofs.Yaml.Lexing

-- Scalars are one token each, with the text that was written.

namespace Skeleton.Yaml

open Lexer

def Lexer.keyHere (l : Lexer) : Option KeyStart :=
  if l.keyAllowed then some ⟨l.indent == (l.cursor.column : Int), l.tokens.size, l.cursor.index, l.mark⟩
  else none

structure Lexer.Reads (l l' : Lexer) (v : Level) (p : Follow) (kind : TokenKind)
    (k : Option KeyStart) : Prop extends l'.At (v.add kind) k where
  next : l.lexToken = .ok l'
  reached : p.Reached l.cursor l'.cursor l'.keyAllowed
  shorter : l'.cursor.rest.length < l.cursor.rest.length

section Tokens

variable {v : Level} {l : Lexer} {p : Follow} {n : Nat} {b : Bool} {cs w : List Char} {s : String}

theorem saveKeyStart_here (hl : l.Here v n b cs) :
    l.saveKeyStart = .ok { l with keyStarts := [l.keyHere] } := by
  have hflow := hl.toAt.inFlow
  rw [saveKeyStart, keyHere]
  split
  · simp [dropKeyStart_none hl.keyStarts, bind, Except.bind, hflow, hl.keyStarts]
  · rw [← hl.keyStarts]

-- What follows a text does not make it an indicator of a document.
theorem isPrefixOf_append_tail {x : Char} (hx : x = '-' ∨ x = '.')
    (h : [x, x, x].isPrefixOf cs = false) : [x, x, x].isPrefixOf (cs ++ p.tail) = false := by
  rcases cs with _ | ⟨c, _ | ⟨d, _ | ⟨e, cs⟩⟩⟩
  case cons.cons.cons => exact h
  all_goals
    rcases hx with rfl | rfl <;> cases p <;> simp [List.isPrefixOf, Follow.tail]

structure StartsScalar (x : Char) (rest : List Char) : Prop where
  notIndicator : ∀ y ∈ "#,[]\x7b\x7d&*!|>'\"%@`".toList, x ≠ y
  notBlank : isBlankChar x = false
  notBreak : isBreak x = false
  next : x = '?' ∨ x = ':' ∨ x = '-' → startsBlank rest = false

theorem startsScalar_of_plainAllowed {x : Char} (hallowed : plainAllowed (x :: cs) = true) :
    StartsScalar x (cs ++ p.tail) := by
  simp only [plainAllowed, Bool.and_eq_true, Bool.not_eq_true'] at hallowed
  obtain ⟨⟨⟨hplain, hbreaks⟩, hspaces⟩, hclean⟩ := hallowed
  simp only [hasIndicator, hasIndicatorFrom, isIndicator, if_true, Bool.or_eq_false_iff] at hclean
  obtain ⟨-, ⟨hlist, hmark⟩, -⟩ := hclean
  refine ⟨fun y hy => ?_, ?_, ?_, fun hx => ?_⟩
  · rintro rfl
    rw [List.contains_iff_mem.mpr hy] at hlist
    cases hlist
  · have hspace : x ≠ ' ' := by
      rintro rfl
      simp [startsOrEndsWith, isSpace] at hspaces
    have htab : x ≠ '\t' := by
      rintro rfl
      simp at hplain
      exact absurd hplain.1 (by decide)
    simp [isBlankChar, hspace, htab]
  · simp only [List.any_cons, Bool.or_eq_false_iff] at hbreaks
    exact hbreaks.1
  · have hmark' : startsBlank cs = false := by
      rcases hx with rfl | rfl | rfl <;> simpa using hmark
    rwa [startsBlank_append]
    rintro rfl
    cases hmark'

theorem lexToken_of_startsScalar {x : Char} {rest : List Char} (hl : l.Here v n b (x :: rest))
    (hx : StartsScalar x rest) (hindicator : atDocumentIndicator l.cursor = false) :
    l.lexToken = l.lexPlain := by
  have hflow := hl.toAt.inFlow
  have hne := hx.notIndicator
  have hdash : ¬ (x = '-' ∧ startsBlank rest = true) := fun h => by
    rw [hx.next (.inr (.inr h.1))] at h
    cases h.2
  have hquestion : ¬ (x = '?' ∧ startsBlank rest = true) := fun h => by
    rw [hx.next (.inl h.1)] at h
    cases h.2
  have hcolon : ¬ (x = ':' ∧ startsBlank rest = true) := fun h => by
    rw [hx.next (.inr (.inl h.1))] at h
    cases h.2
  have hstarts : startsPlain false x rest = true := by
    have hlist : "#,[]\x7b\x7d&*!|>'\"%@`".toList.contains x = false := by
      rw [Bool.eq_false_iff, Ne, List.contains_iff_mem]
      exact fun h => hne x h rfl
    rw [startsPlain]
    split
    · rename_i hdash
      have hblank := hx.next (.inr (.inr (beq_iff_eq.mp hdash)))
      cases rest with
      | nil => cases hblank
      | cons y rest =>
        simp only [startsBlank, List.head?_cons, Option.all_some, Bool.or_eq_false_iff] at hblank
        simp [isBlankChar, hblank]
    · split
      · rename_i hmark
        rw [Bool.or_eq_true, beq_iff_eq, beq_iff_eq] at hmark
        rw [hx.next (by tauto)]
        rfl
      · rw [hx.notBlank, hx.notBreak, hlist]
        rfl
  have hpercent : ¬ (l.cursor.column = 0 ∧ x = '%') := fun h => hne '%' (by decide) h.2
  simp [lexToken, hl.rest, hflow, hpercent, hindicator, hdash, hquestion, hcolon, hstarts,
    hne '[' (by decide), hne '\x7b' (by decide), hne ']' (by decide), hne '\x7d' (by decide),
    hne ',' (by decide), hne '*' (by decide), hne '&' (by decide), hne '!' (by decide),
    hne '|' (by decide), hne '>' (by decide), hne '\'' (by decide), hne '"' (by decide)]

theorem atDocumentIndicator_placed {c : Cursor} (hclean : hasIndicator cs = false)
    (hrest : c.rest = cs ++ p.tail) : atDocumentIndicator c = false := by
  rw [hasIndicator, Bool.or_eq_false_iff, Bool.or_eq_false_iff] at hclean
  have hdash := isPrefixOf_append_tail (p := p) (.inl rfl) hclean.1.1
  have hdot := isPrefixOf_append_tail (p := p) (.inr rfl) hclean.1.2
  simp [atDocumentIndicator, hrest, hdash, hdot]

-- The reader of a plain scalar or of one in quotes starts a key, the one of a block does not.
theorem reads_of_lexer {style : ScalarStyle} {text : String} {d : Cursor} {broken : Bool}
    {k : Option KeyStart} (hl : l.Here v n b cs)
    (hnext : l.lexToken = .ok ((({ l with keyStarts := [k] }.add (.scalar style text)).moveTo
      d).allowKey broken))
    (hreached : p.Reached l.cursor d broken) (hshorter : d.rest.length < l.cursor.rest.length) :
    ∃ l', l.Reads l' v p (.scalar style text) k := by
  have hadd := hl.toAt.add (.scalar style text)
  refine ⟨_, ⟨?_, hnext, hreached, hshorter⟩⟩
  exact ⟨hadd.kinds, hadd.indent, hadd.indents, rfl⟩

theorem lexToken_plain (hl : l.Here v n b (cs ++ p.tail)) (hne : cs ≠ [])
    (hallowed : plainAllowed cs = true) (hfits : p.Fits v.indent) (hcolumn : v.indent ≤ n) :
    ∃ l', l.Reads l' v p (.scalar .plain (String.ofList cs)) l.keyHere := by
  have hindicator : atDocumentIndicator l.cursor = false := by
    refine atDocumentIndicator_placed ?_ hl.rest
    simp only [plainAllowed, Bool.and_eq_true, Bool.not_eq_true'] at hallowed
    exact hallowed.2
  obtain ⟨d, broken, hread, hreached, hshorter⟩ :=
    readPlain_placed hne hallowed hfits hl.rest (hl.column ▸ hcolumn)
  obtain ⟨x, rest, rfl⟩ := List.exists_cons_of_ne_nil hne
  have hlex := lexToken_of_startsScalar hl (startsScalar_of_plainAllowed hallowed) hindicator
  have hsave := saveKeyStart_here hl
  have hflow : Lexer.inFlow { l with keyStarts := [l.keyHere] } = false := rfl
  rw [← hl.indent] at hread
  refine reads_of_lexer hl ?_ hreached hshorter
  rw [hlex, lexPlain, hsave]
  simp only [bind, Except.bind, hflow, hread]

theorem lexToken_quote {quote : Char} {style : ScalarStyle} {d : Cursor} {text : String}
    {rest : List Char} (hquote : quote = '\'' ∧ style = .single ∨ quote = '"' ∧ style = .double)
    (hl : l.Here v n b (quote :: rest))
    (hread : readQuoted quote [] .none (l.cursor.skip 1) = .ok (text, d)) :
    l.lexToken = .ok ((({ l with keyStarts := [l.keyHere] }.add (.scalar style text)).moveTo
      d).allowKey false) := by
  have hindicator : atDocumentIndicator l.cursor = false := by
    rcases hquote with ⟨rfl, -⟩ | ⟨rfl, -⟩ <;>
      exact atDocumentIndicator_of_head hl.rest (by decide) (by decide)
  have hsave := saveKeyStart_here hl
  rcases hquote with ⟨rfl, rfl⟩ | ⟨rfl, rfl⟩
  · simp [lexToken, hl.rest, hindicator, lexQuoted, lexNodePart, hsave, hread, bind, Except.bind]
  · simp [lexToken, hl.rest, hindicator, lexQuoted, lexNodePart, hsave, hread, bind, Except.bind]

theorem lexToken_block {d : Cursor} {text : String} {rest : List Char}
    (hl : l.Here v n b ('|' :: rest)) (hread : readBlock true v.indent l.cursor = .ok (text, d)) :
    l.lexToken = .ok ((({ l with keyStarts := [none] }.add (.scalar .literal text)).moveTo
      d).allowKey true) := by
  have hindicator := atDocumentIndicator_of_head hl.rest (by decide) (by decide)
  have hflow := hl.toAt.inFlow
  have hdrop := dropKeyStart_none hl.keyStarts
  rw [← hl.indent] at hread
  rw [← hl.keyStarts]
  simp [lexToken, hl.rest, hindicator, hflow, lexBlockScalar, hdrop, hread, bind, Except.bind]

end Tokens

def Style.token : Style → ScalarStyle
  | plain => .plain
  | single => .single
  | double => .double
  | literal => .literal

section Strings

variable {v : Level} {l : Lexer} {p : Follow} {n i : Nat} {b : Bool} {s : String}

theorem plain_of_styleOf (h : styleOf s = .plain) :
    meaning s = .text ∧ hasLeadingZero s.toList = false ∧ plainAllowed s.toList = true := by
  simp only [styleOf] at h
  split at h
  · split at h <;> cases h
  · split at h
    · rename_i hplain
      simpa using hplain
    · split at h <;> cases h

theorem literal_of_styleOf (h : styleOf s = .literal) :
    '\n' ∈ s.toList ∧ blockAllowed s.toList = true := by
  simp only [styleOf] at h
  split at h
  · rename_i hnewline
    split at h
    · rename_i hallowed
      exact ⟨List.contains_iff_mem.mp hnewline, hallowed⟩
    · cases h
  · split at h
    · cases h
    · split at h <;> cases h

theorem endsWithBreak_of_plainAllowed {cs : List Char} (h : plainAllowed cs = true) :
    endsWithBreak cs = false := by
  simp only [plainAllowed, Bool.and_eq_true, Bool.not_eq_true'] at h
  rw [endsWithBreak]
  cases hlast : cs.getLast? with
  | none => rfl
  | some x => simpa using List.any_eq_false.mp h.1.1.2 x (List.mem_of_getLast? hlast)

theorem endsWithBreak_writeString (h : styleOf s ≠ .literal) :
    endsWithBreak (writeString i s) = false := by
  have hquoted (cs : List Char) (x : Char) (hx : isBreak x = false) :
      endsWithBreak (x :: (cs ++ [x])) = false := by
    rw [endsWithBreak, ← List.cons_append, List.getLast?_concat]
    exact hx
  cases hstyle : styleOf s with
  | plain =>
    simp only [writeString, hstyle]
    exact endsWithBreak_of_plainAllowed (plain_of_styleOf hstyle).2.2
  | single =>
    simp only [writeString, hstyle]
    exact hquoted _ _ rfl
  | double =>
    simp only [writeString, hstyle]
    exact hquoted _ _ rfl
  | literal => exact absurd hstyle h

-- A string is one token, wherever it may stand.
theorem lexToken_string (hl : l.Here v n b (p.place (writeString i s))) (hpositive : 0 < i)
    (hi : styleOf s = .literal → i = (max v.indent 0).toNat + 2) (hfits : p.Fits v.indent) (hcolumn : v.indent ≤ n)
    (hkey : ∀ rest, p = .colon rest → ∀ x ∈ s.toList, isBreak x = false) :
    ∃ l', l.Reads l' v p (.scalar (styleOf s).token (p.kept s))
      (if styleOf s = .literal then none else l.keyHere) := by
  by_cases hliteral : styleOf s = .literal
  · obtain ⟨hnewline, hallowed⟩ := literal_of_styleOf hliteral
    have hne : s.toList ≠ [] := List.ne_nil_of_mem hnewline
    have htext : writeString i s =
        literalHeader s.toList ++ '\n' :: literalBody i true s.toList := by
      simp only [writeString, hliteral]
    obtain ⟨d, hread, hreached, hshorter⟩ : ∃ d,
        readBlock true v.indent l.cursor = .ok (p.kept s, d) ∧ p.Reached l.cursor d true ∧
          d.rest.length < l.cursor.rest.length := by
      have hrest := hl.rest
      rw [htext] at hrest
      cases p with
      | colon rest => exact absurd (hkey rest rfl _ hnewline) (by decide)
      | line column rest =>
        have hread := readBlock_line (hi hliteral) hallowed hne hfits hrest
        rwa [String.ofList_toList] at hread
      | cut =>
        have hread := readBlock_cut (hi hliteral) hallowed hne hrest
        simpa only [Follow.kept, hliteral, if_true] using hread
    rw [htext, literalHeader, List.cons_append, Follow.place_cons p (by decide)] at hl
    rw [if_pos hliteral, hliteral]
    exact reads_of_lexer hl (lexToken_block hl hread) hreached hshorter
  · rw [Follow.place_of_endsWithBreak p (endsWithBreak_writeString hliteral)] at hl
    have hkept : p.kept s = s := by
      cases p <;> simp [Follow.kept, hliteral]
    rw [if_neg hliteral, hkept]
    cases hstyle : styleOf s with
    | plain =>
      obtain ⟨hmeaning, -, hallowed⟩ := plain_of_styleOf hstyle
      have hne : s.toList ≠ [] := by
        rintro h
        obtain rfl : s = "" := String.toList_eq_nil_iff.mp h
        exact absurd hmeaning (by decide)
      have htext : writeString i s = s.toList := by simp only [writeString, hstyle]
      rw [htext] at hl
      have hread := lexToken_plain hl hne hallowed hfits hcolumn
      rwa [String.ofList_toList] at hread
    | single =>
      obtain ⟨d, hread, hreached, hshorter⟩ :=
        readQuoted_single_placed hpositive hstyle hfits hkey hl.rest
      have htext : writeString i s = '\'' :: (singleBody i false s.toList ++ ['\'']) := by
        simp only [writeString, hstyle]
      rw [htext] at hl
      exact reads_of_lexer hl (lexToken_quote (.inl ⟨rfl, rfl⟩) hl hread) hreached hshorter
    | double =>
      obtain ⟨d, hread, hreached, hshorter⟩ := readQuoted_double_placed hstyle hfits hl.rest
      have htext : writeString i s = '"' :: (s.toList.flatMap escape ++ ['"']) := by
        simp only [writeString, hstyle]
      rw [htext] at hl
      exact reads_of_lexer hl (lexToken_quote (.inr ⟨rfl, rfl⟩) hl hread) hreached hshorter
    | literal => exact absurd hstyle hliteral

-- Deeper than the block collection around it nothing must be a key.
theorem optional_keyHere {cs : List Char} (hl : l.Here v n b cs) (hdeeper : v.indent < n) :
    ∀ s ∈ l.keyHere, s.required = false ∧ s.mark.line = l.cursor.line := by
  intro s hs
  rw [keyHere] at hs
  split at hs
  · obtain rfl := Option.some.inj hs
    refine ⟨beq_false_of_ne ?_, rfl⟩
    rw [hl.indent, hl.column]
    exact hdeeper.ne
  · cases hs

-- A scalar that is no key goes on with what follows it.
theorem yields_of_reads {style : ScalarStyle} {text : String} {kinds : List TokenKind}
    {cs : List Char} (hreads : ∀ l : Lexer, l.Here v n b cs → ∃ l' k,
      l.Reads l' v p (.scalar style text) k ∧ (k = none ∨ k = l.keyHere))
    (hdeeper : v.indent < n) (hafter : After (v.add (.scalar style text)) kinds p) :
    Yields v n b cs kinds := by
  intro l fuel hl hfuel
  obtain ⟨l', k, hreads, hk⟩ := hreads l hl
  have hlast : l'.kinds.getLast? ≠ some .streamEnd := by
    rw [hreads.kinds, Level.add, List.getLast?_concat]
    simp
  have hshorter := hreads.shorter
  rw [hl.rest] at hshorter
  rw [finish_of_lexToken hreads.next hlast]
  refine gives_of_reached hreads.toAt (fun s hs => ?_) hreads.reached hafter (hshorter.trans_le hfuel)
  rcases hk with rfl | rfl
  · cases hs
  · exact optional_keyHere hl hdeeper s hs

theorem yields_string {kinds : List TokenKind} (hi : i = (max v.indent 0).toNat + 2)
    (hfits : p.Fits v.indent) (hdeeper : v.indent < n)
    (hafter : After (v.add (.scalar (styleOf s).token (p.kept s))) kinds p) :
    Yields v n b (p.place (writeString i s)) kinds := by
  refine yields_of_reads (fun l hl => ?_) hdeeper hafter
  have hkey : ∀ rest, p = .colon rest → ∀ x ∈ s.toList, isBreak x = false := by
    rintro rest rfl
    exact hafter.elim
  obtain ⟨l', hreads⟩ := lexToken_string hl (by omega) (fun _ => hi) hfits hdeeper.le hkey
  refine ⟨l', _, hreads, ?_⟩
  split
  · exact .inl rfl
  · exact .inr rfl

theorem yields_plain {cs : List Char} {kinds : List TokenKind} (hne : cs ≠ [])
    (hallowed : plainAllowed cs = true) (hfits : p.Fits v.indent) (hdeeper : v.indent < n)
    (hafter : After (v.add (.scalar .plain (String.ofList cs))) kinds p) :
    Yields v n b (p.place cs) kinds := by
  rw [Follow.place_of_endsWithBreak p (endsWithBreak_of_plainAllowed hallowed)]
  refine yields_of_reads (fun l hl => ?_) hdeeper hafter
  obtain ⟨l', hreads⟩ := lexToken_plain hl hne hallowed hfits hdeeper.le
  exact ⟨l', _, hreads, .inr rfl⟩

end Strings

end Skeleton.Yaml
