import Skeleton.Proofs.Yaml.WrittenTokens
import Skeleton.Template.Filter

-- The tokens of a written document, with and without the break at its end.

namespace Skeleton.Yaml

section Characters

variable {c x : Char} {n i : Nat} {afterBreak : Bool} {cs w : List Char} {ws : List (List Char)}

theorem isPlainChar_of_mem_spaces (h : c ∈ spaces n) : isPlainChar c = true := by
  obtain rfl := List.eq_of_mem_replicate h
  decide

theorem isPlainChar_of_mem_hexEscape {mark : Char} {width k : Nat} (hmark : isPlainChar mark = true)
    (h : c ∈ hexEscape mark width k) : isPlainChar c = true := by
  simp only [hexEscape, List.mem_cons, List.mem_append, List.mem_map] at h
  rcases h with rfl | rfl | h | ⟨d, hd, rfl⟩
  · decide
  · exact hmark
  · obtain rfl := List.eq_of_mem_replicate h
    decide
  · obtain ⟨j, hj, rfl⟩ := (@Text.exists_natDigits 16 (by decide) (by decide) k).2.1 d hd
    interval_cases j <;> decide

theorem isPlainChar_of_mem_escape (h : c ∈ escape x) : isPlainChar c = true := by
  unfold escape at h
  split at h
  · rename_i hplain
    simp only [Bool.and_eq_true] at hplain
    rw [List.mem_singleton.mp h]
    exact hplain.1.1.1
  · split at h
    case h_15 =>
      split at h
      · exact isPlainChar_of_mem_hexEscape (by decide) h
      · split at h <;> exact isPlainChar_of_mem_hexEscape (by decide) h
    all_goals
      simp only [List.mem_cons, List.not_mem_nil, or_false] at h
      rcases h with rfl | rfl <;> decide

theorem mem_singleBody (h : c ∈ singleBody n afterBreak cs) : c ∈ cs ∨ c = ' ' ∨ c = '\'' := by
  induction cs generalizing afterBreak with
  | nil =>
    rw [singleBody] at h
    split at h
    · exact .inr (.inl (List.eq_of_mem_replicate h))
    · cases h
  | cons x cs ih =>
    rw [singleBody] at h
    split at h
    · rcases List.mem_cons.mp h with rfl | h
      · exact .inl List.mem_cons_self
      · exact (ih h).imp_left (List.mem_cons_of_mem _)
    · rw [List.mem_append, List.mem_append] at h
      rcases h with (h | h) | h
      · split at h
        · exact .inr (.inl (List.eq_of_mem_replicate h))
        · cases h
      · split at h
        · simp only [List.mem_cons, List.not_mem_nil, or_false, or_self] at h
          exact .inr (.inr h)
        · rw [List.mem_singleton.mp h]
          exact .inl List.mem_cons_self
      · exact (ih h).imp_left (List.mem_cons_of_mem _)

theorem mem_literalBody (h : c ∈ literalBody n afterBreak cs) : c ∈ cs ∨ c = ' ' := by
  induction cs generalizing afterBreak with
  | nil => cases h
  | cons x cs ih =>
    rw [literalBody] at h
    split at h
    · rcases List.mem_cons.mp h with rfl | h
      · exact .inl List.mem_cons_self
      · exact (ih h).imp_left (List.mem_cons_of_mem _)
    · rw [List.mem_append, List.mem_cons] at h
      rcases h with h | rfl | h
      · split at h
        · exact .inr (List.eq_of_mem_replicate h)
        · cases h
      · exact .inl List.mem_cons_self
      · exact (ih h).imp_left (List.mem_cons_of_mem _)

theorem mem_literalHeader (h : c ∈ literalHeader cs) :
    c = '|' ∨ c = '2' ∨ c = '-' ∨ c = '+' := by
  simp only [literalHeader, List.mem_cons, List.mem_append] at h
  rcases h with h | h | h
  · exact .inl h
  · split at h
    · exact .inr (.inl (List.mem_singleton.mp h))
    · cases h
  · split at h
    · simp_all
    · split at h <;> simp_all
    · split at h
      · simp_all
      · split at h <;> simp_all

def AllPlain (w : List Char) : Prop := ∀ c ∈ w, isPlainChar c = true

theorem allPlain_nil : AllPlain [] := List.forall_mem_nil _

theorem AllPlain.append {u : List Char} (hw : AllPlain w) (hu : AllPlain u) : AllPlain (w ++ u) :=
  fun c hc => (List.mem_append.mp hc).elim (hw c) (hu c)

theorem AllPlain.cons (hx : isPlainChar x = true) (hw : AllPlain w) : AllPlain (x :: w) :=
  List.forall_mem_cons.mpr ⟨hx, hw⟩

theorem AllPlain.onNewLine (hw : AllPlain w) : AllPlain (onNewLine n w) := by
  have hspaces : AllPlain (spaces n) := fun c => isPlainChar_of_mem_spaces
  rw [Yaml.onNewLine]
  split
  · exact hw.append hspaces
  · exact hw.append (.cons (by decide) hspaces)

theorem allPlain_joinLines (h : ∀ w ∈ ws, AllPlain w) : AllPlain (joinLines n ws) := by
  induction ws with
  | nil => exact nofun
  | cons w ws ih =>
    obtain ⟨hw, hws⟩ := List.forall_mem_cons.mp h
    cases ws with
    | nil => exact hw
    | cons u ws => exact hw.onNewLine.append (ih hws)

theorem allPlain_of_plainAllowed (h : plainAllowed w = true) : AllPlain w := by
  simp only [plainAllowed, Bool.and_eq_true] at h
  exact List.all_eq_true.mp h.1.1.1

theorem allPlain_writeString (i : Nat) (s : String) : AllPlain (writeString i s) := by
  cases hstyle : styleOf s with
  | plain =>
    simp only [writeString, hstyle]
    exact allPlain_of_plainAllowed (plain_of_styleOf hstyle).2.2
  | single =>
    have hshown := (showable_of_single hstyle).plain
    simp only [writeString, hstyle]
    refine .cons (by decide) (.append (fun c hc => ?_) (.cons (by decide) allPlain_nil))
    rcases mem_singleBody hc with hc | rfl | rfl
    · exact (hshown c hc).1
    · decide
    · decide
  | double =>
    simp only [writeString, hstyle]
    refine .cons (by decide) (.append (fun c hc => ?_) (.cons (by decide) allPlain_nil))
    obtain ⟨x, -, hc⟩ := List.mem_flatMap.mp hc
    exact isPlainChar_of_mem_escape hc
  | literal =>
    have hallowed := (literal_of_styleOf hstyle).2
    simp only [blockAllowed, Bool.and_eq_true, List.all_eq_true] at hallowed
    simp only [writeString, hstyle]
    refine .append (fun c hc => ?_) (.cons (by decide) fun c hc => ?_)
    · rcases mem_literalHeader hc with rfl | rfl | rfl | rfl <;> decide
    · rcases mem_literalBody hc with hc | rfl
      · exact hallowed.1.1 c hc
      · decide

theorem allPlain_writeEntry {name : String} {after below : List Char} (hafter : AllPlain after)
    (hbelow : AllPlain below) : AllPlain (writeEntry n name after below) := by
  rw [writeEntry]
  split
  · exact (allPlain_writeString _ _).append (.cons (by decide) hafter)
  · refine .append (AllPlain.onNewLine ?_) (.cons (by decide) hbelow)
    exact .cons (by decide) (.cons (by decide) (allPlain_writeString _ _))

theorem allPlain_leaf {v : Value} (hleaf : isLeaf v = true) : AllPlain (writeAt n v) := by
  cases v with
  | bool b =>
    rw [writeAt]
    exact allPlain_of_plainAllowed (by cases b <;> decide)
  | integer k =>
    rw [writeAt]
    exact allPlain_of_plainAllowed (plainAllowed_decimalInt _)
  | float d =>
    rw [writeAt]
    exact allPlain_of_plainAllowed (plainAllowed_write d)
  | string s =>
    rw [writeAt]
    exact allPlain_writeString n s
  | sequence items =>
    cases items with
    | nil =>
      rw [writeAt]
      exact .cons (by decide) (.cons (by decide) allPlain_nil)
    | cons => cases hleaf
  | mapping fields =>
    cases fields with
    | nil =>
      rw [writeAt]
      exact .cons (by decide) (.cons (by decide) allPlain_nil)
    | cons => cases hleaf

theorem allPlain_writeLeaf {v : Value} (hleaf : isLeaf v = true) :
    AllPlain (writeAt n v) ∧ AllPlain (writeAfterKey n v) := by
  refine ⟨allPlain_leaf hleaf, ?_⟩
  rw [writeAfterKey_leaf hleaf]
  exact .cons (by decide) (allPlain_leaf hleaf)

-- A value is written with characters that documents show.
theorem allPlain_write : ∀ (v : Value) (n : Nat),
    AllPlain (writeAt n v) ∧ AllPlain (writeAfterKey n v)
  | .sequence (item :: rest), n => by
    have hitems (n : Nat) : AllPlain (joinLines n (writeItems n (item :: rest))) := by
      refine allPlain_joinLines fun w hw => ?_
      rw [writeItems_eq] at hw
      obtain ⟨item', hitem, rfl⟩ := List.mem_map.mp hw
      exact .cons (by decide) (.cons (by decide) (allPlain_write item' _).1)
    have hspaces : AllPlain (spaces n) := fun c => isPlainChar_of_mem_spaces
    refine ⟨?_, ?_⟩
    · rw [writeAt, ← writeItems]
      exact hitems n
    · rw [writeAfterKey, ← writeItems]
      exact .append (.cons (by decide) hspaces) (hitems n)
  | .mapping (entry :: rest), n => by
    have hentries (n : Nat) : AllPlain (joinLines n (writeEntries n (entry :: rest))) := by
      refine allPlain_joinLines fun w hw => ?_
      rw [writeEntries_eq] at hw
      obtain ⟨entry', hentry, rfl⟩ := List.mem_map.mp hw
      exact allPlain_writeEntry (allPlain_write entry'.2 _).2
        (.cons (by decide) (allPlain_write entry'.2 _).1)
    have hspaces : AllPlain (spaces (n + 2)) := fun c => isPlainChar_of_mem_spaces
    refine ⟨?_, ?_⟩
    · rw [writeAt, ← writeEntries]
      exact hentries n
    · rw [writeAfterKey, ← writeEntries]
      exact .append (.cons (by decide) hspaces) (hentries (n + 2))
  | .sequence [], n => allPlain_writeLeaf rfl
  | .mapping [], n => allPlain_writeLeaf rfl
  | .bool _, n => allPlain_writeLeaf rfl
  | .integer _, n => allPlain_writeLeaf rfl
  | .float _, n => allPlain_writeLeaf rfl
  | .string _, n => allPlain_writeLeaf rfl
termination_by v => sizeOf v
decreasing_by
  · have hless := List.sizeOf_lt_of_mem hitem
    simp only [Value.sequence.sizeOf_spec]
    omega
  all_goals
    have hless := List.sizeOf_lt_of_mem hentry
    have hpart : sizeOf entry' = 1 + sizeOf entry'.1 + sizeOf entry'.2 := by
      cases entry'
      rfl
    simp only [Value.mapping.sizeOf_spec]
    omega

theorem allPlain_place {p : Follow} (hp : EndsDocument p) (hw : AllPlain w) :
    AllPlain (p.place w) := by
  rcases hp with rfl | rfl
  · exact hw.onNewLine.append nofun
  · obtain ⟨tail, -, heq⟩ := Text.exists_dropEndWhile_append (· == '\n') w
    intro c hc
    exact hw c (heq ▸ List.mem_append_left tail hc)

theorem allPlain_textOf (v : Value) : AllPlain (textOf v) := by
  by_cases hstring : ∃ s, v = .string s
  · obtain ⟨s, rfl⟩ := hstring
    exact allPlain_writeString 2 s
  · rw [textOf_of_not_string fun s hs => hstring ⟨s, hs⟩]
    exact (allPlain_write v 0).1

end Characters

section Tokens

variable {c : Char} {cs : List Char} {kinds : List TokenKind} {v : Value} {p : Follow}

theorem isDocumentChar_of_isPlainChar (h : isPlainChar c = true) :
    isDocumentChar c = true ∧ c ≠ '\uFEFF' := by
  constructor
  · simp only [isPlainChar, Bool.or_eq_true, Bool.and_eq_true, decide_eq_true_eq, beq_iff_eq] at h
    simp only [isDocumentChar, Bool.or_eq_true, Bool.and_eq_true, decide_eq_true_eq, beq_iff_eq]
    omega
  · rintro rfl
    exact absurd h (by decide)

-- The tokens of a text are those that the lexer finds from its start.
theorem tokensOf_of_yields (hplain : AllPlain cs) (hstarts : StartsToken cs)
    (hyields : Yields ⟨[], -1, []⟩ 0 true cs kinds) :
    ∃ tokens, tokensOf (String.ofList cs) = .ok tokens ∧ tokens.map (·.kind) = kinds := by
  have hmark : ∀ c ∈ cs.head?, c ≠ '\uFEFF' := fun c hc =>
    (isDocumentChar_of_isPlainChar (hplain c (List.mem_of_mem_head? hc))).2
  have hdrop : dropOrderMark cs = cs := by
    unfold dropOrderMark
    split
    · exact absurd rfl (hmark _ rfl)
    · rfl
  have hpeek : (Cursor.start cs).peek? ≠ some '\uFEFF' := fun h => hmark _ h rfl
  have hall : cs.all isDocumentChar = true := List.all_eq_true.mpr fun c hc =>
    (isDocumentChar_of_isPlainChar (hplain c hc)).1
  obtain ⟨tokens, hrun, hkinds⟩ : Lexer.Gives
      (Lexer.run (cs.length + 1) (.start (Cursor.start cs))) kinds := by
    refine gives_of_skip (v := ⟨[], -1, []⟩) (k := none) ⟨rfl, rfl, rfl, rfl⟩ nofun
      (skipToToken_of_startsToken hstarts) ?_ (Nat.lt_succ_self _)
    rw [Level.close_of_le (show (-1 : Int) ≤ (0 : Nat) by decide)]
    exact hyields
  refine ⟨tokens.toList, ?_, hkinds⟩
  simp only [tokensOf, String.toList_ofList, hdrop, hall, Bool.not_true, Bool.false_eq_true,
    if_false, if_neg hpeek, hrun]
  rfl

theorem starts_textOf (v : Value) : Starts (textOf v) := by
  by_cases hstring : ∃ s, v = .string s
  · obtain ⟨s, rfl⟩ := hstring
    exact starts_writeString 2 s
  · rw [textOf_of_not_string fun s hs => hstring ⟨s, hs⟩]
    exact starts_writeAt 0 v

theorem tokensOf_place (hp : EndsDocument p) : ∃ tokens,
    tokensOf (String.ofList (p.place (textOf v))) = .ok tokens ∧
      tokens.map (·.kind) = kindsOf p.kept false v ++ [.streamEnd] :=
  tokensOf_of_yields (allPlain_place hp (allPlain_textOf v)) ((starts_textOf v).startsToken p)
    (yields_document hp)

-- A document that was written has the tokens of its value.
theorem tokensOf_write (v : Value) : ∃ tokens, tokensOf (write v) = .ok tokens ∧
    tokens.map (·.kind) = kindsOf id false v ++ [.streamEnd] := by
  have hwrite : String.ofList ((Follow.line 0 []).place (textOf v)) = write v := by
    rw [Follow.place, List.append_nil, ← toList_write, String.ofList_toList]
  have htokens := @tokensOf_place v _ (.inl rfl)
  rwa [hwrite] at htokens

-- Without the breaks at its end it has them, too, except for those breaks that the last string
-- shows.
theorem tokensOf_trimNewlines (v : Value) : ∃ tokens,
    tokensOf (Template.Filter.trimNewlines (write v)) = .ok tokens ∧
      tokens.map (·.kind) = kindsOf Follow.cut.kept false v ++ [.streamEnd] := by
  have htrim : String.ofList (Follow.cut.place (textOf v)) =
      Template.Filter.trimNewlines (write v) := by
    rw [Template.Filter.trimNewlines, toList_write, Follow.place, onNewLine]
    split
    · rw [spaces, List.replicate_zero, List.append_nil]
    · rw [spaces, List.replicate_zero, Text.dropEndWhile_append fun x hx => ?_]
      simp [List.mem_singleton.mp hx]
  have htokens := @tokensOf_place v _ (.inr rfl)
  rwa [htrim] at htokens

end Tokens

end Skeleton.Yaml
